import Box64.Emu.Locked
import Box64.Emu.UpperHalf
import Box64.Lib.BitString

/-!
# Bit tests with the offset in a register

`BT`, `BTS`, `BTR` and `BTC` of a register or a memory operand, in the maps for the prefixes `0x66` and `LOCK`, against
the bit string at the operand.
-/

namespace Box64.Emu

open BitVec BitString RetryLoop

/-! ### The instructions -/

/-- The opcodes `0xA3`, `0xAB`, `0xB3` and `0xBB` after `0x0f`. -/
inductive BitTest
  | BT
  | BTS
  | BTR
  | BTC
  deriving DecidableEq

/-- The map that has the instruction: without a prefix, with `0x66`, with `LOCK`, and with both. -/
inductive BitMap
  | Run0F
  | Run660F
  | RunF0
  | Run66F0
  deriving DecidableEq

namespace BitTest

/-- What it does to the operand. -/
def change : BitTest → Option BitOp
  | BT => none
  | BTS => some .BTS_Gd
  | BTR => some .BTR
  | BTC => some .BTC

end BitTest

def BitMap.width (map : BitMap) (rex : Rex) : Width :=
  if rex.w then .w64 else
    match map with
    | .Run0F | .RunF0 => .w32
    | .Run660F | .Run66F0 => .w16

namespace Insn

variable (i : Insn) (emu : X64Emu) (mem : Memory) (others : List Memory) (retries : Nat)

/-- `EW` moved to the word that holds the bit, and the bit of it. -/
def bitOperandW : Insn × Nat :=
  if i.rex.w then i.bitOperand .w64 emu else
    let tmp32s := (emu.reg .w16 i.GD).signExtend 32
    let words := (tmp32s.sshiftRight 4) <<< 1
    (if i.MODREG then i else { i with ed := i.ed + words.signExtend 64 }, (tmp32s &&& 15).toNat)

/-- `ED` moved from the low byte of the register. -/
def bitOperandLock : Insn × Nat :=
  let (ed, k) := i.lockBitOperand emu
  (if i.MODREG then i else { i with ed := ed }, k)

/-- The operand read into `CF` and changed. -/
def testBit (w : Width) (op : BitTest) (k : Nat) : X64Emu × Memory :=
  match op.change with
  | none => (emu.setCF ((i.ED w emu mem).getLsbD k), mem)
  | some op => i.bit w emu mem op k

/-- `if(MODREG) ED->dword[1] = 0;` where the operand has 32 bits. -/
def clearUpper (w : Width) (emu : X64Emu) : X64Emu := if w = .w32 ∧ i.MODREG then emu.clearHigh i.edReg else emu

/-- A pass of `BTR` over a register. -/
def btrRegisterPass (w : Width) (k : Nat) (emu : X64Emu) (cell : BitVec 64) : Pass X64Emu (BitVec 64) :=
  let tmp := low w.bits cell
  if tmp &&& twoPow w.bits k ≠ 0 then ⟨emu.setCF true, some (setLow cell (tmp ^^^ twoPow w.bits k))⟩
  else ⟨emu.setCF false, none⟩

/-- `BTR` of a register in the loop of the locked form, whose store fails `retries` times. -/
def lockBTR_register (w : Width) (k : Nat) : X64Emu :=
  let cell := emu.regs i.edReg
  let final := run (btrRegisterPass w k) emu cell (List.replicate retries cell)
  { final.state with regs := Function.update final.state.regs i.edReg final.object }

/-- The locked forms at a bit: `BTS` has a loop for memory only. -/
def lockBit (w : Width) (op : BitTest) (k : Nat) : Option (Final X64Emu Memory) :=
  match op, i.MODREG with
  | .BTS, true => some ⟨i.clearUpper w (i.bit w emu mem .BTS_Gd k).1, mem, mem⟩
  | .BTS, false => some (run (MemInsn.btsPass w i.ed k (· ||| twoPow _ k)) emu mem others)
  | .BTR, true => some ⟨i.clearUpper w (i.lockBTR_register emu retries w k), mem, mem⟩
  | .BTR, false => some (run (MemInsn.btrPass w i.ed k) emu mem others)
  | _, _ => none

end Insn

namespace BitMap

variable (map : BitMap) (i : Insn) (op : BitTest) (emu : X64Emu) (mem : Memory) (others : List Memory) (retries : Nat)

/-- The operand moved to its word, and the bit of it. `Run66F0` has none of these opcodes; with `rex.w` it hands the byte
after `0x0f` to `RunF0`, which has none of them either. -/
def operand : Option (Insn × Nat) :=
  match map with
  | .Run0F => some (i.bitOperand (map.width i.rex) emu)
  | .Run660F => some (i.bitOperandW emu)
  | .RunF0 => some (i.bitOperandLock emu)
  | .Run66F0 => none

/-- The instruction at the bit its operand gave. -/
def testAt (i : Insn) (k : Nat) : Option (Final X64Emu Memory) :=
  let w := map.width i.rex
  match map with
  | .Run0F =>
    let (emu, mem') := i.testBit emu mem w op k
    some ⟨if op = .BT then emu else i.clearUpper w emu, mem, mem'⟩
  | .Run660F =>
    let (emu, mem') := i.testBit emu mem w op k
    some ⟨emu, mem, mem'⟩
  | .RunF0 => i.lockBit emu mem others retries w op k
  | .Run66F0 => none

def exec : Option (Final X64Emu Memory) :=
  let emu := CHECK_FLAGS emu
  (map.operand i emu).bind fun (i, k) => map.testAt op emu mem others retries i k

end BitMap

/-! ### The bit string at the operand -/

namespace BitTest

/-- The bit afterwards. -/
def result (old : Bool) : BitTest → Bool
  | BT => old
  | BTS => true
  | BTR => false
  | BTC => !old

/-- The register afterwards: `BT` writes nothing, and a write of 32 bits clears the upper half. -/
def register (op : BitTest) (w : Width) (k : Nat) (cell : BitVec 64) : BitVec 64 :=
  let v := withBit (low w.bits cell) k (op.result ((low w.bits cell).getLsbD k))
  if op = BT then cell else if w = .w32 then v.setWidth 64 else setLow cell v

end BitTest

namespace Insn

variable (i : Insn) (w : Width) (emu : X64Emu)

/-- The offset: the register as a signed number of the operand's width. -/
def bitOffset : Int := (emu.reg w i.GD).toInt

/-- The operand at a distance, if it is in memory. -/
def moveBy (d : Int) : Insn := if i.MODREG then i else { i with ed := i.ed + BitVec.ofInt 64 d }

/-- The word of the operand's width that holds the bit, and the bit of it. -/
def bitWord (o : Int) : Insn × Nat := (if i.MODREG then i else { i with ed := wordOf w.bits i.ed o }, placeOf w.bits o)

/-- `CF` has the old bit, the operand has the new one, and nothing else is written. -/
def LeavesBit (op : BitTest) (o : Int) (final : Final X64Emu Memory) : Prop :=
  let k := placeOf w.bits o
  if i.MODREG then
    let emu' := emu.setCF ((emu.reg w i.edReg).getLsbD k)
    final.state = { emu' with regs := Function.update emu.regs i.edReg (op.register w k (emu.regs i.edReg)) } ∧
      final.object = final.seen
  else
    let old := (final.seen.load w.bits (wordOf w.bits i.ed o)).getLsbD k
    final.state = emu.setCF old ∧ final.object = BitString.set final.seen i.ed o (op.result old)

end Insn

namespace BitMap

variable (map : BitMap) (i : Insn) (op : BitTest) (emu : X64Emu) (mem : Memory) (others : List Memory) (retries : Nat)

/-- The memories a map may see. -/
def memories : List Memory :=
  match map with
  | .Run0F | .Run660F => [mem]
  | .RunF0 | .Run66F0 => mem :: others

/-- The instruction takes the bit its offset names. -/
def FollowsBitString : Prop :=
  let w := map.width i.rex
  let emu' := CHECK_FLAGS emu
  let o := i.bitOffset w emu
  map.operand i emu' = some (i.bitWord w o) ∧
    ∃ final, map.exec i op emu mem others retries = some final ∧ final.seen ∈ map.memories mem others ∧
      i.LeavesBit w emu' op o final

/-- The offset fits into what the code reads of the register. -/
def ReadsOffset : Prop :=
  let w := map.width i.rex
  let o := i.bitOffset w emu
  match map with
  | .Run0F | .Run660F => i.MODREG ∨ w ≠ .w64 ∨ -2 ^ 31 ≤ o ∧ o < 2 ^ 31
  | .RunF0 => i.MODREG ∨ 0 ≤ o ∧ o < 2 ^ 8 ∧ (w = .w64 → o % 64 < 32)
  | .Run66F0 => False

instance : Decidable (map.ReadsOffset i emu) :=
  match map with
  | .Run0F | .Run660F => inferInstanceAs (Decidable (_ ∨ _ ∨ _ ∧ _))
  | .RunF0 => inferInstanceAs (Decidable (_ ∨ _ ∧ _ ∧ (_ → _)))
  | .Run66F0 => .isFalse id

/-- `RunF0` has `BTS` and `BTR`, `Run66F0` none of the instructions. -/
def Has : Prop :=
  match map with
  | .Run0F | .Run660F => True
  | .RunF0 => op = .BTS ∨ op = .BTR
  | .Run66F0 => False

end BitMap

/-! ### Where the code goes -/

namespace Insn

variable (i : Insn) (emu : X64Emu)

theorem moveBy_inj {d d' : Int} (low : -2 ^ 62 ≤ d) (high : d < 2 ^ 62) (low' : -2 ^ 62 ≤ d') (high' : d' < 2 ^ 62) :
    i.moveBy d = i.moveBy d' ↔ i.MODREG = true ∨ d = d' := by
  rw [moveBy, moveBy]
  by_cases register : i.MODREG = true
  · simp [register]
  · rw [if_neg register, if_neg register, ← add_ofInt_inj i.ed low high low' high']
    simp [register]

theorem bitWord_eq (w : Width) (o : Int) :
    i.bitWord w o = (i.moveBy ((w.bits / 8 : Nat) * (o / w.bits)), placeOf w.bits o) := rfl

theorem placeOf_bitOffset' {n : Nat} (w : Width) (whole : n ∣ 2 ^ w.bits) :
    placeOf n (i.bitOffset w emu) = (emu.regs i.GD).toNat % n := by
  rw [bitOffset, placeOf_toInt _ whole, X64Emu.reg, low, toNat_setWidth]
  exact Nat.mod_mod_of_dvd _ whole

theorem placeOf_bitOffset (w : Width) : placeOf w.bits (i.bitOffset w emu) = (emu.regs i.GD).toNat % w.bits :=
  placeOf_bitOffset' i emu w (by cases w <;> decide)

theorem bitOperand_w32 : i.bitOperand .w32 emu = i.bitWord .w32 (i.bitOffset .w32 emu) := by
  have words := signExtend_shifts (t := 2) (low 32 (emu.regs i.GD)) (show 2 ≤ 5 by decide) (by decide)
  have place : (low 32 (emu.regs i.GD) &&& 31#32).toNat = placeOf Width.w32.bits (i.bitOffset .w32 emu) := by
    rw [placeOf_bitOffset, BitVec.toNat_and, low, toNat_setWidth]
    exact (Nat.and_two_pow_sub_one_eq_mod _ 5).trans (Nat.mod_mod_of_dvd _ (by decide))
  rw [bitWord_eq, moveBy, ← place]
  exact congrArg (fun d => (if i.MODREG then i else { i with ed := i.ed + d }, (low 32 (emu.regs i.GD) &&& 31#32).toNat))
    words

/-- The word is found from the low half of the register. -/
theorem bitOperand_w64 :
    i.bitOperand .w64 emu =
      (i.moveBy (8 * ((low 32 (emu.regs i.GD)).toInt / 64)), placeOf Width.w64.bits (i.bitOffset .w64 emu)) := by
  have words := signExtend_shifts (t := 3) (low 32 (emu.regs i.GD)) (show 3 ≤ 6 by decide) (by decide)
  have place : (low 32 (emu.regs i.GD) &&& 63#32).toNat = placeOf Width.w64.bits (i.bitOffset .w64 emu) := by
    rw [placeOf_bitOffset, BitVec.toNat_and, low, toNat_setWidth]
    exact (Nat.and_two_pow_sub_one_eq_mod _ 6).trans (Nat.mod_mod_of_dvd _ (by decide))
  rw [moveBy, ← place]
  exact congrArg (fun d => (if i.MODREG then i else { i with ed := i.ed + d }, (low 32 (emu.regs i.GD) &&& 63#32).toNat))
    words

theorem bitOperandW_w16 (narrow : i.rex.w = false) :
    i.bitOperandW emu = i.bitWord .w16 (i.bitOffset .w16 emu) := by
  have words := signExtend_shifts (t := 1) ((low 16 (emu.regs i.GD)).signExtend 32) (show 1 ≤ 4 by decide) (by decide)
  have value : ((low 16 (emu.regs i.GD)).signExtend 32).toInt = i.bitOffset .w16 emu := toInt_signExtend_of_le (by decide)
  have place : ((low 16 (emu.regs i.GD)).signExtend 32 &&& 15#32).toNat = placeOf Width.w16.bits (i.bitOffset .w16 emu) := by
    rw [← value, Width.bits, placeOf_toInt _ (by decide), BitVec.toNat_and]
    exact Nat.and_two_pow_sub_one_eq_mod _ 4
  rw [value] at words
  rw [bitOperandW, narrow, bitWord_eq, moveBy, ← place]
  exact congrArg
    (fun d =>
      (if i.MODREG then i else { i with ed := i.ed + d }, ((low 16 (emu.regs i.GD)).signExtend 32 &&& 15#32).toNat))
    words

theorem low32_toInt_iff (x : BitVec 64) : (low 32 x).toInt = x.toInt ↔ -2 ^ 31 ≤ x.toInt ∧ x.toInt < 2 ^ 31 := by
  rw [low, toInt_eq_toNat_cond, toInt_eq_toNat_cond, toNat_setWidth]
  have below := x.isLt
  split <;> split <;> omega

theorem bitOffset_w64 : i.bitOffset .w64 emu = (emu.regs i.GD).toInt :=
  congrArg BitVec.toInt (setWidth_eq (emu.regs i.GD))

theorem bitOperand_w64_iff :
    i.bitOperand .w64 emu = i.bitWord .w64 (i.bitOffset .w64 emu) ↔
      i.MODREG = true ∨ -2 ^ 31 ≤ i.bitOffset .w64 emu ∧ i.bitOffset .w64 emu < 2 ^ 31 := by
  have range := low32_toInt_iff (emu.regs i.GD)
  have lower := le_toInt (low 32 (emu.regs i.GD))
  have upper := toInt_lt (x := low 32 (emu.regs i.GD))
  have lower' := le_toInt (emu.regs i.GD)
  have upper' := toInt_lt (x := emu.regs i.GD)
  have place : (low 32 (emu.regs i.GD)).toInt % 64 = (emu.regs i.GD).toInt % 64 := by
    rw [low, toInt_eq_toNat_cond, toInt_eq_toNat_cond, toNat_setWidth]
    split <;> split <;> omega
  rw [bitOperand_w64, bitWord_eq, Prod.mk.injEq, bitOffset_w64, ← range]
  generalize (low 32 (emu.regs i.GD)).toInt = p at *
  generalize (emu.regs i.GD).toInt = o at *
  rw [Width.bits, i.moveBy_inj (by omega) (by omega) (by omega) (by omega)]
  refine ⟨fun both => both.1.imp_right fun words => ?_, fun same => ⟨same.imp_right fun eq => ?_, rfl⟩⟩
  · omega
  · rw [eq]
    rfl

/-- `tmp8u>>5` words of 32 bits. -/
theorem lockedWords (x : BitVec 64) :
    4 * ((x.setWidth 8) >>> 5).setWidth 64 = BitVec.ofInt 64 (4 * (x.toNat % 256 / 32 : Nat)) := by
  apply eq_of_toNat_eq
  rw [toNat_mul, toNat_setWidth, toNat_ushiftRight, toNat_setWidth, Nat.shiftRight_eq_div_pow, toNat_ofInt]
  change 4 * (x.toNat % 2 ^ 8 / 2 ^ 5 % 2 ^ 64) % 2 ^ 64 = _
  omega

/-- The word and the bit are found from the low byte of the register. -/
theorem bitOperandLock_eq :
    i.bitOperandLock emu =
      (i.moveBy (4 * ((emu.regs i.GD).toNat % 256 / 32 : Nat)),
        placeOf (BitMap.RunF0.width i.rex).bits (i.bitOffset (BitMap.RunF0.width i.rex) emu)) := by
  have words := lockedWords (emu.regs i.GD)
  have place : (if i.rex.w then ((emu.regs i.GD).setWidth 8 &&& 63#8).toNat else ((emu.regs i.GD).setWidth 8 &&& 31#8).toNat) =
      placeOf (BitMap.RunF0.width i.rex).bits (i.bitOffset (BitMap.RunF0.width i.rex) emu) := by
    rw [placeOf_bitOffset, BitVec.toNat_and, BitVec.toNat_and, toNat_setWidth, BitMap.width]
    split
    · exact (Nat.and_two_pow_sub_one_eq_mod _ 6).trans (Nat.mod_mod_of_dvd _ (by decide))
    · exact (Nat.and_two_pow_sub_one_eq_mod _ 5).trans (Nat.mod_mod_of_dvd _ (by decide))
  rw [moveBy, ← words, ← place]
  rfl

theorem bitOperandLock_iff {w : Width} (width : BitMap.RunF0.width i.rex = w) :
    i.bitOperandLock emu = i.bitWord w (i.bitOffset w emu) ↔
      i.MODREG = true ∨ 0 ≤ i.bitOffset w emu ∧ i.bitOffset w emu < 2 ^ 8 ∧ (w = .w64 → i.bitOffset w emu % 64 < 32) := by
  have lower : -2 ^ 63 ≤ i.bitOffset w emu := by
    have least := le_toInt (emu.reg w i.GD)
    cases w <;> exact Int.le_trans (by decide) least
  have upper : i.bitOffset w emu < 2 ^ 63 := by
    have most := toInt_lt (x := emu.reg w i.GD)
    cases w <;> exact Int.lt_of_lt_of_le most (by decide)
  have byte : (i.bitOffset w emu % 256).toNat = (emu.regs i.GD).toNat % 256 :=
    placeOf_bitOffset' i emu w (by cases w <;> decide)
  rw [bitOperandLock_eq, bitWord_eq, Prod.mk.injEq, width]
  generalize i.bitOffset w emu = o at *
  obtain rfl | rfl : w = .w64 ∨ w = .w32 := by
    rw [← width, BitMap.width]
    split <;> simp
  · rw [Width.bits, i.moveBy_inj (by omega) (by omega) (by omega) (by omega)]
    simp only [and_true, true_implies]
    refine or_congr_right ?_
    omega
  · rw [Width.bits, i.moveBy_inj (by omega) (by omega) (by omega) (by omega)]
    simp only [and_true, reduceCtorEq, false_implies]
    refine or_congr_right ?_
    omega

end Insn

/-! ### What the code does there -/

section Effect

variable (i : Insn) (w : Width) (op : BitTest) (emu : X64Emu) (mem : Memory)

theorem putED_same : i.putED emu mem (i.ED w emu mem) = (emu, mem) := by
  rw [Insn.putED, Insn.ED]
  by_cases register : i.MODREG = true
  · rw [if_pos register, if_pos register, X64Emu.setReg, X64Emu.reg, setLow_low, Function.update_eq_self]
  · rw [if_neg register, if_neg register, Memory.store_load mem i.ed w.dvd_bits w.bits_le]

/-- The new value of an operand is the old one with the bit changed. -/
theorem eval_change {c : BitOp} (change : op.change = some c) {n k : Nat} (tmp : BitVec n) (lt : k < n) :
    (c.eval tmp k).getD tmp = withBit tmp k (op.result (tmp.getLsbD k)) := by
  have same := withBit_same tmp lt
  have turned := withBit_not tmp lt
  cases op with
  | BT => exact absurd change (by simp [BitTest.change])
  | BTS =>
    obtain rfl := Option.some.inj change
    cases bit : tmp.getLsbD k with
    | false => simp [BitOp.eval, bit, BitTest.result, withBit]
    | true =>
      rw [bit] at same
      simp [BitOp.eval, bit, BitTest.result, same]
  | BTR =>
    obtain rfl := Option.some.inj change
    cases bit : tmp.getLsbD k with
    | false =>
      rw [bit] at same
      simp [BitOp.eval, bit, BitTest.result, same]
    | true =>
      rw [bit] at turned
      simpa [BitOp.eval, bit, BitTest.result] using turned.symm
  | BTC =>
    obtain rfl := Option.some.inj change
    exact turned.symm

theorem testBit_eq {k : Nat} (lt : k < w.bits) :
    i.testBit emu mem w op k =
      i.putED (emu.setCF ((i.ED w emu mem).getLsbD k)) mem
        (withBit (i.ED w emu mem) k (op.result ((i.ED w emu mem).getLsbD k))) := by
  have same (b : Bool) : i.putED (emu.setCF b) mem (i.ED w emu mem) = (emu.setCF b, mem) :=
    putED_same i w (emu.setCF b) mem
  rw [Insn.testBit]
  cases change : op.change with
  | none =>
    have only : op = .BT := by
      cases op <;> first | rfl | exact absurd change (by simp [BitTest.change])
    rw [only, BitTest.result, withBit_same _ lt, same]
  | some c =>
    rw [← eval_change op change _ lt]
    simp only [Insn.bit]
    cases c.eval (i.ED w emu mem) k with
    | none => exact (same _).symm
    | some v => rfl

theorem leavesBit_memory (memory : ¬ i.MODREG = true) (o : Int) {final : Final X64Emu Memory}
    (state : final.state = emu.setCF ((final.seen.load w.bits (wordOf w.bits i.ed o)).getLsbD (placeOf w.bits o)))
    (object : final.object = final.seen.store (wordOf w.bits i.ed o)
      (withBit (final.seen.load w.bits (wordOf w.bits i.ed o)) (placeOf w.bits o)
        (op.result ((final.seen.load w.bits (wordOf w.bits i.ed o)).getLsbD (placeOf w.bits o))))) :
    i.LeavesBit w emu op o final := by
  rw [Insn.LeavesBit, if_neg memory]
  refine ⟨state, object.trans ?_⟩
  exact store_withBit final.seen i.ed o _ w.dvd_bits w.bits_pos w.bits_le

theorem leavesBit_testBit_memory (memory : ¬ i.MODREG = true) (o : Int) :
    i.LeavesBit w emu op o
      ⟨((i.bitWord w o).1.testBit emu mem w op (placeOf w.bits o)).1, mem,
        ((i.bitWord w o).1.testBit emu mem w op (placeOf w.bits o)).2⟩ := by
  have moved : (i.bitWord w o).1 = { i with ed := wordOf w.bits i.ed o } := if_neg memory
  have reads : ({ i with ed := wordOf w.bits i.ed o } : Insn).ED w emu mem = mem.load w.bits (wordOf w.bits i.ed o) :=
    if_neg memory
  have writes (emu : X64Emu) (v : BitVec w.bits) :
      ({ i with ed := wordOf w.bits i.ed o } : Insn).putED emu mem v = (emu, mem.store (wordOf w.bits i.ed o) v) :=
    if_neg memory
  rw [moved, testBit_eq _ w op emu mem (placeOf_lt o w.bits_pos), reads, writes]
  exact leavesBit_memory i w op emu memory o rfl rfl

/-- A register operand tested, before its upper half is cleared. -/
def testRegister (r : Fin 16) (k : Nat) : X64Emu :=
  (emu.setCF ((emu.reg w r).getLsbD k)).setReg r (withBit (emu.reg w r) k (op.result ((emu.reg w r).getLsbD k)))

theorem testBit_register (register : i.MODREG = true) {k : Nat} (lt : k < w.bits) :
    i.testBit emu mem w op k = (testRegister w op emu i.edReg k, mem) := by
  have reads : i.ED w emu mem = emu.reg w i.edReg := if_pos register
  rw [testBit_eq i w op emu mem lt, reads]
  exact if_pos register

theorem register_eq {k : Nat} (lt : k < w.bits) (cell : BitVec 64) (kept : op = .BT ∨ w ≠ .w32) :
    op.register w k cell = setLow cell (withBit (low w.bits cell) k (op.result ((low w.bits cell).getLsbD k))) := by
  rw [BitTest.register]
  by_cases reads : op = .BT
  · rw [if_pos reads, reads, BitTest.result, withBit_same _ lt, setLow_low]
  · rw [if_neg reads, if_neg (kept.resolve_left reads)]

theorem leavesBit_register (register : i.MODREG = true) (o : Int) (kept : op = .BT ∨ w ≠ .w32) :
    i.LeavesBit w emu op o ⟨testRegister w op emu i.edReg (placeOf w.bits o), mem, mem⟩ := by
  rw [Insn.LeavesBit, if_pos register, register_eq w op (placeOf_lt o w.bits_pos) _ kept]
  exact ⟨rfl, rfl⟩

theorem leavesBit_cleared (register : i.MODREG = true) (o : Int) (writes : op ≠ .BT) :
    i.LeavesBit w emu op o ⟨i.clearUpper w (testRegister w op emu i.edReg (placeOf w.bits o)), mem, mem⟩ := by
  by_cases narrow : w = .w32
  · subst narrow
    rw [Insn.LeavesBit, if_pos register, Insn.clearUpper, if_pos ⟨rfl, register⟩, BitTest.register, if_neg writes,
      if_pos rfl]
    refine ⟨?_, rfl⟩
    have cleared : (testRegister .w32 op emu i.edReg (placeOf Width.w32.bits o)).reg .w32 i.edReg =
        withBit (emu.reg .w32 i.edReg) (placeOf Width.w32.bits o)
          (op.result ((emu.reg .w32 i.edReg).getLsbD (placeOf Width.w32.bits o))) := by
      rw [X64Emu.reg, testRegister, setReg_regs, Function.update_self, low_setLow (by decide)]
    rw [X64Emu.clearHigh, cleared, X64Emu.setWhole, X64Emu.setReg, setLow_full]
    simp only [testRegister, X64Emu.setReg, X64Emu.setCF, Function.update_idem]
    rfl
  · have same : i.clearUpper w (testRegister w op emu i.edReg (placeOf w.bits o)) =
        testRegister w op emu i.edReg (placeOf w.bits o) := if_neg fun both => narrow both.1
    rw [same]
    exact leavesBit_register i w op emu mem register o (.inr narrow)

end Effect

/-! ### The loops of the locked forms -/

section Loops

variable (i : Insn) (w : Width) (emu : X64Emu) (mem : Memory) (others : List Memory)

/-- A pass that only sets `CF` forgets the passes before it. -/
theorem absorbs_of_carry {γ : Type} {body : X64Emu → γ → Pass X64Emu γ}
    (forgets : ∀ s b o, body (s.setCF b) o = body s o) (carries : ∀ s o, ∃ b, (body s o).state = s.setCF b) :
    Absorbs body := by
  intro s o o' _
  obtain ⟨b, state⟩ := carries s o
  rw [state, forgets]

theorem absorbs_bts (ed : BitVec 64) (k : Nat) (set : BitVec w.bits → BitVec w.bits) :
    Absorbs (MemInsn.btsPass w ed k set) := by
  refine absorbs_of_carry (fun _ _ _ => rfl) fun s o => ?_
  simp only [MemInsn.btsPass]
  split
  · exact ⟨true, rfl⟩
  · exact ⟨false, rfl⟩

theorem absorbs_btr (ed : BitVec 64) (k : Nat) : Absorbs (MemInsn.btrPass w ed k) := by
  refine absorbs_of_carry (fun _ _ _ => rfl) fun s o => ?_
  simp only [MemInsn.btrPass]
  split
  · exact ⟨true, rfl⟩
  · exact ⟨false, rfl⟩

theorem absorbs_btrRegister (k : Nat) : Absorbs (Insn.btrRegisterPass w k) := by
  refine absorbs_of_carry (fun _ _ _ => rfl) fun s o => ?_
  simp only [Insn.btrRegisterPass]
  split
  · exact ⟨true, rfl⟩
  · exact ⟨false, rfl⟩

theorem leavesBit_bts (memory : ¬ i.MODREG = true) (o : Int) :
    i.LeavesBit w emu .BTS o
      (run (MemInsn.btsPass w (wordOf w.bits i.ed o) (placeOf w.bits o) (· ||| twoPow _ (placeOf w.bits o))) emu mem
        others) := by
  obtain ⟨state, object⟩ := final_of_absorbs
    (absorbs_bts w (wordOf w.bits i.ed o) (placeOf w.bits o) (· ||| twoPow _ (placeOf w.bits o))) emu mem others
  generalize run _ emu mem others = final at *
  have test := and_twoPow_ne_iff (final.seen.load w.bits (wordOf w.bits i.ed o)) (placeOf_lt o w.bits_pos)
  have same := withBit_same (final.seen.load w.bits (wordOf w.bits i.ed o)) (placeOf_lt o w.bits_pos)
  simp only [MemInsn.btsPass, test] at state object
  refine leavesBit_memory i w .BTS emu memory o ?_ ?_
  · rw [state]
    split
    next set => rw [set]
    next clear => rw [Bool.eq_false_of_not_eq_true clear]
  · rw [object, BitTest.result]
    split
    next set =>
      rw [set] at same
      rw [same, Memory.store_load _ _ w.dvd_bits w.bits_le]
      rfl
    next clear => rfl

theorem leavesBit_btr (memory : ¬ i.MODREG = true) (o : Int) :
    i.LeavesBit w emu .BTR o
      (run (MemInsn.btrPass w (wordOf w.bits i.ed o) (placeOf w.bits o)) emu mem others) := by
  obtain ⟨state, object⟩ := final_of_absorbs (absorbs_btr w (wordOf w.bits i.ed o) (placeOf w.bits o)) emu mem others
  generalize run _ emu mem others = final at *
  have test := and_twoPow_ne_iff (final.seen.load w.bits (wordOf w.bits i.ed o)) (placeOf_lt o w.bits_pos)
  have same := withBit_same (final.seen.load w.bits (wordOf w.bits i.ed o)) (placeOf_lt o w.bits_pos)
  have turned := withBit_not (final.seen.load w.bits (wordOf w.bits i.ed o)) (placeOf_lt o w.bits_pos)
  simp only [MemInsn.btrPass, test] at state object
  refine leavesBit_memory i w .BTR emu memory o ?_ ?_
  · rw [state]
    split
    next set => rw [set]
    next clear => rw [Bool.eq_false_of_not_eq_true clear]
  · rw [object, BitTest.result]
    split
    next set =>
      rw [set] at turned
      rw [← turned]
      rfl
    next clear =>
      rw [Bool.eq_false_of_not_eq_true clear] at same
      rw [same, Memory.store_load _ _ w.dvd_bits w.bits_le]
      rfl

/-- The loop over a register sees it unchanged in each pass. -/
theorem lockBTR_register_eq (retries : Nat) {k : Nat} (lt : k < w.bits) :
    i.lockBTR_register emu retries w k = testRegister w .BTR emu i.edReg k := by
  obtain ⟨state, object⟩ := final_of_absorbs (absorbs_btrRegister w k) emu (emu.regs i.edReg)
    (List.replicate retries (emu.regs i.edReg))
  have seen := seen_mem (Insn.btrRegisterPass w k) emu (emu.regs i.edReg) (List.replicate retries (emu.regs i.edReg))
  rw [← List.replicate_succ] at seen
  rw [List.eq_of_mem_replicate seen] at state object
  have test := and_twoPow_ne_iff (low w.bits (emu.regs i.edReg)) lt
  have same := withBit_same (low w.bits (emu.regs i.edReg)) lt
  have turned := withBit_not (low w.bits (emu.regs i.edReg)) lt
  simp only [Insn.btrRegisterPass, test] at state object
  simp only [Insn.lockBTR_register, testRegister, BitTest.result, X64Emu.reg]
  rw [state, object]
  split
  next set =>
    rw [set] at turned ⊢
    rw [← turned]
    rfl
  next clear =>
    rw [Bool.eq_false_of_not_eq_true clear] at same ⊢
    rw [same, X64Emu.setReg, setCF_regs, setLow_low]
    rfl

end Loops

/-! ### The instructions follow the bit string -/

namespace BitMap

variable (map : BitMap) (i : Insn) (op : BitTest) (emu : X64Emu) (mem : Memory) (others : List Memory) (retries : Nat)

theorem operand_iff :
    map.operand i emu = some (i.bitWord (map.width i.rex) (i.bitOffset (map.width i.rex) emu)) ↔
      map.ReadsOffset i emu := by
  cases map with
  | Run0F =>
    rw [operand, Option.some.injEq, ReadsOffset, BitMap.width]
    split
    · simpa using i.bitOperand_w64_iff emu
    · exact iff_of_true (i.bitOperand_w32 emu) (.inr (.inl (by decide)))
  | Run660F =>
    rw [operand, Option.some.injEq, ReadsOffset, BitMap.width]
    split
    next wide =>
      rw [Insn.bitOperandW, if_pos wide]
      simpa using i.bitOperand_w64_iff emu
    next narrow =>
      exact iff_of_true (i.bitOperandW_w16 emu (Bool.eq_false_of_not_eq_true narrow)) (.inr (.inl (by decide)))
  | RunF0 =>
    rw [operand, Option.some.injEq]
    exact i.bitOperandLock_iff emu rfl
  | Run66F0 => exact iff_of_false (by simp [operand]) id

theorem testAt_Run0F (k : Nat) :
    Run0F.testAt op emu mem others retries i k =
      some ⟨if op = .BT then (i.testBit emu mem (Run0F.width i.rex) op k).1
        else i.clearUpper (Run0F.width i.rex) (i.testBit emu mem (Run0F.width i.rex) op k).1, mem,
        (i.testBit emu mem (Run0F.width i.rex) op k).2⟩ := rfl

theorem testAt_Run660F (k : Nat) :
    Run660F.testAt op emu mem others retries i k =
      some ⟨(i.testBit emu mem (Run660F.width i.rex) op k).1, mem, (i.testBit emu mem (Run660F.width i.rex) op k).2⟩ := rfl

theorem testAt_register (register : i.MODREG = true) (has : map.Has op) (o : Int) :
    ∃ final, map.testAt op emu mem others retries i (placeOf (map.width i.rex).bits o) = some final ∧
      final.seen ∈ map.memories mem others ∧ i.LeavesBit (map.width i.rex) emu op o final := by
  have tested := testBit_register i (map.width i.rex) op emu mem register (placeOf_lt o (map.width i.rex).bits_pos)
  cases map with
  | Run0F =>
    rw [testAt_Run0F, tested]
    refine ⟨_, rfl, List.mem_singleton_self mem, ?_⟩
    by_cases reads : op = .BT
    · rw [if_pos reads]
      exact leavesBit_register i _ op emu mem register o (.inl reads)
    · rw [if_neg reads]
      exact leavesBit_cleared i _ op emu mem register o reads
  | Run660F =>
    rw [testAt_Run660F, tested]
    refine ⟨_, rfl, List.mem_singleton_self mem, leavesBit_register i _ op emu mem register o (.inr ?_)⟩
    rw [BitMap.width]
    split <;> decide
  | RunF0 =>
    obtain rfl | rfl := has <;> simp only [testAt, Insn.lockBit, register]
    · have set : (i.bit (RunF0.width i.rex) emu mem .BTS_Gd (placeOf (RunF0.width i.rex).bits o)).1 =
          testRegister (RunF0.width i.rex) .BTS emu i.edReg (placeOf (RunF0.width i.rex).bits o) := congrArg Prod.fst tested
      refine ⟨_, rfl, List.mem_cons_self, ?_⟩
      rw [set]
      exact leavesBit_cleared i _ .BTS emu mem register o (by decide)
    · refine ⟨_, rfl, List.mem_cons_self, ?_⟩
      rw [lockBTR_register_eq i _ emu retries (placeOf_lt o (Width.bits_pos _))]
      exact leavesBit_cleared i _ .BTR emu mem register o (by decide)
  | Run66F0 => exact has.elim

/-- The operand at a word, as the maps see it. -/
theorem testAt_memory (memory : ¬ i.MODREG = true) (has : map.Has op) (o : Int) :
    ∃ final, map.testAt op emu mem others retries { i with ed := wordOf (map.width i.rex).bits i.ed o }
      (placeOf (map.width i.rex).bits o) = some final ∧
      final.seen ∈ map.memories mem others ∧ i.LeavesBit (map.width i.rex) emu op o final := by
  have tested := leavesBit_testBit_memory i (map.width i.rex) op emu mem memory o
  have moved : (i.bitWord (map.width i.rex) o).1 = { i with ed := wordOf (map.width i.rex).bits i.ed o } := if_neg memory
  rw [moved] at tested
  cases map with
  | Run0F =>
    rw [testAt_Run0F]
    refine ⟨_, rfl, List.mem_singleton_self mem, ?_⟩
    have stays (emu : X64Emu) : ({ i with ed := wordOf (Run0F.width i.rex).bits i.ed o } : Insn).clearUpper
        (Run0F.width i.rex) emu = emu := if_neg fun both => memory both.2
    rw [stays, ite_self]
    exact tested
  | Run660F =>
    rw [testAt_Run660F]
    exact ⟨_, rfl, List.mem_singleton_self mem, tested⟩
  | RunF0 =>
    have far : ({ i with ed := wordOf (RunF0.width i.rex).bits i.ed o } : Insn).MODREG = false :=
      Bool.eq_false_of_not_eq_true memory
    obtain rfl | rfl := has <;> simp only [testAt, Insn.lockBit, far]
    · exact ⟨_, rfl, seen_mem _ _ _ _, leavesBit_bts i _ emu mem others memory o⟩
    · exact ⟨_, rfl, seen_mem _ _ _ _, leavesBit_btr i _ emu mem others memory o⟩
  | Run66F0 => exact has.elim

/-- At the right bit, a map that has the instruction does what it should. -/
theorem testAt_leaves (has : map.Has op) (o : Int) :
    ∃ final, map.testAt op emu mem others retries (i.bitWord (map.width i.rex) o).1 (placeOf (map.width i.rex).bits o) =
      some final ∧ final.seen ∈ map.memories mem others ∧ i.LeavesBit (map.width i.rex) emu op o final := by
  by_cases register : i.MODREG = true
  · have stays : (i.bitWord (map.width i.rex) o).1 = i := if_pos register
    rw [stays]
    exact testAt_register map i op emu mem others retries register has o
  · have moved : (i.bitWord (map.width i.rex) o).1 = { i with ed := wordOf (map.width i.rex).bits i.ed o } :=
      if_neg register
    rw [moved]
    exact testAt_memory map i op emu mem others retries register has o

theorem exec_isSome : (map.exec i op emu mem others retries).isSome → map.Has op := by
  intro runs
  cases map with
  | Run0F => trivial
  | Run660F => trivial
  | RunF0 => cases op <;> first | exact .inl rfl | exact .inr rfl | cases runs
  | Run66F0 => cases runs

theorem bitOffset_CHECK_FLAGS (w : Width) : i.bitOffset w (CHECK_FLAGS emu) = i.bitOffset w emu := by
  rw [Insn.bitOffset, X64Emu.reg, CHECK_FLAGS_regs]
  rfl

theorem readsOffset_of_operand
    (same : map.operand i (CHECK_FLAGS emu) = some (i.bitWord (map.width i.rex) (i.bitOffset (map.width i.rex) emu))) :
    map.ReadsOffset i emu := by
  rw [← bitOffset_CHECK_FLAGS, operand_iff] at same
  simpa only [ReadsOffset, bitOffset_CHECK_FLAGS] using same

/-- The instructions take the bit their offset names just when the map has them and reads the whole offset. -/
theorem followsBitString_iff :
    map.FollowsBitString i op emu mem others retries ↔ map.Has op ∧ map.ReadsOffset i emu := by
  constructor
  · rintro ⟨same, final, runs, _⟩
    exact ⟨exec_isSome map i op emu mem others retries (by rw [runs]; rfl), readsOffset_of_operand map i emu same⟩
  · rintro ⟨has, reads⟩
    have operand : map.operand i (CHECK_FLAGS emu) =
        some (i.bitWord (map.width i.rex) (i.bitOffset (map.width i.rex) emu)) := by
      rw [← bitOffset_CHECK_FLAGS, operand_iff]
      simpa only [ReadsOffset, bitOffset_CHECK_FLAGS] using reads
    obtain ⟨final, runs, seen, leaves⟩ := testAt_leaves map i op (CHECK_FLAGS emu) mem others retries has
      (i.bitOffset (map.width i.rex) emu)
    refine ⟨operand, final, ?_, seen, leaves⟩
    rw [exec, operand]
    exact runs

/-- `BTS qword ptr [rax], rcx` with `rcx` at `2^32` sets the bit at offset 0. -/
theorem bts_loses_upper_half :
    ¬ Run0F.FollowsBitString
      { rex := ⟨0x48⟩, opcode := 0x0f, opcode2 := 0xab, nextop := 0x08, ed := 0x1000, imm := 0, rep := 0 } .BTS
      { regs := fun r => if r = _RCX then 2 ^ 32 else 0, eflags := ⟨false, false, false, false, false, false⟩, df := .d_none,
        op1 := 0, op2 := 0, res := 0 }
      (fun _ => 0) [] 0 := by
  intro follows
  have reads := readsOffset_of_operand _ _ _ follows.1
  exact absurd reads (by decide)

end BitMap

end Box64.Emu
