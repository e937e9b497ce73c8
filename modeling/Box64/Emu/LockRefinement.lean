import Box64.Emu.LockLoops
import Box64.Emu.Unlocked

/-!
# Locked and plain instructions

A locked instruction with an operand in memory, against the plain one run once on the memory that the last attempt saw.
-/

namespace Box64.Emu

open BitVec RetryLoop BitString

/-- The function whose opcode a locked instruction has. -/
inductive LockMap
  | RunF0
  | Run66F0

/-! ### When both do the same -/

namespace MemInsn

variable (i : MemInsn) (emu : X64Emu) (mem : Memory) (others : List Memory)

/-- The operation of the opcodes of `GO` and of the groups. -/
def binOp : Option BinOp :=
  match i.opcode.toNat with
  | 0x0f => none
  | 0x80 | 0x81 | 0x83 => BinOp.ofIndex i.ext
  | _ => (GO i.opcode).map (·.1)

/-- The flags an instruction leaves, but for those the processor leaves undefined. -/
def definedFlags (f : X64Flags) : EagerFlags :=
  if i.opcode = 0x0f ∧ (i.opcode2 = 0xAB ∨ i.opcode2 = 0xB3 ∨ i.opcode2 = 0xBA) then
    { EagerFlags.undefined with CF := some f.CF, ZF := some f.ZF }
  else
    match i.binOp with
    | some .and | some .or | some .xor => { f.toEager with AF := none }
    | _ => f.toEager

/-- The low byte of the register, as a number of bits, is all of it; with `rex.w` the words are counted by 32 bits. -/
def InReach : Prop :=
  let o := (emu.reg .w32 i.GD).toInt
  0 ≤ o ∧ o < 2 ^ 8 ∧ (i.rex.w → o % 64 < 32)

instance : Decidable (i.InReach emu) := inferInstanceAs (Decidable (_ ∧ _ ∧ (_ → _)))

/-- `BTS` and `BTR` of a register turn over a bit that is not `v`: the locked form takes the same bit, or neither form
turns one over. -/
def SameBit (v : Bool) : Prop :=
  let (ed, k) := i.lockBitOperand emu
  let bit (ed : BitVec 64) (m : Memory) := (m.load i.width.bits ed).getLsbD k
  let seen := lastSeen (fun m => bit ed m == v) mem others
  i.InReach emu ∨ bit ed seen = v ∧ bit (i.bitOperand emu).1 seen = v

/-- `CMPXCHG16B`: where it stores, the low halves are all there is to store. -/
def StoresHalves : Prop :=
  let equal (m : Memory) := emu.regs _RAX = m.load 64 i.ed ∧ emu.regs _RDX = m.load 64 (i.ed + 8)
  equal (lastSeen (fun m => !decide (equal m)) mem others) → Extended (emu.regs _RBX) ∧ Extended (emu.regs _RCX)

/-- The groups `0x80` to `0x83`. -/
def GroupKept {w : Width} (s : BitVec w.bits) : Prop := ∀ op ∈ BinOp.ofIndex i.ext, i.CarryKept emu mem others op s

end MemInsn

namespace LockMap

variable (map : LockMap) (i : MemInsn) (behind : Behind) (emu : X64Emu) (mem : Memory) (others : List Memory)

def locked : Option (Final X64Emu Memory) :=
  match map with
  | .RunF0 => i.RunF0 emu mem others
  | .Run66F0 => i.Run66F0 emu mem others behind

def plain : Option (X64Emu × Memory) :=
  match map with
  | .RunF0 => i.Run emu mem
  | .Run66F0 => i.Run66 emu mem

/-- Where the operand of the plain instruction is, and its bytes. -/
def operand : BitVec 64 × Nat :=
  match map with
  | .RunF0 =>
    match i.opcode.toNat with
    | 0x0f =>
      match i.opcode2.toNat with
      | 0xAB | 0xB3 => ((i.bitOperand emu).1, i.width.bits / 8)
      | 0xB0 | 0xC0 => (i.ed, 1)
      | 0xC7 => (i.ed, if i.rex.w then 16 else 8)
      | _ => (i.ed, i.width.bits / 8)
    | opcode => (i.ed, if opcode % 2 = 0 then 1 else i.width.bits / 8)
  | .Run66F0 =>
    match i.opcode.toNat with
    | 0x81 | 0x83 | 0xFF => (i.ed, 2)
    | _ => (i.ed, i.width66.bits / 8)

/-- The registers, the flags that are defined and the memory are those of the plain instruction, and no byte but those of
its operand is changed. -/
structure Refines (final : Final X64Emu Memory) (out : X64Emu × Memory) : Prop where
  regs : final.state.regs = out.1.regs
  flags : (i.definedFlags (deferedFlags out.1)).Agrees (deferedFlags final.state)
  memory : final.object = out.2
  outside : ∀ b, ¬ (b - (map.operand i emu).1).toNat < (map.operand i emu).2 → final.object b = final.seen b

/-- `Run66F0` calls `RunF0`, which takes what stands behind the opcode for one. -/
def HandsOver : Prop :=
  match map with
  | .RunF0 => False
  | .Run66F0 => i.rex.w = true

/-- When the loops do that. -/
def Kept : Prop :=
  match map with
  | .RunF0 =>
    match i.opcode.toNat with
    | 0x0f =>
      match i.opcode2.toNat with
      | 0xAB => i.SameBit emu mem others true
      | 0xB3 => i.SameBit emu mem others false
      | 0xC0 => emu.getByte i.GB = (lastSeen (fun _ => false) mem others).load 8 i.ed
      | 0xC7 => i.rex.w → i.StoresHalves emu mem others
      | _ => True
    | 0x80 => i.GroupKept emu mem others (w := .w8) i.F8
    | 0x81 | 0x83 => i.GroupKept emu mem others (i.imm81 i.width)
    | _ =>
      match GO i.opcode with
      | some (op, 0) => i.CarryKept emu mem others op (w := .w8) (emu.getByte i.GB)
      | some (op, 1) => i.CarryKept emu mem others op (emu.reg i.width i.GD)
      | _ => True
  | .Run66F0 =>
    match i.opcode.toNat with
    | 0x81 => i.GroupKept emu mem others (w := .w16) (i.imm.setWidth 16)
    | 0x83 => i.GroupKept emu mem others (w := .w16) (i.F8.signExtend 16)
    | _ =>
      match GO i.opcode with
      | some (op, 1) =>
        let seen := lastSeen (fun _ => false) mem others
        -- the upper half of the word that is stored is 0
        i.CarryKept emu mem others op (emu.reg .w16 i.GD) ∧ seen (i.ed + 2#64) = 0 ∧ seen (i.ed + 3#64) = 0
      | _ => True

/-- When the code does that. -/
def Sound : Prop := ¬ map.HandsOver i ∧ map.Kept i emu mem others

theorem definedFlags_agrees (f : X64Flags) : (i.definedFlags f).Agrees f := by
  unfold MemInsn.definedFlags
  split
  · exact ⟨rfl, trivial, trivial, rfl, trivial, trivial⟩
  · split <;> first | exact f.toEager_agrees | exact ⟨rfl, rfl, trivial, rfl, rfl, rfl⟩

variable {map i behind emu mem others}

theorem refines_iff {cond : Prop} {final : Final X64Emu Memory} {out : X64Emu × Memory}
    (alike : Alike (map.operand i emu).1 (map.operand i emu).2 cond final out) : map.Refines i emu final out ↔ cond := by
  constructor
  · intro refines
    exact alike.needed refines.regs refines.memory
  · intro holds
    have state := alike.state holds
    have object := alike.object holds
    refine ⟨congrArg X64Emu.regs state, ?_, object, fun b out => ?_⟩
    · rw [state]
      exact definedFlags_agrees i _
    · rw [object]
      exact alike.frame b out

variable (map i behind emu mem others)

/-- The locked instruction ends, and as the plain one exactly if the condition holds. -/
def Settles : Prop :=
  ∀ final, map.locked i behind emu mem others = some final → ∃ out, map.plain i emu final.seen = some out ∧
    (map.Refines i emu final out ↔ map.Kept i emu mem others)

variable {map i behind emu mem others}

theorem Settles.of {a : BitVec 64} {n : Nat} {cond : Prop} (final : Final X64Emu Memory) (p : Memory → X64Emu × Memory)
    (alike : Alike a n cond final (p final.seen)) (locked : map.locked i behind emu mem others = some final)
    (plain : ∀ m, map.plain i emu m = some (p m)) (operand : map.operand i emu = (a, n))
    (sound : map.Kept i emu mem others ↔ cond) : map.Settles i behind emu mem others := by
  intro final' accepted
  obtain rfl := Option.some.inj (locked.symm.trans accepted)
  refine ⟨_, plain _, ?_⟩
  have here : Alike (map.operand i emu).1 (map.operand i emu).2 cond final (p final.seen) := by
    rw [operand]
    exact alike
  exact (refines_iff here).trans sound.symm

end LockMap

/-! ### Immediates and offsets -/

theorem setWidth_signExtend {w n m : Nat} (x : BitVec w) (le : m ≤ n) : (x.signExtend n).setWidth m = x.signExtend m := by
  apply eq_of_getLsbD_eq
  intro j lt
  have below : j < n := by omega
  simp only [getLsbD_setWidth, getLsbD_signExtend, lt, below, decide_true, Bool.true_and]

theorem signExtend_signExtend {w n : Nat} (x : BitVec w) (m : Nat) (lt : w < n) : (x.signExtend n).signExtend m = x.signExtend m := by
  have sign : (x.signExtend n).msb = x.msb := by
    have pos : 0 < n := by omega
    have narrow : ¬ n ≤ w := by omega
    simp [msb_signExtend, pos, narrow]
  apply eq_of_getLsbD_eq
  intro j small
  simp only [getLsbD_signExtend, small, sign, decide_true, Bool.true_and]
  by_cases inside : j < n
  · simp only [inside, decide_true, Bool.true_and, if_true]
  · have past : ¬ j < w := by omega
    simp only [inside, past, if_false]

section Operands

variable (i : MemInsn) (emu : X64Emu)

/-- Both forms widen the immediate by its sign. -/
theorem lockImm_eq (is : i.opcode.toNat = 0x81 ∨ i.opcode.toNat = 0x83) (w : Width) :
    i.lockImm w = i.imm81 w := by
  unfold MemInsn.lockImm MemInsn.imm81
  obtain is | is := is
  · have word : i.opcode = 0x81 := eq_of_toNat_eq is
    simp only [word, if_true]
    exact setWidth_signExtend i.imm w.bits_le
  · have byte : i.opcode = 0x83 := eq_of_toNat_eq is
    simp only [byte, if_true]
    rw [if_neg (by decide), signExtend_signExtend _ _ (by decide)]
    exact setWidth_signExtend i.F8 w.bits_le
/-- The bit of the word is the same, and so is the word if the offset is in reach. -/
theorem lockBitOperand_place : (i.lockBitOperand emu).2 = (i.bitOperand emu).2 := by
  have masked {t : Nat} (le : t ≤ 8) (x : BitVec 64) :
      (x.setWidth 8).toNat % 2 ^ t = (x.setWidth 32).toNat % 2 ^ t := by
    rw [toNat_setWidth, toNat_setWidth, Nat.mod_mod_of_dvd _ (Nat.pow_dvd_pow 2 le),
      Nat.mod_mod_of_dvd _ (Nat.pow_dvd_pow 2 (by omega))]
  unfold MemInsn.lockBitOperand MemInsn.bitOperand
  dsimp only
  split
  · change ((emu.regs i.GD).setWidth 8).toNat &&& 2 ^ 6 - 1 = ((emu.regs i.GD).setWidth 32).toNat &&& 2 ^ 6 - 1
    rw [Nat.and_two_pow_sub_one_eq_mod, Nat.and_two_pow_sub_one_eq_mod, masked (by decide)]
  · change ((emu.regs i.GD).setWidth 8).toNat &&& 2 ^ 5 - 1 = ((emu.regs i.GD).setWidth 32).toNat &&& 2 ^ 5 - 1
    rw [Nat.and_two_pow_sub_one_eq_mod, Nat.and_two_pow_sub_one_eq_mod, masked (by decide)]

theorem place_lt : (i.bitOperand emu).2 < i.width.bits := by
  unfold MemInsn.bitOperand MemInsn.width
  dsimp only
  split
  · exact Nat.lt_succ_of_le Nat.and_le_right
  · exact Nat.lt_succ_of_le Nat.and_le_right

theorem lockBitOperand_word : (i.lockBitOperand emu).1 = (i.bitOperand emu).1 ↔ i.InReach emu := by
  have low : (emu.reg .w32 i.GD).toInt % 256 = ((emu.regs i.GD).toNat % 256 : Nat) := by
    change ((emu.regs i.GD).setWidth 32).toInt % 256 = _
    rw [toInt_eq_toNat_cond, toNat_setWidth]
    split <;> omega
  have lower : -2 ^ 31 ≤ (emu.reg .w32 i.GD).toInt := le_toInt _
  have upper : (emu.reg .w32 i.GD).toInt < 2 ^ 31 := toInt_lt
  have locked : (i.lockBitOperand emu).1 = i.ed + BitVec.ofInt 64 (4 * ((emu.regs i.GD).toNat % 256 / 32 : Nat)) :=
    congrArg (i.ed + ·) (Insn.lockedWords (emu.regs i.GD))
  rw [locked, MemInsn.InReach]
  by_cases wide : i.rex.w = true
  · have words := signExtend_shifts (t := 3) (emu.reg .w32 i.GD) (show 3 ≤ 6 by decide) (by decide)
    have plain : (i.bitOperand emu).1 = i.ed + _ := (congrArg Prod.fst (if_pos wide)).trans (congrArg (i.ed + ·) words)
    rw [plain, add_ofInt_inj _ (by omega) (by omega) (by omega) (by omega)]
    simp only [wide, true_implies]
    omega
  · have words := signExtend_shifts (t := 2) (emu.reg .w32 i.GD) (show 2 ≤ 5 by decide) (by decide)
    have plain : (i.bitOperand emu).1 = i.ed + _ := (congrArg Prod.fst (if_neg wide)).trans (congrArg (i.ed + ·) words)
    rw [plain, add_ofInt_inj _ (by omega) (by omega) (by omega) (by omega)]
    simp only [wide, Bool.false_eq_true, false_implies, and_true]
    omega

theorem lockBitOperand_lt : (i.lockBitOperand emu).2 < i.width.bits := by
  rw [lockBitOperand_place]
  exact place_lt i emu

theorem lockBitOperand_CHECK_FLAGS : i.lockBitOperand (CHECK_FLAGS emu) = i.lockBitOperand emu := by
  simp only [MemInsn.lockBitOperand, CHECK_FLAGS_regs]

theorem bitOperand_CHECK_FLAGS : i.bitOperand (CHECK_FLAGS emu) = i.bitOperand emu := by
  simp only [MemInsn.bitOperand, X64Emu.reg, CHECK_FLAGS_regs]

/-- The bit in a register, at the words the two forms find. -/
theorem sameBit_iff (mem : Memory) (others : List Memory) (v : Bool) :
    i.SameBit emu mem others v ↔
      let (ed, k) := i.lockBitOperand emu
      let seen := lastSeen (fun m => (m.load i.width.bits ed).getLsbD k == v) mem others
      ed = (i.bitOperand emu).1 ∨ (seen.load i.width.bits ed).getLsbD k = v ∧
        (seen.load i.width.bits (i.bitOperand emu).1).getLsbD k = v := or_congr_left (lockBitOperand_word i emu).symm

/-- What is masked of the immediate is a bit of the operand. -/
theorem lockBitImm_lt : i.lockBitImm < i.width.bits := by
  unfold MemInsn.lockBitImm MemInsn.width
  split
  · exact Nat.lt_succ_of_le Nat.and_le_right
  · exact Nat.lt_succ_of_le Nat.and_le_right

end Operands

/-! ### `RunF0` -/

section RunF0

variable (i : MemInsn) (behind : Behind) (emu : X64Emu) (mem : Memory) (others : List Memory)

/-- `GO` has opcodes below `0x38`, and the first two of eight. -/
theorem GO_range {op : BinOp} {k : Nat} (go : GO i.opcode = some (op, k)) :
    i.opcode.toNat < 0x38 ∧ i.opcode.toNat % 8 = k := by
  unfold GO at go
  obtain ⟨op', index, same⟩ := Option.map_eq_some_iff.mp go
  obtain ⟨rfl, rfl⟩ := Prod.mk.inj same
  refine ⟨?_, rfl⟩
  by_contra high
  have none : BinOp.ofIndex (i.opcode.toNat / 8) = none := by
    have above : 7 ≤ i.opcode.toNat / 8 := by omega
    generalize i.opcode.toNat / 8 = n at above
    obtain ⟨m, rfl⟩ := Nat.exists_eq_add_of_le' above
    rfl
  rw [none] at index
  cases index

theorem settles_binary8 {op : BinOp} (go : GO i.opcode = some (op, 0)) : LockMap.RunF0.Settles i behind emu mem others := by
  obtain ⟨low, rest⟩ := GO_range i go
  refine .of _ (fun m => i.modify emu m .w8 fun emu d => op.eval .w8 emu d (emu.getByte i.GB))
    (i.alike_binary emu mem others op (w := .w8) (fun emu => emu.getByte i.GB) fun _ _ same => MemInsn.getByte_regs i.GB same) ?_ (fun m => ?_) ?_ ?_
  · change i.RunF0 emu mem others = _
    unfold MemInsn.RunF0
    split <;> first | omega | rw [go]; rfl
  · change i.Run emu m = _
    unfold MemInsn.Run
    split <;> first | omega | rw [go]; rfl
  · have even : i.opcode.toNat % 2 = 0 := by omega
    simp only [LockMap.operand]
    split
    · omega
    · rw [if_pos even]
      rfl
  · simp only [LockMap.Kept]
    split <;> first | omega | rw [go]; rfl

theorem settles_binary {op : BinOp} (go : GO i.opcode = some (op, 1)) : LockMap.RunF0.Settles i behind emu mem others := by
  obtain ⟨low, rest⟩ := GO_range i go
  refine .of _ (fun m => i.modify emu m i.width fun emu d => op.eval i.width emu d (emu.reg i.width i.GD))
    (i.alike_binary emu mem others op (w := i.width) (fun emu => emu.reg i.width i.GD) fun _ _ same => MemInsn.reg_regs i.width i.GD same) ?_
    (fun m => ?_) ?_ ?_
  · change i.RunF0 emu mem others = _
    unfold MemInsn.RunF0
    split <;> first | omega | rw [go]; rfl
  · change i.Run emu m = _
    unfold MemInsn.Run
    split <;> first | omega | rw [go]; rfl
  · have odd : ¬ i.opcode.toNat % 2 = 0 := by omega
    simp only [LockMap.operand]
    split
    · omega
    · rw [if_neg odd]
  · simp only [LockMap.Kept]
    split <;> first | omega | rw [go]; rfl

theorem settles_group8 (is : i.opcode.toNat = 0x80) : LockMap.RunF0.Settles i behind emu mem others := by
  refine .of _ (fun m => i.group emu m .w8 i.F8) (i.alike_group emu mem others (w := .w8) i.F8) ?_ (fun m => ?_) ?_ ?_
  · simp only [LockMap.locked, MemInsn.RunF0, is]
  · simp only [LockMap.plain, MemInsn.Run, is]
  · simp only [LockMap.operand, is]
    rfl
  · simp only [LockMap.Kept, is]
    rfl

theorem settles_group (is : i.opcode.toNat = 0x81 ∨ i.opcode.toNat = 0x83) :
    LockMap.RunF0.Settles i behind emu mem others := by
  have imm := lockImm_eq i is i.width
  refine .of _ (fun m => i.group emu m i.width (i.lockImm i.width)) (i.alike_group emu mem others (i.lockImm i.width)) ?_
    (fun m => ?_) ?_ ?_
  · obtain is | is := is <;> simp only [LockMap.locked, MemInsn.RunF0, is]
  · rw [imm]
    obtain is | is := is <;> simp only [LockMap.plain, MemInsn.Run, is]
  · obtain is | is := is <;> simp only [LockMap.operand, is] <;> rfl
  · rw [imm]
    obtain is | is := is <;> simp only [LockMap.Kept, is] <;> rfl

theorem settles_XCHG (is : i.opcode.toNat = 0x87) : LockMap.RunF0.Settles i behind emu mem others := by
  refine .of _ (fun m => i.XCHG_Ed_Gd emu m i.width) (i.alike_xchg emu mem others (w := i.width)) ?_ (fun m => ?_) ?_ ?_
  · simp only [LockMap.locked, MemInsn.RunF0, is]
  · simp only [LockMap.plain, MemInsn.Run, is]
  · simp only [LockMap.operand, is]
    rfl
  · simp only [LockMap.Kept, GO, is]
    exact Iff.rfl

theorem settles_INC (is : i.opcode.toNat = 0xFF) (ext : i.ext = 0) : LockMap.RunF0.Settles i behind emu mem others := by
  refine .of _ (fun m => i.modify emu m i.width (inc i.width)) (i.alike_INC emu mem others) ?_ (fun m => ?_) ?_ ?_
  · simp only [LockMap.locked, MemInsn.RunF0, is, ext]
  · simp only [LockMap.plain, MemInsn.Run, is, ext]
  · simp only [LockMap.operand, is]
    rfl
  · simp only [LockMap.Kept, GO, is]
    exact Iff.rfl

theorem settles_DEC (is : i.opcode.toNat = 0xFF) (ext : i.ext = 1) : LockMap.RunF0.Settles i behind emu mem others := by
  refine .of _ (fun m => i.modify emu m i.width (dec i.width)) (i.alike_DEC emu mem others) ?_ (fun m => ?_) ?_ ?_
  · simp only [LockMap.locked, MemInsn.RunF0, is, ext]
  · simp only [LockMap.plain, MemInsn.Run, is, ext]
  · simp only [LockMap.operand, is]
    rfl
  · simp only [LockMap.Kept, GO, is]
    exact Iff.rfl

section Run0F

variable (is : i.opcode.toNat = 0x0f)
include is

theorem settles_BTS (second : i.opcode2.toNat = 0xAB) : LockMap.RunF0.Settles i behind emu mem others := by
  refine .of _ (fun m => MemInsn.BTS (CHECK_FLAGS emu) m i.width (i.bitOperand emu).1 (i.lockBitOperand emu).2)
    (MemInsn.alike_bts (CHECK_FLAGS emu) mem others (i.lockBitOperand emu).1 (i.bitOperand emu).1 (lockBitOperand_lt i emu)) ?_ (fun m => ?_) ?_ ?_
  · simp only [LockMap.locked, MemInsn.RunF0, is, MemInsn.RunF00F, second]
    rw [lockBitOperand_CHECK_FLAGS]
  · simp only [LockMap.plain, MemInsn.Run, is, MemInsn.Run0F, second]
    rw [lockBitOperand_place, bitOperand_CHECK_FLAGS]
  · simp only [LockMap.operand, is, second]
  · simp only [LockMap.Kept, is, second]
    exact sameBit_iff i emu mem others true

theorem settles_BTR (second : i.opcode2.toNat = 0xB3) : LockMap.RunF0.Settles i behind emu mem others := by
  refine .of _ (fun m => MemInsn.BTR (CHECK_FLAGS emu) m i.width (i.bitOperand emu).1 (i.lockBitOperand emu).2)
    (MemInsn.alike_btr (CHECK_FLAGS emu) mem others (i.lockBitOperand emu).1 (i.bitOperand emu).1 (lockBitOperand_lt i emu)) ?_ (fun m => ?_) ?_ ?_
  · simp only [LockMap.locked, MemInsn.RunF0, is, MemInsn.RunF00F, second]
    rw [lockBitOperand_CHECK_FLAGS]
  · simp only [LockMap.plain, MemInsn.Run, is, MemInsn.Run0F, second]
    rw [lockBitOperand_place, bitOperand_CHECK_FLAGS]
  · simp only [LockMap.operand, is, second]
  · simp only [LockMap.Kept, is, second]
    exact sameBit_iff i emu mem others false

theorem settles_CMPXCHG8 (second : i.opcode2.toNat = 0xB0) : LockMap.RunF0.Settles i behind emu mem others := by
  have byte : (CHECK_FLAGS emu).getByte i.GB = emu.getByte i.GB := MemInsn.getByte_regs i.GB (CHECK_FLAGS_regs emu)
  refine .of _ (fun m => i.CMPXCHG (CHECK_FLAGS emu) m .w8 (emu.getByte i.GB))
    (i.alike_lockCMPXCHG (CHECK_FLAGS emu) mem others (w := .w8) (emu.getByte i.GB)) ?_ (fun m => ?_) ?_ ?_
  · simp only [LockMap.locked, MemInsn.RunF0, is, MemInsn.RunF00F, second]
    rw [← byte]
  · simp only [LockMap.plain, MemInsn.Run, is, MemInsn.Run0F, second]
    exact congrArg some (i.CMPXCHG_CHECK_FLAGS emu m (w := .w8) _).symm
  · simp only [LockMap.operand, is, second]
    rfl
  · simp only [LockMap.Kept, is, second]

theorem settles_CMPXCHG (second : i.opcode2.toNat = 0xB1) : LockMap.RunF0.Settles i behind emu mem others := by
  refine .of _ (fun m => i.CMPXCHG_Ed_Gd emu m) (i.alike_cmpxchg_Ed emu mem others) ?_ (fun m => ?_) ?_ ?_
  · simp only [LockMap.locked, MemInsn.RunF0, is, MemInsn.RunF00F, second]
  · simp only [LockMap.plain, MemInsn.Run, is, MemInsn.Run0F, second]
  · simp only [LockMap.operand, is, second]
  · simp only [LockMap.Kept, is, second]

theorem settles_XADD8 (second : i.opcode2.toNat = 0xC0) : LockMap.RunF0.Settles i behind emu mem others := by
  refine .of _ (fun m => i.XADD_Gb_Eb emu m) (i.alike_xadd_Gb emu mem others) ?_ (fun m => ?_) ?_ ?_
  · simp only [LockMap.locked, MemInsn.RunF0, is, MemInsn.RunF00F, second]
  · simp only [LockMap.plain, MemInsn.Run, is, MemInsn.Run0F, second]
  · simp only [LockMap.operand, is, second]
  · simp only [LockMap.Kept, is, second]

theorem settles_XADD (second : i.opcode2.toNat = 0xC1) : LockMap.RunF0.Settles i behind emu mem others := by
  refine .of _ (fun m => i.XADD_Gd_Ed emu m i.width) (i.alike_xadd_Gd emu mem others) ?_ (fun m => ?_) ?_ ?_
  · simp only [LockMap.locked, MemInsn.RunF0, is, MemInsn.RunF00F, second]
  · simp only [LockMap.plain, MemInsn.Run, is, MemInsn.Run0F, second]
  · simp only [LockMap.operand, is, second]
  · simp only [LockMap.Kept, is, second]

theorem settles_CMPXCHG8B (second : i.opcode2.toNat = 0xC7) (ext : i.ext = 1) :
    LockMap.RunF0.Settles i behind emu mem others := by
  by_cases wide : i.rex.w = true
  · refine .of _ (fun m => i.CMPXCHG8B emu m) (i.alike_cmpxchg16 emu mem others wide) ?_ (fun m => ?_) ?_ ?_
    · simp only [LockMap.locked, MemInsn.RunF0, is, MemInsn.RunF00F, second, ext, wide, if_true]
    · simp only [LockMap.plain, MemInsn.Run, is, MemInsn.Run0F, second, ext, if_true]
    · simp only [LockMap.operand, is, second, wide, if_true]
    · simp only [LockMap.Kept, is, second, wide, true_implies]
      exact Iff.rfl
  · refine .of _ (fun m => i.CMPXCHG8B emu m) (i.alike_cmpxchg8 emu mem others wide) ?_ (fun m => ?_) ?_ ?_
    · simp only [LockMap.locked, MemInsn.RunF0, is, MemInsn.RunF00F, second, ext, wide, if_true, Bool.false_eq_true, if_false]
    · simp only [LockMap.plain, MemInsn.Run, is, MemInsn.Run0F, second, ext, if_true]
    · simp only [LockMap.operand, is, second, wide, Bool.false_eq_true, if_false]
    · simp only [LockMap.Kept, is, second, wide, Bool.false_eq_true, false_implies]

theorem settles_BT_Ib (second : i.opcode2.toNat = 0xBA) (ext : i.ext = 4) : LockMap.RunF0.Settles i behind emu mem others := by
  have alike : Alike i.ed (i.width.bits / 8) True ⟨(i.BT_Ib (CHECK_FLAGS emu) mem i.width i.bitImm).1, mem, mem⟩
      (i.BT_Ib (CHECK_FLAGS emu) mem i.width i.bitImm) := .always rfl rfl fun _ _ => rfl
  refine .of _ (fun m => i.BT_Ib (CHECK_FLAGS emu) m i.width i.bitImm) alike ?_ (fun m => ?_) ?_ ?_
  · simp only [LockMap.locked, MemInsn.RunF0, is, MemInsn.RunF00F, second, ext]
    rfl
  · simp only [LockMap.plain, MemInsn.Run, is, MemInsn.Run0F, second, ext]
  · simp only [LockMap.operand, is, second]
  · simp only [LockMap.Kept, is, second]

theorem settles_BTS_Ib (second : i.opcode2.toNat = 0xBA) (ext : i.ext = 5) : LockMap.RunF0.Settles i behind emu mem others := by
  refine .of _ (fun m => i.BTS_Ib (CHECK_FLAGS emu) m i.width i.lockBitImm)
    (i.alike_bts_Ib (CHECK_FLAGS emu) mem others (lockBitImm_lt i)) ?_ (fun m => ?_) ?_ ?_
  · simp only [LockMap.locked, MemInsn.RunF0, is, MemInsn.RunF00F, second, ext]
  · simp only [LockMap.plain, MemInsn.Run, is, MemInsn.Run0F, second, ext]
    rfl
  · simp only [LockMap.operand, is, second]
  · simp only [LockMap.Kept, is, second]

theorem settles_BTR_Ib (second : i.opcode2.toNat = 0xBA) (ext : i.ext = 6) : LockMap.RunF0.Settles i behind emu mem others := by
  refine .of _ (fun m => MemInsn.BTR (CHECK_FLAGS emu) m i.width i.ed i.lockBitImm)
    (i.alike_btr_Ib (CHECK_FLAGS emu) mem others (lockBitImm_lt i)) ?_ (fun m => ?_) ?_ ?_
  · simp only [LockMap.locked, MemInsn.RunF0, is, MemInsn.RunF00F, second, ext]
  · simp only [LockMap.plain, MemInsn.Run, is, MemInsn.Run0F, second, ext]
    rfl
  · simp only [LockMap.operand, is, second]
  · simp only [LockMap.Kept, is, second]

theorem settles_BTC_Ib (second : i.opcode2.toNat = 0xBA) (ext : i.ext = 7) : LockMap.RunF0.Settles i behind emu mem others := by
  refine .of _ (fun m => i.BTC_Ib (CHECK_FLAGS emu) m i.width i.lockBitImm)
    (i.alike_btc (CHECK_FLAGS emu) mem others) ?_ (fun m => ?_) ?_ ?_
  · simp only [LockMap.locked, MemInsn.RunF0, is, MemInsn.RunF00F, second, ext]
  · simp only [LockMap.plain, MemInsn.Run, is, MemInsn.Run0F, second, ext]
    rfl
  · simp only [LockMap.operand, is, second]
  · simp only [LockMap.Kept, is, second]

theorem settles_RunF00F : LockMap.RunF0.Settles i behind emu mem others := by
  intro final accepted
  have ran : i.RunF00F emu mem others = some final := by
    simp only [LockMap.locked, MemInsn.RunF0, is] at accepted
    exact accepted
  unfold MemInsn.RunF00F at ran
  split at ran
  next second => exact settles_BTS i behind emu mem others is second final accepted
  next second => exact settles_CMPXCHG8 i behind emu mem others is second final accepted
  next second => exact settles_CMPXCHG i behind emu mem others is second final accepted
  next second => exact settles_BTR i behind emu mem others is second final accepted
  next second =>
    dsimp only at ran
    split at ran
    next ext => exact settles_BT_Ib i behind emu mem others is second ext final accepted
    next ext => exact settles_BTS_Ib i behind emu mem others is second ext final accepted
    next ext => exact settles_BTR_Ib i behind emu mem others is second ext final accepted
    next ext => exact settles_BTC_Ib i behind emu mem others is second ext final accepted
    next => cases ran
  next second => exact settles_XADD8 i behind emu mem others is second final accepted
  next second => exact settles_XADD i behind emu mem others is second final accepted
  next second =>
    split at ran
    next ext => exact settles_CMPXCHG8B i behind emu mem others is second ext final accepted
    next => cases ran
  next => cases ran

end Run0F

theorem settles_RunF0 : LockMap.RunF0.Settles i behind emu mem others := by
  intro final accepted
  have ran : i.RunF0 emu mem others = some final := accepted
  unfold MemInsn.RunF0 at ran
  split at ran
  next is => exact settles_RunF00F i behind emu mem others is final accepted
  next is => exact settles_group8 i behind emu mem others is final accepted
  next is => exact settles_group i behind emu mem others (.inl is) final accepted
  next is => exact settles_group i behind emu mem others (.inr is) final accepted
  next is => exact settles_XCHG i behind emu mem others is final accepted
  next is =>
    split at ran
    next ext => exact settles_INC i behind emu mem others is ext final accepted
    next ext => exact settles_DEC i behind emu mem others is ext final accepted
    next => cases ran
  next =>
    split at ran
    next op go => exact settles_binary8 i behind emu mem others go final accepted
    next op go => exact settles_binary i behind emu mem others go final accepted
    next => cases ran

end RunF0

/-! ### `Run66F0` -/

section Run66F0

variable (i : MemInsn) (behind : Behind) (emu : X64Emu) (mem : Memory) (others : List Memory) (narrow : ¬ i.rex.w = true)
include narrow

theorem width66_eq : i.width66 = .w16 := if_neg narrow

theorem operand66_eq : LockMap.Run66F0.operand i emu = (i.ed, 2) := by
  unfold LockMap.operand
  rw [width66_eq i narrow]
  dsimp only
  split <;> rfl

theorem settles_CMPXCHG16 (is : i.opcode.toNat = 0x0f) (second : i.opcode2 = 0xB1) :
    LockMap.Run66F0.Settles i behind emu mem others := by
  refine .of _ (fun m => i.CMPXCHG emu m .w16 (emu.reg .w16 i.GD))
    (i.alike_lockCMPXCHG emu mem others (w := .w16) (emu.reg .w16 i.GD)) ?_ (fun m => ?_) ?_ ?_
  · simp only [LockMap.locked, narrow, Bool.false_eq_true, if_false, MemInsn.Run66F0, is, second, if_true]
  · simp only [LockMap.plain, MemInsn.Run66, is, second, if_true]
    rw [width66_eq i narrow]
  · exact operand66_eq i emu narrow
  · simp only [LockMap.Kept, GO, is]
    exact Iff.rfl

theorem settles_group16 (is : i.opcode.toNat = 0x81) : LockMap.Run66F0.Settles i behind emu mem others := by
  have ne : ¬ i.opcode = 0x83 := fun eq => by rw [eq] at is; exact absurd is (by decide)
  have imm : i.lockImm16 = i.imm.setWidth 16 := by
    unfold MemInsn.lockImm16
    rw [if_neg ne]
    exact (setWidth_signExtend (i.imm.setWidth 16) (by decide)).trans (signExtend_eq _)
  refine .of _ (fun m => i.group emu m .w16 (i.imm.setWidth 16))
    (i.alike_group emu mem others (w := .w16) (i.imm.setWidth 16)) ?_ (fun m => ?_) ?_ ?_
  · simp only [LockMap.locked, narrow, Bool.false_eq_true, if_false, MemInsn.Run66F0, is, imm]
  · simp only [LockMap.plain, MemInsn.Run66, is]
  · exact operand66_eq i emu narrow
  · simp only [LockMap.Kept, is]
    rfl

theorem settles_group16_Ib (is : i.opcode.toNat = 0x83) : LockMap.Run66F0.Settles i behind emu mem others := by
  have eq : i.opcode = 0x83 := eq_of_toNat_eq is
  have imm : i.lockImm16 = i.F8.signExtend 16 := by
    unfold MemInsn.lockImm16
    rw [if_pos eq]
    exact setWidth_signExtend i.F8 (by decide)
  refine .of _ (fun m => i.group emu m .w16 (i.F8.signExtend 16))
    (i.alike_group emu mem others (w := .w16) (i.F8.signExtend 16)) ?_ (fun m => ?_) ?_ ?_
  · simp only [LockMap.locked, narrow, Bool.false_eq_true, if_false, MemInsn.Run66F0, is, imm]
  · simp only [LockMap.plain, MemInsn.Run66, is]
  · exact operand66_eq i emu narrow
  · simp only [LockMap.Kept, is]
    rfl

theorem settles_INC16 (is : i.opcode.toNat = 0xFF) (ext : i.ext = 0) : LockMap.Run66F0.Settles i behind emu mem others := by
  have sound : LockMap.Run66F0.Kept i emu mem others ↔ True := by
    simp only [LockMap.Kept, GO, is]
    exact Iff.rfl
  by_cases unaligned : i.ed &&& 1 ≠ 0
  · refine .of _ (fun m => i.modify emu m .w16 (inc .w16)) (i.alike_lockUnaligned emu mem others forgets_inc) ?_
      (fun m => ?_) (operand66_eq i emu narrow) sound
    · simp only [LockMap.locked, narrow, Bool.false_eq_true, if_false, MemInsn.Run66F0, is, ext]
      rw [if_pos unaligned]
    · simp only [LockMap.plain, MemInsn.Run66, is, ext]
  · refine .of _ (fun m => i.modify emu m .w16 (inc .w16)) (i.alike_lockOp emu mem others forgets_inc) ?_
      (fun m => ?_) (operand66_eq i emu narrow) sound
    · simp only [LockMap.locked, narrow, Bool.false_eq_true, if_false, MemInsn.Run66F0, is, ext]
      rw [if_neg unaligned]
    · simp only [LockMap.plain, MemInsn.Run66, is, ext]

theorem settles_DEC16 (is : i.opcode.toNat = 0xFF) (ext : i.ext = 1) : LockMap.Run66F0.Settles i behind emu mem others := by
  refine .of _ (fun m => i.modify emu m .w16 (dec .w16)) (i.alike_lockOp emu mem others forgets_dec) ?_ (fun m => ?_) (operand66_eq i emu narrow) ?_
  · simp only [LockMap.locked, narrow, Bool.false_eq_true, if_false, MemInsn.Run66F0, is, ext]
  · simp only [LockMap.plain, MemInsn.Run66, is, ext]
  · simp only [LockMap.Kept, GO, is]
    exact Iff.rfl

theorem settles_binary16 {op : BinOp} (go : GO i.opcode = some (op, 1)) : LockMap.Run66F0.Settles i behind emu mem others := by
  obtain ⟨low, rest⟩ := GO_range i go
  refine .of _ (fun m => i.modify emu m .w16 fun emu d => op.eval .w16 emu d (emu.reg .w16 i.GD))
    (i.alike_binary16 emu mem others op (fun emu => emu.reg .w16 i.GD) fun _ _ same => MemInsn.reg_regs .w16 i.GD same) ?_ (fun m => ?_) (operand66_eq i emu narrow) ?_
  · change i.Run66F0 emu mem others behind = _
    unfold MemInsn.Run66F0
    rw [if_neg narrow]
    split <;> first | omega | rw [go]; rfl
  · change i.Run66 emu m = _
    unfold MemInsn.Run66
    rw [width66_eq i narrow]
    split <;> first | omega | rw [go]; rfl
  · simp only [LockMap.Kept]
    split <;> first | omega | rw [go]; rfl

theorem settles_Run66F0 :
    LockMap.Run66F0.Settles i behind emu mem others := by
  intro final accepted
  have ran : i.Run66F0 emu mem others behind = some final := accepted
  unfold MemInsn.Run66F0 at ran
  rw [if_neg narrow] at ran
  split at ran
  next is =>
    split at ran
    next second => exact settles_CMPXCHG16 i behind emu mem others narrow is second final accepted
    next => cases ran
  next is => exact settles_group16 i behind emu mem others narrow is final accepted
  next is => exact settles_group16_Ib i behind emu mem others narrow is final accepted
  next is =>
    split at ran
    next ext => exact settles_INC16 i behind emu mem others narrow is ext final accepted
    next ext => exact settles_DEC16 i behind emu mem others narrow is ext final accepted
    next => cases ran
  next =>
    split at ran
    next op go => exact settles_binary16 i behind emu mem others narrow go final accepted
    next => cases ran

end Run66F0

/-! ### Both -/

/-- A locked instruction, whatever the failed attempts saw, leaves what the plain one leaves of what the last attempt saw,
if its condition holds, and only then unless another instruction runs in its place. -/
theorem lock_refines_iff (map : LockMap) (i : MemInsn) (behind : Behind) (emu : X64Emu) (mem : Memory) (others : List Memory)
    {final : Final X64Emu Memory} (accepted : map.locked i behind emu mem others = some final) :
    (map.Sound i emu mem others → ∃ out, map.plain i emu final.seen = some out ∧ map.Refines i emu final out) ∧
      (¬ map.HandsOver i → (∃ out, map.plain i emu final.seen = some out ∧ map.Refines i emu final out) →
        map.Sound i emu mem others) := by
  have settles (own : ¬ map.HandsOver i) : map.Settles i behind emu mem others := by
    cases map with
    | RunF0 => exact settles_RunF0 i behind emu mem others
    | Run66F0 => exact settles_Run66F0 i behind emu mem others own
  constructor
  · rintro ⟨own, kept⟩
    obtain ⟨out, plain, sound⟩ := settles own final accepted
    exact ⟨out, plain, sound.mpr kept⟩
  · rintro own ⟨out', plain', refines⟩
    obtain ⟨out, plain, sound⟩ := settles own final accepted
    obtain rfl := Option.some.inj (plain.symm.trans plain')
    exact ⟨own, sound.mp refines⟩

/-- `lock adc [0], al`. -/
def lockAdc : MemInsn := ⟨⟨0⟩, 0x10, 0, 0, 0, 0⟩

/-- `AL` is 1, and `CF` is clear. -/
def lockEmu : X64Emu := ⟨fun _ => 1, ⟨false, false, false, false, false, false⟩, .d_none, 0, 0, 0⟩

/-- One attempt that sees `b` in each byte fails, and the next one sees `b'`. -/
def lockedAdc (b b' : BitVec 8) : Final X64Emu Memory :=
  lockAdc.lockOp lockEmu (fun _ => b) [fun _ => b'] .w8 fun emu d => BinOp.adc.eval .w8 emu d (emu.getByte lockAdc.GB)

theorem lock_refines_iff_adc :
    ∃ out, LockMap.RunF0.plain lockAdc lockEmu (lockedAdc 3 5).seen = some out ∧
      LockMap.RunF0.Refines lockAdc lockEmu (lockedAdc 3 5) out :=
  (lock_refines_iff .RunF0 lockAdc (.memory lockAdc) lockEmu (fun _ => 3) [fun _ => 5] rfl).1 ⟨id, rfl⟩

/-- `255 + 1` carries in the failed attempt, and 0 becomes 2. -/
theorem lock_adc_carries :
    ¬ ∀ (map : LockMap) (i : MemInsn) (behind : Behind) (emu : X64Emu) (mem : Memory) (others : List Memory)
        (final : Final X64Emu Memory), map.locked i behind emu mem others = some final →
        ∃ out, map.plain i emu final.seen = some out ∧ map.Refines i emu final out := by
  intro refines
  obtain ⟨out, plain, same⟩ := refines .RunF0 lockAdc (.memory lockAdc) lockEmu (fun _ => 255) [fun _ => 0] (lockedAdc 255 0) rfl
  obtain rfl := Option.some.inj plain
  have stored := congrFun same.memory 0
  exact absurd stored (by decide)

/-- `66 F0 48 01 08`, an `add` of 64 bits to `[rax]`. -/
def lockAddQword : MemInsn := ⟨⟨0x48⟩, 0x01, 0, 0x08, 1, 0⟩

/-- Its `ModRM` byte and the byte behind it run as an `or` to `[rax]`, and 1 stays 1. -/
example : ∃ final, LockMap.Run66F0.locked lockAddQword (.memory ⟨⟨0⟩, 0x08, 0, 0x00, 1, 0⟩) lockEmu (fun _ => 1) [] = some final ∧
    final.object 1 = 1 ∧ (LockMap.Run66F0.plain lockAddQword lockEmu (fun _ => 1)).map (fun out => out.2 1) = some 2 :=
  ⟨_, rfl, by decide, by decide +kernel⟩

end Box64.Emu
