import Box64.Dynarec.EmitShift
import Box64.Emu.ShiftFlags

/-!
# What the fragments of an emitter do

Each fragment that computes a flag puts it in `xFlags` and leaves the other flags, the operands and the pending
operation as they were. The fragments are described one by one and then put together.
-/

namespace Box64.Arm64

open BitVec Emu Dynarec

/-! ### The emulated state behind the host state -/

def flagsOf (x : BitVec 64) : X64Flags :=
  { CF := x.getLsbD F_CF, PF := x.getLsbD F_PF, AF := x.getLsbD F_AF, ZF := x.getLsbD F_ZF, SF := x.getLsbD F_SF,
    OF := x.getLsbD F_OF }

def Cpu.flags (m : Cpu) : X64Flags := flagsOf (m.regs xFlags)

/-- `x64emu_t` once `xFlags` and the guest registers are stored. -/
def Cpu.emu (m : Cpu) : X64Emu where
  regs r := m.regs ⟨xRAX.val + r.val, guest_lt r⟩
  eflags := m.flags
  df := dfOfCode (low 32 (m.fields .df))
  op1 := m.fields .op1
  op2 := m.fields .op2
  res := m.fields .res

theorem getLsbD_bitfieldInsert {n : Nat} (x y : BitVec n) {lsb i : Nat} (lt : i < n) (wide : 1 < n) :
    (bitfieldInsert x y lsb 1).getLsbD i = if i = lsb then y.getLsbD 0 else x.getLsbD i := by
  rw [bitfieldInsert, getLsbD_or, getLsbD_and, getLsbD_and, getLsbD_not, getLsbD_shiftLeft, getLsbD_shiftLeft,
    getLsbD_lowMask wide]
  by_cases same : i = lsb
  · subst same
    simp [lt]
  · by_cases below : i < lsb
    · simp [lt, same, below]
    · have above : ¬ i - lsb < 1 := by omega
      simp [lt, same, above]

section Flags

variable (m : Cpu) (sf : Bool) (y : BitVec (opSize sf))

/-- The host state after `BFI` of one bit into `xFlags`. -/
def Cpu.putFlag (lsb : Nat) : Cpu := m.set xFlags (bitfieldInsert (m.get sf xFlags) y lsb 1)

theorem putFlag_regs (lsb : Nat) {r : Reg} (ne : r ≠ xFlags) : (m.putFlag sf y lsb).regs r = m.regs r :=
  m.set_regs_of_ne _ ne

@[simp] theorem putFlag_fields (lsb : Nat) : (m.putFlag sf y lsb).fields = m.fields := m.set_fields _ _

@[simp] theorem putFlag_nzcv (lsb : Nat) : (m.putFlag sf y lsb).nzcv = m.nzcv := m.set_nzcv _ _

/-- Every flag is in the low half of `xFlags`, which both forms of `BFI` keep. -/
theorem putFlag_bit (lsb : Nat) {i : Nat} (low_half : i < 32) :
    ((m.putFlag sf y lsb).regs xFlags).getLsbD i = if i = lsb then y.getLsbD 0 else (m.regs xFlags).getLsbD i := by
  have wide : 32 ≤ opSize sf := by cases sf <;> decide
  have real : xFlags ≠ xZR := by decide
  have lt : i < opSize sf := by omega
  have small : i < 64 := by omega
  rw [Cpu.putFlag, m.set_regs xFlags _ real, getLsbD_setWidth, getLsbD_bitfieldInsert _ _ lt (by omega),
    m.get_of_ne _ sf real]
  simp [low, lt, small]

theorem putFlag_flags (lsb : Nat) :
    (m.putFlag sf y lsb).flags =
      { CF := if F_CF = lsb then y.getLsbD 0 else m.flags.CF, PF := if F_PF = lsb then y.getLsbD 0 else m.flags.PF,
        AF := if F_AF = lsb then y.getLsbD 0 else m.flags.AF, ZF := if F_ZF = lsb then y.getLsbD 0 else m.flags.ZF,
        SF := if F_SF = lsb then y.getLsbD 0 else m.flags.SF, OF := if F_OF = lsb then y.getLsbD 0 else m.flags.OF } := by
  have bit := fun {i : Nat} => putFlag_bit m sf y lsb (i := i)
  rw [Cpu.flags, flagsOf, bit (by decide), bit (by decide), bit (by decide), bit (by decide), bit (by decide),
    bit (by decide)]
  rfl

@[simp] theorem putFlag_CF : (m.putFlag sf y F_CF).flags = { m.flags with CF := y.getLsbD 0 } :=
  putFlag_flags m sf y F_CF

@[simp] theorem putFlag_PF : (m.putFlag sf y F_PF).flags = { m.flags with PF := y.getLsbD 0 } :=
  putFlag_flags m sf y F_PF

@[simp] theorem putFlag_AF : (m.putFlag sf y F_AF).flags = { m.flags with AF := y.getLsbD 0 } :=
  putFlag_flags m sf y F_AF

@[simp] theorem putFlag_ZF : (m.putFlag sf y F_ZF).flags = { m.flags with ZF := y.getLsbD 0 } :=
  putFlag_flags m sf y F_ZF

@[simp] theorem putFlag_SF : (m.putFlag sf y F_SF).flags = { m.flags with SF := y.getLsbD 0 } :=
  putFlag_flags m sf y F_SF

@[simp] theorem putFlag_OF : (m.putFlag sf y F_OF).flags = { m.flags with OF := y.getLsbD 0 } :=
  putFlag_flags m sf y F_OF

end Flags

/-! ### Registers the emitters are given -/

/-- A register that is neither the zero register nor one the translator keeps for itself. -/
structure Usable (r : Reg) : Prop where
  not_flags : r ≠ xFlags
  not_zero : r ≠ xZR
  not_emu : r ≠ xEmu

section Set

variable (m : Cpu) {n : Nat} {r : Reg} (v : BitVec n)

theorem set_flags (usable : Usable r) : (m.set r v).flags = m.flags := by
  rw [Cpu.flags, m.set_regs_of_ne v usable.not_flags.symm]
  rfl

theorem get_set (usable : Usable r) (sf : Bool) : (m.set r v).get sf r = low _ (v.setWidth 64) := by
  rw [Cpu.get_of_ne _ r sf usable.not_zero, m.set_regs r v usable.not_zero]

theorem get_set_same (usable : Usable r) (sf : Bool) (v : BitVec (opSize sf)) : (m.set r v).get sf r = v := by
  rw [get_set m v usable, low, setWidth_setWidth_of_le v (opSize_le sf), setWidth_eq]

theorem get_set_of_ne {q : Reg} (ne : q ≠ r) (sf : Bool) : (m.set r v).get sf q = m.get sf q := by
  rw [Cpu.get, Cpu.get, m.set_regs_of_ne v ne]

theorem getLsbD_get_set (usable : Usable r) (sf : Bool) {i : Nat} (lt : i < opSize sf) :
    ((m.set r v).get sf r).getLsbD i = v.getLsbD i := by
  have small : i < 64 := by
    have := opSize_le sf
    omega
  rw [get_set m v usable, low, getLsbD_setWidth, getLsbD_setWidth]
  simp [lt, small]

end Set

/-! ### Putting fragments together -/

/-- Between two host states only the flags and scratch registers change. -/
structure Computes (scratch : List Reg) (f : X64Flags) (m m' : Cpu) : Prop where
  flags : m'.flags = f
  regs : ∀ r, r ≠ xFlags → r ∉ scratch → m'.regs r = m.regs r
  fields : m'.fields = m.fields

theorem Computes.refl (scratch : List Reg) (m : Cpu) : Computes scratch m.flags m m := ⟨rfl, fun _ _ _ => rfl, rfl⟩

theorem Computes.trans {scratch : List Reg} {f f' : X64Flags} {m m' m'' : Cpu} (first : Computes scratch f m m')
    (second : Computes scratch f' m' m'') : Computes scratch f' m m'' where
  flags := second.flags
  regs r ne out := (second.regs r ne out).trans (first.regs r ne out)
  fields := second.fields.trans first.fields

theorem Computes.mono {scratch more : List Reg} {f : X64Flags} {m m' : Cpu} (computes : Computes scratch f m m')
    (sub : scratch ⊆ more) : Computes more f m m' :=
  ⟨computes.flags, fun r ne out => computes.regs r ne fun mem => out (sub mem), computes.fields⟩

theorem Computes.get {scratch : List Reg} {f : X64Flags} {m m' : Cpu} (computes : Computes scratch f m m') {r : Reg}
    (ne : r ≠ xFlags) (out : r ∉ scratch) (sf : Bool) : m'.get sf r = m.get sf r := by
  rw [Cpu.get, Cpu.get, computes.regs r ne out]

theorem computes_set (m : Cpu) {n : Nat} {r : Reg} {scratch : List Reg} (usable : Usable r) (mem : r ∈ scratch)
    (v : BitVec n) : Computes scratch m.flags m (m.set r v) :=
  ⟨set_flags m v usable, fun _ _ out => m.set_regs_of_ne v fun eq => out (eq ▸ mem), m.set_fields r v⟩

/-- Code that control leaves only at its end. -/
def Closed (host : Host) (code : List Inst) : Prop :=
  ∀ m rest, exec host (code ++ rest) m = exec host rest (exec host code m)

theorem Straight.closed {host : Host} {code : List Inst} (straight : Straight code) : Closed host code :=
  fun m rest => exec_append host m straight rest

theorem Closed.append {host : Host} {a b : List Inst} (left : Closed host a) (right : Closed host b) :
    Closed host (a ++ b) := by
  intro m rest
  rw [List.append_assoc, left, right, left]

namespace Emit

variable {host : Host} (dyn : Emit) (m : Cpu)

theorem needs_or (A B : BitVec 8) : dyn.needs (A ||| B) = (dyn.needs A || dyn.needs B) := by
  rw [needs, BitVec.and_or_distrib_left]
  rw [Bool.eq_iff_iff, Bool.or_eq_true, needs, needs, bne_iff_ne, bne_iff_ne, bne_iff_ne, ne_eq, ne_eq, ne_eq,
    ← not_and_or]
  exact not_congr BitVec.or_eq_zero_iff

theorem exec_IFX (A : BitVec 8) (code : List Inst) :
    exec host (dyn.IFX A code) m = if dyn.needs A then exec host code m else m := by
  rw [IFX]
  split <;> rfl

theorem closed_IFX {A : BitVec 8} {code : List Inst} (closed : Closed host code) : Closed host (dyn.IFX A code) := by
  rw [IFX]
  split
  case isTrue => exact closed
  case isFalse => exact fun _ _ => rfl

theorem computes_IFX {A : BitVec 8} {code : List Inst} {scratch : List Reg} {f : X64Flags}
    (computes : dyn.needs A = true → Computes scratch f m (exec host code m)) :
    Computes scratch (if dyn.needs A then f else m.flags) m (exec host (dyn.IFX A code) m) := by
  rw [exec_IFX]
  split
  case isTrue needed => exact computes needed
  case isFalse => exact Computes.refl scratch m

/-! ### The flag fragments -/

section Fragments

variable {s1 s3 s4 : Reg}

/-- A bit made in a scratch register and put into `xFlags`. -/
theorem computes_putFlag {n : Nat} (sf : Bool) (v : BitVec n) (lsb : Nat) {f : X64Flags} (u4 : Usable s4)
    (flags : ∀ y : BitVec (opSize sf), y.getLsbD 0 = v.getLsbD 0 → ((m.set s4 v).putFlag sf y lsb).flags = f) :
    Computes [s4] f m ((m.set s4 v).putFlag sf ((m.set s4 v).get sf s4) lsb) where
  flags := flags _ (getLsbD_get_set m v u4 sf (opSize_pos sf))
  regs r ne out := by
    rw [putFlag_regs _ sf _ lsb ne, m.set_regs_of_ne v (List.ne_of_not_mem_cons out)]
  fields := by simp

theorem bit_ofBool (b : Bool) : (ofBool b).getLsbD 0 = b := by
  cases b <;> rfl

theorem sign_eq : dyn.sign = opSize dyn.rexw - 1 := by
  rw [sign]
  cases dyn.rexw <;> rfl

theorem size_eq : dyn.size = opSize dyn.rexw := by
  rw [size]
  cases dyn.rexw <;> rfl

theorem bit_sign (x : BitVec (opSize dyn.rexw)) : (x >>> dyn.sign).getLsbD 0 = x.msb := by
  rw [getLsbD_ushiftRight, Nat.add_zero, sign_eq, msb_eq_getLsbD_last]

theorem computes_setZF (sf : Bool) (u4 : Usable s4) :
    Computes [s4] (if dyn.needs X_ZF then { m.flags with ZF := m.get sf s1 == 0 } else m.flags) m
      (exec host (dyn.setZF sf s1 s4) m) := by
  refine dyn.computes_IFX m ?_
  intro _
  -- `TST` changes the condition flags first, which nothing else reads
  have code := computes_putFlag { m with nzcv := (logic (m.get sf s1 &&& m.get sf s1)).2 } false
    (ofBool (m.get sf s1 &&& m.get sf s1 == 0)) F_ZF (f := { m.flags with ZF := m.get sf s1 == 0 }) u4 ?_
  · exact ⟨code.flags, code.regs, code.fields⟩
  · intro y bit
    rw [putFlag_ZF, set_flags _ _ u4, bit, BitVec.and_self, bit_ofBool]
    rfl

theorem computes_setSF (u4 : Usable s4) :
    Computes [s4] (if dyn.needs X_SF then { m.flags with SF := (m.get dyn.rexw s1).msb } else m.flags) m
      (exec host (dyn.setSF s1 s4) m) := by
  refine dyn.computes_IFX m ?_
  intro _
  refine computes_putFlag m true (m.get dyn.rexw s1 >>> dyn.sign) F_SF u4 ?_
  intro y bit
  rw [putFlag_SF, set_flags _ _ u4, bit, bit_sign]

theorem bit_topTwoDiffer {n : Nat} (x : BitVec n) :
    (low 32 (x.setWidth 64) ^^^ (low 32 (x.setWidth 64) >>> 1)).getLsbD 0 = XOR2 x := by
  rw [XOR2, getLsbD_xor, getLsbD_xor, getLsbD_ushiftRight, getLsbD_ushiftRight]
  simp [low]

theorem computes_topTwoDiffer (u4 : Usable s4) :
    Computes [s4] { m.flags with OF := XOR2 (m.get dyn.rexw s1 >>> (dyn.sign - 1)) } m
      (exec host (dyn.topTwoDiffer s1 s4) m) := by
  let x := m.get dyn.rexw s1 >>> (dyn.sign - 1)
  have read : (m.set s4 x).get false s4 = low 32 (x.setWidth 64) := get_set m x u4 false
  have code := computes_putFlag (m.set s4 x) false (low 32 (x.setWidth 64) ^^^ (low 32 (x.setWidth 64) >>> 1)) F_OF
    (f := { m.flags with OF := XOR2 x }) u4 ?_
  · rw [← read] at code
    exact (computes_set m u4 List.mem_cons_self x).trans code
  · intro y bit
    rw [putFlag_OF, set_flags _ _ u4, set_flags _ _ u4, bit, bit_topTwoDiffer]

/-! ### The parity fragment -/

theorem toNat_high_bits (x : BitVec 32) : ((x &&& 0xE0) >>> 5).toNat = (x.setWidth 8).toNat / 32 := by
  have three : ∀ y : BitVec 32, (y >>> 5).toNat = y.toNat / 2 ^ 5 := fun y => by
    rw [toNat_ushiftRight, Nat.shiftRight_eq_div_pow]
  have mask : (x &&& 0xE0) >>> 5 = (x >>> 5) &&& 7 := ushiftRight_and_distrib x 0xE0 5
  have mod := Nat.and_two_pow_sub_one_eq_mod (x.toNat / 2 ^ 5) 3
  have seven : (7 : BitVec 32).toNat = 2 ^ 3 - 1 := rfl
  rw [mask, BitVec.toNat_and, three, seven, mod, toNat_setWidth]
  omega

theorem toNat_low_bits (x : BitVec 32) : (x &&& 0x1F).toNat = (x.setWidth 8).toNat % 32 := by
  have mod := Nat.and_two_pow_sub_one_eq_mod x.toNat 5
  have mask : (0x1F : BitVec 32).toNat = 2 ^ 5 - 1 := rfl
  rw [BitVec.toNat_and, mask, mod, toNat_setWidth]
  omega

variable (host) in
/-- What `emit_pf` leaves in its second scratch register. -/
def parityWord (x : BitVec 32) : BitVec 32 :=
  0#32 ||| ~~~(host.word (host.GetParityTab + (((x &&& 0xE0) >>> 5).setWidth 64 <<< 2)) >>> ((x &&& 0x1F).toNat % 32))

theorem bit_parityWord (x : BitVec 32) : (parityWord host x).getLsbD 0 = PARITY (x.setWidth 8) := by
  have lt := (x.setWidth 8).isLt
  have index : ((x &&& 0xE0) >>> 5).setWidth 64 <<< 2 = BitVec.ofNat 64 (4 * ((x.setWidth 8).toNat / 32)) := by
    apply BitVec.eq_of_toNat_eq
    rw [toNat_shiftLeft, toNat_setWidth, toNat_high_bits, toNat_ofNat, Nat.shiftLeft_eq]
    omega
  have row := host.word_parityTab ((x.setWidth 8).toNat / 32) (by omega)
  rw [parityWord, index, row, toNat_low_bits, PARITY, Nat.mod_mod]
  generalize x86emu_parity_tab.getD ((x.setWidth 8).toNat / 32) 0 >>> ((x.setWidth 8).toNat % 32) = y
  have bit := and_one_ne_zero y (by decide)
  rw [BitVec.zero_or, getLsbD_not, ← bit, bne, Bool.not_not]
  rfl

theorem computes_setPF (u3 : Usable s3) (u4 : Usable s4) (real1 : s1 ≠ xZR) (ne13 : s1 ≠ s3) (ne14 : s1 ≠ s4)
    (ne34 : s3 ≠ s4) :
    Computes [s3, s4] (if dyn.needs X_PF then { m.flags with PF := PARITY (low 8 (m.regs s1)) } else m.flags) m
      (exec host (dyn.setPF host s1 s3 s4) m) := by
  refine dyn.computes_IFX m ?_
  intro _
  let x : BitVec 32 := m.get false s1
  let high : BitVec 32 := (x &&& 0xE0) >>> 5
  let low5 : BitVec 32 := x &&& 0x1F
  let word := host.word (host.GetParityTab + (high.setWidth 64 <<< 2))
  let shifted := word >>> (low5.toNat % 32)
  let masked : BitVec 32 := x &&& 0xE0
  let m1 := m.set s3 masked
  let m2 := m1.set s3 high
  let m3 := m2.set s4 host.GetParityTab
  let m4 := m3.set s4 word
  let m5 := m4.set s3 low5
  let m6 := m5.set s4 shifted
  let m7 := m6.set s4 (parityWord host x)
  have same : ∀ (m : Cpu) {r : Reg} (_ : Usable r) (v : BitVec 32), (m.set r v).get false r = v :=
    fun m r u v => get_set_same m u false v
  have e1 : (AND_mask false s3 s1 0xE0).effect host m = m1 := rfl
  have e2 : (LSR false s3 s3 5).effect host m1 = m2 :=
    congrArg (fun v : BitVec 32 => m1.set s3 (v >>> 5)) (same m u3 masked)
  have e3 : (Inst.MOV s4 host.GetParityTab).effect host m2 = m3 := rfl
  have e4 : (Inst.LDRw_REG_LSL2 s4 s4 s3).effect host m3 = m4 := by
    have base : m3.get true s4 = host.GetParityTab := get_set_same m2 u4 true host.GetParityTab
    have index : m3.get true s3 = high.setWidth 64 :=
      (get_set_of_ne m2 _ ne34 true).trans ((get_set m1 high u3 true).trans (setWidth_eq _))
    show m3.set s4 (host.word (m3.get true s4 + (m3.get true s3 <<< 2))) = m4
    rw [base, index]
    rfl
  have e5 : (AND_mask false s3 s1 0x1F).effect host m4 = m5 := by
    have operand : m4.get false s1 = x := by
      rw [get_set_of_ne m3 _ ne14, get_set_of_ne m2 _ ne14, get_set_of_ne m1 _ ne13, get_set_of_ne m _ ne13]
    exact congrArg (fun v : BitVec 32 => m4.set (n := 32) s3 (v &&& 0x1F)) operand
  have e6 : (LSR_REG false s4 s4 s3).effect host m5 = m6 := by
    have row : m5.get false s4 = word := (get_set_of_ne m4 _ ne34.symm false).trans (same m3 u4 word)
    have column : m5.get false s3 = low5 := same m4 u3 low5
    show m5.set s4 (m5.get false s4 >>> ((m5.get false s3).toNat % 32)) = m6
    rw [row, column]
    rfl
  have e7 : (MVN_REG false s4 s4).effect host m6 = m7 :=
    congrArg (fun v : BitVec 32 => m6.set s4 (0#32 ||| ~~~v)) (same m5 u4 shifted)
  have e8 : (BFI false xFlags s4 F_PF).effect host m7 = m7.putFlag false (m7.get false s4) F_PF := rfl
  have code : exec host (emit_pf host s1 s3 s4) m = m7.putFlag false (m7.get false s4) F_PF := by
    rw [emit_pf, exec_cons _ _ _ rfl, e1, exec_cons _ _ _ rfl, e2, exec_cons _ _ _ rfl, e3, exec_cons _ _ _ rfl, e4,
      exec_cons _ _ _ rfl, e5, exec_cons _ _ _ rfl, e6, exec_cons _ _ _ rfl, e7, exec_cons _ _ _ rfl, e8, exec_nil]
  have flags : m7.flags = m.flags := by
    rw [set_flags _ _ u4, set_flags _ _ u4, set_flags _ _ u3, set_flags _ _ u4, set_flags _ _ u4, set_flags _ _ u3,
      set_flags _ _ u3]
  have bit : (m7.get false s4).getLsbD 0 = PARITY (low 8 (m.regs s1)) := by
    have byte : x.setWidth 8 = low 8 (m.regs s1) := by
      have whole : x = low 32 (m.regs s1) := m.get_of_ne s1 false real1
      rw [whole, low, low, setWidth_setWidth_of_le _ (by decide)]
    rw [← byte, ← bit_parityWord]
    exact congrArg (fun v : BitVec 32 => v.getLsbD 0) (same m6 u4 (parityWord host x))
  rw [code]
  constructor
  · rw [putFlag_PF, flags, bit]
  · intro r ne out
    obtain ⟨ne3, ne4⟩ : r ≠ s3 ∧ r ≠ s4 := by simpa using out
    rw [putFlag_regs _ _ _ _ ne, m6.set_regs_of_ne _ ne4, m5.set_regs_of_ne _ ne4, m4.set_regs_of_ne _ ne3,
      m3.set_regs_of_ne _ ne4, m2.set_regs_of_ne _ ne4, m1.set_regs_of_ne _ ne3, m.set_regs_of_ne _ ne3]
  · rw [putFlag_fields, Cpu.set_fields, Cpu.set_fields, Cpu.set_fields, Cpu.set_fields, Cpu.set_fields, Cpu.set_fields,
      Cpu.set_fields]

end Fragments

/-! ### The pending operation -/

section Pending

variable {s1 s2 s3 s4 : Reg} (N : DeferedFlags)

/-- The host state after a store into a field of `x64emu_t`. -/
def store (m : Cpu) (size : Width) (field : EmuField) (v : BitVec 64) : Cpu :=
  { m with fields := Function.update m.fields field (setLow (m.fields field) (low size.bits v)) }

theorem low_store (size : Width) (field : EmuField) (v : BitVec 64) :
    low size.bits ((store m size field v).fields field) = low size.bits v := by
  have read : (store m size field v).fields field = setLow (m.fields field) (low size.bits v) :=
    Function.update_self field _ _
  rw [read, low_setLow size.bits_le]

theorem store_of_ne (size : Width) (field other : EmuField) (ne : other ≠ field) (v : BitVec 64) :
    (store m size field v).fields other = m.fields other := Function.update_of_ne ne _ _

/-- Between two host states only fields and scratch registers change. -/
structure Keeps (scratch : List Reg) (m m' : Cpu) : Prop where
  flags : m'.flags = m.flags
  regs : ∀ r, r ≠ xFlags → r ∉ scratch → m'.regs r = m.regs r

theorem Keeps.refl (scratch : List Reg) (m : Cpu) : Keeps scratch m m := ⟨rfl, fun _ _ _ => rfl⟩

theorem Keeps.trans {scratch : List Reg} {m m' m'' : Cpu} (first : Keeps scratch m m') (second : Keeps scratch m' m'') :
    Keeps scratch m m'' :=
  ⟨second.flags.trans first.flags, fun r ne out => (second.regs r ne out).trans (first.regs r ne out)⟩

theorem keeps_store (scratch : List Reg) (size : Width) (field : EmuField) (v : BitVec 64) :
    Keeps scratch m (store m size field v) := ⟨rfl, fun _ _ _ => rfl⟩

theorem keeps_set {n : Nat} {scratch : List Reg} (mem : s4 ∈ scratch) (u4 : Usable s4) (v : BitVec n) :
    Keeps scratch m (m.set s4 v) :=
  ⟨set_flags m v u4, fun r _ out => m.set_regs_of_ne v fun eq => out (eq ▸ mem)⟩

theorem exec_SET_DF (u4 : Usable s4) :
    exec host (SET_DF s4 N) m = store (m.set s4 (dfCode N)) .w32 .df (dfCode N) :=
  congrArg (store (m.set s4 (dfCode N)) .w32 .df) (get_set_same m u4 true (dfCode N))

theorem keeps_SET_DF {scratch : List Reg} (mem : s4 ∈ scratch) (u4 : Usable s4) :
    Keeps scratch m (exec host (SET_DF s4 N) m) := by
  rw [exec_SET_DF m N u4]
  exact (keeps_set m mem u4 (dfCode N)).trans (keeps_store _ scratch .w32 .df _)

theorem SET_DF_df (u4 : Usable s4) : (exec host (SET_DF s4 N) m).emu.df = N := by
  rw [exec_SET_DF m N u4]
  exact (congrArg dfOfCode (low_store _ .w32 .df (dfCode N))).trans (dfOfCode_dfCode N)

theorem SET_DF_fields (u4 : Usable s4) (field : EmuField) (ne : field ≠ .df) :
    (exec host (SET_DF s4 N) m).fields field = m.fields field := by
  rw [exec_SET_DF m N u4, store_of_ne _ _ _ _ ne, Cpu.set_fields]

theorem keeps_SET_DFNONE {scratch : List Reg} (mem : s4 ∈ scratch) (u4 : Usable s4) :
    Keeps scratch m (exec host (dyn.SET_DFNONE s4) m) := by
  rw [SET_DFNONE]
  split
  case isTrue => exact Keeps.refl scratch m
  case isFalse => exact keeps_SET_DF m .d_none mem u4

theorem straight_pendOrNone {pend : List Inst} (straight : Straight pend) : Straight (dyn.pendOrNone s4 pend) := by
  rw [pendOrNone]
  split
  case isTrue => exact straight
  case isFalse =>
    rw [IFX]
    split
    case isTrue =>
      rw [SET_DFNONE]
      split
      case isTrue => rfl
      case isFalse => rfl
    case isFalse => rfl

theorem keeps_pendOrNone {pend : List Inst} {scratch : List Reg} (mem : s4 ∈ scratch) (u4 : Usable s4)
    (keeps : Keeps scratch m (exec host pend m)) : Keeps scratch m (exec host (dyn.pendOrNone s4 pend) m) := by
  rw [pendOrNone]
  split
  case isTrue => exact keeps
  case isFalse =>
    rw [exec_IFX]
    split
    case isTrue => exact dyn.keeps_SET_DFNONE m mem u4
    case isFalse => exact Keeps.refl scratch m

/-- The operation and its count are in `df` and `op2`. -/
structure RecordsCount (sf : Bool) (op2 : BitVec (opSize sf)) (m : Cpu) : Prop where
  df : m.emu.df = N
  op2 : low (opSize sf) m.emu.op2 = op2

/-- The operation and its operands are in `df`, `op1` and `op2`. -/
structure Records (sf : Bool) (op1 op2 : BitVec (opSize sf)) (m : Cpu) : Prop extends RecordsCount N sf op2 m where
  op1 : low (opSize sf) m.emu.op1 = op1

/-- The fields of the pending operation, its result apart, are the same. -/
def SameOperation (m m' : Cpu) : Prop := ∀ field, field ≠ .res → m'.fields field = m.fields field

theorem RecordsCount.of_same {sf : Bool} {op2 : BitVec (opSize sf)} {m m' : Cpu} (records : RecordsCount N sf op2 m)
    (same : SameOperation m m') : RecordsCount N sf op2 m' where
  df := (congrArg (fun cell => dfOfCode (low 32 cell)) (same .df (by decide))).trans records.df
  op2 := (congrArg (low (opSize sf)) (same .op2 (by decide))).trans records.op2

theorem Records.of_same {sf : Bool} {op1 op2 : BitVec (opSize sf)} {m m' : Cpu} (records : Records N sf op1 op2 m)
    (same : SameOperation m m') : Records N sf op1 op2 m' where
  toRecordsCount := records.toRecordsCount.of_same N same
  op1 := (congrArg (low (opSize sf)) (same .op1 (by decide))).trans records.op1

theorem keeps_pendOp (u4 : Usable s4) : Keeps [s4] m (exec host (dyn.pendOp s1 s2 s4 N) m) := by
  refine dyn.keeps_pendOrNone m List.mem_cons_self u4 ?_
  exact ((keeps_store m _ _ _ _).trans (keeps_store _ _ _ _ _)).trans (keeps_SET_DF _ N List.mem_cons_self u4)

theorem low_get_true (sf : Bool) (r : Reg) : low (opSize sf) (m.get true r) = m.get sf r := by
  rw [Cpu.get, Cpu.get]
  split
  case isTrue => exact setWidth_zero (opSize sf) 64
  case isFalse => exact setWidth_setWidth_of_le _ (opSize_le sf)

theorem records_pendOp (needed : dyn.needs X_PEND = true) (u4 : Usable s4) :
    Records N dyn.rexw (m.get dyn.rexw s1) (m.get dyn.rexw s2) (exec host (dyn.pendOp s1 s2 s4 N) m) := by
  let m1 := store m (opWidth dyn.rexw) .op1 (m.get true s1)
  let m2 := store m1 (opWidth dyn.rexw) .op2 (m.get true s2)
  have code : exec host (dyn.pendOp s1 s2 s4 N) m = exec host (SET_DF s4 N) m2 := by
    rw [pendOp, pendOrNone, if_pos needed]
    rfl
  have op1 := @SET_DF_fields host m2 s4 N u4 .op1 (by decide)
  have op2 := @SET_DF_fields host m2 s4 N u4 .op2 (by decide)
  have kept := store_of_ne m1 (opWidth dyn.rexw) .op2 .op1 (by decide) (m.get true s2)
  rw [code]
  refine ⟨⟨SET_DF_df m2 N u4, ?_⟩, ?_⟩
  · exact (congrArg (low _) op2).trans ((low_store m1 _ _ _).trans (low_get_true m _ _))
  · exact (congrArg (low _) (op1.trans kept)).trans ((low_store m _ _ _).trans (low_get_true m _ _))

theorem keeps_pendCount (c : Nat) (u3 : Usable s3) (u4 : Usable s4) :
    Keeps [s3, s4] m (exec host (dyn.pendCount c s3 s4 N) m) := by
  refine dyn.keeps_pendOrNone m (by simp) u4 ?_
  exact ((keeps_set m (by simp) u3 _).trans (keeps_store _ _ _ _ _)).trans (keeps_SET_DF _ N (by simp) u4)

theorem low_ofNat (sf : Bool) (c : Nat) : low (opSize sf) (BitVec.ofNat 64 c) = BitVec.ofNat _ c :=
  setWidth_ofNat_of_le (opSize_le sf) c

theorem records_pendCount (c : Nat) (needed : dyn.needs X_PEND = true) (u3 : Usable s3) (u4 : Usable s4) :
    RecordsCount N dyn.rexw (BitVec.ofNat _ c) (exec host (dyn.pendCount c s3 s4 N) m) := by
  let m1 := m.set s3 (BitVec.ofNat 64 c)
  let m2 := store m1 (opWidth dyn.rexw) .op2 (m1.get true s3)
  have code : exec host (dyn.pendCount c s3 s4 N) m = exec host (SET_DF s4 N) m2 := by
    rw [pendCount, pendOrNone, if_pos needed]
    rfl
  have count : m1.get true s3 = BitVec.ofNat 64 c := get_set_same m u3 true (BitVec.ofNat 64 c)
  have op2 := @SET_DF_fields host m2 s4 N u4 .op2 (by decide)
  rw [code]
  refine ⟨SET_DF_df m2 N u4, ?_⟩
  exact (congrArg (low _) op2).trans ((low_store m1 _ _ _).trans ((congrArg (low _) count).trans (low_ofNat _ c)))

theorem keeps_pendOpc (c : Nat) (u3 : Usable s3) (u4 : Usable s4) :
    Keeps [s3, s4] m (exec host (dyn.pendOpc s1 c s3 s4 N) m) := by
  refine dyn.keeps_pendOrNone m (by simp) u4 ?_
  refine Keeps.trans ?_ (keeps_SET_DF _ N (by simp) u4)
  exact ((keeps_set m (by simp) u3 _).trans (keeps_store _ _ _ _ _)).trans (keeps_store _ _ _ _ _)

theorem records_pendOpc (c : Nat) (needed : dyn.needs X_PEND = true) (u3 : Usable s3) (u4 : Usable s4) (ne13 : s1 ≠ s3) :
    Records N dyn.rexw (m.get dyn.rexw s1) (BitVec.ofNat _ c) (exec host (dyn.pendOpc s1 c s3 s4 N) m) := by
  let m1 := m.set s3 (BitVec.ofNat 64 c)
  let m2 := store m1 (opWidth dyn.rexw) .op1 (m1.get true s1)
  let m3 := store m2 (opWidth dyn.rexw) .op2 (m1.get true s3)
  have code : exec host (dyn.pendOpc s1 c s3 s4 N) m = exec host (SET_DF s4 N) m3 := by
    rw [pendOpc, pendOrNone, if_pos needed]
    rfl
  have count : m1.get true s3 = BitVec.ofNat 64 c := get_set_same m u3 true (BitVec.ofNat 64 c)
  have operand : m1.get true s1 = m.get true s1 := get_set_of_ne m _ ne13 true
  have op1 := @SET_DF_fields host m3 s4 N u4 .op1 (by decide)
  have op2 := @SET_DF_fields host m3 s4 N u4 .op2 (by decide)
  have kept := store_of_ne m2 (opWidth dyn.rexw) .op2 .op1 (by decide) (m1.get true s3)
  rw [code]
  refine ⟨⟨SET_DF_df m3 N u4, ?_⟩, ?_⟩
  · exact (congrArg (low _) op2).trans ((low_store m2 _ _ _).trans ((congrArg (low _) count).trans (low_ofNat _ c)))
  · refine (congrArg (low _) (op1.trans kept)).trans ((low_store m1 _ _ _).trans ?_)
    rw [operand]
    exact low_get_true m _ _

/-- `pendRes` stores the result, if the pending operation is needed, and does nothing else. -/
structure StoresRes (s1 : Reg) (m m' : Cpu) : Prop where
  regs : m'.regs = m.regs
  same : SameOperation m m'
  res : dyn.needs X_PEND = true → low (opSize dyn.rexw) m'.emu.res = m.get dyn.rexw s1

theorem storesRes_pendRes : dyn.StoresRes s1 m (exec host (dyn.pendRes s1) m) := by
  rw [pendRes, exec_IFX]
  split
  case isTrue needed =>
    refine ⟨rfl, fun field ne => store_of_ne m _ _ _ ne _, fun _ => ?_⟩
    exact (low_store m (opWidth dyn.rexw) .res _).trans (low_get_true m _ _)
  case isFalse absent => exact ⟨rfl, fun _ _ => rfl, fun needed => absurd needed absent⟩

end Pending

/-! ### From the result to the end -/

section Finish

variable {s1 s3 s4 : Reg}

/-- An operand and two scratch registers, all different. -/
structure Apart (s1 s3 s4 : Reg) : Prop where
  usable1 : Usable s1
  usable3 : Usable s3
  usable4 : Usable s4
  ne13 : s1 ≠ s3
  ne14 : s1 ≠ s4
  ne34 : s3 ≠ s4

/-- What is known of the host state when the sign is computed: the operands are the ones of `m`. -/
structure Finishing (s4 : Reg) (m m' : Cpu) : Prop where
  regs : ∀ q, q ≠ xFlags → q ≠ s4 → m'.regs q = m.regs q
  CF : m'.flags.CF = m.flags.CF
  OF : m'.flags.OF = m.flags.OF

/-- Code that computes `SF` and, to the value `off`, `OF`. -/
def ComputesSignAndOverflow (host : Host) (s1 s3 s4 : Reg) (off : Bool) (m : Cpu) (code : List Inst) : Prop :=
  ∀ m', Finishing s4 m m' →
    Computes [s3, s4]
      { m'.flags with
        SF := if dyn.needs X_SF then (m'.get dyn.rexw s1).msb else m'.flags.SF
        OF := if dyn.needs X_OF then off else m'.flags.OF } m' (exec host code m')

variable (host) in
/-- The code that follows the computation of a result. -/
def finish (sf : Bool) (signAndOverflow : List Inst) (s1 s3 s4 : Reg) : List Inst :=
  dyn.pendRes s1 ++ (dyn.setZF sf s1 s4 ++ (signAndOverflow ++ dyn.setPF host s1 s3 s4))

/-- The host state in the end: the result is stored, and the flags asked for are those of the result, with `OF` as
given. -/
structure Finished (s1 : Reg) (sf off : Bool) (m m' : Cpu) : Prop where
  result : m'.regs s1 = m.regs s1
  flags : m'.flags =
    { CF := m.flags.CF
      PF := if dyn.needs X_PF then PARITY (low 8 (m.regs s1)) else m.flags.PF
      AF := m.flags.AF
      ZF := if dyn.needs X_ZF then m.get sf s1 == 0 else m.flags.ZF
      SF := if dyn.needs X_SF then (m.get dyn.rexw s1).msb else m.flags.SF
      OF := if dyn.needs X_OF then off else m.flags.OF }
  same : SameOperation m m'
  res : dyn.needs X_PEND = true → low (opSize dyn.rexw) m'.emu.res = m.get dyn.rexw s1

theorem closed_pendRes : Closed host (dyn.pendRes s1) := dyn.closed_IFX (Straight.closed rfl)

theorem closed_setZF (sf : Bool) : Closed host (dyn.setZF sf s1 s4) := dyn.closed_IFX (Straight.closed rfl)

theorem closed_setSF : Closed host (dyn.setSF s1 s4) := dyn.closed_IFX (Straight.closed rfl)

theorem finished_finish (apart : Apart s1 s3 s4) (sf : Bool) {off : Bool} {code : List Inst}
    (closed : Closed host code) (computes : dyn.ComputesSignAndOverflow host s1 s3 s4 off m code) :
    dyn.Finished s1 sf off m (exec host (dyn.finish host sf code s1 s3 s4) m) := by
  obtain ⟨u1, u3, u4, ne13, ne14, ne34⟩ := apart
  let m1 := exec host (dyn.pendRes s1) m
  let m2 := exec host (dyn.setZF sf s1 s4) m1
  let m3 := exec host code m2
  let m4 := exec host (dyn.setPF host s1 s3 s4) m3
  have run : exec host (dyn.finish host sf code s1 s3 s4) m = m4 := by
    rw [finish, dyn.closed_pendRes, dyn.closed_setZF, closed]
  have out4 : s1 ∉ [s4] := by simpa using ne14
  have out34 : s1 ∉ [s3, s4] := by simpa using And.intro ne13 ne14
  have stored : dyn.StoresRes s1 m m1 := dyn.storesRes_pendRes m
  have flags1 : m1.flags = m.flags := congrArg (fun regs : Reg → BitVec 64 => flagsOf (regs xFlags)) stored.regs
  have zero : Computes [s4] _ m1 m2 := dyn.computes_setZF m1 sf u4
  have get1 : m1.get sf s1 = m.get sf s1 :=
    congrArg (fun regs : Reg → BitVec 64 => if s1 = xZR then 0 else low (opSize sf) (regs s1)) stored.regs
  have finishing : Finishing s4 m m2 := by
    refine ⟨fun q ne out => ?_, ?_, ?_⟩
    · rw [zero.regs q ne (by simpa using out), stored.regs]
    all_goals
      rw [zero.flags, ← flags1]
      split <;> rfl
  have sign := computes m2 finishing
  have parity : Computes [s3, s4] _ m3 m4 := dyn.computes_setPF m3 u3 u4 u1.not_zero ne13 ne14 ne34
  have result2 : m2.regs s1 = m.regs s1 := finishing.regs s1 u1.not_flags ne14
  have result3 : m3.regs s1 = m.regs s1 := (sign.regs s1 u1.not_flags out34).trans result2
  have fields : m4.fields = m1.fields := parity.fields.trans (sign.fields.trans zero.fields)
  rw [run]
  refine ⟨(parity.regs s1 u1.not_flags out34).trans result3, ?_, fun field ne => ?_, fun needed => ?_⟩
  · have get2 : m2.get dyn.rexw s1 = m.get dyn.rexw s1 := by rw [Cpu.get, Cpu.get, result2]
    rw [parity.flags, sign.flags, zero.flags, flags1, result3, get1, get2]
    cases dyn.needs X_ZF <;> cases dyn.needs X_PF <;> rfl
  · rw [fields]
    exact stored.same field ne
  · exact (congrArg (fun fields => low (opSize dyn.rexw) (fields EmuField.res)) fields).trans (stored.res needed)

end Finish

end Emit

end Box64.Arm64
