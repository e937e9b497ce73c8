import Box64.Dynarec.EmitLogic
import Box64.Dynarec.ShiftEmitters

/-!
# Logic emitters against the interpreter

An emitter stores the operation, computes the result, stores it and computes the flags. Each part is described by what it
leaves, and the parts of all emitters are put together once.
-/

namespace Box64.Arm64

open BitVec Emu Dynarec

/-! ### Bitwise operations -/

/-- The operations on each bit alone. -/
inductive AluOp.Bitwise : AluOp → Prop
  | and : Bitwise .AND
  | orr : Bitwise .ORR
  | eor : Bitwise .EOR

def AluOp.bits {n : Nat} (op : AluOp) (x y : BitVec n) : BitVec n := (op.eval false x y).1

section Bitwise
variable {op : AluOp} (bitwise : op.Bitwise) {n : Nat}
include bitwise

theorem AluOp.Bitwise.eval (c : Bool) (x y : BitVec n) : op.eval c x y = logic (op.bits x y) := by
  cases bitwise <;> rfl

theorem AluOp.Bitwise.low (x y : BitVec n) (k : Nat) : (op.bits x y).setWidth k = op.bits (x.setWidth k) (y.setWidth k) := by
  cases bitwise
  · exact setWidth_and
  · exact setWidth_or
  · exact setWidth_xor

theorem AluOp.Bitwise.lt {x y : BitVec n} {k : Nat} (left : x.toNat < 2 ^ k) (right : y.toNat < 2 ^ k) :
    (op.bits x y).toNat < 2 ^ k := by
  cases bitwise
  · exact (toNat_and x y).symm ▸ Nat.and_lt_two_pow _ right
  · exact (toNat_or x y).symm ▸ Nat.or_lt_two_pow left right
  · exact (toNat_xor x y).symm ▸ Nat.xor_lt_two_pow left right

end Bitwise

theorem and_lt {n k : Nat} {x y : BitVec n} (one : x.toNat < 2 ^ k ∨ y.toNat < 2 ^ k) : (AluOp.AND.bits x y).toNat < 2 ^ k := by
  have whole : (AluOp.AND.bits x y).toNat = x.toNat &&& y.toNat := toNat_and x y
  rw [whole]
  rcases one with left | right
  · rw [Nat.and_comm]
    exact Nat.and_lt_two_pow _ left
  · exact Nat.and_lt_two_pow _ right

/-- A number without bits above `k` is 0 where its low `k` bits are. -/
theorem beq_zero_low {n k : Nat} {x : BitVec n} (small : x.toNat < 2 ^ k) : (x == 0) = (x.setWidth k == 0) := by
  rw [Bool.eq_iff_iff, beq_iff_eq, beq_iff_eq]
  constructor
  · rintro rfl
    simp
  · intro zero
    have whole := congrArg BitVec.toNat zero
    rw [toNat_setWidth, Nat.mod_eq_of_lt small] at whole
    exact eq_of_toNat_eq (by simpa using whole)

theorem setWidth_get {m : Cpu} {r : Reg} (real : r ≠ xZR) {k : Nat} {sf : Bool} (le : k ≤ opSize sf) :
    (m.get sf r).setWidth k = low k (m.regs r) := by
  rw [m.get_of_ne r sf real, low, low, setWidth_setWidth_of_le _ le]

/-! ### The flags of a result -/

namespace Emit

variable (host : Host) (dyn : Emit) {s1 s3 s4 : Reg} {w : Width}

/-- Between two host states only the flags, scratch registers and the bits of `s1` above the operand change. -/
structure Marks (w : Width) (s1 s3 s4 : Reg) (f : X64Flags) (m m' : Cpu) : Prop where
  flags : m'.flags = f
  value : low w.bits (m'.regs s1) = low w.bits (m.regs s1)
  regs : ∀ r, r ≠ xFlags → r ≠ s1 → r ≠ s3 → r ≠ s4 → m'.regs r = m.regs r
  fields : m'.fields = m.fields

theorem Marks.trans {f f' : X64Flags} {m m' m'' : Cpu} (first : Marks w s1 s3 s4 f m m')
    (second : Marks w s1 s3 s4 f' m' m'') : Marks w s1 s3 s4 f' m m'' where
  flags := second.flags
  value := second.value.trans first.value
  regs r ne ne1 ne3 ne4 := (second.regs r ne ne1 ne3 ne4).trans (first.regs r ne ne1 ne3 ne4)
  fields := second.fields.trans first.fields

theorem marks_of_computes (apart : Apart s1 s3 s4) {f : X64Flags} {m m' : Cpu} (computes : Computes [s3, s4] f m m') :
    Marks w s1 s3 s4 f m m' where
  flags := computes.flags
  value := by rw [computes.regs s1 apart.usable1.not_flags (by simp [apart.ne13, apart.ne14])]
  regs r ne _ ne3 ne4 := computes.regs r ne (by simp [ne3, ne4])
  fields := computes.fields

/-- `CF`, `AF` and `OF` are cleared together. -/
def clearedCAO (f : X64Flags) : X64Flags :=
  if dyn.needs (X_CF ||| X_AF ||| X_OF) then { f with CF := false, AF := false, OF := false } else f

theorem computes_clearCAO (m : Cpu) (u3 : Usable s3) :
    Computes [s3] (dyn.clearedCAO m.flags) m (exec host (dyn.clearCAO s3) m) := by
  refine dyn.computes_IFX m ?_
  intro _
  let mask := BitVec.ofNat 64 (1 <<< F_CF ||| 1 <<< F_AF ||| 1 <<< F_OF)
  let m1 := m.set s3 mask
  have read : m1.get false s3 = low (opSize false) mask := by
    rw [get_set m mask u3 false, setWidth_eq]
  have code : exec host [.MOV s3 mask, BIC_REG false xFlags xFlags s3] m =
      m1.set xFlags (m1.get false xFlags &&& ~~~ low (opSize false) mask) := by
    rw [← read]
    rfl
  have flags : m1.regs xFlags = m.regs xFlags := m.set_regs_of_ne mask u3.not_flags.symm
  have bit : ∀ i < 32, ((m1.get false xFlags &&& ~~~ low (opSize false) mask).setWidth 64).getLsbD i =
      ((m.regs xFlags).getLsbD i && !mask.getLsbD i) := by
    intro i lt
    rw [m1.get_of_ne xFlags false (by decide), flags, getLsbD_setWidth, getLsbD_and, getLsbD_not, low, low, getLsbD_setWidth,
      getLsbD_setWidth]
    have wide : i < opSize false := lt
    simp [wide, show i < 64 by omega]
  rw [code]
  refine ⟨?_, ?_, ?_⟩
  · rw [Cpu.flags, m1.set_regs xFlags _ (by decide), flagsOf, bit F_CF (by decide), bit F_PF (by decide), bit F_AF (by decide),
      bit F_ZF (by decide), bit F_SF (by decide), bit F_OF (by decide)]
    rw [show mask.getLsbD F_CF = true by decide, show mask.getLsbD F_PF = false by decide,
      show mask.getLsbD F_AF = true by decide, show mask.getLsbD F_ZF = false by decide,
      show mask.getLsbD F_SF = false by decide, show mask.getLsbD F_OF = true by decide]
    simp [Cpu.flags, flagsOf]
  · intro r ne out
    rw [m1.set_regs_of_ne _ ne, m.set_regs_of_ne _ (by simpa using out)]
  · rw [Cpu.set_fields, Cpu.set_fields]

theorem clearCAO_nzcv (s3 : Reg) (m : Cpu) : (exec host (dyn.clearCAO s3) m).nzcv = m.nzcv := by
  rw [clearCAO, exec_IFX]
  split
  case isTrue =>
    show (((m.set s3 _).set xFlags _)).nzcv = m.nzcv
    rw [Cpu.set_nzcv, Cpu.set_nzcv]
  case isFalse => rfl

/-- The test leaves the operand, and in the condition flags whether it is 0. -/
structure Tests (host : Host) (w : Width) (s1 s3 s4 : Reg) (test : List Inst) (m : Cpu) : Prop where
  straight : Straight test
  marks : Marks w s1 s3 s4 m.flags m (exec host test m)
  zero : (exec host test m).nzcv.Z = (low w.bits (m.regs s1) == 0)

theorem marks_zeroFlag (apart : Apart s1 s3 s4) {test : List Inst} {m : Cpu}
    (tests : dyn.needs X_ZF = true → Tests host w s1 s3 s4 test m) :
    Marks w s1 s3 s4 (if dyn.needs X_ZF then { m.flags with ZF := low w.bits (m.regs s1) == 0 } else m.flags) m
      (exec host (dyn.zeroFlag test s3) m) := by
  rw [zeroFlag, exec_IFX]
  split
  case isTrue needed =>
    obtain ⟨straight, marks, zero⟩ := tests needed
    rw [exec_append host m straight]
    have put := computes_putFlag (exec host test m) false (ofBool (exec host test m).nzcv.Z) F_ZF
      (f := { (exec host test m).flags with ZF := (exec host test m).nzcv.Z }) apart.usable3 ?_
    · rw [zero, marks.flags] at put
      refine marks.trans (marks_of_computes apart (Computes.mono ?_ (List.cons_subset_cons s3 (List.nil_subset _))))
      rw [← zero] at put ⊢
      exact put
    · intro y bit
      rw [putFlag_ZF, set_flags _ _ apart.usable3, bit, bit_ofBool]
  case isFalse => exact ⟨rfl, rfl, fun _ _ _ _ _ => rfl, rfl⟩

/-- `SF` from the top bit of the operand. -/
theorem computes_topBit (m : Cpu) (real : s1 ≠ xZR) (u3 : Usable s3) {sl : Bool} (sb : Bool) {k : Nat} (last : k + 1 = w.bits)
    (le : w.bits ≤ opSize sl) :
    Computes [s3] (if dyn.needs X_SF then { m.flags with SF := (low w.bits (m.regs s1)).msb } else m.flags) m
      (exec host (dyn.IFX X_SF [LSR sl s3 s1 k, BFI sb xFlags s3 F_SF]) m) := by
  refine dyn.computes_IFX m ?_
  intro _
  refine computes_putFlag m sb (m.get sl s1 >>> k) F_SF u3 ?_
  intro y bit
  have top : (m.get sl s1 >>> k).getLsbD 0 = (low w.bits (m.regs s1)).msb := by
    rw [getLsbD_ushiftRight, Nat.add_zero, msb_eq_getLsbD_last, show w.bits - 1 = k by omega,
      ← setWidth_get real le, getLsbD_setWidth]
    simp [show k < w.bits by omega]
  rw [putFlag_SF, set_flags _ _ u3, bit, top]

/-- `clearCAO`, `zeroFlag`, the sign and the parity. -/
def resultFlags (host : Host) (test : List Inst) (sl sb : Bool) (k : Nat) (s1 s3 s4 : Reg) : List Inst :=
  dyn.clearCAO s3 ++ (dyn.zeroFlag test s3 ++ (dyn.IFX X_SF [LSR sl s3 s1 k, BFI sb xFlags s3 F_SF] ++
    dyn.setPF host s1 s3 s4))

/-- The flags asked for are those of the result. -/
def flagsOfResult (f : X64Flags) (v : BitVec w.bits) : X64Flags where
  CF := if dyn.needs (X_CF ||| X_AF ||| X_OF) then false else f.CF
  PF := if dyn.needs X_PF then PARITY (v.setWidth 8) else f.PF
  AF := if dyn.needs (X_CF ||| X_AF ||| X_OF) then false else f.AF
  ZF := if dyn.needs X_ZF then v == 0 else f.ZF
  SF := if dyn.needs X_SF then v.msb else f.SF
  OF := if dyn.needs (X_CF ||| X_AF ||| X_OF) then false else f.OF

theorem marks_resultFlags (m : Cpu) (apart : Apart s1 s3 s4) {test : List Inst} {sl : Bool} (sb : Bool) {k : Nat}
    (last : k + 1 = w.bits) (le : w.bits ≤ opSize sl) (straight : Straight test)
    (tests : ∀ m', m'.regs s1 = m.regs s1 → m'.nzcv = m.nzcv → dyn.needs X_ZF = true → Tests host w s1 s3 s4 test m') :
    Marks w s1 s3 s4 (dyn.flagsOfResult m.flags (low w.bits (m.regs s1))) m
      (exec host (dyn.resultFlags host test sl sb k s1 s3 s4) m) := by
  have closed_clear : Closed host (dyn.clearCAO s3) := dyn.closed_IFX (Straight.closed rfl)
  have closed_zero : Closed host (dyn.zeroFlag test s3) := dyn.closed_IFX ((Straight.closed straight).append (Straight.closed rfl))
  have closed_sign : Closed host (dyn.IFX X_SF [LSR sl s3 s1 k, BFI sb xFlags s3 F_SF]) := dyn.closed_IFX (Straight.closed rfl)
  have eight : 8 ≤ w.bits := w.le_bits
  unfold resultFlags
  rw [closed_clear, closed_zero, closed_sign]
  have cleared := dyn.computes_clearCAO host m apart.usable3
  have nzcv := dyn.clearCAO_nzcv host s3 m
  have kept := cleared.regs s1 apart.usable1.not_flags (by simp [apart.ne13])
  have marks : Marks w s1 s3 s4 _ _ _ := marks_of_computes apart (cleared.mono (List.cons_subset_cons s3 (List.nil_subset _)))
  generalize exec host (dyn.clearCAO s3) m = m1 at cleared nzcv kept marks ⊢
  have zero := dyn.marks_zeroFlag host apart (tests m1 kept nzcv)
  generalize exec host (dyn.zeroFlag test s3) m1 = m2 at zero ⊢
  have sign := dyn.computes_topBit host m2 apart.usable1.not_zero apart.usable3 sb last le
  have sign_marks : Marks w s1 s3 s4 _ _ _ := marks_of_computes apart (sign.mono (List.cons_subset_cons s3 (List.nil_subset _)))
  generalize exec host (dyn.IFX X_SF [LSR sl s3 s1 k, BFI sb xFlags s3 F_SF]) m2 = m3 at sign sign_marks ⊢
  have parity : Computes _ _ _ (exec host _ m3) := dyn.computes_setPF m3 apart.usable3 apart.usable4 apart.usable1.not_zero apart.ne13 apart.ne14
    apart.ne34
  have whole := ((marks.trans zero).trans sign_marks).trans (marks_of_computes apart parity)
  have byte : ∀ x : BitVec 64, low 8 x = (low w.bits x).setWidth 8 := fun x => (setWidth_setWidth_of_le x eight).symm
  refine ⟨?_, whole.value, whole.regs, whole.fields⟩
  rw [whole.flags, sign.flags, zero.flags, cleared.flags, byte, sign_marks.value, zero.value, kept]
  unfold flagsOfResult clearedCAO
  cases dyn.needs X_ZF <;> cases dyn.needs X_SF <;> cases dyn.needs X_PF <;> cases dyn.needs (X_CF ||| X_AF ||| X_OF) <;> rfl

/-! ### Where the zero flag comes from -/

theorem tests_TST {m : Cpu} (apart : Apart s1 s3 s4) {sf : Bool} (le : w.bits ≤ opSize sf)
    (small : (m.get sf s1).toNat < 2 ^ w.bits) : Tests host w s1 s3 s4 [TST_REG sf s1 s1] m where
  straight := rfl
  marks := ⟨rfl, rfl, fun _ _ _ _ _ => rfl, rfl⟩
  zero := by
    show (m.get sf s1 &&& m.get sf s1 == 0) = _
    rw [BitVec.and_self, beq_zero_low small, setWidth_get apart.usable1.not_zero le]

/-- The operation itself has set the condition flags. -/
theorem tests_nil {m : Cpu} (zero : m.nzcv.Z = (low w.bits (m.regs s1) == 0)) : Tests host w s1 s3 s4 [] m where
  straight := rfl
  marks := ⟨rfl, rfl, fun _ _ _ _ _ => rfl, rfl⟩
  zero := zero

/-- `ANDSw_mask` cuts the operand. -/
theorem tests_mask {m : Cpu} (apart : Apart s1 s3 s4) : Tests host .w16 s1 s3 s4 [ANDS_mask false s1 s1 0xffff] m := by
  let x := m.get false s1 &&& low (opSize false) 0xffff
  have code : exec host [ANDS_mask false s1 s1 0xffff] m = { m.set s1 x with nzcv := (logic x).2 } := rfl
  have small : x.toNat < 2 ^ 16 := by
    show (m.get false s1 &&& low (opSize false) 0xffff).toNat < 2 ^ 16
    rw [toNat_and]
    exact Nat.and_lt_two_pow _ (by decide)
  have cut : x.setWidth 16 = low 16 (m.regs s1) := by
    show (m.get false s1 &&& low (opSize false) 0xffff).setWidth 16 = _
    rw [setWidth_and, setWidth_get apart.usable1.not_zero (by decide), show (low (opSize false) 0xffff).setWidth 16 =
      allOnes 16 by decide, and_allOnes]
  refine ⟨rfl, ⟨?_, ?_, ?_, ?_⟩, ?_⟩
  · rw [code]
    exact set_flags m x apart.usable1
  · rw [code]
    show low 16 ((m.set s1 x).regs s1) = low 16 (m.regs s1)
    rw [m.set_regs s1 x apart.usable1.not_zero, low, setWidth_setWidth_of_le _ (by decide)]
    exact cut
  · intro r _ ne1 _ _
    rw [code]
    exact m.set_regs_of_ne x ne1
  · rw [code]
    exact m.set_fields s1 x
  · rw [code]
    show (x == 0) = (low 16 (m.regs s1) == 0)
    rw [beq_zero_low small, cut]

/-! ### The operation -/

/-- `s1` has the result, and nothing else changes but the condition flags. -/
structure Operates (op : AluOp) (set sop : Bool) (s1 src : Reg) (m m' : Cpu) : Prop where
  result : m'.regs s1 = (op.bits (m.get sop s1) (m.get sop src)).setWidth 64
  zero : set = true → m'.nzcv.Z = (op.bits (m.get sop s1) (m.get sop src) == 0)
  flags : m'.flags = m.flags
  regs : ∀ r, r ≠ s1 → m'.regs r = m.regs r
  fields : m'.fields = m.fields

theorem operates {op : AluOp} (bitwise : op.Bitwise) (set sop : Bool) (u1 : Usable s1) (src : Reg) (m : Cpu) :
    Operates op set sop s1 src m (exec host [.alu op set sop s1 s1 (.reg src)] m) := by
  let x := op.bits (m.get sop s1) (m.get sop src)
  have code : exec host [.alu op set sop s1 s1 (.reg src)] m =
      if set then { m.set s1 x with nzcv := (logic x).2 } else m.set s1 x := by
    show m.alu op set sop s1 s1 (.reg src) = _
    unfold Cpu.alu
    rw [bitwise.eval]
    rfl
  rw [code]
  cases set with
  | false =>
    exact ⟨m.set_regs s1 x u1.not_zero, fun absurd => Bool.noConfusion absurd, set_flags m x u1, fun r ne => m.set_regs_of_ne x ne,
      m.set_fields s1 x⟩
  | true =>
    exact ⟨m.set_regs s1 x u1.not_zero, fun _ => rfl, set_flags m x u1, fun r ne => m.set_regs_of_ne x ne, m.set_fields s1 x⟩

section Operated
variable {op : AluOp} {set sop : Bool} {src : Reg} {m m' : Cpu} (operated : Operates op set sop s1 src m m')
include operated

theorem Operates.low (bitwise : op.Bitwise) (u1 : Usable s1) (real : src ≠ xZR) (le : w.bits ≤ opSize sop) :
    low w.bits (m'.regs s1) = op.bits (low w.bits (m.regs s1)) (low w.bits (m.regs src)) := by
  rw [operated.result, Emu.low, setWidth_setWidth_of_le _ w.bits_le, bitwise.low, setWidth_get u1.not_zero le,
    setWidth_get real le]

theorem Operates.get (u1 : Usable s1) {sf : Bool} :
    m'.get sf s1 = (op.bits (m.get sop s1) (m.get sop src)).setWidth (opSize sf) := by
  rw [m'.get_of_ne s1 sf u1.not_zero, operated.result, Emu.low, setWidth_setWidth_of_le _ (opSize_le sf)]

end Operated

/-! ### The stored result -/

/-- The result is stored where the pending operation needs it. -/
structure Stores (w : Width) (s1 : Reg) (m m' : Cpu) : Prop where
  regs : m'.regs = m.regs
  nzcv : m'.nzcv = m.nzcv
  same : SameOperation m m'
  res : dyn.needs X_PEND = true → low w.bits m'.emu.res = low w.bits (m.regs s1)

theorem get_true (m : Cpu) {r : Reg} (real : r ≠ xZR) : m.get true r = m.regs r := by
  rw [m.get_of_ne r true real]
  exact setWidth_eq _

theorem stores_STR (w : Width) (m : Cpu) (u1 : Usable s1) :
    dyn.Stores w s1 m (exec host (dyn.IFX X_PEND [.STR w s1 .res]) m) := by
  rw [exec_IFX]
  split
  case isTrue =>
    refine ⟨rfl, rfl, fun field ne => store_of_ne m _ _ _ ne _, fun _ => ?_⟩
    exact (low_store m w .res _).trans (congrArg (low w.bits) (get_true m u1.not_zero))
  case isFalse absent => exact ⟨rfl, rfl, fun _ _ => rfl, fun needed => absurd needed absent⟩

/-- A second store of the low byte changes nothing. -/
theorem stores_twice (m : Cpu) (u1 : Usable s1) :
    dyn.Stores .w16 s1 m (exec host (dyn.IFX X_PEND [.STR .w16 s1 .res] ++ dyn.IFX X_PEND [.STR .w8 s1 .res]) m) := by
  have closed : Closed host (dyn.IFX X_PEND [.STR .w16 s1 .res]) := dyn.closed_IFX (Straight.closed rfl)
  rw [closed]
  obtain ⟨regs, nzcv, same, res⟩ := dyn.stores_STR host .w16 m u1
  generalize exec host (dyn.IFX X_PEND [.STR .w16 s1 .res]) m = m1 at regs nzcv same res ⊢
  rw [exec_IFX]
  split
  case isTrue needed =>
    have first : low 16 (m1.fields .res) = low 16 (m.regs s1) := res needed
    have byte : low 8 (m1.get true s1) = low 8 (m1.fields .res) := by
      have cut : ∀ x : BitVec 64, low 8 x = (low 16 x).setWidth 8 := fun x => (setWidth_setWidth_of_le x (by decide)).symm
      rw [get_true m1 u1.not_zero, cut, cut (m1.fields .res), first, regs]
    have again : exec host [.STR .w8 s1 .res] m1 = m1 := by
      show { m1 with fields := Function.update m1.fields .res (setLow (m1.fields .res) (low 8 (m1.get true s1))) } = m1
      rw [byte, setLow_low, Function.update_eq_self]
    rw [again]
    exact ⟨regs, nzcv, same, res⟩
  case isFalse => exact ⟨regs, nzcv, same, res⟩

/-! ### The stored operation -/

/-- The second operand is in `src`, and the operation is stored, or that there is none. -/
structure Heads (w : Width) (s3 s4 : Reg) (N : DeferedFlags) (src : Reg) (s : BitVec w.bits) (m m' : Cpu) : Prop where
  keeps : Keeps [s3, s4] m m'
  operand2 : low w.bits (m'.regs src) = s
  df : dyn.needs X_PEND = true → m'.emu.df = N
  none : dyn.needs X_PEND = false → dyn.needs X_ALL = true → (dyn.dfnone = true → m.emu.df = .d_none) → m'.emu.df = .d_none

theorem straight_pendDF (S : Reg) (N : DeferedFlags) : Straight (dyn.pendDF S N) := dyn.straight_pendOrNone rfl

theorem pendDF_spec (m : Cpu) {S : Reg} (N : DeferedFlags) (u : Usable S) :
    Keeps [S] m (exec host (dyn.pendDF S N) m) ∧
      (dyn.needs X_PEND = true → (exec host (dyn.pendDF S N) m).emu.df = N) ∧
      (dyn.needs X_PEND = false → dyn.needs X_ALL = true → (dyn.dfnone = true → m.emu.df = .d_none) →
        (exec host (dyn.pendDF S N) m).emu.df = .d_none) := by
  refine ⟨dyn.keeps_pendOrNone m List.mem_cons_self u (keeps_SET_DF m N List.mem_cons_self u), ?_, ?_⟩
  · intro needed
    unfold pendDF pendOrNone
    rw [if_pos needed]
    exact SET_DF_df m N u
  · intro absent all none
    unfold pendDF pendOrNone
    rw [if_neg (by simp [absent]), exec_IFX, if_pos all]
    unfold SET_DFNONE
    split
    case isTrue known => exact none known
    case isFalse => exact SET_DF_df m .d_none u

/-- The operand is in a register, which the store of the operation leaves alone. -/
theorem heads_reg (m : Cpu) {S s2 : Reg} (N : DeferedFlags) (u : Usable S) (mem : S ∈ [s3, s4]) (u2 : Usable s2) (ne : s2 ≠ S) :
    dyn.Heads w s3 s4 N s2 (low w.bits (m.regs s2)) m (exec host (dyn.pendDF S N) m) := by
  obtain ⟨keeps, df, none⟩ := dyn.pendDF_spec host m N u
  refine ⟨⟨keeps.flags, fun r ne out => keeps.regs r ne fun here => out (by simp_all)⟩, ?_, df, none⟩
  rw [keeps.regs s2 u2.not_flags (by simpa using ne)]

/-- The constant is moved behind the store of the operation. -/
theorem heads_const (m : Cpu) (N : DeferedFlags) (apart : Apart s1 s3 s4) (c : BitVec 64) :
    dyn.Heads w s3 s4 N s3 (low w.bits c) m (exec host (dyn.pendDF s4 N ++ [.MOV s3 c]) m) := by
  rw [exec_append host m (dyn.straight_pendDF s4 N)]
  obtain ⟨keeps, df, none⟩ := dyn.pendDF_spec host m N apart.usable4
  generalize exec host (dyn.pendDF s4 N) m = m1 at keeps df none ⊢
  show dyn.Heads w s3 s4 N s3 (low w.bits c) m (m1.set s3 c)
  have set : Keeps [s3, s4] m1 (m1.set s3 c) := keeps_set m1 List.mem_cons_self apart.usable3 c
  refine ⟨Keeps.trans ⟨keeps.flags, fun r ne out => keeps.regs r ne fun here => out (by simp_all)⟩ set, ?_, ?_, ?_⟩
  · rw [m1.set_regs s3 c apart.usable3.not_zero, setWidth_eq]
  · intro needed
    show dfOfCode (low 32 ((m1.set s3 c).fields .df)) = N
    rw [Cpu.set_fields]
    exact df needed
  · intro absent all known
    show dfOfCode (low 32 ((m1.set s3 c).fields .df)) = .d_none
    rw [Cpu.set_fields]
    exact none absent all known

/-- The constant is moved before. -/
theorem const_heads (m : Cpu) (N : DeferedFlags) (apart : Apart s1 s3 s4) (c : BitVec 64) :
    dyn.Heads w s3 s4 N s3 (low w.bits c) m (exec host ([.MOV s3 c] ++ dyn.pendDF s4 N) m) := by
  show dyn.Heads w s3 s4 N s3 (low w.bits c) m (exec host (dyn.pendDF s4 N) (m.set s3 c))
  have set : Keeps [s3, s4] m (m.set s3 c) := keeps_set m List.mem_cons_self apart.usable3 c
  have read : (m.set s3 c).regs s3 = c := by rw [m.set_regs s3 c apart.usable3.not_zero, setWidth_eq]
  have fields : (m.set s3 c).fields = m.fields := m.set_fields s3 c
  generalize m.set s3 c = m1 at set read fields ⊢
  obtain ⟨keeps, df, none⟩ := dyn.pendDF_spec host m1 N apart.usable4
  refine ⟨set.trans ⟨keeps.flags, fun r ne out => keeps.regs r ne fun here => out (by simp_all)⟩, ?_, df, ?_⟩
  · rw [keeps.regs s3 apart.usable3.not_flags (by simpa using apart.ne34), read]
  · intro absent all known
    refine none absent all fun is => ?_
    show dfOfCode (low 32 (m1.fields .df)) = .d_none
    rw [fields]
    exact known is

/-! ### The parts put together -/

/-- What the code of a logic emitter leaves. -/
structure Leaves (w : Width) (s1 s3 s4 : Reg) (N : DeferedFlags) (v : BitVec w.bits) (m m' : Cpu) : Prop where
  result : low w.bits (m'.regs s1) = v
  flags : m'.flags = dyn.flagsOfResult m.flags v
  regs : ∀ r, r ≠ xFlags → r ≠ s1 → r ≠ s3 → r ≠ s4 → m'.regs r = m.regs r
  df : dyn.needs X_PEND = true → m'.emu.df = N
  res : dyn.needs X_PEND = true → low w.bits m'.emu.res = v
  none : dyn.needs X_PEND = false → dyn.needs X_ALL = true → (dyn.dfnone = true → m.emu.df = .d_none) → m'.emu.df = .d_none

/-- The code of an emitter. -/
def parts (host : Host) (head : List Inst) (op : AluOp) (set sop : Bool) (src : Reg) (store test : List Inst) (sl sb : Bool)
    (k : Nat) (s1 s3 s4 : Reg) : List Inst :=
  head ++ ([.alu op set sop s1 s1 (.reg src)] ++ (store ++ dyn.resultFlags host test sl sb k s1 s3 s4))

theorem leaves_parts (m : Cpu) (apart : Apart s1 s3 s4) {op : AluOp} (bitwise : op.Bitwise) {set sop sl sb : Bool} {src : Reg}
    {head store test : List Inst} {k : Nat} {N : DeferedFlags} {s : BitVec w.bits} (real : src ≠ xZR)
    (le : w.bits ≤ opSize sop) (le' : w.bits ≤ opSize sl) (last : k + 1 = w.bits) (straight_head : Straight head)
    (closed_store : Closed host store) (straight_test : Straight test)
    (heads : dyn.Heads w s3 s4 N src s m (exec host head m)) (stores : ∀ m, dyn.Stores w s1 m (exec host store m))
    (tests : ∀ m2, Operates op set sop s1 src (exec host head m) m2 → ∀ m', m'.regs s1 = m2.regs s1 → m'.nzcv = m2.nzcv →
      dyn.needs X_ZF = true → Tests host w s1 s3 s4 test m') :
    dyn.Leaves w s1 s3 s4 N (op.bits (low w.bits (m.regs s1)) s) m
      (exec host (dyn.parts host head op set sop src store test sl sb k s1 s3 s4) m) := by
  unfold parts
  rw [exec_append host m straight_head]
  obtain ⟨keeps, operand2, df, none⟩ := heads
  generalize exec host head m = m1 at keeps operand2 df none tests ⊢
  rw [exec_append host m1 (show Straight [.alu op set sop s1 s1 (.reg src)] from rfl)]
  have operated := operates host bitwise set sop apart.usable1 src m1
  have value := operated.low bitwise apart.usable1 real le
  have tests := tests _ operated
  generalize exec host [.alu op set sop s1 s1 (.reg src)] m1 = m2 at operated value tests ⊢
  rw [closed_store]
  obtain ⟨regs, nzcv, same, res⟩ := stores m2
  generalize exec host store m2 = m3 at regs nzcv same res ⊢
  have marks := dyn.marks_resultFlags host m3 apart sb last le' straight_test fun m' here cond =>
    tests m' (here.trans (congrFun regs s1)) (cond.trans nzcv)
  have out : ∀ r, r ≠ s3 → r ≠ s4 → r ∉ [s3, s4] := fun r ne3 ne4 => by simp [ne3, ne4]
  have first : m1.regs s1 = m.regs s1 := keeps.regs s1 apart.usable1.not_flags (out s1 apart.ne13 apart.ne14)
  rw [first, operand2] at value
  have flags3 : m3.flags = m.flags := by
    unfold Cpu.flags
    rw [regs]
    exact operated.flags.trans keeps.flags
  have dfs : m3.emu.df = m1.emu.df := by
    show dfOfCode (low 32 (m3.fields .df)) = dfOfCode (low 32 (m1.fields .df))
    rw [same .df (by decide), operated.fields]
  have last_df : (exec host (dyn.resultFlags host test sl sb k s1 s3 s4) m3).emu.df = m1.emu.df := by
    rw [← dfs]
    show dfOfCode (low 32 (Cpu.fields _ .df)) = dfOfCode (low 32 (m3.fields .df))
    rw [marks.fields]
  refine ⟨?_, ?_, ?_, ?_, ?_, ?_⟩
  · rw [marks.value, regs, value]
  · rw [marks.flags, flags3, regs, value]
  · intro r ne ne1 ne3 ne4
    rw [marks.regs r ne ne1 ne3 ne4, regs, operated.regs r ne1, keeps.regs r ne (out r ne3 ne4)]
  · intro needed
    rw [last_df, df needed]
  · intro needed
    show low w.bits (Cpu.fields _ .res) = _
    rw [marks.fields]
    exact (res needed).trans value
  · intro absent all known
    rw [last_df, none absent all known]

end Emit

end Box64.Arm64
