import Box64.Dynarec.EmitFragments
import Box64.Emu.FlagLemmas

/-!
# The overflow flag of a shift

The fragments that compute `SF` and `OF`. `OF` depends on the count: where it is a constant, one of the fragments is
emitted, and where it is in a register, the fragment tests it.
-/

namespace Box64.Arm64

open BitVec CarryChain Emu Dynarec

namespace Emit

variable (host : Host) (dyn : Emit) (m : Cpu) {s1 s3 s4 : Reg} {off : Bool}

/-- After `SF`: the sign bit is in the scratch register if it was asked for. -/
structure Signed (s1 s4 : Reg) (m m' : Cpu) : Prop extends Finishing s4 m m' where
  sign : dyn.needs X_SF = true → m'.get dyn.rexw s4 = m.get dyn.rexw s1 >>> dyn.sign

theorem exec_setSF_sign (u4 : Usable s4) (needed : dyn.needs X_SF = true) :
    (exec host (dyn.setSF s1 s4) m).get dyn.rexw s4 = m.get dyn.rexw s1 >>> dyn.sign := by
  rw [setSF, exec_IFX, if_pos needed]
  have shifted := get_set_same m u4 dyn.rexw (m.get dyn.rexw s1 >>> dyn.sign)
  refine Eq.trans ?_ shifted
  exact get_set_of_ne _ _ u4.not_flags dyn.rexw

theorem signAndOverflow_of_overflow (apart : Apart s1 s3 s4) {code : List Inst}
    (overflow : dyn.needs X_OF = true → ∀ m', dyn.Signed s1 s4 m m' →
      Computes [s3, s4] { m'.flags with OF := off } m' (exec host code m')) :
    dyn.ComputesSignAndOverflow host s1 s3 s4 off m (dyn.setSF s1 s4 ++ dyn.IFX X_OF code) := by
  intro m' finishing
  let m'' := exec host (dyn.setSF s1 s4) m'
  have sign : Computes [s4] _ m' m'' := dyn.computes_setSF m' apart.usable4
  have operand : m'.get dyn.rexw s1 = m.get dyn.rexw s1 := by
    rw [Cpu.get, Cpu.get, finishing.regs s1 apart.usable1.not_flags apart.ne14]
  have signed : dyn.Signed s1 s4 m m'' := by
    refine ⟨⟨fun q ne out => ?_, ?_, ?_⟩, fun needed => ?_⟩
    · rw [sign.regs q ne (by simpa using out), finishing.regs q ne out]
    · rw [sign.flags, ← finishing.CF]
      split <;> rfl
    · rw [sign.flags, ← finishing.OF]
      split <;> rfl
    · rw [← operand]
      exact exec_setSF_sign host dyn m' apart.usable4 needed
  rw [dyn.closed_setSF]
  have whole := (sign.mono (by simp)).trans (dyn.computes_IFX m'' fun needed => overflow needed m'' signed)
  refine ⟨whole.flags.trans ?_, whole.regs, whole.fields⟩
  rw [sign.flags]
  cases dyn.needs X_SF <;> cases dyn.needs X_OF <;> rfl

/-! ### The fragments -/

theorem signed_operand (apart : Apart s1 s3 s4) {m m' : Cpu} (signed : dyn.Signed s1 s4 m m') (sf : Bool) :
    m'.get sf s1 = m.get sf s1 := by
  rw [Cpu.get, Cpu.get, signed.regs s1 apart.usable1.not_flags apart.ne14]

theorem overflow_kept (apart : Apart s1 s3 s4) :
    dyn.ComputesSignAndOverflow host s1 s3 s4 m.flags.OF m (dyn.setSF s1 s4) := by
  intro m' finishing
  have sign : Computes [s4] _ m' (exec host (dyn.setSF s1 s4) m') := dyn.computes_setSF m' apart.usable4
  refine ⟨sign.flags.trans ?_, (sign.mono (by simp)).regs, sign.fields⟩
  rw [← finishing.OF]
  cases dyn.needs X_SF <;> cases dyn.needs X_OF <;> rfl

theorem overflow_topTwoDiffer (apart : Apart s1 s3 s4) :
    dyn.ComputesSignAndOverflow host s1 s3 s4 (XOR2 (m.get dyn.rexw s1 >>> (dyn.sign - 1))) m
      (dyn.setSF s1 s4 ++ dyn.IFX X_OF (dyn.topTwoDiffer s1 s4)) := by
  refine signAndOverflow_of_overflow host dyn m apart ?_
  intro _ m' signed
  rw [← signed_operand dyn apart signed]
  exact (dyn.computes_topTwoDiffer m' apart.usable4).mono (by simp)

theorem computes_BFC (sf : Bool) {scratch : List Reg} :
    Computes scratch { m.flags with OF := false } m (exec host [BFC sf xFlags F_OF] m) := by
  have zero : (m.get sf xZR).getLsbD 0 = false := by
    rw [Cpu.get_xZR]
    exact getLsbD_zero
  refine ⟨?_, fun r ne _ => putFlag_regs m sf (m.get sf xZR) F_OF ne, putFlag_fields m sf _ F_OF⟩
  exact (putFlag_OF m sf (m.get sf xZR)).trans (by rw [zero])

theorem overflow_cleared (apart : Apart s1 s3 s4) :
    dyn.ComputesSignAndOverflow host s1 s3 s4 false m (dyn.setSF s1 s4 ++ dyn.IFX X_OF [BFC false xFlags F_OF]) := by
  refine signAndOverflow_of_overflow host dyn m apart ?_
  intro _ m' _
  exact computes_BFC host m' false

/-- A bit in a scratch register becomes `OF`, after the exclusive or with `CF`. -/
theorem computes_xorCarry {q : Reg} (u : Usable q) {b : Bool} (bit : (m.get dyn.rexw q).getLsbD 0 = b) :
    Computes [q] { m.flags with OF := b ^^ m.flags.CF } m
      (exec host [EOR_REG dyn.rexw q q xFlags, BFI false xFlags q F_OF] m) := by
  refine computes_putFlag m false (m.get dyn.rexw q ^^^ m.get dyn.rexw xFlags) F_OF u ?_
  intro y eq
  have carry : (m.get dyn.rexw xFlags).getLsbD 0 = m.flags.CF := by
    rw [m.get_of_ne _ _ (by decide), low, getLsbD_setWidth]
    simp [opSize_pos]
    rfl
  rw [putFlag_OF, set_flags _ _ u, eq, getLsbD_xor, bit, carry]

/-- The code of a left shift by 1 after `SF`, or after the test of the count: the sign bit is made again if it was not
asked for. -/
def signBit (s1 s4 : Reg) : List Inst := if dyn.needs X_SF then [] else [LSR dyn.rexw s4 s1 dyn.sign]

theorem exec_signBit (apart : Apart s1 s3 s4) {m m' : Cpu} (signed : dyn.Signed s1 s4 m m') :
    Computes [s4] m'.flags m' (exec host (dyn.signBit s1 s4) m') ∧
      ((exec host (dyn.signBit s1 s4) m').get dyn.rexw s4).getLsbD 0 = (m.get dyn.rexw s1).msb ∧
      (exec host (dyn.signBit s1 s4) m').nzcv = m'.nzcv := by
  rw [signBit]
  split
  case isTrue needed => exact ⟨Computes.refl _ m', by rw [exec_nil, signed.sign needed, bit_sign], rfl⟩
  case isFalse =>
    let v := m'.get dyn.rexw s1 >>> dyn.sign
    have code : exec host [LSR dyn.rexw s4 s1 dyn.sign] m' = m'.set s4 v := rfl
    rw [code]
    refine ⟨computes_set m' apart.usable4 List.mem_cons_self v, ?_, m'.set_nzcv s4 v⟩
    rw [get_set_same m' apart.usable4 dyn.rexw, bit_sign, signed_operand dyn apart signed]

theorem straight_signBit : Straight (dyn.signBit s1 s4) := by
  rw [signBit]
  split <;> rfl

theorem overflow_msb_xor_carry (apart : Apart s1 s3 s4) :
    dyn.ComputesSignAndOverflow host s1 s3 s4 ((m.get dyn.rexw s1).msb ^^ m.flags.CF) m
      (dyn.setSF s1 s4 ++ dyn.IFX X_OF (dyn.signBit s1 s4 ++
        [EOR_REG dyn.rexw s4 s4 xFlags, BFI false xFlags s4 F_OF])) := by
  refine signAndOverflow_of_overflow host dyn m apart ?_
  intro _ m' signed
  obtain ⟨made, bit, -⟩ := exec_signBit host dyn apart signed
  have put := computes_xorCarry host dyn _ apart.usable4 bit
  rw [made.flags, signed.CF] at put
  rw [exec_append host m' dyn.straight_signBit]
  exact (made.trans put).mono (by simp)

theorem overflow_extracted (apart : Apart s1 s3 s4) :
    dyn.ComputesSignAndOverflow host s1 s3 s4 ((m.get dyn.rexw s1).msb ^^ m.flags.CF) m
      (dyn.setSF s1 s4 ++ dyn.IFX X_OF [.UBFX dyn.rexw s3 s1 dyn.sign 1, EOR_REG dyn.rexw s3 s3 xFlags,
        BFI false xFlags s3 F_OF]) := by
  refine signAndOverflow_of_overflow host dyn m apart ?_
  intro _ m' signed
  let v := (m'.get dyn.rexw s1 >>> dyn.sign) &&& lowMask _ 1
  have made : Computes [s3] m'.flags m' (m'.set s3 v) := computes_set m' apart.usable3 List.mem_cons_self v
  have wide : 1 < opSize dyn.rexw := by cases dyn.rexw <;> decide
  have bit : ((m'.set s3 v).get dyn.rexw s3).getLsbD 0 = (m.get dyn.rexw s1).msb := by
    rw [get_set_same m' apart.usable3 dyn.rexw, getLsbD_and, getLsbD_lowMask wide, bit_sign,
      signed_operand dyn apart signed]
    simp
  have put := computes_xorCarry host dyn _ apart.usable3 bit
  rw [made.flags, signed.CF] at put
  exact (made.trans put).mono (by simp)

/-! ### Tests of a count in a register -/

theorem Z_of_SUB {n : Nat} (c : Bool) (x y : BitVec n) : (AluOp.SUB.eval c x y).2.Z = (x == y) := by
  show (addc x (~~~y) true == 0) = (x == y)
  rw [addc_not, Bool.eq_iff_iff, beq_iff_eq, beq_iff_eq]
  exact sub_eq_zero

/-- The condition flags after `CMPS` with a constant. -/
def compared (m : Cpu) (sf : Bool) (q : Reg) (imm : BitVec 64) : Cpu :=
  { m with nzcv := (AluOp.SUB.eval m.nzcv.C (m.get sf q) (low (opSize sf) imm)).2 }

theorem compared_Z (sf : Bool) (q : Reg) (imm : BitVec 64) :
    (compared m sf q imm).nzcv.Z = (m.get sf q == low (opSize sf) imm) :=
  Z_of_SUB m.nzcv.C _ _

theorem exec_CMPS (sf : Bool) (q : Reg) (imm : BitVec 64) (rest : List Inst) :
    exec host (CMPS_U12 sf q imm :: rest) m = exec host rest (compared m sf q imm) := rfl

theorem low_one (sf : Bool) : low (opSize sf) 1 = 1 := by
  cases sf <;> rfl

theorem computes_xorCarry_if {q : Reg} (u : Usable q) {b : Bool} (bit : (m.get dyn.rexw q).getLsbD 0 = b) :
    Computes [q] { m.flags with OF := if m.nzcv.Z then b ^^ m.flags.CF else false } m
      (exec host [EOR_REG dyn.rexw q q xFlags, .CSELw q q xZR .cEQ, BFI false xFlags q F_OF] m) := by
  let v := m.get dyn.rexw q ^^^ m.get dyn.rexw xFlags
  let m1 := m.set q v
  refine (computes_set m u List.mem_cons_self v).trans (computes_putFlag m1 false (if m1.nzcv.Z then m1.get false q else m1.get false xZR) F_OF u ?_)
  intro y eq
  have carry : (m.get dyn.rexw xFlags).getLsbD 0 = m.flags.CF := by
    rw [m.get_of_ne _ _ (by decide), low, getLsbD_setWidth]
    simp [opSize_pos]
    rfl
  have made : (m1.get false q).getLsbD 0 = (b ^^ m.flags.CF) := by
    rw [getLsbD_get_set m v u false (opSize_pos false), getLsbD_xor, bit, carry]
  have cleared : (m1.get false xZR).getLsbD 0 = false := by
    rw [Cpu.get_xZR]
    exact getLsbD_zero
  rw [putFlag_OF, set_flags _ _ u, set_flags _ _ u, eq, m.set_nzcv q v]
  cases m.nzcv.Z with
  | true => rw [if_pos rfl, if_pos rfl, made]
  | false => rw [if_neg Bool.false_ne_true, if_neg Bool.false_ne_true, cleared]

theorem overflow_msb_xor_carry_of_one (apart : Apart s1 s3 s4) {s2 : Reg} (usable2 : Usable s2) (ne24 : s2 ≠ s4) :
    dyn.ComputesSignAndOverflow host s1 s3 s4
      (if m.get dyn.rexw s2 == 1 then (m.get dyn.rexw s1).msb ^^ m.flags.CF else false) m
      (dyn.setSF s1 s4 ++ dyn.IFX X_OF ([CMPS_U12 dyn.rexw s2 1] ++ dyn.signBit s1 s4 ++
        [EOR_REG dyn.rexw s4 s4 xFlags, .CSELw s4 s4 xZR .cEQ, BFI false xFlags s4 F_OF])) := by
  refine signAndOverflow_of_overflow host dyn m apart ?_
  intro _ m' signed
  let m1 := compared m' dyn.rexw s2 1
  have signed1 : dyn.Signed s1 s4 m m1 := ⟨⟨signed.regs, signed.CF, signed.OF⟩, signed.sign⟩
  obtain ⟨made, bit, nzcv⟩ := exec_signBit host dyn apart signed1
  have put := computes_xorCarry_if host dyn _ apart.usable4 bit
  have count : m'.get dyn.rexw s2 = m.get dyn.rexw s2 := by
    rw [Cpu.get, Cpu.get, signed.regs s2 usable2.not_flags ne24]
  rw [made.flags, nzcv, signed1.CF, compared_Z, low_one, count] at put
  rw [List.append_assoc, List.singleton_append, exec_CMPS, exec_append host m1 dyn.straight_signBit]
  have whole : Computes [s3, s4] _ _ _ := (made.trans put).mono (by simp)
  exact ⟨whole.flags, whole.regs, whole.fields⟩

theorem overflow_topTwoDiffer_of_one (apart : Apart s1 s3 s4) {s2 : Reg} (usable2 : Usable s2) (ne24 : s2 ≠ s4) :
    dyn.ComputesSignAndOverflow host s1 s3 s4
      (if m.get dyn.rexw s2 == 1 then XOR2 (m.get dyn.rexw s1 >>> (dyn.sign - 1)) else m.flags.OF) m
      (dyn.setSF s1 s4 ++ dyn.IFX X_OF ([CMPS_U12 dyn.rexw s2 1, .Bcond .cNE (4 + 3 * 4)] ++ dyn.topTwoDiffer s1 s4)) := by
  refine signAndOverflow_of_overflow host dyn m apart ?_
  intro _ m' signed
  let m1 := compared m' dyn.rexw s2 1
  have count : m'.get dyn.rexw s2 = m.get dyn.rexw s2 := by
    rw [Cpu.get, Cpu.get, signed.regs s2 usable2.not_flags ne24]
  have zero : m1.nzcv.Z = (m.get dyn.rexw s2 == 1) := by rw [compared_Z, low_one, count]
  -- the branch goes over the three instructions of the fragment
  have code : exec host ([CMPS_U12 dyn.rexw s2 1, .Bcond .cNE (4 + 3 * 4)] ++ dyn.topTwoDiffer s1 s4) m' =
      run host (if !m1.nzcv.Z then 3 else 0) (dyn.topTwoDiffer s1 s4) m1 := rfl
  rw [code, zero]
  cases m.get dyn.rexw s2 == 1 with
  | true =>
    have put : Computes [s4] _ m1 (exec host (dyn.topTwoDiffer s1 s4) m1) := dyn.computes_topTwoDiffer m1 apart.usable4
    have operand : m1.get dyn.rexw s1 = m.get dyn.rexw s1 := signed_operand dyn apart signed dyn.rexw
    rw [operand] at put
    exact ⟨put.flags, (put.mono (by simp)).regs, put.fields⟩
  | false =>
    refine ⟨?_, fun _ _ _ => rfl, rfl⟩
    rw [← signed.OF]
    rfl

end Emit

end Box64.Arm64
