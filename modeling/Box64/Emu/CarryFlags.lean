import Box64.Emu.FlagLemmas

/-!
# Pending `ADC` and `SBB`

The dynarec leaves these operations pending, which the primitives never do: what `UpdateFlags` makes of them beside
the flags that `adc8` to `adc64` and `sbb8` to `sbb64` compute at once.
-/

namespace Box64.Emu

open BitVec CarryChain

/-- The constants `d_adc8` to `d_adc64`, `d_adc32b`, and `d_sbb8` to `d_sbb64`. -/
inductive CarryOp where
  | adc (w : Width)
  | adc32b
  | sbb (w : Width)

namespace CarryOp

@[reducible] def width : CarryOp → Width
  | adc w | sbb w => w
  | adc32b => .w32

def df : CarryOp → DeferedFlags
  | adc w => .d_adc w
  | adc32b => .d_adc32b
  | sbb w => .d_sbb w

/-- The primitive, and the flags it leaves. -/
def direct : (op : CarryOp) → X64Emu → BitVec op.width.bits → BitVec op.width.bits → BitVec op.width.bits × X64Emu
  | adc w, emu, d, s => Emu.adc w emu d s
  | adc32b, emu, d, s => Emu.adc .w32 emu d s
  | sbb w, emu, d, s => Emu.sbb w emu d s

/-- The width of the `res` field that is written: the sums of the narrow forms keep their carry. -/
@[reducible] def resWidth : CarryOp → Width
  | adc w => w.sum
  | op => op.width

/-- What is written to `res`. -/
def stored : (op : CarryOp) → BitVec op.width.bits → BitVec op.width.bits → Bool → BitVec op.resWidth.bits
  | adc w, d, s, c => d.setWidth w.sum.bits + s.setWidth w.sum.bits + (ofBool c).setWidth w.sum.bits
  | adc32b, d, s, c => addc d s c
  | sbb _, d, s, c => subb d s c

/-- The operation is pending; nothing is known of the fields beyond its width. -/
structure Pending (op : CarryOp) (d s : BitVec op.width.bits) (c : Bool) (emu : X64Emu) : Prop where
  df : emu.df = op.df
  op1 : low op.width.bits emu.op1 = d
  op2 : low op.width.bits emu.op2 = s
  res : low op.resWidth.bits emu.res = op.stored d s c

/-- `d_adc64` loses the carry: it is looked for 16 bits above the place where a sum of 64 bits can have it. -/
def NoCarryLost : (op : CarryOp) → BitVec op.width.bits → BitVec op.width.bits → Bool → Prop
  | adc .w64, d, s, c => d.toNat + s.toNat + c.toNat < 2 ^ 64
  | _, _, _, _ => True

/-! ### The two ways to the flags -/

/-- All six flags of a sum or difference are written, so nothing is left of what they were. -/
theorem setChain_setZSP_congr {n : Nat} {f f' : X64Flags} {res chain : BitVec n} (cf : f.CF = f'.CF) :
    setChain (setZSP f res) chain = setChain (setZSP f' res) chain := by
  simp only [setChain, setZSP, cf]

theorem setChain_setZSP_eq_iff {n : Nat} (f f' : X64Flags) (res chain : BitVec n) :
    setChain (setZSP f res) chain = setChain (setZSP f' res) chain ↔ f.CF = f'.CF :=
  ⟨fun same => (congrArg X64Flags.CF same :), setChain_setZSP_congr⟩

/-- The flags of `adc8` to `adc64`. -/
theorem adc_eflags (w : Width) (emu : X64Emu) (d s : BitVec w.bits) :
    (Emu.adc w emu d s).2.eflags =
      setChain (setZSP { (CHECK_FLAGS emu).eflags with CF := adcCarry w d s (CHECK_FLAGS emu).eflags.CF }
        (addc d s (CHECK_FLAGS emu).eflags.CF)) (carryChain d s (addc d s (CHECK_FLAGS emu).eflags.CF)) := by
  rw [← adc_sum, ← carryChain_comm, Emu.adc]

/-- A carry in shows in the result. -/
theorem addc_ne_sum {n : Nat} (pos : 0 < n) (d s : BitVec n) (c : Bool) : (addc d s c != d + s) = c := by
  cases c with
  | false =>
    rw [addc_false]
    exact bne_self_eq_false _
  | true =>
    rw [addc, setWidth_ofBool_true, bne_iff_ne]
    intro same
    have zero : 1#n = 0#n := BitVec.add_right_eq_self.mp same
    have one := congrArg BitVec.toNat zero
    rw [BitVec.toNat_ofNat, BitVec.toNat_ofNat, Nat.zero_mod, Nat.mod_eq_of_lt (Nat.one_lt_two_pow (by omega))] at one
    omega

theorem stored_low (w : Width) (d s : BitVec w.bits) (c : Bool) :
    ((adc w).stored d s c).setWidth w.bits = addc d s c := by
  have le := w.le_sum
  change (d.setWidth w.sum.bits + s.setWidth w.sum.bits + (ofBool c).setWidth w.sum.bits).setWidth w.bits = _
  rw [BitVec.setWidth_add _ _ le, setWidth_sum le, setWidth_setWidth_of_le _ le]
  rfl

/-- What `UpdateFlags` takes for the carry of a pending `ADC`. -/
theorem adc_carry {w : Width} {d s : BitVec w.bits} {c : Bool} {emu : X64Emu} (pending : (adc w).Pending d s c emu) :
    (adcFlags emu emu.eflags w).CF = (adcCarry w d s c && decide (w ≠ .w64)) := by
  obtain ⟨-, op1, op2, res⟩ := pending
  have sum : ∀ {n : Nat} (x y z : BitVec n), x + y + z = z + x + y := fun x y z => by
    rw [BitVec.add_comm (x + y), BitVec.add_assoc]
  have narrow : ∀ m : Nat, w.bits < m → (low m emu.res = d.setWidth m + s.setWidth m + (ofBool c).setWidth m) →
      emu.res.getLsbD w.bits = decide (2 ^ w.bits ≤ d.toNat + s.toNat + c.toNat) := by
    intro m lt eq
    have bit : (low m emu.res).getLsbD w.bits = emu.res.getLsbD w.bits := by
      rw [low, getLsbD_setWidth, decide_eq_true lt, Bool.true_and]
    rw [← bit, eq, sum, sumCarry lt]
  rw [adcCarry_eq]
  cases w with
  | w8 => exact (narrow 16 (by decide) res).trans (Bool.and_true _).symm
  | w16 => exact (narrow 32 (by decide) res).trans (Bool.and_true _).symm
  | w32 => exact (narrow 64 (by decide) res).trans (Bool.and_true _).symm
  | w64 =>
    -- the three terms of the high sum are below 2^32
    have bit : ∀ x : BitVec 64, x.toNat < 2 ^ 48 → x.getLsbD 48 = false := fun x lt => Nat.testBit_lt_two_pow lt
    have high : ∀ lo : BitVec 64, (hiSum 32 lo emu.op1 emu.op2).getLsbD 48 = false := by
      intro lo
      apply bit
      rw [hiSum, BitVec.toNat_add, BitVec.toNat_add]
      simp only [toNat_ushiftRight, Nat.shiftRight_eq_div_pow]
      omega
    exact (high _).trans (Bool.and_false _).symm

theorem adc_flags_iff {w : Width} {d s : BitVec w.bits} {pending emu : X64Emu}
    (left : (adc w).Pending d s (CHECK_FLAGS emu).eflags.CF pending) :
    adcFlags pending pending.eflags w = (Emu.adc w emu d s).2.eflags ↔
      (w = .w64 → adcCarry w d s (CHECK_FLAGS emu).eflags.CF = false) := by
  have carry := adc_carry left
  have value : low w.bits pending.res = addc d s (CHECK_FLAGS emu).eflags.CF := by
    rw [low_of_low w.le_sum rfl]
    exact (congrArg (setWidth w.bits) left.res).trans (stored_low w d s _)
  have chains : (adcFlags pending pending.eflags w) = setChain (setZSP { pending.eflags with
      CF := (adcFlags pending pending.eflags w).CF } (addc d s (CHECK_FLAGS emu).eflags.CF))
      (carryChain d s (addc d s (CHECK_FLAGS emu).eflags.CF)) := by
    rw [← value, ← left.op1, ← left.op2]
    rfl
  rw [chains, adc_eflags, setChain_setZSP_eq_iff]
  dsimp only
  rw [carry]
  cases adcCarry w d s (CHECK_FLAGS emu).eflags.CF <;> simp

theorem adc32b_flags {d s : BitVec 32} {pending emu : X64Emu}
    (left : adc32b.Pending d s (CHECK_FLAGS emu).eflags.CF pending) :
    adc32bFlags pending pending.eflags = (Emu.adc .w32 emu d s).2.eflags := by
  obtain ⟨-, op1, op2, res⟩ := left
  have value : low 32 pending.res = addc d s (CHECK_FLAGS emu).eflags.CF := res
  have first : low 32 pending.op1 = d := op1
  have second : low 32 pending.op2 = s := op2
  -- the carry in is found again in the result
  have flags : adc32bFlags pending pending.eflags =
      setChain (setZSP { pending.eflags with
          CF := (hiSum 16 (loSum 16 (CHECK_FLAGS emu).eflags.CF d s) d s).getLsbD 16 }
        (addc d s (CHECK_FLAGS emu).eflags.CF)) (carryChain d s (addc d s (CHECK_FLAGS emu).eflags.CF)) := by
    unfold adc32bFlags
    rw [value, first, second]
    dsimp only
    rw [addc_ne_sum (by decide)]
  exact flags.trans ((setChain_setZSP_congr rfl).trans (adc_eflags .w32 emu d s).symm)

theorem sbb_flags {w : Width} {d s : BitVec w.bits} {pending emu : X64Emu}
    (left : (sbb w).Pending d s (CHECK_FLAGS emu).eflags.CF pending) :
    subFlags pending pending.eflags w = (Emu.sbb w emu d s).2.eflags := by
  obtain ⟨-, op1, op2, res⟩ := left
  have value : low w.bits pending.res = subb d s (CHECK_FLAGS emu).eflags.CF := res
  have first : low w.bits pending.op1 = d := op1
  have second : low w.bits pending.op2 = s := op2
  rw [subFlags, Emu.sbb]
  dsimp only
  rw [value, first, second, sbb_difference]
  exact setChain_setZSP_congr rfl

theorem stored_value (op : CarryOp) {d s : BitVec op.width.bits} {pending emu : X64Emu}
    (left : op.Pending d s (CHECK_FLAGS emu).eflags.CF pending) :
    low op.width.bits pending.res = (op.direct emu d s).1 := by
  obtain ⟨-, -, -, res⟩ := left
  cases op with
  | adc w =>
    refine (low_of_low w.le_sum rfl).trans ?_
    exact (congrArg (setWidth w.bits) res).trans ((stored_low w d s _).trans (adc_sum d s _).symm)
  | adc32b => exact res.trans (adc_sum d s _).symm
  | sbb w => exact res.trans (sbb_difference d s _).symm

/-- `UpdateFlags` finds what the primitive computes at once exactly when no carry is lost. -/
theorem deferred_iff_direct (op : CarryOp) (d s : BitVec op.width.bits) (emu pending : X64Emu)
    (left : op.Pending d s (CHECK_FLAGS emu).eflags.CF pending) :
    (low op.width.bits pending.res = (op.direct emu d s).1 ∧
        (updateFlags pending).eflags = (op.direct emu d s).2.eflags) ↔
      op.NoCarryLost d s (CHECK_FLAGS emu).eflags.CF := by
  rw [and_iff_right (stored_value op left), updateFlags, deferedFlags, left.df]
  cases op with
  | adc w =>
    refine (adc_flags_iff left).trans ?_
    have carries := adcCarry_eq w d s (CHECK_FLAGS emu).eflags.CF
    cases w with
    | w64 =>
      rw [forall_prop_of_true rfl, carries, decide_eq_false_iff_not, Nat.not_le]
      exact Iff.rfl
    | _ => exact iff_of_true (fun wide => nomatch wide) trivial
  | adc32b => exact iff_of_true (adc32b_flags left) trivial
  | sbb w => exact iff_of_true (sbb_flags left) trivial

end CarryOp

/-- `d_adc64` pending over these operands, with no carry in. -/
def pendingAdc64 (d s : BitVec 64) : X64Emu :=
  { regs := fun _ => 0, eflags := ⟨false, false, false, false, false, false⟩, df := .d_adc .w64, op1 := d, op2 := s,
    res := d + s }

theorem pendingAdc64_left (d s : BitVec 64) :
    (CarryOp.adc .w64).Pending d s (CHECK_FLAGS { pendingAdc64 d s with df := .d_none }).eflags.CF (pendingAdc64 d s) := by
  refine ⟨rfl, setWidth_eq d, setWidth_eq s, ?_⟩
  have wide : ∀ x : BitVec 64, setWidth 64 x = x := setWidth_eq
  change low 64 (d + s) = setWidth 64 d + setWidth 64 s + 0#64
  rw [low, wide, wide, wide, BitVec.add_zero]

theorem deferred_iff_direct_pendingAdc64 :
    (low 64 (pendingAdc64 3 4).res = ((CarryOp.adc .w64).direct { pendingAdc64 3 4 with df := .d_none } 3 4).1 ∧
        (updateFlags (pendingAdc64 3 4)).eflags =
          ((CarryOp.adc .w64).direct { pendingAdc64 3 4 with df := .d_none } 3 4).2.eflags) ↔
      (CarryOp.adc .w64).NoCarryLost 3 4 (CHECK_FLAGS { pendingAdc64 3 4 with df := .d_none }).eflags.CF :=
  CarryOp.deferred_iff_direct _ _ _ _ _ (pendingAdc64_left 3 4)

/-- `2^63 + 2^63` carries out, and `d_adc64` says it does not. -/
theorem deferred_ne_direct :
    (CarryOp.adc .w64).Pending 0x8000000000000000 0x8000000000000000
      (CHECK_FLAGS { pendingAdc64 0x8000000000000000 0x8000000000000000 with df := .d_none }).eflags.CF (pendingAdc64 0x8000000000000000 0x8000000000000000) ∧
    (updateFlags (pendingAdc64 0x8000000000000000 0x8000000000000000)).eflags.CF = false ∧
    ((CarryOp.adc .w64).direct { pendingAdc64 0x8000000000000000 0x8000000000000000 with df := .d_none } 0x8000000000000000 0x8000000000000000).2.eflags.CF = true :=
  ⟨pendingAdc64_left _ _, by decide, by decide⟩

end Box64.Emu
