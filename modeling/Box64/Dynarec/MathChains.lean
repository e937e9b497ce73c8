import Box64.Dynarec.MathRuns

/-!
# The chain of an arithmetic emitter

The carries or borrows are prepared before the operation and joined with the result behind it; the other flags come from the
condition flags and from the result.
-/

namespace Box64.Arm64

open BitVec Emu Dynarec CarryChain

namespace Flag

def butCF : Flag → Bool
  | CF => false
  | _ => true

def all : Flag → Bool := fun _ => true

end Flag

/-- No scratch register is read. -/
def Operand2.Avoids (s3 s4 : Reg) : Operand2 → Prop
  | reg rm => rm ≠ xFlags ∧ rm ≠ s3 ∧ rm ≠ s4
  | imm _ => True
  | shifted _ _ _ => False

theorem Operand2.Avoids.whole {s3 s4 : Reg} {src : Operand2} (avoids : src.Avoids s3 s4) : src.Whole := by
  cases src with
  | reg | imm => trivial
  | shifted => exact avoids

namespace Emit

variable {host : Host} {dyn : Emit} {scratch : List Reg} {T : X64Flags} {K Kb : Before} {d s1 s2 s3 s4 : Reg} {w : Width}

/-! ### The operation between two halves of a chain -/

/-- The operands are where the code reads them. -/
def Operands (w : Width) (rn : Reg) (src : Operand2) (x y : BitVec w.bits) : Before := fun regs _ =>
  readReg w.bits regs rn = x ∧ src.read w.bits regs = y

theorem stable_operands {rn : Reg} {src : Operand2} {x y : BitVec w.bits} (real : rn ≠ xFlags) (ne3 : rn ≠ s3) (ne4 : rn ≠ s4)
    (avoids : src.Avoids s3 s4) : Stable [s3, s4] (Operands w rn src x y) := by
  rintro regs regs' z same ⟨left, right⟩
  have read : ∀ r, r ≠ xFlags → r ≠ s3 → r ≠ s4 → readReg w.bits regs' r = readReg w.bits regs r := by
    intro r flags out3 out4
    unfold readReg
    rw [same r flags (by simp [out3, out4])]
  refine ⟨(read rn real ne3 ne4).trans left, ?_⟩
  cases src with
  | reg rm => exact (read rm avoids.1 avoids.2.1 avoids.2.2).trans right
  | imm v => exact right
  | shifted => exact avoids.elim

/-- The two halves of a chain. -/
def Halves (s3 s4 : Reg) (p q : BitVec w.bits) (regs : Reg → BitVec 64) : Prop :=
  low w.bits (regs s3) = p ∧ low w.bits (regs s4) = q

/-- The result, and the condition flags where they are set. -/
def Left (d : Reg) (r : BitVec 64) (set : Bool) (f : Nzcv) : Before := fun regs z => regs d = r ∧ (set = true → z = f)

/-- With what has been prepared for the chain, where the chain is asked for. -/
def Done (dyn : Emit) (H : (Reg → BitVec 64) → Prop) (d : Reg) (r : BitVec 64) (set : Bool) (f : Nzcv) : Before :=
  fun regs z => Left d r set f regs z ∧ (dyn.needs X_AF = true → H regs)

theorem Stable.mono {changed more : List Reg} (stable : Stable more K) (sub : changed ⊆ more) : Stable changed K :=
  fun regs regs' z same => stable regs regs' z fun q ne out => same q ne fun mem => out (sub mem)

/-- A condition with what is known of a register that is not changed. -/
theorem Stable.and_low {changed : List Reg} {r : Reg} {x : BitVec w.bits} (stable : Stable changed K) (usable : Usable r)
    (out : r ∉ changed) : Stable changed fun regs z => K regs z ∧ low w.bits (regs r) = x := by
  rintro regs regs' z same ⟨holds, is⟩
  refine ⟨stable regs regs' z same holds, ?_⟩
  rw [same r usable.not_flags out]
  exact is

theorem Left.stable {r : BitVec 64} {set : Bool} {f : Nzcv} {changed : List Reg} (usable : Usable d) (out : d ∉ changed) :
    Stable changed (Left d r set f) := by
  rintro regs regs' z same ⟨result, cond⟩
  exact ⟨(same d usable.not_flags out).trans result, cond⟩

theorem low_widen (v : BitVec w.bits) : low w.bits (v.setWidth 64) = v := by
  rw [low, setWidth_setWidth_of_le _ w.bits_le, setWidth_eq]

theorem yields_nil : Yields host dyn scratch T K Flag.none [] K := ⟨rfl, fun m holds => ⟨Computes.refl scratch m, holds⟩⟩

/-! ### Preparing the chain -/

section Prepare
variable {K0 : Before} {sf : Bool} {p q p' q' : BitVec w.bits} {rn rn' : Reg} {src src' : Operand2} {op op' : AluOp}
  (apart : Apart d s3 s4) (in3 : s3 ∈ scratch) (in4 : s4 ∈ scratch) (le : w.bits ≤ opSize sf)
include apart in3 le

/-- The first operand inverted. -/
theorem yields_not {x : BitVec w.bits} (stable : Stable [s3, s4] K) (reads : ∀ regs z, K regs z → readReg w.bits regs s1 = x) :
    Yields host dyn scratch T K Flag.none [MVN_REG sf s3 s1] (fun regs z => K regs z ∧ low w.bits (regs s3) = ~~~x) := by
  have inverted : Yields host dyn scratch T K Flag.none [MVN_REG sf s3 s1]
      (fun regs z => K regs z ∧ low w.bits (regs s3) = AluOp.ORN.bits 0 x) :=
    yields_logic .orn apart.usable3 in3 le (show (Operand2.reg s1).Whole from trivial) (fun _ _ holds => holds) (stable.mono (by simp))
      (fun _ _ _ => if_pos rfl) reads
  refine inverted.weaken fun _ _ holds => ⟨holds.1, holds.2.trans ?_⟩
  exact BitVec.zero_or

include in4

theorem yields_halves (logical : op.Logical) (logical' : op'.Logical) (stable : Stable [s3, s4] K) (whole : src.Whole) (whole' : src'.Whole)
    (start : ∀ regs z, K0 regs z → K regs z)
    (left : ∀ regs z, K0 regs z → readReg w.bits regs rn = p ∧ src.read w.bits regs = q)
    (right : ∀ regs z, K regs z → readReg w.bits regs rn' = p' ∧ src'.read w.bits regs = q') :
    Yields host dyn scratch T K0 Flag.none [.alu op false sf s3 rn src, .alu op' false sf s4 rn' src']
      (fun regs z => K regs z ∧ Halves s3 s4 (op.bits p q) (op'.bits p' q') regs) := by
  have first : Yields host dyn scratch T K0 Flag.none [.alu op false sf s3 rn src]
      (fun regs z => K regs z ∧ low w.bits (regs s3) = op.bits p q) :=
    yields_logic logical apart.usable3 in3 le whole start (stable.mono (by simp)) (fun regs z holds => (left regs z holds).1)
      (fun regs z holds => (left regs z holds).2)
  have kept : Stable [s4] (fun regs z => K regs z ∧ low w.bits (regs s3) = op.bits p q) :=
    (stable.mono (by simp)).and_low apart.usable3 (by simpa using apart.ne34)
  have second : Yields host dyn scratch T (fun regs z => K regs z ∧ low w.bits (regs s3) = op.bits p q) Flag.none
      [.alu op' false sf s4 rn' src']
      (fun regs z => (K regs z ∧ low w.bits (regs s3) = op.bits p q) ∧ low w.bits (regs s4) = op'.bits p' q') :=
    yields_logic logical' apart.usable4 in4 le whole' (fun _ _ holds => holds) kept (fun regs z holds => (right regs z holds.1).1)
      (fun regs z holds => (right regs z holds.1).2)
  exact (first.append second).weaken fun _ _ holds => ⟨holds.1.1, holds.1.2, holds.2⟩

end Prepare

/-! The borrows of each emitter. -/

section Borrows
variable {x y : BitVec w.bits} {sf : Bool} (apart : Apart d s3 s4) (in3 : s3 ∈ scratch) (in4 : s4 ∈ scratch) (le : w.bits ≤ opSize sf)
  (usable : Usable s1) (ne13 : s1 ≠ s3) (ne14 : s1 ≠ s4)
include apart in3 in4 le usable ne13 ne14

theorem yields_borrows_sub (avoids : (Operand2.reg s2).Avoids s3 s4) :
    Yields host dyn scratch T (Operands w s1 (.reg s2) x y) Flag.none [MVN_REG sf s3 s1, ORR_REG sf s3 s3 s2, BIC_REG sf s4 s2 s1]
      fun regs z => Operands w s1 (.reg s2) x y regs z ∧ Halves s3 s4 (~~~x ||| y) (~~~x &&& y) regs := by
  have kept : Stable [s3, s4] (Operands w s1 (.reg s2) x y) := stable_operands usable.not_flags ne13 ne14 avoids
  have first : Yields host dyn scratch T (Operands w s1 (.reg s2) x y) Flag.none [MVN_REG sf s3 s1] _ :=
    yields_not apart in3 le kept fun _ _ holds => holds.1
  have second : Yields host dyn scratch T (fun regs z => Operands w s1 (.reg s2) x y regs z ∧ low w.bits (regs s3) = ~~~x) Flag.none
      [ORR_REG sf s3 s3 s2, BIC_REG sf s4 s2 s1] fun regs z =>
      Operands w s1 (.reg s2) x y regs z ∧ Halves s3 s4 (AluOp.ORR.bits (~~~x) y) (AluOp.BIC.bits y x) regs :=
    yields_halves apart in3 in4 le .orr .bic kept (show (Operand2.reg s2).Whole from trivial) (show (Operand2.reg s1).Whole from trivial)
      (fun _ _ holds => holds.1) (fun _ _ holds => ⟨(if_neg apart.usable3.not_zero).trans holds.2, holds.1.2⟩)
      fun _ _ holds => ⟨holds.2, holds.1⟩
  exact (first.append second).weaken fun _ _ holds => ⟨holds.1, holds.2.1, holds.2.2.trans (BitVec.and_comm y (~~~x))⟩

theorem yields_borrows_cmp (avoids : (Operand2.reg s2).Avoids s3 s4) :
    Yields host dyn scratch T (Operands w s1 (.reg s2) x y) Flag.none [ORN_REG sf s3 s2 s1, BIC_REG sf s4 s2 s1]
      fun regs z => Operands w s1 (.reg s2) x y regs z ∧ Halves s3 s4 (~~~x ||| y) (~~~x &&& y) regs := by
  have kept : Stable [s3, s4] (Operands w s1 (.reg s2) x y) := stable_operands usable.not_flags ne13 ne14 avoids
  have both : Yields host dyn scratch T (Operands w s1 (.reg s2) x y) Flag.none [ORN_REG sf s3 s2 s1, BIC_REG sf s4 s2 s1] fun regs z =>
      Operands w s1 (.reg s2) x y regs z ∧ Halves s3 s4 (AluOp.ORN.bits y x) (AluOp.BIC.bits y x) regs :=
    yields_halves apart in3 in4 le .orn .bic kept (show (Operand2.reg s1).Whole from trivial) (show (Operand2.reg s1).Whole from trivial)
      (fun _ _ holds => holds) (fun _ _ holds => ⟨holds.2, holds.1⟩) fun _ _ holds => ⟨holds.2, holds.1⟩
  refine both.weaken fun _ _ holds => ⟨holds.1, holds.2.1.trans ?_, holds.2.2.trans ?_⟩
  · exact BitVec.or_comm y (~~~x)
  · exact BitVec.and_comm y (~~~x)

theorem yields_borrows_dec :
    Yields host dyn scratch T (Operands w s1 (.imm 1) x y) Flag.none
      [MVN_REG sf s3 s1, AND_mask sf s4 s3 1, ORR_mask sf s3 s3 1]
      fun regs z => Operands w s1 (.imm 1) x y regs z ∧ Halves s3 s4 (~~~x ||| y) (~~~x &&& y) regs := by
  have kept : Stable [s3, s4] (Operands w s1 (.imm 1) x y) :=
    stable_operands usable.not_flags ne13 ne14 (show (Operand2.imm 1).Avoids s3 s4 from trivial)
  let K1 : Before := fun regs z => Operands w s1 (.imm 1) x y regs z ∧ low w.bits (regs s3) = ~~~x
  let K2 : Before := fun regs z => Operands w s1 (.imm 1) x y regs z ∧ low w.bits (regs s4) = AluOp.AND.bits (~~~x) y
  have kept1 : Stable [s4] K1 := (kept.mono (by simp)).and_low apart.usable3 (by simpa using apart.ne34)
  have kept2 : Stable [s3] K2 := (kept.mono (by simp)).and_low apart.usable4 (by simpa using apart.ne34.symm)
  have first : Yields host dyn scratch T (Operands w s1 (.imm 1) x y) Flag.none [MVN_REG sf s3 s1] K1 :=
    yields_not apart in3 le kept fun _ _ holds => holds.1
  have second : Yields host dyn scratch T K1 Flag.none [AND_mask sf s4 s3 1]
      (fun regs z => K1 regs z ∧ low w.bits (regs s4) = AluOp.AND.bits (~~~x) y) :=
    yields_logic .and apart.usable4 in4 le (show (Operand2.imm 1).Whole from trivial) (fun _ _ holds => holds) kept1
      (fun _ _ holds => (if_neg apart.usable3.not_zero).trans holds.2) fun _ _ holds => holds.1.2
  have third : Yields host dyn scratch T (fun regs z => K1 regs z ∧ low w.bits (regs s4) = AluOp.AND.bits (~~~x) y) Flag.none
      [ORR_mask sf s3 s3 1] (fun regs z => K2 regs z ∧ low w.bits (regs s3) = AluOp.ORR.bits (~~~x) y) :=
    yields_logic .orr apart.usable3 in3 le (show (Operand2.imm 1).Whole from trivial) (fun _ _ holds => ⟨holds.1.1, holds.2⟩) kept2
      (fun _ _ holds => (if_neg apart.usable3.not_zero).trans holds.1.2) fun _ _ holds => holds.1.1.2
  exact (first.append (second.append third)).weaken fun _ _ holds => ⟨holds.1.1, holds.2, holds.1.2⟩

end Borrows

/-- Code that prepares the chain where it is asked for. -/
theorem yields_prepared {K' : Before} {H : (Reg → BitVec 64) → Prop} {pre : List Inst}
    (prepare : Yields host dyn scratch T K Flag.none pre fun regs z => K' regs z ∧ H regs)
    (skip : dyn.needs X_AF = false → ∀ regs z, K regs z → K' regs z) :
    Yields host dyn scratch T K Flag.none (dyn.IFX X_AF pre) fun regs z => K' regs z ∧ (dyn.needs X_AF = true → H regs) := by
  refine Yields.ifx prepare.straight (fun _ => prepare.weaken fun _ _ both => ⟨both.1, fun _ => both.2⟩) fun absent => ?_
  exact ⟨fun _ is => Bool.noConfusion is, fun _ _ holds => ⟨skip absent _ _ holds, fun needed => absurd needed (by simp [absent])⟩⟩

theorem yields_op {H : (Reg → BitVec 64) → Prop} {op : AluOp} {set sf : Bool} {rn : Reg} {src : Operand2} {r : BitVec (opSize sf)}
    {f : Nzcv} (usable : Usable d) (mem : d ∈ scratch) (kept : Stable [d] fun regs _ => dyn.needs X_AF = true → H regs)
    (result : ∀ regs z, K regs z → op.eval z.C (readReg (opSize sf) regs rn) (src.read (opSize sf) regs) = (r, f)) :
    Yields host dyn scratch T (fun regs z => K regs z ∧ (dyn.needs X_AF = true → H regs)) Flag.none [.alu op set sf d rn src]
      (Done dyn H d (r.setWidth 64) set f) := by
  have both : Yields host dyn scratch T (fun regs z => K regs z ∧ (dyn.needs X_AF = true → H regs)) Flag.none
      [.alu op set sf d rn src]
      (fun regs z => (dyn.needs X_AF = true → H regs) ∧ regs d = r.setWidth 64 ∧ (set = true → z = f)) :=
    yields_alu usable mem (fun _ _ _ both => both.2) kept fun regs z both => result regs z both.1
  exact both.weaken fun _ _ holds => ⟨⟨holds.2.1, holds.2.2⟩, holds.1⟩

theorem stable_halves {p q : BitVec w.bits} (apart : Apart d s3 s4) :
    Stable [d] fun regs _ => dyn.needs X_AF = true → Halves s3 s4 p q regs := by
  intro regs regs' _ same holds needed
  obtain ⟨half, half'⟩ := holds needed
  refine ⟨?_, ?_⟩
  · rw [same s3 apart.usable3.not_flags (by simpa using apart.ne13.symm)]
    exact half
  · rw [same s4 apart.usable4.not_flags (by simpa using apart.ne14.symm)]
    exact half'

/-! ### Joining the chain -/

section Join
variable {p q v c : BitVec w.bits} {sf sb set : Bool} {f : Nzcv} (apart : Apart d s3 s4) (in3 : s3 ∈ scratch) (in4 : s4 ∈ scratch)
  (le : w.bits ≤ opSize sf)
include apart le

section
include in3

theorem yields_join {op : AluOp} (logical : op.Logical) (chain : op.bits p v ||| q = c) :
    Yields host dyn scratch T (fun regs z => Left d (v.setWidth 64) set f regs z ∧ Halves s3 s4 p q regs) Flag.none
      ([.alu op false sf s3 s3 (.reg d)] ++ [ORR_REG sf s3 s3 s4])
      (fun regs z => Left d (v.setWidth 64) set f regs z ∧ low w.bits (regs s3) = c) := by
  let K1 : Before := fun regs z => Left d (v.setWidth 64) set f regs z ∧ low w.bits (regs s4) = q
  have read : ∀ {r : Reg} {x : BitVec w.bits} {regs : Reg → BitVec 64}, r ≠ xZR → low w.bits (regs r) = x →
      readReg w.bits regs r = x :=
    fun real is => (if_neg real).trans is
  have kept : Stable [s3] (Left d (v.setWidth 64) set f) := Left.stable apart.usable1 (by simpa using apart.ne13)
  have kept1 : Stable [s3] K1 := kept.and_low apart.usable4 (by simpa using apart.ne34.symm)
  have value : ∀ regs z, Left d (v.setWidth 64) set f regs z → low w.bits (regs d) = v := by
    intro regs z holds
    rw [holds.1, low_widen]
  have first : Yields host dyn scratch T (fun regs z => Left d (v.setWidth 64) set f regs z ∧ Halves s3 s4 p q regs) Flag.none
      [.alu op false sf s3 s3 (.reg d)] (fun regs z => K1 regs z ∧ low w.bits (regs s3) = op.bits p v) :=
    yields_logic logical apart.usable3 in3 le trivial (fun regs z holds => ⟨holds.1, holds.2.2⟩) kept1
      (fun regs z holds => read apart.usable3.not_zero holds.2.1)
      (fun regs z holds => read apart.usable1.not_zero (value regs z holds.1))
  have second : Yields host dyn scratch T (fun regs z => K1 regs z ∧ low w.bits (regs s3) = op.bits p v) Flag.none
      [ORR_REG sf s3 s3 s4] (fun regs z => Left d (v.setWidth 64) set f regs z ∧ low w.bits (regs s3) = AluOp.ORR.bits (op.bits p v) q) :=
    yields_logic .orr apart.usable3 in3 le (show (Operand2.reg s4).Whole from trivial) (fun regs z holds => holds.1.1) kept
      (fun regs z holds => read apart.usable3.not_zero holds.2)
      (fun regs z holds => read apart.usable4.not_zero holds.1.2)
  exact (first.append second).weaken fun regs z holds => ⟨holds.1, holds.2.trans chain⟩

end

section
include in4

theorem yields_chainAF {H : (Reg → BitVec 64) → Prop} {join : List Inst} (straight : Straight join) (rexw : sf = dyn.rexw)
    (af : T.AF = c.getLsbD 3)
    (joins : Yields host dyn scratch T (fun regs z => Left d (v.setWidth 64) set f regs z ∧ H regs) Flag.none join
      (fun regs z => Left d (v.setWidth 64) set f regs z ∧ low w.bits (regs s3) = c)) :
    Yields host dyn scratch T (Done dyn H d (v.setWidth 64) set f) (Flag.only .AF) (dyn.chainAF join sb s3 s4)
      (Left d (v.setWidth 64) set f) := by
  have eight := w.le_bits
  subst rexw
  refine Yields.ifx ?_ (fun needed => ?_) fun absent =>
    ⟨(idle_only (k := .AF) absent (Left d (v.setWidth 64) set f)).1, fun _ _ holds => holds.1⟩
  · unfold Straight at straight ⊢
    rw [List.all_append, straight]
    rfl
  · let K1 : Before := fun regs z => Left d (v.setWidth 64) set f regs z ∧ low w.bits (regs s3) = c
    have kept : Stable [s4] K1 :=
      (Left.stable apart.usable1 (by simpa using apart.ne14)).and_low apart.usable3 (by simpa using apart.ne34)
    have put : Yields host dyn scratch T K1 (Flag.only .AF) ([LSR dyn.rexw s4 s3 3] ++ [BFI sb xFlags s4 (Flag.place .AF)]) K1 := by
      refine yields_put [LSR dyn.rexw s4 s3 3] sb (fun m => (m.get dyn.rexw s3 >>> 3).setWidth 64) rfl apart.usable4 in4 kept
        (fun m => set_setWidth m s4 _) needed ?_
      intro m holds
      have inside : 3 < opSize dyn.rexw := by omega
      have bit : (m.regs s3).getLsbD 3 = c.getLsbD 3 := bit_of_low holds.2 (by omega)
      rw [getLsbD_setWidth, getLsbD_ushiftRight, m.get_of_ne s3 dyn.rexw apart.usable3.not_zero, low, getLsbD_setWidth]
      simp only [show (0 : Nat) < 64 by decide, decide_true, Bool.true_and, Nat.add_zero, inside, bit]
      exact af.symm
    have joined := joins.strengthen (K := Done dyn H d (v.setWidth 64) set f) fun _ _ holds => ⟨holds.1, holds.2 needed⟩
    exact (joined.append put).weaken fun _ _ holds => holds.1

end

end Join

/-! ### The other flags -/

/-- A flag from the condition flags of the operation. -/
theorem yields_cond (k : Flag) (cond : Cond) {set : Bool} {f : Nzcv} (apart : Apart d s3 s4) (in4 : s4 ∈ scratch) (kept : Stable [s4] K)
    (left : ∀ regs z, K regs z → set = true → z = f) (sets : dyn.needs k.mask = true → set = true)
    (is : f.holds cond = Flag.get T k) :
    Yields host dyn scratch T K (Flag.only k) (dyn.condFlag k.mask s4 cond k.place) K := by
  refine yields_condFlag apart.usable4 in4 kept fun needed regs z holds => ?_
  rw [left regs z holds (sets needed)]
  exact is

theorem yields_signParity {v : BitVec (opWidth dyn.rexw).bits} {set sb : Bool} {f : Nzcv} (apart : Apart d s3 s4) (in3 : s3 ∈ scratch)
    (in4 : s4 ∈ scratch) (sign : v.msb = T.SF) (parity : PARITY (v.setWidth 8) = T.PF) :
    Yields host dyn scratch T (Left d (v.setWidth 64) set f) (fun k => Flag.only .SF k || Flag.only .PF k) (dyn.signParity host sb d s3 s4)
      (fun regs _ => regs d = v.setWidth 64) := by
  have kept : Stable [s3] (Left d (v.setWidth 64) set f) := Left.stable apart.usable1 (by simpa using apart.ne13)
  have signs : Yields host dyn scratch T (Left d (v.setWidth 64) set f) (Flag.only .SF)
      (dyn.bitFlag X_SF dyn.rexw s3 d dyn.sign sb F_SF) (Left d (v.setWidth 64) set f) := by
    have pos := opSize_pos dyn.rexw
    have le := opSize_le dyn.rexw
    have last := dyn.sign_eq
    refine yields_bitFlag (k := .SF) apart.usable3 in3 kept apart.usable1.not_zero (by omega) ?_
    intro _ regs z holds
    have top : v.getLsbD dyn.sign = T.SF := by
      rw [← sign, msb_eq_getLsbD_last, last]
      rfl
    rw [holds.1, getLsbD_setWidth, decide_eq_true (by omega), Bool.true_and]
    exact top
  have parities : Yields host dyn scratch T (Left d (v.setWidth 64) set f) (Flag.only .PF) (dyn.setPF host d s3 s4)
      (fun regs _ => regs d = v.setWidth 64) := by
    refine yields_setPF (P := fun r => r = v.setWidth 64) apart in3 in4 ?_ fun _ _ holds => holds.1
    intro _ regs z holds
    rw [holds.1, ← parity, low, setWidth_setWidth_of_le _ (by decide)]
  exact signs.append parities

/-- The flags behind the operation. -/
theorem yields_ends {v : BitVec (opWidth dyn.rexw).bits} {H : (Reg → BitVec 64) → Prop} {set sa sb : Bool} {f : Nzcv}
    {C : Flag → Bool} {join carry : List Inst} (apart : Apart d s3 s4) (in3 : s3 ∈ scratch) (in4 : s4 ∈ scratch)
    (chained : Yields host dyn scratch T (Done dyn H d (v.setWidth 64) set f) (Flag.only .AF) (dyn.chainAF join sa s3 s4)
      (Left d (v.setWidth 64) set f))
    (carries : Yields host dyn scratch T (Left d (v.setWidth 64) set f) C carry (Left d (v.setWidth 64) set f))
    (sets : dyn.needs X_ZF = true ∨ dyn.needs X_OF = true → set = true) (zero : f.Z = T.ZF) (overflow : f.V = T.OF)
    (sign : v.msb = T.SF) (parity : PARITY (v.setWidth 8) = T.PF) :
    Yields host dyn scratch T (Done dyn H d (v.setWidth 64) set f)
      (fun k => Flag.only .AF k || (Flag.only .ZF k || (C k || (Flag.only .OF k || (Flag.only .SF k || Flag.only .PF k)))))
      (dyn.chainAF join sa s3 s4 ++ (dyn.condFlag X_ZF s4 .cEQ F_ZF ++ (carry ++ (dyn.condFlag X_OF s4 .cVS F_OF ++
        dyn.signParity host sb d s3 s4))))
      (fun regs _ => regs d = v.setWidth 64) := by
  have kept : Stable [s4] (Left d (v.setWidth 64) set f) := Left.stable apart.usable1 (by simpa using apart.ne14)
  have zeros : Yields host dyn scratch T (Left d (v.setWidth 64) set f) (Flag.only .ZF) (dyn.condFlag X_ZF s4 .cEQ F_ZF)
      (Left d (v.setWidth 64) set f) :=
    yields_cond .ZF .cEQ apart in4 kept (fun _ _ holds => holds.2) (fun needed => sets (.inl needed)) zero
  have overs : Yields host dyn scratch T (Left d (v.setWidth 64) set f) (Flag.only .OF) (dyn.condFlag X_OF s4 .cVS F_OF)
      (Left d (v.setWidth 64) set f) :=
    yields_cond .OF .cVS apart in4 kept (fun _ _ holds => holds.2) (fun needed => sets (.inr needed)) overflow
  exact chained.append (zeros.append (carries.append (overs.append (yields_signParity apart in3 in4 sign parity))))

/-! ### A negation -/

section Negation
variable {x : BitVec (opWidth dyn.rexw).bits} (apart : Apart d s3 s4)
include apart

theorem stable_negated : Stable [s3, s4] (Operands _ xZR (.reg d) 0 x) :=
  stable_operands (by decide) apart.usable3.not_zero.symm apart.usable4.not_zero.symm
    (show (Operand2.reg d).Avoids s3 s4 from ⟨apart.usable1.not_flags, apart.ne13, apart.ne14⟩)

/-- `CF`: the operand is not 0. -/
theorem yields_notZero (in4 : s4 ∈ scratch) (cf : (x != 0) = T.CF) :
    Yields host dyn scratch T (Operands _ xZR (.reg d) 0 x) (Flag.only .CF)
      (dyn.IFX X_CF [TST_REG dyn.rexw d d, .CSETw s4 .cNE, BFI false xFlags s4 F_CF]) (Operands _ xZR (.reg d) 0 x) := by
  refine Yields.ifx rfl (fun needed => ?_) fun absent => idle_only (k := .CF) absent _
  let K1 : Before := fun regs z => Operands _ xZR (.reg d) 0 x regs z ∧ z.Z = (x == 0)
  have first : Yields host dyn scratch T (Operands _ xZR (.reg d) 0 x) Flag.none [TST_REG dyn.rexw d d] K1 := by
    refine ⟨rfl, fun m holds => ⟨⟨rfl, fun _ _ _ => rfl, rfl⟩, holds, ?_⟩⟩
    have read : m.get dyn.rexw d = x := holds.2
    show (m.get dyn.rexw d &&& m.get dyn.rexw d == 0) = (x == 0)
    rw [BitVec.and_self, read]
    rfl
  have kept : Stable [s4] K1 := fun regs regs' z same holds =>
    ⟨(stable_negated apart).mono (by simp) regs regs' z same holds.1, holds.2⟩
  have second : Yields host dyn scratch T K1 (Flag.only .CF) ([.CSETw s4 .cNE] ++ [BFI false xFlags s4 (Flag.place .CF)]) K1 := by
    refine yields_put [.CSETw s4 .cNE] false (fun m => (ofBool (m.nzcv.holds .cNE)).setWidth 64) rfl apart.usable4 in4 kept
      (fun m => set_setWidth m s4 _) needed ?_
    intro m holds
    have cond : m.nzcv.holds .cNE = (x != 0) := congrArg (!·) holds.2
    rw [cond, getLsbD_setWidth, cf]
    simp [Flag.get]
  exact (first.append second).weaken fun _ _ holds => holds.1

/-- The operand kept for the chain, and the negation. -/
theorem front_neg {set : Bool} (mem : d ∈ scratch) (in3 : s3 ∈ scratch) :
    Yields host dyn scratch T (Operands _ xZR (.reg d) 0 x) Flag.none
      (dyn.IFX X_AF [MOV_REG dyn.rexw s3 d] ++ [.alu .SUB set dyn.rexw d xZR (.reg d)])
      (Done dyn (fun regs => low _ (regs s3) = x) d ((subb 0 x false).setWidth 64) set (addWithCarry 0 (~~~x) true).2) := by
  have kept : Stable [s3] (Operands _ xZR (.reg d) 0 x) := (stable_negated apart).mono (by simp)
  have copied : Yields host dyn scratch T (Operands _ xZR (.reg d) 0 x) Flag.none [MOV_REG dyn.rexw s3 d]
      (fun regs z => Operands _ xZR (.reg d) 0 x regs z ∧ low _ (regs s3) = AluOp.ORR.bits 0 x) :=
    yields_logic .orr apart.usable3 in3 le_rfl (show (Operand2.reg d).Whole from trivial) (fun _ _ holds => holds) kept
      (fun _ _ holds => holds.1) fun _ _ holds => holds.2
  have held : Stable [d] fun regs _ => dyn.needs X_AF = true → low _ (regs s3) = x := by
    intro regs regs' _ same holds needed
    rw [same s3 apart.usable3.not_flags (by simpa using apart.ne13.symm)]
    exact holds needed
  refine (yields_prepared (copied.weaken fun _ _ holds => ⟨holds.1, holds.2.trans BitVec.zero_or⟩) fun _ _ _ holds => holds).append
    (yields_op apart.usable1 mem held ?_)
  rintro regs z ⟨left, right⟩
  have same : addWithCarry (readReg (opSize dyn.rexw) regs xZR) (~~~readReg (opSize dyn.rexw) regs d) true =
      addWithCarry 0 (~~~x) true := congrArg₂ (fun a b => addWithCarry a (~~~b) true) left right
  exact same.trans (Prod.ext (addWithCarry_diff (opWidth dyn.rexw).le_bits 0 x false).1 rfl)

/-- The chain of a negation: the operand or the result. -/
theorem yields_joinNeg {v : BitVec (opWidth dyn.rexw).bits} {set : Bool} {f : Nzcv} (in3 : s3 ∈ scratch) :
    Yields host dyn scratch T (fun regs z => Left d (v.setWidth 64) set f regs z ∧ low _ (regs s3) = x) Flag.none
      [ORR_REG dyn.rexw s3 s3 d] (fun regs z => Left d (v.setWidth 64) set f regs z ∧ low _ (regs s3) = AluOp.ORR.bits x v) := by
  have kept : Stable [s3] (Left d (v.setWidth 64) set f) := Left.stable apart.usable1 (by simpa using apart.ne13)
  refine yields_logic .orr apart.usable3 in3 le_rfl (show (Operand2.reg d).Whole from trivial) (fun _ _ holds => holds.1) kept ?_ ?_
  · exact fun _ _ holds => (if_neg apart.usable3.not_zero).trans holds.2
  · intro regs z holds
    refine (if_neg apart.usable1.not_zero).trans ?_
    exact (congrArg (low _) holds.1.1).trans (low_widen v)

/-- The whole of a negation behind its head. -/
theorem outcome_neg {m : Cpu} {head store : List Inst} {pends covers set : Bool} {N : DeferedFlags}
    {o2 : BitVec (opWidth dyn.rexw).bits} {within : List Reg} (mem : d ∈ scratch) (in3 : s3 ∈ scratch) (in4 : s4 ∈ scratch)
    (sub : within ⊆ scratch) (straight : Straight head) (closed : Closed host store)
    (headed : dyn.Headed within pends covers N x o2 m (exec host head m)) (out : d ∉ within) (is : low _ (m.regs d) = x)
    (stores : ∀ m, StoresAt (opWidth dyn.rexw) pends d m (exec host store m))
    (sets : dyn.needs X_ZF = true ∨ dyn.needs X_OF = true → set = true) :
    dyn.Outcome scratch pends covers N x o2 (subb 0 x false) Flag.all (diffFlags 0 x false)
      (fun regs _ => regs d = (subb 0 x false).setWidth 64) m
      (exec host (head ++ ((dyn.IFX X_CF [TST_REG dyn.rexw d d, .CSETw s4 .cNE, BFI false xFlags s4 F_CF] ++
        (dyn.IFX X_AF [MOV_REG dyn.rexw s3 d] ++ [.alu .SUB set dyn.rexw d xZR (.reg d)])) ++ (store ++
        (dyn.condFlag X_ZF s4 .cEQ F_ZF ++ (dyn.condFlag X_OF s4 .cVS F_OF ++ (dyn.chainAF [ORR_REG dyn.rexw s3 s3 d] false s3 s4 ++
          dyn.signParity host false d s3 s4)))))) m) := by
  obtain ⟨-, zero, -, overflow⟩ := addWithCarry_diff (opWidth dyn.rexw).le_bits 0 x false
  let T := diffFlags 0 x false
  let v := subb 0 x false
  let f := (addWithCarry 0 (~~~x) true).2
  let K : Before := Done dyn (fun regs => low _ (regs s3) = x) d (v.setWidth 64) set f
  have kept : Stable [s4] K := by
    rintro regs regs' z same ⟨holds, half⟩
    refine ⟨Left.stable apart.usable1 (by simpa using apart.ne14) regs regs' z same holds, fun needed => ?_⟩
    show low _ (regs' s3) = x
    rw [same s3 apart.usable3.not_flags (by simpa using apart.ne34)]
    exact half needed
  have starts : Operands _ xZR (.reg d) 0 x (exec host head m).regs (exec host head m).nzcv := by
    refine ⟨if_pos rfl, (if_neg apart.usable1.not_zero).trans ?_⟩
    rw [headed.keeps.regs d apart.usable1.not_flags out]
    exact is
  have front : Yields host dyn scratch T _ _ _ K := (yields_notZero apart in4 (borrow_neg x)).append (front_neg apart mem in3)
  have zeros : Yields host dyn scratch T K (Flag.only .ZF) (dyn.condFlag X_ZF s4 .cEQ F_ZF) K :=
    yields_cond .ZF .cEQ apart in4 kept (fun _ _ holds => holds.1.2) (fun needed => sets (.inl needed)) zero
  have overs : Yields host dyn scratch T K (Flag.only .OF) (dyn.condFlag X_OF s4 .cVS F_OF) K :=
    yields_cond .OF .cVS apart in4 kept (fun _ _ holds => holds.1.2) (fun needed => sets (.inr needed)) overflow
  have chained : Yields host dyn scratch T K (Flag.only .AF) (dyn.chainAF [ORR_REG dyn.rexw s3 s3 d] false s3 s4)
      (Left d (v.setWidth 64) set f) := by
    refine yields_chainAF apart in4 le_rfl rfl rfl ?_ (yields_joinNeg apart in3)
    exact congrArg (·.getLsbD 3) (borrowChain_neg x v).symm
  refine dyn.outcome straight closed sub headed starts front stores ?_
    (zeros.append (overs.append (chained.append (yields_signParity apart in3 in4 rfl rfl)))) fun k => by cases k <;> rfl
  intro regs z holds
  exact (congrArg (low _) holds.1.1).trans (low_widen v)

end Negation

/-! ### Whole emitters -/

section Whole
variable {x y : BitVec (opWidth dyn.rexw).bits} {set : Bool}

/-- The chain of a sum prepared, and the sum. -/
theorem front_sum (src : Operand2) {rn : Reg} (apart : Apart d s3 s4) (mem : d ∈ scratch) (in3 : s3 ∈ scratch) (in4 : s4 ∈ scratch)
    (usable : Usable rn) (ne3 : rn ≠ s3) (ne4 : rn ≠ s4) (avoids : src.Avoids s3 s4) :
    Yields host dyn scratch T (Operands _ rn src x y) Flag.none
      (dyn.IFX X_AF [.alu .ORR false dyn.rexw s3 rn src, .alu .AND false dyn.rexw s4 rn src] ++ [.alu .ADD set dyn.rexw d rn src])
      (Done dyn (Halves s3 s4 (x ||| y) (x &&& y)) d ((addc x y false).setWidth 64) set (addWithCarry x y false).2) := by
  have kept : Stable [s3, s4] (Operands _ rn src x y) := stable_operands usable.not_flags ne3 ne4 avoids
  have halves : Yields host dyn scratch T (Operands _ rn src x y) Flag.none
      [.alu .ORR false dyn.rexw s3 rn src, .alu .AND false dyn.rexw s4 rn src]
      fun regs z => Operands _ rn src x y regs z ∧ Halves s3 s4 (x ||| y) (x &&& y) regs :=
    yields_halves apart in3 in4 le_rfl .orr .and kept avoids.whole avoids.whole (fun _ _ holds => holds) (fun _ _ holds => holds)
      fun _ _ holds => holds
  refine (yields_prepared halves fun _ _ _ holds => holds).append (yields_op apart.usable1 mem (stable_halves apart) ?_)
  rintro regs z ⟨left, right⟩
  exact congrArg₂ (fun a b => addWithCarry a b false) left right

/-- The chain of a difference prepared, and the difference. -/
theorem front_diff (src : Operand2) {rn : Reg} {pre : List Inst} (apart : Apart d s3 s4) (mem : d ∈ scratch)
    (prepare : Yields host dyn scratch T (Operands _ rn src x y) Flag.none pre fun regs z =>
      Operands _ rn src x y regs z ∧ Halves s3 s4 (~~~x ||| y) (~~~x &&& y) regs) :
    Yields host dyn scratch T (Operands _ rn src x y) Flag.none (dyn.IFX X_AF pre ++ [.alu .SUB set dyn.rexw d rn src])
      (Done dyn (Halves s3 s4 (~~~x ||| y) (~~~x &&& y)) d ((subb x y false).setWidth 64) set (addWithCarry x (~~~y) true).2) := by
  refine (yields_prepared prepare fun _ _ _ holds => holds).append
    (yields_op apart.usable1 mem (stable_halves apart) ?_)
  rintro regs z ⟨left, right⟩
  have same : addWithCarry (readReg (opSize dyn.rexw) regs rn) (~~~src.read (opSize dyn.rexw) regs) true =
      addWithCarry x (~~~y) true := congrArg₂ (fun a b => addWithCarry a (~~~b) true) left right
  exact same.trans (Prod.ext (addWithCarry_diff (opWidth dyn.rexw).le_bits x y false).1 rfl)

variable {o1 o2 : BitVec (opWidth dyn.rexw).bits} {head A store carry : List Inst} {pends covers : Bool} {N : DeferedFlags} {m : Cpu}
  {C F : Flag → Bool} {within : List Reg} {K0 : Before} (sa sb : Bool) (apart : Apart d s3 s4) (in3 : s3 ∈ scratch)
  (in4 : s4 ∈ scratch) (sub : within ⊆ scratch) (straight : Straight head) (closed : Closed host store)
  (headed : dyn.Headed within pends covers N o1 o2 m (exec host head m))
  (starts : K0 (exec host head m).regs (exec host head m).nzcv)
  (stores : ∀ m, StoresAt (opWidth dyn.rexw) pends d m (exec host store m))
  (sets : dyn.needs X_ZF = true ∨ dyn.needs X_OF = true → set = true)
  (union : ∀ k, (Flag.none k || (Flag.only .AF k || (Flag.only .ZF k || (C k || (Flag.only .OF k ||
    (Flag.only .SF k || Flag.only .PF k)))))) = F k)
include apart in3 in4 sub straight closed headed starts stores sets union

theorem outcome_sum
    (front : Yields host dyn scratch (sumFlags x y false) K0 Flag.none A
      (Done dyn (Halves s3 s4 (x ||| y) (x &&& y)) d ((addc x y false).setWidth 64) set (addWithCarry x y false).2))
    (carries : Yields host dyn scratch (sumFlags x y false) (Left d ((addc x y false).setWidth 64) set (addWithCarry x y false).2) C
      carry (Left d ((addc x y false).setWidth 64) set (addWithCarry x y false).2)) :
    dyn.Outcome scratch pends covers N o1 o2 (addc x y false) F (sumFlags x y false)
      (fun regs _ => regs d = (addc x y false).setWidth 64) m
      (exec host (head ++ (A ++ (store ++ (dyn.chainAF (joinCarries dyn.rexw d s3 s4) sa s3 s4 ++
        (dyn.condFlag X_ZF s4 .cEQ F_ZF ++ (carry ++ (dyn.condFlag X_OF s4 .cVS F_OF ++ dyn.signParity host sb d s3 s4))))))) m) := by
  have le : (opWidth dyn.rexw).bits ≤ opSize dyn.rexw := le_rfl
  obtain ⟨-, zero, -, overflow⟩ := addWithCarry_sum (opWidth dyn.rexw).le_bits x y false
  have chain : AluOp.BIC.bits (x ||| y) (addc x y false) ||| (x &&& y) = carryChain x y (addc x y false) := by
    show ((x ||| y) &&& ~~~addc x y false) ||| (x &&& y) = (x &&& y) ||| (~~~addc x y false &&& (x ||| y))
    rw [BitVec.or_comm, BitVec.and_comm (x ||| y)]
  refine dyn.outcome straight closed sub headed starts front stores ?_ (yields_ends apart in3 in4
    (yields_chainAF apart in4 le rfl rfl rfl (yields_join apart in3 le .bic chain)) carries sets zero overflow rfl rfl) union
  intro regs z holds
  exact (congrArg (low _) holds.1.1).trans (low_widen (addc x y false))

theorem outcome_diff
    (front : Yields host dyn scratch (diffFlags x y false) K0 Flag.none A
      (Done dyn (Halves s3 s4 (~~~x ||| y) (~~~x &&& y)) d ((subb x y false).setWidth 64) set (addWithCarry x (~~~y) true).2))
    (carries : Yields host dyn scratch (diffFlags x y false)
      (Left d ((subb x y false).setWidth 64) set (addWithCarry x (~~~y) true).2) C carry
      (Left d ((subb x y false).setWidth 64) set (addWithCarry x (~~~y) true).2)) :
    dyn.Outcome scratch pends covers N o1 o2 (subb x y false) F (diffFlags x y false)
      (fun regs _ => regs d = (subb x y false).setWidth 64) m
      (exec host (head ++ (A ++ (store ++ (dyn.chainAF (joinBorrows dyn.rexw d s3 s4) sa s3 s4 ++
        (dyn.condFlag X_ZF s4 .cEQ F_ZF ++ (carry ++ (dyn.condFlag X_OF s4 .cVS F_OF ++ dyn.signParity host sb d s3 s4))))))) m) := by
  have le : (opWidth dyn.rexw).bits ≤ opSize dyn.rexw := le_rfl
  obtain ⟨-, zero, -, overflow⟩ := addWithCarry_diff (opWidth dyn.rexw).le_bits x y false
  have chain : AluOp.AND.bits (~~~x ||| y) (subb x y false) ||| (~~~x &&& y) = borrowChain x y (subb x y false) := by
    show ((~~~x ||| y) &&& subb x y false) ||| (~~~x &&& y) = (subb x y false &&& (~~~x ||| y)) ||| (~~~x &&& y)
    rw [BitVec.and_comm (~~~x ||| y)]
  refine dyn.outcome straight closed sub headed starts front stores ?_ (yields_ends apart in3 in4
    (yields_chainAF apart in4 le rfl rfl rfl (yields_join apart in3 le .and chain)) carries sets zero overflow rfl rfl) union
  intro regs z holds
  exact (congrArg (low _) holds.1.1).trans (low_widen (subb x y false))

end Whole

theorem straight_pendInc (s1 S : Reg) (N : DeferedFlags) : Straight (dyn.pendInc s1 S N) := by
  unfold pendInc
  split
  · rfl
  · exact straight_IFX dyn.straight_SET_DFNONE

theorem straight_pendOne (s1 S : Reg) (N : DeferedFlags) : Straight (dyn.pendOne s1 S N) := dyn.straight_pendOrNone rfl

theorem straight_pendCmp (s1 s2 S : Reg) : Straight (dyn.pendCmp s1 s2 S) := dyn.straight_PENDOR0 rfl dyn.straight_SET_DFNONE

theorem union_all (k : Flag) :
    (Flag.none k || (Flag.only .AF k || (Flag.only .ZF k || (Flag.only .CF k || (Flag.only .OF k || (Flag.only .SF k ||
      Flag.only .PF k)))))) = Flag.all k := by
  cases k <;> rfl

theorem union_butCF (k : Flag) :
    (Flag.none k || (Flag.only .AF k || (Flag.only .ZF k || (Flag.none k || (Flag.only .OF k || (Flag.only .SF k ||
      Flag.only .PF k)))))) = Flag.butCF k := by
  cases k <;> rfl

/-- `CF` of a sum or a difference. -/
theorem yields_carry (cond : Cond) {r : BitVec 64} {set : Bool} {f : Nzcv} (apart : Apart d s3 s4) (in4 : s4 ∈ scratch)
    (sets : dyn.needs X_CF = true → set = true) (is : f.holds cond = T.CF) :
    Yields host dyn scratch T (Left d r set f) (Flag.only .CF) (dyn.condFlag X_CF s4 cond F_CF) (Left d r set f) :=
  yields_cond .CF cond apart in4 (Left.stable apart.usable1 (by simpa using apart.ne14)) (fun _ _ holds => holds.2) sets is

end Emit

end Box64.Arm64
