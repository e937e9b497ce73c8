import Box64.Dynarec.FlagNeed

/-!
# Demands for flags, and where they get lost

A demand is a single bit of a need, a flag or `X_PEND`, on its way back from the instruction that reads
it. `Carried` follows it over the edges of the control flow, each instruction handing it over the way
`updateNeed` does on its first visit. Every demand carried is in the calculated needs (`Stable.covers`).
-/

namespace Box64.Dynarec

open Propagation

/-! ### What an instruction hands over -/

namespace InstructionX64

/-- What is left of a need, and what the instruction adds to it. -/
def kept (inst : InstructionX64) (need : BitVec 8) : BitVec 8 := need &&& ~~~inst.newSet ||| inst.use_flags

def isBarrier (inst : InstructionX64) : Prop := inst.barrier &&& BARRIER_FLAGS ≠ 0

instance (inst : InstructionX64) : Decidable inst.isBarrier := inferInstanceAs (Decidable (_ ≠ _))

theorem handOver_eq (inst : InstructionX64) (need : BitVec 8) :
    inst.handOver need =
      let asked := if inst.kept need ≠ 0 ∧ inst.isBarrier then X_PEND else inst.kept need
      if asked = X_ALL ||| X_PEND ∧ inst.state_flags.setsFlags then X_ALL else asked := rfl

end InstructionX64

/-- Bit `x` of `v`, where `X_ALL` may stand for `X_PEND`. -/
def Grants (v : BitVec 8) (x : Nat) : Prop :=
  v.getLsbD x = true ∨ (x = 7 ∧ ∀ f < 6, v.getLsbD f = true)

namespace InstructionX64

theorem getLsbD_kept (inst : InstructionX64) (need : BitVec 8) (x : Nat) :
    (inst.kept need).getLsbD x = true ↔
      (need.getLsbD x = true ∧ inst.newSet.getLsbD x = false) ∨ inst.use_flags.getLsbD x = true := by
  rw [kept, getLsbD_or_iff, getLsbD_clear_iff]

theorem handOver_of_barrier {inst : InstructionX64} (barrier : inst.isBarrier) {need : BitVec 8} {x : Nat} :
    (inst.handOver need).getLsbD x = true ↔ x = 7 ∧ inst.kept need ≠ 0 := by
  rw [handOver_eq]
  by_cases nothing : inst.kept need = 0
  · have asked : (if inst.kept need ≠ 0 ∧ inst.isBarrier then X_PEND else inst.kept need) = 0 := by
      rw [if_neg (fun h => h.1 nothing), nothing]
    simp only [asked]
    rw [if_neg (fun h => absurd h.1 (by decide))]
    simp [nothing]
  · have asked : (if inst.kept need ≠ 0 ∧ inst.isBarrier then X_PEND else inst.kept need) = X_PEND :=
      if_pos ⟨nothing, barrier⟩
    simp only [asked]
    rw [if_neg (fun h => absurd h.1 (by decide)), getLsbD_X_PEND]
    exact ⟨fun eq => ⟨eq, nothing⟩, And.left⟩

theorem handOver_of_open {inst : InstructionX64} (no_barrier : ¬inst.isBarrier) (need : BitVec 8) :
    inst.handOver need =
      if inst.kept need = X_ALL ||| X_PEND ∧ inst.state_flags.setsFlags then X_ALL else inst.kept need := by
  have asked : (if inst.kept need ≠ 0 ∧ inst.isBarrier then X_PEND else inst.kept need) = inst.kept need :=
    if_neg (fun h => no_barrier h.2)
  rw [handOver_eq]
  simp only [asked]

theorem kept_of_handOver {inst : InstructionX64} (no_barrier : ¬inst.isBarrier) {need : BitVec 8} {x : Nat}
    (has : (inst.handOver need).getLsbD x = true) : (inst.kept need).getLsbD x = true := by
  rw [handOver_of_open no_barrier] at has
  split at has
  case isTrue all =>
    rw [all.1, getLsbD_or_iff]
    exact .inl has
  case isFalse => exact has

theorem handOver_grants {inst : InstructionX64} (no_barrier : ¬inst.isBarrier) {need : BitVec 8} {x : Nat}
    (has : (inst.kept need).getLsbD x = true) : Grants (inst.handOver need) x := by
  rw [handOver_of_open no_barrier]
  split
  case isTrue all =>
    rw [all.1, getLsbD_or_iff, getLsbD_X_PEND] at has
    rcases has with flag | pend
    · exact .inl flag
    · exact .inr ⟨pend, fun f flag => (getLsbD_X_ALL f).mpr flag⟩
  case isFalse => exact .inl has

/-- Asked for more, an instruction asks for no less. -/
theorem handOver_mono {inst : InstructionX64} {need more : BitVec 8}
    (sub : ∀ x, (inst.kept need).getLsbD x = true → Grants (inst.kept more) x) {x : Nat}
    (has : (inst.handOver need).getLsbD x = true) : Grants (inst.handOver more) x := by
  by_cases barrier : inst.isBarrier
  · obtain ⟨rfl, nonzero⟩ := (handOver_of_barrier barrier).mp has
    obtain ⟨z, kept⟩ := exists_bit_of_ne_zero nonzero
    refine .inl ((handOver_of_barrier barrier).mpr ⟨rfl, ?_⟩)
    rcases sub z kept with more_has | ⟨-, all⟩
    · exact ne_zero_of_bit more_has
    · exact ne_zero_of_bit (all 0 (by decide))
  · rcases sub x (kept_of_handOver barrier has) with more_has | ⟨rfl, all⟩
    · exact handOver_grants barrier more_has
    · refine .inr ⟨rfl, fun f flag => ?_⟩
      rcases handOver_grants barrier (all f flag) with has_f | ⟨eq, -⟩
      · exact has_f
      · omega

/-- An instruction that neither sets flags nor is pending takes nothing off a need; one that defers its
flags and is not pending is such an instruction. -/
theorem newSet_of_not_pending {inst : InstructionX64} (defers : ¬inst.cannotDefer)
    (not_pending : ¬inst.state_flags.isPending) : inst.newSet = 0 := by
  have sets : ¬inst.state_flags.setsFlags := by
    unfold cannotDefer at defers
    generalize inst.state_flags = state at defers not_pending ⊢
    cases state <;> revert defers not_pending <;> decide
  rw [newSet, if_neg not_pending, if_neg sets]

theorem newSet_of_defer {inst : InstructionX64} (defers : ¬inst.cannotDefer)
    (not_pend : inst.newSet.getLsbD 7 = false) : inst.newSet = 0 := by
  apply newSet_of_not_pending defers
  intro pending
  rw [newSet, if_pos pending] at not_pend
  exact absurd ((getLsbD_or_iff _ _ 7).mpr (.inr ((getLsbD_X_PEND 7).mpr rfl))) (by rw [not_pend]; decide)

theorem getLsbD_exitNeed (inst : InstructionX64) (need : BitVec 8) (x : Nat) :
    (inst.exitNeed need).getLsbD x = true ↔ need.getLsbD x = true ∨ (inst.jmp_insts = -1 ∧ x = 7) := by
  unfold exitNeed
  split
  case isTrue exits =>
    rw [getLsbD_or_iff, getLsbD_X_PEND]
    simp [exits]
  case isFalse inside => simp [inside]

end InstructionX64

/-! ### Demands -/

/-- The need for `x` alone. -/
def demandBit (x : Nat) : BitVec 8 := BitVec.twoPow 8 x

theorem getLsbD_demandBit {x : Nat} (small : x < 8) (y : Nat) : (demandBit x).getLsbD y = true ↔ y = x := by
  rw [demandBit, BitVec.getLsbD_twoPow]
  simp [small, eq_comm]

theorem getLsbD_or_demandBit {x : Nat} (small : x < 8) (v : BitVec 8) : (v ||| demandBit x).getLsbD x = true :=
  (getLsbD_or_iff v _ x).mpr (.inr ((getLsbD_demandBit small x).mpr rfl))

theorem or_demandBit {v : BitVec 8} {x : Nat} (has : v.getLsbD x = true) : v ||| demandBit x = v := by
  have small := BitVec.lt_of_getLsbD has
  apply BitVec.eq_of_getLsbD_eq
  intro y _
  rw [Bool.eq_iff_iff, getLsbD_or_iff, getLsbD_demandBit small]
  exact or_iff_left_of_imp fun eq => eq ▸ has

/-- What a freshly reset instruction asks of its predecessors when it hears `need`. -/
def InstructionX64.relays (inst : InstructionX64) (need : BitVec 8) : BitVec 8 :=
  (inst.announce inst.reset need).getD 0

/-- A demand for `x` is carried back to `p`: by a successor that makes it, or that turns one carried to
it into it. -/
inductive Carried (dyn : DynarecNative) : Fin dyn.size → Nat → Prop where
  | own {p s : Fin dyn.size} {x : Nat} (edge : Edge dyn.insts p s)
      (made : ((dyn.insts s).relays 0).getLsbD x = true) : Carried dyn p x
  | on {p s : Fin dyn.size} {x y : Nat} (edge : Edge dyn.insts p s) (carried : Carried dyn s y)
      (made : ((dyn.insts s).relays (demandBit y)).getLsbD x = true) : Carried dyn p x

theorem Carried.lt {dyn : DynarecNative} {p : Fin dyn.size} {x : Nat} (carried : Carried dyn p x) : x < 8 := by
  cases carried with
  | own _ made => exact BitVec.lt_of_getLsbD made
  | on _ _ made => exact BitVec.lt_of_getLsbD made

/-- A demand for flag `f`, or for all flags, is made of `p` or carried to it. -/
def CarriedBack (dyn : DynarecNative) (p : Fin dyn.size) (f : Nat) : Prop :=
  (dyn.insts p).default_need ≠ 0 ∨ Carried dyn p f ∨ Carried dyn p 7

/-- `need` contains `f` or `X_PEND`. -/
def Covers (need : BitVec 8) (f : Nat) : Prop := need.getLsbD f = true ∨ need.getLsbD 7 = true

theorem default_need_bit {inst : InstructionX64} {x : Nat} (has : inst.default_need.getLsbD x = true) : x = 7 := by
  rcases inst.default_need_eq with eq | eq
  · rw [eq] at has
    simp at has
  · rwa [eq, getLsbD_X_PEND] at has

theorem default_need_pend {inst : InstructionX64} (has : inst.default_need ≠ 0) :
    inst.default_need.getLsbD 7 = true := by
  rw [inst.default_need_eq.resolve_left has]
  decide

/-! ### Every demand carried is met -/

/-- The needs when the propagation is over: each takes account of the default, and of what the successors
hand over, unless a successor has nothing to say on its own and has heard nothing new. -/
structure Stable (dyn : DynarecNative) (calculated : dyn.Needs) : Prop where
  closed : ∀ i, (dyn.insts i).Heard (calculated i) 0
  default : ∀ i, (dyn.insts i).Heard (calculated i) (dyn.insts i).default_need
  settled : ∀ s, (∀ p ∈ dyn.pred s, (dyn.insts p).Heard (calculated p)
      ((dyn.insts s).handOver ((dyn.insts s).exitNeed (calculated s).need_flags))) ∨
    (calculated s = (dyn.insts s).reset ∧ (dyn.insts s).announce (dyn.insts s).reset 0 = none)

namespace InstructionX64

theorem announce_eq (inst : InstructionX64) {c : Calculated} {need out : BitVec 8}
    (announced : inst.announce c need = some out) :
    out = inst.handOver (inst.exitNeed (inst.visit c need).need_flags) := by
  unfold announce at announced
  dsimp only at announced
  split at announced
  case isTrue => nomatch announced
  case isFalse => exact (Option.some.inj announced).symm

/-- A set with both `X_CF` and `X_PEND` is not the need of an instruction that cannot defer. -/
def Valid (inst : InstructionX64) (c : Calculated) : Prop :=
  inst.cannotDefer → c.need_flags.getLsbD 7 = true → c.need_flags.getLsbD 0 = false

theorem not_pend_of_cannotDefer {inst : InstructionX64} (defers : inst.cannotDefer) (need : BitVec 8) :
    ¬(inst.rewriteNeed need).getLsbD 7 = true := by
  rw [getLsbD_rewriteNeed, if_pos defers]
  rintro (⟨not_pend, -⟩ | ⟨flag, -⟩)
  · exact not_pend rfl
  · exact absurd flag (by decide)

theorem valid_visit (inst : InstructionX64) (c : Calculated) (need : BitVec 8) : inst.Valid (inst.visit c need) :=
  fun defers pend => absurd pend (not_pend_of_cannotDefer defers _)

theorem valid_reset (inst : InstructionX64) : inst.Valid inst.reset := by
  intro _ _
  rw [← Bool.not_eq_true]
  exact fun has => absurd (default_need_bit has) (by decide)

/-- Where `updateNeed` returns early nothing has changed. -/
theorem visit_of_announce_none {inst : InstructionX64} {c : Calculated} {need : BitVec 8} (valid : inst.Valid c)
    (early : inst.announce c need = none) : inst.visit c need = c := by
  unfold announce at early
  dsimp only at early
  split at early
  case isFalse => nomatch early
  case isTrue same =>
    obtain ⟨same, use⟩ := same
    have need_same : inst.rewriteNeed (c.need_flags ||| need) = c.need_flags := by
      by_cases exits : inst.jmp_insts = -1
      · have pend : c.need_flags.getLsbD 7 = true := by
          rw [← same, getLsbD_exitNeed]
          exact .inr ⟨exits, rfl⟩
        have pend_or : (c.need_flags ||| need).getLsbD 7 = true := (getLsbD_or_iff _ _ _).mpr (.inl pend)
        by_cases defers : inst.cannotDefer
        · -- the rewriting would have added `X_CF`
          have cf : (inst.exitNeed (inst.rewriteNeed (c.need_flags ||| need))).getLsbD 0 = true := by
            rw [getLsbD_exitNeed, getLsbD_rewriteNeed, if_pos defers]
            exact .inl (.inr ⟨by decide, pend_or⟩)
          rw [same, valid defers pend] at cf
          exact absurd cf (by decide)
        · rw [rewriteNeed_of_defer defers] at same ⊢
          apply BitVec.eq_of_getLsbD_eq
          intro x _
          have bits := getLsbD_exitNeed inst (c.need_flags ||| need) x
          rw [same] at bits
          rw [Bool.eq_iff_iff, bits]
          refine (or_iff_left_of_imp ?_).symm
          rintro ⟨-, rfl⟩
          exact pend_or
      · rwa [exitNeed, if_neg exits] at same
    show Calculated.mk _ _ = _
    rw [need_same, use]

end InstructionX64

theorem calculateNeed_stable {dyn : DynarecNative} {fuel : Nat} {calculated : dyn.Needs}
    (run : calculateNeed dyn fuel = some calculated) : Stable dyn calculated := by
  rw [calculateNeed_eq_propagateAll] at run
  have every : ∀ i, i ∈ (List.finRange dyn.size).reverse := fun i => List.mem_reverse.mpr (List.mem_finRange i)
  obtain ⟨closed, settled⟩ := (needFlow dyn).propagateAll_settles
    (fun i => (dyn.insts i).Valid) (fun i => (dyn.insts i).Heard)
    (fun i c => (dyn.insts i).handOver ((dyn.insts i).exitNeed c.need_flags))
    (fun i c need _ => (dyn.insts i).valid_visit c need) (fun i => (dyn.insts i).heard_visit)
    (fun i => (dyn.insts i).heard_mono) (fun i c need out => (dyn.insts i).announce_eq)
    (fun i c need => InstructionX64.visit_of_announce_none) (fun i => (dyn.insts i).valid_reset) run
  have default : ∀ i, (dyn.insts i).rewriteNeed ((calculated i).need_flags ||| (dyn.insts i).default_need) =
      (dyn.insts i).rewriteNeed (calculated i).need_flags := by
    apply (needFlow dyn).propagateAll_invariant
      (P := fun values => ∀ i, (dyn.insts i).rewriteNeed ((values i).need_flags ||| (dyn.insts i).default_need) =
        (dyn.insts i).rewriteNeed (values i).need_flags)
      (Q := fun _ _ => True) _ _ _ (fun _ => trivial) run
    · intro values i need kept _ j
      by_cases eq : j = i
      · subst eq
        rw [Function.update_self]
        show (dyn.insts j).rewriteNeed ((dyn.insts j).rewriteNeed _ ||| _) =
          (dyn.insts j).rewriteNeed ((dyn.insts j).rewriteNeed _)
        rw [InstructionX64.rewriteNeed_or, InstructionX64.rewriteNeed_idem, BitVec.or_assoc, BitVec.or_comm need,
          ← BitVec.or_assoc, ← InstructionX64.rewriteNeed_or, kept j, InstructionX64.rewriteNeed_or]
      · rw [Function.update_of_ne eq]
        exact kept j
    · exact fun _ _ _ _ _ _ _ _ _ => trivial
    · intro i
      show (dyn.insts i).rewriteNeed ((dyn.insts i).default_need ||| _) = _
      rw [BitVec.or_self]
      rfl
  refine ⟨fun i => closed i (every i), fun i => ?_, fun s => settled s (every s)⟩
  have closed_i : (dyn.insts i).rewriteNeed ((calculated i).need_flags ||| 0) = (calculated i).need_flags :=
    closed i (every i)
  rw [show (calculated i).need_flags ||| 0 = _ from BitVec.or_zero] at closed_i
  exact (default i).trans closed_i

/-- The need of `p` takes account of a demand, `X_ALL` standing for `X_PEND` if need be. -/
def Met {dyn : DynarecNative} (calculated : dyn.Needs) (p : Fin dyn.size) (x : Nat) : Prop :=
  (dyn.insts p).Heard (calculated p) (demandBit x) ∨
    (x = 7 ∧ ∀ f < 6, (dyn.insts p).Heard (calculated p) (demandBit f))

theorem met_of_grants {dyn : DynarecNative} {calculated : dyn.Needs} {p : Fin dyn.size} {asked : BitVec 8} {x : Nat}
    (heard : (dyn.insts p).Heard (calculated p) asked) (grants : Grants asked x) : Met calculated p x := by
  rcases grants with has | ⟨eq, all⟩
  · exact .inl (InstructionX64.heard_of_sub heard (or_demandBit has))
  · exact .inr ⟨eq, fun f flag => InstructionX64.heard_of_sub heard (or_demandBit (all f flag))⟩

namespace InstructionX64

theorem kept_exitNeed_mono {inst : InstructionX64} {v w : BitVec 8}
    (sub : ∀ x, v.getLsbD x = true → w.getLsbD x = true) {x : Nat}
    (has : (inst.kept (inst.exitNeed v)).getLsbD x = true) : (inst.kept (inst.exitNeed w)).getLsbD x = true := by
  have here := sub x
  rw [getLsbD_kept, getLsbD_exitNeed] at has ⊢
  tauto

theorem relays_eq {inst : InstructionX64} {need : BitVec 8} {x : Nat} (has : (inst.relays need).getLsbD x = true) :
    inst.announce inst.reset need ≠ none ∧
      (inst.handOver (inst.exitNeed (inst.rewriteNeed (inst.default_need ||| need)))).getLsbD x = true := by
  unfold relays at has
  cases announced : inst.announce inst.reset need with
  | none =>
    rw [announced] at has
    simp at has
  | some out =>
    rw [announced] at has
    refine ⟨Option.some_ne_none out, ?_⟩
    have := inst.announce_eq announced
    rwa [Option.getD_some, this] at has

/-- What is heard already makes no difference to an instruction that is still as it was reset. -/
theorem announce_reset_of_heard {inst : InstructionX64} {need : BitVec 8} (closed : inst.Heard inst.reset 0)
    (heard : inst.Heard inst.reset need) : inst.announce inst.reset need = inst.announce inst.reset 0 := by
  have same : inst.rewriteNeed (inst.reset.need_flags ||| need) =
      inst.rewriteNeed (inst.reset.need_flags ||| 0) := Eq.trans heard closed.symm
  unfold announce
  rw [same]

end InstructionX64

theorem InstructionX64.flag_of_heard {inst : InstructionX64} {c : Calculated} {f : Nat} (flag : f < 6)
    (heard : inst.Heard c (demandBit f)) : c.need_flags.getLsbD f = true := by
  apply sub_of_heard heard
  have has := (getLsbD_demandBit (by omega) f).mpr rfl
  rw [getLsbD_rewriteNeed]
  split
  · exact .inl ⟨by omega, has⟩
  · exact has

/-- For an instruction that cannot defer, `X_ALL` is as good as `X_PEND`. -/
theorem InstructionX64.heard_pend_of_all {inst : InstructionX64} {c : Calculated} (defers : inst.cannotDefer)
    (closed : inst.Heard c 0) (all : ∀ f < 6, inst.Heard c (demandBit f)) : inst.Heard c (demandBit 7) := by
  have no_pend : ¬c.need_flags.getLsbD 7 = true := by
    rw [← show inst.rewriteNeed (c.need_flags ||| 0) = c.need_flags from closed]
    exact not_pend_of_cannotDefer defers _
  apply BitVec.eq_of_getLsbD_eq
  intro x small
  rw [Bool.eq_iff_iff, getLsbD_rewriteNeed, if_pos defers, getLsbD_or_iff, getLsbD_or_iff,
    getLsbD_demandBit (by decide), getLsbD_demandBit (by decide)]
  constructor
  · rintro (⟨not_pend, has | eq⟩ | ⟨flag, -⟩)
    · exact has
    · exact absurd eq not_pend
    · exact flag_of_heard flag (all x flag)
  · intro has
    exact .inl ⟨(fun eq => no_pend (eq ▸ has)), .inl has⟩

/-- The default need with one demand added, of an instruction that defers its flags, is kept either by
what it uses, or because it takes nothing off. -/
theorem InstructionX64.kept_pend_of_defer {inst : InstructionX64} (defers : ¬inst.cannotDefer) {z : Nat}
    (has : (inst.kept (inst.exitNeed (inst.rewriteNeed (inst.default_need ||| demandBit 7)))).getLsbD z = true) :
    inst.use_flags.getLsbD z = true ∨ (z = 7 ∧ inst.newSet = 0) := by
  rw [getLsbD_kept, rewriteNeed_of_defer defers, getLsbD_exitNeed, getLsbD_or_iff, getLsbD_demandBit (by decide)]
    at has
  rcases has with ⟨from_need, not_set⟩ | used
  · have eq : z = 7 := by
      rcases from_need with (default | demanded) | ⟨-, exits⟩
      · exact default_need_bit default
      · exact demanded
      · exact exits
    exact .inr ⟨eq, newSet_of_defer defers (eq ▸ not_set)⟩
  · exact .inl used

theorem Stable.met {dyn : DynarecNative} {calculated : dyn.Needs} (stable : Stable dyn calculated)
    {p : Fin dyn.size} {x : Nat} (carried : Carried dyn p x) : Met calculated p x := by
  induction carried with
  | @own p s x edge made =>
    obtain ⟨speaks, asked⟩ := InstructionX64.relays_eq made
    rcases stable.settled s with settled | ⟨-, mute⟩
    · apply met_of_grants (settled p ((dyn.pred_exact p s).mpr edge))
      refine InstructionX64.handOver_mono (fun z has => .inl ?_) asked
      refine InstructionX64.kept_exitNeed_mono (fun z has => ?_) has
      rw [show (dyn.insts s).default_need ||| 0 = _ from BitVec.or_zero] at has
      exact InstructionX64.sub_of_heard (stable.default s) has
    · exact absurd mute speaks
  | @on p s x y edge _ made met =>
    obtain ⟨speaks, asked⟩ := InstructionX64.relays_eq made
    rcases stable.settled s with settled | ⟨same, mute⟩
    · apply met_of_grants (settled p ((dyn.pred_exact p s).mpr edge))
      refine InstructionX64.handOver_mono (fun z has => ?_) asked
      have of_heard (heard : (dyn.insts s).Heard (calculated s) (demandBit y)) :
          Grants ((dyn.insts s).kept ((dyn.insts s).exitNeed (calculated s).need_flags)) z := by
        refine .inl (InstructionX64.kept_exitNeed_mono (fun z has => ?_) has)
        apply InstructionX64.sub_of_heard _ has
        show (dyn.insts s).rewriteNeed _ = _
        rw [← BitVec.or_assoc, ← InstructionX64.rewriteNeed_or, stable.default s]
        exact heard
      rcases met with heard | ⟨rfl, all⟩
      · exact of_heard heard
      by_cases defers : (dyn.insts s).cannotDefer
      · exact of_heard (InstructionX64.heard_pend_of_all defers (stable.closed s) all)
      rcases InstructionX64.kept_pend_of_defer defers has with used | ⟨eq, nothing⟩
      · exact .inl ((InstructionX64.getLsbD_kept _ _ z).mpr (.inr used))
      · refine .inr ⟨eq, fun f flag => (InstructionX64.getLsbD_kept _ _ f).mpr (.inl ⟨?_, ?_⟩)⟩
        · exact (InstructionX64.getLsbD_exitNeed _ _ f).mpr (.inl (InstructionX64.flag_of_heard flag (all f flag)))
        · rw [nothing]
          exact BitVec.getLsbD_zero
    · -- the instruction has heard nothing new, so it says nothing on the demand either
      have closed := stable.closed s
      rw [same] at closed
      rcases met with heard | ⟨-, all⟩
      · rw [same] at heard
        exact absurd ((InstructionX64.announce_reset_of_heard closed heard).trans mute) speaks
      · have cf := InstructionX64.flag_of_heard (by decide) (all 0 (by decide))
        rw [same] at cf
        exact absurd (default_need_bit cf) (by decide)

theorem Stable.covers {dyn : DynarecNative} {calculated : dyn.Needs} (stable : Stable dyn calculated)
    {p : Fin dyn.size} {f : Nat} (flag : f < 6) (demanded : CarriedBack dyn p f) :
    Covers (calculated p).need_flags f := by
  have of_heard_pend (asked : BitVec 8) (has : asked.getLsbD 7 = true)
      (heard : (dyn.insts p).Heard (calculated p) asked) : Covers (calculated p).need_flags f := by
    by_cases defers : (dyn.insts p).cannotDefer
    · refine .inl (InstructionX64.sub_of_heard heard ?_)
      rw [InstructionX64.getLsbD_rewriteNeed, if_pos defers]
      exact .inr ⟨flag, has⟩
    · refine .inr (InstructionX64.sub_of_heard heard ?_)
      rwa [InstructionX64.rewriteNeed_of_defer defers]
  rcases demanded with default | carried | carried
  · exact of_heard_pend _ (default_need_pend default) (stable.default p)
  · rcases stable.met carried with heard | ⟨eq, -⟩
    · exact .inl (InstructionX64.flag_of_heard flag heard)
    · omega
  · rcases stable.met carried with heard | ⟨-, all⟩
    · exact of_heard_pend _ ((getLsbD_demandBit (by decide) 7).mpr rfl) heard
    · exact .inl (InstructionX64.flag_of_heard flag (all f flag))

end Box64.Dynarec
