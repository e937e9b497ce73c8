import Box64.Dynarec.FlagDemand

/-!
# The calculated needs are the demands carried

The needs contain nothing but the demands that `Carried` follows (`covers_iff_carriedBack`).
-/

namespace Box64.Dynarec

open Propagation

/-! ### Nothing else is needed -/

/-- `x` is demanded of `i`, `X_ALL` standing for `X_PEND` if need be. -/
def Wanted (dyn : DynarecNative) (i : Fin dyn.size) (x : Nat) : Prop :=
  Carried dyn i x ∨ (x = 7 ∧ ∀ f < 6, Carried dyn i f)

/-- What an instruction may hear first: nothing, or a demand carried to it. -/
def Hears (dyn : DynarecNative) (i : Fin dyn.size) (need : BitVec 8) : Prop :=
  need = 0 ∨ ∃ y, Carried dyn i y ∧ need = demandBit y

/-- On some of these the freshly reset instruction does not return early. -/
def Speaks (dyn : DynarecNative) (i : Fin dyn.size) (need : BitVec 8) : Prop :=
  Hears dyn i need ∧ (dyn.insts i).announce (dyn.insts i).reset need ≠ none

/-- Every bit of the need of `i` comes from the default or from a demand. -/
structure Justified (dyn : DynarecNative) (i : Fin dyn.size) (c : Calculated) : Prop where
  flag : ∀ x, x ≠ 7 → c.need_flags.getLsbD x = true →
    ∃ need, Hears dyn i need ∧ ((dyn.insts i).rewriteNeed ((dyn.insts i).default_need ||| need)).getLsbD x = true
  pend : c.need_flags.getLsbD 7 = true → (dyn.insts i).default_need ≠ 0 ∨ Wanted dyn i 7
  use : c.old_use = 0 ∨ c.old_use = (dyn.insts i).use_flags
  speaks : c.need_flags ≠ (dyn.insts i).default_need → ∃ need, Speaks dyn i need

theorem Carried.of_wanted {dyn : DynarecNative} {i : Fin dyn.size} {x : Nat} (wanted : Wanted dyn i x)
    (not_pend : x ≠ 7) : Carried dyn i x :=
  wanted.resolve_right fun h => not_pend h.1

theorem Hears.none {dyn : DynarecNative} {i : Fin dyn.size} : Hears dyn i 0 := .inl rfl

theorem Hears.carried {dyn : DynarecNative} {i : Fin dyn.size} {y : Nat} (carried : Carried dyn i y) :
    Hears dyn i (demandBit y) := .inr ⟨y, carried, rfl⟩

namespace InstructionX64

theorem announce_of_ne {inst : InstructionX64} {c : Calculated} {need : BitVec 8}
    (differs : inst.exitNeed (inst.rewriteNeed (c.need_flags ||| need)) ≠ c.need_flags) :
    inst.announce c need ≠ none := by
  unfold announce
  dsimp only
  rw [if_neg (fun h => differs h.1)]
  exact Option.some_ne_none _

/-- A flag that the rewritten need has makes a reset instruction speak: no default has a flag. -/
theorem announce_of_flag {inst : InstructionX64} {need : BitVec 8} {x : Nat} (not_pend : x ≠ 7)
    (has : (inst.rewriteNeed (inst.default_need ||| need)).getLsbD x = true) :
    inst.announce inst.reset need ≠ none := by
  apply announce_of_ne
  intro same
  apply not_pend
  refine @default_need_bit inst x ?_
  rw [← show inst.exitNeed (inst.rewriteNeed (inst.default_need ||| need)) = inst.default_need from same,
    getLsbD_exitNeed]
  exact .inl has

theorem getLsbD_rewriteNeed_demand (inst : InstructionX64) {x : Nat} (small : x < 8) (not_pend : x ≠ 7) :
    (inst.rewriteNeed (inst.default_need ||| demandBit x)).getLsbD x = true := by
  have has := getLsbD_or_demandBit small inst.default_need
  rw [getLsbD_rewriteNeed]
  split
  · exact .inl ⟨not_pend, has⟩
  · exact has

theorem getLsbD_rewriteNeed_pend {inst : InstructionX64} (defers : inst.cannotDefer) {need : BitVec 8} {f : Nat}
    (flag : f < 6) (pend : need.getLsbD 7 = true) : (inst.rewriteNeed need).getLsbD f = true := by
  rw [getLsbD_rewriteNeed, if_pos defers]
  exact .inr ⟨flag, pend⟩

theorem getLsbD_rewriteNeed_demand_pend {inst : InstructionX64} (defers : ¬inst.cannotDefer) :
    (inst.rewriteNeed (inst.default_need ||| demandBit 7)).getLsbD 7 = true := by
  rw [rewriteNeed_of_defer defers]
  exact getLsbD_or_demandBit (by decide) _

end InstructionX64

/-- Asked for `X_PEND`, an instruction that defers its flags speaks unless it has the default for it. -/
theorem speaks_of_pend {dyn : DynarecNative} {i : Fin dyn.size} (defers : ¬(dyn.insts i).cannotDefer)
    (default : (dyn.insts i).default_need = 0) (carried : Carried dyn i 7) : Speaks dyn i (demandBit 7) := by
  have has := InstructionX64.getLsbD_rewriteNeed_demand_pend defers
  refine ⟨.carried carried, InstructionX64.announce_of_ne ?_⟩
  rw [show (dyn.insts i).reset.need_flags = 0 from default]
  rw [default] at has
  exact ne_zero_of_bit ((InstructionX64.getLsbD_exitNeed _ _ 7).mpr (.inl has))

theorem justified_reset (dyn : DynarecNative) (i : Fin dyn.size) : Justified dyn i (dyn.insts i).reset where
  flag _ not_pend has := absurd (default_need_bit has) not_pend
  pend has := .inl (ne_zero_of_bit has)
  use := .inl rfl
  speaks differs := absurd rfl differs

section Visit

variable {dyn : DynarecNative} {i : Fin dyn.size} {c : Calculated} {need : BitVec 8}

/-- Where `X_PEND` is wanted of an instruction that cannot defer, each flag is. -/
theorem hears_of_pend (defers : (dyn.insts i).cannotDefer) {f : Nat} (flag : f < 6)
    (pend : (dyn.insts i).default_need ≠ 0 ∨ Wanted dyn i 7) :
    ∃ need, Hears dyn i need ∧
      ((dyn.insts i).rewriteNeed ((dyn.insts i).default_need ||| need)).getLsbD f = true := by
  rcases pend with default | carried | ⟨-, all⟩
  · refine ⟨0, .none, InstructionX64.getLsbD_rewriteNeed_pend defers flag ?_⟩
    exact (getLsbD_or_iff _ _ 7).mpr (.inl (default_need_pend default))
  · refine ⟨_, .carried carried, InstructionX64.getLsbD_rewriteNeed_pend defers flag ?_⟩
    exact getLsbD_or_demandBit (by decide) _
  · exact ⟨_, .carried (all f flag), InstructionX64.getLsbD_rewriteNeed_demand _ (by omega) (by omega)⟩

theorem hears_of_visit (justified : Justified dyn i c) (wanted : ∀ x, need.getLsbD x = true → Wanted dyn i x)
    {x : Nat} (not_pend : x ≠ 7) (has : ((dyn.insts i).visit c need).need_flags.getLsbD x = true) :
    ∃ need, Hears dyn i need ∧
      ((dyn.insts i).rewriteNeed ((dyn.insts i).default_need ||| need)).getLsbD x = true := by
  have of_or : (c.need_flags ||| need).getLsbD x = true → ∃ need, Hears dyn i need ∧
      ((dyn.insts i).rewriteNeed ((dyn.insts i).default_need ||| need)).getLsbD x = true := by
    intro has
    rcases (getLsbD_or_iff _ _ x).mp has with old | new
    · exact justified.flag x not_pend old
    · have carried := Carried.of_wanted (wanted x new) not_pend
      exact ⟨_, .carried carried, InstructionX64.getLsbD_rewriteNeed_demand _ carried.lt not_pend⟩
  have bits := ((dyn.insts i).getLsbD_rewriteNeed (c.need_flags ||| need) x).mp has
  by_cases defers : (dyn.insts i).cannotDefer
  · rw [if_pos defers] at bits
    rcases bits with ⟨-, has⟩ | ⟨flag, pend⟩
    · exact of_or has
    · apply hears_of_pend defers flag
      rcases (getLsbD_or_iff _ _ 7).mp pend with old | new
      · exact justified.pend old
      · exact .inr (wanted 7 new)
  · rw [if_neg defers] at bits
    exact of_or bits

/-- An instruction whose need has changed was made to speak. -/
theorem speaks_of_visit (justified : Justified dyn i c) (wanted : ∀ x, need.getLsbD x = true → Wanted dyn i x)
    (differs : ((dyn.insts i).visit c need).need_flags ≠ (dyn.insts i).default_need) :
    ∃ need, Speaks dyn i need := by
  by_cases flags : ∃ x, x ≠ 7 ∧ ((dyn.insts i).visit c need).need_flags.getLsbD x = true
  · obtain ⟨x, not_pend, has⟩ := flags
    obtain ⟨need', hears, made⟩ := hears_of_visit justified wanted not_pend has
    exact ⟨need', hears, InstructionX64.announce_of_flag not_pend made⟩
  by_cases old : c.need_flags = (dyn.insts i).default_need
  case neg => exact justified.speaks old
  -- only `X_PEND` is needed, and it was not by default
  have only : ∀ x, ((dyn.insts i).visit c need).need_flags.getLsbD x = true → x = 7 := fun x has =>
    Classical.byContradiction fun not_pend => flags ⟨x, not_pend, has⟩
  have need_eq : ((dyn.insts i).visit c need).need_flags =
      (dyn.insts i).rewriteNeed ((dyn.insts i).default_need ||| need) := by rw [← old]; rfl
  have defers : ¬(dyn.insts i).cannotDefer := by
    intro defers
    by_cases pend : ((dyn.insts i).default_need ||| need).getLsbD 7 = true
    · have cf := InstructionX64.getLsbD_rewriteNeed_pend defers (show 0 < 6 by decide) pend
      rw [← need_eq] at cf
      exact absurd (only 0 cf) (by decide)
    · rw [InstructionX64.rewriteNeed_eq, if_neg (fun h => pend h.2)] at need_eq
      have empty : ((dyn.insts i).visit c need).need_flags = 0 := by
        by_contra nonzero
        obtain ⟨x, has⟩ := exists_bit_of_ne_zero nonzero
        obtain rfl := only x has
        exact pend (need_eq ▸ has)
      apply differs
      rw [empty]
      by_contra default
      exact pend ((getLsbD_or_iff _ _ 7).mpr (.inl (default_need_pend (Ne.symm default))))
  rw [InstructionX64.rewriteNeed_of_defer defers] at need_eq
  have pend : ((dyn.insts i).visit c need).need_flags.getLsbD 7 = true := by
    by_contra no_pend
    apply differs
    apply BitVec.eq_of_getLsbD_eq
    intro x _
    rw [Bool.eq_iff_iff]
    refine ⟨fun has => absurd (only x has ▸ has) no_pend, fun has => ?_⟩
    rw [need_eq]
    exact (getLsbD_or_iff _ _ x).mpr (.inl has)
  have no_default : (dyn.insts i).default_need = 0 := by
    refine (dyn.insts i).default_need_eq.resolve_right fun default => differs ?_
    apply BitVec.eq_of_getLsbD_eq
    intro x _
    rw [Bool.eq_iff_iff, default, getLsbD_X_PEND]
    exact ⟨only x, fun eq => eq ▸ pend⟩
  rw [need_eq, no_default, show (0 : BitVec 8) ||| need = need from BitVec.zero_or] at pend
  rcases wanted 7 pend with carried | ⟨-, all⟩
  · exact ⟨_, speaks_of_pend defers no_default carried⟩
  · refine ⟨_, .carried (all 0 (by decide)), InstructionX64.announce_of_flag (x := 0) (by decide) ?_⟩
    exact InstructionX64.getLsbD_rewriteNeed_demand _ (by decide) (by decide)

/-- The need of an instruction stays justified when it hears what is wanted of it. -/
theorem Justified.visit (justified : Justified dyn i c) (wanted : ∀ x, need.getLsbD x = true → Wanted dyn i x) :
    Justified dyn i ((dyn.insts i).visit c need) where
  flag x not_pend has := hears_of_visit justified wanted not_pend has
  pend has := by
    have bits := ((dyn.insts i).getLsbD_rewriteNeed (c.need_flags ||| need) 7).mp has
    have pend : (c.need_flags ||| need).getLsbD 7 = true := by
      split at bits
      · tauto
      · exact bits
    rcases (getLsbD_or_iff _ _ 7).mp pend with old | new
    · exact justified.pend old
    · exact .inr (wanted 7 new)
  use := .inr rfl
  speaks := speaks_of_visit justified wanted

/-! ### What a justified instruction hands over is wanted -/

/-- `x` is kept by the reset instruction on something that makes it speak. -/
def KeepsOn (dyn : DynarecNative) (i : Fin dyn.size) (x : Nat) : Prop :=
  ∃ need, Speaks dyn i need ∧ ((dyn.insts i).kept ((dyn.insts i).exitNeed
    ((dyn.insts i).rewriteNeed ((dyn.insts i).default_need ||| need)))).getLsbD x = true

theorem KeepsOn.of_need {x : Nat} (speaks : Speaks dyn i need)
    (has : ((dyn.insts i).rewriteNeed ((dyn.insts i).default_need ||| need)).getLsbD x = true)
    (not_set : (dyn.insts i).newSet.getLsbD x = false) : KeepsOn dyn i x := by
  refine ⟨need, speaks, (InstructionX64.getLsbD_kept _ _ x).mpr (.inl ⟨?_, not_set⟩)⟩
  exact (InstructionX64.getLsbD_exitNeed _ _ x).mpr (.inl has)

theorem keepsOn_of_flag {x : Nat} (not_pend : x ≠ 7) (hears : Hears dyn i need)
    (has : ((dyn.insts i).rewriteNeed ((dyn.insts i).default_need ||| need)).getLsbD x = true)
    (not_set : (dyn.insts i).newSet.getLsbD x = false) : KeepsOn dyn i x :=
  .of_need ⟨hears, InstructionX64.announce_of_flag not_pend has⟩ has not_set

/-- A deferring instruction that keeps `X_PEND` keeps what is wanted of it. -/
theorem keepsOn_of_pend (defers : ¬(dyn.insts i).cannotDefer) (speaks : ∃ need, Speaks dyn i need)
    (not_set : (dyn.insts i).newSet.getLsbD 7 = false)
    (pend : (dyn.insts i).default_need ≠ 0 ∨ Wanted dyn i 7) :
    KeepsOn dyn i 7 ∨ ∀ f < 6, KeepsOn dyn i f := by
  have by_default (default : (dyn.insts i).default_need ≠ 0) : KeepsOn dyn i 7 := by
    obtain ⟨need, speaks⟩ := speaks
    apply KeepsOn.of_need speaks _ not_set
    rw [InstructionX64.rewriteNeed_of_defer defers]
    exact (getLsbD_or_iff _ _ 7).mpr (.inl (default_need_pend default))
  rcases pend with default | carried | ⟨-, all⟩
  · exact .inl (by_default default)
  · by_cases default : (dyn.insts i).default_need = 0
    case neg => exact .inl (by_default default)
    have has := InstructionX64.getLsbD_rewriteNeed_demand_pend defers
    exact .inl (.of_need (speaks_of_pend defers default carried) has not_set)
  · refine .inr fun f flag => keepsOn_of_flag (by omega) (.carried (all f flag)) ?_ ?_
    · exact InstructionX64.getLsbD_rewriteNeed_demand _ (by omega) (by omega)
    · rw [InstructionX64.newSet_of_defer defers not_set]
      exact BitVec.getLsbD_zero

theorem keepsOn_of_kept (justified : Justified dyn i ((dyn.insts i).visit c need))
    (speaks : ∃ need, Speaks dyn i need) {x : Nat}
    (has : ((dyn.insts i).kept ((dyn.insts i).exitNeed ((dyn.insts i).visit c need).need_flags)).getLsbD x = true) :
    KeepsOn dyn i x ∨ (x = 7 ∧ ∀ f < 6, KeepsOn dyn i f) := by
  obtain ⟨need', speaks'⟩ := speaks
  have of_kept {v : BitVec 8} (kept : (v.getLsbD x = true ∧ (dyn.insts i).newSet.getLsbD x = false) ∨
      (dyn.insts i).use_flags.getLsbD x = true) : ((dyn.insts i).kept v).getLsbD x = true :=
    (InstructionX64.getLsbD_kept _ v x).mpr kept
  rcases (InstructionX64.getLsbD_kept _ _ x).mp has with ⟨asked, not_set⟩ | used
  case inr => exact .inl ⟨need', speaks', of_kept (.inr used)⟩
  rcases (InstructionX64.getLsbD_exitNeed _ _ x).mp asked with needed | exits
  case inr =>
    exact .inl ⟨need', speaks', of_kept (.inl ⟨(InstructionX64.getLsbD_exitNeed _ _ x).mpr (.inr exits), not_set⟩)⟩
  by_cases eq : x = 7
  · subst eq
    have defers : ¬(dyn.insts i).cannotDefer := fun defers => InstructionX64.not_pend_of_cannotDefer defers _ needed
    rcases keepsOn_of_pend defers ⟨need', speaks'⟩ not_set (justified.pend needed) with keeps | all
    · exact .inl keeps
    · exact .inr ⟨rfl, all⟩
  · obtain ⟨need'', hears, made⟩ := justified.flag x eq needed
    exact .inl (keepsOn_of_flag eq hears made not_set)

theorem Carried.of_relays {p : Fin dyn.size} (edge : Edge dyn.insts p i) (hears : Hears dyn i need) {x : Nat}
    (made : ((dyn.insts i).relays need).getLsbD x = true) : Carried dyn p x := by
  rcases hears with rfl | ⟨y, carried, rfl⟩
  · exact .own edge made
  · exact .on edge carried made

theorem relays_of_speaks (speaks : Speaks dyn i need) :
    (dyn.insts i).relays need = (dyn.insts i).handOver ((dyn.insts i).exitNeed
      ((dyn.insts i).rewriteNeed ((dyn.insts i).default_need ||| need))) := by
  obtain ⟨out, announced⟩ := Option.ne_none_iff_exists'.mp speaks.2
  have out_eq := (dyn.insts i).announce_eq announced
  rw [show (dyn.insts i).relays need = out by rw [InstructionX64.relays, announced, Option.getD_some], out_eq]
  rfl

theorem KeepsOn.carried {p : Fin dyn.size} (edge : Edge dyn.insts p i) {x : Nat} (keeps : KeepsOn dyn i x)
    (barrier : (dyn.insts i).isBarrier) : Carried dyn p 7 := by
  obtain ⟨need, speaks, has⟩ := keeps
  apply Carried.of_relays edge speaks.1
  rw [relays_of_speaks speaks, InstructionX64.handOver_of_barrier barrier]
  exact ⟨rfl, ne_zero_of_bit has⟩

theorem KeepsOn.wanted {p : Fin dyn.size} (edge : Edge dyn.insts p i) {x : Nat} (keeps : KeepsOn dyn i x)
    (no_barrier : ¬(dyn.insts i).isBarrier) : Wanted dyn p x := by
  obtain ⟨need, speaks, has⟩ := keeps
  have grants := InstructionX64.handOver_grants no_barrier has
  rw [← relays_of_speaks speaks] at grants
  rcases grants with made | ⟨eq, all⟩
  · exact .inl (.of_relays edge speaks.1 made)
  · exact .inr ⟨eq, fun f flag => .of_relays edge speaks.1 (all f flag)⟩

/-- Whenever `updateNeed` does not return early, the reset instruction would have spoken as well. -/
theorem speaks_of_announced (justified : Justified dyn i c)
    (wanted : ∀ x, need.getLsbD x = true → Wanted dyn i x) {out : BitVec 8}
    (announced : (dyn.insts i).announce c need = some out) : ∃ need, Speaks dyn i need := by
  by_cases visited : ((dyn.insts i).visit c need).need_flags = (dyn.insts i).default_need
  case neg => exact speaks_of_visit justified wanted visited
  by_cases before : c.need_flags = (dyn.insts i).default_need
  case neg => exact justified.speaks before
  -- nothing has changed since the reset, so nothing but what it heard then
  have closed : (dyn.insts i).rewriteNeed (dyn.insts i).default_need = (dyn.insts i).default_need := by
    have idem := (dyn.insts i).rewriteNeed_idem (c.need_flags ||| need)
    rwa [show (dyn.insts i).rewriteNeed (c.need_flags ||| need) = (dyn.insts i).default_need from visited] at idem
  refine ⟨0, .none, fun early => ?_⟩
  unfold InstructionX64.announce at announced early
  dsimp only at announced early
  rw [show (dyn.insts i).reset.need_flags ||| 0 = _ from BitVec.or_zero,
    show (dyn.insts i).reset.need_flags = (dyn.insts i).default_need from rfl, closed] at early
  rw [show (dyn.insts i).rewriteNeed (c.need_flags ||| need) = (dyn.insts i).default_need from visited, before]
    at announced
  split at early
  case isFalse => nomatch early
  case isTrue same =>
    obtain ⟨need_same, use_same⟩ := same
    have old_use : (dyn.insts i).use_flags = c.old_use := by
      rcases justified.use with eq | eq
      · exact use_same.trans eq.symm
      · exact eq.symm
    rw [if_pos ⟨need_same, old_use⟩] at announced
    nomatch announced

theorem Justified.announced (justified : Justified dyn i c)
    (wanted : ∀ x, need.getLsbD x = true → Wanted dyn i x) {out : BitVec 8} {p : Fin dyn.size}
    (announced : (dyn.insts i).announce c need = some out) (edge : Edge dyn.insts p i) :
    ∀ x, out.getLsbD x = true → Wanted dyn p x := by
  have visited := justified.visit wanted
  have speaks := speaks_of_announced justified wanted announced
  intro x has
  rw [InstructionX64.announce_eq _ announced] at has
  by_cases barrier : (dyn.insts i).isBarrier
  · obtain ⟨rfl, nonzero⟩ := (InstructionX64.handOver_of_barrier barrier).mp has
    obtain ⟨z, kept⟩ := exists_bit_of_ne_zero nonzero
    have keeps : ∃ z, KeepsOn dyn i z := by
      rcases keepsOn_of_kept visited speaks kept with keeps | ⟨-, all⟩
      · exact ⟨z, keeps⟩
      · exact ⟨0, all 0 (by decide)⟩
    obtain ⟨z, keeps⟩ := keeps
    exact .inl (keeps.carried edge barrier)
  · rcases keepsOn_of_kept visited speaks (InstructionX64.kept_of_handOver barrier has) with keeps | ⟨eq, all⟩
    · exact keeps.wanted edge barrier
    · exact .inr ⟨eq, fun f flag => .of_wanted ((all f flag).wanted edge barrier) (by omega)⟩

end Visit

theorem calculateNeed_justified {dyn : DynarecNative} {fuel : Nat} {calculated : dyn.Needs}
    (run : calculateNeed dyn fuel = some calculated) (i : Fin dyn.size) : Justified dyn i (calculated i) := by
  rw [calculateNeed_eq_propagateAll] at run
  revert i
  apply (needFlow dyn).propagateAll_invariant (P := fun values => ∀ i, Justified dyn i (values i))
    (Q := fun i need => ∀ x, need.getLsbD x = true → Wanted dyn i x) _ _ (justified_reset dyn) _ run
  · intro values i need justified wanted
    rw [Function.forall_update_iff values (Justified dyn)]
    exact ⟨(justified i).visit wanted, fun j _ => justified j⟩
  · intro values i need out p justified wanted announced pred
    exact (justified i).announced wanted announced ((dyn.pred_exact p i).mp pred)
  · intro i x has
    simp at has

theorem Justified.carriedBack {dyn : DynarecNative} {p : Fin dyn.size} {c : Calculated} (justified : Justified dyn p c)
    {f : Nat} (flag : f < 6) (covers : Covers c.need_flags f) : CarriedBack dyn p f := by
  have of_default {need : BitVec 8} (has : ((dyn.insts p).rewriteNeed need).getLsbD f = true) :
      need.getLsbD f = true ∨ need.getLsbD 7 = true := by
    rw [InstructionX64.getLsbD_rewriteNeed] at has
    split at has <;> tauto
  rcases covers with has | pend
  · obtain ⟨need, hears, made⟩ := justified.flag f (by omega) has
    have source : need.getLsbD f = true ∨ need.getLsbD 7 = true ∨ (dyn.insts p).default_need ≠ 0 := by
      rcases of_default made with has | has
      · rcases (getLsbD_or_iff _ _ f).mp has with default | asked
        · exact .inr (.inr (ne_zero_of_bit default))
        · exact .inl asked
      · rcases (getLsbD_or_iff _ _ 7).mp has with default | asked
        · exact .inr (.inr (ne_zero_of_bit default))
        · exact .inr (.inl asked)
    rcases hears with rfl | ⟨y, carried, rfl⟩
    · exact .inl (source.resolve_left (by simp) |>.resolve_left (by simp))
    · rcases source with has | has | default
      · obtain rfl := (getLsbD_demandBit carried.lt f).mp has
        exact .inr (.inl carried)
      · obtain rfl := (getLsbD_demandBit carried.lt 7).mp has
        exact .inr (.inr carried)
      · exact .inl default
  · rcases justified.pend pend with default | carried | ⟨-, all⟩
    · exact .inl default
    · exact .inr (.inr carried)
    · exact .inr (.inl (all f flag))

/-- The analysis calculates the demands that are carried, and no others. -/
theorem covers_iff_carriedBack {dyn : DynarecNative} {fuel : Nat} {calculated : dyn.Needs}
    (run : calculateNeed dyn fuel = some calculated) (p : Fin dyn.size) {f : Nat} (flag : f < 6) :
    Covers (calculated p).need_flags f ↔ CarriedBack dyn p f :=
  ⟨(calculateNeed_justified run p).carriedBack flag, (calculateNeed_stable run).covers flag⟩

end Box64.Dynarec
