import Box64.Dynarec.FlagSound
import Mathlib.Data.Fin.VecNotation

/-!
# Which flags that are read later are demanded

`Asks` says from the bits of the instructions alone what each of them asks of those in front of it. The
needs are what these rules ask for (`covers_iff_demanded`), so they are sound if and only if every flag that
is read later is asked for in this way (`needSound_iff`). An instruction with a pending operation that does
not write all the flags is where a demand gets lost; without such instructions none does
(`needSound_of_transparent`).
-/

namespace Box64.Dynarec

open Propagation

/-! ### The rules -/

namespace InstructionX64

/-- The instruction takes bit `x` off a need: it sets the flag, or it leaves a pending operation for all of them. -/
def Clears (inst : InstructionX64) (x : Nat) : Prop :=
  inst.state_flags.setsFlags ∧ inst.set_flags.getLsbD x = true ∨ inst.state_flags.isPending ∧ x = 7

/-- A demand for `z` leaves the instruction as one for `x`: at a flag barrier any demand becomes `X_PEND`. -/
def Passes (inst : InstructionX64) (z x : Nat) : Prop := if inst.isBarrier then x = 7 else x = z

end InstructionX64

/-- The instruction `s` has a need for bit `x` in front of it, a flag or `X_PEND`. -/
inductive Asks (dyn : DynarecNative) : Fin dyn.size → Nat → Prop where
  | use {s : Fin dyn.size} {x : Nat} (used : (dyn.insts s).use_flags.getLsbD x = true) : Asks dyn s x
  -- the block is left: all the flags may be read
  | exit {s : Fin dyn.size} (exits : (dyn.insts s).jmp_insts = -1)
      (changes : (dyn.insts s).cannotDefer ∨ (dyn.insts s).default_need = 0 ∨ (dyn.insts s).use_flags ≠ 0)
      (kept : ¬(dyn.insts s).Clears 7) : Asks dyn s 7
  -- a default is named flag by flag where it cannot be deferred
  | default_flags {s : Fin dyn.size} {x : Nat} (default : (dyn.insts s).default_need ≠ 0)
      (named : (dyn.insts s).cannotDefer) (flag : x < 6) (kept : ¬(dyn.insts s).Clears x) : Asks dyn s x
  | default_pend {s : Fin dyn.size} (default : (dyn.insts s).default_need ≠ 0) (deferred : ¬(dyn.insts s).cannotDefer)
      (changes : (dyn.insts s).use_flags ≠ 0) (kept : ¬(dyn.insts s).Clears 7) : Asks dyn s 7
  -- what a successor asks for
  | flag {s t : Fin dyn.size} {z x : Nat} (edge : Edge dyn.insts s t) (asks : Asks dyn t z)
      (passes : (dyn.insts t).Passes z x) (named : x ≠ 7) (kept : ¬(dyn.insts s).Clears x) : Asks dyn s x
  | pend {s t : Fin dyn.size} {z : Nat} (edge : Edge dyn.insts s t) (asks : Asks dyn t z)
      (passes : (dyn.insts t).Passes z 7) (deferred : ¬(dyn.insts s).cannotDefer) (changes : (dyn.insts s).default_need = 0)
      (kept : ¬(dyn.insts s).Clears 7) : Asks dyn s 7
  | pend_flags {s t : Fin dyn.size} {z x : Nat} (edge : Edge dyn.insts s t) (asks : Asks dyn t z)
      (passes : (dyn.insts t).Passes z 7) (named : (dyn.insts s).cannotDefer) (flag : x < 6)
      (kept : ¬(dyn.insts s).Clears x) : Asks dyn s x
  -- a flag is asked for behind an instruction that needs `X_PEND` by default
  | default_wakes {s t : Fin dyn.size} {z x : Nat} (edge : Edge dyn.insts s t) (asks : Asks dyn t z)
      (passes : (dyn.insts t).Passes z x) (named : x ≠ 7) (deferred : ¬(dyn.insts s).cannotDefer)
      (default : (dyn.insts s).default_need ≠ 0) (kept : ¬(dyn.insts s).Clears 7) : Asks dyn s 7

/-- Some successor asks for `x`. -/
def Asked (dyn : DynarecNative) (p : Fin dyn.size) (x : Nat) : Prop :=
  ∃ s z, Edge dyn.insts p s ∧ Asks dyn s z ∧ (dyn.insts s).Passes z x

/-- Flag `f` is needed of `p`: it is asked for, or all flags are. -/
def Demanded (dyn : DynarecNative) (p : Fin dyn.size) (f : Nat) : Prop :=
  (dyn.insts p).default_need ≠ 0 ∨ Asked dyn p f ∨ Asked dyn p 7

/-! ### The rules ask for what is carried -/

namespace InstructionX64

variable {inst : InstructionX64} {need : BitVec 8} {x z : Nat}

theorem clears_iff : inst.Clears x ↔ inst.newSet.getLsbD x = true := by
  unfold Clears newSet
  dsimp only
  by_cases sets : inst.state_flags.setsFlags <;> by_cases pending : inst.state_flags.isPending <;>
    simp only [sets, pending, if_true, if_false, true_and, false_and, or_false, false_or, getLsbD_or_iff, getLsbD_X_PEND]
  · simp
  · simp

theorem newSet_of_kept (kept : ¬inst.Clears x) : inst.newSet.getLsbD x = false := by
  rw [clears_iff, Bool.not_eq_true] at kept
  exact kept

theorem kept_of_newSet (not_set : inst.newSet.getLsbD x = false) : ¬inst.Clears x := by
  rw [clears_iff, not_set]
  exact Bool.false_ne_true

theorem passes_of_barrier (barrier : inst.isBarrier) : inst.Passes z 7 := by
  unfold Passes
  rw [if_pos barrier]

theorem passes_of_open (no_barrier : ¬inst.isBarrier) : inst.Passes x x := by
  unfold Passes
  rw [if_neg no_barrier]

/-- An instruction that defers and uses no flag is silent if its need is the default one. -/
theorem announce_default (deferred : ¬inst.cannotDefer) (default : inst.default_need ≠ 0) (unused : inst.use_flags = 0)
    (nothing : ∀ y, need.getLsbD y = true → y = 7) : inst.announce inst.reset need = none := by
  have pend := inst.default_need_eq.resolve_left default
  have same : inst.exitNeed (inst.default_need ||| need) = inst.default_need := by
    apply BitVec.eq_of_getLsbD_eq
    intro y _
    rw [Bool.eq_iff_iff, getLsbD_exitNeed, getLsbD_or_iff, pend, getLsbD_X_PEND]
    constructor
    · rintro ((is | is) | ⟨-, is⟩)
      · exact is
      · exact nothing y is
      · exact is
    · exact fun is => .inl (.inl is)
  unfold announce
  dsimp only
  rw [show inst.reset.need_flags = inst.default_need from rfl, rewriteNeed_of_defer deferred, if_pos ⟨same, unused⟩]

end InstructionX64

section Carried

variable {dyn : DynarecNative} {s : Fin dyn.size} {need : BitVec 8} {x : Nat}

/-- What an instruction may have heard: nothing, or one demand that is asked for. -/
def HearsAsked (dyn : DynarecNative) (s : Fin dyn.size) (need : BitVec 8) : Prop :=
  ∀ y, need.getLsbD y = true → Asked dyn s y

theorem HearsAsked.none : HearsAsked dyn s 0 := by
  intro y has
  simp at has

theorem HearsAsked.demand {y : Nat} (asked : Asked dyn s y) (small : y < 8) : HearsAsked dyn s (demandBit y) := by
  intro z has
  obtain rfl := (getLsbD_demandBit small z).mp has
  exact asked

/-- An instruction that speaks although its default need is all it has uses flags or has heard of one. -/
theorem asks_default (hears : HearsAsked dyn s need) (speaks : (dyn.insts s).announce (dyn.insts s).reset need ≠ none)
    (deferred : ¬(dyn.insts s).cannotDefer) (default : (dyn.insts s).default_need ≠ 0)
    (kept : ¬(dyn.insts s).Clears 7) : Asks dyn s 7 := by
  by_cases unused : (dyn.insts s).use_flags = 0
  case neg => exact .default_pend default deferred unused kept
  have named : ∃ y, need.getLsbD y = true ∧ y ≠ 7 := by
    by_contra none
    refine speaks (InstructionX64.announce_default deferred default unused fun y has => ?_)
    by_contra not_pend
    exact none ⟨y, has, not_pend⟩
  obtain ⟨y, has, not_pend⟩ := named
  obtain ⟨t, z, edge, asks, passes⟩ := hears y has
  exact .default_wakes edge asks passes not_pend deferred default kept

/-- What a reset instruction keeps of what it hears, it asks for. -/
theorem asks_of_kept (hears : HearsAsked dyn s need) (speaks : (dyn.insts s).announce (dyn.insts s).reset need ≠ none)
    (has : ((dyn.insts s).kept ((dyn.insts s).exitNeed
      ((dyn.insts s).rewriteNeed ((dyn.insts s).default_need ||| need)))).getLsbD x = true) : Asks dyn s x := by
  rcases (InstructionX64.getLsbD_kept _ _ x).mp has with ⟨asked, not_set⟩ | used
  case inr => exact .use used
  have kept := InstructionX64.kept_of_newSet not_set
  by_cases named : (dyn.insts s).cannotDefer
  · rcases (InstructionX64.getLsbD_exitNeed _ _ x).mp asked with rewritten | ⟨exits, rfl⟩
    case inr => exact .exit exits (.inl named) kept
    rw [InstructionX64.getLsbD_rewriteNeed, if_pos named, getLsbD_or_iff, getLsbD_or_iff] at rewritten
    rcases rewritten with ⟨not_pend, default | heard⟩ | ⟨flag, default | heard⟩
    · exact absurd (default_need_bit default) not_pend
    · obtain ⟨t, z, edge, asks, passes⟩ := hears x heard
      exact .flag edge asks passes not_pend kept
    · exact .default_flags (ne_zero_of_bit default) named flag kept
    · obtain ⟨t, z, edge, asks, passes⟩ := hears 7 heard
      exact .pend_flags edge asks passes named flag kept
  · by_cases default : (dyn.insts s).default_need = 0
    · rcases (InstructionX64.getLsbD_exitNeed _ _ x).mp asked with rewritten | ⟨exits, rfl⟩
      case inr => exact .exit exits (.inr (.inl default)) kept
      rw [InstructionX64.rewriteNeed_of_defer named, default, show (0 : BitVec 8) ||| need = need from BitVec.zero_or]
        at rewritten
      obtain ⟨t, z, edge, asks, passes⟩ := hears x rewritten
      by_cases pend : x = 7
      · subst pend
        exact .pend edge asks passes named default kept
      · exact .flag edge asks passes pend kept
    · by_cases pend : x = 7
      · subst pend
        exact asks_default hears speaks named default kept
      · rcases (InstructionX64.getLsbD_exitNeed _ _ x).mp asked with rewritten | ⟨-, eq⟩
        case inr => exact absurd eq pend
        rw [InstructionX64.rewriteNeed_of_defer named, getLsbD_or_iff] at rewritten
        rcases rewritten with has | heard
        · exact absurd (default_need_bit has) pend
        · obtain ⟨t, z, edge, asks, passes⟩ := hears x heard
          exact .flag edge asks passes pend kept

theorem asked_of_relays {p : Fin dyn.size} (edge : Edge dyn.insts p s) (hears : HearsAsked dyn s need)
    (made : ((dyn.insts s).relays need).getLsbD x = true) : Asked dyn p x := by
  obtain ⟨speaks, handed⟩ := InstructionX64.relays_eq made
  by_cases barrier : (dyn.insts s).isBarrier
  · obtain ⟨rfl, nonzero⟩ := (InstructionX64.handOver_of_barrier barrier).mp handed
    obtain ⟨z, kept⟩ := exists_bit_of_ne_zero nonzero
    exact ⟨s, z, edge, asks_of_kept hears speaks kept, InstructionX64.passes_of_barrier barrier⟩
  · exact ⟨s, x, edge, asks_of_kept hears speaks (InstructionX64.kept_of_handOver barrier handed),
      InstructionX64.passes_of_open barrier⟩

theorem asked_of_carried {p : Fin dyn.size} (carried : Carried dyn p x) : Asked dyn p x := by
  induction carried with
  | own edge made => exact asked_of_relays edge .none made
  | on edge carried made ih => exact asked_of_relays edge (.demand ih carried.lt) made

end Carried

/-! ### What the rules ask for is carried -/

section Keeps

variable {dyn : DynarecNative} {s : Fin dyn.size} {x : Nat}

/-- `x` is kept by the instruction, `X_ALL` standing for `X_PEND` if need be. -/
def Keeps (dyn : DynarecNative) (s : Fin dyn.size) (x : Nat) : Prop := KeepsOn dyn s x ∨ (x = 7 ∧ ∀ f < 6, KeepsOn dyn s f)

theorem Keeps.wanted {p : Fin dyn.size} {z : Nat} (keeps : Keeps dyn s z) (edge : Edge dyn.insts p s)
    (passes : (dyn.insts s).Passes z x) : Wanted dyn p x := by
  unfold InstructionX64.Passes at passes
  by_cases barrier : (dyn.insts s).isBarrier
  · rw [if_pos barrier] at passes
    subst passes
    rcases keeps with keeps | ⟨-, all⟩
    · exact .inl (keeps.carried edge barrier)
    · exact .inl ((all 0 (by decide)).carried edge barrier)
  · rw [if_neg barrier] at passes
    subst passes
    rcases keeps with keeps | ⟨eq, all⟩
    · exact keeps.wanted edge barrier
    · exact .inr ⟨eq, fun f flag => .of_wanted ((all f flag).wanted edge barrier) (by omega)⟩

theorem speaks_of_use (used : (dyn.insts s).use_flags ≠ 0) : Speaks dyn s 0 := by
  refine ⟨.none, ?_⟩
  unfold InstructionX64.announce
  dsimp only
  rw [if_neg (fun h => used h.2)]
  exact Option.some_ne_none _

/-- A freshly reset instruction that leaves the block speaks by itself, but for a default that it defers. -/
theorem speaks_of_exit (exits : (dyn.insts s).jmp_insts = -1)
    (changes : (dyn.insts s).cannotDefer ∨ (dyn.insts s).default_need = 0 ∨ (dyn.insts s).use_flags ≠ 0) : Speaks dyn s 0 := by
  have pend (v : BitVec 8) : ((dyn.insts s).exitNeed v).getLsbD 7 = true :=
    (InstructionX64.getLsbD_exitNeed _ _ 7).mpr (.inr ⟨exits, rfl⟩)
  rcases changes with named | default | used
  · refine ⟨.none, InstructionX64.announce_of_ne fun same => ?_⟩
    have has := pend ((dyn.insts s).rewriteNeed ((dyn.insts s).reset.need_flags ||| 0))
    rw [same] at has
    have flag := InstructionX64.getLsbD_rewriteNeed_pend named (f := 0) (by decide)
      ((getLsbD_or_iff (dyn.insts s).reset.need_flags 0 7).mpr (.inl has))
    have cf := (InstructionX64.getLsbD_exitNeed (dyn.insts s) _ 0).mpr (.inl flag)
    rw [same] at cf
    exact absurd (default_need_bit cf) (by decide)
  · refine ⟨.none, InstructionX64.announce_of_ne fun same => ?_⟩
    have has := pend ((dyn.insts s).rewriteNeed ((dyn.insts s).reset.need_flags ||| 0))
    rw [same, show (dyn.insts s).reset.need_flags = 0 from default] at has
    simp at has
  · exact speaks_of_use used

theorem keeps_pend_of_default {need : BitVec 8} (speaks : Speaks dyn s need) (deferred : ¬(dyn.insts s).cannotDefer)
    (default : (dyn.insts s).default_need ≠ 0) (kept : ¬(dyn.insts s).Clears 7) : Keeps dyn s 7 := by
  refine .inl (.of_need speaks ?_ (InstructionX64.newSet_of_kept kept))
  rw [InstructionX64.rewriteNeed_of_defer deferred]
  exact (getLsbD_or_iff _ _ 7).mpr (.inl (default_need_pend default))

theorem keeps_of_asks (asks : Asks dyn s x) : Keeps dyn s x := by
  induction asks with
  | use used =>
    exact .inl ⟨0, speaks_of_use (ne_zero_of_bit used), (InstructionX64.getLsbD_kept _ _ _).mpr (.inr used)⟩
  | exit exits changes kept =>
    refine .inl ⟨0, speaks_of_exit exits changes, (InstructionX64.getLsbD_kept _ _ 7).mpr (.inl ⟨?_, ?_⟩)⟩
    · exact (InstructionX64.getLsbD_exitNeed _ _ 7).mpr (.inr ⟨exits, rfl⟩)
    · exact InstructionX64.newSet_of_kept kept
  | default_flags default named flag kept =>
    refine .inl (keepsOn_of_flag (by omega) .none ?_ (InstructionX64.newSet_of_kept kept))
    apply InstructionX64.getLsbD_rewriteNeed_pend named flag
    exact (getLsbD_or_iff _ _ 7).mpr (.inl (default_need_pend default))
  | default_pend default deferred changes kept => exact keeps_pend_of_default (speaks_of_use changes) deferred default kept
  | flag edge _ passes named kept ih =>
    have carried := Carried.of_wanted (ih.wanted edge passes) named
    refine .inl (keepsOn_of_flag named (.carried carried) ?_ (InstructionX64.newSet_of_kept kept))
    exact InstructionX64.getLsbD_rewriteNeed_demand _ carried.lt named
  | pend edge _ passes deferred changes kept ih =>
    have not_set := InstructionX64.newSet_of_kept kept
    rcases ih.wanted edge passes with carried | ⟨-, all⟩
    · exact .inl (.of_need (speaks_of_pend deferred changes carried)
        (InstructionX64.getLsbD_rewriteNeed_demand_pend deferred) not_set)
    · refine .inr ⟨rfl, fun f flag => keepsOn_of_flag (by omega) (.carried (all f flag)) ?_ ?_⟩
      · exact InstructionX64.getLsbD_rewriteNeed_demand _ (by omega) (by omega)
      · rw [InstructionX64.newSet_of_defer deferred not_set]
        exact BitVec.getLsbD_zero
  | pend_flags edge _ passes named flag kept ih =>
    have not_set := InstructionX64.newSet_of_kept kept
    obtain ⟨need, hears, made⟩ := hears_of_pend named flag (.inr (ih.wanted edge passes))
    exact .inl (keepsOn_of_flag (by omega) hears made not_set)
  | @default_wakes s t z x edge _ passes named deferred default kept ih =>
    have carried := Carried.of_wanted (ih.wanted edge passes) named
    have has := InstructionX64.getLsbD_rewriteNeed_demand (dyn.insts s) carried.lt named
    exact keeps_pend_of_default ⟨.carried carried, InstructionX64.announce_of_flag named has⟩ deferred default kept

theorem wanted_of_asked {p : Fin dyn.size} (asked : Asked dyn p x) : Wanted dyn p x := by
  obtain ⟨s, z, edge, asks, passes⟩ := asked
  exact (keeps_of_asks asks).wanted edge passes

end Keeps

theorem carriedBack_iff_demanded {dyn : DynarecNative} {p : Fin dyn.size} {f : Nat} (flag : f < 6) :
    CarriedBack dyn p f ↔ Demanded dyn p f := by
  constructor
  · rintro (default | carried | carried)
    · exact .inl default
    · exact .inr (.inl (asked_of_carried carried))
    · exact .inr (.inr (asked_of_carried carried))
  · rintro (default | asked | asked)
    · exact .inl default
    · exact .inr (.inl (.of_wanted (wanted_of_asked asked) (by omega)))
    · rcases wanted_of_asked asked with carried | ⟨-, all⟩
      · exact .inr (.inr carried)
      · exact .inr (.inl (all f flag))

/-- The analysis calculates what the rules ask for, and no other need. -/
theorem covers_iff_demanded {dyn : DynarecNative} {fuel : Nat} {calculated : dyn.Needs}
    (run : calculateNeed dyn fuel = some calculated) (p : Fin dyn.size) {f : Nat} (flag : f < 6) :
    Covers (calculated p).need_flags f ↔ Demanded dyn p f :=
  (covers_iff_carriedBack run p flag).trans (carriedBack_iff_demanded flag)

/-! ### Flags that are read later -/

/-- `p` writes flag `f`. -/
def InstructionX64.Writes (inst : InstructionX64) (f : Nat) : Prop := inst.set_flags.getLsbD f = true

/-- `s` observes flag `f`: it uses it, or any flag may be read later. -/
def InstructionX64.Observes (inst : InstructionX64) (f : Nat) : Prop := Covers inst.use_flags f

instance (need : BitVec 8) (f : Nat) : Decidable (Covers need f) := inferInstanceAs (Decidable (_ ∨ _))

instance (inst : InstructionX64) (f : Nat) : Decidable (inst.Writes f) := inferInstanceAs (Decidable (_ = _))

instance (inst : InstructionX64) (f : Nat) : Decidable (inst.Observes f) := inferInstanceAs (Decidable (Covers _ _))

/-- A path of control from `p` to `s`, with no write of `f` between them. -/
inductive Unwritten (dyn : DynarecNative) (f : Nat) : Fin dyn.size → Fin dyn.size → Prop where
  | edge {p s : Fin dyn.size} (edge : Edge dyn.insts p s) : Unwritten dyn f p s
  | step {p q s : Fin dyn.size} (edge : Edge dyn.insts p q) (unwritten : ¬(dyn.insts q).Writes f)
      (rest : Unwritten dyn f q s) : Unwritten dyn f p s

/-- `p` writes `f`, and some instruction behind it reads what `p` wrote. -/
def ReadLater (dyn : DynarecNative) (p : Fin dyn.size) (f : Nat) : Prop :=
  (dyn.insts p).Writes f ∧ ∃ s, Unwritten dyn f p s ∧ (dyn.insts s).Observes f

/-- Each instruction computes the flags it writes that are read later. -/
def NeedSound (dyn : DynarecNative) (calculated : dyn.Needs) : Prop :=
  ∀ p, ∀ f < 6, ReadLater dyn p f → Covers (calculated p).need_flags f

/-- The analysis returns, and it is sound if and only if the rules ask for every flag read later, by its name
or with all of them, in front of the instructions behind the one that writes it. -/
theorem needSound_iff (dyn : DynarecNative) :
    (∃ enough, ∀ fuel, enough ≤ fuel → ∃ calculated, calculateNeed dyn fuel = some calculated) ∧
    ∀ fuel calculated, calculateNeed dyn fuel = some calculated →
      (NeedSound dyn calculated ↔ ∀ p, ∀ f < 6, ReadLater dyn p f → Demanded dyn p f) := by
  refine ⟨calculateNeed_terminates dyn, fun fuel calculated run => ?_⟩
  constructor
  · intro sound p f flag read
    exact (covers_iff_demanded run p flag).mp (sound p f flag read)
  · intro demanded p f flag read
    exact (covers_iff_demanded run p flag).mpr (demanded p f flag read)

/-- `add ebx, eax; inc ecx; ret`. -/
def addIncRet : DynarecNative where
  size := 3
  insts := ![
    { jmp := 0, jmp_insts := 0, has_next := true, barrier := 0, state_flags := .setPending, use_flags := 0,
      set_flags := X_ALL, default_need := 0, default_need_eq := no_default_need },
    { jmp := 0, jmp_insts := 0, has_next := true, barrier := 0, state_flags := .subsetPending, use_flags := 0,
      set_flags := X_ALL &&& ~~~X_CF, default_need := 0, default_need_eq := no_default_need },
    { jmp := 0, jmp_insts := 0, has_next := false, barrier := 2, state_flags := .unknown, use_flags := X_PEND,
      set_flags := 0, default_need := 0, default_need_eq := no_default_need }]
  pred := ![[], [0], [1]]
  pred_exact := by decide

theorem readLater_addIncRet : ReadLater addIncRet (0 : Fin 3) 0 :=
  ⟨by decide, (2 : Fin 3), .step (q := (1 : Fin 3)) (.inl ⟨rfl, rfl⟩) (by decide) (.edge (.inl ⟨rfl, rfl⟩)), by decide⟩

theorem calculateNeed_addIncRet :
    (calculateNeed addIncRet 9).map (fun calculated => (calculated (0 : Fin 3)).need_flags) = some 0 := by
  decide +kernel

/-- The carry of the addition is live at the `ret`, but the addition need not compute it. -/
theorem addIncRet_not_sound :
    ∃ calculated, calculateNeed addIncRet 9 = some calculated ∧ ReadLater addIncRet (0 : Fin 3) 0 ∧
      ¬Covers (calculated (0 : Fin 3)).need_flags 0 := by
  obtain ⟨calculated, run, need⟩ := Option.map_eq_some_iff.mp calculateNeed_addIncRet
  refine ⟨calculated, run, readLater_addIncRet, ?_⟩
  rw [need]
  decide

theorem needSound_iff_addIncRet : ¬∀ p, ∀ f < 6, ReadLater addIncRet p f → Demanded addIncRet p f := by
  intro demanded
  obtain ⟨calculated, run, need⟩ := Option.map_eq_some_iff.mp calculateNeed_addIncRet
  have sound := ((needSound_iff addIncRet).2 9 calculated run).mpr demanded
  have covers := sound (0 : Fin 3) 0 (by decide) readLater_addIncRet
  rw [need] at covers
  exact absurd covers (by decide)

/-! ### Where no demand is lost -/

/-- A pending operation defers all the flags, so an instruction that leaves one behind takes `X_PEND` off
the need. That is right for a flag it writes, and no harm if it observes the flag itself. -/
def InstructionX64.Transparent (inst : InstructionX64) (f : Nat) : Prop :=
  inst.default_need = 0 ∧ (inst.state_flags.isPending → inst.Observes f)

theorem InstructionX64.not_clears_flag {inst : InstructionX64} {f : Nat} (flag : f < 6) (unwritten : ¬inst.Writes f) :
    ¬inst.Clears f := by
  rintro (⟨-, written⟩ | ⟨-, eq⟩)
  · exact unwritten written
  · omega

/-- What an instruction asks for arrives as it is or as `X_PEND`. -/
theorem asked_of_asks {dyn : DynarecNative} {p s : Fin dyn.size} {f x : Nat} (edge : Edge dyn.insts p s)
    (asks : Asks dyn s x) (which : x = f ∨ x = 7) : Asked dyn p f ∨ Asked dyn p 7 := by
  by_cases barrier : (dyn.insts s).isBarrier
  · exact .inr ⟨s, x, edge, asks, InstructionX64.passes_of_barrier barrier⟩
  · have asked : Asked dyn p x := ⟨s, x, edge, asks, InstructionX64.passes_of_open barrier⟩
    rcases which with rfl | rfl
    · exact .inl asked
    · exact .inr asked

theorem asked_of_observes {dyn : DynarecNative} {p s : Fin dyn.size} {f : Nat} (edge : Edge dyn.insts p s)
    (observes : (dyn.insts s).Observes f) : Asked dyn p f ∨ Asked dyn p 7 := by
  rcases observes with used | used
  · exact asked_of_asks edge (.use used) (.inl rfl)
  · exact asked_of_asks edge (.use used) (.inr rfl)

/-- A transparent instruction that does not write `f` asks for it as it is asked. -/
theorem asked_of_transparent {dyn : DynarecNative} {p q : Fin dyn.size} {f : Nat} (flag : f < 6)
    (edge : Edge dyn.insts p q) (unwritten : ¬(dyn.insts q).Writes f) (transparent : (dyn.insts q).Transparent f)
    (asked : Asked dyn q f ∨ Asked dyn q 7) : Asked dyn p f ∨ Asked dyn p 7 := by
  by_cases observes : (dyn.insts q).Observes f
  · exact asked_of_observes edge observes
  have kept := InstructionX64.not_clears_flag flag unwritten
  have kept_pend (deferred : ¬(dyn.insts q).cannotDefer) : ¬(dyn.insts q).Clears 7 := by
    have not_pending : ¬(dyn.insts q).state_flags.isPending := fun pending => observes (transparent.2 pending)
    apply InstructionX64.kept_of_newSet
    rw [InstructionX64.newSet_of_not_pending deferred not_pending]
    exact BitVec.getLsbD_zero
  rcases asked with ⟨t, z, next, asks, passes⟩ | ⟨t, z, next, asks, passes⟩
  · exact asked_of_asks edge (.flag next asks passes (by omega) kept) (.inl rfl)
  · by_cases named : (dyn.insts q).cannotDefer
    · exact asked_of_asks edge (.pend_flags next asks passes named flag kept) (.inl rfl)
    · exact asked_of_asks edge (.pend next asks passes named transparent.1 (kept_pend named)) (.inr rfl)

theorem asked_of_unwritten {dyn : DynarecNative} {f : Nat} (flag : f < 6)
    (clear : ∀ q, (dyn.insts q).Writes f ∨ (dyn.insts q).Transparent f) {p s : Fin dyn.size}
    (path : Unwritten dyn f p s) (observes : (dyn.insts s).Observes f) : Asked dyn p f ∨ Asked dyn p 7 := by
  induction path with
  | edge edge => exact asked_of_observes edge observes
  | step edge unwritten _ ih =>
    exact asked_of_transparent flag edge unwritten ((clear _).resolve_left unwritten) (ih observes)

/-- In a block where every pending instruction writes or observes every flag, the analysis is sound. -/
theorem needSound_of_transparent {dyn : DynarecNative} {fuel : Nat} {calculated : dyn.Needs}
    (run : calculateNeed dyn fuel = some calculated)
    (clear : ∀ q, ∀ f < 6, (dyn.insts q).Writes f ∨ (dyn.insts q).Transparent f) : NeedSound dyn calculated := by
  intro p f flag read
  obtain ⟨-, s, path, observes⟩ := read
  refine (covers_iff_demanded run p flag).mpr (.inr ?_)
  exact asked_of_unwritten flag (fun q => clear q f flag) path observes

end Box64.Dynarec
