import Mathlib.Data.List.Induction
import Mathlib.Data.List.Infix

/-!
# Runs of a step function

A step function takes a state and a label to the next state, or to nothing where the label is not enabled. A run is
a list of labels; what holds in every state it passes is tied to what its steps meet on the way.
-/

namespace Runs

universe u v

variable {σ : Type u} {α : Type v} (step : σ → α → Option σ)

/-- The state after a list of labels. -/
def exec (s : σ) : List α → Option σ
  | [] => some s
  | a :: rest => (step s a).bind fun s' => exec s' rest

/-- `P` holds in every state the run passes, the first and the last included. -/
def Always (P : σ → Prop) (s : σ) (labels : List α) : Prop :=
  ∀ before, before <+: labels → ∀ t, exec step s before = some t → P t

/-- Every step of the run that is enabled meets `ok`, in the state before it. -/
def AllSteps (ok : σ → α → Prop) (s : σ) (labels : List α) : Prop :=
  ∀ before a, before ++ [a] <+: labels → ∀ t, exec step s before = some t → (step t a).isSome → ok t a

variable {step}

theorem exec_append (s : σ) (before rest : List α) :
    exec step s (before ++ rest) = (exec step s before).bind fun t => exec step t rest := by
  induction before generalizing s with
  | nil => rfl
  | cons a before ih =>
    rw [List.cons_append, exec, exec, Option.bind_assoc]
    exact congrArg _ (funext ih)

/-- What every step with a label of the run keeps holds behind it. -/
theorem exec_keeps {P : σ → Prop} {labels : List α} (keep : ∀ s t, ∀ a ∈ labels, P s → step s a = some t → P t) {s t : σ}
    (start : P s) (ran : exec step s labels = some t) : P t := by
  induction labels generalizing s with
  | nil =>
    cases ran
    exact start
  | cons a rest ih =>
    obtain ⟨s', next, ran⟩ := Option.bind_eq_some_iff.mp ran
    have next := keep s s' a List.mem_cons_self start next
    exact ih (fun s t b member => keep s t b (List.mem_cons_of_mem a member)) next ran

/-- A run whose steps are enabled by what the labels before them have established goes through. -/
theorem exec_covers {P : List α → σ → Prop} {labels : List α} {s : σ} (start : P [] s)
    (keep : ∀ done a rest s, labels = done ++ a :: rest → P done s → ∃ t, step s a = some t ∧ P (done ++ [a]) t) :
    ∃ t, exec step s labels = some t ∧ P labels t := by
  have from_done : ∀ rest done s, labels = done ++ rest → P done s → ∃ t, exec step s rest = some t ∧ P labels t := by
    intro rest
    induction rest with
    | nil =>
      intro done s whole here
      rw [List.append_nil] at whole
      exact ⟨s, rfl, whole ▸ here⟩
    | cons a rest ih =>
      intro done s whole here
      obtain ⟨t, next, there⟩ := keep done a rest s whole here
      obtain ⟨u, ran, last⟩ := ih (done ++ [a]) t (by rw [whole, List.append_assoc]; rfl) there
      refine ⟨u, ?_, last⟩
      rw [exec, next]
      exact ran
  exact from_done labels [] s rfl start

theorem always_nil {P : σ → Prop} {s : σ} : Always step P s [] ↔ P s := by
  constructor
  · exact fun always => always [] (List.prefix_refl _) s rfl
  · intro start before pre t reached
    obtain rfl := List.prefix_nil.mp pre
    cases reached
    exact start

theorem always_cons {P : σ → Prop} {s : σ} {a : α} {rest : List α} :
    Always step P s (a :: rest) ↔ P s ∧ ∀ s', step s a = some s' → Always step P s' rest := by
  constructor
  · intro always
    refine ⟨always [] List.nil_prefix s rfl, ?_⟩
    intro s' next before pre t reached
    refine always (a :: before) (List.cons_prefix_cons.mpr ⟨rfl, pre⟩) t ?_
    rw [exec, next]
    exact reached
  · rintro ⟨start, rest_always⟩ before pre t reached
    cases before with
    | nil =>
      cases reached
      exact start
    | cons b before =>
      obtain ⟨rfl, rest_pre⟩ := List.cons_prefix_cons.mp pre
      obtain ⟨s', next, reached⟩ := Option.bind_eq_some_iff.mp reached
      exact rest_always s' next before rest_pre t reached

theorem allSteps_nil {ok : σ → α → Prop} {s : σ} : AllSteps step ok s [] := by
  intro before a pre
  have := pre.length_le
  rw [List.length_append] at this
  exact absurd this (by simp)

theorem allSteps_cons {ok : σ → α → Prop} {s : σ} {a : α} {rest : List α} :
    AllSteps step ok s (a :: rest) ↔ ∀ s', step s a = some s' → ok s a ∧ AllSteps step ok s' rest := by
  constructor
  · intro all s' next
    constructor
    · refine all [] a (List.cons_prefix_cons.mpr ⟨rfl, List.nil_prefix⟩) s rfl ?_
      rw [next]
      rfl
    · intro before b pre t reached enabled
      refine all (a :: before) b (List.cons_prefix_cons.mpr ⟨rfl, pre⟩) t ?_ enabled
      rw [exec, next]
      exact reached
  · intro rest_all before b pre t reached enabled
    cases before with
    | nil =>
      obtain ⟨rfl, -⟩ := List.cons_prefix_cons.mp pre
      cases reached
      obtain ⟨s', next⟩ := Option.isSome_iff_exists.mp enabled
      exact (rest_all s' next).1
    | cons c before =>
      obtain ⟨rfl, rest_pre⟩ := List.cons_prefix_cons.mp pre
      obtain ⟨s', next, reached⟩ := Option.bind_eq_some_iff.mp reached
      exact (rest_all s' next).2 before b rest_pre t reached enabled

theorem AllSteps.cons {ok : σ → α → Prop} {s s' : σ} {a : α} {rest : List α} (next : step s a = some s') (good : ok s a)
    (all : AllSteps step ok s' rest) : AllSteps step ok s (a :: rest) := by
  refine allSteps_cons.mpr ?_
  intro t next'
  cases next.symm.trans next'
  exact ⟨good, all⟩

/-- Where steps that meet `ok` keep an invariant, a run stays safe if all its steps meet `ok`. -/
theorem always_of_allSteps {Inv Safe : σ → Prop} {ok : σ → α → Prop} (safe : ∀ s, Inv s → Safe s)
    (keep : ∀ s a s', Inv s → ok s a → step s a = some s' → Inv s') {s : σ} (start : Inv s) (labels : List α)
    (all : AllSteps step ok s labels) : Always step Safe s labels := by
  induction labels generalizing s with
  | nil => exact always_nil.mpr (safe s start)
  | cons a rest ih =>
    refine always_cons.mpr ⟨safe s start, ?_⟩
    intro s' next
    obtain ⟨good, rest_all⟩ := allSteps_cons.mp all s' next
    exact ih (keep s a s' start good next) rest_all

/-- Where steps that meet `ok` keep an invariant and every other step leaves the safe states, a run stays safe
exactly if all its steps meet `ok`. -/
theorem always_iff_allSteps {Inv Safe : σ → Prop} {ok : σ → α → Prop} (safe : ∀ s, Inv s → Safe s)
    (keep : ∀ s a s', Inv s → ok s a → step s a = some s' → Inv s')
    (leave : ∀ s a s', Inv s → ¬ ok s a → step s a = some s' → ¬ Safe s') {s : σ} (start : Inv s)
    (labels : List α) : Always step Safe s labels ↔ AllSteps step ok s labels := by
  refine ⟨?_, always_of_allSteps safe keep start labels⟩
  induction labels generalizing s with
  | nil => exact fun _ => allSteps_nil
  | cons a rest ih =>
    intro always
    obtain ⟨-, rest_always⟩ := always_cons.mp always
    refine allSteps_cons.mpr ?_
    intro s' next
    have always := rest_always s' next
    have good : ok s a := by
      by_contra bad
      exact leave s a s' start bad next (always [] List.nil_prefix s' rfl)
    exact ⟨good, ih (keep s a s' start good next) always⟩

end Runs
