import Mathlib.Logic.Basic

/-!
# Labelled transition systems

Reachability, invariants and guarded runs over an arbitrary state and label type.
-/

namespace Transition

universe u v

/-- Initial states, and the states each label may lead to. -/
structure System (σ : Type u) (α : Type v) where
  init : σ → Prop
  step : σ → α → σ → Prop

variable {σ : Type u} {α : Type v}

inductive Reachable (M : System σ α) : σ → Prop where
  | initial {s : σ} : M.init s → Reachable M s
  | step {s t : σ} {a : α} : Reachable M s → M.step s a t → Reachable M t

theorem Reachable.invariant {M : System σ α} {P : σ → Prop} {s : σ} (h : Reachable M s)
    (start : ∀ s, M.init s → P s) (preserve : ∀ s a t, P s → M.step s a t → P t) : P s := by
  induction h with
  | initial hi => exact start _ hi
  | step _ hs ih => exact preserve _ _ _ ih hs

/-- `M` with each step taken only where `ok` allows it. -/
def System.guard (M : System σ α) (ok : σ → α → Prop) : System σ α where
  init := M.init
  step s a t := ok s a ∧ M.step s a t

theorem Reachable.of_guard {M : System σ α} {ok : σ → α → Prop} {s : σ}
    (h : Reachable (M.guard ok) s) : Reachable M s := by
  induction h with
  | initial hi => exact .initial hi
  | step _ hs ih => exact .step ih hs.2

end Transition
