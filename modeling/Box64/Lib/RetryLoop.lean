import Mathlib.Data.List.Basic

/-!
# Loops that retry a conditional store

Each pass of such a loop looks at a shared object, changes the state of its own thread, and then either tries to store
a new object or leaves. A store that fails leaves the object to others; the next pass sees what they made of it.
-/

namespace RetryLoop

universe u v w

variable {σ : Type u} {ο : Type v} {γ : Type w}

/-- The state after a pass, and the object it stores, if it does not leave the loop. -/
structure Pass (σ : Type u) (ο : Type v) where
  state : σ
  stored : Option ο

/-- How a loop ends: with the object it saw last, and the object it leaves. -/
structure Final (σ : Type u) (ο : Type v) where
  state : σ
  seen : ο
  object : ο

/-- The loop from a state and an object, where the stores fail once for each object that follows. -/
def run (body : σ → ο → Pass σ ο) (s : σ) (o : ο) : List ο → Final σ ο
  | [] => ⟨(body s o).state, o, (body s o).stored.getD o⟩
  | o' :: others =>
    match (body s o).stored with
    | none => ⟨(body s o).state, o, o⟩
    | some _ => run body (body s o).state o' others

/-- The object seen last by a loop that leaves when `leaves` holds of it. -/
def lastSeen (leaves : ο → Bool) (o : ο) : List ο → ο
  | [] => o
  | o' :: others => if leaves o then o else lastSeen leaves o' others

/-- The objects seen by the passes whose stores fail. -/
def failed (o : ο) (others : List ο) : List ο := (o :: others).dropLast

theorem seen_mem (body : σ → ο → Pass σ ο) (s : σ) (o : ο) (others : List ο) :
    (run body s o others).seen ∈ o :: others := by
  induction others generalizing s o with
  | nil => exact List.mem_singleton_self o
  | cons o' others ih =>
    rw [run]
    cases (body s o).stored with
    | none => exact List.mem_cons_self
    | some _ => exact List.mem_cons_of_mem o (ih _ o')

/-! ### Passes that forget the ones before -/

/-- A pass after one that tried to store does what it would have done in its place. -/
def Absorbs (body : σ → ο → Pass σ ο) : Prop :=
  ∀ s o o', (body s o).stored.isSome → body (body s o).state o' = body s o'

/-- What a pass would do at first decides where the loop ends. -/
theorem seen_of_absorbs {body : σ → ο → Pass σ ο} (absorbs : Absorbs body) (s : σ) (o : ο) (others : List ο) :
    (run body s o others).seen = lastSeen (fun o => (body s o).stored.isNone) o others := by
  induction others generalizing s o with
  | nil => rfl
  | cons o' others ih =>
    rw [run, lastSeen]
    cases stored : (body s o).stored with
    | none => rfl
    | some x =>
      have same : (fun o' => (body (body s o).state o').stored.isNone) = fun o' => (body s o').stored.isNone := by
        funext o'
        rw [absorbs s o o' (by rw [stored]; rfl)]
      rw [← same]
      exact ih _ o'

theorem run_of_absorbs {body : σ → ο → Pass σ ο} (absorbs : Absorbs body) (s : σ) (o : ο) (others : List ο) :
    run body s o others = run body s (run body s o others).seen [] := by
  induction others generalizing s o with
  | nil => rfl
  | cons o' others ih =>
    cases stored : (body s o).stored with
    | none =>
      have final : run body s o (o' :: others) = ⟨(body s o).state, o, o⟩ := by rw [run, stored]
      rw [final, run, stored]
      rfl
    | some x =>
      have final : run body s o (o' :: others) = run body (body s o).state o' others := by rw [run, stored]
      have same := absorbs s o (run body (body s o).state o' others).seen (by rw [stored]; rfl)
      rw [final]
      refine (ih _ o').trans ?_
      rw [run, run, same]

/-- Stores that fail while the object stays as it is leave no trace. -/
theorem run_replicate {body : σ → ο → Pass σ ο} (absorbs : Absorbs body) (s : σ) (o : ο) (n : Nat) :
    run body s o (List.replicate n o) = ⟨(body s o).state, o, (body s o).stored.getD o⟩ := by
  have seen : (run body s o (List.replicate n o)).seen = o := by
    have member := seen_mem body s o (List.replicate n o)
    rcases List.mem_cons.mp member with here | later
    · exact here
    · exact List.eq_of_mem_replicate later
  rw [run_of_absorbs absorbs, seen, run]

theorem final_of_absorbs {body : σ → ο → Pass σ ο} (absorbs : Absorbs body) (s : σ) (o : ο) (others : List ο) :
    (run body s o others).state = (body s (run body s o others).seen).state ∧
      (run body s o others).object =
        (body s (run body s o others).seen).stored.getD (run body s o others).seen := by
  have last := run_of_absorbs absorbs s o others
  exact ⟨congrArg Final.state last, congrArg Final.object last⟩

/-! ### Passes that remember something -/

/-- What is remembered after passes that saw these objects. -/
def remember (next : γ → ο → γ) (c : γ) (seen : List ο) : γ := seen.foldl next c

/-- The passes always try to store, and depend on the ones before only through what is remembered: `start` is a state
in which just this is known. -/
structure Remembers (body : σ → ο → Pass σ ο) (inv : σ → Prop) (known : σ → γ) (next : γ → ο → γ) (start : γ → σ) :
    Prop where
  stores : ∀ s o, (body s o).stored.isSome
  same : ∀ s o, inv s → body s o = body (start (known s)) o
  keep : ∀ s o, inv s → inv (body s o).state
  known_next : ∀ s o, inv s → known (body s o).state = next (known s) o

theorem seen_of_stores {body : σ → ο → Pass σ ο} (stores : ∀ s o, (body s o).stored.isSome) (s : σ) (o : ο)
    (others : List ο) : (run body s o others).seen = lastSeen (fun _ => false) o others := by
  induction others generalizing s o with
  | nil => rfl
  | cons o' others ih =>
    obtain ⟨x, stored⟩ := Option.isSome_iff_exists.mp (stores s o)
    rw [run, stored]
    exact ih _ o'

theorem run_of_remembers {body : σ → ο → Pass σ ο} {inv : σ → Prop} {known : σ → γ} {next : γ → ο → γ} {start : γ → σ}
    (remembers : Remembers body inv known next start) {s : σ} (holds : inv s) (o : ο) (others : List ο) :
    run body s o others =
      run body (start (remember next (known s) (failed o others))) (run body s o others).seen [] := by
  induction others generalizing s o with
  | nil =>
    rw [run, run, remembers.same s o holds]
    rfl
  | cons o' others ih =>
    obtain ⟨x, stored⟩ := Option.isSome_iff_exists.mp (remembers.stores s o)
    have final : run body s o (o' :: others) = run body (body s o).state o' others := by rw [run, stored]
    have known : remember next (known s) (failed o (o' :: others)) =
        remember next (known (body s o).state) (failed o' others) := by
      rw [remembers.known_next s o holds, failed, List.dropLast_cons_cons]
      rfl
    rw [final, known]
    exact ih (remembers.keep s o holds) o'

end RetryLoop
