import Mathlib.Data.List.Basic
import Mathlib.Logic.Function.Basic

/-!
# A cache in front of several lookups

A cache keeps what a lookup found under a key that may be coarser than the query. Most queries look into the cache first;
some ask first, and take the value in the cache only where the lookup finds one.
-/

namespace Box64

universe u v w

structure Memo (κ : Type u) (Q : Type v) (α : Type w) where
  key : Q → κ
  /-- What the lookup itself finds. -/
  real : Q → Option α
  asksFirst : Q → Prop
  [decAsksFirst : DecidablePred asksFirst]

namespace Memo

variable {κ : Type u} {Q : Type v} {α : Type w} (m : Memo κ Q α)

instance : DecidablePred m.asksFirst := m.decAsksFirst

def answer (cache : κ → Option α) (q : Q) : Option α :=
  if m.asksFirst q ∧ m.real q = none then none else cache (m.key q) <|> m.real q

/-- A query that comes later under the key of `q` finds the same, or asks first and finds nothing. -/
def Agrees (q later : Q) : Prop :=
  m.key q = m.key later → ∀ value, m.real q = some value →
    m.real later = some value ∨ m.asksFirst later ∧ m.real later = none

section Answers

variable {m} {cache : κ → Option α} {q : Q}

theorem answer_nothing (nothing : m.asksFirst q ∧ m.real q = none) : m.answer cache q = none := if_pos nothing

theorem answer_reached (reaches : ¬ (m.asksFirst q ∧ m.real q = none)) :
    m.answer cache q = (cache (m.key q) <|> m.real q) := if_neg reaches

theorem answer_empty : m.answer (fun _ => none) q = m.real q := by
  by_cases nothing : m.asksFirst q ∧ m.real q = none
  · exact (answer_nothing nothing).trans nothing.2.symm
  · exact answer_reached nothing

theorem answer_eq_real : m.answer cache q = m.real q ↔
    ∀ value, cache (m.key q) = some value → m.real q = some value ∨ m.asksFirst q ∧ m.real q = none := by
  by_cases nothing : m.asksFirst q ∧ m.real q = none
  · simp [answer_nothing nothing, nothing]
  rw [answer_reached nothing]
  cases cached : cache (m.key q) with
  | none => simp
  | some value =>
    simp only [Option.some.injEq, forall_eq', or_iff_left nothing]
    exact eq_comm

end Answers

variable [DecidableEq κ]

def next (cache : κ → Option α) (q : Q) : κ → Option α :=
  Function.update cache (m.key q) (cache (m.key q) <|> m.real q)

/-- Every query of the run finds what it finds with an empty cache. -/
def Transparent (cache : κ → Option α) : List Q → Prop
  | [] => True
  | q :: rest => m.answer cache q = m.real q ∧ Transparent (m.next cache q) rest

variable {m} {cache : κ → Option α} {q : Q} {queries : List Q}

theorem next_self : m.next cache q (m.key q) = (cache (m.key q) <|> m.real q) := Function.update_self ..

theorem next_of_ne {k : κ} (other : k ≠ m.key q) : m.next cache q k = cache k := Function.update_of_ne other ..

/-- The cache holds, under each key, nothing that the queries to come would not find. -/
theorem transparent_iff_cached : m.Transparent cache queries ↔
    (∀ q ∈ queries, ∀ value, cache (m.key q) = some value →
      m.real q = some value ∨ m.asksFirst q ∧ m.real q = none) ∧ queries.Pairwise m.Agrees := by
  induction queries generalizing cache with
  | nil => simp [Transparent]
  | cons q rest ih =>
    rw [Transparent, answer_eq_real, ih, List.forall_mem_cons, List.pairwise_cons, and_assoc, and_congr_right_iff]
    intro here
    rw [← and_assoc, and_congr_left_iff]
    intro _
    constructor
    · intro cached
      refine ⟨?_, ?_⟩
      · intro later mem value found
        refine cached later mem value ?_
        by_cases same : m.key later = m.key q
        · rw [same, next_self, ← same, found]
          rfl
        · rw [next_of_ne same, found]
      · intro later mem same value found
        have first : m.next cache q (m.key later) = some value := by
          rw [← same, next_self]
          cases old : cache (m.key q) with
          | none => exact found
          | some w =>
            obtain agrees | ⟨-, nothing⟩ := here w old
            · exact agrees.symm.trans found
            · exact absurd (nothing.symm.trans found) nofun
        exact cached later mem value first
    · rintro ⟨old, agrees⟩ later mem value found
      by_cases same : m.key later = m.key q
      · rw [same, next_self] at found
        cases before : cache (m.key q) with
        | none =>
          rw [before] at found
          exact agrees later mem same.symm value found
        | some w =>
          rw [before] at found
          refine old later mem value ?_
          rw [same, before]
          exact found
      · rw [next_of_ne same] at found
        exact old later mem value found

/-- From an empty cache, a run is transparent exactly if its queries agree in pairs. -/
theorem transparent_iff_agrees : m.Transparent (fun _ => none) queries ↔ queries.Pairwise m.Agrees := by
  rw [transparent_iff_cached]
  simp

end Memo

end Box64
