import Mathlib.Logic.Function.Iterate

/-!
# Repeated comparisons

A counted loop that fetches, advances and may stop early. What it fetched can be noted in every round, or once after
the loop.
-/

namespace RepeatScan

universe u v

variable {σ : Type u} {α : Type v}

section Loops

variable (fetch : σ → α) (advance : σ → σ) (stop : α → Bool)

/-- At most `n` rounds: how many are left, what was fetched last, and the state. -/
def scan : Nat → α → σ → Nat × α × σ
  | 0, last, s => (0, last, s)
  | n + 1, _, s => if stop (fetch s) then (n, fetch s, advance s) else scan n (fetch s) (advance s)

/-- The rounds that the loop takes. -/
def taken : Nat → σ → Nat
  | 0, _ => 0
  | n + 1, s => if stop (fetch s) then 1 else taken n (advance s) + 1

/-- The loop with a note and a tick in every round. -/
def rounds (note : α → σ → σ) (tick : σ → σ) : Nat → σ → σ
  | 0, s => s
  | n + 1, s =>
    let s' := tick (note (fetch s) (advance s))
    if stop (fetch s) then s' else rounds note tick n s'

end Loops

variable {fetch : σ → α} {advance : σ → σ} {stop : α → Bool}

theorem taken_le (n : Nat) (s : σ) : taken fetch advance stop n s ≤ n := by
  induction n generalizing s with
  | zero => exact Nat.le_refl 0
  | succ n ih =>
    rw [taken]
    split
    · exact Nat.succ_pos n
    · exact Nat.succ_le_succ (ih (advance s))

theorem taken_pos (fetch : σ → α) (advance : σ → σ) (stop : α → Bool) {n : Nat} (some : 0 < n) (s : σ) : 0 < taken fetch advance stop n s := by
  cases n with
  | zero => exact absurd some (Nat.lt_irrefl 0)
  | succ n =>
    rw [taken]
    split
    · exact Nat.one_pos
    · exact Nat.succ_pos _

/-- Two ways to advance that agree on the states the loop passes. -/
theorem scan_congr {advance' : σ → σ} {P : σ → Prop} (agree : ∀ t, P t → advance t = advance' t)
    (keep : ∀ t, P t → P (advance' t)) {s : σ} (start : P s) (n : Nat) (last : α) :
    scan fetch advance stop n last s = scan fetch advance' stop n last s := by
  induction n generalizing s last with
  | zero => rfl
  | succ n ih => rw [scan, scan, agree s start, ih (keep s start)]

theorem scan_eq (n : Nat) (last : α) (s : σ) : scan fetch advance stop n last s =
    (n - taken fetch advance stop n s,
      if n = 0 then last else fetch (advance^[taken fetch advance stop n s - 1] s),
      advance^[taken fetch advance stop n s] s) := by
  induction n generalizing last s with
  | zero => rfl
  | succ n ih =>
    rw [scan, taken, if_neg (Nat.succ_ne_zero n)]
    split
    · rfl
    · rw [ih, Nat.succ_sub_succ, Nat.add_sub_cancel, Function.iterate_succ_apply]
      cases n with
      | zero => rfl
      | succ n =>
        have some := taken_pos fetch advance stop (Nat.succ_pos n) (advance s)
        obtain ⟨k, eq⟩ := Nat.exists_eq_add_of_lt some
        rw [if_neg (Nat.succ_ne_zero n), eq, Nat.zero_add, Nat.add_sub_cancel, Function.iterate_succ_apply,
          Function.iterate_succ_apply]

/-- The loop ends after `k` rounds: no round before the last stops it, and the last does if there are more. -/
structure Ends (fetch : σ → α) (advance : σ → σ) (stop : α → Bool) (n : Nat) (s : σ) (k : Nat) : Prop where
  le : k ≤ n
  pos : 0 < n → 0 < k
  goes : ∀ j, j + 1 < k → stop (fetch (advance^[j] s)) = false
  stops : k < n → stop (fetch (advance^[k - 1] s)) = true

theorem taken_ends (n : Nat) (s : σ) : Ends fetch advance stop n s (taken fetch advance stop n s) := by
  refine ⟨taken_le n s, fun some => taken_pos fetch advance stop some s, ?_, ?_⟩
  · induction n generalizing s with
    | zero => exact fun j lt => absurd lt (Nat.not_lt_zero _)
    | succ n ih =>
      intro j
      rw [taken]
      split
      case isTrue => exact fun lt => absurd lt (by omega)
      case isFalse goes =>
        intro lt
        cases j with
        | zero => exact Bool.eq_false_iff.mpr goes
        | succ j => exact ih (advance s) j (by omega)
  · induction n generalizing s with
    | zero => exact fun lt => absurd lt (Nat.not_lt_zero _)
    | succ n ih =>
      rw [taken]
      split
      case isTrue stops => exact fun _ => stops
      case isFalse =>
        intro lt
        have some := taken_pos fetch advance stop (by omega : 0 < n) (advance s)
        obtain ⟨k, eq⟩ := Nat.exists_eq_add_of_lt some
        have stops := ih (advance s) (by omega)
        rw [eq, Nat.zero_add, Nat.add_sub_cancel] at stops ⊢
        exact stops

theorem Ends.not_lt {n k k' : Nat} {s : σ} (ends : Ends fetch advance stop n s k) (ends' : Ends fetch advance stop n s k') :
    ¬ k < k' := by
  intro lt
  have le := ends'.le
  have some := ends.pos (by omega)
  have goes := ends'.goes (k - 1) (by omega)
  rw [ends.stops (by omega)] at goes
  cases goes

theorem Ends.taken_eq {n k : Nat} {s : σ} (ends : Ends fetch advance stop n s k) : taken fetch advance stop n s = k := by
  have first := ends.not_lt (taken_ends n s)
  have second := (taken_ends n s).not_lt ends
  omega

/-! ### Notes -/

/-- Notes and ticks do not touch what is fetched, and the last note hides the others. -/
structure Independent (fetch : σ → α) (advance : σ → σ) (note : α → σ → σ) (tick : σ → σ) : Prop where
  fetch_note : ∀ a s, fetch (note a s) = fetch s
  fetch_tick : ∀ s, fetch (tick s) = fetch s
  advance_note : ∀ a s, advance (note a s) = note a (advance s)
  advance_tick : ∀ s, advance (tick s) = tick (advance s)
  note_note : ∀ a b s, note b (note a s) = note b s
  note_tick : ∀ a s, note a (tick s) = tick (note a s)

variable {note : α → σ → σ} {tick : σ → σ}

theorem taken_map {g : σ → σ} (same : ∀ s, fetch (g s) = fetch s) (commutes : Function.Commute advance g) (n : Nat)
    (s : σ) : taken fetch advance stop n (g s) = taken fetch advance stop n s := by
  induction n generalizing s with
  | zero => rfl
  | succ n ih => rw [taken, taken, same, commutes s, ih]

theorem rounds_eq (apart : Independent fetch advance note tick) (n : Nat) (s : σ) :
    rounds fetch advance stop note tick n s = tick^[taken fetch advance stop n s]
      (if n = 0 then s else note (fetch (advance^[taken fetch advance stop n s - 1] s))
        (advance^[taken fetch advance stop n s] s)) := by
  induction n generalizing s with
  | zero => rfl
  | succ n ih =>
    rw [rounds, taken, if_neg (Nat.succ_ne_zero n)]
    split
    · rfl
    · have same (t : σ) : fetch (tick (note (fetch s) t)) = fetch t := by rw [apart.fetch_tick, apart.fetch_note]
      have commutes : Function.Commute advance fun t => tick (note (fetch s) t) := fun t => by
        rw [apart.advance_tick, apart.advance_note]
      have along (k : Nat) := (commutes.iterate_left k) (advance s)
      rw [ih, taken_map same commutes, Nat.add_sub_cancel]
      cases n with
      | zero => rfl
      | succ n =>
        have some := taken_pos fetch advance stop (Nat.succ_pos n) (advance s)
        obtain ⟨k, eq⟩ := Nat.exists_eq_add_of_lt some
        rw [if_neg (Nat.succ_ne_zero n), eq, Nat.zero_add, Nat.add_sub_cancel, along k, along (k + 1), same,
          apart.note_tick, apart.note_note]
        rfl

end RepeatScan
