import Mathlib.Algebra.BigOperators.Fin
import Mathlib.Algebra.Order.BigOperators.Group.List
import Mathlib.Algebra.Order.Ring.Nat

/-!
# Rows in one array

Lists laid out one after the other in one array: where each starts follows from the room of those before it, and they
are filled by appending to one of them at a time.
-/

namespace Box64

structure Rows (n : Nat) (α : Type) where
  start : Fin n → Nat
  size : Fin n → Nat
  cells : Nat → α

namespace Rows

variable {n : Nat} {α : Type}

def row (b : Rows n α) (k : Fin n) : List α := (List.range (b.size k)).map fun i => b.cells (b.start k + i)

def push (b : Rows n α) (k : Fin n) (v : α) : Rows n α where
  start := b.start
  size := Function.update b.size k (b.size k + 1)
  cells := Function.update b.cells (b.start k + b.size k) v

def pushAll (b : Rows n α) (entries : List (Fin n × α)) : Rows n α := entries.foldl (fun b e => b.push e.1 e.2) b

/-- How many of the entries go to a row. -/
def load (entries : List (Fin n × α)) (k : Fin n) : Nat := entries.countP fun e => e.1 = k

/-- What the entries put in a row. -/
def share (entries : List (Fin n × α)) (k : Fin n) : List α := (entries.filter fun e => e.1 = k).map Prod.snd

theorem load_pos {es : List (Fin n × α)} {k : Fin n} : load es k ≠ 0 ↔ ∃ v, (k, v) ∈ es := by
  unfold load
  rw [← Nat.pos_iff_ne_zero, List.countP_pos_iff]
  constructor
  · rintro ⟨⟨k', v⟩, member, same⟩
    obtain rfl := of_decide_eq_true same
    exact ⟨v, member⟩
  · rintro ⟨v, member⟩
    exact ⟨(k, v), member, decide_eq_true rfl⟩

theorem count_share [DecidableEq α] (es : List (Fin n × α)) (k : Fin n) (v : α) :
    (share es k).count v = es.count (k, v) := by
  unfold share
  induction es with
  | nil => rfl
  | cons e es ih =>
    rw [List.filter_cons, List.count_cons]
    by_cases same : e.1 = k
    · subst same
      rw [if_pos (decide_eq_true rfl), List.map_cons, List.count_cons, ih]
      congr 1
      obtain ⟨k, w⟩ := e
      by_cases value : w = v
      · subst value
        rw [if_pos (beq_self_eq_true w), if_pos (beq_self_eq_true (k, w))]
      · rw [if_neg (fun eq => value (beq_iff_eq.mp eq)), if_neg (fun eq => value (Prod.mk.inj (beq_iff_eq.mp eq)).2)]
    · rw [if_neg (fun eq => same (of_decide_eq_true eq)), ih,
        if_neg (fun eq => same (congrArg Prod.fst (beq_iff_eq.mp eq))), Nat.add_zero]

/-! ### Appending -/

theorem push_size (b : Rows n α) (k : Fin n) (v : α) :
    (b.push k v).size = Function.update b.size k (b.size k + 1) := rfl

theorem pushAll_append (b : Rows n α) (es fs : List (Fin n × α)) :
    b.pushAll (es ++ fs) = (b.pushAll es).pushAll fs := List.foldl_append

theorem pushAll_start (b : Rows n α) (es : List (Fin n × α)) : (b.pushAll es).start = b.start := by
  induction es generalizing b with
  | nil => rfl
  | cons e es ih => exact ih (b.push e.1 e.2)

theorem pushAll_size (b : Rows n α) (es : List (Fin n × α)) (k : Fin n) :
    (b.pushAll es).size k = b.size k + load es k := by
  induction es generalizing b with
  | nil => rfl
  | cons e es ih =>
    have step : (b.pushAll (e :: es)).size k = (b.push e.1 e.2).size k + load es k := ih (b.push e.1 e.2)
    rw [step, load, load, List.countP_cons, push_size]
    by_cases same : e.1 = k
    · subst same
      rw [Function.update_self, if_pos (decide_eq_true rfl)]
      omega
    · rw [Function.update_of_ne (Ne.symm same), if_neg (fun eq => same (of_decide_eq_true eq))]
      omega

/-- The rows keep apart if each has `room` cells of its own. -/
def Apart (start room : Fin n → Nat) : Prop := ∀ k k', k < k' → start k + room k ≤ start k'

theorem push_row_self (b : Rows n α) (k : Fin n) (v : α) : (b.push k v).row k = b.row k ++ [v] := by
  unfold row push
  simp only [Function.update_self]
  rw [List.range_succ, List.map_append, List.map_singleton, Function.update_self]
  congr 1
  apply List.map_congr_left
  intro i inside
  have lt := List.mem_range.mp inside
  exact Function.update_of_ne (by omega) _ _

theorem push_row_other {b : Rows n α} {room : Fin n → Nat} (apart : Apart b.start room) {k k' : Fin n}
    (free : b.size k < room k) (held : b.size k' ≤ room k') (other : k' ≠ k) (v : α) :
    (b.push k v).row k' = b.row k' := by
  unfold row push
  simp only [Function.update_of_ne other]
  apply List.map_congr_left
  intro i inside
  have lt := List.mem_range.mp inside
  refine Function.update_of_ne ?_ _ _
  obtain below | above := lt_or_gt_of_ne other
  · have bound := apart k' k below
    omega
  · have bound := apart k k' above
    omega

/-- Entries for which there is room end up in their rows, in order. -/
theorem pushAll_row {b : Rows n α} {room : Fin n → Nat} (apart : Apart b.start room) {es : List (Fin n × α)}
    (fits : ∀ k, b.size k + load es k ≤ room k) (k : Fin n) : (b.pushAll es).row k = b.row k ++ share es k := by
  induction es generalizing b with
  | nil => exact (List.append_nil _).symm
  | cons e es ih =>
    have sizes : ∀ k, (b.push e.1 e.2).size k + load es k = b.size k + load (e :: es) k := by
      intro k
      rw [← pushAll_size (b.push e.1 e.2), ← pushAll_size b]
      rfl
    have rest := ih (b := b.push e.1 e.2) apart (fun k => by rw [sizes]; exact fits k)
    have step : (b.pushAll (e :: es)).row k = (b.push e.1 e.2).row k ++ share es k := rest
    rw [step, share, share, List.filter_cons]
    by_cases same : e.1 = k
    · subst same
      rw [push_row_self, if_pos (decide_eq_true rfl), List.map_cons, List.append_assoc]
      rfl
    · have free : b.size e.1 < room e.1 := by
        have bound := fits e.1
        rw [load, List.countP_cons, if_pos (decide_eq_true rfl)] at bound
        omega
      have held : b.size k ≤ room k := (Nat.le_add_right _ _).trans (fits k)
      rw [push_row_other apart free held (Ne.symm same), if_neg (fun eq => same (of_decide_eq_true eq))]

/-- Every entry is in one row. -/
theorem sum_load (es : List (Fin n × α)) : ∑ k, load es k = es.length := by
  induction es with
  | nil => exact Finset.sum_const_zero
  | cons e es ih =>
    have one : ∀ k, load (e :: es) k = load es k + if e.1 = k then 1 else 0 := by
      intro k
      rw [load, List.countP_cons, load]
      simp only [decide_eq_true_eq]
    simp only [one]
    rw [Finset.sum_add_distrib, ih, Finset.sum_ite_eq, if_pos (Finset.mem_univ _), List.length_cons]

/-! ### Laying out -/

/-- Where a row starts: after the room of those before it. -/
def offset (room : Fin n → Nat) (k : Nat) : Nat := ((List.ofFn room).take k).sum

theorem offset_succ (room : Fin n → Nat) (k : Fin n) : offset room (k.val + 1) = offset room k.val + room k := by
  unfold offset
  rw [List.sum_take_succ _ _ (by rw [List.length_ofFn]; exact k.isLt), List.getElem_ofFn]

theorem offset_mono (room : Fin n → Nat) {i j : Nat} (le : i ≤ j) : offset room i ≤ offset room j := by
  unfold offset
  exact (List.take_sublist_take_left le).sum_le_sum fun _ _ => Nat.zero_le _

theorem offset_apart (room : Fin n → Nat) : Apart (fun k : Fin n => offset room k.val) room := by
  intro k k' lt
  rw [← offset_succ]
  exact offset_mono room lt

theorem offset_full (room : Fin n → Nat) : offset room n = ∑ k, room k := by
  unfold offset
  rw [List.take_of_length_le (by rw [List.length_ofFn]), List.sum_ofFn]

end Rows

end Box64
