import Mathlib.Data.List.Chain

/-!
# Tilings of an interval by headed tiles

A run of tiles, each a header of `h` cells followed by its own cells, used or free. The
operations are those of a coalescing allocator: split a free tile, and release a used
one into its free neighbours.
-/

namespace Tiling

structure Tile where
  size : Nat
  fill : Bool
deriving DecidableEq, Repr

variable (h : Nat)

/-- The cells a run of tiles takes, headers included. -/
def extent : List Tile → Nat
  | [] => 0
  | t :: ts => h + t.size + extent ts

/-- The tiles of a run that starts at `a`, each with the place of its header. -/
def place (a : Nat) : List Tile → List (Nat × Tile)
  | [] => []
  | t :: ts => (a, t) :: place (a + h + t.size) ts

/-- Of two neighbours at least one is used. -/
def Separated (ts : List Tile) : Prop := ts.IsChain (fun s t => s.fill = true ∨ t.fill = true)

/-- The tiles a free tile of `n` cells becomes when `size` of them are asked for: the rest is a
tile of its own only when it has more than a header of `slack` cells. -/
def split (slack n size : Nat) : List Tile :=
  if size + slack < n then [⟨size, true⟩, ⟨n - size - h, false⟩] else [⟨n, true⟩]

/-- A free tile of `n` cells takes in the first of the tiles beside it when that one is free. -/
def absorb : List Tile → Nat → List Tile × Nat
  | [], n => ([], n)
  | t :: ts, n => if t.fill then (t :: ts, n) else (ts, n + t.size + h)

/-- The run after its tile of `n` cells between `left` (nearest first) and `right` is freed. -/
def release (left right : List Tile) (n : Nat) : List Tile :=
  (absorb h left n).1.reverse ++ ⟨(absorb h right (absorb h left n).2).2, false⟩ ::
    (absorb h right (absorb h left n).2).1

/-- The size of the largest free tile, 0 when there is none. -/
def maxFree : List Tile → Nat
  | [] => 0
  | t :: ts => if t.fill then maxFree ts else max t.size (maxFree ts)

variable {h}

/-! ### Extents and places -/

@[simp] theorem extent_nil : extent h [] = 0 := rfl

@[simp] theorem extent_cons (t : Tile) (ts : List Tile) :
    extent h (t :: ts) = h + t.size + extent h ts := rfl

@[simp] theorem extent_append (xs ys : List Tile) :
    extent h (xs ++ ys) = extent h xs + extent h ys := by
  induction xs with
  | nil => simp
  | cons t ts ih => simp [ih, Nat.add_assoc]

@[simp] theorem extent_reverse (ts : List Tile) : extent h ts.reverse = extent h ts := by
  induction ts with
  | nil => rfl
  | cons t ts ih => simp [ih]; omega

@[simp] theorem place_nil (a : Nat) : place h a [] = [] := rfl

@[simp] theorem place_cons (a : Nat) (t : Tile) (ts : List Tile) :
    place h a (t :: ts) = (a, t) :: place h (a + h + t.size) ts := rfl

@[simp] theorem length_place (a : Nat) (ts : List Tile) : (place h a ts).length = ts.length := by
  induction ts generalizing a with
  | nil => rfl
  | cons t ts ih => simp [ih]

theorem place_append (a : Nat) (xs ys : List Tile) :
    place h a (xs ++ ys) = place h a xs ++ place h (a + extent h xs) ys := by
  induction xs generalizing a with
  | nil => simp
  | cons t ts ih => simp [ih, Nat.add_assoc]

theorem mem_place {a x : Nat} {t : Tile} {ts : List Tile} :
    (x, t) ∈ place h a ts ↔ ∃ pre post, ts = pre ++ t :: post ∧ x = a + extent h pre := by
  constructor
  · intro mem
    induction ts generalizing a with
    | nil => cases mem
    | cons u us ih =>
      rcases List.mem_cons.mp mem with same | later
      · obtain ⟨rfl, rfl⟩ := Prod.mk.inj same
        exact ⟨[], us, rfl, rfl⟩
      · obtain ⟨pre, post, rfl, rfl⟩ := ih later
        exact ⟨u :: pre, post, rfl, by simp; omega⟩
  · rintro ⟨pre, post, rfl, rfl⟩
    simp [place_append]

theorem place_within {a x : Nat} {t : Tile} {ts : List Tile} (mem : (x, t) ∈ place h a ts) :
    a ≤ x ∧ x + h + t.size ≤ a + extent h ts := by
  obtain ⟨pre, post, rfl, rfl⟩ := mem_place.mp mem
  simp only [extent_append, extent_cons]
  omega

/-- Tiles at two places lie one after the other. -/
theorem place_pairwise (a : Nat) (ts : List Tile) :
    (place h a ts).Pairwise (fun p q => p.1 + h + p.2.size ≤ q.1) := by
  induction ts generalizing a with
  | nil => exact .nil
  | cons t ts ih =>
    rw [place_cons, List.pairwise_cons]
    exact ⟨fun q mem => (place_within mem).1, ih _⟩

theorem place_disjoint {a : Nat} {ts : List Tile} {p q : Nat × Tile} (hp : p ∈ place h a ts)
    (hq : q ∈ place h a ts) (differ : p ≠ q) :
    p.1 + h + p.2.size ≤ q.1 ∨ q.1 + h + q.2.size ≤ p.1 := by
  obtain ⟨i, hi, rfl⟩ := List.getElem_of_mem hp
  obtain ⟨j, hj, rfl⟩ := List.getElem_of_mem hq
  have ordered := List.pairwise_iff_getElem.mp (place_pairwise (h := h) a ts)
  rcases Nat.lt_trichotomy i j with lt | same | gt
  · exact .inl (ordered i j hi hj lt)
  · subst same
    exact absurd rfl differ
  · exact .inr (ordered j i hj hi gt)

theorem place_functional (pos : 0 < h) {a x : Nat} {ts : List Tile} {t u : Tile}
    (ht : (x, t) ∈ place h a ts) (hu : (x, u) ∈ place h a ts) : t = u := by
  by_contra differ
  have apart := place_disjoint ht hu (fun same => differ (Prod.mk.inj same).2)
  dsimp only at apart
  omega

/-! ### Splitting -/

theorem extent_split {slack n size : Nat} (big : h ≤ slack) :
    extent h (split h slack n size) = h + n := by
  unfold split
  split
  · simp only [extent_cons, extent_nil]
    omega
  · simp

theorem split_pos {slack n size : Nat} (big : h ≤ slack) (pos : 0 < size) (fits : size ≤ n) :
    ∀ t ∈ split h slack n size, 0 < t.size := by
  intro t mem
  unfold split at mem
  split at mem
  · simp only [List.mem_cons, List.not_mem_nil, or_false] at mem
    rcases mem with rfl | rfl
    · exact pos
    · dsimp only
      omega
  · obtain rfl := List.mem_singleton.mp mem
    dsimp only
    omega

/-- The first tile of a split is used and has the cells asked for. -/
theorem split_head (slack : Nat) {n size : Nat} (fits : size ≤ n) :
    ∃ m rest, split h slack n size = ⟨m, true⟩ :: rest ∧ size ≤ m ∧ ∀ t ∈ rest, t.fill = false := by
  unfold split
  split
  · exact ⟨size, _, rfl, Nat.le_refl _, by simp⟩
  · exact ⟨n, [], rfl, fits, by simp⟩

/-! ### Separation -/

/-- Both outcomes of `absorb`: nothing taken in, or one free tile. -/
theorem absorb_cases (side : List Tile) (n : Nat) :
    (absorb h side n = (side, n) ∧ ∀ u ∈ side.head?, u.fill = true) ∨
      ∃ t ts, side = t :: ts ∧ t.fill = false ∧ absorb h side n = (ts, n + t.size + h) := by
  cases side with
  | nil => exact .inl ⟨rfl, by simp⟩
  | cons t ts =>
    by_cases used : t.fill = true
    · exact .inl ⟨by simp [absorb, used], by simpa using used⟩
    · exact .inr ⟨t, ts, rfl, by simpa using used, by simp [absorb, used]⟩

theorem separated_zipper (left right : List Tile) (t : Tile) :
    Separated (left.reverse ++ t :: right) ↔ Separated (t :: left) ∧ Separated (t :: right) := by
  unfold Separated
  rw [List.isChain_split, ← List.reverse_cons, List.isChain_reverse]
  simp only [or_comm]

theorem separated_cons (t : Tile) (ts : List Tile) :
    Separated (t :: ts) ↔ (∀ u ∈ ts.head?, t.fill = true ∨ u.fill = true) ∧ Separated ts :=
  List.isChain_cons

/-- Separation looks at the first tile's use only. -/
theorem separated_resize {n m : Nat} {f : Bool} {ts : List Tile} :
    Separated (⟨n, f⟩ :: ts) ↔ Separated (⟨m, f⟩ :: ts) := by
  simp only [separated_cons]

theorem separated_use {n m : Nat} {f : Bool} {ts : List Tile} (sep : Separated (⟨n, f⟩ :: ts)) :
    Separated (⟨m, true⟩ :: ts) := by
  rw [separated_cons] at sep ⊢
  exact ⟨fun _ _ => .inl rfl, sep.2⟩

theorem separated_split {slack n size : Nat} {left right : List Tile}
    (sep : Separated (left.reverse ++ ⟨n, false⟩ :: right)) :
    Separated (left.reverse ++ split h slack n size ++ right) := by
  obtain ⟨before, after⟩ := (separated_zipper ..).mp sep
  unfold split
  split
  · rw [List.append_assoc]
    refine (separated_zipper ..).mpr ⟨separated_use before, ?_⟩
    exact (separated_cons ..).mpr ⟨fun _ _ => .inl rfl, separated_resize.mp after⟩
  · rw [List.append_assoc]
    exact (separated_zipper ..).mpr ⟨separated_use before, separated_use after⟩

theorem separated_absorb {side : List Tile} {n m : Nat} (sep : Separated (⟨m, true⟩ :: side)) :
    Separated (⟨(absorb h side n).2, false⟩ :: (absorb h side n).1) := by
  have rest := ((separated_cons ..).mp sep).2
  rcases absorb_cases (h := h) side n with ⟨same, used⟩ | ⟨t, ts, rfl, free, taken⟩
  · rw [same]
    exact (separated_cons ..).mpr ⟨fun u mem => .inr (used u mem), rest⟩
  · -- the tile taken in was free, so the one behind it is used
    rw [taken]
    obtain ⟨next, tail⟩ := (separated_cons ..).mp rest
    exact (separated_cons ..).mpr ⟨fun u mem => .inr ((next u mem).resolve_left (by simp [free])), tail⟩

theorem separated_release {left right : List Tile} {n : Nat}
    (sep : Separated (left.reverse ++ ⟨n, true⟩ :: right)) : Separated (release h left right n) := by
  obtain ⟨before, after⟩ := (separated_zipper ..).mp sep
  exact (separated_zipper ..).mpr ⟨separated_resize.mp (separated_absorb before), separated_absorb after⟩

/-! ### Releasing -/

theorem extent_absorb (side : List Tile) (n : Nat) :
    extent h (absorb h side n).1 + (absorb h side n).2 = extent h side + n := by
  rcases absorb_cases (h := h) side n with ⟨same, -⟩ | ⟨t, ts, rfl, -, taken⟩
  · rw [same]
  · rw [taken]
    simp only [extent_cons]
    omega

theorem le_absorb (side : List Tile) (n : Nat) : n ≤ (absorb h side n).2 := by
  rcases absorb_cases (h := h) side n with ⟨same, -⟩ | ⟨u, ts, rfl, -, taken⟩
  · rw [same]
  · rw [taken]
    dsimp only
    omega

/-- The size of the tile a release leaves in place of the freed one. -/
def releasedSize (h : Nat) (left right : List Tile) (n : Nat) : Nat :=
  (absorb h right (absorb h left n).2).2

theorem released_mem (left right : List Tile) (n : Nat) :
    (⟨releasedSize h left right n, false⟩ : Tile) ∈ release h left right n :=
  List.mem_append_right _ List.mem_cons_self

/-- A tile that a release takes in was smaller than the tile it leaves. -/
theorem absorb_keeps {side : List Tile} {n : Nat} {t : Tile} (pos : 0 < h) (mem : t ∈ side) :
    t ∈ (absorb h side n).1 ∨ t.size < (absorb h side n).2 := by
  rcases absorb_cases (h := h) side n with ⟨same, -⟩ | ⟨u, ts, rfl, -, taken⟩
  · rw [same]
    exact .inl mem
  · rw [taken]
    rcases List.mem_cons.mp mem with rfl | later
    · right
      dsimp only
      omega
    · exact .inl later

theorem release_keeps {left right : List Tile} {n : Nat} {t : Tile} (pos : 0 < h)
    (mem : t ∈ left ∨ t ∈ right) : t ∈ release h left right n ∨ t.size < releasedSize h left right n := by
  have grows : (absorb h left n).2 ≤ releasedSize h left right n := le_absorb _ _
  rcases mem with before | after
  · rcases absorb_keeps (n := n) pos before with kept | small
    · exact .inl (List.mem_append_left _ (List.mem_reverse.mpr kept))
    · exact .inr (by omega)
  · rcases absorb_keeps (n := (absorb h left n).2) pos after with kept | small
    · exact .inl (List.mem_append_right _ (List.mem_cons_of_mem _ kept))
    · exact .inr small

/-! ### Used tiles stay in place -/

theorem place_zipper (a : Nat) (left right : List Tile) (t : Tile) :
    place h a (left.reverse ++ t :: right) =
      place h a left.reverse ++ (a + extent h left, t) :: place h (a + extent h left + h + t.size) right := by
  rw [place_append, extent_reverse, place_cons]

/-- A tile at its place, with the tiles before it (nearest first) and behind. -/
theorem placed_zipper {a x : Nat} {t : Tile} {ts : List Tile} (placed : (x, t) ∈ place h a ts) :
    ∃ left right, ts = left.reverse ++ t :: right ∧ x = a + extent h left := by
  obtain ⟨pre, post, rfl, rfl⟩ := mem_place.mp placed
  exact ⟨pre.reverse, post, by rw [List.reverse_reverse], by rw [extent_reverse]⟩

theorem split_used {a x n size slack : Nat} {left right : List Tile} {u : Tile} (big : h ≤ slack)
    (mem : (x, u) ∈ place h a (left.reverse ++ ⟨n, false⟩ :: right))
    (used : u.fill = true) : (x, u) ∈ place h a (left.reverse ++ split h slack n size ++ right) := by
  rw [place_zipper] at mem
  rw [List.append_assoc, place_append, place_append, extent_split big, extent_reverse]
  rcases List.mem_append.mp mem with before | here
  · exact List.mem_append_left _ before
  · rcases List.mem_cons.mp here with same | after
    · obtain ⟨-, rfl⟩ := Prod.mk.inj same
      cases used
    · refine List.mem_append_right _ (List.mem_append_right _ ?_)
      rwa [← Nat.add_assoc]

theorem absorb_used_left {a x n : Nat} {left : List Tile} {u : Tile}
    (mem : (x, u) ∈ place h a left.reverse) (used : u.fill = true) :
    (x, u) ∈ place h a (absorb h left n).1.reverse := by
  rcases absorb_cases (h := h) left n with ⟨same, -⟩ | ⟨t, ts, rfl, free, taken⟩
  · rwa [same]
  · rw [taken]
    rw [List.reverse_cons, place_append] at mem
    rcases List.mem_append.mp mem with before | here
    · exact before
    · obtain ⟨-, rfl⟩ := Prod.mk.inj (List.mem_singleton.mp here)
      rw [used] at free
      cases free

theorem absorb_used_right {a x n : Nat} {right : List Tile} {u : Tile}
    (mem : (x, u) ∈ place h (a + n) right) (used : u.fill = true) :
    (x, u) ∈ place h (a + (absorb h right n).2) (absorb h right n).1 := by
  rcases absorb_cases (h := h) right n with ⟨same, -⟩ | ⟨t, ts, rfl, free, taken⟩
  · rwa [same]
  · rw [taken]
    rcases List.mem_cons.mp mem with here | after
    · obtain ⟨-, rfl⟩ := Prod.mk.inj here
      rw [used] at free
      cases free
    · have place : a + (n + t.size + h) = a + n + h + t.size := by omega
      rwa [place]

theorem release_used {a x n : Nat} {left right : List Tile} {u : Tile}
    (mem : (x, u) ∈ place h a (left.reverse ++ ⟨n, true⟩ :: right)) (used : u.fill = true)
    (other : x ≠ a + extent h left) : (x, u) ∈ place h a (release h left right n) := by
  have hl := extent_absorb (h := h) left n
  rw [place_zipper] at mem
  rw [release, place_zipper]
  rcases List.mem_append.mp mem with before | here
  · exact List.mem_append_left _ (absorb_used_left before used)
  · rcases List.mem_cons.mp here with same | after
    · exact absurd (Prod.mk.inj same).1 other
    · refine List.mem_append_right _ (List.mem_cons_of_mem _ ?_)
      have start : a + extent h left + h + n = a + extent h (absorb h left n).1 + h + (absorb h left n).2 := by
        omega
      rw [start] at after
      exact absorb_used_right after used

/-! ### The largest free tile -/

theorem le_maxFree {t : Tile} {ts : List Tile} (mem : t ∈ ts) (free : t.fill = false) :
    t.size ≤ maxFree ts := by
  induction ts with
  | nil => cases mem
  | cons u us ih =>
    unfold maxFree
    rcases List.mem_cons.mp mem with rfl | later
    · rw [free]
      exact Nat.le_max_left ..
    · split
      · exact ih later
      · exact Nat.le_trans (ih later) (Nat.le_max_right ..)

theorem maxFree_attained (ts : List Tile) :
    maxFree ts = 0 ∨ ∃ t ∈ ts, t.fill = false ∧ t.size = maxFree ts := by
  induction ts with
  | nil => exact .inl rfl
  | cons u us ih =>
    unfold maxFree
    split
    case isTrue used =>
      rcases ih with none | ⟨t, mem, free, size⟩
      · exact .inl none
      · exact .inr ⟨t, List.mem_cons_of_mem _ mem, free, size⟩
    case isFalse free =>
      rcases Nat.le_total (maxFree us) u.size with small | large
      · rw [Nat.max_eq_left small]
        exact .inr ⟨u, List.mem_cons_self, by simpa using free, rfl⟩
      · rw [Nat.max_eq_right large]
        rcases ih with none | ⟨t, mem, free, size⟩
        · exact .inl none
        · exact .inr ⟨t, List.mem_cons_of_mem _ mem, free, size⟩

theorem maxFree_append (xs ys : List Tile) : maxFree (xs ++ ys) = max (maxFree xs) (maxFree ys) := by
  induction xs with
  | nil => simp [maxFree]
  | cons t ts ih =>
    rw [List.cons_append, maxFree, maxFree, ih]
    split
    · rfl
    · rw [Nat.max_assoc]

theorem maxFree_reverse (ts : List Tile) : maxFree ts.reverse = maxFree ts := by
  induction ts with
  | nil => rfl
  | cons t ts ih =>
    rw [List.reverse_cons, maxFree_append, ih, maxFree, maxFree, maxFree]
    split
    · exact Nat.max_zero _
    · rw [Nat.max_zero, Nat.max_comm]

/-- One step of a search for the largest free tile. -/
theorem max_maxFree_cons (acc : Nat) (t : Tile) (ts : List Tile) :
    max (if t.fill = false ∧ acc < t.size then t.size else acc) (maxFree ts) = max acc (maxFree (t :: ts)) := by
  obtain ⟨size, fill⟩ := t
  cases fill
  · simp only [true_and, maxFree, Bool.false_eq_true, ↓reduceIte]
    split <;> omega
  · simp [maxFree]

end Tiling
