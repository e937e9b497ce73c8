import Mathlib.Algebra.Group.Nat.Even
import Mathlib.Data.Fintype.EquivFin
import Mathlib.Data.Nat.ModEq
import Mathlib.Data.Nat.Prime.Basic
import Mathlib.Tactic.Positivity
import Mathlib.Tactic.Ring

/-!
# Open addressing

A table of cells in which each key has its own order of trying them. A cell in use may have lost its entry, and a search
goes on behind it. The order of growing steps comes past every cell of a table whose size is a power of two.
-/

namespace OpenAddressing

section Search

variable {ι κ : Type*}

/-- Cell `i` is met when `probe` is followed through cells in use. -/
def Along (probe : Nat → ι) (used : ι → Prop) (i : ι) : Prop := ∃ n, probe n = i ∧ ∀ m < n, used (probe m)

/-- The first cell of `probe` that meets `stop` is the one at `n`. -/
def EndsAt (probe : Nat → ι) (stop : ι → Prop) (n : Nat) : Prop := stop (probe n) ∧ ∀ m < n, ¬ stop (probe m)

theorem Along.mono {probe : Nat → ι} {used used' : ι → Prop} {i : ι} (along : Along probe used i)
    (more : ∀ j, used j → used' j) : Along probe used' i := by
  obtain ⟨n, at_n, before⟩ := along
  exact ⟨n, at_n, fun m lt => more _ (before m lt)⟩

theorem exists_endsAt (probe : Nat → ι) (stop : ι → Prop) {bound : Nat} (found : ∃ n < bound, stop (probe n)) :
    ∃ n < bound, EndsAt probe stop n := by
  classical
  obtain ⟨t, lt, here⟩ := found
  have some : ∃ n, stop (probe n) := ⟨t, here⟩
  refine ⟨Nat.find some, lt_of_le_of_lt (Nat.find_min' some here) lt, Nat.find_spec some, ?_⟩
  intro m before
  exact Nat.find_min some before

/-- The cells in use, those that hold an entry, and the keys of the entries. -/
@[ext] structure Cells (κ ι : Type*) where
  used : ι → Prop
  live : ι → Prop
  key : ι → κ

/-- No key is held twice, and every entry is met on the way its key is searched. -/
structure Cells.Ordered (probe : κ → Nat → ι) (c : Cells κ ι) : Prop where
  used_of_live : ∀ i, c.live i → c.used i
  distinct : ∀ i j, c.live i → c.live j → c.key i = c.key j → i = j
  along : ∀ i, c.live i → Along (probe (c.key i)) c.used i

/-- Where the search of a key ends: at a cell never used, or at its entry. -/
def Cells.stops (c : Cells κ ι) (k : κ) (i : ι) : Prop := ¬ c.used i ∨ c.live i ∧ c.key i = k

def Cells.Holds (c : Cells κ ι) (k : κ) : Prop := ∃ i, c.live i ∧ c.key i = k

variable {probe : κ → Nat → ι} {c : Cells κ ι} {k : κ} {n : Nat}

/-- A search ends at the entry of its key when there is one. -/
theorem Cells.Ordered.found (ordered : c.Ordered probe) (ends : EndsAt (probe k) (c.stops k) n) (held : c.Holds k) :
    c.live (probe k n) ∧ c.key (probe k n) = k := by
  obtain ⟨i, live, key⟩ := held
  obtain ⟨m, at_m, before⟩ := ordered.along i live
  rw [key] at at_m before
  have le : n ≤ m := by
    by_contra later
    exact ends.2 m (by omega) (Or.inr (by rw [at_m]; exact ⟨live, key⟩))
  rcases ends.1 with unused | match_
  · rcases le.lt_or_eq with lt | same
    · exact absurd (before n lt) unused
    · subst same
      exact absurd (ordered.used_of_live i live) (at_m ▸ unused)
  · exact match_

/-- The cells tried before the end of a search are all in use. -/
theorem EndsAt.along {i : ι} (ends : EndsAt (probe k) (c.stops k) n) {m : Nat} (le : m ≤ n) (at_m : probe k m = i) :
    Along (probe k) c.used i := by
  refine ⟨m, at_m, fun j lt => ?_⟩
  by_contra unused
  exact ends.2 j (by omega) (Or.inl unused)

/-- Losing an entry leaves its cell in use. -/
theorem Cells.Ordered.erase (ordered : c.Ordered probe) (i : ι) :
    Cells.Ordered probe { c with live := fun j => c.live j ∧ j ≠ i } :=
  ⟨fun j live => ordered.used_of_live j live.1, fun j l live live' => ordered.distinct j l live.1 live'.1,
    fun j live => ordered.along j live.1⟩

variable [DecidableEq ι]

def Cells.insert (c : Cells κ ι) (i : ι) (k : κ) : Cells κ ι where
  used j := c.used j ∨ j = i
  live j := c.live j ∨ j = i
  key := Function.update c.key i k

/-- An absent key goes to a cell without an entry that its search comes past. -/
theorem Cells.Ordered.insert (ordered : c.Ordered probe) {i : ι} (dead : ¬ c.live i) (absent : ¬ c.Holds k)
    (along : Along (probe k) c.used i) : (c.insert i k).Ordered probe := by
  have other : ∀ j, c.live j → j ≠ i := fun j live same => dead (same ▸ live)
  refine ⟨?_, ?_, ?_⟩
  · rintro j (live | rfl)
    · exact Or.inl (ordered.used_of_live j live)
    · exact Or.inr rfl
  · rintro j l (live | rfl) (live' | rfl) same
    · simp only [Cells.insert, Function.update_of_ne (other j live), Function.update_of_ne (other l live')] at same
      exact ordered.distinct j l live live' same
    · simp only [Cells.insert, Function.update_of_ne (other j live), Function.update_self] at same
      exact absurd ⟨j, live, same⟩ absent
    · simp only [Cells.insert, Function.update_of_ne (other l live'), Function.update_self] at same
      exact absurd ⟨l, live', same.symm⟩ absent
    · rfl
  · rintro j (live | rfl)
    · simp only [Cells.insert, Function.update_of_ne (other j live)]
      exact (ordered.along j live).mono fun _ => Or.inl
    · simp only [Cells.insert, Function.update_self]
      exact along.mono fun _ => Or.inl

end Search

section Triangular

/-- The cell after `n` steps of lengths 1, 2, … from `home`. -/
def cell (size home n : Nat) : Nat := (home + n * (n + 1) / 2) % size

variable {size home : Nat}

theorem cell_lt (pos : 0 < size) (n : Nat) : cell size home n < size := Nat.mod_lt _ pos

@[simp] theorem cell_zero : cell size home 0 = home % size := rfl

theorem cell_succ (n : Nat) : (cell size home n + (n + 1)) % size = cell size home (n + 1) := by
  have next : (n + 1) * (n + 1 + 1) / 2 = n * (n + 1) / 2 + (n + 1) := by
    rw [show (n + 1) * (n + 1 + 1) = n * (n + 1) + (n + 1) * 2 by ring, Nat.add_mul_div_right _ _ (by omega)]
  rw [cell, cell, next, Nat.mod_add_mod, Nat.add_assoc]

/-- Two triangular numbers differ by half a product of which one factor is odd. -/
theorem eq_of_dvd_gap {k a d : Nat} (lt : a + d < 2 ^ k) (dvd : 2 ^ (k + 1) ∣ d * (2 * a + d + 1)) : d = 0 := by
  by_contra pos
  rcases Nat.even_or_odd d with even | odd
  · have odd : Odd (2 * a + d + 1) := by
      obtain ⟨e, rfl⟩ := even
      exact ⟨a + e, by ring⟩
    have coprime : Nat.Coprime (2 ^ (k + 1)) (2 * a + d + 1) := (Nat.coprime_two_left.mpr odd).pow_left _
    have le := Nat.le_of_dvd (by omega) (coprime.dvd_of_dvd_mul_right dvd)
    rw [pow_succ] at le
    omega
  · have coprime : Nat.Coprime (2 ^ (k + 1)) d := (Nat.coprime_two_left.mpr odd).pow_left _
    have le := Nat.le_of_dvd (by omega) (coprime.dvd_of_dvd_mul_left dvd)
    rw [pow_succ] at le
    omega

theorem cell_injective {k a b : Nat} (le : a ≤ b) (lt : b < 2 ^ k) (same : cell (2 ^ k) home a = cell (2 ^ k) home b) :
    a = b := by
  obtain ⟨d, rfl⟩ := Nat.exists_eq_add_of_le le
  have half : ∀ n, n * (n + 1) / 2 * 2 = n * (n + 1) := fun n => Nat.div_mul_cancel (Nat.even_mul_succ_self n).two_dvd
  have congr : a * (a + 1) / 2 ≡ (a + d) * (a + d + 1) / 2 [MOD 2 ^ k] := Nat.ModEq.add_left_cancel' home same
  have mono : a * (a + 1) / 2 ≤ (a + d) * (a + d + 1) / 2 := Nat.div_le_div_right (by gcongr)
  have dvd := Nat.mul_dvd_mul_right ((Nat.modEq_iff_dvd' mono).mp congr) 2
  rw [← pow_succ, Nat.sub_mul, half, half,
    show (a + d) * (a + d + 1) - a * (a + 1) = d * (2 * a + d + 1) from Nat.sub_eq_of_eq_add (by ring)] at dvd
  have := eq_of_dvd_gap lt dvd
  omega

variable (home) in
/-- Within as many steps as there are cells, every cell is met. -/
theorem exists_cell {k i : Nat} (lt : i < 2 ^ k) : ∃ n < 2 ^ k, cell (2 ^ k) home n = i := by
  let walk : Fin (2 ^ k) → Fin (2 ^ k) := fun n => ⟨cell (2 ^ k) home n, cell_lt (by positivity) n⟩
  have injective : Function.Injective walk := by
    intro a b same
    have same : cell (2 ^ k) home a = cell (2 ^ k) home b := congrArg Fin.val same
    rcases Nat.le_total a b with le | le
    · exact Fin.ext (cell_injective le b.isLt same)
    · exact Fin.ext (cell_injective le a.isLt same.symm).symm
  obtain ⟨n, at_n⟩ := Finite.surjective_of_injective injective ⟨i, lt⟩
  exact ⟨n, n.isLt, congrArg Fin.val at_n⟩

end Triangular

end OpenAddressing
