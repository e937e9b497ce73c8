import Box64.Include.Khash
import Box64.Lib.OpenAddressing
import Mathlib.Data.Finset.Card
import Mathlib.Tactic.IntervalCases
import Mathlib.Tactic.Positivity

/-!
# The buckets of a hash table as cells

What the flag macros do to the two bits of each bucket, and the loops of `kh_get` and `kh_put` as searches of an open
addressing table.
-/

namespace Box64.Khash
open OpenAddressing
open Function (update)

/-! ### Flags -/

/-- Bit `b` of the flags of bucket `i`. -/
def flagBit (flag : Flags) (i b : Nat) : Bool := (flag (i / 16)).getLsbD (i % 16 * 2 + b)

theorem and_ne_zero {x m : BitVec 32} : (x &&& m != 0) = true ↔ ∃ b, x.getLsbD b = true ∧ m.getLsbD b = true := by
  rw [bne_iff_ne, ← not_iff_not, not_not]
  change x &&& m = 0#32 ↔ _
  rw [BitVec.eq_of_getLsbD_eq_iff]
  simp only [BitVec.getLsbD_and, BitVec.getLsbD_zero, Bool.and_eq_false_iff, not_exists, not_and, Bool.not_eq_true]
  constructor
  · intro all b set
    by_cases lt : b < 32
    · rcases all b lt with clear | clear
      · simp [clear] at set
      · exact clear
    · exact BitVec.getLsbD_of_ge _ _ (by omega)
  · intro all b _
    cases set : x.getLsbD b
    · exact Or.inl rfl
    · exact Or.inr (all b set)

theorem getLsbD_one_iff (b : Nat) : (1 : BitVec 32).getLsbD b = decide (b = 0) := by
  rw [show (1 : BitVec 32) = BitVec.twoPow 32 0 from rfl, BitVec.getLsbD_twoPow]
  simp [eq_comm]

theorem getLsbD_two_iff (b : Nat) : (2 : BitVec 32).getLsbD b = decide (b = 1) := by
  rw [show (2 : BitVec 32) = BitVec.twoPow 32 1 from rfl, BitVec.getLsbD_twoPow]
  simp [eq_comm]

theorem getLsbD_three_iff (b : Nat) : (3 : BitVec 32).getLsbD b = decide (b < 2) := by
  rw [show (3 : BitVec 32) = 1 ||| 2 from rfl, BitVec.getLsbD_or, getLsbD_one_iff, getLsbD_two_iff, ← Bool.decide_or]
  exact decide_eq_decide.mpr (by omega)

theorem small_two (b : Nat) (set : (2 : BitVec 32).getLsbD b = true) : b < 2 := by
  rw [getLsbD_two_iff, decide_eq_true_eq] at set
  omega

theorem small_three (b : Nat) (set : (3 : BitVec 32).getLsbD b = true) : b < 2 := by
  rwa [getLsbD_three_iff, decide_eq_true_eq] at set

section Bits
variable (flag : Flags) (i j : Nat)

theorem word_index : i >>> 4 = i / 16 := Nat.shiftRight_eq_div_pow i 4

theorem word_offset : (i &&& 0xf) <<< 1 = i % 16 * 2 := by
  rw [show (0xf : Nat) = 2 ^ 4 - 1 from rfl, Nat.and_two_pow_sub_one_eq_mod, Nat.shiftLeft_eq]

theorem acIsempty_eq : acIsempty flag i = flagBit flag i 1 := by
  apply Bool.eq_iff_iff.mpr
  unfold acIsempty flagBit
  rw [and_ne_zero, word_index, word_offset]
  simp only [BitVec.getLsbD_ushiftRight, getLsbD_two_iff, decide_eq_true_eq]
  constructor
  · rintro ⟨b, set, rfl⟩
    exact set
  · intro set
    exact ⟨1, set, rfl⟩

theorem acIsdel_eq : acIsdel flag i = flagBit flag i 0 := by
  apply Bool.eq_iff_iff.mpr
  unfold acIsdel flagBit
  rw [and_ne_zero, word_index, word_offset]
  simp only [BitVec.getLsbD_ushiftRight, getLsbD_one_iff, decide_eq_true_eq]
  constructor
  · rintro ⟨b, set, rfl⟩
    exact set
  · intro set
    exact ⟨0, set, rfl⟩

theorem acIseither_eq : acIseither flag i = (acIsempty flag i || acIsdel flag i) := by
  apply Bool.eq_iff_iff.mpr
  rw [acIsempty_eq, acIsdel_eq]
  unfold acIseither flagBit
  rw [and_ne_zero, word_index, word_offset, Bool.or_eq_true]
  simp only [BitVec.getLsbD_ushiftRight, getLsbD_three_iff, decide_eq_true_eq]
  constructor
  · rintro ⟨b, set, lt⟩
    interval_cases b
    · exact Or.inr set
    · exact Or.inl set
  · rintro (set | set)
    · exact ⟨1, set, by omega⟩
    · exact ⟨0, set, by omega⟩

/-- Clearing bits of one bucket's flags. -/
theorem flagBit_clear (m : BitVec 32) (small : ∀ b, m.getLsbD b = true → b < 2) {b : Nat} (lt : b < 2) :
    flagBit (update flag (i / 16) (flag (i / 16) &&& ~~~(m <<< (i % 16 * 2)))) j b =
      (flagBit flag j b && !(decide (j = i) && m.getLsbD b)) := by
  unfold flagBit
  by_cases same : j / 16 = i / 16
  · rw [same, Function.update_self, BitVec.getLsbD_and, BitVec.getLsbD_not, BitVec.getLsbD_shiftLeft,
      decide_eq_true (show j % 16 * 2 + b < 32 by omega), Bool.true_and, Bool.true_and]
    congr 2
    by_cases eq : j = i
    · subst eq
      simp
    · simp only [eq, decide_false, Bool.false_and, Bool.and_eq_false_iff, Bool.not_eq_eq_eq_not, Bool.not_false, decide_eq_true_eq]
      by_cases below : j % 16 * 2 + b < i % 16 * 2
      · exact Or.inl below
      · right
        apply Bool.eq_false_iff.mpr
        intro set
        have := small _ set
        omega
  · have ne : j ≠ i := fun eq => same (eq ▸ rfl)
    rw [Function.update_of_ne same]
    simp [ne]

theorem acIsempty_setIsemptyFalse : acIsempty (acSetIsemptyFalse flag i) j = (acIsempty flag j && decide (j ≠ i)) := by
  rw [acIsempty_eq, acIsempty_eq, acSetIsemptyFalse, word_index, word_offset,
    flagBit_clear flag i j 2 small_two (by omega), getLsbD_two_iff]
  simp

theorem acIsdel_setIsemptyFalse : acIsdel (acSetIsemptyFalse flag i) j = acIsdel flag j := by
  rw [acIsdel_eq, acIsdel_eq, acSetIsemptyFalse, word_index, word_offset,
    flagBit_clear flag i j 2 small_two (by omega), getLsbD_two_iff]
  simp

theorem acIsempty_setIsbothFalse : acIsempty (acSetIsbothFalse flag i) j = (acIsempty flag j && decide (j ≠ i)) := by
  rw [acIsempty_eq, acIsempty_eq, acSetIsbothFalse, word_index, word_offset,
    flagBit_clear flag i j 3 small_three (by omega), getLsbD_three_iff]
  simp

theorem acIsdel_setIsbothFalse : acIsdel (acSetIsbothFalse flag i) j = (acIsdel flag j && decide (j ≠ i)) := by
  rw [acIsdel_eq, acIsdel_eq, acSetIsbothFalse, word_index, word_offset,
    flagBit_clear flag i j 3 small_three (by omega), getLsbD_three_iff]
  simp

theorem flagBit_setIsdelTrue {b : Nat} (lt : b < 2) :
    flagBit (acSetIsdelTrue flag i) j b = (flagBit flag j b || (decide (j = i) && decide (b = 0))) := by
  rw [acSetIsdelTrue, word_index, word_offset]
  unfold flagBit
  by_cases same : j / 16 = i / 16
  · rw [same, Function.update_self, BitVec.getLsbD_or, BitVec.getLsbD_shiftLeft,
      decide_eq_true (show j % 16 * 2 + b < 32 by omega), Bool.true_and, getLsbD_one_iff, ← Bool.decide_and, ← decide_not,
      ← Bool.decide_and]
    congr 1
    exact decide_eq_decide.mpr (by omega)
  · have ne : j ≠ i := fun eq => same (eq ▸ rfl)
    rw [Function.update_of_ne same]
    simp [ne]

theorem acIsempty_setIsdelTrue : acIsempty (acSetIsdelTrue flag i) j = acIsempty flag j := by
  rw [acIsempty_eq, acIsempty_eq, flagBit_setIsdelTrue flag i j (by omega)]
  simp

theorem acIsdel_setIsdelTrue : acIsdel (acSetIsdelTrue flag i) j = (acIsdel flag j || decide (j = i)) := by
  rw [acIsdel_eq, acIsdel_eq, flagBit_setIsdelTrue flag i j (by omega)]
  simp

theorem acIsempty_memsetAa : acIsempty memsetAa i = true := by
  rw [acIsempty_eq]
  unfold flagBit memsetAa
  have lt : i % 16 < 16 := Nat.mod_lt _ (by omega)
  generalize i % 16 = r at lt
  revert lt
  decide +revert

theorem acIsdel_memsetAa : acIsdel memsetAa i = false := by
  rw [acIsdel_eq]
  unfold flagBit memsetAa
  have lt : i % 16 < 16 := Nat.mod_lt _ (by omega)
  generalize i % 16 = r at lt
  revert lt
  decide +revert

end Bits

/-! ### Cells -/

variable {κ ν : Type} (hash : κ → BitVec 32)

/-- The first `n` buckets under flags and keys. -/
def cellsOf (n : Nat) (flag : Flags) (keys : Nat → κ) : Cells κ Nat where
  used i := i < n ∧ acIsempty flag i = false
  live i := i < n ∧ acIseither flag i = false
  key := keys

def Kh.cells (h : Kh κ ν) : Cells κ Nat := cellsOf h.nBuckets h.flags h.keys

/-- The buckets of a table of `n` in the order in which `key` tries them. -/
def way (n : Nat) (key : κ) (step : Nat) : Nat := cell n (hash key).toNat step

def usedCount (n : Nat) (flag : Flags) : Nat := ((Finset.range n).filter fun i => acIsempty flag i = false).card

def liveCount (n : Nat) (flag : Flags) : Nat := ((Finset.range n).filter fun i => acIseither flag i = false).card

/-- What every operation keeps: the sizes are what they say, and each entry is met on the way of its key. -/
structure Inv (h : Kh κ ν) : Prop where
  sized : h.nBuckets = 0 ∧ h.upperBound = 0 ∨ ∃ k, 2 ≤ k ∧ k ≤ 31 ∧ h.nBuckets = 2 ^ k ∧ h.upperBound = hashUpper (2 ^ k)
  size : h.size = liveCount h.nBuckets h.flags
  occupied : h.nOccupied = usedCount h.nBuckets h.flags
  bounded : h.nOccupied ≤ h.upperBound
  ordered : h.cells.Ordered (way hash h.nBuckets)

section Ways
variable {hash} {key : κ} {k : Nat}

theorem and_mask (x : Nat) : x &&& (2 ^ k - 1) = x % 2 ^ k := Nat.and_two_pow_sub_one_eq_mod x k

theorem way_zero : (hash key).toNat &&& (2 ^ k - 1) = way hash (2 ^ k) key 0 := and_mask _

theorem way_succ (t : Nat) : (way hash (2 ^ k) key t + (t + 1)) &&& (2 ^ k - 1) = way hash (2 ^ k) key (t + 1) := by
  rw [and_mask]
  exact cell_succ t

theorem way_lt (t : Nat) : way hash (2 ^ k) key t < 2 ^ k := cell_lt (by positivity) t

variable (hash key) in
/-- The `i == last` test fails before every bucket has been tried. -/
theorem way_ne_last {t : Nat} (pos : 0 < t) (lt : t < 2 ^ k) : way hash (2 ^ k) key t ≠ way hash (2 ^ k) key 0 := by
  intro back
  have := cell_injective (Nat.zero_le t) lt back.symm
  omega

end Ways

theorem hashUpper_lt {k : Nat} (two : 2 ≤ k) : hashUpper (2 ^ k) < 2 ^ k := by
  have four : 2 ^ 2 ≤ 2 ^ k := Nat.pow_le_pow_right (by omega) two
  unfold hashUpper
  omega

theorem exists_unused {n : Nat} {flag : Flags} (lt : usedCount n flag < n) : ∃ i < n, acIsempty flag i = true := by
  have fewer : usedCount n flag < (Finset.range n).card := by rwa [Finset.card_range]
  obtain ⟨i, inside, out⟩ := Finset.exists_mem_notMem_of_card_lt_card fewer
  rw [Finset.mem_filter, not_and, Bool.not_eq_false] at out
  exact ⟨i, Finset.mem_range.mp inside, out inside⟩

/-! ### Searching -/

section Search
variable [DecidableEq κ] {hash} {h : Kh κ ν} {key : κ} {k n : Nat}

theorem goesOn_iff {i : Nat} (lt : i < h.nBuckets) : goesOn h key i = true ↔ ¬ h.cells.stops key i := by
  unfold goesOn Cells.stops Kh.cells cellsOf
  simp only [acIseither_eq, lt, true_and, ne_eq]
  cases acIsempty h.flags i <;> cases acIsdel h.flags i <;> simp

variable (hash key) in
omit [DecidableEq κ] in
/-- A search ends before it has tried all buckets when one of them was never used. -/
theorem exists_end (buckets : h.nBuckets = 2 ^ k) (room : usedCount h.nBuckets h.flags < h.nBuckets) :
    ∃ n < 2 ^ k, EndsAt (way hash (2 ^ k) key) (h.cells.stops key) n := by
  obtain ⟨i, lt, unused⟩ := exists_unused room
  rw [buckets] at lt
  obtain ⟨t, before, at_t⟩ := exists_cell (hash key).toNat lt
  apply exists_endsAt (way hash (2 ^ k) key) (h.cells.stops key)
  refine ⟨t, before, Or.inl ?_⟩
  rintro ⟨-, used⟩
  rw [way, at_t] at used
  exact absurd (used.symm.trans unused) (by decide)

theorem getLoop_eq (buckets : h.nBuckets = 2 ^ k) (lt : n < 2 ^ k)
    (ends : EndsAt (way hash (2 ^ k) key) (h.cells.stops key) n) (fuel t : Nat) (le : t ≤ n) (enough : n - t < fuel) :
    getLoop h key (way hash (2 ^ k) key 0) fuel (way hash (2 ^ k) key t) t =
      some (if acIseither h.flags (way hash (2 ^ k) key n) then 2 ^ k else way hash (2 ^ k) key n) := by
  have inside : ∀ t, way hash (2 ^ k) key t < h.nBuckets := fun t => by
    rw [buckets]
    exact way_lt t
  induction fuel generalizing t with
  | zero => omega
  | succ fuel ih =>
    unfold getLoop
    rcases le.lt_or_eq with before | rfl
    · have on : goesOn h key (way hash (2 ^ k) key t) = true := (goesOn_iff (inside t)).mpr (ends.2 t before)
      rw [if_pos on, buckets, way_succ]
      simp only [if_neg (way_ne_last hash key (Nat.succ_pos t) (show t + 1 < 2 ^ k by omega))]
      exact ih (t + 1) before (by omega)
    · have off : goesOn h key (way hash (2 ^ k) key t) = false :=
        Bool.eq_false_iff.mpr fun on => (goesOn_iff (inside t)).mp on ends.1
      rw [if_neg (by simp [off]), buckets]

/-- Where the last deleted bucket on the way is left by the loop of `kh_put`. -/
theorem putLoop_eq (buckets : h.nBuckets = 2 ^ k) (lt : n < 2 ^ k)
    (ends : EndsAt (way hash (2 ^ k) key) (h.cells.stops key) n) (fuel t site : Nat) (le : t ≤ n) (enough : n - t < fuel) :
    ∃ site', putLoop h key (way hash (2 ^ k) key 0) fuel (way hash (2 ^ k) key t) t site =
        some (2 ^ k, way hash (2 ^ k) key n, site') ∧
      (site' = site ∨ ∃ m < n, site' = way hash (2 ^ k) key m ∧ acIsdel h.flags site' = true) := by
  have inside : ∀ t, way hash (2 ^ k) key t < h.nBuckets := fun t => by
    rw [buckets]
    exact way_lt t
  induction fuel generalizing t site with
  | zero => omega
  | succ fuel ih =>
    unfold putLoop
    rcases le.lt_or_eq with before | rfl
    · have on : goesOn h key (way hash (2 ^ k) key t) = true := (goesOn_iff (inside t)).mpr (ends.2 t before)
      rw [if_pos on, buckets, way_succ]
      simp only [if_neg (way_ne_last hash key (Nat.succ_pos t) (show t + 1 < 2 ^ k by omega))]
      obtain ⟨site', ran, origin⟩ :=
        ih (t + 1) (if acIsdel h.flags (way hash (2 ^ k) key t) then way hash (2 ^ k) key t else site) before (by omega)
      refine ⟨site', ran, ?_⟩
      rcases origin with rfl | deleted
      · split
        · rename_i deleted
          exact Or.inr ⟨t, before, rfl, deleted⟩
        · exact Or.inl rfl
      · exact Or.inr deleted
    · have off : goesOn h key (way hash (2 ^ k) key t) = false :=
        Bool.eq_false_iff.mpr fun on => (goesOn_iff (inside t)).mp on ends.1
      rw [if_neg (by simp [off]), buckets]
      exact ⟨site, rfl, Or.inl rfl⟩

variable (key) in
/-- `kh_get` finds the entry of its key, and `kh_end` exactly when there is none. -/
theorem khGet_spec (inv : Inv hash h) : ∃ x, khGet hash h key = some x ∧
    (h.cells.live x ∧ h.keys x = key ∨ x = h.nBuckets ∧ ¬ h.cells.Holds key) := by
  unfold khGet
  rcases inv.sized with ⟨zero, -⟩ | ⟨k, two, -, buckets, upper⟩
  · rw [if_neg (by simp [zero])]
    refine ⟨0, rfl, Or.inr ⟨zero.symm, ?_⟩⟩
    rintro ⟨i, ⟨lt, -⟩, -⟩
    omega
  · have room : usedCount h.nBuckets h.flags < h.nBuckets := by
      have le := inv.bounded
      have lt := hashUpper_lt two
      have occupied := inv.occupied
      omega
    obtain ⟨n, lt, ends⟩ := exists_end hash key buckets room
    have ordered := inv.ordered
    rw [buckets] at ordered
    rw [if_pos (by rw [buckets]; positivity), buckets, way_zero]
    refine ⟨_, getLoop_eq buckets lt ends _ 0 (Nat.zero_le n) (by omega), ?_⟩
    have inside : way hash (2 ^ k) key n < h.nBuckets := by
      rw [buckets]
      exact way_lt n
    cases out : acIseither h.flags (way hash (2 ^ k) key n)
    · left
      rcases ends.1 with unused | found
      · refine absurd ⟨inside, ?_⟩ unused
        rw [acIseither_eq, Bool.or_eq_false_iff] at out
        exact out.1
      · exact found
    · refine Or.inr ⟨rfl, fun held => ?_⟩
      have live := (ordered.found ends held).1.2
      exact absurd (live.symm.trans out) (by decide)

variable (key) in
/-- `kh_put` chooses the bucket of its key, or one without an entry that a search of the key comes past. -/
theorem putBucket_spec (inv : Inv hash h) (buckets : h.nBuckets = 2 ^ k)
    (room : usedCount h.nBuckets h.flags < h.nBuckets) : ∃ x < h.nBuckets, putBucket hash h key = some x ∧
    (h.cells.live x ∧ h.keys x = key ∨
      ¬ h.cells.live x ∧ ¬ h.cells.Holds key ∧ Along (way hash (2 ^ k) key) h.cells.used x) := by
  obtain ⟨n, lt, ends⟩ := exists_end hash key buckets room
  have ordered := inv.ordered
  have inside : ∀ t, way hash (2 ^ k) key t < h.nBuckets := fun t => by
    rw [buckets]
    exact way_lt t
  have absent : acIsempty h.flags (way hash (2 ^ k) key n) = true → ¬ h.cells.Holds key := by
    intro empty held
    rw [buckets] at ordered
    have live := (ordered.found ends held).1.2
    rw [acIseither_eq, empty, Bool.true_or] at live
    exact absurd live (by decide)
  have dead : ∀ {x}, acIseither h.flags x = true → ¬ h.cells.live x := by
    intro x out live
    exact absurd (live.2.symm.trans out) (by decide)
  unfold putBucket
  rw [buckets, way_zero]
  dsimp only
  cases first : acIsempty h.flags (way hash (2 ^ k) key 0)
  · obtain ⟨site, ran, origin⟩ := putLoop_eq buckets lt ends (2 * 2 ^ k) 0 (2 ^ k) (Nat.zero_le n) (by omega)
    rw [if_neg (by simp), ran]
    simp only [Option.bind_eq_bind, Option.bind_some, ↓reduceIte]
    cases empty : acIsempty h.flags (way hash (2 ^ k) key n)
    · refine ⟨_, buckets ▸ inside n, by rw [Bool.false_and, if_neg (by simp)], Or.inl ?_⟩
      rcases ends.1 with unused | found
      · exact absurd ⟨inside n, empty⟩ unused
      · exact found
    · rw [Bool.true_and]
      rcases origin with rfl | ⟨m, before, rfl, deleted⟩
      · refine ⟨_, buckets ▸ inside n, by simp, Or.inr ⟨?_, absent empty, ends.along le_rfl rfl⟩⟩
        exact dead (by rw [acIseither_eq, empty, Bool.true_or])
      · have ne : way hash (2 ^ k) key m ≠ 2 ^ k := (way_lt m).ne
        refine ⟨_, buckets ▸ inside m, by simp [ne], Or.inr ⟨?_, absent empty, ends.along before.le rfl⟩⟩
        exact dead (by rw [acIseither_eq, deleted, Bool.or_true])
  · rw [if_pos rfl]
    have n_zero : n = 0 := by
      by_contra pos
      exact ends.2 0 (by omega) (Or.inl fun used => absurd (used.2.symm.trans first) (by decide))
    subst n_zero
    refine ⟨_, buckets ▸ inside 0, rfl, Or.inr ⟨?_, absent first, ends.along le_rfl rfl⟩⟩
    exact dead (by rw [acIseither_eq, first, Bool.true_or])

end Search

end Box64.Khash
