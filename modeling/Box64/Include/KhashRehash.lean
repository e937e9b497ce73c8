import Box64.Include.KhashCells
import Mathlib.Data.Nat.Size

/-!
# Moving the entries of a hash table

`kh_resize` has no second copy of the arrays: an entry that takes a bucket in which another one still waits takes that one
along. No entry is lost or doubled on the way, and each one ends where a search finds it.
-/

namespace Box64.Khash
open OpenAddressing
open Function (update)

/-! ### The number of buckets -/

/-- Bit `i` of `z` tells whether `y` has a bit among the `n` from `i` on. -/
def Smeared (y z : BitVec 32) (n : Nat) : Prop := ∀ i, z.getLsbD i = true ↔ ∃ d < n, y.getLsbD (i + d) = true

theorem Smeared.double {y z : BitVec 32} {n : Nat} (smeared : Smeared y z n) : Smeared y (z ||| z >>> n) (2 * n) := by
  intro i
  rw [BitVec.getLsbD_or, BitVec.getLsbD_ushiftRight, Bool.or_eq_true, smeared, smeared]
  constructor
  · rintro (⟨d, lt, set⟩ | ⟨d, lt, set⟩)
    · exact ⟨d, by omega, set⟩
    · exact ⟨n + d, by omega, by rwa [← Nat.add_assoc, Nat.add_comm i n]⟩
  · rintro ⟨d, lt, set⟩
    by_cases near : d < n
    · exact Or.inl ⟨d, near, set⟩
    · exact Or.inr ⟨d - n, by omega, by rwa [show n + i + (d - n) = i + d by omega]⟩

theorem Smeared.toNat {y z : BitVec 32} (smeared : Smeared y z 32) : z.toNat = 2 ^ y.toNat.size - 1 := by
  apply Nat.eq_of_testBit_eq
  intro i
  rw [Nat.testBit_two_pow_sub_one, Bool.eq_iff_iff, decide_eq_true_eq, Nat.lt_size]
  have bit := smeared i
  rw [BitVec.getLsbD] at bit
  rw [bit]
  constructor
  · rintro ⟨d, -, set⟩
    exact (Nat.pow_le_pow_right (by omega) (Nat.le_add_right i d)).trans (Nat.ge_two_pow_of_testBit set)
  · intro le
    obtain ⟨j, above, set⟩ := Nat.exists_ge_and_testBit_of_ge_two_pow le
    have below : j < 32 := by
      by_contra out
      have clear : y.getLsbD j = false := BitVec.getLsbD_of_ge y j (by omega)
      exact absurd (set.symm.trans clear) (by decide)
    exact ⟨j - i, by omega, by rwa [Nat.add_sub_cancel' above]⟩

theorem kroundup32_toNat (x : BitVec 32) : (kroundup32 x).toNat = 2 ^ (x - 1).toNat.size % 2 ^ 32 := by
  have one : Smeared (x - 1) (x - 1) 1 := fun i =>
    ⟨fun set => ⟨0, by omega, set⟩, fun ⟨d, lt, set⟩ => by
      rw [Nat.lt_one_iff.mp lt] at set
      exact set⟩
  have all := one.double.double.double.double.double.toNat
  unfold kroundup32
  rw [BitVec.toNat_add, all, show (1 : BitVec 32).toNat = 1 from rfl, Nat.sub_add_cancel Nat.one_le_two_pow]

/-- What `kh_resize` makes of the number of buckets it is asked for. -/
def roundup (newNBuckets : Nat) : Nat :=
  if (kroundup32 (BitVec.ofNat 32 newNBuckets)).toNat < 4 then 4 else (kroundup32 (BitVec.ofNat 32 newNBuckets)).toNat

theorem roundup_cases (n : Nat) : ∃ k, 2 ≤ k ∧ k ≤ 31 ∧ roundup n = 2 ^ k := by
  unfold roundup
  split
  · exact ⟨2, by omega, by omega, rfl⟩
  · rename_i large
    rw [kroundup32_toNat] at large ⊢
    generalize (BitVec.ofNat 32 n - 1 : BitVec 32).toNat.size = k at large ⊢
    have below : k ≤ 31 := by
      by_contra out
      have dvd : 2 ^ 32 ∣ 2 ^ k := Nat.pow_dvd_pow 2 (by omega)
      rw [Nat.mod_eq_zero_of_dvd dvd] at large
      omega
    have lt : 2 ^ k < 2 ^ 32 := Nat.pow_lt_pow_right (by omega) (by omega)
    rw [Nat.mod_eq_of_lt lt] at large ⊢
    refine ⟨k, ?_, below, rfl⟩
    by_contra small
    have := Nat.pow_le_pow_right (show 0 < 2 by omega) (show k ≤ 1 by omega)
    omega

theorem roundup_of_size {n m k : Nat} (pred : n = m + 1) (lo : 2 ^ k ≤ m) (hi : m < 2 ^ (k + 1)) (one : 1 ≤ k) (le : k ≤ 30) :
    roundup n = 2 ^ (k + 1) := by
  have top : 2 ^ (k + 1) < 2 ^ 32 := Nat.pow_lt_pow_right (by omega) (by omega)
  have four : 2 ^ 2 ≤ 2 ^ (k + 1) := Nat.pow_le_pow_right (by omega) (by omega)
  have m_toNat : (BitVec.ofNat 32 n - 1 : BitVec 32).toNat = m := by
    rw [pred, BitVec.toNat_sub, BitVec.toNat_ofNat, show (1 : BitVec 32).toNat = 1 from rfl]
    omega
  have size : m.size = k + 1 := by
    apply le_antisymm (Nat.size_le.mpr hi)
    exact Nat.lt_size.mpr lo
  unfold roundup
  rw [kroundup32_toNat, m_toNat, size, Nat.mod_eq_of_lt top, if_neg (by omega)]

/-- Asked for one bucket less, `kh_resize` keeps the size. -/
theorem roundup_pred {k : Nat} (two : 2 ≤ k) (le : k ≤ 31) : roundup (2 ^ k - 1) = 2 ^ k := by
  obtain ⟨j, rfl⟩ := Nat.exists_eq_add_of_le' (show 1 ≤ k by omega)
  have four : 2 ^ 1 ≤ 2 ^ j := Nat.pow_le_pow_right (by omega) (by omega)
  have double : 2 ^ (j + 1) = 2 ^ j * 2 := pow_succ 2 j
  exact roundup_of_size (m := 2 ^ (j + 1) - 2) (by omega) (by omega) (by omega) (by omega) (by omega)

/-- Asked for one bucket more, it doubles it. -/
theorem roundup_succ {k : Nat} (two : 2 ≤ k) (le : k ≤ 30) : roundup (2 ^ k + 1) = 2 ^ (k + 1) :=
  roundup_of_size rfl le_rfl (Nat.pow_lt_pow_right (by omega) (by omega)) (by omega) le

/-! ### Entries on the move -/

variable {κ ν : Type}

section Counting
variable {n i : Nat} {p q : Nat → Prop} [DecidablePred p] [DecidablePred q]

theorem card_insert_bucket (lt : i < n) (out : ¬ p i) (only : ∀ j, q j ↔ p j ∨ j = i) :
    ((Finset.range n).filter q).card = ((Finset.range n).filter p).card + 1 := by
  have same : (Finset.range n).filter q = insert i ((Finset.range n).filter p) := by
    ext j
    rw [Finset.mem_insert, Finset.mem_filter, Finset.mem_filter, Finset.mem_range, only]
    constructor
    · rintro ⟨below, here | rfl⟩
      · exact Or.inr ⟨below, here⟩
      · exact Or.inl rfl
    · rintro (rfl | ⟨below, here⟩)
      · exact ⟨lt, Or.inr rfl⟩
      · exact ⟨below, Or.inl here⟩
  rw [same, Finset.card_insert_of_notMem]
  exact fun mem => out (Finset.mem_filter.mp mem).2

theorem card_erase_bucket (lt : i < n) (here : p i) (only : ∀ j, q j ↔ p j ∧ j ≠ i) :
    ((Finset.range n).filter p).card = ((Finset.range n).filter q).card + 1 := by
  apply card_insert_bucket lt (fun there => ((only i).mp there).2 rfl)
  intro j
  rw [only]
  by_cases same : j = i
  · simp [same, here]
  · simp [same]

end Counting

/-- An entry that still waits in its old bucket. -/
def Rehash.old (n : Nat) (r : Rehash κ ν) (i : Nat) : Prop := i < n ∧ acIseither r.flags i = false

/-- An entry that has its new bucket. -/
def Rehash.new (N : Nat) (r : Rehash κ ν) (i : Nat) : Prop := i < N ∧ acIsempty r.newFlags i = false

def Rehash.Entry (n N : Nat) (r : Rehash κ ν) (k : κ) (v : ν) : Prop :=
  ∃ i, (r.old n i ∨ r.new N i) ∧ r.keys i = k ∧ r.vals i = v

def Rehash.count (n N : Nat) (r : Rehash κ ν) : Nat := liveCount n r.flags + usedCount N r.newFlags

/-- What holds between two moves. -/
structure Moving (hash : κ → BitVec 32) (n N : Nat) (r : Rehash κ ν) : Prop where
  clean : ∀ i, acIsdel r.newFlags i = false
  apart : ∀ i, r.old n i → ¬ r.new N i
  distinct : ∀ i j, r.old n i ∨ r.new N i → r.old n j ∨ r.new N j → r.keys i = r.keys j → i = j
  ordered : (cellsOf N r.newFlags r.keys).Ordered (way hash N)

variable {hash : κ → BitVec 32} {n N : Nat} {r : Rehash κ ν} {key : κ} {val : ν}

/-- The entry in hand put into bucket `i`; the flags are those of the old buckets without `i`. -/
def Rehash.put (r : Rehash κ ν) (flags : Flags) (i : Nat) (key : κ) (val : ν) : Rehash κ ν :=
  ⟨flags, acSetIsemptyFalse r.newFlags i, update r.keys i key, update r.vals i val⟩

section Put
variable {flags : Flags} {i : Nat}

theorem put_new (lt : i < N) (j : Nat) : (r.put flags i key val).new N j ↔ r.new N j ∨ j = i := by
  unfold Rehash.new Rehash.put
  rw [acIsempty_setIsemptyFalse, Bool.and_eq_false_iff, decide_eq_false_iff_not, not_not]
  constructor
  · rintro ⟨below, used | same⟩
    · exact Or.inl ⟨below, used⟩
    · exact Or.inr same
  · rintro (⟨below, used⟩ | rfl)
    · exact ⟨below, Or.inl used⟩
    · exact ⟨lt, Or.inr rfl⟩

theorem Moving.put (moving : Moving hash n N r) (lt : i < N) (free : ¬ r.new N i)
    (along : Along (way hash N key) (cellsOf N r.newFlags r.keys).used i)
    (without : ∀ j, (r.put flags i key val).old n j ↔ r.old n j ∧ j ≠ i)
    (absent : ∀ j, r.old n j ∨ r.new N j → r.keys j ≠ key) : Moving hash n N (r.put flags i key val) := by
  have live_iff : ∀ j, (cellsOf N r.newFlags r.keys).live j ↔ r.new N j := by
    intro j
    unfold cellsOf Rehash.new
    dsimp only
    rw [acIseither_eq, moving.clean, Bool.or_false]
  have slot : ∀ j, (r.put flags i key val).old n j ∨ (r.put flags i key val).new N j → j = i ∨
      j ≠ i ∧ (r.old n j ∨ r.new N j) := by
    intro j there
    rw [without, put_new lt] at there
    by_cases same : j = i
    · exact Or.inl same
    · exact Or.inr ⟨same, by tauto⟩
  refine ⟨?_, ?_, ?_, ?_⟩
  · intro j
    unfold Rehash.put
    rw [acIsdel_setIsemptyFalse]
    exact moving.clean j
  · intro j old
    rw [without] at old
    rw [put_new lt]
    rintro (new | same)
    · exact moving.apart j old.1 new
    · exact old.2 same
  · intro j l there there' same
    unfold Rehash.put at same
    dsimp only at same
    rcases slot j there with rfl | ⟨ne, held⟩ <;> rcases slot l there' with rfl | ⟨ne', held'⟩
    · rfl
    · rw [Function.update_self, Function.update_of_ne ne'] at same
      exact absurd same.symm (absent l held')
    · rw [Function.update_self, Function.update_of_ne ne] at same
      exact absurd same (absent j held)
    · rw [Function.update_of_ne ne, Function.update_of_ne ne'] at same
      exact moving.distinct j l held held' same
  · have cells : cellsOf N (r.put flags i key val).newFlags (r.put flags i key val).keys =
        (cellsOf N r.newFlags r.keys).insert i key := by
      apply Cells.ext
      · exact funext fun j => propext (put_new lt j)
      · funext j
        have clean : acIsdel (r.put flags i key val).newFlags j = false := by
          unfold Rehash.put
          rw [acIsdel_setIsemptyFalse]
          exact moving.clean j
        change ((j < N ∧ acIseither (r.put flags i key val).newFlags j = false)) = (_ ∨ _)
        rw [acIseither_eq, clean, Bool.or_false, live_iff]
        exact propext (put_new lt j)
      · rfl
    rw [cells]
    apply moving.ordered.insert
    · rwa [live_iff]
    · rintro ⟨j, live, same⟩
      exact absent j (Or.inr ((live_iff j).mp live)) same
    · exact along

theorem put_entry (lt : i < N) (free : ¬ r.new N i) (without : ∀ j, (r.put flags i key val).old n j ↔ r.old n j ∧ j ≠ i)
    (k : κ) (v : ν) : (r.put flags i key val).Entry n N k v ∨ r.old n i ∧ r.keys i = k ∧ r.vals i = v ↔
      r.Entry n N k v ∨ k = key ∧ v = val := by
  constructor
  · rintro (⟨j, there, same, same'⟩ | ⟨old, same, same'⟩)
    · rw [without, put_new lt] at there
      unfold Rehash.put at same same'
      dsimp only at same same'
      by_cases eq : j = i
      · subst eq
        rw [Function.update_self] at same same'
        exact Or.inr ⟨same.symm, same'.symm⟩
      · rw [Function.update_of_ne eq] at same same'
        exact Or.inl ⟨j, by tauto, same, same'⟩
    · exact Or.inl ⟨i, Or.inl old, same, same'⟩
  · rintro (⟨j, there, same, same'⟩ | ⟨rfl, rfl⟩)
    · by_cases eq : j = i
      · subst eq
        exact Or.inr ⟨there.resolve_right free, same, same'⟩
      · refine Or.inl ⟨j, ?_, ?_, ?_⟩
        · rw [without, put_new lt]
          tauto
        · exact (Function.update_of_ne eq _ _).trans same
        · exact (Function.update_of_ne eq _ _).trans same'
    · refine Or.inl ⟨i, ?_, Function.update_self .., Function.update_self ..⟩
      rw [put_new lt]
      exact Or.inr (Or.inr rfl)

end Put

/-! ### The loops of `kh_resize` -/

section Loops
variable {K : Nat}

theorem emptyLoop_eq {newFlags : Flags} {t : Nat} (empty : acIsempty newFlags (way hash (2 ^ K) key t) = true)
    (before : ∀ m < t, acIsempty newFlags (way hash (2 ^ K) key m) = false) (fuel s : Nat) (le : s ≤ t) (enough : t - s < fuel) :
    emptyLoop newFlags (2 ^ K - 1) fuel (way hash (2 ^ K) key s) s = some (way hash (2 ^ K) key t) := by
  induction fuel generalizing s with
  | zero => omega
  | succ fuel ih =>
    unfold emptyLoop
    rcases le.lt_or_eq with lt | rfl
    · rw [before s lt, way_succ]
      exact ih (s + 1) lt (by omega)
    · rw [empty]
      rfl

variable (hash key) in
/-- The bucket an entry in hand goes to. -/
theorem exists_empty {newFlags : Flags} (keys : Nat → κ) (room : usedCount (2 ^ K) newFlags < 2 ^ K) :
    ∃ i < 2 ^ K, emptyLoop newFlags (2 ^ K - 1) (2 * 2 ^ K) ((hash key).toNat &&& (2 ^ K - 1)) 0 = some i ∧
      acIsempty newFlags i = true ∧ Along (way hash (2 ^ K) key) (cellsOf (2 ^ K) newFlags keys).used i := by
  obtain ⟨j, lt, unused⟩ := exists_unused room
  obtain ⟨s, below, at_s⟩ := exists_cell (hash key).toNat lt
  obtain ⟨t, lt, empty, before⟩ := exists_endsAt (way hash (2 ^ K) key)
    (fun i => acIsempty newFlags i = true) ⟨s, below, by rwa [way, at_s]⟩
  have used : ∀ m < t, acIsempty newFlags (way hash (2 ^ K) key m) = false := fun m lt => Bool.eq_false_iff.mpr (before m lt)
  refine ⟨_, way_lt t, ?_, empty, t, rfl, fun m lt => ⟨way_lt m, used m lt⟩⟩
  rw [way_zero]
  exact emptyLoop_eq empty used _ 0 (Nat.zero_le t) (by omega)

theorem old_setIsdelTrue (s : Rehash κ ν) (i j : Nat) :
    Rehash.old n { s with flags := acSetIsdelTrue s.flags i } j ↔ s.old n j ∧ j ≠ i := by
  unfold Rehash.old
  dsimp only
  rw [acIseither_eq, acIseither_eq, acIsempty_setIsdelTrue, acIsdel_setIsdelTrue, ← Bool.or_assoc, Bool.or_eq_false_iff,
    decide_eq_false_iff_not, and_assoc]

theorem liveCount_setIsdelTrue {flags : Flags} {i : Nat} (lt : i < n) (live : acIseither flags i = false) :
    liveCount n flags = liveCount n (acSetIsdelTrue flags i) + 1 := by
  apply card_erase_bucket lt live
  intro j
  rw [acIseither_eq, acIseither_eq, acIsempty_setIsdelTrue, acIsdel_setIsdelTrue, ← Bool.or_assoc, Bool.or_eq_false_iff,
    decide_eq_false_iff_not]

theorem usedCount_setIsemptyFalse {newFlags : Flags} {i : Nat} (lt : i < N) (empty : acIsempty newFlags i = true) :
    usedCount N (acSetIsemptyFalse newFlags i) = usedCount N newFlags + 1 := by
  apply card_insert_bucket lt (by simp [empty])
  intro j
  rw [acIsempty_setIsemptyFalse, Bool.and_eq_false_iff, decide_eq_false_iff_not, not_not]

/-- What the kick-out of one entry leaves: that entry among the others, and no new one that waits. -/
structure Moved (hash : κ → BitVec 32) (n N : Nat) (r : Rehash κ ν) (key : κ) (val : ν) (r' : Rehash κ ν) : Prop where
  moving : Moving hash n N r'
  entry : ∀ k v, r'.Entry n N k v ↔ r.Entry n N k v ∨ k = key ∧ v = val
  count : r'.count n N = r.count n N + 1
  old : ∀ i, r'.old n i → r.old n i

theorem kickOut_moves (fuel : Nat) (r : Rehash κ ν) (key : κ) (val : ν) (moving : Moving hash n (2 ^ K) r)
    (absent : ∀ j, r.old n j ∨ r.new (2 ^ K) j → r.keys j ≠ key) (room : r.count n (2 ^ K) < 2 ^ K) (enough : liveCount n r.flags < fuel) :
    ∃ r', kickOut hash n (2 ^ K) fuel r key val = some r' ∧ Moved hash n (2 ^ K) r key val r' := by
  induction fuel generalizing r key val with
  | zero => omega
  | succ fuel ih =>
    obtain ⟨i, lt, found, empty, along⟩ := exists_empty hash key r.keys
      (show usedCount (2 ^ K) r.newFlags < 2 ^ K by unfold Rehash.count at room; omega)
    have free : ¬ r.new (2 ^ K) i := fun new => absurd (new.2.symm.trans empty) (by decide)
    have counted := usedCount_setIsemptyFalse lt empty
    unfold kickOut
    simp only [Option.bind_eq_bind, found, Option.bind_some]
    by_cases old : r.old n i
    · -- the entry that lies there is the next one in hand
      have live : acIseither r.flags i = false := old.2
      have without : ∀ j, (r.put (acSetIsdelTrue r.flags i) i key val).old n j ↔ r.old n j ∧ j ≠ i :=
        fun j => old_setIsdelTrue r i j
      have moving' := moving.put lt free along without absent
      have fewer := liveCount_setIsdelTrue old.1 live
      have absent' : ∀ j, (r.put (acSetIsdelTrue r.flags i) i key val).old n j ∨
          (r.put (acSetIsdelTrue r.flags i) i key val).new (2 ^ K) j →
          (r.put (acSetIsdelTrue r.flags i) i key val).keys j ≠ r.keys i := by
        intro j there same
        rw [without, put_new lt] at there
        unfold Rehash.put at same
        dsimp only at same
        by_cases eq : j = i
        · subst eq
          rw [Function.update_self] at same
          exact absent j (Or.inl old) same.symm
        · rw [Function.update_of_ne eq] at same
          exact eq (moving.distinct j i (by tauto) (Or.inl old) same)
      obtain ⟨r', ran, moved⟩ := ih (r.put (acSetIsdelTrue r.flags i) i key val) (r.keys i) (r.vals i)
        moving' absent' (by unfold Rehash.count Rehash.put at *; dsimp only; omega)
        (by unfold Rehash.put; dsimp only; omega)
      refine ⟨r', ?_, moved.moving, ?_, ?_, ?_⟩
      · rw [if_pos (by simp [old.1, live])]
        exact ran
      · intro k v
        rw [moved.entry, ← put_entry lt free without]
        refine or_congr_right ⟨fun ⟨same, same'⟩ => ⟨old, same.symm, same'.symm⟩, fun ⟨_, same, same'⟩ => ⟨same.symm, same'.symm⟩⟩
      · rw [moved.count]
        unfold Rehash.count Rehash.put
        dsimp only
        omega
      · intro j there
        exact ((without j).mp (moved.old j there)).1
    · have without : ∀ j, (r.put r.flags i key val).old n j ↔ r.old n j ∧ j ≠ i := by
        intro j
        refine ⟨fun there => ⟨there, ?_⟩, fun there => there.1⟩
        rintro rfl
        exact old there
      refine ⟨r.put r.flags i key val, ?_, moving.put lt free along without absent, ?_, ?_, ?_⟩
      · rw [if_neg (by simpa [Rehash.old] using old)]
        rfl
      · intro k v
        rw [← put_entry lt free without]
        refine (or_iff_left ?_).symm
        exact fun there => old there.1
      · unfold Rehash.count Rehash.put
        dsimp only
        omega
      · intro j there
        exact ((without j).mp there).1

/-- The loop over the old buckets, up to `j`. -/
theorem moveBuckets (j : Nat) (le : j ≤ n) (moving : Moving hash n (2 ^ K) r) (room : r.count n (2 ^ K) < 2 ^ K) :
    ∃ r', (List.range j).foldlM (moveBucket hash n (2 ^ K)) r = some r' ∧ Moving hash n (2 ^ K) r' ∧
      (∀ k v, r'.Entry n (2 ^ K) k v ↔ r.Entry n (2 ^ K) k v) ∧ r'.count n (2 ^ K) = r.count n (2 ^ K) ∧
      ∀ i < j, ¬ r'.old n i := by
  induction j with
  | zero => exact ⟨r, rfl, moving, fun _ _ => Iff.rfl, rfl, fun i lt => absurd lt (Nat.not_lt_zero i)⟩
  | succ j ih =>
    obtain ⟨s, ran, moving, entry, count, done⟩ := ih (by omega)
    rw [List.range_succ, List.foldlM_append, ran]
    simp only [List.foldlM_cons, List.foldlM_nil, Option.bind_eq_bind, Option.bind_some, Option.pure_def, Option.bind_fun_some]
    unfold moveBucket
    by_cases old : s.old n j
    · have lt : j < n := old.1
      have taken : ∀ i, Rehash.old n { s with flags := acSetIsdelTrue s.flags j } i ↔ s.old n i ∧ i ≠ j := old_setIsdelTrue s j
      have fewer := liveCount_setIsdelTrue lt old.2
      obtain ⟨r', moved_to, moved⟩ := kickOut_moves (n + 1)
        { s with flags := acSetIsdelTrue s.flags j } (s.keys j) (s.vals j)
        ⟨moving.clean, fun i old => moving.apart i ((taken i).mp old).1,
          fun i l there there' => moving.distinct i l (by rw [taken] at there; exact there.imp_left And.left)
            (by rw [taken] at there'; exact there'.imp_left And.left), moving.ordered⟩
        (by
          intro i there same
          rw [taken] at there
          have eq : i = j := moving.distinct i j (there.imp_left And.left) (Or.inl old) same
          subst eq
          rcases there with there | new
          · exact there.2 rfl
          · exact moving.apart i old new)
        (by unfold Rehash.count at *; dsimp only; omega)
        (by
          have le : liveCount n (acSetIsdelTrue s.flags j) ≤ (Finset.range n).card := Finset.card_filter_le _ _
          rw [Finset.card_range] at le
          dsimp only
          omega)
      refine ⟨r', by rw [if_pos (by simp [old.2])]; exact moved_to, moved.moving, ?_, ?_, ?_⟩
      · intro k v
        rw [moved.entry, ← entry]
        constructor
        · rintro (⟨i, there, same, same'⟩ | ⟨rfl, rfl⟩)
          · rw [taken] at there
            exact ⟨i, there.imp_left And.left, same, same'⟩
          · exact ⟨j, Or.inl old, rfl, rfl⟩
        · rintro ⟨i, there, same, same'⟩
          by_cases eq : i = j
          · subst eq
            exact Or.inr ⟨same.symm, same'.symm⟩
          · refine Or.inl ⟨i, ?_, same, same'⟩
            rw [taken]
            exact there.imp_left fun old => ⟨old, eq⟩
      · rw [moved.count, ← count]
        unfold Rehash.count
        dsimp only
        omega
      · intro i below still
        have := (taken i).mp (moved.old i still)
        rcases Nat.lt_succ_iff_lt_or_eq.mp below with lt | rfl
        · exact done i lt this.1
        · exact this.2 rfl
    · refine ⟨s, by rw [if_neg (by simpa [Rehash.old, show j < n by omega] using old)], moving, entry, count, ?_⟩
      intro i below still
      rcases Nat.lt_succ_iff_lt_or_eq.mp below with lt | rfl
      · exact done i lt still
      · exact old still

end Loops

/-! ### The whole resize -/

/-- `key` is kept with the value `val`. -/
def Kh.Entry (h : Kh κ ν) (k : κ) (v : ν) : Prop := ∃ i, h.cells.live i ∧ h.keys i = k ∧ h.vals i = v

theorem usedCount_memsetAa : usedCount N memsetAa = 0 := by
  unfold usedCount
  rw [Finset.card_eq_zero, Finset.filter_eq_empty_iff]
  intro i _
  rw [acIsempty_memsetAa]
  decide

variable {h : Kh κ ν}

theorem khResize_eq (newNBuckets : Nat) (alloc : Bool) : khResize hash h newNBuckets alloc =
    if hashUpper (roundup newNBuckets) ≤ h.size then some (h, 0)
    else if !alloc then some (h, -1)
    else ((List.range h.nBuckets).foldlM (moveBucket hash h.nBuckets (roundup newNBuckets)) ⟨h.flags, memsetAa, h.keys, h.vals⟩).map
      fun r => (⟨roundup newNBuckets, h.size, h.size, hashUpper (roundup newNBuckets), r.newFlags, r.keys, r.vals⟩, 0) := by
  unfold khResize roundup
  dsimp only
  congr 2
  exact (Option.map_eq_bind ..).symm

/-- The entries stay; the table is rebuilt, or the size asked for is too small, or there is no memory for it. -/
theorem khResize_spec (inv : Inv hash h) (newNBuckets : Nat) (alloc : Bool) : ∃ h' ret,
    khResize hash h newNBuckets alloc = some (h', ret) ∧ Inv hash h' ∧ (∀ k v, h'.Entry k v ↔ h.Entry k v) ∧ h'.size = h.size ∧
    (h' = h ∧ ret = 0 ∧ hashUpper (roundup newNBuckets) ≤ h.size ∨ h' = h ∧ ret = -1 ∧ alloc = false ∨
      ret = 0 ∧ h'.nOccupied < h'.upperBound) := by
  rw [khResize_eq]
  by_cases small : hashUpper (roundup newNBuckets) ≤ h.size
  · rw [if_pos small]
    exact ⟨h, 0, rfl, inv, fun _ _ => Iff.rfl, rfl, Or.inl ⟨rfl, rfl, small⟩⟩
  · rw [if_neg small]
    cases alloc with
    | false => exact ⟨h, -1, rfl, inv, fun _ _ => Iff.rfl, rfl, Or.inr (Or.inl ⟨rfl, rfl, rfl⟩)⟩
    | true =>
      obtain ⟨k, two, le, power⟩ := roundup_cases newNBuckets
      rw [power] at small ⊢
      have nothing : ∀ i, ¬ Rehash.new (2 ^ k) (⟨h.flags, memsetAa, h.keys, h.vals⟩ : Rehash κ ν) i := by
        rintro i ⟨-, used⟩
        exact absurd (used.symm.trans (acIsempty_memsetAa i)) (by decide)
      have start : Moving hash h.nBuckets (2 ^ k) ⟨h.flags, memsetAa, h.keys, h.vals⟩ := by
        refine ⟨acIsdel_memsetAa, fun i _ => nothing i, ?_, ?_⟩
        · intro i j there there' same
          exact inv.ordered.distinct i j (there.resolve_right (nothing i)) (there'.resolve_right (nothing j)) same
        · have dead : ∀ i, ¬ (cellsOf (2 ^ k) memsetAa h.keys).live i := by
            rintro i ⟨-, live⟩
            rw [acIseither_eq, acIsempty_memsetAa, Bool.true_or] at live
            exact absurd live (by decide)
          exact ⟨fun i live => absurd live (dead i), fun i _ live => absurd live (dead i), fun i live => absurd live (dead i)⟩
      have counted : Rehash.count h.nBuckets (2 ^ k) (⟨h.flags, memsetAa, h.keys, h.vals⟩ : Rehash κ ν) = h.size := by
        unfold Rehash.count
        rw [usedCount_memsetAa, inv.size]
        rfl
      have upper := hashUpper_lt two
      obtain ⟨r, ran, moving, entry, count, done⟩ := moveBuckets h.nBuckets le_rfl start (by omega)
      have gone : ∀ i, ¬ r.old h.nBuckets i := fun i old => done i old.1 old
      have none_left : liveCount h.nBuckets r.flags = 0 := by
        unfold liveCount
        rw [Finset.card_eq_zero, Finset.filter_eq_empty_iff]
        intro i mem live
        exact gone i ⟨Finset.mem_range.mp mem, live⟩
      have used : usedCount (2 ^ k) r.newFlags = h.size := by
        unfold Rehash.count at count counted
        omega
      have either_eq : ∀ i, acIseither r.newFlags i = acIsempty r.newFlags i := by
        intro i
        rw [acIseither_eq, moving.clean, Bool.or_false]
      refine ⟨⟨2 ^ k, h.size, h.size, hashUpper (2 ^ k), r.newFlags, r.keys, r.vals⟩, 0, by rw [if_neg (by simp), ran]; rfl,
        ⟨Or.inr ⟨k, two, le, rfl, rfl⟩, ?_, used.symm, ?_, moving.ordered⟩, ?_,
        rfl, Or.inr (Or.inr ⟨rfl, ?_⟩)⟩
      · unfold liveCount
        simp only [either_eq]
        exact used.symm
      · dsimp only
        omega
      · intro k' v
        have here : h.Entry k' v ↔ r.Entry h.nBuckets (2 ^ k) k' v := by
          rw [entry]
          refine exists_congr fun i => and_congr_left fun _ => ?_
          exact ⟨Or.inl, fun there => there.resolve_right (nothing i)⟩
        rw [here]
        refine exists_congr fun i => and_congr_left fun _ => ?_
        change i < 2 ^ k ∧ acIseither r.newFlags i = false ↔ _
        rw [either_eq]
        exact ⟨Or.inr, fun there => there.resolve_left (gone i)⟩
      · dsimp only
        omega

end Box64.Khash
