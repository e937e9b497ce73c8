import Mathlib.Data.BitVec

/-!
# Word-sized accesses to a byte-addressed memory

Little-endian loads and stores at 64-bit addresses, bit by bit. Addresses wrap around.
-/

/-- The byte at each address. -/
abbrev Memory := BitVec 64 → BitVec 8

namespace Memory

open BitVec

/-- The address of the byte that holds bit `i` of the word at `a`. -/
def byteOf (a : BitVec 64) (i : Nat) : BitVec 64 := a + BitVec.ofNat 64 (i / 8)

/-- The `n` bits at `a`, low byte first. -/
def load (n : Nat) (m : Memory) (a : BitVec 64) : BitVec n :=
  match n with
  | 0 => BitVec.nil
  | i + 1 => BitVec.cons ((m (byteOf a i)).getLsbD (i % 8)) (load i m a)

/-- `v` stored at `a`, low byte first. -/
def store {n : Nat} (m : Memory) (a : BitVec 64) (v : BitVec n) : Memory := fun b =>
  let i := (b - a).toNat
  if i < n / 8 then v.extractLsb' (8 * i) 8 else m b

/-- The `n` bytes at `src` copied to `dest`, as by `memmove`. -/
def move (m : Memory) (dest src : BitVec 64) (n : Nat) : Memory := fun b =>
  if (b - dest).toNat < n then m (src + (b - dest)) else m b

theorem getLsbD_load {n i : Nat} (m : Memory) (a : BitVec 64) (lt : i < n) :
    (load n m a).getLsbD i = (m (byteOf a i)).getLsbD (i % 8) := by
  induction n with
  | zero => exact absurd lt (Nat.not_lt_zero i)
  | succ k ih =>
    rw [load, getLsbD_cons]
    by_cases last : i = k
    · rw [if_pos last, last]
    · rw [if_neg last]
      exact ih (by omega)

theorem distance (a : BitVec 64) {k : Nat} (lt : k < 2 ^ 64) : (a + BitVec.ofNat 64 k - a).toNat = k := by
  rw [BitVec.add_comm, BitVec.add_sub_cancel, BitVec.toNat_ofNat, Nat.mod_eq_of_lt lt]

theorem eq_add_distance (a b : BitVec 64) : b = a + BitVec.ofNat 64 (b - a).toNat := by
  rw [BitVec.ofNat_toNat, BitVec.setWidth_eq, BitVec.add_comm, BitVec.sub_add_cancel]

section Store

variable {n : Nat} (m : Memory) (a : BitVec 64) (v : BitVec n)

theorem store_at {k : Nat} (lt : k < n / 8) (small : k < 2 ^ 64) :
    store m a v (a + BitVec.ofNat 64 k) = v.extractLsb' (8 * k) 8 := by
  rw [store, distance a small]
  exact if_pos lt

theorem store_inside {k : Nat} (lt : k < n / 8) (fits : n ≤ 64) :
    store m a v (a + BitVec.ofNat 64 k) = v.extractLsb' (8 * k) 8 :=
  store_at m a v lt (by omega)

theorem store_outside {b : BitVec 64} (out : ¬ (b - a).toNat < n / 8) : store m a v b = m b := if_neg out

theorem bit_store {i : Nat} (lt : i < n) (whole : 8 ∣ n) (fits : n ≤ 64) :
    (store m a v (byteOf a i)).getLsbD (i % 8) = v.getLsbD i := by
  have inside : i / 8 < n / 8 := by omega
  have small : i % 8 < 8 := Nat.mod_lt _ (by decide)
  rw [byteOf, store_inside m a v inside fits, getLsbD_extractLsb']
  simp only [small, decide_true, Bool.true_and, Nat.div_add_mod]

theorem load_store (whole : 8 ∣ n) (fits : n ≤ 64) : load n (store m a v) a = v := by
  apply eq_of_getLsbD_eq
  intro i lt
  rw [getLsbD_load _ _ lt, bit_store m a v lt whole fits]

theorem store_load (whole : 8 ∣ n) (fits : n ≤ 64) : store m a (load n m a) = m := by
  funext b
  by_cases inside : (b - a).toNat < n / 8
  · rw [eq_add_distance a b]
    generalize (b - a).toNat = k at inside
    rw [store_inside m a _ inside fits]
    apply eq_of_getLsbD_eq
    intro t small
    have position : 8 * k + t < n := by omega
    have quotient : (8 * k + t) / 8 = k := by omega
    have remainder : (8 * k + t) % 8 = t := by omega
    rw [getLsbD_extractLsb', getLsbD_load m a position, byteOf, quotient, remainder]
    simp only [small, decide_true, Bool.true_and]
  · rw [store_outside m a _ inside]

theorem store_inj {v v' : BitVec n} (whole : 8 ∣ n) (fits : n ≤ 64) : store m a v = store m a v' ↔ v = v' := by
  refine ⟨fun same => ?_, fun same => by rw [same]⟩
  rw [← load_store m a v whole fits, same, load_store m a v' whole fits]

/-- A store hides a narrower one before it. -/
theorem store_store {k : Nat} (u : BitVec k) (le : k ≤ n) : store (store m a u) a v = store m a v := by
  funext b
  by_cases inside : (b - a).toNat < n / 8
  · exact (if_pos inside).trans (if_pos inside).symm
  · have out : ¬ (b - a).toNat < k / 8 := by omega
    rw [store_outside _ a v inside, store_outside m a v inside, store_outside m a u out]

/-- A store after a move leaves what it leaves without the move, exactly if the move copies what is there. -/
theorem store_move {dest src : BitVec 64} {k : Nat} : store (move m dest src k) a v = store m a v ↔
    ∀ b, (b - dest).toNat < k → ¬ (b - a).toNat < n / 8 → m (src + (b - dest)) = m b := by
  constructor
  · intro same b inside out
    have here := congrFun same b
    rw [store_outside _ a v out, store_outside m a v out, move, if_pos inside] at here
    exact here
  · intro copied
    funext b
    by_cases stored : (b - a).toNat < n / 8
    · exact (if_pos stored).trans (if_pos stored).symm
    · rw [store_outside _ a v stored, store_outside m a v stored, move]
      split
      · rename_i inside
        exact copied b inside stored
      · rfl

theorem move_self (dest : BitVec 64) (k : Nat) : move m dest dest k = m := by
  funext b
  rw [move, BitVec.add_comm, BitVec.sub_add_cancel, ite_self]

end Store

/-! ### Accesses apart -/

theorem load_congr {n : Nat} {m m' : Memory} {a : BitVec 64} (same : ∀ i < n, m (byteOf a i) = m' (byteOf a i)) :
    load n m a = load n m' a := by
  apply eq_of_getLsbD_eq
  intro i lt
  rw [getLsbD_load _ _ lt, getLsbD_load _ _ lt, same i lt]

theorem load_store_apart {n w i j : Nat} (m : Memory) (a : BitVec 64) (v : BitVec w)
    (apart : i + n / 8 ≤ j ∨ j + w / 8 ≤ i) (whole : 8 ∣ n) (low : i + n / 8 < 2 ^ 64) (high : j + w / 8 < 2 ^ 64) :
    load n (store m (a + BitVec.ofNat 64 j) v) (a + BitVec.ofNat 64 i) = load n m (a + BitVec.ofNat 64 i) := by
  apply load_congr
  intro t lt
  apply store_outside
  have shifted : byteOf (a + BitVec.ofNat 64 i) t - (a + BitVec.ofNat 64 j) =
      BitVec.ofNat 64 (i + t / 8) - BitVec.ofNat 64 j := by
    rw [byteOf, BitVec.add_assoc, ← BitVec.ofNat_add]
    exact add_sub_add_left_eq_sub _ _ _
  rw [shifted, BitVec.toNat_sub, BitVec.toNat_ofNat, BitVec.toNat_ofNat]
  omega

/-- What a store leaves as it is: it stores what is there. -/
theorem store_eq_self {n : Nat} (m : Memory) (a : BitVec 64) (v : BitVec n) (whole : 8 ∣ n) (fits : n ≤ 64) :
    store m a v = m ↔ load n m a = v := by
  constructor
  · intro same
    rw [← same, load_store m a v whole fits]
  · intro there
    rw [← there, store_load m a whole fits]

/-- A store of the low part of a value leaves what a store of all of it leaves, exactly if the rest is there. -/
theorem store_low_iff {k n : Nat} (m : Memory) (a : BitVec 64) (v : BitVec n) (le : k ≤ n) (whole : 8 ∣ k) (whole' : 8 ∣ n)
    (fits : n ≤ 2 ^ 64) : store m a v = store m a (v.setWidth k) ↔ load n m a >>> k = v >>> k := by
  constructor
  · intro same
    apply eq_of_getLsbD_eq
    intro i _
    rw [getLsbD_ushiftRight, getLsbD_ushiftRight]
    by_cases inside : k + i < n
    · have byte : (k + i) / 8 < n / 8 := by omega
      have past : ¬ (k + i) / 8 < k / 8 := by omega
      have small : (k + i) / 8 < 2 ^ 64 := by omega
      have here := congrFun same (byteOf a (k + i))
      rw [byteOf, store_at m a v byte small, store_outside m a _ (by rwa [distance a small])] at here
      rw [getLsbD_load m a inside, byteOf, ← here, getLsbD_extractLsb', decide_eq_true (Nat.mod_lt _ (by decide)),
        Bool.true_and, Nat.div_add_mod]
    · rw [getLsbD_of_ge _ _ (by omega), getLsbD_of_ge _ _ (by omega)]
  · intro rest
    funext b
    rw [eq_add_distance a b]
    have small := (b - a).isLt
    generalize (b - a).toNat = j at small
    by_cases inside : j < n / 8
    · rw [store_at m a v inside small]
      apply eq_of_getLsbD_eq
      intro i lt
      rw [getLsbD_extractLsb', decide_eq_true lt, Bool.true_and]
      by_cases low : j < k / 8
      · rw [store_at m a _ low small, getLsbD_extractLsb', getLsbD_setWidth, decide_eq_true lt,
          decide_eq_true (show 8 * j + i < k by omega), Bool.true_and, Bool.true_and]
      · have bit := congrArg (fun x => x.getLsbD (8 * j + i - k)) rest
        have back : k + (8 * j + i - k) = 8 * j + i := by omega
        have quotient : (8 * j + i) / 8 = j := by omega
        have remainder : (8 * j + i) % 8 = i := by omega
        simp only [getLsbD_ushiftRight, back] at bit
        rw [store_outside m a _ (by rwa [distance a small]), ← bit, getLsbD_load m a (by omega), byteOf, quotient, remainder]
    · rw [store_outside m a v (by rwa [distance a small]), store_outside m a _ (by rw [distance a small]; omega)]

theorem store_halves (m : Memory) (a : BitVec 64) (v : BitVec 64) :
    store m a v = store (store m a (v.extractLsb' 0 32)) (a + BitVec.ofNat 64 4) (v.extractLsb' 32 32) := by
  funext b
  rw [eq_add_distance a b]
  have bound := (b - a).isLt
  generalize (b - a).toNat = k at bound
  have shifted : (a + BitVec.ofNat 64 k - (a + BitVec.ofNat 64 4)) = BitVec.ofNat 64 k - BitVec.ofNat 64 4 :=
    add_sub_add_left_eq_sub _ _ _
  have byte (i : Nat) (lt : i + 8 ≤ 32) (o : Nat) :
      (v.extractLsb' o 32).extractLsb' i 8 = v.extractLsb' (o + i) 8 := by
    apply eq_of_getLsbD_eq
    intro t small
    have inside : i + t < 32 := by omega
    simp only [getLsbD_extractLsb', small, inside, decide_true, Bool.true_and, Nat.add_assoc]
  by_cases first : k < 4
  · have out : ¬ (BitVec.ofNat 64 k - BitVec.ofNat 64 4).toNat < 32 / 8 := by
      rw [BitVec.toNat_sub, BitVec.toNat_ofNat, BitVec.toNat_ofNat]
      omega
    rw [store_outside (store m a _) _ _ (shifted ▸ out), store_inside m a v (by omega) (by decide),
      store_inside m a _ (by omega) (by decide), byte _ (by omega), Nat.zero_add]
  by_cases second : k < 8
  · have place : a + BitVec.ofNat 64 k = a + BitVec.ofNat 64 4 + BitVec.ofNat 64 (k - 4) := by
      rw [BitVec.add_assoc, ← BitVec.ofNat_add, Nat.add_sub_cancel' (by omega)]
    have start : 8 * k = 32 + 8 * (k - 4) := by omega
    rw [store_inside m a v (by omega) (by decide), place, store_inside _ _ _ (by omega) (by decide), byte _ (by omega), start]
  · have far : (a + BitVec.ofNat 64 k - a).toNat = k := distance a bound
    have out : ¬ (BitVec.ofNat 64 k - BitVec.ofNat 64 4).toNat < 32 / 8 := by
      rw [BitVec.toNat_sub, BitVec.toNat_ofNat, BitVec.toNat_ofNat]
      omega
    rw [store_outside m a v (by omega), store_outside (store m a _) _ _ (shifted ▸ out), store_outside m a _ (by omega)]

/-- The first of two words stored one behind the other. -/
theorem load_store_next {n : Nat} (m : Memory) (a : BitVec 64) (x y : BitVec n) (whole : 8 ∣ n) (fits : n ≤ 64) :
    load n (store (store m a x) (a + BitVec.ofNat 64 (n / 8)) y) a = x := by
  have apart := load_store_apart (n := n) (i := 0) (j := n / 8) (store m a x) a y (.inl (by omega)) whole (by omega) (by omega)
  rw [BitVec.add_zero] at apart
  exact apart.trans (load_store m a x whole fits)

theorem store_pair_inj {n : Nat} (m : Memory) (a : BitVec 64) {x y x' y' : BitVec n} (whole : 8 ∣ n) (fits : n ≤ 64) :
    store (store m a x) (a + BitVec.ofNat 64 (n / 8)) y = store (store m a x') (a + BitVec.ofNat 64 (n / 8)) y' ↔
      x = x' ∧ y = y' := by
  constructor
  · intro same
    constructor
    · rw [← load_store_next m a x y whole fits, same, load_store_next m a x' y' whole fits]
    · rw [← load_store (store m a x) (a + BitVec.ofNat 64 (n / 8)) y whole fits, same, load_store _ _ y' whole fits]
  · rintro ⟨rfl, rfl⟩
    rfl

theorem load_low {k n : Nat} (le : k ≤ n) (m : Memory) (a : BitVec 64) : (load n m a).setWidth k = load k m a := by
  apply eq_of_getLsbD_eq
  intro i lt
  rw [getLsbD_setWidth, getLsbD_load m a (by omega), getLsbD_load m a lt, decide_eq_true lt, Bool.true_and]

theorem load_high (m : Memory) (a : BitVec 64) :
    (load 64 m a >>> 32).setWidth 32 = load 32 m (a + BitVec.ofNat 64 4) := by
  apply eq_of_getLsbD_eq
  intro i lt
  have place : byteOf a (32 + i) = byteOf (a + BitVec.ofNat 64 4) i := by
    have bytes : (32 + i) / 8 = 4 + i / 8 := by omega
    rw [byteOf, byteOf, bytes, BitVec.ofNat_add, BitVec.add_assoc]
  have bit : (32 + i) % 8 = i % 8 := by omega
  rw [getLsbD_setWidth, getLsbD_ushiftRight, getLsbD_load m a (by omega), getLsbD_load _ _ lt, decide_eq_true lt,
    Bool.true_and, place, bit]

/-! ### Single bits -/

/-- One bit turned over. -/
def flip (m : Memory) (p : BitVec 64) (j : Nat) : Memory := Function.update m p (m p ^^^ twoPow 8 j)

theorem xor_twoPow_ne {n j : Nat} (x : BitVec n) (lt : j < n) : x ^^^ twoPow n j ≠ x := by
  intro same
  have bit := congrArg (·.getLsbD j) same
  simp [lt] at bit

theorem flip_ne {m : Memory} {p : BitVec 64} {j : Nat} (lt : j < 8) : flip m p j ≠ m := by
  intro same
  exact xor_twoPow_ne (m p) lt ((Function.update_self p _ m).symm.trans (congrFun same p))

theorem flip_inj {m : Memory} {p q : BitVec 64} {j : Nat} (lt : j < 8) : flip m p j = flip m q j ↔ p = q := by
  refine ⟨fun same => ?_, fun same => by rw [same]⟩
  by_contra ne
  refine xor_twoPow_ne (m p) lt ?_
  exact (Function.update_self p _ m).symm.trans ((congrFun same p).trans (Function.update_of_ne ne _ m))

theorem add_inj {a : BitVec 64} {i k : Nat} (small : i < 2 ^ 64) (small' : k < 2 ^ 64) :
    a + BitVec.ofNat 64 i = a + BitVec.ofNat 64 k ↔ i = k := by
  refine ⟨fun same => ?_, fun same => by rw [same]⟩
  rw [← distance a small, same, distance a small']

/-- A word stored with one bit turned over. -/
theorem store_flipped {n k : Nat} (m : Memory) (a : BitVec 64) (lt : k < n) (whole : 8 ∣ n) (fits : n ≤ 64) :
    store m a (load n m a ^^^ twoPow n k) = flip m (byteOf a k) (k % 8) := by
  funext b
  have hit : k / 8 < n / 8 := by omega
  by_cases inside : (b - a).toNat < n / 8
  · rw [eq_add_distance a b]
    generalize (b - a).toNat = i at inside
    have same_byte : a + BitVec.ofNat 64 i = byteOf a k ↔ i = k / 8 := add_inj (by omega) (by omega)
    rw [store_inside m a _ inside fits]
    apply eq_of_getLsbD_eq
    intro t small
    have position : 8 * i + t < n := by omega
    have quotient : (8 * i + t) / 8 = i := by omega
    have remainder : (8 * i + t) % 8 = t := by omega
    have bit : (load n m a).getLsbD (8 * i + t) = (m (a + BitVec.ofNat 64 i)).getLsbD t := by
      rw [getLsbD_load m a position, remainder, byteOf, quotient]
    rw [getLsbD_extractLsb', getLsbD_xor, bit, getLsbD_twoPow]
    by_cases same : i = k / 8
    · have hits : k = 8 * i + t ↔ k % 8 = t := by omega
      have below : k % 8 < 8 := Nat.mod_lt k (by decide)
      rw [flip, same_byte.mpr same, Function.update_self, getLsbD_xor, getLsbD_twoPow]
      simp only [small, lt, below, decide_true, Bool.true_and, hits]
    · have ne : ¬ k = 8 * i + t := by omega
      rw [flip, Function.update_of_ne fun eq => same (same_byte.mp eq)]
      simp only [small, decide_true, Bool.true_and, ne, decide_false, Bool.and_false, Bool.xor_false]
  · have ne : b ≠ byteOf a k := by
      intro eq
      rw [eq, byteOf, distance a (by omega)] at inside
      exact inside hit
    rw [store_outside m a _ inside, flip, Function.update_of_ne ne]

/-! ### Half-word stores as words -/

theorem store_wide_iff (m : Memory) (a : BitVec 64) (v v' : BitVec 16) :
    store m a (v.setWidth 32) = store m a v' ↔ v = v' ∧ m (a + 2#64) = 0 ∧ m (a + 3#64) = 0 := by
  have low : ∀ i < 2, store m a (v.setWidth 32) (a + BitVec.ofNat 64 i) = v.extractLsb' (8 * i) 8 := by
    intro i lt
    rw [store_inside m a _ (by omega) (by decide)]
    apply eq_of_getLsbD_eq
    intro t small
    have inside : 8 * i + t < 32 := by omega
    rw [getLsbD_extractLsb', getLsbD_extractLsb', getLsbD_setWidth]
    simp only [inside, decide_true, Bool.true_and]
  have high : ∀ i, 2 ≤ i → i < 4 → store m a (v.setWidth 32) (a + BitVec.ofNat 64 i) = 0 := by
    intro i ge lt
    rw [store_inside m a _ (by omega) (by decide)]
    apply eq_of_getLsbD_eq
    intro t small
    rw [getLsbD_extractLsb', getLsbD_setWidth, getLsbD_of_ge v (8 * i + t) (by omega)]
    simp
  have kept : ∀ i, 2 ≤ i → i < 4 → store m a v' (a + BitVec.ofNat 64 i) = m (a + BitVec.ofNat 64 i) := by
    intro i ge lt
    refine store_outside m a v' ?_
    rw [distance a (by omega)]
    omega
  constructor
  · intro same
    refine ⟨?_, ?_, ?_⟩
    · rw [← load_store m a v' (by decide) (by decide), ← same]
      apply eq_of_getLsbD_eq
      intro i lt
      have wide := bit_store m a (v.setWidth 32) (i := i) (by omega) (by decide) (by decide)
      have small : i < 32 := by omega
      rw [getLsbD_load _ _ lt, wide, getLsbD_setWidth]
      simp only [small, decide_true, Bool.true_and]
    · exact (kept 2 (by decide) (by decide)).symm.trans ((congrFun same _).symm.trans (high 2 (by decide) (by decide)))
    · exact (kept 3 (by decide) (by decide)).symm.trans ((congrFun same _).symm.trans (high 3 (by decide) (by decide)))
  · rintro ⟨rfl, two, three⟩
    funext b
    by_cases far : (b - a).toNat < 4
    · rw [eq_add_distance a b]
      generalize (b - a).toNat = i at far
      by_cases near : i < 2
      · rw [low i near, store_inside m a v near (by decide)]
      · rw [high i (by omega) far, kept i (by omega) far]
        obtain rfl | rfl : i = 2 ∨ i = 3 := by omega
        · exact two.symm
        · exact three.symm
    · have out : ¬ (b - a).toNat < 16 / 8 := by omega
      rw [store_outside m a _ far, store_outside m a v out]

end Memory
