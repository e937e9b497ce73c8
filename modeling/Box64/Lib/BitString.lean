import Box64.Lib.WordMemory
import Mathlib.Tactic.Linarith
import Mathlib.Tactic.Positivity
import Mathlib.Tactic.GCongr
import Mathlib.Algebra.Order.Ring.Int

/-!
# Bit strings in memory

A bit string has a bit at every integer offset from an address. With words of `n` bits, the bit at `o` is bit `o mod n` of
the word that lies `o / n` words away, rounded down.
-/

namespace BitString

open BitVec Memory

/-- The address of the word of `n` bits that holds the bit at `o`. -/
def wordOf (n : Nat) (a : BitVec 64) (o : Int) : BitVec 64 := a + BitVec.ofInt 64 ((n / 8 : Nat) * (o / n))

/-- Which bit of its word the bit at `o` is. -/
def placeOf (n : Nat) (o : Int) : Nat := (o % n).toNat

def get (m : Memory) (a : BitVec 64) (o : Int) : Bool := (m (wordOf 8 a o)).getLsbD (placeOf 8 o)

/-- The value with one bit given. -/
def withBit {n : Nat} (x : BitVec n) (k : Nat) (b : Bool) : BitVec n :=
  if b then x ||| twoPow n k else x &&& ~~~twoPow n k

def set (m : Memory) (a : BitVec 64) (o : Int) (b : Bool) : Memory :=
  Function.update m (wordOf 8 a o) (withBit (m (wordOf 8 a o)) (placeOf 8 o) b)

/-! ### One bit of a value -/

section WithBit

variable {n : Nat} (x : BitVec n) {k : Nat}

theorem getLsbD_withBit (lt : k < n) (b : Bool) (i : Nat) :
    (withBit x k b).getLsbD i = if i = k then b else x.getLsbD i := by
  by_cases same : i = k
  · subst same
    cases b <;> simp [withBit, lt]
  · have ne : ¬ k = i := fun eq => same eq.symm
    rw [if_neg same]
    cases b
    · by_cases inside : i < n
      · simp [withBit, inside, same]
      · simp [withBit, getLsbD_of_ge x i (Nat.le_of_not_lt inside)]
    · simp [withBit, ne]

theorem withBit_same (lt : k < n) : withBit x k (x.getLsbD k) = x := by
  apply eq_of_getLsbD_eq
  intro i _
  rw [getLsbD_withBit x lt]
  split
  next same => rw [same]
  next => rfl

theorem withBit_not (lt : k < n) : withBit x k (!x.getLsbD k) = x ^^^ twoPow n k := by
  apply eq_of_getLsbD_eq
  intro i _
  rw [getLsbD_withBit x lt, getLsbD_xor, getLsbD_twoPow]
  by_cases same : i = k
  · simp [same, lt]
  · have ne : ¬ k = i := fun eq => same eq.symm
    simp [same, ne]

theorem and_twoPow_ne_iff (lt : k < n) : x &&& twoPow n k ≠ 0 ↔ x.getLsbD k = true := by
  rw [and_twoPow]
  cases x.getLsbD k with
  | false => simp
  | true =>
    have nonzero : twoPow n k ≠ 0 := by
      intro zero
      have bit := congrArg (·.getLsbD k) zero
      simp [lt] at bit
    simp only [if_true, ne_eq, nonzero, not_false_eq_true]

end WithBit

/-! ### Words of any size -/

section Words

variable {n : Nat} (m : Memory) (a : BitVec 64) (o : Int)

theorem placeOf_lt (pos : 0 < n) : placeOf n o < n := by
  have nonneg := Int.emod_nonneg o (b := n) (by omega)
  have below := Int.emod_lt_of_pos o (b := n) (by omega)
  rw [placeOf]
  omega

theorem placeOf_mod (whole : 8 ∣ n) (pos : 0 < n) : placeOf n o % 8 = placeOf 8 o := by
  have nonneg := Int.emod_nonneg o (b := n) (by omega)
  have narrow : o % n % 8 = o % 8 := Int.emod_emod_of_dvd o (by omega)
  rw [placeOf, placeOf]
  omega

/-- The byte of the word is the byte the bit lies in. -/
theorem byteOf_wordOf (whole : 8 ∣ n) (pos : 0 < n) : byteOf (wordOf n a o) (placeOf n o) = wordOf 8 a o := by
  obtain ⟨bytes, rfl⟩ := whole
  have nonneg := Int.emod_nonneg o (b := (8 * bytes : Nat)) (by omega)
  have split : ((8 * bytes / 8 : Nat) : Int) * (o / (8 * bytes : Nat)) + ((placeOf (8 * bytes) o / 8 : Nat) : Int) =
      ((8 / 8 : Nat) : Int) * (o / (8 : Nat)) := by
    have whole : (8 * bytes : Nat) * (o / (8 * bytes : Nat)) + o % (8 * bytes : Nat) = o := Int.mul_ediv_add_emod o _
    have place : ((placeOf (8 * bytes) o : Nat) : Int) = o % (8 * bytes : Nat) := Int.toNat_of_nonneg nonneg
    have bytes_eq : 8 * bytes / 8 = bytes := by omega
    rw [bytes_eq]
    push_cast at whole place ⊢
    rw [Int.mul_assoc] at whole
    generalize (bytes : Int) * (o / (8 * bytes)) = t at whole ⊢
    omega
  rw [byteOf, wordOf, wordOf, ← split, BitVec.ofInt_add, BitVec.add_assoc, BitVec.ofInt_natCast]

theorem getLsbD_load_wordOf (whole : 8 ∣ n) (pos : 0 < n) :
    (load n m (wordOf n a o)).getLsbD (placeOf n o) = get m a o := by
  rw [getLsbD_load m _ (placeOf_lt o pos), byteOf_wordOf a o whole pos, placeOf_mod o whole pos, get]

theorem set_get : set m a o (get m a o) = m := by
  rw [set, get, withBit_same _ (placeOf_lt o (by decide)), Function.update_eq_self]

/-- A word stored with one bit changed. -/
theorem store_withBit (b : Bool) (whole : 8 ∣ n) (pos : 0 < n) (fits : n ≤ 64) :
    store m (wordOf n a o) (withBit (load n m (wordOf n a o)) (placeOf n o) b) = set m a o b := by
  have bit := getLsbD_load_wordOf m a o whole pos
  have inside : placeOf 8 o < 8 := placeOf_lt o (by decide)
  by_cases same : b = get m a o
  · rw [same, ← bit, withBit_same _ (placeOf_lt o pos), store_load m _ whole fits, bit, set_get]
  · have turned : b = !get m a o := Bool.eq_not.mpr same
    rw [turned, ← bit, withBit_not _ (placeOf_lt o pos), bit, store_flipped m _ (placeOf_lt o pos) whole fits,
      byteOf_wordOf a o whole pos, placeOf_mod o whole pos, Memory.flip, set, get, withBit_not _ inside]

end Words

/-! ### Offsets in registers -/

theorem placeOf_toInt {w n : Nat} (x : BitVec w) (whole : n ∣ 2 ^ w) : placeOf n x.toInt = x.toNat % n := by
  have same : x.toInt % n = ((x.toNat % n : Nat) : Int) := by
    obtain ⟨c, power⟩ := whole
    have wide : (2 ^ w : Int) = n * c := by exact_mod_cast power
    rw [toInt_eq_toNat_cond, Int.natCast_emod]
    split
    · rfl
    · push_cast
      rw [wide, Int.sub_mul_emod_self_left]
  rw [placeOf, same, Int.toNat_natCast]

theorem add_ofInt_inj (a : BitVec 64) {d d' : Int} (low : -2 ^ 62 ≤ d) (high : d < 2 ^ 62) (low' : -2 ^ 62 ≤ d')
    (high' : d' < 2 ^ 62) : a + BitVec.ofInt 64 d = a + BitVec.ofInt 64 d' ↔ d = d' := by
  refine ⟨fun same => ?_, fun same => by rw [same]⟩
  have exact_value : ∀ {e : Int}, -2 ^ 62 ≤ e → e < 2 ^ 62 → (BitVec.ofInt 64 e).toInt = e := by
    intro e low high
    rw [toInt_ofInt]
    exact Int.bmod_eq_of_le_mul_two (by omega) (by omega)
  have cancelled : BitVec.ofInt 64 d = BitVec.ofInt 64 d' := add_left_cancel same
  rw [← exact_value low high, cancelled, exact_value low' high']

theorem toInt_shiftLeft_of_fits {w t : Nat} (x : BitVec w) (low : -(2 ^ w : Int) ≤ x.toInt * 2 ^ t * 2)
    (high : x.toInt * 2 ^ t * 2 < 2 ^ w) : (x <<< t).toInt = x.toInt * 2 ^ t := by
  have wrapped : (x <<< t).toInt = (x.toInt * 2 ^ t).bmod (2 ^ w) := by
    rw [toInt_shiftLeft, toInt_eq_toNat_bmod, Int.bmod_mul_bmod, Nat.shiftLeft_eq]
    push_cast
    rfl
  rw [wrapped]
  exact Int.bmod_eq_of_le_mul_two (by exact_mod_cast low) (by exact_mod_cast high)

/-- `(x >> s) << t` as a distance in bytes. -/
theorem signExtend_shifts {w s t : Nat} (x : BitVec w) (le : t ≤ s) (lt : s < w) :
    ((x.sshiftRight s) <<< t).signExtend 64 = BitVec.ofInt 64 ((2 ^ t : Nat) * (x.toInt / (2 ^ s : Nat))) := by
  have lower : -(2 ^ w : Int) ≤ 2 * x.toInt := le_two_mul_toInt
  have upper : 2 * x.toInt < 2 ^ w := two_mul_toInt_lt
  have shifted : (x.sshiftRight s).toInt = x.toInt / 2 ^ s := by
    rw [toInt_sshiftRight, Int.shiftRight_eq_div_pow]
    push_cast
    rfl
  have whole : (2 ^ w : Int) = 2 * (2 ^ (w - 1 - s) * 2 ^ s) := by
    rw [← pow_add, ← pow_succ']
    congr 1
    omega
  have pos : (0 : Int) < 2 ^ s := by positivity
  have at_least : -(2 ^ (w - 1 - s) : Int) ≤ x.toInt / 2 ^ s := by
    rw [Int.le_ediv_iff_mul_le pos]
    linarith
  have below : x.toInt / 2 ^ s < 2 ^ (w - 1 - s) := by
    rw [Int.ediv_lt_iff_lt_mul pos]
    linarith
  have smaller : (2 ^ t : Int) ≤ 2 ^ s := pow_le_pow_right₀ (by decide) le
  have nonneg : (0 : Int) < 2 ^ t := by positivity
  have reach : (2 ^ (w - 1 - s) * 2 ^ t : Int) ≤ 2 ^ (w - 1 - s) * 2 ^ s := by gcongr
  have fits_low := mul_le_mul_of_nonneg_right at_least nonneg.le
  have fits_high := mul_lt_mul_of_pos_right below nonneg
  rw [BitVec.signExtend, toInt_shiftLeft_of_fits, shifted, Int.mul_comm]
  · push_cast
    rfl
  · rw [shifted]
    linarith
  · rw [shifted]
    linarith

end BitString
