import Mathlib.Data.BitVec

/-!
# Doubles and long doubles

`D2LD` and `LD2D`, which move a value between the 64 bits of a double and the 80 of an `x87` register. Both are
computed on the sign, the exponent and the fraction as numbers.
-/

namespace Box64.Emu

open BitVec

/-! ### The conversions -/

/-- The packed 10 bytes: the mantissa with its integer bit, and the exponent under the sign. -/
structure LongDouble where
  q : BitVec 64
  b : BitVec 16

def ud1 (q : BitVec 64) : BitVec 32 := q.extractLsb' 32 32

/-- `result.ud[1] |= x`. -/
def orUd1 (q : BitVec 64) (x : BitVec 32) : BitVec 64 := q ||| (x.setWidth 64 <<< 32)

def BIAS80 : BitVec 32 := 16383

def BIAS64 : BitVec 32 := 1023

/-- The bits of the host's infinity. -/
def HUGE_VAL : BitVec 64 := 0x7ff0000000000000

def LD2D (val : LongDouble) : BitVec 64 :=
  let field : BitVec 32 := (val.b &&& 0x7fff).setWidth 32
  let exp64 := field - BIAS80 + BIAS64
  let exp64final := exp64 &&& 0x7ff
  if field = 0x7fff then
    -- infinity and nans
    let t := ((ud1 val.q >>> 30) == 0 || (ud1 val.q >>> 30) == 2) && (ud1 val.q &&& (1#32 <<< 29)) == 0
    let result := if t then HUGE_VAL else orUd1 0 (0x7ff#32 <<< 20)
    if val.b &&& 0x8000 ≠ 0 then orUd1 result 0x80000000 else result
  else if field = 0 ∨ exp64.toInt ≤ 0 then
    if val.b &&& 0x8000 ≠ 0 then 0x8000000000000000 else 0
  else if exp64.toInt ≥ 0x7ff then
    if val.b &&& 0x8000 ≠ 0 then orUd1 HUGE_VAL 0x80000000 else HUGE_VAL
  else
    let mant64 := (val.q >>> 11) &&& 0xfffffffffffff
    let sign : BitVec 32 := if val.b &&& 0x8000 ≠ 0 then 1 else 0
    orUd1 mant64 ((sign <<< 31) ||| ((exp64final &&& 0x7ff) <<< 20))

def D2LD (s : BitVec 64) : LongDouble :=
  if s &&& 0x7fffffffffffffff = 0 then
    ⟨0, if ud1 s &&& 0x8000 ≠ 0 then 0x8000 else 0⟩
  else
    let sign80 : BitVec 32 := if ud1 s &&& 0x80000000 ≠ 0 then 1 else 0
    let exp80 := ud1 s &&& 0x7ff00000
    let exp80final := exp80 >>> 20
    let mant80 := s &&& 0x000fffffffffffff
    let mant80final := mant80 <<< 11
    let b (exp80final : BitVec 32) : BitVec 16 := (sign80.setWidth 16 <<< 15) ||| exp80final.setWidth 16
    if exp80final = 0x7ff then
      ⟨if mant80 = 0 then 0x8000000000000000 else 0xc000000000000000, b 0x7fff⟩
    else if exp80 ≠ 0 then ⟨mant80final ||| 0x8000000000000000, b (exp80final + (BIAS80 - BIAS64))⟩
    else ⟨mant80final, b exp80final⟩

/-! ### Classes -/

/-- The numbers a double is made of: `sign * 2^63 + exponent * 2^52 + fraction`. -/
def sign64 (d : BitVec 64) : Nat := d.toNat / 2 ^ 63

def exponent64 (d : BitVec 64) : Nat := d.toNat / 2 ^ 52 % 2 ^ 11

def fraction64 (d : BitVec 64) : Nat := d.toNat % 2 ^ 52

def IsNaN (d : BitVec 64) : Prop := exponent64 d = 0x7ff ∧ fraction64 d ≠ 0

def IsInfinity (sign : Nat) (d : BitVec 64) : Prop := sign64 d = sign ∧ exponent64 d = 0x7ff ∧ fraction64 d = 0

def IsZero (sign : Nat) (d : BitVec 64) : Prop := sign64 d = sign ∧ exponent64 d = 0 ∧ fraction64 d = 0

def IsDenormal (d : BitVec 64) : Prop := exponent64 d = 0 ∧ fraction64 d ≠ 0

namespace LongDouble

variable (ld : LongDouble)

def sign : Nat := ld.b.toNat / 2 ^ 15

def exponent : Nat := ld.b.toNat % 2 ^ 15

def IsNaN : Prop := ld.exponent = 0x7fff ∧ 2 ^ 63 < ld.q.toNat

def IsInfinity (sign : Nat) : Prop := ld.sign = sign ∧ ld.exponent = 0x7fff ∧ ld.q.toNat = 2 ^ 63

def IsZero (sign : Nat) : Prop := ld.sign = sign ∧ ld.exponent = 0 ∧ ld.q.toNat = 0

/-- What `LD2D` has to keep. -/
structure KeepsClass : Prop where
  nan : ld.IsNaN → Emu.IsNaN (LD2D ld)
  infinity : ∀ sign, ld.IsInfinity sign → Emu.IsInfinity sign (LD2D ld)
  zero : ∀ sign, ld.IsZero sign → Emu.IsZero sign (LD2D ld)

end LongDouble

/-! ### Fields as numbers -/

theorem toNat_and_mask {n k : Nat} (lt : k < n) (x : BitVec n) :
    (x &&& BitVec.ofNat n (2 ^ k - 1)).toNat = x.toNat % 2 ^ k := by
  have wider : 2 ^ k < 2 ^ n := Nat.pow_lt_pow_right (by decide) lt
  rw [toNat_and, toNat_ofNat, Nat.mod_eq_of_lt (Nat.lt_of_le_of_lt (Nat.sub_le _ _) wider),
    Nat.and_two_pow_sub_one_eq_mod]

theorem and_top_ne_zero {n : Nat} (pos : 0 < n) (x : BitVec n) :
    x &&& twoPow n (n - 1) ≠ 0 ↔ 2 ^ (n - 1) ≤ x.toNat := by
  have lt : n - 1 < n := by omega
  have top : (twoPow n (n - 1)).getLsbD (n - 1) = true := by
    rw [getLsbD_twoPow]
    simp [lt]
  have msb : x.getLsbD (n - 1) = decide (2 ^ (n - 1) ≤ x.toNat) := by
    rw [← msb_eq_decide, msb_eq_getLsbD_last]
  rw [and_twoPow, msb]
  by_cases high : 2 ^ (n - 1) ≤ x.toNat
  · rw [decide_eq_true high, if_pos rfl]
    refine iff_of_true (fun zero => ?_) high
    rw [zero] at top
    simp at top
  · rw [decide_eq_false high]
    exact iff_of_false (fun nonzero => nonzero rfl) high

theorem toNat_ud1 (q : BitVec 64) : (ud1 q).toNat = q.toNat / 2 ^ 32 := by
  have lt := q.isLt
  rw [ud1, extractLsb'_toNat, Nat.shiftRight_eq_div_pow]
  omega

/-- The high word is joined to a fraction below it. -/
theorem toNat_orUd1 {q : BitVec 64} {s e : Nat} {x : BitVec 32} (fraction : q.toNat < 2 ^ 52)
    (x_eq : x.toNat = 2 ^ 31 * s + 2 ^ 20 * e) : (orUd1 q x).toNat = 2 ^ 63 * s + 2 ^ 52 * e + q.toNat := by
  have lt := x.isLt
  have shifted : (x.setWidth 64 <<< 32).toNat = 2 ^ 52 * (2 ^ 11 * s + e) := by
    rw [toNat_shiftLeft, toNat_setWidth_of_le (by decide), Nat.shiftLeft_eq]
    omega
  rw [orUd1, toNat_or, shifted, Nat.or_comm, ← Nat.two_pow_add_eq_or_of_lt fraction]
  omega

/-- The sign above the exponent. -/
theorem toNat_signed {x e : BitVec 32} {s n : Nat} (sign : x.toNat = s) (bit : s ≤ 1) (exponent : e.toNat = n)
    (lt : n < 2 ^ 11) : ((x <<< 31) ||| (e <<< 20)).toNat = 2 ^ 31 * s + 2 ^ 20 * n := by
  have high : (x <<< 31).toNat = 2 ^ 31 * s := by
    rw [toNat_shiftLeft, sign, Nat.shiftLeft_eq]
    omega
  have low : (e <<< 20).toNat = 2 ^ 20 * n := by
    rw [toNat_shiftLeft, exponent, Nat.shiftLeft_eq]
    omega
  rw [toNat_or, high, low, ← Nat.two_pow_add_eq_or_of_lt (by omega)]

theorem toNat_and_exponent (x : BitVec 32) : (x &&& 0x7ff).toNat = x.toNat % 2 ^ 11 :=
  toNat_and_mask (k := 11) (by decide) x

namespace LongDouble

variable (val : LongDouble)

theorem toNat_field : ((val.b &&& 0x7fff).setWidth 32).toNat = val.exponent := by
  rw [toNat_setWidth_of_le (by decide)]
  exact toNat_and_mask (k := 15) (by decide) val.b

theorem sign_iff : val.b &&& 0x8000 ≠ 0 ↔ val.sign = 1 := by
  have lt := val.b.isLt
  refine (and_top_ne_zero (by decide) val.b).trans ?_
  unfold sign
  omega

theorem sign_le : val.sign ≤ 1 := by
  have lt := val.b.isLt
  unfold sign
  omega

theorem exponent_lt : val.exponent < 2 ^ 15 := Nat.mod_lt _ (by decide)

theorem toInt_exp64 : ((val.b &&& 0x7fff).setWidth 32 - BIAS80 + BIAS64).toInt = val.exponent - 15360 := by
  have small := val.exponent_lt
  rw [toInt_eq_toNat_cond, toNat_add, toNat_sub, toNat_field]
  have bias : BIAS80.toNat = 16383 ∧ BIAS64.toNat = 1023 := ⟨rfl, rfl⟩
  rw [bias.1, bias.2]
  omega

theorem toNat_exp64 {val : LongDouble} (least : 15360 ≤ val.exponent) :
    ((val.b &&& 0x7fff).setWidth 32 - BIAS80 + BIAS64).toNat = val.exponent - 15360 := by
  have small := val.exponent_lt
  have bias : BIAS80.toNat = 16383 ∧ BIAS64.toNat = 1023 := ⟨rfl, rfl⟩
  rw [toNat_add, toNat_sub, toNat_field, bias.1, bias.2]
  omega

theorem ite_sign (negative positive : BitVec 64) :
    (if val.b &&& 0x8000 ≠ 0 then negative else positive) = if val.sign = 1 then negative else positive :=
  if_congr val.sign_iff rfl rfl

theorem sign_eq_zero {val : LongDouble} (positive : ¬ val.sign = 1) : val.sign = 0 := by
  have le := val.sign_le
  omega

theorem field_ne {val : LongDouble} {x : BitVec 32} (ne : val.exponent ≠ x.toNat) :
    ¬ (val.b &&& 0x7fff).setWidth 32 = x := by
  rintro rfl
  exact ne val.toNat_field.symm

theorem not_small {val : LongDouble} (least : 15360 < val.exponent) :
    ¬ ((val.b &&& 0x7fff).setWidth 32 = 0 ∨ ((val.b &&& 0x7fff).setWidth 32 - BIAS80 + BIAS64).toInt ≤ 0) := by
  rintro (zero | negative)
  · refine field_ne ?_ zero
    change val.exponent ≠ 0
    omega
  · rw [toInt_exp64] at negative
    omega

/-! ### `LD2D` -/

/-- What is too large, not finite or no number becomes an infinity. -/
theorem LD2D_large (large : 15360 + 0x7ff ≤ val.exponent) :
    (LD2D val).toNat = 2 ^ 63 * val.sign + 2 ^ 52 * 0x7ff := by
  have infinity : (if val.sign = 1 then orUd1 HUGE_VAL 0x80000000 else HUGE_VAL).toNat =
      2 ^ 63 * val.sign + 2 ^ 52 * 0x7ff := by
    by_cases negative : val.sign = 1
    · rw [if_pos negative, negative]
      rfl
    · rw [if_neg negative, sign_eq_zero negative]
      rfl
  have word : orUd1 0 (0x7ff#32 <<< 20) = HUGE_VAL := rfl
  unfold LD2D
  dsimp only
  rw [word, ite_self, ite_sign]
  by_cases special : (val.b &&& 0x7fff).setWidth 32 = 0x7fff
  · rw [if_pos special]
    exact infinity
  · rw [if_neg special, if_neg (not_small (by omega)), if_pos (by rw [toInt_exp64]; omega)]
    exact infinity

theorem LD2D_small (small : val.exponent ≤ 15360) : (LD2D val).toNat = 2 ^ 63 * val.sign := by
  have special : ¬ (val.b &&& 0x7fff).setWidth 32 = 0x7fff := by
    apply field_ne
    change val.exponent ≠ 0x7fff
    omega
  unfold LD2D
  dsimp only
  rw [if_neg special, if_pos (.inr (by rw [toInt_exp64]; omega)), ite_sign]
  by_cases negative : val.sign = 1
  · rw [if_pos negative, negative]
    rfl
  · rw [if_neg negative, sign_eq_zero negative]
    rfl

theorem LD2D_normal (least : 15360 < val.exponent) (lt : val.exponent < 15360 + 0x7ff) :
    (LD2D val).toNat = 2 ^ 63 * val.sign + 2 ^ 52 * (val.exponent - 15360) + val.q.toNat / 2 ^ 11 % 2 ^ 52 := by
  have special : ¬ (val.b &&& 0x7fff).setWidth 32 = 0x7fff := by
    apply field_ne
    change val.exponent ≠ 0x7fff
    omega
  have fraction : ((val.q >>> 11) &&& 0xfffffffffffff).toNat = val.q.toNat / 2 ^ 11 % 2 ^ 52 := by
    refine (toNat_and_mask (k := 52) (by decide) _).trans ?_
    rw [toNat_ushiftRight, Nat.shiftRight_eq_div_pow]
  unfold LD2D
  dsimp only
  rw [if_neg special, if_neg (not_small least), if_neg (by rw [toInt_exp64]; omega), ← fraction]
  apply toNat_orUd1
  · rw [fraction]
    exact Nat.mod_lt _ (by decide)
  · refine toNat_signed ?_ val.sign_le ?_ ?_
    · split
      case isTrue negative => exact (val.sign_iff.mp negative).symm
      case isFalse positive => exact (sign_eq_zero fun negative => positive (val.sign_iff.mpr negative)).symm
    · rw [toNat_and_exponent, toNat_and_exponent, toNat_exp64 least.le]
      omega
    · omega

end LongDouble

/-! ### `D2LD` -/

theorem and_shiftLeft {n : Nat} (x mask : BitVec n) (k : Nat) : x &&& (mask <<< k) = ((x >>> k) &&& mask) <<< k := by
  ext i lt
  rw [getElem_and, getElem_shiftLeft, getElem_shiftLeft]
  by_cases below : i < k
  · simp [below]
  · have bit : k + (i - k) = i := by omega
    simp [below, bit, lt]

section Fields

variable (d : BitVec 64)

theorem sign64_le : sign64 d ≤ 1 := by
  have lt := d.isLt
  unfold sign64
  omega

theorem exponent64_lt : exponent64 d < 2 ^ 11 := Nat.mod_lt _ (by decide)

theorem fraction64_lt : fraction64 d < 2 ^ 52 := Nat.mod_lt _ (by decide)

theorem toNat_fields : d.toNat = 2 ^ 63 * sign64 d + 2 ^ 52 * exponent64 d + fraction64 d := by
  have lt := d.isLt
  unfold sign64 exponent64 fraction64
  omega

theorem toNat_exp80 : (ud1 d &&& 0x7ff00000).toNat = 2 ^ 20 * exponent64 d := by
  have lt := d.isLt
  have mask : (0x7ff00000 : BitVec 32) = 0x7ff#32 <<< 20 := rfl
  have low : ((ud1 d >>> 20) &&& 0x7ff#32).toNat = (ud1 d >>> 20).toNat % 2 ^ 11 := toNat_and_exponent _
  rw [mask, and_shiftLeft, toNat_shiftLeft, low, toNat_ushiftRight, toNat_ud1, Nat.shiftLeft_eq,
    Nat.shiftRight_eq_div_pow]
  unfold exponent64
  omega

theorem toNat_exp80final : ((ud1 d &&& 0x7ff00000) >>> 20).toNat = exponent64 d := by
  rw [toNat_ushiftRight, toNat_exp80, Nat.shiftRight_eq_div_pow, Nat.mul_div_cancel_left _ (by decide)]

theorem toNat_mant80 : (d &&& 0x000fffffffffffff).toNat = fraction64 d := toNat_and_mask (k := 52) (by decide) d

theorem toNat_mant80final : ((d &&& 0x000fffffffffffff) <<< 11).toNat = 2 ^ 11 * fraction64 d := by
  have lt := fraction64_lt d
  rw [toNat_shiftLeft, toNat_mant80, Nat.shiftLeft_eq]
  omega

theorem toNat_sign80 : (if ud1 d &&& 0x80000000 ≠ 0 then 1 else 0 : BitVec 32).toNat = sign64 d := by
  have lt := d.isLt
  have top : ud1 d &&& 0x80000000 ≠ 0 ↔ 2 ^ 31 ≤ d.toNat / 2 ^ 32 :=
    (and_top_ne_zero (by decide) (ud1 d)).trans (iff_of_eq (congrArg (2 ^ 31 ≤ ·) (toNat_ud1 d)))
  have le := sign64_le d
  by_cases negative : sign64 d = 1
  · rw [if_pos (top.mpr (by unfold sign64 at negative; omega)), negative]
    rfl
  · rw [if_neg (fun set => negative (by have bound := top.mp set; unfold sign64; omega))]
    change 0 = sign64 d
    omega

theorem magnitude_eq_zero_iff : d &&& 0x7fffffffffffffff = 0 ↔ exponent64 d = 0 ∧ fraction64 d = 0 := by
  have lt := d.isLt
  have masked : (d &&& 0x7fffffffffffffff).toNat = d.toNat % 2 ^ 63 := toNat_and_mask (k := 63) (by decide) d
  rw [← BitVec.toNat_inj, masked]
  change d.toNat % 2 ^ 63 = 0 ↔ _
  unfold exponent64 fraction64
  omega

/-- The exponent word of the result. -/
theorem toNat_b {e : BitVec 32} (small : e.toNat < 2 ^ 15) :
    (((if ud1 d &&& 0x80000000 ≠ 0 then 1 else 0 : BitVec 32).setWidth 16 <<< 15) ||| e.setWidth 16).toNat =
      2 ^ 15 * sign64 d + e.toNat := by
  have le := sign64_le d
  have high : ((if ud1 d &&& 0x80000000 ≠ 0 then 1 else 0 : BitVec 32).setWidth 16 <<< 15).toNat = 2 ^ 15 * sign64 d := by
    rw [toNat_shiftLeft, toNat_setWidth, toNat_sign80, Nat.shiftLeft_eq]
    omega
  have low : (e.setWidth 16).toNat = e.toNat := by
    rw [toNat_setWidth]
    omega
  rw [toNat_or, high, low, ← Nat.two_pow_add_eq_or_of_lt small]

end Fields

/-- The parts of a long double, as numbers. -/
structure LongDouble.Parts (ld : LongDouble) (sign exponent mantissa : Nat) : Prop where
  sign : ld.sign = sign
  exponent : ld.exponent = exponent
  mantissa : ld.q.toNat = mantissa

theorem parts_of_b {ld : LongDouble} {s e m : Nat} (b : ld.b.toNat = 2 ^ 15 * s + e) (lt : e < 2 ^ 15)
    (q : ld.q.toNat = m) : ld.Parts s e m := by
  refine ⟨?_, ?_, q⟩
  · unfold LongDouble.sign
    omega
  · unfold LongDouble.exponent
    omega

variable {d : BitVec 64}

/-- The sign of a zero is looked for in bit 15 of its high word. -/
theorem D2LD_zero (exponent : exponent64 d = 0) (fraction : fraction64 d = 0) : D2LD d = ⟨0, 0⟩ := by
  have lt := d.isLt
  have whole := toNat_fields d
  have bit : ¬ ud1 d &&& 0x8000 ≠ 0 := by
    have high : ud1 d = 0 ∨ ud1 d = 0x80000000 := by
      rw [← BitVec.toNat_inj, ← BitVec.toNat_inj, toNat_ud1, whole, exponent, fraction]
      have le := sign64_le d
      change _ = 0 ∨ _ = 2 ^ 31
      omega
    obtain high | high := high
    all_goals
      rw [high]
      decide
  unfold D2LD
  rw [if_pos ((magnitude_eq_zero_iff d).mpr ⟨exponent, fraction⟩), if_neg bit]

theorem not_special (lt : exponent64 d < 0x7ff) : ¬ (ud1 d &&& 0x7ff00000) >>> 20 = 0x7ff := by
  intro special
  have same := congrArg BitVec.toNat special
  rw [toNat_exp80final] at same
  exact absurd same lt.ne

section NonZero

variable (nonzero : ¬ (exponent64 d = 0 ∧ fraction64 d = 0))
include nonzero

theorem D2LD_special (exponent : exponent64 d = 0x7ff) :
    (D2LD d).Parts (sign64 d) 0x7fff (if fraction64 d = 0 then 2 ^ 63 else 2 ^ 63 + 2 ^ 62) := by
  have special : (ud1 d &&& 0x7ff00000) >>> 20 = 0x7ff := by
    rw [← BitVec.toNat_inj, toNat_exp80final, exponent]
    rfl
  have zero : d &&& 0x000fffffffffffff = 0 ↔ fraction64 d = 0 := by
    rw [← BitVec.toNat_inj, toNat_mant80]
    rfl
  unfold D2LD
  rw [if_neg (fun magnitude => nonzero ((magnitude_eq_zero_iff d).mp magnitude))]
  dsimp only
  rw [if_pos special]
  refine parts_of_b (toNat_b d (by decide)) (by decide) ?_
  by_cases infinite : fraction64 d = 0
  · rw [if_pos infinite, if_pos (zero.mpr infinite)]
    rfl
  · rw [if_neg infinite, if_neg (fun null => infinite (zero.mp null))]
    rfl

theorem D2LD_normal (least : 0 < exponent64 d) (lt : exponent64 d < 0x7ff) :
    (D2LD d).Parts (sign64 d) (exponent64 d + 15360) (2 ^ 63 + 2 ^ 11 * fraction64 d) := by
  have normal : ud1 d &&& 0x7ff00000 ≠ 0 := by
    intro null
    have zero := congrArg BitVec.toNat null
    rw [toNat_exp80] at zero
    change 2 ^ 20 * exponent64 d = 0 at zero
    omega
  have biased : ((ud1 d &&& 0x7ff00000) >>> 20 + (BIAS80 - BIAS64)).toNat = exponent64 d + 15360 := by
    rw [toNat_add, toNat_exp80final]
    change (exponent64 d + 15360) % 2 ^ 32 = _
    omega
  have fraction := fraction64_lt d
  unfold D2LD
  rw [if_neg (fun magnitude => nonzero ((magnitude_eq_zero_iff d).mp magnitude))]
  dsimp only
  rw [if_neg (not_special lt), if_pos normal]
  refine parts_of_b ((toNat_b d (by rw [biased]; omega)).trans (by rw [biased])) (by omega) ?_
  rw [toNat_or, toNat_mant80final, Nat.or_comm]
  change 2 ^ 63 * 1 ||| _ = _
  rw [← Nat.two_pow_add_eq_or_of_lt (by omega), Nat.mul_one]

theorem D2LD_denormal (exponent : exponent64 d = 0) :
    (D2LD d).Parts (sign64 d) 0 (2 ^ 11 * fraction64 d) := by
  have denormal : ¬ ud1 d &&& 0x7ff00000 ≠ 0 := by
    rw [not_ne_iff, ← BitVec.toNat_inj, toNat_exp80, exponent]
    rfl
  have low : ((ud1 d &&& 0x7ff00000) >>> 20).toNat = 0 := by rw [toNat_exp80final, exponent]
  unfold D2LD
  rw [if_neg (fun magnitude => nonzero ((magnitude_eq_zero_iff d).mp magnitude))]
  dsimp only
  rw [if_neg (not_special (by omega)), if_neg denormal]
  exact parts_of_b ((toNat_b d (by rw [low]; decide)).trans (by rw [low])) (by decide) (toNat_mant80final d)

end NonZero

/-! ### Both ways -/

theorem roundTrip_zero (exponent : exponent64 d = 0) (fraction : fraction64 d = 0) : LD2D (D2LD d) = 0 := by
  rw [D2LD_zero exponent fraction]
  rfl

theorem roundTrip_normal (least : 0 < exponent64 d) (lt : exponent64 d < 0x7ff) : LD2D (D2LD d) = d := by
  have whole := toNat_fields d
  have small := fraction64_lt d
  obtain ⟨sign, exponent, mantissa⟩ := D2LD_normal (fun zero => least.ne' zero.1) least lt
  apply BitVec.eq_of_toNat_eq
  rw [LongDouble.LD2D_normal _ (by omega) (by omega), sign, exponent, mantissa]
  omega

theorem roundTrip_infinity (exponent : exponent64 d = 0x7ff) (fraction : fraction64 d = 0) : LD2D (D2LD d) = d := by
  have whole := toNat_fields d
  obtain ⟨sign, special, -⟩ := D2LD_special (fun zero => by omega) exponent
  apply BitVec.eq_of_toNat_eq
  rw [LongDouble.LD2D_large _ (by omega), sign]
  omega

/-- The exponent of a denormal is not raised, so `LD2D` takes it for too small. -/
theorem roundTrip_denormal (exponent : exponent64 d = 0) (fraction : fraction64 d ≠ 0) : LD2D (D2LD d) ≠ d := by
  have whole := toNat_fields d
  obtain ⟨sign, small, -⟩ := D2LD_denormal (fun zero => fraction zero.2) exponent
  intro same
  have value := congrArg BitVec.toNat same
  rw [LongDouble.LD2D_small _ (by omega), sign] at value
  omega

theorem roundTrip_iff (d : BitVec 64) :
    IsNaN d ∨ LD2D (D2LD d) = d ↔ ¬ (d = 0x8000000000000000 ∨ IsDenormal d) := by
  have whole := toNat_fields d
  have least := sign64_le d
  have bound := exponent64_lt d
  have small := fraction64_lt d
  have negative : d = 0x8000000000000000 ↔ d.toNat = 2 ^ 63 := BitVec.toNat_inj.symm
  unfold IsNaN IsDenormal
  rw [negative]
  obtain zero | nonzero := Nat.eq_zero_or_pos (exponent64 d)
  · by_cases fraction : fraction64 d = 0
    · have positive : LD2D (D2LD d) = d ↔ d.toNat = 0 := by
        rw [roundTrip_zero zero fraction, eq_comm, ← BitVec.toNat_inj]
        rfl
      rw [positive]
      omega
    · have changed := roundTrip_denormal zero fraction
      refine iff_of_false ?_ (fun fine => fine (.inr ⟨zero, fraction⟩))
      rintro (nan | same)
      · omega
      · exact changed same
  · refine iff_of_true ?_ (by omega)
    obtain normal | special := Nat.lt_or_ge (exponent64 d) 0x7ff
    · exact .inr (roundTrip_normal nonzero normal)
    · have top : exponent64 d = 0x7ff := by omega
      by_cases fraction : fraction64 d = 0
      · exact .inr (roundTrip_infinity top fraction)
      · exact .inl ⟨top, fraction⟩

/-- No long double becomes a NaN. -/
theorem keepsClass_iff (ld : LongDouble) : ld.KeepsClass ↔ ¬ ld.IsNaN := by
  have least := ld.sign_le
  constructor
  · intro keeps nan
    obtain ⟨exponent, fraction⟩ := keeps.nan nan
    have value := ld.LD2D_large (by rw [nan.1]; decide)
    unfold fraction64 at fraction
    omega
  · intro number
    refine ⟨fun nan => absurd nan number, ?_, ?_⟩
    · rintro sign ⟨rfl, exponent, -⟩
      have value := ld.LD2D_large (by rw [exponent]; decide)
      unfold Emu.IsInfinity sign64 exponent64 fraction64
      omega
    · rintro sign ⟨rfl, exponent, -⟩
      have value := ld.LD2D_small (by rw [exponent]; decide)
      unfold Emu.IsZero sign64 exponent64 fraction64
      omega

/-- A double comes back from 80 bits unless it is the negative zero or a denormal, and a long double that is not a NaN
keeps its class. -/
theorem conversions_iff (d : BitVec 64) (ld : LongDouble) :
    (IsNaN d ∨ LD2D (D2LD d) = d ↔ ¬ (d = 0x8000000000000000 ∨ IsDenormal d)) ∧ (ld.KeepsClass ↔ ¬ ld.IsNaN) :=
  ⟨roundTrip_iff d, keepsClass_iff ld⟩

/-- The negative zero and the least denormal do not come back, and a quiet NaN becomes an infinity. -/
theorem conversions_lose :
    (¬ IsNaN 0x8000000000000000 ∧ LD2D (D2LD 0x8000000000000000) ≠ 0x8000000000000000) ∧
      (¬ IsNaN 1 ∧ LD2D (D2LD 1) ≠ 1) ∧
      LongDouble.IsNaN ⟨0xc000000000000000, 0x7fff⟩ ∧ ¬ IsNaN (LD2D ⟨0xc000000000000000, 0x7fff⟩) := by
  unfold LongDouble.IsNaN IsNaN
  decide

end Box64.Emu
