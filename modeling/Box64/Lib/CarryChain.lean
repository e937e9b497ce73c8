import Mathlib.Data.BitVec
import Mathlib.Tactic.Ring

/-!
# Carry and borrow chains

The carries of an addition and the borrows of a subtraction, recovered from the operands and the result
by bitwise operations, and what the top two and the lowest few of them say about the numbers.
-/

namespace CarryChain

open BitVec

variable {n : Nat}

/-- The sum with a carry in. -/
def addc (x y : BitVec n) (c : Bool) : BitVec n := x + y + setWidth n (ofBool c)

/-- The difference with a borrow in. -/
def subb (x y : BitVec n) (c : Bool) : BitVec n := x - y - setWidth n (ofBool c)

/-- Bit `i` is the carry out of position `i`, if `r` is the sum of `x` and `y`. -/
def carries (x y r : BitVec n) : BitVec n := (x &&& y) ||| (~~~r &&& (x ||| y))

/-- Bit `i` is the borrow out of position `i`, if `r` is the difference of `x` and `y`. -/
def borrows (x y r : BitVec n) : BitVec n := (r &&& (~~~x ||| y)) ||| (~~~x &&& y)

theorem getLsbD_carries (x y : BitVec n) (c : Bool) {i : Nat} (lt : i < n) :
    (carries x y (addc x y c)).getLsbD i = carry (i + 1) x y c := by
  have sum := getLsbD_add_add_bool lt x y c
  simp only [carries, getLsbD_or, getLsbD_and, getLsbD_not, lt, decide_true, Bool.true_and, carry_succ]
  rw [show (addc x y c).getLsbD i = _ from sum]
  generalize x.getLsbD i = a, y.getLsbD i = b, carry i x y c = d
  revert a b d
  decide

theorem setWidth_ofBool_true (n : Nat) : setWidth n (ofBool true) = 1#n := by
  apply BitVec.eq_of_toNat_eq
  simp

theorem setWidth_ofBool_false (n : Nat) : setWidth n (ofBool false) = 0#n := by
  apply BitVec.eq_of_toNat_eq
  simp

theorem addc_false (x y : BitVec n) : addc x y false = x + y := by
  rw [addc, setWidth_ofBool_false, BitVec.add_zero]

theorem subb_false (x y : BitVec n) : subb x y false = x - y := by
  rw [subb, setWidth_ofBool_false, BitVec.sub_zero]

theorem subb_eq_addc (x y : BitVec n) (c : Bool) : subb x y c = addc x (~~~y) (!c) := by
  have neg : -y = ~~~y + 1#n := BitVec.neg_eq_not_add y
  cases c with
  | false => rw [subb_false, addc, Bool.not_false, setWidth_ofBool_true, BitVec.sub_eq_add_neg, neg, BitVec.add_assoc]
  | true =>
    rw [subb, Bool.not_true, addc_false, setWidth_ofBool_true, BitVec.sub_eq_add_neg x y, neg, ← BitVec.add_assoc,
      BitVec.add_sub_cancel]

theorem addc_not (x y : BitVec n) : addc x (~~~y) true = x - y := (subb_eq_addc x y false).symm.trans (subb_false x y)

theorem getLsbD_borrows (x y : BitVec n) (c : Bool) {i : Nat} (lt : i < n) :
    (borrows x y (subb x y c)).getLsbD i = !carry (i + 1) x (~~~y) (!c) := by
  have sum := getLsbD_add_add_bool lt x (~~~y) (!c)
  simp only [borrows, getLsbD_or, getLsbD_and, getLsbD_not, lt, decide_true, Bool.true_and, carry_succ]
  rw [subb_eq_addc, show (addc x (~~~y) (!c)).getLsbD i = _ from sum]
  simp only [getLsbD_not, lt, decide_true, Bool.true_and]
  generalize x.getLsbD i = a, y.getLsbD i = b, carry i x (~~~y) (!c) = d
  revert a b d
  decide

/-! ### As numbers -/

theorem carry_eq (x y : BitVec n) (c : Bool) (i : Nat) :
    carry i x y c = decide (2 ^ i ≤ x.toNat % 2 ^ i + y.toNat % 2 ^ i + c.toNat) := rfl

theorem not_carry_eq (x y : BitVec n) (c : Bool) {i : Nat} (le : i ≤ n) :
    (!carry i x (~~~y) (!c)) = decide (x.toNat % 2 ^ i < y.toNat % 2 ^ i + c.toNat) := by
  have pos : 0 < 2 ^ i := Nat.two_pow_pos i
  have flip : (~~~y).toNat % 2 ^ i = 2 ^ i - 1 - y.toNat % 2 ^ i := by
    obtain ⟨k, rfl⟩ := Nat.exists_eq_add_of_le le
    have split : 2 ^ (i + k) = 2 ^ i * 2 ^ k := Nat.pow_add 2 i k
    have div := Nat.div_add_mod y.toNat (2 ^ i)
    have small := Nat.mod_lt y.toNat pos
    have quot : y.toNat / 2 ^ i < 2 ^ k := by
      apply Nat.div_lt_of_lt_mul
      rw [← split]
      exact y.isLt
    rw [BitVec.toNat_not]
    have shape : 2 ^ (i + k) - 1 - y.toNat =
        (2 ^ i - 1 - y.toNat % 2 ^ i) + 2 ^ i * (2 ^ k - 1 - y.toNat / 2 ^ i) := by
      have expand : 2 ^ i * (2 ^ k - 1 - y.toNat / 2 ^ i) = 2 ^ i * 2 ^ k - 2 ^ i - 2 ^ i * (y.toNat / 2 ^ i) := by
        rw [Nat.mul_sub, Nat.mul_sub, Nat.mul_one]
      have room : 2 ^ i * (y.toNat / 2 ^ i) + 2 ^ i ≤ 2 ^ i * 2 ^ k := by
        rw [← Nat.mul_succ]
        exact Nat.mul_le_mul_left _ quot
      rw [expand, split]
      omega
    rw [shape, Nat.add_mul_mod_self_left]
    exact Nat.mod_eq_of_lt (by omega)
  have small := Nat.mod_lt x.toNat pos
  have small_y := Nat.mod_lt y.toNat pos
  rw [carry_eq, flip, ← decide_not]
  apply decide_eq_decide.mpr
  cases c <;> simp only [Bool.not_false, Bool.not_true, Bool.toNat_true, Bool.toNat_false] <;> omega

/-- A number outside the range of an `n`-bit signed integer. -/
def SignedOverflow (n : Nat) (v : Int) : Prop := v < -2 ^ (n - 1) ∨ 2 ^ (n - 1) ≤ v

instance (n : Nat) (v : Int) : Decidable (SignedOverflow n v) := inferInstanceAs (Decidable (_ ∨ _))

theorem decide_xor_decide (p q : Prop) [Decidable p] [Decidable q] :
    decide (¬(p ↔ q)) = (decide p ^^ decide q) := by
  by_cases p <;> by_cases q <;> simp_all

theorem mod_half {x M : Nat} (lt : x < 2 * M) : x % M = if M ≤ x then x - M else x := by
  split
  case isTrue high => rw [Nat.mod_eq_sub_mod high, Nat.mod_eq_of_lt (by omega)]
  case isFalse low => exact Nat.mod_eq_of_lt (by omega)

/-- The top two carries differ exactly where the signed sum overflows. -/
theorem carry_xor_carry (pos : 0 < n) (x y : BitVec n) (c : Bool) :
    (carry (n - 1) x y c ^^ carry n x y c) = decide (SignedOverflow n (x.toInt + y.toInt + c.toNat)) := by
  obtain ⟨m, rfl⟩ := Nat.exists_eq_add_one.mpr pos
  have double : 2 ^ (m + 1) = 2 * 2 ^ m := by rw [Nat.pow_succ, Nat.mul_comm]
  have hx := x.isLt
  have hy := y.isLt
  rw [double] at hx hy
  have cast : ((2 ^ m : Nat) : Int) = 2 ^ m := by push_cast; rfl
  rw [Nat.add_sub_cancel, carry_eq, carry_eq, Nat.mod_eq_of_lt x.isLt, Nat.mod_eq_of_lt y.isLt,
    mod_half hx, mod_half hy]
  simp only [SignedOverflow, Nat.add_sub_cancel, BitVec.toInt_eq_toNat_cond, double, ← cast]
  generalize 2 ^ m = M at hx hy
  have c_le : c.toNat ≤ 1 := Bool.toNat_le c
  rw [← decide_xor_decide]
  apply decide_eq_decide.mpr
  split <;> split <;> split <;> split <;> omega

/-- The top two borrows differ exactly where the signed difference overflows. -/
theorem borrow_xor_borrow (pos : 0 < n) (x y : BitVec n) (c : Bool) :
    ((!carry (n - 1) x (~~~y) (!c)) ^^ (!carry n x (~~~y) (!c))) =
      decide (SignedOverflow n (x.toInt - y.toInt - c.toNat)) := by
  rw [not_carry_eq x y c (Nat.sub_le n 1), not_carry_eq x y c (Nat.le_refl n)]
  obtain ⟨m, rfl⟩ := Nat.exists_eq_add_one.mpr pos
  have double : 2 ^ (m + 1) = 2 * 2 ^ m := by rw [Nat.pow_succ, Nat.mul_comm]
  have hx := x.isLt
  have hy := y.isLt
  rw [double] at hx hy
  have cast : ((2 ^ m : Nat) : Int) = 2 ^ m := by push_cast; rfl
  rw [Nat.add_sub_cancel, Nat.mod_eq_of_lt x.isLt, Nat.mod_eq_of_lt y.isLt, mod_half hx, mod_half hy]
  simp only [SignedOverflow, Nat.add_sub_cancel, BitVec.toInt_eq_toNat_cond, double, ← cast]
  generalize 2 ^ m = M at hx hy
  have c_le : c.toNat ≤ 1 := Bool.toNat_le c
  rw [← decide_xor_decide]
  apply decide_eq_decide.mpr
  split <;> split <;> split <;> split <;> omega

end CarryChain
