import Mathlib.Data.BitVec
import Mathlib.Tactic.Ring

/-!
# LEB128

Numbers as groups of seven bits, the lowest first; every byte but the last has its top bit set.
-/

namespace Leb128

/-- The groups of a number, the lowest first; more of them than it needs are allowed. -/
abbrev Groups := List (BitVec 7)

def bytes : Groups → List (BitVec 8)
  | [] => []
  | [g] => [g.setWidth 8]
  | g :: gs => (g.setWidth 8 ||| 0x80) :: bytes gs

def value : Groups → Nat
  | [] => 0
  | g :: gs => g.toNat + 2 ^ 7 * value gs

/-- The sign is the top bit of the last group. -/
def signedValue : Groups → Int
  | [] => 0
  | [g] => g.toInt
  | g :: gs => g.toNat + 2 ^ 7 * signedValue gs

variable {g : BitVec 7} {gs hs : Groups}

theorem bytes_cons (more : gs ≠ []) : bytes (g :: gs) = (g.setWidth 8 ||| 0x80) :: bytes gs := by
  cases gs with
  | nil => exact absurd rfl more
  | cons h gs => rfl

theorem signedValue_cons (more : gs ≠ []) : signedValue (g :: gs) = g.toNat + 2 ^ 7 * signedValue gs := by
  cases gs with
  | nil => exact absurd rfl more
  | cons h gs => rfl

theorem value_lt (gs : Groups) : value gs < 2 ^ (7 * gs.length) := by
  induction gs with
  | nil => exact Nat.one_pos
  | cons g gs ih =>
    have small := g.isLt
    rw [value, List.length_cons, Nat.mul_succ, Nat.pow_add]
    omega

theorem value_append : value (gs ++ hs) = value gs + 2 ^ (7 * gs.length) * value hs := by
  induction gs with
  | nil => simp [value]
  | cons g gs ih =>
    rw [List.cons_append, value, value, ih, List.length_cons, Nat.mul_succ, Nat.pow_add]
    ring

theorem signedValue_append (more : hs ≠ []) :
    signedValue (gs ++ hs) = value gs + 2 ^ (7 * gs.length) * signedValue hs := by
  induction gs with
  | nil => simp [value]
  | cons g gs ih =>
    rw [List.cons_append, signedValue_cons (List.append_ne_nil_of_right_ne_nil gs more), ih, value, List.length_cons,
      Nat.mul_succ, pow_add]
    push_cast
    ring

end Leb128
