import Box64.Lib.Leb128
import Mathlib.Tactic.IntervalCases

/-!
# `readULEB` and `readSLEB`

The groups of an LEB128 number, gathered in a 64-bit variable; each is shifted as an `int`.
-/

namespace Box64.Elfs

open Leb128

/-- What `x << k` gives where C does not define it: for an `int` and a `k` of 32 or more, for an `unsigned long long` and
a `k` of 64 or more. -/
structure Shifts where
  int : BitVec 32 → Nat → BitVec 32
  ull : BitVec 64 → Nat → BitVec 64

/-- A machine that shifts everything out. -/
def zeroShifts : Shifts := ⟨fun _ _ => 0, fun _ _ => 0⟩

/-- `x << k` on `int`, which loses the bits that do not fit. -/
def Shifts.shlInt (host : Shifts) (x : BitVec 32) (k : Nat) : BitVec 32 := if k < 32 then x <<< k else host.int x k

def Shifts.shlUll (host : Shifts) (x : BitVec 64) (k : Nat) : BitVec 64 := if k < 64 then x <<< k else host.ull x k

section Reading

variable (host : Shifts)

/-- `(byte & 0x7F) << shift`, as the 64-bit variable takes it. -/
def piece (byte : BitVec 8) (shift : Nat) : BitVec 64 :=
  (host.shlInt ((byte &&& 0x7F).setWidth 32) shift).signExtend 64

/-- The loop of both functions: the variable, the last byte, the last shift, and the bytes behind the number. -/
def readGroups (var : BitVec 64) (shift : Nat) : List (BitVec 8) → Option (BitVec 64 × BitVec 8 × Nat × List (BitVec 8))
  | [] => none
  | byte :: ptr =>
    let var := var ||| piece host byte shift
    if byte &&& 0x80 = 0 then some (var, byte, shift, ptr) else readGroups var (shift + 7) ptr

/-- `ptr` is the memory from the pointer on, as far as there is any. -/
def readULEB (ptr : List (BitVec 8)) : Option (BitVec 64 × List (BitVec 8)) :=
  (readGroups host 0 0 ptr).map fun (var, _, _, ptr) => (var, ptr)

def readSLEB (ptr : List (BitVec 8)) : Option (BitVec 64 × List (BitVec 8)) :=
  (readGroups host 0 0 ptr).map fun (tmp, byte, shift, ptr) =>
    if byte &&& 0x40 ≠ 0 then (tmp ||| host.shlUll 0xFFFFFFFFFFFFFFFF (shift + 7), ptr) else (tmp, ptr)

end Reading

/-! ### What the loop gathers -/

section Gathered

variable (host : Shifts)

def pieces (shift : Nat) : Groups → BitVec 64
  | [] => 0#64
  | g :: gs => piece host (g.setWidth 8) shift ||| pieces (shift + 7) gs

theorem piece_continued (g : BitVec 7) (shift : Nat) :
    piece host (g.setWidth 8 ||| 0x80) shift = piece host (g.setWidth 8) shift := by
  have masked : (g.setWidth 8 ||| 0x80) &&& 0x7F = g.setWidth 8 &&& 0x7F := by
    ext i lt
    interval_cases i <;> simp
  rw [piece, masked, piece]

theorem readGroups_bytes (var : BitVec 64) (shift : Nat) {gs : Groups} (last : BitVec 7) (tail : List (BitVec 8)) :
    readGroups host var shift (bytes (gs ++ [last]) ++ tail) =
      some (var ||| pieces host shift (gs ++ [last]), last.setWidth 8, shift + 7 * gs.length, tail) := by
  induction gs generalizing var shift with
  | nil =>
    have ends : (last.setWidth 8 : BitVec 8) &&& 0x80 = 0 := by
      ext i lt
      interval_cases i <;> simp
    rw [List.nil_append, bytes, List.singleton_append, readGroups, if_pos ends, pieces, pieces, BitVec.or_zero]
    rfl
  | cons g gs ih =>
    have goes : ¬ (g.setWidth 8 ||| 0x80) &&& 0x80 = 0 := by
      intro zero
      have top := congrArg (·.getLsbD 7) zero
      simp at top
    have more : gs ++ [last] ≠ [] := List.append_ne_nil_of_right_ne_nil gs (List.cons_ne_nil _ _)
    rw [List.cons_append, bytes_cons more, List.cons_append, readGroups, if_neg goes, ih, piece_continued, pieces,
      BitVec.or_assoc, List.length_cons, Nat.mul_succ, Nat.add_assoc, Nat.add_comm 7]

theorem pieces_append (shift : Nat) (gs hs : Groups) :
    pieces host shift (gs ++ hs) = pieces host shift gs ||| pieces host (shift + 7 * gs.length) hs := by
  induction gs generalizing shift with
  | nil => simp [pieces]
  | cons g gs ih =>
    rw [List.cons_append, pieces, pieces, ih, BitVec.or_assoc, List.length_cons, Nat.mul_succ, Nat.add_assoc,
      Nat.add_comm 7]

/-- A group shifted as an `int`, whose sign fills the upper half. -/
theorem toNat_piece (g : BitVec 7) {shift : Nat} (lt : shift < 32) :
    (piece host (g.setWidth 8) shift).toNat = g.toNat * 2 ^ shift % 2 ^ 32 +
      if 2 ^ 31 ≤ g.toNat * 2 ^ shift % 2 ^ 32 then 2 ^ 64 - 2 ^ 32 else 0 := by
  have masked : ((g.setWidth 8 &&& 0x7F).setWidth 32 : BitVec 32) = g.setWidth 32 := by
    ext i lt
    interval_cases i <;> simp
  have small := g.isLt
  have fits : g.toNat < 2 ^ 32 := by omega
  rw [piece, masked, Shifts.shlInt, if_pos lt, BitVec.toNat_signExtend, BitVec.msb_eq_decide, BitVec.toNat_setWidth,
    BitVec.toNat_shiftLeft, BitVec.toNat_setWidth, Nat.mod_eq_of_lt fits, Nat.shiftLeft_eq]
  have below : g.toNat * 2 ^ shift % 2 ^ 32 < 2 ^ 64 := by omega
  simp only [Nat.mod_eq_of_lt below, decide_eq_true_eq]

/-- As long as everything fits in an `int` the pieces add up. -/
theorem toNat_pieces {shift : Nat} {gs : Groups} (fits : shift + 7 * gs.length ≤ 31) :
    (pieces host shift gs).toNat = 2 ^ shift * value gs := by
  induction gs generalizing shift with
  | nil => rfl
  | cons g gs ih =>
    rw [List.length_cons, Nat.mul_succ] at fits
    have rest : (pieces host (shift + 7) gs).toNat = 2 ^ (shift + 7) * value gs := ih (by omega)
    have small := g.isLt
    have lower : 2 ^ shift * g.toNat < 2 ^ (shift + 7) := by
      rw [Nat.pow_add]
      exact Nat.mul_lt_mul_of_pos_left small (Nat.two_pow_pos shift)
    have bound : 2 ^ (shift + 7) ≤ 2 ^ 31 := Nat.pow_le_pow_right (by decide) (by omega)
    have first : (piece host (g.setWidth 8) shift).toNat = 2 ^ shift * g.toNat := by
      rw [toNat_piece host g (by omega), Nat.mul_comm, Nat.mod_eq_of_lt (by omega), if_neg (by omega)]
      rfl
    rw [pieces, BitVec.toNat_or, first, rest, Nat.or_comm, ← Nat.two_pow_add_eq_or_of_lt lower, value]
    ring

/-- The fifth group: the three bits above the sign are lost. -/
theorem toNat_fifth (g : BitVec 7) :
    (piece host (g.setWidth 8) 28).toNat =
      2 ^ 28 * (g.toNat % 16 + if 8 ≤ g.toNat % 16 then 2 ^ 36 - 2 ^ 4 else 0) := by
  have small := g.isLt
  rw [toNat_piece host g (by decide)]
  split <;> split <;> omega

theorem toNat_five {front : Groups} (four : front.length = 4) (g : BitVec 7) :
    (pieces host 0 (front ++ [g])).toNat =
      value front + 2 ^ 28 * (g.toNat % 16 + if 8 ≤ g.toNat % 16 then 2 ^ 36 - 2 ^ 4 else 0) := by
  have lower := value_lt front
  rw [four] at lower
  rw [pieces_append, pieces, pieces, BitVec.or_zero, BitVec.toNat_or, toNat_pieces host (by omega), four, toNat_fifth,
    Nat.or_comm, pow_zero, Nat.one_mul, ← Nat.two_pow_add_eq_or_of_lt lower, Nat.add_comm]

end Gathered

theorem split_groups {gs : Groups} {n : Nat} (long : n < gs.length) :
    ∃ front g rest, gs = front ++ g :: rest ∧ front.length = n := by
  refine ⟨gs.take n, gs[n], gs.drop (n + 1), ?_, ?_⟩
  · rw [List.getElem_cons_drop, List.take_append_drop]
  · rw [List.length_take, Nat.min_eq_left (by omega)]

/-- A host whose undefined shifts set every bit. -/
def allOnes : Shifts := ⟨fun _ _ => BitVec.allOnes 32, fun _ _ => BitVec.allOnes 64⟩

theorem pieces_allOnes {gs : Groups} (long : 5 < gs.length) : pieces allOnes 0 gs = BitVec.allOnes 64 := by
  obtain ⟨front, g, rest, rfl, five⟩ := split_groups long
  have sixth : piece allOnes (g.setWidth 8) 35 = BitVec.allOnes 64 := by
    have undefined : ∀ x, allOnes.shlInt x 35 = BitVec.allOnes 32 := fun x => rfl
    rw [piece, undefined]
    rfl
  rw [pieces_append, pieces, five, sixth, BitVec.allOnes_or, BitVec.or_allOnes]

/-- Groups of ones fill the variable by the fifth. -/
theorem pieces_of_ones (host : Shifts) {front rest : Groups} (four : front.length = 4)
    (ones : value front = 2 ^ 28 - 1) : pieces host 0 (front ++ 127#7 :: rest) = BitVec.allOnes 64 := by
  have filled : pieces host 0 (front ++ [127#7]) = BitVec.allOnes 64 := by
    apply BitVec.eq_of_toNat_eq
    rw [toNat_five host four, ones]
    rfl
  rw [show front ++ 127#7 :: rest = (front ++ [127#7]) ++ rest by simp, pieces_append, filled, BitVec.allOnes_or]

theorem readULEB_bytes (host : Shifts) {gs : Groups} (more : gs ≠ []) (tail : List (BitVec 8)) :
    readULEB host (bytes gs ++ tail) = some (pieces host 0 gs, tail) := by
  obtain ⟨init, last, rfl⟩ := List.eq_nil_or_concat gs |>.resolve_left more
  rw [List.concat_eq_append, readULEB, readGroups_bytes, Option.map_some]
  exact congrArg (fun var => some (var, tail)) BitVec.zero_or

theorem readULEB_iff {gs : Groups} (more : gs ≠ []) (fits : value gs < 2 ^ 64) (tail : List (BitVec 8)) :
    (∀ host, readULEB host (bytes gs ++ tail) = some (BitVec.ofNat 64 (value gs), tail)) ↔
      gs.length ≤ 5 ∧ value gs < 2 ^ 31 ∨ value gs = 2 ^ 64 - 1 := by
  simp only [readULEB_bytes _ more, Option.some.injEq, Prod.mk.injEq, and_true, ← BitVec.toNat_inj,
    BitVec.toNat_ofNat, Nat.mod_eq_of_lt fits]
  obtain short | five | long : gs.length ≤ 4 ∨ gs.length = 5 ∨ 5 < gs.length := by omega
  · have small := value_lt gs
    have bound : 2 ^ (7 * gs.length) ≤ 2 ^ 28 := Nat.pow_le_pow_right (by decide) (by omega)
    refine iff_of_true (fun host => ?_) (Or.inl ⟨by omega, by omega⟩)
    rw [toNat_pieces host (by omega), pow_zero, Nat.one_mul]
  · obtain ⟨front, g, rest, rfl, four⟩ := split_groups (show 4 < gs.length by omega)
    obtain rfl : rest = [] := by
      rw [List.length_append, List.length_cons, four] at five
      exact List.eq_nil_of_length_eq_zero (by omega)
    have lower := value_lt front
    have small := g.isLt
    rw [four] at lower
    simp only [toNat_five _ four, five, value_append, four, value]
    constructor
    · intro right
      have now := right allOnes
      left
      split at now <;> omega
    · intro holds host
      split <;> omega
  · constructor
    · intro right
      have now := right allOnes
      rw [pieces_allOnes long, BitVec.toNat_allOnes] at now
      exact Or.inr now.symm
    · intro holds host
      obtain ⟨short, -⟩ | full := holds
      · omega
      obtain ⟨front, g, rest, rfl, four⟩ := split_groups (show 4 < gs.length by omega)
      have lower := value_lt front
      have small := g.isLt
      rw [four] at lower
      rw [value_append, four, value] at full
      obtain rfl : g = 127#7 := BitVec.eq_of_toNat_eq (by rw [BitVec.toNat_ofNat]; omega)
      rw [pieces_of_ones host four (by omega), BitVec.toNat_allOnes, value_append, value, four, full]

/-! ### The sign -/

/-- What `readSLEB` makes of the groups. -/
def signed (host : Shifts) (front : Groups) (last : BitVec 7) : BitVec 64 :=
  if last.msb then pieces host 0 (front ++ [last]) ||| host.shlUll (BitVec.allOnes 64) (7 * front.length + 7)
  else pieces host 0 (front ++ [last])

theorem readSLEB_bytes (host : Shifts) (front : Groups) (last : BitVec 7) (tail : List (BitVec 8)) :
    readSLEB host (bytes (front ++ [last]) ++ tail) = some (signed host front last, tail) := by
  have sign : ((last.setWidth 8 : BitVec 8) &&& 0x40 ≠ 0) = (last.msb = true) := by
    revert last
    decide
  have gathered : (0 : BitVec 64) ||| pieces host 0 (front ++ [last]) = pieces host 0 (front ++ [last]) := BitVec.zero_or
  rw [readSLEB, readGroups_bytes, Option.map_some, gathered, Nat.zero_add, signed]
  simp only [sign]
  split <;> rfl

theorem toInt_group (g : BitVec 7) : g.toInt = g.toNat - if g.msb then 128 else 0 := by
  revert g
  decide

/-- Ones from bit `k` on, set above a number that ends there. -/
theorem toNat_fill {x : BitVec 64} {k : Nat} (below : x.toNat < 2 ^ k) (lt : k < 64) :
    (x ||| BitVec.allOnes 64 <<< k).toNat = x.toNat + (2 ^ 64 - 2 ^ k) := by
  have product : 2 ^ k * 2 ^ (64 - k) = 2 ^ 64 := by rw [← Nat.pow_add, Nat.add_sub_cancel' (Nat.le_of_lt lt)]
  have pos := Nat.two_pow_pos k
  have le : 2 ^ k ≤ 2 ^ 64 := Nat.pow_le_pow_right (by decide) (Nat.le_of_lt lt)
  have ones : (BitVec.allOnes 64 <<< k).toNat = 2 ^ k * (2 ^ (64 - k) - 1) := by
    have wrapped : (2 ^ 64 - 1) * 2 ^ k = (2 ^ 64 - 2 ^ k) + 2 ^ 64 * (2 ^ k - 1) := by omega
    rw [BitVec.toNat_shiftLeft, BitVec.toNat_allOnes, Nat.shiftLeft_eq, wrapped, Nat.add_mul_mod_self_left,
      Nat.mod_eq_of_lt (by omega), Nat.mul_sub_one, product]
  rw [BitVec.toNat_or, ones, Nat.or_comm, ← Nat.two_pow_add_eq_or_of_lt below, Nat.mul_sub_one, product, Nat.add_comm]

theorem toNat_signed_short (host : Shifts) {front : Groups} (last : BitVec 7) (short : front.length ≤ 3) :
    (signed host front last).toNat = signedValue (front ++ [last]) % 2 ^ 64 := by
  have gathered : (pieces host 0 (front ++ [last])).toNat = 2 ^ 0 * value (front ++ [last]) :=
    toNat_pieces host (by simp; omega)
  rw [pow_zero, Nat.one_mul, value_append, value, value, Nat.mul_zero, Nat.add_zero] at gathered
  have below := value_lt (front ++ [last])
  rw [value_append, value, value, Nat.mul_zero, Nat.add_zero, List.length_append, List.length_singleton] at below
  have small := last.isLt
  rw [signedValue_append (List.cons_ne_nil _ _), signedValue, toInt_group, signed]
  split
  · rw [Shifts.shlUll, if_pos (by omega), toNat_fill (by rw [gathered]; exact below) (by omega), gathered]
    interval_cases front.length <;> push_cast <;> omega
  · rw [gathered]
    interval_cases front.length <;> push_cast <;> omega

theorem fifth_filled (g : BitVec 7) (negative : g.msb = true) :
    (((g.setWidth 8 &&& 0x7F : BitVec 8).setWidth 32 <<< 28).signExtend 64 ||| BitVec.allOnes 64 <<< 35).toNat =
      2 ^ 28 * (g.toNat % 16 + if 8 ≤ g.toNat % 16 then 2 ^ 36 - 2 ^ 4 else 2 ^ 36 - 2 ^ 7) := by
  revert g
  decide

theorem toNat_signed_fifth (host : Shifts) {front : Groups} (last : BitVec 7) (four : front.length = 4) :
    (signed host front last).toNat = value front + 2 ^ 28 * (last.toNat % 16 +
      if 8 ≤ last.toNat % 16 then 2 ^ 36 - 2 ^ 4 else if last.msb then 2 ^ 36 - 2 ^ 7 else 0) := by
  rw [signed]
  split
  case isTrue negative =>
    have lower := value_lt front
    rw [four] at lower
    have ones : host.shlUll (BitVec.allOnes 64) (7 * front.length + 7) = BitVec.allOnes 64 <<< 35 := by
      rw [Shifts.shlUll, four, if_pos (by decide)]
    have fifth : piece host (last.setWidth 8) 28 =
        ((last.setWidth 8 &&& 0x7F : BitVec 8).setWidth 32 <<< 28).signExtend 64 := by
      rw [piece, Shifts.shlInt, if_pos (by decide)]
    rw [ones, pieces_append, pieces, pieces, BitVec.or_zero, four, fifth, BitVec.or_assoc, BitVec.toNat_or,
      fifth_filled last negative, toNat_pieces host (by omega), pow_zero, Nat.one_mul, Nat.or_comm,
      ← Nat.two_pow_add_eq_or_of_lt lower, Nat.add_comm]
  case isFalse positive => rw [toNat_five host four]

theorem readSLEB_iff {gs : Groups} (more : gs ≠ []) (low : -2 ^ 63 ≤ signedValue gs) (high : signedValue gs < 2 ^ 63)
    (tail : List (BitVec 8)) :
    (∀ host, readSLEB host (bytes gs ++ tail) = some (BitVec.ofInt 64 (signedValue gs), tail)) ↔
      gs.length ≤ 5 ∧ -2 ^ 31 ≤ signedValue gs ∧ signedValue gs < 2 ^ 31 ∨ signedValue gs = -1 := by
  obtain ⟨front, last, rfl⟩ := List.eq_nil_or_concat gs |>.resolve_left more
  rw [List.concat_eq_append] at *
  simp only [readSLEB_bytes, Option.some.injEq, Prod.mk.injEq, and_true, ← BitVec.toNat_inj, BitVec.toNat_ofInt,
    List.length_append, List.length_singleton]
  obtain short | four | long : front.length ≤ 3 ∨ front.length = 4 ∨ 5 < (front ++ [last]).length := by
    rw [List.length_append, List.length_singleton]
    omega
  · have lower := value_lt front
    have small := last.isLt
    refine iff_of_true (fun host => ?_) (Or.inl ?_)
    · have right := toNat_signed_short host last short
      omega
    · rw [signedValue_append (List.cons_ne_nil _ _), signedValue, toInt_group]
      refine ⟨by omega, ?_⟩
      interval_cases front.length <;> split <;> omega
  · have lower := value_lt front
    have small := last.isLt
    rw [four] at lower
    have top : last.msb = true ↔ 64 ≤ last.toNat := by
      rw [BitVec.msb_eq_decide, decide_eq_true_iff]
    simp only [toNat_signed_fifth _ _ four, signedValue_append (List.cons_ne_nil _ _), four, signedValue, toInt_group, top]
    constructor
    · intro right
      have now := right allOnes
      left
      split at now <;> split at now <;> omega
    · intro holds host
      split <;> split <;> omega
  · have overflowed : signed allOnes front last = BitVec.allOnes 64 := by
      rw [signed, pieces_allOnes long, BitVec.allOnes_or, ite_self]
    constructor
    · intro right
      have now := right allOnes
      rw [overflowed, BitVec.toNat_allOnes] at now
      right
      omega
    · intro holds host
      obtain ⟨short, -⟩ | full := holds
      · rw [List.length_append, List.length_singleton] at long
        omega
      obtain ⟨early, g, rest, split, four⟩ := split_groups (Nat.lt_of_lt_of_le (by decide : 4 < 6) long)
      have lower := value_lt early
      have small := g.isLt
      have beyond : rest ≠ [] := by
        rintro rfl
        rw [split, List.length_append, four, List.length_singleton] at long
        omega
      rw [four] at lower
      rw [split, signedValue_append (List.cons_ne_nil _ _), four, signedValue_cons beyond] at full
      obtain rfl : g = 127#7 := BitVec.eq_of_toNat_eq (by rw [BitVec.toNat_ofNat]; omega)
      have filled : signed host front last = BitVec.allOnes 64 := by
        rw [signed, split, pieces_of_ones host four (by omega), BitVec.allOnes_or, ite_self]
      rw [filled, BitVec.toNat_allOnes, split, signedValue_append (List.cons_ne_nil _ _), four, signedValue_cons beyond, full]
      decide

/-- Both functions are right up to 31 bits in at most five bytes, and where every bit is set. -/
theorem leb128_read_iff {gs : Groups} (more : gs ≠ []) (tail : List (BitVec 8)) :
    (value gs < 2 ^ 64 →
      ((∀ host, readULEB host (bytes gs ++ tail) = some (BitVec.ofNat 64 (value gs), tail)) ↔
        gs.length ≤ 5 ∧ value gs < 2 ^ 31 ∨ value gs = 2 ^ 64 - 1)) ∧
    (-2 ^ 63 ≤ signedValue gs → signedValue gs < 2 ^ 63 →
      ((∀ host, readSLEB host (bytes gs ++ tail) = some (BitVec.ofInt 64 (signedValue gs), tail)) ↔
        gs.length ≤ 5 ∧ -2 ^ 31 ≤ signedValue gs ∧ signedValue gs < 2 ^ 31 ∨ signedValue gs = -1)) :=
  ⟨fun fits => readULEB_iff more fits tail, fun low high => readSLEB_iff more low high tail⟩

theorem leb128_read_two_bytes :
    (∀ host, readULEB host (bytes [1, 126] ++ [5]) = some (16129, [5])) ∧
      ∀ host, readSLEB host (bytes [1, 126] ++ [5]) = some (-255, [5]) :=
  ⟨((@leb128_read_iff [1, 126] (by decide) [5]).1 (by decide)).2 (by decide),
    ((@leb128_read_iff [1, 126] (by decide) [5]).2 (by decide) (by decide)).2 (by decide)⟩

/-- `80 80 80 80 08` is 2³¹, which is negative as an `int`. -/
theorem readULEB_extends_sign :
    ¬ ∀ host gs tail, gs ≠ [] → gs.length ≤ 10 → value gs < 2 ^ 64 →
      readULEB host (bytes gs ++ tail) = some (BitVec.ofNat 64 (value gs), tail) := by
  intro right
  have read := right allOnes [0, 0, 0, 0, 8] [] (by decide) (by decide) (by decide)
  exact absurd read (by decide)

end Box64.Elfs
