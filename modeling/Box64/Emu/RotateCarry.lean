import Box64.Emu.ShiftFlags

/-!
# Rotates through the carry

`rcl` and `rcr` rotate the number that the carry makes with the operand below it.
-/

namespace Box64.Emu

open BitVec

/-! ### Rotations -/

section Rotations

variable {n : Nat} (x : BitVec n)

theorem rotateLeft_none : x.rotateLeft 0 = x := by
  apply eq_of_getLsbD_eq
  intro i lt
  simp [lt]

theorem rotateRight_none : x.rotateRight 0 = x := by
  apply eq_of_getLsbD_eq
  intro i lt
  simp [lt]

theorem rotateRight_rotateLeft (r : Nat) : (x.rotateLeft r).rotateRight r = x := by
  apply eq_of_getLsbD_eq
  intro i lt
  have turn := Nat.mod_lt r (Nat.zero_lt_of_lt lt)
  rw [getLsbD_rotateRight, getLsbD_rotateLeft, getLsbD_rotateLeft]
  generalize r % n = k at turn ⊢
  by_cases below : i < n - k
  · have stays : ¬ k + i < k := by omega
    have inside : k + i < n := by omega
    simp [below, stays, inside]
  · have comes : i - (n - k) < k := by omega
    have place : n - k + (i - (n - k)) = i := by omega
    simp [below, comes, place, lt]

end Rotations

/-! ### Pieces of a rotated number -/

section Pieces

variable {n r : Nat} (d : BitVec n) (c : Bool)

theorem getLsbD_withCarry (x : BitVec n) {k i : Nat} (inside : k < n) :
    (if c then x ||| (1#n <<< k) else x).getLsbD i = (x.getLsbD i || (c && decide (k = i))) := by
  have one : 1#n <<< k = twoPow n k := rfl
  cases c with
  | false => simp
  | true => rw [if_pos rfl, getLsbD_or, one, getLsbD_twoPow, Bool.true_and, decide_eq_true inside, Bool.true_and]

/-- The piece shifted up, the piece that comes round, and the carry between them. -/
theorem cons_rcl (pos : 0 < r) (le : r ≤ n) :
    cons (d.getLsbD (n - r))
        (if c then ((d <<< r) ||| ((d >>> (n + 1 - r)) &&& lowMask n (r - 1))) ||| (1#n <<< (r - 1))
          else (d <<< r) ||| ((d >>> (n + 1 - r)) &&& lowMask n (r - 1))) = (cons c d).rotateLeft r := by
  apply eq_of_getLsbD_eq
  intro i lt
  have mod : r % (n + 1) = r := Nat.mod_eq_of_lt (by omega)
  rw [getLsbD_rotateLeft, mod, getLsbD_cons, getLsbD_cons, getLsbD_cons]
  by_cases top : i = n
  · have below : i - r ≠ n := by omega
    simp only [top, Nat.not_lt.mpr le, if_true, decide_false, cond_false]
    rw [if_neg (top ▸ below), decide_eq_true (by omega), Bool.true_and]
  · have inside : i < n := by omega
    rw [if_neg top, getLsbD_withCarry c _ (by omega), getLsbD_or, getLsbD_and, getLsbD_lowMask (by omega), getLsbD_shiftLeft,
      getLsbD_ushiftRight]
    obtain low | rfl | high : i < r - 1 ∨ i = r - 1 ∨ r ≤ i := by omega
    · have wrapped : i < r := by omega
      have carried : r - 1 ≠ i := by omega
      have place : n + 1 - r + i ≠ n := by omega
      simp [inside, low, wrapped, carried, place]
    · have wrapped : r - 1 < r := by omega
      have place : n + 1 - r + (r - 1) = n := by omega
      simp [inside, wrapped, place]
    · have wrapped : ¬ i < r := by omega
      have low : ¬ i < r - 1 := by omega
      have carried : r - 1 ≠ i := by omega
      have place : i - r ≠ n := by omega
      simp [inside, low, wrapped, carried, place, lt]

/-- The piece shifted down, the piece that comes round, and the carry between them. -/
theorem cons_rcr (pos : 0 < r) (le : r ≤ n) :
    cons (d.getLsbD (r - 1))
        (if c then (((d >>> r) &&& lowMask n (n - r)) ||| (d <<< (n + 1 - r))) ||| (1#n <<< (n - r))
          else ((d >>> r) &&& lowMask n (n - r)) ||| (d <<< (n + 1 - r))) = (cons c d).rotateRight r := by
  apply eq_of_getLsbD_eq
  intro i lt
  have mod : r % (n + 1) = r := Nat.mod_eq_of_lt (by omega)
  rw [getLsbD_rotateRight, mod, getLsbD_cons, getLsbD_cons, getLsbD_cons]
  by_cases top : i = n
  · have round : ¬ n < n + 1 - r := by omega
    have place : n - (n + 1 - r) = r - 1 := by omega
    have below : r - 1 ≠ n := by omega
    simp [top, round, place, below]
  · have inside : i < n := by omega
    rw [if_neg top, getLsbD_withCarry c _ (by omega), getLsbD_or, getLsbD_and, getLsbD_lowMask (by omega),
      getLsbD_shiftLeft, getLsbD_ushiftRight]
    obtain low | rfl | high : i < n - r ∨ i = n - r ∨ n - r < i := by omega
    · have kept : i < n + 1 - r := by omega
      have other : n - r ≠ i := by omega
      have place : r + i ≠ n := by omega
      simp [inside, low, kept, other, place]
    · have kept : n - r < n + 1 - r := by omega
      have place : r + (n - r) = n := by omega
      simp [inside, kept, place]
    · have kept : ¬ i < n + 1 - r := by omega
      have low : ¬ i < n - r := by omega
      have other : n - r ≠ i := by omega
      have place : i - (n + 1 - r) ≠ n := by omega
      simp [inside, low, kept, other, place, lt]

end Pieces

/-! ### The primitives -/

section Primitives

variable (w : Width) (emu : X64Emu) (d : BitVec w.bits) (s : BitVec 8)

/-- The carry above a result. -/
def carried {w : Width} (out : BitVec w.bits × X64Emu) : BitVec (w.bits + 1) := cons (deferedFlags out.2).CF out.1

theorem carried_rcl : carried (rcl w emu d s) = (carried (d, emu)).rotateLeft (maskedCount w s).toNat := by
  have flags : (updateFlags emu).eflags = deferedFlags emu := rfl
  rw [← rotateLeft_mod_eq_rotateLeft, rcl, CHECK_FLAGS_eq, flags]
  have le := Nat.mod_lt (maskedCount w s).toNat (Nat.succ_pos w.bits)
  generalize (maskedCount w s).toNat % (w.bits + 1) = r at le ⊢
  dsimp only
  split
  case isFalse zero =>
    rw [not_not.mp zero, rotateLeft_none]
    rfl
  case isTrue nonzero =>
    rw [carried, carried, ← cons_rcl d _ (by omega) (by omega)]
    refine congrArg₂ cons ?_ rfl
    exact (and_one_ne_zero _ w.bits_pos).trans (by rw [getLsbD_ushiftRight, Nat.add_zero])

theorem carried_rcr : carried (rcr w emu d s) = (carried (d, emu)).rotateRight (maskedCount w s).toNat := by
  have flags : (updateFlags emu).eflags = deferedFlags emu := rfl
  rw [← rotateRight_mod_eq_rotateRight, rcr, CHECK_FLAGS_eq, flags]
  have le := Nat.mod_lt (maskedCount w s).toNat (Nat.succ_pos w.bits)
  generalize (maskedCount w s).toNat % (w.bits + 1) = r at le ⊢
  dsimp only
  split
  case isFalse zero =>
    rw [not_not.mp zero, rotateRight_none]
    rfl
  case isTrue nonzero =>
    rw [carried, carried, ← cons_rcr d _ (by omega) (by omega)]
    refine congrArg₂ cons ?_ rfl
    by_cases one : r = 1
    · simp only [one, if_true]
      exact and_one_ne_zero d w.bits_pos
    · simp only [one, if_false]
      exact (and_one_ne_zero _ w.bits_pos).trans (by rw [getLsbD_ushiftRight, Nat.add_zero])

theorem carried_inj {out out' : BitVec w.bits × X64Emu} (same : carried out = carried out') :
    out.1 = out'.1 ∧ (deferedFlags out.2).CF = (deferedFlags out'.2).CF := by
  have bits : ∀ i, (carried out).getLsbD i = (carried out').getLsbD i := fun i => by rw [same]
  simp only [carried, getLsbD_cons] at bits
  constructor
  · apply eq_of_getLsbD_eq
    intro i lt
    simpa [Nat.ne_of_lt lt] using bits i
  · simpa using bits w.bits

/-- `rcl` and `rcr` rotate the carry and the operand together, and `rcr` takes `rcl` back. -/
theorem rotates_through_carry :
    carried (rcl w emu d s) = (carried (d, emu)).rotateLeft (maskedCount w s).toNat ∧
    carried (rcr w emu d s) = (carried (d, emu)).rotateRight (maskedCount w s).toNat ∧
    (rcr w (rcl w emu d s).2 (rcl w emu d s).1 s).1 = d ∧
    (deferedFlags (rcr w (rcl w emu d s).2 (rcl w emu d s).1 s).2).CF = (deferedFlags emu).CF := by
  refine ⟨carried_rcl w emu d s, carried_rcr w emu d s, ?_⟩
  have back : carried (rcr w (rcl w emu d s).2 (rcl w emu d s).1 s) = carried (d, emu) := by
    rw [carried_rcr, carried_rcl, rotateRight_rotateLeft]
  exact carried_inj w back

end Primitives

end Box64.Emu
