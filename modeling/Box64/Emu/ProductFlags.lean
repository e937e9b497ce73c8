import Box64.Emu.FlagLemmas

/-!
# Flags of products

`MUL` and `IMUL` leave the two halves of a product behind; `UpdateFlags` asks whether the high one is needed.
-/

namespace Box64.Emu

open BitVec CarryChain

section Halves

variable {n : Nat} (p : BitVec (n + n))

theorem toNat_lower : (p.setWidth n).toNat = p.toNat % 2 ^ n := toNat_setWidth n p

theorem toNat_upper : (p.extractLsb' n n).toNat = p.toNat / 2 ^ n := by
  have square : 2 ^ (n + n) = 2 ^ n * 2 ^ n := Nat.pow_add 2 n n
  have lt : p.toNat / 2 ^ n < 2 ^ n := Nat.div_lt_of_lt_mul (square ▸ p.isLt)
  rw [extractLsb'_toNat, Nat.shiftRight_eq_div_pow, Nat.mod_eq_of_lt lt]

/-- The high half repeats the sign of the low one exactly if the number fits in it. -/
theorem fits_eq (pos : 0 < n) :
    ((!(p.setWidth n).msb && p.extractLsb' n n == 0) || ((p.setWidth n).msb && p.extractLsb' n n == allOnes n)) =
      !decide (SignedOverflow n p.toInt) := by
  obtain ⟨m, rfl⟩ := Nat.exists_eq_add_one.mpr pos
  have double : 2 ^ (m + 1) = 2 * 2 ^ m := by rw [Nat.pow_succ, Nat.mul_comm]
  have square : 2 ^ (m + 1 + (m + 1)) = 2 ^ (m + 1) * 2 ^ (m + 1) := Nat.pow_add 2 (m + 1) (m + 1)
  have cast : ((2 ^ m : Nat) : Int) = 2 ^ m := by push_cast; rfl
  have half_pos : 0 < 2 ^ m := Nat.two_pow_pos m
  have split := Nat.div_add_mod p.toNat (2 ^ (m + 1))
  have low_lt := Nat.mod_lt p.toNat (Nat.two_pow_pos (m + 1))
  have high_lt : p.toNat / 2 ^ (m + 1) < 2 ^ (m + 1) := Nat.div_lt_of_lt_mul (square ▸ p.isLt)
  have zero : (p.extractLsb' (m + 1) (m + 1) == 0) = decide (p.toNat / 2 ^ (m + 1) = 0) := by
    rw [beq_eq_decide]
    apply decide_eq_decide.mpr
    have null : (0 : BitVec (m + 1)).toNat = 0 := by simp
    rw [← BitVec.toNat_inj, toNat_upper, null]
  have ones : (p.extractLsb' (m + 1) (m + 1) == allOnes (m + 1)) = decide (p.toNat / 2 ^ (m + 1) = 2 ^ (m + 1) - 1) := by
    rw [beq_eq_decide]
    apply decide_eq_decide.mpr
    rw [← BitVec.toNat_inj, toNat_upper, toNat_allOnes]
  rw [zero, ones, msb_eq_decide, toNat_lower]
  simp only [Nat.add_sub_cancel, SignedOverflow, toInt_eq_toNat_cond, square, ← cast]
  rw [double] at split low_lt high_lt ⊢
  generalize p.toNat / (2 * 2 ^ m) = h at *
  generalize p.toNat % (2 * 2 ^ m) = l at *
  rw [← split]
  generalize 2 ^ m = M at *
  have wide : 2 * M * 2 ≤ 2 * M * (2 * M) := Nat.mul_le_mul_left _ (by omega)
  have shape : h = 0 ∨ h = 2 * M - 1 ∨ (1 ≤ h ∧ h ≤ 2 * M - 2) := by omega
  rw [Bool.eq_iff_iff]
  simp only [Bool.or_eq_true, Bool.and_eq_true, Bool.not_eq_true', decide_eq_true_eq, decide_eq_false_iff_not]
  obtain rfl | rfl | ⟨low, high⟩ := shape
  · rw [Nat.mul_zero]
    generalize 2 * M * (2 * M) = S at *
    split <;> omega
  · have top : 2 * M * (2 * M - 1) = 2 * M * (2 * M) - 2 * M := by rw [Nat.mul_sub, Nat.mul_one]
    rw [top]
    generalize 2 * M * (2 * M) = S at *
    split <;> omega
  · have above : 2 * M * 1 ≤ 2 * M * h := Nat.mul_le_mul_left _ low
    have below : 2 * M * h ≤ 2 * M * (2 * M) - 2 * M * 2 := by
      rw [← Nat.mul_sub]
      exact Nat.mul_le_mul_left _ high
    generalize 2 * M * (2 * M) = S at *
    generalize 2 * M * h = T at *
    split <;> omega

end Halves

theorem mulProduct_toNat {n : Nat} (d s : BitVec n) : (mulProduct d s).toNat = d.toNat * s.toNat := by
  have square : 2 ^ (n + n) = 2 ^ n * 2 ^ n := Nat.pow_add 2 n n
  have lt : d.toNat * s.toNat < 2 ^ (n + n) := square ▸ Nat.mul_lt_mul'' d.isLt s.isLt
  rw [mulProduct, BitVec.toNat_mul, toNat_setWidth_of_le (Nat.le_add_left n n), toNat_setWidth_of_le (Nat.le_add_left n n),
    Nat.mod_eq_of_lt lt]

theorem imulProduct_toInt {n : Nat} (pos : 0 < n) (d s : BitVec n) : (imulProduct d s).toInt = d.toInt * s.toInt := by
  obtain ⟨m, rfl⟩ := Nat.exists_eq_add_one.mpr pos
  have size : 2 ^ (m + 1 + (m + 1)) = 4 * (2 ^ m * 2 ^ m) := by
    rw [Nat.pow_add, Nat.pow_succ]
    ring
  have half_pos : 0 < 2 ^ m * 2 ^ m := Nat.mul_pos (Nat.two_pow_pos m) (Nat.two_pow_pos m)
  have abs_le : ∀ x : BitVec (m + 1), x.toInt.natAbs ≤ 2 ^ m := by
    intro x
    have lt := x.isLt
    rw [Nat.pow_succ] at lt
    rw [toInt_eq_toNat_cond, Nat.pow_succ]
    split <;> omega
  have small : (d.toInt * s.toInt).natAbs ≤ 2 ^ m * 2 ^ m := by
    rw [Int.natAbs_mul]
    exact Nat.mul_le_mul (abs_le d) (abs_le s)
  rw [imulProduct, BitVec.toInt_mul, toInt_signExtend_of_le (by omega), toInt_signExtend_of_le (by omega), size]
  generalize d.toInt * s.toInt = v at small
  exact Int.bmod_eq_of_le (by omega) (by omega)

theorem halves_setProduct (w : Width) (emu : X64Emu) (p : BitVec (w.bits + w.bits)) :
    halves (setProduct emu w p) w = (p.setWidth w.bits, p.extractLsb' w.bits w.bits) := by
  have upper : ∀ (n : Nat) (fits : n + n ≤ 64) (cell : BitVec 64) (q : BitVec (n + n)),
      low n (setLow cell q >>> n) = q.extractLsb' n n := by
    intro n fits cell q
    apply eq_of_getLsbD_eq
    intro i lt
    have inside : n + i < n + n := by omega
    have small : n + i < 64 := by omega
    rw [low, getLsbD_setWidth, getLsbD_ushiftRight, getLsbD_setLow fits cell q inside, getLsbD_extractLsb']
  cases w with
  | w8 => exact Prod.ext (low_setLow_of_le (by decide) (by decide) _ _) (upper 8 (by decide) _ p)
  | w16 => exact Prod.ext (low_setLow_of_le (by decide) (by decide) _ _) (upper 16 (by decide) _ p)
  | w32 => exact Prod.ext (low_setLow (by decide) _ _) (low_setLow (by decide) _ _)
  | w64 => rfl

section Flags

variable (w : Width) (emu : X64Emu)

theorem mulFlags_agrees (f : X64Flags) (d s : BitVec w.bits) :
    (eagerMul d s).Agrees (mulFlags (setProduct emu w (mulProduct d s)) f w) := by
  have carry : ((mulProduct d s).extractLsb' w.bits w.bits != 0) = decide (2 ^ w.bits ≤ d.toNat * s.toNat) := by
    have null : (0 : BitVec w.bits).toNat = 0 := by simp
    have pos := Nat.two_pow_pos w.bits
    rw [Bool.eq_iff_iff, bne_iff_ne, decide_eq_true_eq, ne_eq, ← BitVec.toNat_inj, toNat_upper, mulProduct_toNat, null, Nat.div_eq_zero_iff]
    omega
  rw [mulFlags, halves_setProduct]
  exact ⟨carry, trivial, trivial, trivial, trivial, carry⟩

theorem imulFlags_agrees (f : X64Flags) (d s : BitVec w.bits) :
    (eagerImul d s).Agrees (imulFlags (setProduct emu w (imulProduct d s)) f w) := by
  have carry := fits_eq (imulProduct d s) w.bits_pos
  rw [imulProduct_toInt w.bits_pos] at carry
  rw [imulFlags, halves_setProduct]
  have wide := (congrArg (! ·) carry).trans (Bool.not_not _)
  exact ⟨wide, trivial, trivial, trivial, trivial, wide⟩

theorem mul_agrees (s : BitVec w.bits) :
    (eagerMul (low w.bits (emu.regs _RAX)) s).Agrees (deferedFlags (mul w emu s)) := by
  have flags : deferedFlags (mul w emu s) = mulFlags (mul w emu s) emu.eflags w := by cases w <;> rfl
  rw [flags]
  exact mulFlags_agrees w _ emu.eflags _ s

theorem imulAcc_agrees (s : BitVec w.bits) :
    (eagerImul (low w.bits (emu.regs _RAX)) s).Agrees (deferedFlags (imulAcc w emu s)) := by
  have flags : deferedFlags (imulAcc w emu s) = imulFlags (imulAcc w emu s) emu.eflags w := by cases w <;> rfl
  rw [flags]
  exact imulFlags_agrees w _ emu.eflags _ s

theorem imul_agrees (d s : BitVec w.bits) : (eagerImul d s).Agrees (deferedFlags (imul w emu d s).2) := by
  have flags : deferedFlags (imul w emu d s).2 = imulFlags (imul w emu d s).2 emu.eflags w := by cases w <;> rfl
  rw [flags]
  exact imulFlags_agrees w _ emu.eflags d s

end Flags

end Box64.Emu
