import Box64.Emu.FlagLemmas

/-!
# Flags of shifts and rotates

The lazy shifts, whose count may reach or pass the operand width, and the eager double shifts and rotates.
-/

namespace Box64.Emu

open BitVec

/-! ### Counts -/

theorem maskedCount_le (w : Width) (s : BitVec 8) : (maskedCount w s).toNat ≤ w.countMask.toNat := by
  rw [maskedCount, BitVec.toNat_and]
  exact Nat.and_le_right

/-- Only the narrow operands can be shifted out whole. -/
theorem maskedCount_lt_bits (w : Width) (s : BitVec 8) (large : w = .w32 ∨ w = .w64) :
    (maskedCount w s).toNat < w.bits := by
  have le := maskedCount_le w s
  have mask : w.countMask.toNat < w.bits := by obtain rfl | rfl := large <;> decide
  omega

theorem toNat_count (w : Width) (s : BitVec 8) :
    ((maskedCount w s).setWidth w.bits).toNat = (maskedCount w s).toNat := toNat_setWidth_of_le w.le_bits

theorem msb_shiftLeft_pred {n cnt : Nat} (d : BitVec n) (pos : cnt ≠ 0) (le : cnt ≤ n) :
    (d <<< (cnt - 1)).msb = d.getLsbD (n - cnt) := by
  have not_low : ¬ n - 1 < cnt - 1 := by omega
  have top : n - 1 < n := by omega
  rw [msb_eq_getLsbD_last, getLsbD_shiftLeft]
  simp only [not_low, top, decide_false, decide_true, Bool.not_false, Bool.true_and]
  congr 1
  omega

theorem getLsbD_ushiftRight_pred {n cnt : Nat} (d : BitVec n) :
    (d >>> (cnt - 1)).getLsbD 0 = d.getLsbD (cnt - 1) := by
  rw [getLsbD_ushiftRight, Nat.add_zero]

theorem getLsbD_sshiftRight_pred {n cnt : Nat} (d : BitVec n) (pos : 0 < n) :
    (d.sshiftRight (cnt - 1)).getLsbD 0 = if cnt - 1 < n then d.getLsbD (cnt - 1) else d.msb := by
  have not_empty : ¬ n ≤ 0 := by omega
  simp only [getLsbD_sshiftRight, not_empty, decide_false, Bool.not_false, Bool.true_and, Nat.add_zero]

theorem sshiftRight_out {n cnt : Nat} (d : BitVec n) (le : n ≤ cnt) :
    d.sshiftRight cnt = if d.msb then allOnes n else 0#n := by
  ext i lt
  have out : ¬ cnt + i < n := by omega
  rw [getElem_sshiftRight, dif_neg out]
  split <;> simp_all

theorem evenOnes_zero {n : Nat} : evenOnes ((0#n).setWidth 8) = true := by
  rw [setWidth_zero]
  decide

theorem evenOnes_allOnes {n : Nat} (le : 8 ≤ n) : evenOnes ((allOnes n).setWidth 8) = true := by
  have low : (allOnes n).setWidth 8 = allOnes 8 := by
    ext i lt
    have inside : i < n := by omega
    simp only [getElem_setWidth, getLsbD_allOnes, getElem_allOnes, inside, decide_true]
  rw [low]
  decide

/-! ### `SHL`, `SHR` and `SAR` -/

section Lazy

variable (w : Width) (emu : X64Emu) (ref : EagerFlags) (d : BitVec w.bits) (s : BitVec 8)

theorem shl_agrees (nonzero : (maskedCount w s).toNat ≠ 0) :
    (eagerShl ref d (maskedCount w s).toNat).Agrees (deferedFlags (shl w emu d s).2) := by
  have flags : deferedFlags (shl w emu d s).2 = shlFlags (shl w emu d s).2 emu.eflags w := rfl
  have bound := maskedCount_lt_bits w s
  rw [flags, shlFlags]
  simp only [shl, low_setLow w.bits_le, toNat_count]
  generalize (maskedCount w s).toNat = cnt at nonzero bound
  rw [eagerShl, if_neg nonzero]
  by_cases lt : cnt < w.bits
  · have carry := msb_shiftLeft_pred d nonzero (Nat.le_of_lt lt)
    simp only [lt, or_true, if_true, Nat.pos_of_ne_zero nonzero, carry]
    by_cases single : cnt = 1
    · subst single
      have top := msb_eq_getLsbD_last d
      simp only [if_true, top]
      exact ⟨rfl, PARITY_eq _, trivial, rfl, rfl, rfl⟩
    · simp only [single, if_false]
      exact ⟨rfl, PARITY_eq _, trivial, rfl, rfl, trivial⟩
  · have full : w ≠ .w64 := fun full => lt (bound (.inr full))
    have eight := w.le_bits
    have single : cnt ≠ 1 := by omega
    have out : d <<< cnt = 0#w.bits := BitVec.shiftLeft_eq_zero (Nat.le_of_not_lt lt)
    simp only [full, lt, false_or, single, if_false, out]
    exact ⟨trivial, evenOnes_zero.symm, trivial, beq_self_eq_true _ |>.symm, msb_zero.symm, trivial⟩

theorem shr_agrees (nonzero : (maskedCount w s).toNat ≠ 0) :
    (eagerShr ref d (maskedCount w s).toNat).Agrees (deferedFlags (shr w emu d s).2) := by
  have flags : deferedFlags (shr w emu d s).2 = shrFlags (shr w emu d s).2 emu.eflags w := rfl
  have bound := maskedCount_lt_bits w s
  have eight := w.le_bits
  rw [flags, shrFlags]
  simp only [shr, low_setLow w.bits_le, toNat_count]
  generalize (maskedCount w s).toNat = cnt at nonzero bound
  rw [eagerShr, if_neg nonzero]
  by_cases lt : cnt < w.bits
  · simp only [lt, or_true, if_true, Nat.pos_of_ne_zero nonzero, getLsbD_ushiftRight_pred]
    by_cases single : cnt = 1
    · subst single
      -- the bit below the top is the old sign, the top one is empty
      have sign : XOR2 ((d >>> 1) >>> (w.bits - 2)) = d.msb := by
        have below : 1 + (w.bits - 2) = w.bits - 1 := by omega
        have above : ¬ 1 + (w.bits - 1) < w.bits := by omega
        rw [XOR2_top (by omega), msb_eq_getLsbD_last (d >>> 1), getLsbD_ushiftRight, getLsbD_ushiftRight, below,
          getLsbD_of_ge _ _ (Nat.le_of_not_lt above), Bool.xor_false, msb_eq_getLsbD_last]
      simp only [if_true, sign]
      exact ⟨rfl, PARITY_eq _, trivial, rfl, rfl, rfl⟩
    · simp only [single, if_false]
      exact ⟨rfl, PARITY_eq _, trivial, rfl, rfl, trivial⟩
  · have full : w ≠ .w64 := fun full => lt (bound (.inr full))
    have single : cnt ≠ 1 := by omega
    have out : d >>> cnt = 0#w.bits := BitVec.ushiftRight_eq_zero (Nat.le_of_not_lt lt)
    simp only [full, lt, false_or, single, if_false, out]
    exact ⟨trivial, evenOnes_zero.symm, trivial, beq_self_eq_true _ |>.symm, msb_zero.symm, trivial⟩

theorem sar_agrees_iff (nonzero : (maskedCount w s).toNat ≠ 0) :
    (eagerSar ref d (maskedCount w s).toNat).Agrees (deferedFlags (sar w emu d s).2) ↔
      ((maskedCount w s).toNat = 1 → emu.eflags.OF = false) := by
  have flags : deferedFlags (sar w emu d s).2 = sarFlags (sar w emu d s).2 emu.eflags w := rfl
  have bound := maskedCount_lt_bits w s
  have eight := w.le_bits
  rw [flags, sarFlags]
  simp only [sar, low_setLow w.bits_le, toNat_count]
  generalize (maskedCount w s).toNat = cnt at nonzero bound
  rw [eagerSar, if_neg nonzero]
  by_cases lt : cnt < w.bits
  · have carry : (d.sshiftRight (cnt - 1)).getLsbD 0 = d.getLsbD (cnt - 1) := by
      rw [getLsbD_sshiftRight_pred d (by omega), if_pos (by omega)]
    simp only [lt, or_true, if_true, Nat.pos_of_ne_zero nonzero, carry]
    by_cases single : cnt = 1
    · subst single
      simp only [if_true, forall_const]
      constructor
      · exact fun agrees => agrees.OF
      · exact fun clear => ⟨rfl, PARITY_eq _, trivial, rfl, rfl, clear⟩
    · simp only [single, if_false, false_imp_iff, iff_true]
      exact ⟨rfl, PARITY_eq _, trivial, rfl, rfl, trivial⟩
  · have full : w ≠ .w64 := fun full => lt (bound (.inr full))
    have single : cnt ≠ 1 := by omega
    have out := sshiftRight_out d (Nat.le_of_not_lt lt)
    -- only the sign is left
    have carry : (d.sshiftRight (cnt - 1)).getLsbD 0 = d.msb := by
      rw [getLsbD_sshiftRight_pred d (by omega)]
      split
      case isTrue inside =>
        have last : cnt - 1 = w.bits - 1 := by omega
        rw [last, msb_eq_getLsbD_last]
      case isFalse => rfl
    simp only [full, lt, false_or, single, if_false, false_imp_iff, iff_true, carry, out]
    cases sign : d.msb with
    | true =>
      have some_bits : (allOnes w.bits == 0) = false := by
        rw [beq_eq_false_iff_ne]
        intro zero
        have bit := congrArg (·.getLsbD 0) zero
        simp at bit
        omega
      have top : (allOnes w.bits).msb = true := by
        rw [msb_allOnes (by omega)]
      exact ⟨rfl, (evenOnes_allOnes eight).symm, trivial, some_bits.symm, top.symm, trivial⟩
    | false => exact ⟨rfl, evenOnes_zero.symm, trivial, (beq_self_eq_true _).symm, msb_zero.symm, trivial⟩

/-- A count of 0 replaces the pending operation: of the flags, those stored are left, without `OF` after `SHL`. -/
theorem shl_zero (zero : (maskedCount w s).toNat = 0) :
    deferedFlags (shl w emu d s).2 = { emu.eflags with OF := false } := by
  have flags : deferedFlags (shl w emu d s).2 = shlFlags (shl w emu d s).2 emu.eflags w := rfl
  have inside : w = .w64 ∨ 0 < w.bits := .inr w.bits_pos
  rw [flags, shlFlags]
  simp only [shl, low_setLow w.bits_le, toNat_count, zero]
  rw [if_pos inside]
  rfl

theorem shr_zero (zero : (maskedCount w s).toNat = 0) : deferedFlags (shr w emu d s).2 = emu.eflags := by
  have flags : deferedFlags (shr w emu d s).2 = shrFlags (shr w emu d s).2 emu.eflags w := rfl
  have inside : w = .w64 ∨ 0 < w.bits := .inr w.bits_pos
  rw [flags, shrFlags]
  simp only [shr, low_setLow w.bits_le, toNat_count, zero]
  rw [if_pos inside]
  rfl

theorem sar_zero (zero : (maskedCount w s).toNat = 0) : deferedFlags (sar w emu d s).2 = emu.eflags := by
  have flags : deferedFlags (sar w emu d s).2 = sarFlags (sar w emu d s).2 emu.eflags w := rfl
  have inside : w = .w64 ∨ 0 < w.bits := .inr w.bits_pos
  rw [flags, sarFlags]
  simp only [sar, low_setLow w.bits_le, toNat_count, zero]
  rw [if_pos inside]
  rfl

end Lazy

/-! ### `SHLD` and `SHRD` -/

section Double

variable {n cnt : Nat} (d fill : BitVec n)

theorem shld_result (lt : cnt < n) :
    ((d ++ fill) <<< cnt).extractLsb' n n = d <<< cnt ||| fill >>> (n - cnt) := by
  apply eq_of_getLsbD_eq
  intro i inside
  have room : n + i < n + n := by omega
  have above : ¬ n + i < cnt := by omega
  rw [getLsbD_extractLsb', getLsbD_shiftLeft, getLsbD_append, getLsbD_or, getLsbD_shiftLeft, getLsbD_ushiftRight]
  simp only [inside, room, above, decide_true, decide_false, Bool.true_and, Bool.not_false]
  by_cases low : i < cnt
  · have filled : n + i - cnt < n := by omega
    have shift : n - cnt + i = n + i - cnt := by omega
    simp only [low, filled, shift, decide_true, Bool.not_true, Bool.false_and, Bool.false_or, if_true]
  · have kept : ¬ n + i - cnt < n := by omega
    have shift : n + i - cnt - n = i - cnt := by omega
    have past : n ≤ n - cnt + i := by omega
    simp only [low, kept, shift, decide_false, Bool.not_false, Bool.true_and, if_false,
      getLsbD_of_ge fill _ past, Bool.or_false]

theorem shld_result_full : ((d ++ fill) <<< n).extractLsb' n n = fill := by
  apply eq_of_getLsbD_eq
  intro i inside
  have room : n + i < n + n := by omega
  have above : ¬ n + i < n := by omega
  rw [getLsbD_extractLsb', getLsbD_shiftLeft, getLsbD_append]
  simp only [inside, room, above, Nat.add_sub_cancel_left, decide_true, decide_false, Bool.true_and, Bool.not_false,
    if_true]

theorem shrd_result (lt : cnt < n) :
    ((fill ++ d) >>> cnt).setWidth n = d >>> cnt ||| fill <<< (n - cnt) := by
  apply eq_of_getLsbD_eq
  intro i inside
  rw [getLsbD_setWidth, getLsbD_ushiftRight, getLsbD_append, getLsbD_or, getLsbD_shiftLeft, getLsbD_ushiftRight]
  simp only [inside, decide_true, Bool.true_and]
  by_cases low : cnt + i < n
  · have below : i < n - cnt := by omega
    simp only [low, below, decide_true, Bool.not_true, Bool.false_and, Bool.or_false, if_true]
  · have above : ¬ i < n - cnt := by omega
    have shift : cnt + i - n = i - (n - cnt) := by omega
    simp only [low, above, shift, decide_false, Bool.not_false, Bool.true_and, if_false,
      getLsbD_of_ge d _ (Nat.le_of_not_lt low), Bool.false_or]

theorem shrd_result_full : ((fill ++ d) >>> n).setWidth n = fill := by
  apply eq_of_getLsbD_eq
  intro i inside
  have above : ¬ n + i < n := by omega
  rw [getLsbD_setWidth, getLsbD_ushiftRight, getLsbD_append]
  simp only [inside, above, Nat.add_sub_cancel_left, decide_true, Bool.true_and, if_false]

end Double

section DoubleFlags

variable (w : Width) (emu : X64Emu) (ref : EagerFlags) (d fill : BitVec w.bits) (s : BitVec 8)

theorem shld_zero (zero : (maskedCount w s).toNat = 0) :
    deferedFlags (shld w emu d fill s).2 = { emu.eflags with OF := false } := by
  simp only [shld, zero, Nat.zero_mod, if_pos w.bits_pos]
  rfl

theorem shrd_zero (zero : (maskedCount w s).toNat = 0) :
    deferedFlags (shrd w emu d fill s).2 = { emu.eflags with OF := false } := by
  simp only [shrd, zero, Nat.zero_mod, if_pos w.bits_pos]
  rfl

theorem shld_agrees (nonzero : (maskedCount w s).toNat ≠ 0) :
    (eagerShld ref d fill (maskedCount w s).toNat).Agrees (deferedFlags (shld w emu d fill s).2) := by
  have eight := w.le_bits
  rw [shld, eagerShld, if_neg nonzero]
  generalize (maskedCount w s).toNat = cnt at nonzero
  by_cases lt : cnt < w.bits
  · have carry := msb_shiftLeft_pred d nonzero (Nat.le_of_lt lt)
    have le : ¬ w.bits < cnt := by omega
    simp only [lt, le, if_true, if_false, Nat.mod_eq_of_lt lt, Nat.pos_of_ne_zero nonzero, shld_result d fill lt, carry]
    by_cases single : cnt = 1
    · subst single
      have top := msb_eq_getLsbD_last d
      simp only [if_true, top]
      exact ⟨rfl, PARITY_eq _, trivial, rfl, rfl, rfl⟩
    · simp only [single, if_false]
      exact ⟨rfl, PARITY_eq _, trivial, rfl, rfl, trivial⟩
  · by_cases past : w.bits < cnt
    · rw [if_pos past]
      exact ⟨trivial, trivial, trivial, trivial, trivial, trivial⟩
    · obtain rfl : cnt = w.bits := by omega
      have single : w.bits ≠ 1 := by omega
      have carry := msb_shiftLeft_pred d nonzero (Nat.le_refl _)
      have res : fill <<< 0 ||| d >>> w.bits = fill := by
        rw [shiftLeft_zero, ushiftRight_eq_zero (Nat.le_refl _), BitVec.or_zero]
      simp only [lt, single, if_true, if_false, Nat.mod_self, Nat.sub_zero, Nat.sub_self, shld_result_full, carry, res]
      exact ⟨rfl, PARITY_eq _, trivial, rfl, rfl, trivial⟩

/-- A 16-bit `SHRD` by 16 loses the carry. -/
theorem shrd_agrees_iff (nonzero : (maskedCount w s).toNat ≠ 0) :
    (eagerShrd ref d fill (maskedCount w s).toNat).Agrees (deferedFlags (shrd w emu d fill s).2) ↔
      ((maskedCount w s).toNat = w.bits → d.msb = false) := by
  have eight := w.le_bits
  rw [shrd, eagerShrd, if_neg nonzero]
  generalize (maskedCount w s).toNat = cnt at nonzero
  by_cases lt : cnt < w.bits
  · have le : ¬ w.bits < cnt := by omega
    have other : cnt ≠ w.bits := by omega
    simp only [lt, le, other, if_true, if_false, Nat.mod_eq_of_lt lt, Nat.pos_of_ne_zero nonzero,
      shrd_result d fill lt, getLsbD_ushiftRight_pred, false_imp_iff, iff_true]
    by_cases single : cnt = 1
    · subst single
      -- the bit below the top is the old sign
      have sign : (d >>> 1 ||| fill <<< (w.bits - 1)).getLsbD (w.bits - 2) = d.msb := by
        have below : 1 + (w.bits - 2) = w.bits - 1 := by omega
        have kept : w.bits - 2 < w.bits - 1 := by omega
        rw [getLsbD_or, getLsbD_ushiftRight, getLsbD_shiftLeft, below, msb_eq_getLsbD_last]
        simp only [kept, decide_true, Bool.not_true, Bool.and_false, Bool.false_and, Bool.or_false]
      simp only [if_true, XOR2_top (by omega : 2 ≤ w.bits), sign, Bool.xor_comm d.msb]
      exact ⟨rfl, PARITY_eq _, trivial, rfl, rfl, rfl⟩
    · simp only [single, if_false]
      exact ⟨rfl, PARITY_eq _, trivial, rfl, rfl, trivial⟩
  · by_cases past : w.bits < cnt
    · have other : cnt ≠ w.bits := by omega
      rw [if_pos past]
      simp only [other, false_imp_iff, iff_true]
      exact ⟨trivial, trivial, trivial, trivial, trivial, trivial⟩
    · obtain rfl : cnt = w.bits := by omega
      have single : w.bits ≠ 1 := by omega
      have res : fill >>> 0 ||| d <<< w.bits = fill := by
        rw [ushiftRight_zero, shiftLeft_eq_zero (Nat.le_refl _), BitVec.or_zero]
      simp only [lt, single, if_true, if_false, Nat.mod_self, Nat.sub_zero, shrd_result_full,
        getLsbD_ushiftRight_pred, res, forall_const, ← msb_eq_getLsbD_last]
      constructor
      · exact fun agrees => agrees.CF.symm
      · exact fun clear => ⟨clear.symm, PARITY_eq _, trivial, rfl, rfl, trivial⟩

end DoubleFlags

/-! ### Rotates -/

theorem getLsbD_lowMask {n k i : Nat} (lt : k < n) : (lowMask n k).getLsbD i = decide (i < k) := by
  rw [getLsbD, toNat_lowMask lt, Nat.testBit_two_pow_sub_one]

section Rotate

variable {n : Nat} (d : BitVec n)

theorem rol_result (s : Nat) (pos : 0 < n) :
    (if s % n ≠ 0 then (d <<< (s % n)) + ((d >>> (n - s % n)) &&& lowMask n (s % n)) else d) = d.rotateLeft s := by
  have lt := Nat.mod_lt s pos
  rw [rotateLeft_def]
  generalize s % n = cnt at lt
  split
  case isTrue =>
    have masked : (d >>> (n - cnt)) &&& lowMask n cnt = d >>> (n - cnt) := by
      apply eq_of_getLsbD_eq
      intro i _
      rw [getLsbD_and, getLsbD_lowMask lt, getLsbD_ushiftRight]
      by_cases low : i < cnt
      · simp only [low, decide_true, Bool.and_true]
      · simp only [low, decide_false, Bool.and_false, getLsbD_of_ge d (n - cnt + i) (by omega)]
    rw [masked]
    apply add_eq_or_of_and_eq_zero
    apply eq_of_getLsbD_eq
    intro i _
    rw [getLsbD_and, getLsbD_shiftLeft, getLsbD_ushiftRight, getLsbD_zero]
    by_cases low : i < cnt
    · simp only [low, decide_true, Bool.not_true, Bool.and_false, Bool.false_and]
    · simp only [getLsbD_of_ge d (n - cnt + i) (by omega), Bool.and_false]
  case isFalse zero =>
    obtain rfl := not_not.mp zero
    rw [Nat.sub_zero, ushiftRight_eq_zero (Nat.le_refl _), shiftLeft_zero, BitVec.or_zero]

theorem ror_result (s : Nat) (pos : 0 < n) :
    (if s % n ≠ 0 then (d <<< (n - s % n)) + ((d >>> (s % n)) &&& lowMask n (n - s % n)) else d) = d.rotateRight s := by
  have lt := Nat.mod_lt s pos
  rw [rotateRight_def]
  generalize s % n = cnt at lt
  split
  case isTrue nonzero =>
    have masked : (d >>> cnt) &&& lowMask n (n - cnt) = d >>> cnt := by
      apply eq_of_getLsbD_eq
      intro i _
      rw [getLsbD_and, getLsbD_lowMask (by omega), getLsbD_ushiftRight]
      by_cases low : i < n - cnt
      · simp only [low, decide_true, Bool.and_true]
      · simp only [low, decide_false, Bool.and_false, getLsbD_of_ge d (cnt + i) (by omega)]
    rw [masked, BitVec.or_comm]
    apply add_eq_or_of_and_eq_zero
    apply eq_of_getLsbD_eq
    intro i _
    rw [getLsbD_and, getLsbD_shiftLeft, getLsbD_ushiftRight, getLsbD_zero]
    by_cases low : i < n - cnt
    · simp only [low, decide_true, Bool.not_true, Bool.and_false, Bool.false_and]
    · simp only [getLsbD_of_ge d (cnt + i) (by omega), Bool.and_false]
  case isFalse zero =>
    obtain rfl := not_not.mp zero
    rw [Nat.sub_zero, shiftLeft_eq_zero (Nat.le_refl _), ushiftRight_zero, BitVec.or_zero]

theorem and_one_eq : d &&& 1#n = if d.getLsbD 0 then 1#n else 0#n := by
  have one : 1#n = twoPow n 0 := by rw [twoPow, shiftLeft_zero]
  rw [one, and_twoPow]

theorem two_eq_twoPow (n : Nat) : 2#n = twoPow n 1 := by
  apply eq_of_toNat_eq
  rw [toNat_twoPow, toNat_ofNat]

theorem and_one_ne_zero (pos : 0 < n) : ((d &&& 1#n) != 0) = d.getLsbD 0 := by
  have one_ne : 1#n ≠ 0#n := by
    intro zero
    have bit := congrArg (·.getLsbD 0) zero
    simp [pos] at bit
  rw [and_one_eq]
  cases d.getLsbD 0
  · simp
  · simpa using one_ne

/-- The carry and the top bit side by side. -/
theorem XOR2_pair (wide : 2 ≤ n) (a b : BitVec n) :
    XOR2 ((a &&& 1#n) + (b &&& 2#n)) = (a.getLsbD 0 ^^ b.getLsbD 1) := by
  have sum : (a &&& 1#n) + (b &&& 2#n) = (a &&& 1#n) ||| (b &&& 2#n) := by
    apply add_eq_or_of_and_eq_zero
    apply eq_of_getLsbD_eq
    intro i _
    rw [two_eq_twoPow, getLsbD_and, getLsbD_and, getLsbD_and, getLsbD_one, getLsbD_twoPow, getLsbD_zero]
    by_cases zero : i = 0 <;> simp [zero]
  have pos : 0 < n := by omega
  have one_lt : 1 < n := by omega
  rw [sum, XOR2, two_eq_twoPow]
  simp [pos, one_lt]

/-- After `RCL` by 1 the top bit is the one that was below it; the carry comes in at the bottom. -/
theorem rcl_top (wide : 3 ≤ n) (c : Bool) {i : Nat} (top : i = n - 1) :
    (if c then (d <<< 1 ||| ((d >>> (n + 1 - 1)) &&& lowMask n (1 - 1))) ||| (1#n <<< (1 - 1))
      else d <<< 1 ||| ((d >>> (n + 1 - 1)) &&& lowMask n (1 - 1))).getLsbD i =
    ((cons c d).rotateLeft 1).getLsbD (n - 1) := by
  subst top
  have one : 1 % (n + 1) = 1 := Nat.mod_eq_of_lt (by omega)
  have not_low : ¬ n - 1 < 1 := by omega
  have inside : n - 1 < n + 1 := by omega
  have below : ¬ n - 1 - 1 = n := by omega
  have last : n - 1 < n := by omega
  have not_first : ¬ n - 1 = 0 := by omega
  have out : d >>> (n + 1 - 1) = 0#n := ushiftRight_eq_zero (Nat.le_refl n)
  rw [getLsbD_rotateLeft, one]
  simp only [getLsbD_cons, below, if_false, not_low, inside, decide_false, decide_true, cond_false, Bool.true_and, out, BitVec.zero_and, BitVec.or_zero,
    Nat.sub_self, shiftLeft_zero]
  cases c with
  | false => simp only [Bool.false_eq_true, if_false, getLsbD_shiftLeft, last, not_low, decide_true, decide_false,
      Bool.not_false, Bool.true_and]
  | true => simp only [if_true, getLsbD_or, getLsbD_shiftLeft, getLsbD_one, last, not_low, not_first, decide_true,
      decide_false, Bool.not_false, Bool.true_and, Bool.and_false, Bool.or_false]

end Rotate

section RotateFlags

variable (w : Width) (emu : X64Emu) (ref : EagerFlags) (d : BitVec w.bits) (s : BitVec 8)

/-- The flags a rotate does not write are those before it. -/
theorem agrees_rotate {ref : EagerFlags} {f : X64Flags} {cf off : Option Bool} {c o : Bool} (agrees : ref.Agrees f)
    (carry : Allows cf c) (overflow : Allows off o) :
    ({ ref with CF := cf, OF := off } : EagerFlags).Agrees { f with CF := c, OF := o } :=
  ⟨carry, agrees.PF, agrees.AF, agrees.ZF, agrees.SF, overflow⟩

variable (agrees : ref.Agrees (deferedFlags emu))

include agrees

theorem rol_agrees : (eagerRol ref d (maskedCount w s).toNat).Agrees (deferedFlags (rol w emu d s).2) := by
  have eight := w.le_bits
  rw [rol, eagerRol, CHECK_FLAGS_eq]
  generalize (maskedCount w s).toNat = cnt
  by_cases zero : cnt = 0
  · rw [if_pos zero, if_pos zero]
    exact agrees
  · rw [if_neg zero, if_neg zero]
    simp only [rol_result d cnt w.bits_pos]
    generalize d.rotateLeft cnt = res
    have sum : (res + res >>> (w.bits - 1)).getLsbD 0 = (res.msb ^^ res.getLsbD 0) := by
      rw [getLsbD_add w.bits_pos, carry_zero, Bool.xor_false, getLsbD_ushiftRight, Nat.add_zero, Bool.xor_comm,
        msb_eq_getLsbD_last]
    by_cases single : cnt = 1
    · simp only [single, if_true, sum]
      exact agrees_rotate agrees rfl rfl
    · simp only [single, if_false]
      exact agrees_rotate agrees rfl trivial

theorem ror_agrees : (eagerRor ref d (maskedCount w s).toNat).Agrees (deferedFlags (ror w emu d s).2) := by
  have eight := w.le_bits
  rw [ror, eagerRor, CHECK_FLAGS_eq]
  generalize (maskedCount w s).toNat = cnt
  by_cases zero : cnt = 0
  · rw [if_pos zero, if_pos zero]
    exact agrees
  · rw [if_neg zero, if_neg zero]
    simp only [ror_result d cnt w.bits_pos]
    generalize d.rotateRight cnt = res
    by_cases single : cnt = 1
    · simp only [single, if_true, XOR2_top (by omega : 2 ≤ w.bits), Bool.xor_comm (res.getLsbD _)]
      exact agrees_rotate agrees rfl rfl
    · simp only [single, if_false]
      exact agrees_rotate agrees rfl trivial

theorem rcl_agrees : (eagerRcl ref d (maskedCount w s).toNat).Agrees (deferedFlags (rcl w emu d s).2) := by
  have eight := w.le_bits
  have flags : (updateFlags emu).eflags = deferedFlags emu := rfl
  rw [rcl, eagerRcl, CHECK_FLAGS_eq, flags]
  generalize (maskedCount w s).toNat = cnt
  by_cases zero : cnt = 0
  · subst zero
    simp only [Nat.zero_mod]
    exact agrees
  rw [if_neg zero]
  refine agrees_withCarry agrees.CF ?_
  simp only [msb_rotateLeft]
  by_cases whole : cnt % (w.bits + 1) = 0
  · -- the carry comes back to its place
    have multiple : cnt ≠ 1 := by
      rintro rfl
      rw [Nat.mod_eq_of_lt (by omega)] at whole
      cases whole
    have back : (cons (deferedFlags emu).CF d).getMsbD 0 = (deferedFlags emu).CF := msb_cons
    simp only [whole, multiple, if_false, back]
    exact agrees_rotate agrees rfl trivial
  · have lt := Nat.mod_lt cnt (Nat.succ_pos w.bits)
    have carry : (cons (deferedFlags emu).CF d).getMsbD (cnt % (w.bits + 1)) =
        d.getLsbD (w.bits - cnt % (w.bits + 1)) := by
      have other : w.bits + 1 - 1 - cnt % (w.bits + 1) ≠ w.bits := by omega
      rw [getMsbD_eq_getLsbD, getLsbD_cons, if_neg other]
      simp only [lt, decide_true, Bool.true_and, Nat.add_sub_cancel]
    have out : ((d >>> (w.bits - cnt % (w.bits + 1)) &&& 1#w.bits) != 0) = d.getLsbD (w.bits - cnt % (w.bits + 1)) := by
      rw [and_one_ne_zero _ w.bits_pos, getLsbD_ushiftRight, Nat.add_zero]
    rw [carry, if_pos whole]
    by_cases single : cnt = 1
    · subst single
      have one : 1 % (w.bits + 1) = 1 := Nat.mod_eq_of_lt (by omega)
      simp only [one, if_true] at out ⊢
      refine agrees_rotate agrees out ?_
      rw [XOR2_pair (by omega), getLsbD_ushiftRight, getLsbD_ushiftRight,
        rcl_top d (by omega) (deferedFlags emu).CF (by omega : w.bits - 2 + 1 = w.bits - 1)]
      rfl
    · simp only [single, if_false]
      exact agrees_rotate agrees out trivial

theorem rcr_agrees : (eagerRcr ref d (maskedCount w s).toNat).Agrees (deferedFlags (rcr w emu d s).2) := by
  have eight := w.le_bits
  have flags : (updateFlags emu).eflags = deferedFlags emu := rfl
  rw [rcr, eagerRcr, CHECK_FLAGS_eq, flags]
  generalize (maskedCount w s).toNat = cnt
  by_cases zero : cnt = 0
  · subst zero
    simp only [Nat.zero_mod]
    exact agrees
  rw [if_neg zero]
  refine agrees_withCarry agrees.CF ?_
  simp only [msb_rotateRight]
  by_cases whole : cnt % (w.bits + 1) = 0
  · -- the carry comes back to its place
    have multiple : cnt ≠ 1 := by
      rintro rfl
      rw [Nat.mod_eq_of_lt (by omega)] at whole
      cases whole
    have back : (cons (deferedFlags emu).CF d).getMsbD 0 = (deferedFlags emu).CF := msb_cons
    simp only [whole, multiple, if_false, Nat.sub_zero, Nat.mod_self, back]
    exact agrees_rotate agrees rfl trivial
  · have lt := Nat.mod_lt cnt (Nat.succ_pos w.bits)
    have carry : (cons (deferedFlags emu).CF d).getMsbD ((w.bits + 1 - cnt % (w.bits + 1)) % (w.bits + 1)) =
        d.getLsbD (cnt % (w.bits + 1) - 1) := by
      generalize cnt % (w.bits + 1) = r at *
      have small : w.bits + 1 - r < w.bits + 1 := by omega
      have other : w.bits + 1 - 1 - (w.bits + 1 - r) ≠ w.bits := by omega
      have index : w.bits + 1 - 1 - (w.bits + 1 - r) = r - 1 := by omega
      rw [Nat.mod_eq_of_lt small, getMsbD_eq_getLsbD, getLsbD_cons, if_neg other, index]
      simp only [small, decide_true, Bool.true_and]
    have out : ((if cnt % (w.bits + 1) = 1 then d &&& 1#w.bits
        else d >>> (cnt % (w.bits + 1) - 1) &&& 1#w.bits) != 0) = d.getLsbD (cnt % (w.bits + 1) - 1) := by
      split
      case isTrue one => rw [and_one_ne_zero _ w.bits_pos, one]
      case isFalse => rw [and_one_ne_zero _ w.bits_pos, getLsbD_ushiftRight, Nat.add_zero]
    rw [carry, if_pos whole]
    by_cases single : cnt = 1
    · subst single
      have one : 1 % (w.bits + 1) = 1 := Nat.mod_eq_of_lt (by omega)
      have sign : XOR2 ((ofBool (deferedFlags emu).CF).setWidth w.bits + (d >>> (w.bits - 2) &&& 2#w.bits)) =
          (d.msb ^^ (deferedFlags emu).CF) := by
        have mask : (ofBool (deferedFlags emu).CF).setWidth w.bits =
            (ofBool (deferedFlags emu).CF).setWidth w.bits &&& 1#w.bits := by
          cases (deferedFlags emu).CF
          · rw [CarryChain.setWidth_ofBool_false, BitVec.zero_and]
          · rw [CarryChain.setWidth_ofBool_true, BitVec.and_self]
        have bit : ((ofBool (deferedFlags emu).CF).setWidth w.bits).getLsbD 0 = (deferedFlags emu).CF := by
          have pos : 0 < w.bits := by omega
          rw [getLsbD_setWidth]
          simp [pos]
        have top : w.bits - 2 + 1 = w.bits - 1 := by omega
        rw [mask, XOR2_pair (by omega), bit, getLsbD_ushiftRight, top, msb_eq_getLsbD_last, Bool.xor_comm]
      simp only [one, if_true] at out ⊢
      exact agrees_rotate agrees out sign
    · simp only [single, if_false]
      by_cases one : cnt % (w.bits + 1) = 1
      · simp only [one, if_true] at out ⊢
        exact agrees_rotate agrees out trivial
      · simp only [one, if_false] at out ⊢
        exact agrees_rotate agrees out trivial

end RotateFlags

end Box64.Emu
