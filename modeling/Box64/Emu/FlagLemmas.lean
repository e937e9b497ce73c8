import Box64.Emu.Primop
import Box64.Emu.EagerFlags

/-!
# Flags of the primitives

What the bit tests of `UpdateFlags` and of the eager primitives say about the operands.
-/

namespace Box64.Emu

open BitVec CarryChain

/-! ### Results and chains -/

theorem PARITY_eq (x : BitVec 8) : PARITY x = evenOnes x := by
  revert x
  decide +kernel

theorem XOR2_top {n : Nat} (wide : 2 ≤ n) (x : BitVec n) : XOR2 (x >>> (n - 2)) = (x.getLsbD (n - 2) ^^ x.msb) := by
  rw [XOR2, getLsbD_xor, getLsbD_ushiftRight, getLsbD_ushiftRight, getLsbD_ushiftRight, msb_eq_getLsbD_last]
  congr 2
  omega

section Chains

variable {n : Nat} (wide : 8 ≤ n) (d s : BitVec n) (c : Bool)

theorem borrowChain_getLsbD {i : Nat} (lt : i < n) : (borrowChain d s (subb d s c)).getLsbD i =
    decide (d.toNat % 2 ^ (i + 1) < s.toNat % 2 ^ (i + 1) + c.toNat) := by
  rw [show borrowChain d s (subb d s c) = borrows d s (subb d s c) from rfl, getLsbD_borrows d s c lt,
    not_carry_eq d s c (by omega)]

include wide

theorem carryChain_OF : XOR2 (carryChain d s (addc d s c) >>> (n - 2)) =
    decide (SignedOverflow n (d.toInt + s.toInt + c.toNat)) := by
  have below : (carries d s (addc d s c)).getLsbD (n - 2) = carry (n - 1) d s c := by
    rw [getLsbD_carries d s c (by omega), show n - 2 + 1 = n - 1 by omega]
  have top : (carries d s (addc d s c)).msb = carry n d s c := by
    rw [msb_eq_getLsbD_last, getLsbD_carries d s c (by omega), show n - 1 + 1 = n by omega]
  rw [XOR2_top (by omega), ← carry_xor_carry (by omega)]
  exact congrArg₂ _ below top

theorem carryChain_AF : (carryChain d s (addc d s c)).getLsbD 3 =
    decide (16 ≤ d.toNat % 16 + s.toNat % 16 + c.toNat) := by
  rw [show carryChain d s (addc d s c) = carries d s (addc d s c) from rfl, getLsbD_carries d s c (by omega)]
  exact carry_eq d s c 4

theorem borrowChain_CF : (borrowChain d s (subb d s c)).msb = decide (d.toNat < s.toNat + c.toNat) := by
  rw [msb_eq_getLsbD_last, borrowChain_getLsbD d s c (by omega), show n - 1 + 1 = n by omega,
    Nat.mod_eq_of_lt d.isLt, Nat.mod_eq_of_lt s.isLt]

theorem borrowChain_AF : (borrowChain d s (subb d s c)).getLsbD 3 =
    decide (d.toNat % 16 < s.toNat % 16 + c.toNat) :=
  borrowChain_getLsbD d s c (by omega)

theorem borrowChain_OF : XOR2 (borrowChain d s (subb d s c) >>> (n - 2)) =
    decide (SignedOverflow n (d.toInt - s.toInt - c.toNat)) := by
  have below : (borrows d s (subb d s c)).getLsbD (n - 2) = !carry (n - 1) d (~~~s) (!c) := by
    rw [getLsbD_borrows d s c (by omega), show n - 2 + 1 = n - 1 by omega]
  have top : (borrows d s (subb d s c)).msb = !carry n d (~~~s) (!c) := by
    rw [msb_eq_getLsbD_last, getLsbD_borrows d s c (by omega), show n - 1 + 1 = n by omega]
  rw [XOR2_top (by omega), ← borrow_xor_borrow (by omega)]
  exact congrArg₂ _ below top

end Chains

/-! ### Carries read above the operand -/

theorem testBit_carry {n t : Nat} (lt : t < 2 ^ (n + 1)) : t.testBit n = decide (2 ^ n ≤ t) := by
  have quot : t / 2 ^ n < 2 := Nat.div_lt_of_lt_mul lt
  have pos : 0 < 2 ^ n := Nat.two_pow_pos n
  have reach : 2 ^ n ≤ t ↔ 1 ≤ t / 2 ^ n := by rw [Nat.le_div_iff_mul_le pos, Nat.one_mul]
  rw [Nat.testBit_eq_decide_div_mod_eq]
  apply decide_eq_decide.mpr
  rw [reach]
  generalize t / 2 ^ n = q at quot
  omega

theorem sumCarry {n m : Nat} (lt : n < m) (d s : BitVec n) (c : Bool) :
    (setWidth m (ofBool c) + d.setWidth m + s.setWidth m).getLsbD n =
      decide (2 ^ n ≤ d.toNat + s.toNat + c.toNat) := by
  have room : 2 ^ (n + 1) ≤ 2 ^ m := Nat.pow_le_pow_right (by omega) (by omega)
  have double : 2 ^ (n + 1) = 2 * 2 ^ n := by rw [Nat.pow_succ, Nat.mul_comm]
  have hd := d.isLt
  have hs := s.isLt
  have hc := Bool.toNat_le c
  have value : (setWidth m (ofBool c) + d.setWidth m + s.setWidth m).toNat = d.toNat + s.toNat + c.toNat := by
    have hc' : (ofBool c).toNat = c.toNat := by cases c <;> rfl
    rw [BitVec.toNat_add, BitVec.toNat_add, toNat_setWidth, toNat_setWidth, toNat_setWidth, hc',
      Nat.mod_eq_of_lt (a := c.toNat) (by omega), Nat.mod_eq_of_lt (a := d.toNat) (by omega),
      Nat.mod_eq_of_lt (a := s.toNat) (by omega), Nat.mod_eq_of_lt (a := c.toNat + d.toNat) (by omega),
      Nat.mod_eq_of_lt (by omega)]
    omega
  rw [getLsbD, value]
  exact testBit_carry (by omega)

theorem toNat_lowMask {n k : Nat} (lt : k < n) : (lowMask n k).toNat = 2 ^ k - 1 := by
  have one_le : 1 ≤ 2 ^ k := Nat.one_le_two_pow
  have grows : 2 ^ k < 2 ^ n := Nat.pow_lt_pow_right (by omega) lt
  have one : (1#n).toNat = 1 := by rw [toNat_ofNat, Nat.mod_eq_of_lt (by omega)]
  have shifted : (1#n <<< k).toNat = 2 ^ k := by
    rw [toNat_shiftLeft, one, Nat.one_shiftLeft, Nat.mod_eq_of_lt grows]
  rw [lowMask, BitVec.toNat_sub_of_le (by rw [BitVec.le_def, one, shifted]; exact one_le), one, shifted]

theorem toNat_and_lowMask {n k : Nat} (lt : k < n) (x : BitVec n) :
    (x &&& lowMask n k).toNat = x.toNat % 2 ^ k := by
  rw [BitVec.toNat_and, toNat_lowMask lt, Nat.and_two_pow_sub_one_eq_mod]

/-- The carry of a sum taken in two halves. -/
theorem hiSum_carry {k : Nat} (pos : 0 < k) (x y : BitVec (k + k)) (c : Bool) :
    (hiSum k (loSum k c x y) x y).getLsbD k = decide (2 ^ (k + k) ≤ x.toNat + y.toNat + c.toNat) := by
  have hx := x.isLt
  have hy := y.isLt
  have hc := Bool.toNat_le c
  have P_pos : 0 < 2 ^ k := Nat.two_pow_pos k
  have square : 2 ^ (k + k) = 2 ^ k * 2 ^ k := Nat.pow_add 2 k k
  have P_le : 2 * 2 ^ k ≤ 2 ^ k * 2 ^ k := by
    apply Nat.mul_le_mul_right
    exact Nat.le_self_pow (by omega) 2
  have xl := Nat.mod_lt x.toNat P_pos
  have yl := Nat.mod_lt y.toNat P_pos
  have lo : (loSum k c x y).toNat = x.toNat % 2 ^ k + y.toNat % 2 ^ k + c.toNat := by
    have hc' : (ofBool c).toNat = c.toNat := by cases c <;> rfl
    rw [loSum, BitVec.toNat_add, BitVec.toNat_add, toNat_and_lowMask (by omega), toNat_and_lowMask (by omega), toNat_setWidth, hc',
      Nat.mod_eq_of_lt (a := c.toNat) (by omega), Nat.mod_eq_of_lt (a := c.toNat + x.toNat % 2 ^ k) (by omega),
      Nat.mod_eq_of_lt (by omega)]
    omega
  have total : x.toNat + y.toNat + c.toNat =
      (x.toNat % 2 ^ k + y.toNat % 2 ^ k + c.toNat) + 2 ^ k * (x.toNat / 2 ^ k + y.toNat / 2 ^ k) := by
    have split_x := Nat.div_add_mod x.toNat (2 ^ k)
    have split_y := Nat.div_add_mod y.toNat (2 ^ k)
    rw [Nat.mul_add]
    omega
  have xh : x.toNat / 2 ^ k < 2 ^ k := Nat.div_lt_of_lt_mul (by omega)
  have yh : y.toNat / 2 ^ k < 2 ^ k := Nat.div_lt_of_lt_mul (by omega)
  have lo_div : (x.toNat % 2 ^ k + y.toNat % 2 ^ k + c.toNat) / 2 ^ k < 2 := Nat.div_lt_of_lt_mul (by omega)
  have hi : (hiSum k (loSum k c x y) x y).toNat = (x.toNat + y.toNat + c.toNat) / 2 ^ k := by
    rw [total, Nat.add_mul_div_left _ _ P_pos, hiSum, BitVec.toNat_add, BitVec.toNat_add, toNat_ushiftRight,
      toNat_ushiftRight, toNat_ushiftRight, lo, Nat.shiftRight_eq_div_pow, Nat.shiftRight_eq_div_pow,
      Nat.shiftRight_eq_div_pow, Nat.mod_add_mod, Nat.mod_eq_of_lt (by omega), Nat.add_assoc]
  have double : 2 ^ (k + 1) = 2 * 2 ^ k := by rw [Nat.pow_succ, Nat.mul_comm]
  have small : (x.toNat + y.toNat + c.toNat) / 2 ^ k < 2 ^ (k + 1) := by
    rw [total, Nat.add_mul_div_left _ _ P_pos]
    omega
  rw [getLsbD, hi, testBit_carry small]
  apply decide_eq_decide.mpr
  rw [Nat.le_div_iff_mul_le P_pos, square]

/-! ### Agreement with the eager flags -/

section Agreement

variable {n : Nat} (wide : 8 ≤ n) (ref : EagerFlags) (f : X64Flags) (d s : BitVec n) (c : Bool) (cf : Option Bool)

include wide

theorem sum_agrees_iff :
    ({ eagerAdd ref d s c with CF := cf } : EagerFlags).Agrees
        (setChain (setZSP f (addc d s c)) (carryChain d s (addc d s c))) ↔ Allows cf f.CF := by
  constructor
  · exact fun agrees => agrees.CF
  · intro carry
    exact ⟨carry, PARITY_eq _, carryChain_AF wide d s c, rfl, rfl, carryChain_OF wide d s c⟩

theorem diff_agrees_iff :
    ({ eagerSub ref d s c with CF := cf } : EagerFlags).Agrees
        (setChain (setZSP f (subb d s c)) (borrowChain d s (subb d s c))) ↔ Allows cf f.CF := by
  constructor
  · exact fun agrees => agrees.CF
  · intro borrow
    exact ⟨borrow, PARITY_eq _, borrowChain_AF wide d s c, rfl, rfl, borrowChain_OF wide d s c⟩

theorem sum_agrees (carry : f.CF = decide (2 ^ n ≤ d.toNat + s.toNat + c.toNat)) :
    (eagerAdd ref d s c).Agrees (setChain (setZSP f (addc d s c)) (carryChain d s (addc d s c))) :=
  (sum_agrees_iff wide ref f d s c (eagerAdd ref d s c).CF).mpr carry

theorem diff_agrees :
    (eagerSub ref d s c).Agrees
      (setChain (setZSP { f with CF := (borrowChain d s (subb d s c)).msb } (subb d s c))
        (borrowChain d s (subb d s c))) :=
  (diff_agrees_iff wide ref _ d s c (eagerSub ref d s c).CF).mpr (borrowChain_CF wide d s c)

end Agreement

theorem setWidth_sum {n m : Nat} (le : n ≤ m) (d s : BitVec n) :
    (d.setWidth m + s.setWidth m).setWidth n = d + s := by
  rw [BitVec.setWidth_add _ _ le, setWidth_setWidth_of_le _ le, setWidth_setWidth_of_le _ le, setWidth_eq, setWidth_eq]

/-- The sum of `adc8` to `adc64`. -/
theorem adc_sum {n : Nat} (d s : BitVec n) (c : Bool) : (if c then 1 + d + s else d + s) = addc d s c := by
  cases c with
  | false => exact (addc_false d s).symm
  | true =>
    rw [addc, setWidth_ofBool_true, BitVec.add_assoc, BitVec.add_comm 1, if_pos rfl]
    rfl

/-- The difference of `sbb8` to `sbb64`. -/
theorem sbb_difference {n : Nat} (d s : BitVec n) (c : Bool) : (if c then d - s - 1 else d - s) = subb d s c := by
  cases c with
  | false => exact (subb_false d s).symm
  | true =>
    rw [subb, setWidth_ofBool_true]
    rfl

theorem carryChain_comm {n : Nat} (d s res : BitVec n) : carryChain s d res = carryChain d s res := by
  rw [carryChain, carryChain, BitVec.and_comm, BitVec.or_comm s d]

theorem logic_agrees {n : Nat} (ref : EagerFlags) (f : X64Flags) (res : BitVec n) (cf : f.CF = false)
    (off : f.OF = false) : (eagerLogic ref res).Agrees (setZSP f res) :=
  ⟨cf, PARITY_eq _, trivial, rfl, rfl, off⟩

theorem setLow_full (cell v : BitVec 64) : setLow cell v = v := low_setLow (Nat.le_refl 64) cell v

/-! ### Addition, subtraction and logic -/

section Primitives

variable (w : Width) (emu : X64Emu) (ref : EagerFlags) (d s : BitVec w.bits)

theorem add_agrees : (eagerAdd ref d s false).Agrees (deferedFlags (add w emu d s).2) := by
  have fits := w.bits_le
  have res : low w.bits (setLow emu.res (d.setWidth w.sum.bits + s.setWidth w.sum.bits)) = d + s := by
    rw [low_setLow_of_le w.le_sum w.sum.bits_le]
    exact setWidth_sum w.le_sum d s
  have flags : deferedFlags (add w emu d s).2 = addFlags (add w emu d s).2 emu.eflags w := rfl
  rw [flags, addFlags]
  simp only [add, low_setLow fits, res]
  rw [← addc_false d s]
  apply sum_agrees w.le_bits
  split
  case isTrue full =>
    subst full
    have op1 : setLow emu.op1 d = d := setLow_full emu.op1 d
    have op2 : setLow emu.op2 s = s := setLow_full emu.op2 s
    have carry := hiSum_carry (k := 32) (by decide) s d false
    rw [op1, op2]
    exact carry.trans (congrArg (fun t => decide (2 ^ 64 ≤ t + false.toNat)) (Nat.add_comm _ _))
  case isFalse narrow =>
    have carry := sumCarry (Width.lt_sum narrow) d s false
    rw [setWidth_ofBool_false, BitVec.zero_add] at carry
    dsimp only
    rw [getLsbD_setLow w.sum.bits_le _ _ (Width.lt_sum narrow)]
    exact carry

theorem sub_agrees : (eagerSub ref d s false).Agrees (deferedFlags (sub w emu d s).2) := by
  have fits := w.bits_le
  have flags : deferedFlags (sub w emu d s).2 = subFlags (sub w emu d s).2 emu.eflags w := rfl
  rw [flags, subFlags]
  simp only [sub, low_setLow fits]
  rw [← subb_false d s]
  exact diff_agrees w.le_bits ref emu.eflags d s false

theorem neg_agrees : (eagerSub ref 0 s false).Agrees (deferedFlags (neg w emu s).2) := by
  have fits := w.bits_le
  have flags : deferedFlags (neg w emu s).2 = negFlags (neg w emu s).2 emu.eflags w := rfl
  have chain : ∀ res : BitVec w.bits, res ||| s = borrowChain 0 s res := by
    intro res
    ext i lt
    simp [borrowChain]
  have zero : subb 0 s false = -s := (subb_false 0 s).trans (BitVec.zero_sub s)
  have borrow : (s != 0) = decide ((0 : BitVec w.bits).toNat < s.toNat + false.toNat) := by
    by_cases null : s = 0
    · subst null
      simp
    · have pos : 0 < s.toNat := Nat.pos_of_ne_zero fun eq => null (BitVec.eq_of_toNat_eq eq)
      have nonzero : (s != 0) = true := bne_iff_ne.mpr null
      rw [nonzero]
      simp [pos]
  rw [flags, negFlags]
  simp only [neg, low_setLow fits]
  rw [chain, ← zero]
  exact (diff_agrees_iff w.le_bits ref _ 0 s false (eagerSub ref 0 s false).CF).mpr borrow

theorem dec_agrees_iff :
    (eagerDec ref d).Agrees (deferedFlags (dec w emu d).2) ↔ Allows ref.CF emu.eflags.CF := by
  have fits := w.bits_le
  have flags : deferedFlags (dec w emu d).2 = decFlags (dec w emu d).2 emu.eflags w := rfl
  rw [flags, decFlags]
  simp only [dec, low_setLow fits]
  have agrees := diff_agrees_iff w.le_bits ref emu.eflags d 1 false ref.CF
  rw [subb_false] at agrees
  exact agrees

theorem inc_agrees_iff :
    (eagerInc ref d).Agrees (deferedFlags (inc w emu d).2) ↔ Allows ref.CF (shrWorkaround w emu).eflags.CF := by
  have fits := w.bits_le
  have flags : deferedFlags (inc w emu d).2 = incFlags (inc w emu d).2 (shrWorkaround w emu).eflags w := rfl
  have chain : ∀ res : BitVec w.bits, (if w = .w8 then ((1 &&& d) ||| ~~~res) &&& (1 ||| d)
      else (1 &&& d) ||| (~~~res &&& (1 ||| d))) = carryChain d 1 res := by
    intro res
    split
    all_goals
      ext i lt
      simp only [carryChain, getElem_or, getElem_and, getElem_not]
      generalize (1 : BitVec w.bits)[i] = a, d[i] = b, res[i] = r
      revert a b r
      decide
  rw [flags, incFlags]
  simp only [inc, low_setLow fits]
  rw [chain]
  have agrees := sum_agrees_iff w.le_bits ref (shrWorkaround w emu).eflags d 1 false ref.CF
  rw [addc_false] at agrees
  exact agrees

theorem cmp_agrees : (eagerSub ref d s false).Agrees (deferedFlags (cmp w emu d s).2) := by
  have flags := diff_agrees w.le_bits ref emu.eflags d s false
  rw [subb_false] at flags
  exact flags

theorem logic_agrees_low (f : X64Flags) (cell : BitVec 64) (res : BitVec w.bits) :
    (eagerLogic ref res).Agrees (setZSP { f with OF := false, CF := false, AF := false } (low w.bits (setLow cell res))) := by
  rw [low_setLow w.bits_le]
  exact logic_agrees ref _ res rfl rfl

theorem and_agrees : (eagerLogic ref (d &&& s)).Agrees (deferedFlags (and w emu d s).2) :=
  logic_agrees_low w ref emu.eflags emu.res (d &&& s)

theorem or_agrees : (eagerLogic ref (d ||| s)).Agrees (deferedFlags (or w emu d s).2) :=
  logic_agrees_low w ref emu.eflags emu.res (d ||| s)

theorem xor_agrees : (eagerLogic ref (d ^^^ s)).Agrees (deferedFlags (xor w emu d s).2) :=
  logic_agrees_low w ref emu.eflags emu.res (d ^^^ s)

theorem test_agrees : (eagerLogic ref (d &&& s)).Agrees (deferedFlags (test w emu d s)) :=
  logic_agrees ref _ _ rfl rfl

theorem adcCarry_eq (c : Bool) : adcCarry w d s c = decide (2 ^ w.bits ≤ d.toNat + s.toNat + c.toNat) := by
  cases w with
  | w8 => exact sumCarry (n := 8) (m := 32) (by decide) d s c
  | w16 => exact sumCarry (n := 16) (m := 32) (by decide) d s c
  | w32 => exact hiSum_carry (k := 16) (by decide) d s c
  | w64 => exact hiSum_carry (k := 32) (by decide) d s c

theorem adc_agrees (carry : Allows ref.CF (deferedFlags emu).CF) :
    (withCarry ref.CF fun c => eagerAdd ref d s c).Agrees (deferedFlags (adc w emu d s).2) := by
  refine agrees_withCarry carry ?_
  have flags := sum_agrees w.le_bits ref
    { deferedFlags emu with CF := adcCarry w d s (deferedFlags emu).CF } d s (deferedFlags emu).CF (adcCarry_eq w d s _)
  rw [← adc_sum, ← carryChain_comm] at flags
  rw [adc, CHECK_FLAGS_eq]
  exact flags

theorem sbb_agrees (carry : Allows ref.CF (deferedFlags emu).CF) :
    (withCarry ref.CF fun c => eagerSub ref d s c).Agrees (deferedFlags (sbb w emu d s).2) := by
  refine agrees_withCarry carry ?_
  have flags := diff_agrees w.le_bits ref (deferedFlags emu) d s (deferedFlags emu).CF
  rw [← sbb_difference] at flags
  rw [sbb, CHECK_FLAGS_eq]
  exact flags

end Primitives

end Box64.Emu
