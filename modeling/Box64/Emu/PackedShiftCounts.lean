import Box64.Emu.PackedShift

/-!
# The counts of packed shifts

For which counts the packed shifts of the interpreter shift every lane, and run no C shift that is undefined.
-/

namespace Box64.Emu

open Lanes

/-! ### C shifts and the shifts they stand for -/

section CShift

variable {w count : Nat}

theorem shrUnsigned_eq (defined : count < max w 32) (x : BitVec w) : shrUnsigned x count = some (x >>> count) := by
  rw [shrUnsigned, if_pos defined]
  congr 1
  apply BitVec.eq_of_getLsbD_eq
  intro i lt
  rw [BitVec.getLsbD_setWidth, BitVec.getLsbD_ushiftRight, BitVec.getLsbD_setWidth, BitVec.getLsbD_ushiftRight,
    decide_eq_true lt, Bool.true_and]
  by_cases inside : count + i < max w 32
  · rw [decide_eq_true inside, Bool.true_and]
  · rw [BitVec.getLsbD_of_ge x _ (by omega), Bool.and_false]

theorem shlUnsigned_eq (defined : count < max w 32) (x : BitVec w) : shlUnsigned x count = some (x <<< count) := by
  rw [shlUnsigned, if_pos defined]
  congr 1
  apply BitVec.eq_of_getLsbD_eq
  intro i lt
  have inside : i - count < max w 32 := by omega
  rw [BitVec.getLsbD_setWidth, BitVec.getLsbD_shiftLeft, BitVec.getLsbD_setWidth, BitVec.getLsbD_shiftLeft,
    decide_eq_true lt, decide_eq_true inside, decide_eq_true (show i < max w 32 by omega)]
  simp only [Bool.true_and]

theorem shlSigned_eq (defined : count < max w 32) (x : BitVec w) : shlSigned x count = some (x <<< count) := by
  rw [shlSigned, if_pos defined]
  congr 1
  apply BitVec.eq_of_getLsbD_eq
  intro i lt
  rw [BitVec.getLsbD_setWidth, BitVec.getLsbD_shiftLeft, BitVec.getLsbD_signExtend, BitVec.getLsbD_shiftLeft,
    decide_eq_true lt, decide_eq_true (show i < max w 32 by omega), decide_eq_true (show i - count < max w 32 by omega),
    if_pos (show i - count < w by omega)]
  simp only [Bool.true_and]

theorem msb_signExtend_max (x : BitVec w) (pos : 0 < w) : (x.signExtend (max w 32)).msb = x.msb := by
  rw [BitVec.msb_eq_getLsbD_last, BitVec.getLsbD_signExtend, decide_eq_true (show max w 32 - 1 < max w 32 by omega),
    Bool.true_and]
  by_cases same : max w 32 - 1 < w
  · rw [if_pos same, BitVec.msb_eq_getLsbD_last]
    congr 1
    omega
  · rw [if_neg same]

theorem shrSigned_eq (defined : count < max w 32) (pos : 0 < w) (x : BitVec w) :
    shrSigned x count = some (x.sshiftRight count) := by
  rw [shrSigned, if_pos defined]
  congr 1
  apply BitVec.eq_of_getLsbD_eq
  intro i lt
  rw [BitVec.getLsbD_setWidth, BitVec.getLsbD_sshiftRight, BitVec.getLsbD_sshiftRight, msb_signExtend_max x pos,
    BitVec.getLsbD_signExtend, decide_eq_true lt, decide_eq_false (show ¬ max w 32 ≤ i by omega),
    decide_eq_false (show ¬ w ≤ i by omega)]
  by_cases own : count + i < w
  · rw [if_pos own, if_pos (show count + i < max w 32 by omega), decide_eq_true (show count + i < max w 32 by omega)]
    rfl
  · rw [if_neg own]
    by_cases inside : count + i < max w 32
    · rw [if_pos inside, decide_eq_true inside]
      rfl
    · rw [if_neg inside]
      rfl

/-- From the width of the lane on only the sign is left. -/
theorem sshiftRight_sign (large : w ≤ count) (x : BitVec w) :
    x.sshiftRight count = if x.slt 0 then -1 else 0 := by
  apply BitVec.eq_of_getLsbD_eq
  intro i lt
  rw [BitVec.getLsbD_sshiftRight, decide_eq_false (show ¬ w ≤ i by omega), if_neg (show ¬ count + i < w by omega)]
  simp only [BitVec.ofNat_eq_ofNat, BitVec.slt_zero_eq_msb]
  cases x.msb
  case false => simp
  case true =>
    rw [if_pos rfl, BitVec.neg_one_eq_allOnes, BitVec.getLsbD_allOnes, decide_eq_true lt]
    rfl

theorem sshiftRight_clamp (large : w - 1 ≤ count) (x : BitVec w) : x.sshiftRight (w - 1) = x.sshiftRight count := by
  apply BitVec.eq_of_getLsbD_eq
  intro i lt
  rw [BitVec.getLsbD_sshiftRight, BitVec.getLsbD_sshiftRight]
  congr 1
  have sign : x.getLsbD (w - 1) = x.msb := (BitVec.msb_eq_getLsbD_last x).symm
  by_cases last : count + i < w
  · have zero : i = 0 := by omega
    have same : count = w - 1 := by omega
    rw [zero, same]
  · rw [if_neg last]
    by_cases zero : i = 0
    · rw [zero, Nat.add_zero, if_pos (by omega), sign]
    · rw [if_neg (by omega)]

end CShift

/-! ### Loops over the lanes -/

section Loops

variable {n w m : Nat}

/-- Every lane of the result is the lane of `v` shifted by `count`. -/
def Lanewise (f : BitVec w → Nat → BitVec w) (count : Nat) (v : BitVec n) (out : Option (BitVec n)) : Prop :=
  ∃ result, out = some result ∧ ∀ i, w * i + w ≤ n → lane w result i = f (lane w v i) count

theorem lanewise_each (whole : w * m = n) {f : BitVec w → Nat → BitVec w} {g : BitVec w → BitVec w} {count : Nat}
    (value : ∀ x, g x = f x count) (pos : 0 < w) (v : BitVec n) :
    Lanewise f count v (some (eachLane m (fun v i => g (lane w v i)) v)) := by
  refine ⟨_, rfl, fun i inside => ?_⟩
  have lt : i < m := by
    rw [← whole, ← Nat.mul_succ] at inside
    exact Nat.le_of_mul_le_mul_left inside pos
  rw [lane_eachLane whole.le (fun _ _ _ _ same => congrArg g same) v inside, if_pos lt, value]

theorem lanewise_shiftEach (whole : w * m = n) {op : BitVec w → Nat → Option (BitVec w)}
    {f : BitVec w → Nat → BitVec w} {count count' : Nat} (value : ∀ x, op x count = some (f x count')) (pos : 0 < w)
    (v : BitVec n) : Lanewise f count' v (shiftEach w m op count v) := by
  rw [shiftEach, eachLane?_some (g := fun v i => f (lane w v i) count') fun v i => value _]
  exact lanewise_each whole (fun _ => rfl) pos v

theorem not_lanewise_none {f : BitVec w → Nat → BitVec w} {count : Nat} {v : BitVec n} : ¬ Lanewise f count v none :=
  fun ⟨_, found, _⟩ => nomatch found

theorem lanewise_zero {f : BitVec w → Nat → BitVec w} {count : Nat} (zero : ∀ x, f x count = 0) (v : BitVec n) :
    Lanewise f count v (some 0) :=
  ⟨0, rfl, fun i _ => (lane_zero w i).trans (zero _).symm⟩

theorem lanewise_clearOr (whole : w * m = n) {most : Nat} (top : most + 1 = w) {op : BitVec w → Nat → Option (BitVec w)}
    {f : BitVec w → Nat → BitVec w} (value : ∀ {count}, count < max w 32 → ∀ x, op x count = some (f x count))
    (zero : ∀ x {count}, w ≤ count → f x count = 0) (count : Nat) (v : BitVec n) :
    Lanewise f count v (clearOr most (shiftEach w m op) count v) := by
  rw [clearOr]
  by_cases large : count > most
  · rw [if_pos large]
    exact lanewise_zero (fun x => zero x (by omega)) v
  · rw [if_neg large]
    exact lanewise_shiftEach whole (value (by omega)) (by omega) v

theorem lanewise_clearOrBy (whole : w * m = n) {most : Nat} (top : most + 1 = w) {op : BitVec w → Nat → Option (BitVec w)}
    {f : BitVec w → Nat → BitVec w} (value : ∀ {count}, count < max w 32 → ∀ x, op x count = some (f x count))
    (zero : ∀ x {count}, w ≤ count → f x count = 0) {tmp8u : BitVec n → Nat}
    (small : ∀ ex, countOf ex ≤ most → tmp8u ex = countOf ex) (ex : Source n) (v : BitVec n) :
    Lanewise f (countOf (ex.read v)) v (clearOrBy most (shiftEach w m op) tmp8u ex v) := by
  rw [clearOrBy]
  by_cases large : countOf (ex.read v) > most
  · rw [if_pos large]
    exact lanewise_zero (fun x => zero x (by omega)) v
  · rw [if_neg large, small _ (by omega)]
    exact lanewise_shiftEach whole (value (by omega)) (by omega) v

theorem lanewise_signEach (whole : w * m = n) (pos : 0 < w) {count : Nat} (large : w ≤ count) (v : BitVec n) :
    Lanewise (fun x : BitVec w => x.sshiftRight) count v (signEach w m v) :=
  lanewise_each whole (fun x => (sshiftRight_sign large x).symm) pos v

theorem countByte_eq {ex : BitVec n} (small : countOf ex < 256) : countByte ex = countOf ex := by
  simp only [countOf, countByte, lane, BitVec.extractLsb'_toNat] at small ⊢
  omega

end Loops


theorem lanewise_shrSigned_iff {n w m : Nat} (whole : w * m = n) (lanes : m ≠ 0) (pos : 0 < w) (count : Nat) (v : BitVec n) :
    Lanewise (fun x : BitVec w => x.sshiftRight) count v (shiftEach w m shrSigned count v) ↔ count < max w 32 := by
  by_cases defined : count < max w 32
  · exact iff_of_true (lanewise_shiftEach whole (shrSigned_eq defined pos) pos v) defined
  · refine iff_of_false ?_ defined
    rw [shiftEach, eachLane?_none lanes (if_neg defined)]
    exact not_lanewise_none

/-! ### Byte shifts -/

section ByteShift

variable {count : Nat} (v : BitVec 128)

/-- A register is its two halves. -/
theorem eq_halves {v u : BitVec 128} (low : lane 64 v 0 = lane 64 u 0) (high : lane 64 v 1 = lane 64 u 1) : v = u := by
  refine ext_lane (w := 64) (m := 2) rfl fun i lt => ?_
  obtain rfl | rfl : i = 0 ∨ i = 1 := by omega
  · exact low
  · exact high

theorem getLsbD_half {i j : Nat} (lt : j < 64) : (lane 64 v i).getLsbD j = v.getLsbD (64 * i + j) := getLsbD_lane v i lt

theorem high_shr {bits : Nat} : lane 64 (v >>> bits) 1 = lane 64 v 1 >>> bits := by
  apply BitVec.eq_of_getLsbD_eq
  intro j lt
  rw [getLsbD_half _ lt, BitVec.getLsbD_ushiftRight, BitVec.getLsbD_ushiftRight]
  by_cases inside : bits + j < 64
  · rw [getLsbD_half _ inside]
    congr 1
    omega
  · rw [BitVec.getLsbD_of_ge _ _ (by omega), BitVec.getLsbD_of_ge _ _ (by omega)]

theorem low_shr {bits : Nat} (pos : 0 < bits) (small : bits ≤ 64) :
    lane 64 (v >>> bits) 0 = lane 64 v 0 >>> bits ||| lane 64 v 1 <<< (64 - bits) := by
  apply BitVec.eq_of_getLsbD_eq
  intro j lt
  rw [getLsbD_half _ lt, BitVec.getLsbD_ushiftRight, BitVec.getLsbD_or, BitVec.getLsbD_ushiftRight,
    BitVec.getLsbD_shiftLeft, decide_eq_true lt, Bool.true_and]
  by_cases inside : bits + j < 64
  · rw [getLsbD_half _ inside, decide_eq_true (show j < 64 - bits by omega)]
    simp only [Bool.not_true, Bool.false_and, Bool.or_false]
    congr 1
    omega
  · rw [BitVec.getLsbD_of_ge (lane 64 v 0) _ (by omega), decide_eq_false (show ¬ j < 64 - bits by omega),
      getLsbD_half _ (by omega)]
    simp only [Bool.not_false, Bool.true_and, Bool.false_or]
    congr 1
    omega

/-- By more than a half. -/
theorem low_shr_over {bits : Nat} : lane 64 (v >>> (64 + bits)) 0 = lane 64 v 1 >>> bits := by
  apply BitVec.eq_of_getLsbD_eq
  intro j lt
  rw [getLsbD_half _ lt, BitVec.getLsbD_ushiftRight, BitVec.getLsbD_ushiftRight]
  by_cases inside : bits + j < 64
  · rw [getLsbD_half _ inside]
    congr 1
    omega
  · rw [BitVec.getLsbD_of_ge _ _ (by omega), BitVec.getLsbD_of_ge _ _ (by omega)]

theorem high_shr_over {bits : Nat} : lane 64 (v >>> (64 + bits)) 1 = 0 := by
  apply BitVec.eq_of_getLsbD_eq
  intro j lt
  rw [getLsbD_half _ lt, BitVec.getLsbD_ushiftRight, BitVec.getLsbD_of_ge v _ (by omega), BitVec.ofNat_eq_ofNat,
    BitVec.getLsbD_zero]

theorem low_shl {bits : Nat} : lane 64 (v <<< bits) 0 = lane 64 v 0 <<< bits := by
  apply BitVec.eq_of_getLsbD_eq
  intro j lt
  rw [getLsbD_half _ lt, BitVec.getLsbD_shiftLeft, BitVec.getLsbD_shiftLeft, getLsbD_half _ (by omega)]
  simp only [Nat.mul_zero, Nat.zero_add, decide_eq_true lt, decide_eq_true (show j < 128 by omega)]

theorem high_shl {bits : Nat} (pos : 0 < bits) (small : bits ≤ 64) :
    lane 64 (v <<< bits) 1 = lane 64 v 1 <<< bits ||| lane 64 v 0 >>> (64 - bits) := by
  apply BitVec.eq_of_getLsbD_eq
  intro j lt
  rw [getLsbD_half _ lt, BitVec.getLsbD_shiftLeft, BitVec.getLsbD_or, BitVec.getLsbD_ushiftRight,
    BitVec.getLsbD_shiftLeft, decide_eq_true lt, decide_eq_true (show 64 * 1 + j < 128 by omega),
    decide_eq_false (show ¬ 64 * 1 + j < bits by omega)]
  by_cases inside : bits ≤ j
  · rw [decide_eq_false (show ¬ j < bits by omega), getLsbD_half _ (by omega),
      BitVec.getLsbD_of_ge (lane 64 v 0) _ (by omega)]
    simp only [Bool.not_false, Bool.true_and, Bool.or_false]
    congr 1
    omega
  · rw [decide_eq_true (show j < bits by omega), getLsbD_half v (i := 0) (by omega)]
    simp only [Bool.not_true, Bool.not_false, Bool.true_and, Bool.false_and, Bool.and_false, Bool.false_or]
    congr 1
    omega

theorem high_shl_over {bits : Nat} : lane 64 (v <<< (64 + bits)) 1 = lane 64 v 0 <<< bits := by
  apply BitVec.eq_of_getLsbD_eq
  intro j lt
  rw [getLsbD_half _ lt, BitVec.getLsbD_shiftLeft, BitVec.getLsbD_shiftLeft, decide_eq_true lt,
    decide_eq_true (show 64 * 1 + j < 128 by omega)]
  by_cases inside : bits ≤ j
  · rw [decide_eq_false (show ¬ j < bits by omega), decide_eq_false (show ¬ 64 * 1 + j < 64 + bits by omega),
      getLsbD_half _ (by omega)]
    congr 2
    omega
  · rw [decide_eq_true (show j < bits by omega), decide_eq_true (show 64 * 1 + j < 64 + bits by omega)]
    rfl

theorem low_shl_over {bits : Nat} : lane 64 (v <<< (64 + bits)) 0 = 0 := by
  rw [low_shl, BitVec.shiftLeft_eq_zero (by omega)]
  rfl

end ByteShift

namespace Run660F

theorem PSRLDQ_Ex_Ib_eq (tmp8u : Nat) (ex : BitVec 128) :
    PSRLDQ_Ex_Ib tmp8u ex = if tmp8u = 0 then none else some (ex >>> (8 * tmp8u)) := by
  rw [PSRLDQ_Ex_Ib]
  by_cases large : tmp8u > 15
  · rw [if_pos large, if_neg (by omega), BitVec.ushiftRight_eq_zero (by omega)]
    rfl
  rw [if_neg large]
  by_cases low : tmp8u * 8 < 64
  · by_cases zero : tmp8u = 0
    · subst zero
      rfl
    rw [if_pos low, if_neg zero, shrUnsigned_eq (by omega), shlUnsigned_eq (by omega)]
    simp only [Option.bind_eq_bind, Option.bind_some]
    rw [shrUnsigned_eq (by omega), Option.bind_some, Nat.mul_comm]
    congr 1
    apply eq_halves
    · rw [lane_setLane_ne _ _ (by decide) (by decide), lane_setLane _ _ (by decide), low_shr _ (by omega) (by omega)]
    · rw [lane_setLane _ _ (by decide), lane_setLane_ne _ _ (by decide) (by decide), high_shr]
  · rw [if_neg low, if_neg (by omega), shrUnsigned_eq (by omega)]
    simp only [Option.bind_eq_bind, Option.bind_some]
    congr 1
    obtain ⟨rest, split⟩ : ∃ rest, 8 * tmp8u = 64 + rest := ⟨tmp8u * 8 - 64, by omega⟩
    have left : tmp8u * 8 - 64 = rest := by omega
    rw [left, split]
    apply eq_halves
    · rw [lane_setLane_ne _ _ (by decide) (by decide), lane_setLane _ _ (by decide), low_shr_over]
    · rw [lane_setLane _ _ (by decide), high_shr_over]

theorem PSLLDQ_Ex_Ib_eq (tmp8u : Nat) (ex : BitVec 128) :
    PSLLDQ_Ex_Ib tmp8u ex = if tmp8u = 0 then none else some (ex <<< (8 * tmp8u)) := by
  rw [PSLLDQ_Ex_Ib]
  by_cases large : tmp8u > 15
  · rw [if_pos large, if_neg (by omega), BitVec.shiftLeft_eq_zero (by omega)]
    rfl
  rw [if_neg large]
  by_cases low : tmp8u * 8 < 64
  · by_cases zero : tmp8u = 0
    · subst zero
      rfl
    rw [if_pos low, if_neg zero, shlUnsigned_eq (by omega), shrUnsigned_eq (by omega)]
    simp only [Option.bind_eq_bind, Option.bind_some]
    rw [shlUnsigned_eq (by omega), Option.bind_some, Nat.mul_comm]
    congr 1
    apply eq_halves
    · rw [lane_setLane _ _ (by decide), lane_setLane_ne _ _ (by decide) (by decide), low_shl]
    · rw [lane_setLane_ne _ _ (by decide) (by decide), lane_setLane _ _ (by decide), high_shl _ (by omega) (by omega)]
  · rw [if_neg low, if_neg (by omega), shlUnsigned_eq (by omega)]
    simp only [Option.bind_eq_bind, Option.bind_some]
    congr 1
    obtain ⟨rest, split⟩ : ∃ rest, 8 * tmp8u = 64 + rest := ⟨tmp8u * 8 - 64, by omega⟩
    have left : tmp8u * 8 - 64 = rest := by omega
    rw [left, split]
    apply eq_halves
    · rw [lane_setLane _ _ (by decide), low_shl_over]
    · rw [lane_setLane_ne _ _ (by decide) (by decide), lane_setLane _ _ (by decide), high_shl_over]

end Run660F


/-! ### `PALIGNR` -/

theorem getLsbD_concat_shr {n : Nat} (dst src : BitVec n) (bits : Nat) {i : Nat} (lt : i < n) :
    (((dst ++ src) >>> bits).setWidth n).getLsbD i =
      if bits + i < n then src.getLsbD (bits + i) else dst.getLsbD (bits + i - n) := by
  rw [BitVec.getLsbD_setWidth, BitVec.getLsbD_ushiftRight, BitVec.getLsbD_append, decide_eq_true lt, Bool.true_and]

namespace Run0F

theorem concat_shr_over {n : Nat} (dst src : BitVec n) (rest : Nat) :
    ((dst ++ src) >>> (n + rest)).setWidth n = dst >>> rest := by
  apply BitVec.eq_of_getLsbD_eq
  intro i lt
  rw [getLsbD_concat_shr _ _ _ lt, if_neg (by omega), BitVec.getLsbD_ushiftRight]
  congr 1
  omega

theorem concat_shr_within {dst src : BitVec 64} {bits : Nat} (pos : 0 < bits) (within : bits < 64) :
    ((dst ++ src) >>> bits).setWidth 64 = dst <<< (64 - bits) ||| src >>> bits := by
  apply BitVec.eq_of_getLsbD_eq
  intro i lt
  rw [getLsbD_concat_shr _ _ _ lt, BitVec.getLsbD_or, BitVec.getLsbD_shiftLeft, BitVec.getLsbD_ushiftRight,
    decide_eq_true lt]
  by_cases low : bits + i < 64
  · rw [if_pos low, decide_eq_true (show i < 64 - bits by omega)]
    rfl
  · rw [if_neg low, decide_eq_false (show ¬ i < 64 - bits by omega), BitVec.getLsbD_of_ge src _ (by omega)]
    simp only [Bool.not_false, Bool.true_and, Bool.or_false]
    congr 1
    omega

/-- The low part of `x` is lost when `x << (64 - bits)` stands in its place. -/
theorem or_shr_iff {x : BitVec 64} {bits : Nat} :
    x <<< (64 - bits) ||| (x <<< (64 - bits)) >>> bits = x <<< (64 - bits) ||| x >>> bits ↔
      (x <<< (64 - bits)) >>> bits = x >>> bits := by
  refine ⟨fun same => ?_, fun same => by rw [same]⟩
  apply BitVec.eq_of_getLsbD_eq
  intro i lt
  have bit := congrArg (fun v => v.getLsbD i) same
  simp only [BitVec.getLsbD_or] at bit
  by_cases low : i < 64 - bits
  · have empty : (x <<< (64 - bits)).getLsbD i = false := by
      rw [BitVec.getLsbD_shiftLeft, decide_eq_true low, Bool.not_true, Bool.and_false, Bool.false_and]
    rwa [empty, Bool.false_or, Bool.false_or] at bit
  · rw [BitVec.getLsbD_ushiftRight, BitVec.getLsbD_ushiftRight, BitVec.getLsbD_of_ge _ _ (by omega),
      BitVec.getLsbD_of_ge _ _ (by omega)]

/-- When `PALIGNR` is right. -/
def AlignGood (tmp8u : Nat) (em : Source 64) (gm : BitVec 64) : Prop :=
  8 ≤ tmp8u ∨ (tmp8u = 0 ∧ em.read gm = gm) ∨
    0 < tmp8u ∧ tmp8u < 8 ∧ (em ≠ none ∨ (gm <<< (64 - 8 * tmp8u)) >>> (8 * tmp8u) = gm >>> (8 * tmp8u))

theorem PALIGNR_iff (tmp8u : Nat) (em : Source 64) (gm : BitVec 64) :
    PALIGNR tmp8u em gm = some (((gm ++ em.read gm) >>> (8 * tmp8u)).setWidth 64) ↔ AlignGood tmp8u em gm := by
  rw [PALIGNR, AlignGood]
  by_cases high : 8 ≤ tmp8u
  · refine iff_of_true ?_ (.inl high)
    obtain ⟨rest, rfl⟩ := Nat.exists_eq_add_of_le high
    have past : 8 * (8 + rest) = 64 + 8 * rest := by omega
    rw [past, concat_shr_over]
    by_cases zero : 8 + rest ≥ 16
    · rw [if_pos zero, BitVec.ushiftRight_eq_zero (by omega)]
      rfl
    rw [if_neg zero]
    by_cases some_left : 8 + rest > 8
    · rw [if_pos some_left, Nat.add_sub_cancel_left, shrUnsigned_eq (by omega), Nat.mul_comm]
    · have none_left : rest = 0 := by omega
      rw [if_neg some_left, if_pos (.inl (by omega)), none_left, Nat.mul_zero, BitVec.ushiftRight_zero]
  rw [if_neg (show ¬ tmp8u ≥ 16 by omega), if_neg (show ¬ tmp8u > 8 by omega)]
  by_cases zero : tmp8u = 0
  · subst zero
    have low : ((gm ++ em.read gm) >>> (8 * 0)).setWidth 64 = em.read gm := by
      apply BitVec.eq_of_getLsbD_eq
      intro i lt
      rw [getLsbD_concat_shr _ _ _ lt, if_pos (by omega), Nat.mul_zero, Nat.zero_add]
    rw [if_pos (.inr rfl), low, Option.some_inj]
    constructor
    · exact fun same => .inr (.inl ⟨rfl, same.symm⟩)
    · rintro (high | ⟨-, same⟩ | ⟨pos, -⟩)
      · omega
      · exact same.symm
      · omega
  rw [if_neg (show ¬ (tmp8u = 8 ∨ tmp8u = 0) by omega), shlUnsigned_eq (by omega)]
  simp only [Option.bind_eq_bind, Option.bind_some]
  have left : (8 - tmp8u) * 8 = 64 - 8 * tmp8u := by omega
  rw [shrUnsigned_eq (by omega), Option.bind_some, concat_shr_within (by omega) (by omega), left, Nat.mul_comm tmp8u,
    Option.some_inj]
  cases em with
  | none =>
    rw [Source.read, Source.read, Option.getD_none, Option.getD_none, or_shr_iff]
    constructor
    · exact fun same => .inr (.inr ⟨by omega, by omega, .inr same⟩)
    · rintro (high | ⟨zero, -⟩ | ⟨-, -, other | same⟩)
      · omega
      · omega
      · exact absurd rfl other
      · exact same
  | some em => exact iff_of_true rfl (.inr (.inr ⟨by omega, by omega, .inl nofun⟩))

end Run0F

namespace Run660F

theorem PALIGNR_eq (tmp8u : Nat) (ex : Source 128) (gx : BitVec 128) :
    PALIGNR tmp8u ex gx = some (((gx ++ ex.read gx) >>> (8 * tmp8u)).setWidth 128) := by
  rw [PALIGNR]
  by_cases large : tmp8u > 31
  · rw [if_pos large, BitVec.ushiftRight_eq_zero (by omega)]
    rfl
  rw [if_neg large]
  dsimp only
  congr 1
  have copied (v u : BitVec 128) : setLane (setLane v 0 (lane 64 u 0)) 1 (lane 64 u 1) = u := by
    apply eq_halves
    · rw [lane_setLane_ne _ _ (by decide) (by decide), lane_setLane _ _ (by decide)]
    · rw [lane_setLane _ _ (by decide)]
  rw [copied]
  refine ext_lane (w := 8) (m := 16) rfl fun i lt => ?_
  rw [lane_eachLane (by decide) (fun _ _ _ _ _ => rfl) _ (by omega), if_pos lt]
  apply BitVec.eq_of_getLsbD_eq
  intro j small
  rw [getLsbD_lane _ _ small, getLsbD_concat_shr _ _ _ (by omega)]
  by_cases low : tmp8u + i > 15
  · rw [if_pos low, if_neg (show ¬ 8 * tmp8u + (8 * i + j) < 128 by omega)]
    by_cases past : tmp8u + i > 31
    · rw [if_pos past, BitVec.getLsbD_of_ge gx _ (by omega), BitVec.ofNat_eq_ofNat, BitVec.getLsbD_zero]
    · have index : 8 * (tmp8u + i - 16) + j = 8 * tmp8u + (8 * i + j) - 128 := by omega
      rw [if_neg past, getLsbD_lane _ _ small, index]
  · have index : 8 * (tmp8u + i) + j = 8 * tmp8u + (8 * i + j) := by omega
    rw [if_neg low, if_pos (show 8 * tmp8u + (8 * i + j) < 128 by omega), getLsbD_lane _ _ small, index]

end Run660F

/-! ### When the shifts are right -/

namespace PackedShift

/-- The counts for which no C shift is undefined, and what `PALIGNR` of `Run0F` needs in addition. -/
def Good {size : Size} (insn : PackedShift size) (src : Source size.bits) (dst : BitVec size.bits) : Prop :=
  match insn with
  | imm .mmx .psrad tmp8u | imm .sse .psraw tmp8u => tmp8u.toNat < 32
  | psrldq tmp8u | pslldq tmp8u => tmp8u ≠ 0
  | palignr .mmx tmp8u => Run0F.AlignGood tmp8u.toNat src dst
  | _ => True

section Kinds

variable {n w m most : Nat}

theorem lanewise_shr (whole : w * m = n) (top : most + 1 = w) (count : Nat) (v : BitVec n) :
    Lanewise (fun (x : BitVec w) count => x >>> count) count v (clearOr most (shiftEach w m shrUnsigned) count v) :=
  lanewise_clearOr whole top shrUnsigned_eq (fun _ _ large => BitVec.ushiftRight_eq_zero large) count v

theorem lanewise_shl (whole : w * m = n) (top : most + 1 = w) (count : Nat) (v : BitVec n) :
    Lanewise (fun (x : BitVec w) count => x <<< count) count v (clearOr most (shiftEach w m shlUnsigned) count v) :=
  lanewise_clearOr whole top shlUnsigned_eq (fun _ _ large => BitVec.shiftLeft_eq_zero large) count v

variable {tmp8u : BitVec n → Nat} (ex : Source n) (v : BitVec n)

theorem lanewise_shr_by (whole : w * m = n) (top : most + 1 = w)
    (small : ∀ ex, countOf ex ≤ most → tmp8u ex = countOf ex) :
    Lanewise (fun (x : BitVec w) count => x >>> count) (countOf (ex.read v)) v
      (clearOrBy most (shiftEach w m shrUnsigned) tmp8u ex v) :=
  lanewise_clearOrBy whole top shrUnsigned_eq (fun _ _ large => BitVec.ushiftRight_eq_zero large) small ex v

theorem lanewise_shl_by (whole : w * m = n) (top : most + 1 = w)
    (small : ∀ ex, countOf ex ≤ most → tmp8u ex = countOf ex) :
    Lanewise (fun (x : BitVec w) count => x <<< count) (countOf (ex.read v)) v
      (clearOrBy most (shiftEach w m shlUnsigned) tmp8u ex v) :=
  lanewise_clearOrBy whole top shlUnsigned_eq (fun _ _ large => BitVec.shiftLeft_eq_zero large) small ex v

theorem lanewise_shlSigned_by (whole : w * m = n) (top : most + 1 = w)
    (small : ∀ ex, countOf ex ≤ most → tmp8u ex = countOf ex) :
    Lanewise (fun (x : BitVec w) count => x <<< count) (countOf (ex.read v)) v
      (clearOrBy most (shiftEach w m shlSigned) tmp8u ex v) :=
  lanewise_clearOrBy whole top shlSigned_eq (fun _ _ large => BitVec.shiftLeft_eq_zero large) small ex v

end Kinds

/-- The clamped count of `PSRAW`. -/
theorem lanewise_psraw {n m : Nat} (whole : 16 * m = n) {count clamped : Nat} (defined : clamped < 32)
    (clamp : clamped = count ∨ 15 ≤ clamped ∧ 15 ≤ count) (v : BitVec n) :
    Lanewise (fun x : BitVec 16 => x.sshiftRight) count v (shiftEach 16 m shrSigned clamped v) := by
  refine lanewise_shiftEach whole (fun x => ?_) (by decide) v
  rw [shrSigned_eq (show clamped < max 16 32 from defined) (by decide)]
  obtain rfl | ⟨low, high⟩ := clamp
  · rfl
  · rw [← sshiftRight_clamp (w := 16) low, sshiftRight_clamp (w := 16) high]

theorem lanewise_psrad {n m : Nat} (whole : 32 * m = n) (count : Nat) (v : BitVec n) :
    Lanewise (fun x : BitVec 32 => x.sshiftRight) count v
      (if count > 31 then signEach 32 m v else shiftEach 32 m shrSigned count v) := by
  by_cases large : count > 31
  · rw [if_pos large]
    exact lanewise_signEach whole (by decide) large v
  · rw [if_neg large]
    exact lanewise_shiftEach whole (shrSigned_eq (by omega) (by decide)) (by decide) v

theorem countByte_of_le {n most : Nat} (fits : most < 256) (ex : BitVec n) (small : countOf ex ≤ most) :
    countByte ex = countOf ex := countByte_eq (by omega)

theorem PSRAD_Gm_Em_lanewise (em : Source 64) (gm : BitVec 64) :
    Lanewise (fun x : BitVec 32 => x.sshiftRight) (countOf (em.read gm)) gm (Run0F.PSRAD_Gm_Em em gm) := by
  have right := lanewise_psrad (m := 2) rfl (countOf (em.read gm)) gm
  rw [Run0F.PSRAD_Gm_Em]
  by_cases large : countOf (em.read gm) > 31
  · rwa [if_pos large] at right ⊢
  · rw [if_neg large] at right ⊢
    rwa [countByte_of_le (by decide) _ (Nat.le_of_not_gt large)]

theorem PSRAD_Gx_Ex_lanewise (ex : Source 128) (gx : BitVec 128) :
    Lanewise (fun x : BitVec 32 => x.sshiftRight) (countOf (ex.read gx)) gx (Run660F.PSRAD_Gx_Ex ex gx) := by
  have right := lanewise_psrad (m := 4) rfl (countOf (ex.read gx)) gx
  rw [Run660F.PSRAD_Gx_Ex]
  by_cases large : countOf (ex.read gx) > 31
  · rw [if_pos large] at right ⊢
    exact right
  · rw [if_neg large, countByte_of_le (by decide) _ (Nat.le_of_not_gt large)]
    exact right

theorem toNat_eq_zero_iff (tmp8u : BitVec 8) : tmp8u.toNat = 0 ↔ tmp8u = 0 := by
  rw [BitVec.toNat_eq]
  rfl

theorem found_iff {α : Type} {out : Option α} {value : α} : (∃ result, out = some result ∧ result = value) ↔ out = some value := by
  constructor
  · rintro ⟨result, found, rfl⟩
    exact found
  · exact fun found => ⟨value, found, rfl⟩

theorem PSRLDQ_Ex_Ib_iff (tmp8u : BitVec 8) (ex : BitVec 128) :
    Run660F.PSRLDQ_Ex_Ib tmp8u.toNat ex = some (ex >>> (8 * tmp8u.toNat)) ↔ tmp8u ≠ 0 := by
  rw [Run660F.PSRLDQ_Ex_Ib_eq, ne_eq, ← toNat_eq_zero_iff]
  by_cases zero : tmp8u.toNat = 0
  · rw [if_pos zero]
    exact iff_of_false nofun fun ne => ne zero
  · rw [if_neg zero]
    exact iff_of_true rfl zero

theorem PSLLDQ_Ex_Ib_iff (tmp8u : BitVec 8) (ex : BitVec 128) :
    Run660F.PSLLDQ_Ex_Ib tmp8u.toNat ex = some (ex <<< (8 * tmp8u.toNat)) ↔ tmp8u ≠ 0 := by
  rw [Run660F.PSLLDQ_Ex_Ib_eq, ne_eq, ← toNat_eq_zero_iff]
  by_cases zero : tmp8u.toNat = 0
  · rw [if_pos zero]
    exact iff_of_false nofun fun ne => ne zero
  · rw [if_neg zero]
    exact iff_of_true rfl zero

theorem imm_iff (size : Size) (op : ShiftOp) (tmp8u : BitVec 8) (src : Source size.bits) (dst : BitVec size.bits) :
    Lanewise op.shifted tmp8u.toNat dst ((imm size op tmp8u).run src dst) ↔ (imm size op tmp8u).Good src dst := by
  cases size with
  | mmx =>
    cases op with
    | psrlw => exact iff_of_true (lanewise_shr (w := 16) (m := 4) (n := 64) rfl rfl _ dst) trivial
    | psrld => exact iff_of_true (lanewise_shr (w := 32) (m := 2) (n := 64) rfl rfl _ dst) trivial
    | psrlq => exact iff_of_true (lanewise_shr (w := 64) (m := 1) (n := 64) rfl rfl _ dst) trivial
    | psraw =>
      refine iff_of_true (lanewise_psraw (m := 4) (n := 64) rfl ?_ ?_ dst) trivial
      · split <;> omega
      · split <;> omega
    | psrad => exact lanewise_shrSigned_iff (w := 32) (m := 2) (n := 64) rfl (by decide) (by decide) _ dst
    | psllw => exact iff_of_true (lanewise_shl (w := 16) (m := 4) (n := 64) rfl rfl _ dst) trivial
    | pslld => exact iff_of_true (lanewise_shl (w := 32) (m := 2) (n := 64) rfl rfl _ dst) trivial
    | psllq => exact iff_of_true (lanewise_shl (w := 64) (m := 1) (n := 64) rfl rfl _ dst) trivial
  | sse =>
    cases op with
    | psrlw => exact iff_of_true (lanewise_shr (w := 16) (m := 8) (n := 128) rfl rfl _ dst) trivial
    | psrld => exact iff_of_true (lanewise_shr (w := 32) (m := 4) (n := 128) rfl rfl _ dst) trivial
    | psrlq => exact iff_of_true (lanewise_shr (w := 64) (m := 2) (n := 128) rfl rfl _ dst) trivial
    | psraw => exact lanewise_shrSigned_iff (w := 16) (m := 8) (n := 128) rfl (by decide) (by decide) _ dst
    | psrad => exact iff_of_true (lanewise_psrad (m := 4) (n := 128) rfl _ dst) trivial
    | psllw => exact iff_of_true (lanewise_shl (w := 16) (m := 8) (n := 128) rfl rfl _ dst) trivial
    | pslld => exact iff_of_true (lanewise_shl (w := 32) (m := 4) (n := 128) rfl rfl _ dst) trivial
    | psllq => exact iff_of_true (lanewise_shl (w := 64) (m := 2) (n := 128) rfl rfl _ dst) trivial

theorem reg_lanewise (size : Size) (op : ShiftOp) (src : Source size.bits) (dst : BitVec size.bits) :
    Lanewise op.shifted (countOf (src.read dst)) dst ((reg size op).run src dst) := by
  have psraw {n m : Nat} (whole : 16 * m = n) (ex v : BitVec n) :
      Lanewise (fun x : BitVec 16 => x.sshiftRight) (countOf ex) v
        (shiftEach 16 m shrSigned (if countOf ex > 15 then 16 else countByte ex) v) := by
    by_cases large : countOf ex > 15
    · rw [if_pos large]
      exact lanewise_psraw whole (by decide) (.inr ⟨by decide, by omega⟩) v
    · rw [if_neg large, countByte_of_le (show 15 < 256 by decide) ex (by omega)]
      exact lanewise_psraw whole (by omega) (.inl rfl) v
  cases size with
  | mmx =>
    cases op with
    | psrlw => exact lanewise_shr_by (w := 16) (m := 4) (n := 64) src dst rfl rfl (countByte_of_le (by decide))
    | psrld => exact lanewise_shr_by (w := 32) (m := 2) (n := 64) src dst rfl rfl (countByte_of_le (by decide))
    | psrlq => exact lanewise_shr_by (w := 64) (m := 1) (n := 64) src dst rfl rfl (fun _ _ => rfl)
    | psraw => exact psraw (m := 4) (n := 64) rfl (src.read dst) dst
    | psrad => exact PSRAD_Gm_Em_lanewise src dst
    | psllw => exact lanewise_shlSigned_by (w := 16) (m := 4) (n := 64) src dst rfl rfl (countByte_of_le (by decide))
    | pslld => exact lanewise_shlSigned_by (w := 32) (m := 2) (n := 64) src dst rfl rfl (countByte_of_le (by decide))
    | psllq => exact lanewise_shl_by (w := 64) (m := 1) (n := 64) src dst rfl rfl (countByte_of_le (by decide))
  | sse =>
    cases op with
    | psrlw => exact lanewise_shr_by (w := 16) (m := 8) (n := 128) src dst rfl rfl (countByte_of_le (by decide))
    | psrld => exact lanewise_shr_by (w := 32) (m := 4) (n := 128) src dst rfl rfl (countByte_of_le (by decide))
    | psrlq => exact lanewise_shr_by (w := 64) (m := 2) (n := 128) src dst rfl rfl (countByte_of_le (by decide))
    | psraw => exact psraw (m := 8) (n := 128) rfl (src.read dst) dst
    | psrad => exact PSRAD_Gx_Ex_lanewise src dst
    | psllw => exact lanewise_shl_by (w := 16) (m := 8) (n := 128) src dst rfl rfl (countByte_of_le (by decide))
    | pslld => exact lanewise_shl_by (w := 32) (m := 4) (n := 128) src dst rfl rfl (countByte_of_le (by decide))
    | psllq => exact lanewise_shl_by (w := 64) (m := 2) (n := 128) src dst rfl rfl (fun ex small => Nat.mod_eq_of_lt (by omega))

theorem run_iff {size : Size} (insn : PackedShift size) (src : Source size.bits) (dst : BitVec size.bits) :
    (∃ result, insn.run src dst = some result ∧ insn.Shifted (src.read dst) dst result) ↔ insn.Good src dst := by
  cases insn with
  | imm size op tmp8u => exact imm_iff size op tmp8u src dst
  | reg size op => exact iff_of_true (reg_lanewise size op src dst) (by cases size <;> trivial)
  | psrldq tmp8u => exact found_iff.trans (PSRLDQ_Ex_Ib_iff tmp8u dst)
  | pslldq tmp8u => exact found_iff.trans (PSLLDQ_Ex_Ib_iff tmp8u dst)
  | palignr size tmp8u =>
    refine found_iff.trans ?_
    cases size with
    | mmx => exact Run0F.PALIGNR_iff tmp8u.toNat src dst
    | sse => exact iff_of_true (Run660F.PALIGNR_eq tmp8u.toNat src dst) trivial

section Exec

variable {ι : Type} [DecidableEq ι] {size : Size} (insn : PackedShift size) (G E : ι) (file : ι → BitVec size.bits)

/-- `EX` or `EM` as the instruction sees it. -/
def source : Source size.bits := if E = insn.target G E then none else some (file E)

theorem read_source : (insn.source G E file).read (file (insn.target G E)) = file E := by
  rw [source]
  by_cases same : E = insn.target G E
  · rw [if_pos same, ← same]
    rfl
  · rw [if_neg same]
    rfl

/-- A packed shift shifts every lane by its count, with no C shift undefined, exactly if the immediate byte of `PSRAD` of
`Run0F` and of `PSRAW` of `Run660F` is below 32, that of `PSRLDQ` and `PSLLDQ` is not 0, and that of `PALIGNR` of `Run0F`
is at least 8, or is in between with two registers, or makes no difference. -/
theorem exec_shifts_iff : (∃ file', insn.exec G E file = some file' ∧
      insn.Shifted (file E) (file (insn.target G E)) (file' (insn.target G E)) ∧
      ∀ p, p ≠ insn.target G E → file' p = file p) ↔
    insn.Good (insn.source G E file) (file (insn.target G E)) := by
  rw [← run_iff, read_source]
  constructor
  · rintro ⟨file', ran, shifted, -⟩
    obtain ⟨result, found, rfl⟩ := Option.map_eq_some_iff.mp ran
    rw [Function.update_self] at shifted
    exact ⟨result, found, shifted⟩
  · rintro ⟨result, found, shifted⟩
    refine ⟨Function.update file (insn.target G E) result, ?_, ?_, fun p ne => Function.update_of_ne ne _ _⟩
    · exact congrArg (Option.map _) found
    · rwa [Function.update_self]

end Exec

/-- `PALIGNR` of `Run0F` by 0 bytes leaves the destination as it is. -/
theorem palignr_zero_keeps : ¬ ∀ (size : Size) (insn : PackedShift size) (G E : Fin 2) (file : Fin 2 → BitVec size.bits),
    ∃ file', insn.exec G E file = some file' ∧
      insn.Shifted (file E) (file (insn.target G E)) (file' (insn.target G E)) ∧
      ∀ p, p ≠ insn.target G E → file' p = file p := by
  intro right
  obtain ⟨file', ran, shifted, -⟩ := right .mmx (palignr .mmx 0) 0 1 fun p : Fin 2 => if p = 0 then 0 else (1 : BitVec 64)
  have kept : (0 : BitVec 64) = file' 0 := congrFun (Option.some.inj ran) 0
  have wrong : (0 : BitVec 64) = (((0 : BitVec 64) ++ (1 : BitVec 64)) >>> (8 * 0)).setWidth 64 := kept.trans shifted
  exact absurd wrong (by decide)

end PackedShift

end Box64.Emu
