import Box64.Emu.PackedShiftCounts
import Box64.Emu.Simd0F

/-!
# One register as source and destination

Which SIMD instructions give a register the same value whether the source is that register or another one that holds the
same.
-/

namespace Box64.Emu

open Lanes

namespace SimdCase

/-- The case does not see whether the source is the destination. -/
def Plain {n : Nat} (case : SimdCase n) : Prop := ∀ ctx v, case.body ctx none v = case.body ctx (some v) v

end SimdCase

section Loops

variable {n w w' m : Nat} {v : BitVec n}

theorem Untouched.own (fits : w * m ≤ n) {u : BitVec n} {i : Nat} (lt : i < m) (untouched : Untouched w id i v u) :
    lane w u i = lane w v i :=
  untouched w i ((lane_end lt).trans fits) fun _ before => .inr (lane_end before)

/-- Each lane is made from the same lane of the source. -/
theorem eachLane_alias (fits : w * m ≤ n) {B : Source n → BitVec n → Nat → BitVec w}
    (own : ∀ u i, lane w u i = lane w v i → B none u i = B none v i ∧ B (some v) u i = B none v i) :
    eachLane m (B none) v = eachLane m (B (some v)) v := by
  rw [eachLane_eq_at, eachLane_eq_at]
  have same := eachLaneAt_eq id (F := B none v) fun u i lt untouched => (own u i (Untouched.own fits lt untouched)).1
  have other := eachLaneAt_eq id (F := B none v) fun u i lt untouched => (own u i (Untouched.own fits lt untouched)).2
  exact same.trans other.symm

theorem zipLanes_alias (fits : w * m ≤ n) (f : BitVec w → BitVec w → BitVec w) (v : BitVec n) :
    zipLanes m f none v = zipLanes m f (some v) v := by
  refine eachLane_alias (B := fun ex gx i => f (lane w gx i) (lane w (ex.read gx) i)) fits fun u i same => ?_
  simp only [Source.read, Option.getD_none, Option.getD_some, same, and_self]

theorem mapLanes_alias (fits : w * m ≤ n) (f : BitVec w → BitVec w) (v : BitVec n) :
    mapLanes m f none v = mapLanes m f (some v) v := zipLanes_alias fits _ v

/-- The wider lanes above are written first. -/
theorem widenLanes_alias (wider : w ≤ w') (fits : w' * m ≤ n) (f : BitVec w → BitVec w') (v : BitVec n) :
    widenLanes m f none v = widenLanes m f (some v) v := by
  simp only [widenLanes, eachLaneDown]
  rw [eachLaneAt_eq _ (F := fun k => f (lane w v (m - 1 - k)))]
  · rfl
  · intro u k lt untouched
    refine congrArg f (untouched w _ ?_ fun k' before => .inl ?_)
    · exact (lane_end (show m - 1 - k < m by omega)).trans ((Nat.mul_le_mul_right m wider).trans fits)
    · calc w * (m - 1 - k) + w = w * (m - 1 - k + 1) := (Nat.mul_succ w _).symm
        _ ≤ w' * (m - 1 - k + 1) := Nat.mul_le_mul_right _ wider
        _ ≤ w' * (m - 1 - k') := Nat.mul_le_mul_left w' (by omega)

end Loops

/-! ### Loops that know whether the source is the destination -/

section Halves

variable {n w w' half : Nat} {v : BitVec n}

/-- The upper half copied from the lower one, and written lane by lane. -/
theorem copy_half (whole : w * half * 2 = n) {F : Nat → BitVec w} {g : BitVec n} (same : ∀ i < half, lane w g i = F i) :
    moveLane (w * half) 1 0 g = eachLaneAt (half + ·) half (fun _ i => F i) g := by
  have total : n = w * (half + half) := by rw [Nat.mul_add]; omega
  refine ext_lane total fun i lt => ?_
  have inside : w * i + w ≤ n := (lane_end lt).trans total.ge
  obtain low | high := Nat.lt_or_ge i half
  · rw [moveLane, lane_setLane_apart _ _ inside (.inl ((lane_end low).trans (Nat.mul_one _).ge))]
    exact (untouched_eachLaneAt (half + ·) half _ g w i inside fun k _ => .inl (lane_end (show i < half + k by omega))).symm
  · obtain ⟨k, rfl⟩ := Nat.exists_eq_add_of_le high
    have small : k < half := by omega
    have written := lane_eachLaneAt (half + ·) F g small (fun k' _ after => by omega) inside
    have copied := lane_lane (w := w) (moveLane (w * half) 1 0 g) 1 small
    rw [moveLane, lane_setLane _ _ (by omega), lane_lane g 0 small, Nat.mul_zero, Nat.zero_add, Nat.mul_one,
      same k small] at copied
    exact copied.symm.trans written.symm

theorem pairLanes_alias (whole : w * half * 2 = n) (width : w * half = 64) (op : BitVec w → BitVec w → BitVec w)
    (v : BitVec n) : pairLanes half op none v = pairLanes half op (some v) v := by
  have total : n = w * (half * 2) := by rw [← Nat.mul_assoc]; exact whole.symm
  have first : eachLane half (fun gx i => op (lane w gx (i * 2)) (lane w gx (i * 2 + 1))) v =
      eachLaneAt id half (fun _ i => op (lane w v (i * 2)) (lane w v (i * 2 + 1))) v := by
    rw [eachLane_eq_at]
    refine eachLaneAt_eq id fun u i lt untouched => ?_
    have low := untouched w (i * 2) ((lane_end (by omega)).trans total.ge) fun k before => .inr (lane_end (show k < i * 2 by omega))
    have high := untouched w (i * 2 + 1) ((lane_end (by omega)).trans total.ge) fun k before =>
      .inr (lane_end (show k < i * 2 + 1 by omega))
    rw [low, high]
  have made (i : Nat) (lt : i < half) := lane_eachLaneAt id (fun i => op (lane w v (i * 2)) (lane w v (i * 2 + 1))) v lt
    (fun k _ after => by dsimp only [id]; omega) ((lane_end (show i < half * 2 by omega)).trans total.ge)
  have copied := copy_half whole made
  rw [width] at copied
  rw [pairLanes, pairLanes, first]
  exact copied

theorem copy_packed (narrow : w ≤ w') (whole : w * half * 2 = n) (fits : w' * half ≤ n) (sat : BitVec w' → BitVec w)
    (v : BitVec n) : moveLane (w * half) 1 0 (eachLane half (fun gx i => sat (lane w' gx i)) v) =
      eachLaneAt (half + ·) half (fun _ i => sat (lane w' v i)) (eachLane half (fun gx i => sat (lane w' gx i)) v) := by
  have first : eachLane half (fun gx i => sat (lane w' gx i)) v = eachLaneAt id half (fun _ i => sat (lane w' v i)) v := by
    rw [eachLane_eq_at]
    refine eachLaneAt_eq id fun u i lt untouched => congrArg sat ?_
    refine untouched w' i ((lane_end lt).trans fits) fun k before => .inr ?_
    exact (lane_end before).trans (Nat.mul_le_mul_right i narrow)
  have made (i : Nat) (lt : i < half) := lane_eachLaneAt id (fun i => sat (lane w' v i)) v lt
    (fun k _ after => by dsimp only [id]; omega) ((lane_end lt).trans (by omega))
  rw [first]
  exact copy_half whole made

theorem packLanes_alias (narrow : w ≤ w') (whole : w * half * 2 = n) (fits : w' * half ≤ n) (width : w * half = 64)
    (sat : BitVec w' → BitVec w) (v : BitVec n) : packLanes half sat none v = packLanes half sat (some v) v := by
  have copied := copy_packed narrow whole fits sat v
  rwa [width] at copied

theorem packLanesMmx_alias (narrow : w ≤ w') (whole : w * half * 2 = n) (fits : w' * half ≤ n) (width : w * half = 32)
    (sat : BitVec w' → BitVec w) (v : BitVec n) : packLanesMmx half sat none v = packLanesMmx half sat (some v) v := by
  have copied := copy_packed narrow whole fits sat v
  rwa [width] at copied

/-- The odd lanes are the even ones, or come from the source. -/
theorem unpack_odd (total : n = w * (2 * half)) {F : Nat → BitVec w} {g : BitVec n}
    (even : ∀ i < half, lane w g (2 * i) = F i) :
    eachLaneAt (2 * · + 1) half (fun gx i => lane w gx (2 * i)) g = eachLaneAt (2 * · + 1) half (fun _ i => F i) g := by
  refine eachLaneAt_eq _ fun u i lt untouched => ?_
  rw [← even i lt]
  exact untouched w (2 * i) ((lane_end (by omega)).trans total.ge) fun k before => .inr (lane_end (show 2 * k + 1 < 2 * i by omega))

theorem unpackHigh_alias (total : n = w * (2 * half)) (v : BitVec n) :
    unpackHigh w half none v = unpackHigh w half (some v) v := by
  have first : eachLaneAt (2 * ·) half (fun gx i => lane w gx (i + half)) v =
      eachLaneAt (2 * ·) half (fun _ i => lane w v (i + half)) v := by
    refine eachLaneAt_eq _ fun u i lt untouched => ?_
    exact untouched w (i + half) ((lane_end (by omega)).trans total.ge) fun k before => .inr (lane_end (show 2 * k < i + half by omega))
  have made (i : Nat) (lt : i < half) := lane_eachLaneAt (2 * ·) (fun i => lane w v (i + half)) v lt
    (fun k _ after => by omega) ((lane_end (show 2 * i < 2 * half by omega)).trans total.ge)
  have odd := unpack_odd total made
  simp only [unpackHigh, first, Option.isNone_none, Option.isNone_some, if_true, Bool.false_eq_true, if_false, odd]
  rfl

theorem unpackLow_alias (total : n = w * (2 * half)) (v : BitVec n) :
    unpackLow w half none v = unpackLow w half (some v) v := by
  have first : eachLaneDown (fun i => 2 * (i + 1)) (half - 1) (fun gx i => lane w gx (i + 1)) v =
      eachLaneAt (fun k => 2 * (half - 1 - 1 - k + 1)) (half - 1) (fun _ k => lane w v (half - 1 - 1 - k + 1)) v := by
    refine eachLaneAt_eq _ fun u k lt untouched => ?_
    exact untouched w _ ((lane_end (by omega)).trans total.ge) fun k' before => .inl (lane_end (show half - 1 - 1 - k + 1 < 2 * (half - 1 - 1 - k' + 1) by omega))
  have made (i : Nat) (lt : i < half) :
      lane w (eachLaneAt (fun k => 2 * (half - 1 - 1 - k + 1)) (half - 1) (fun _ k => lane w v (half - 1 - 1 - k + 1)) v)
        (2 * i) = lane w v i := by
    have inside : w * (2 * i) + w ≤ n := (lane_end (by omega)).trans total.ge
    by_cases zero : i = 0
    · subst zero
      exact untouched_eachLaneAt _ _ _ v w _ inside fun k before => .inl (lane_end (show 0 < 2 * (half - 1 - 1 - k + 1) by omega))
    · have at_k := lane_eachLaneAt (fun k => 2 * (half - 1 - 1 - k + 1)) (fun k => lane w v (half - 1 - 1 - k + 1)) v
        (show half - 1 - i < half - 1 by omega) (fun k _ after => by omega)
      have index : half - 1 - 1 - (half - 1 - i) + 1 = i := by omega
      simp only [index] at at_k
      exact at_k inside
  have odd := unpack_odd total made
  simp only [unpackLow, first, Option.isNone_none, Option.isNone_some, if_true, Bool.false_eq_true, if_false, odd]
  rfl

end Halves

/-! ### The other instructions -/

section Others

variable (v : BitVec 128)

namespace Run660F

theorem PSHUFB_alias : PSHUFB none v = PSHUFB (some v) v := by
  refine eachLane_alias (w := 8) (by decide) (B := fun ex gx i =>
    if lane 8 (ex.read gx) i &&& 128 ≠ 0 then 0 else lane 8 v (lane 8 (ex.read gx) i &&& 15).toNat) fun u i same => ⟨?_, rfl⟩
  exact congrArg (fun x : BitVec 8 => if x &&& 128 ≠ 0 then 0 else lane 8 v (x &&& 15).toNat) same

theorem PHADDD_alias : PHADDD none v = PHADDD (some v) v :=
  pairLanes_alias (w := 32) (show 32 * 2 * 2 = 128 by decide) (by decide) (fun x y => x + y) v

theorem BLENDVPS_alias (ctx : Context) : BLENDVPS ctx none v = BLENDVPS ctx (some v) v := by
  refine eachLane_alias (w := 32) (by decide) (B := fun ex gx i =>
    if lane 32 (ctx.xmm0.read gx) i &&& 0x80000000 ≠ 0 then lane 32 (ex.read gx) i else lane 32 gx i) fun u i same => ?_
  have blend (mask x y : BitVec 32 → BitVec 32) :
      (fun z => if mask z &&& 0x80000000 ≠ 0 then x z else y z) (lane 32 u i) =
        (fun z => if mask z &&& 0x80000000 ≠ 0 then x z else y z) (lane 32 v i) := by rw [same]
  cases ctx.xmm0 with
  | none => exact ⟨blend id id id, blend id (fun _ => lane 32 v i) id⟩
  | some mask => exact ⟨blend (fun _ => lane 32 mask i) id id, blend (fun _ => lane 32 mask i) (fun _ => lane 32 v i) id⟩

theorem PBLENDW_alias (ctx : Context) : PBLENDW ctx none v = PBLENDW ctx (some v) v := by
  refine eachLane_alias (w := 16) (by decide) (B := fun ex gx i =>
    if ctx.imm8.getLsbD i then lane 16 (ex.read gx) i else lane 16 gx i) fun u i same => ?_
  simp only [Source.read, Option.getD_none, Option.getD_some, same, and_self]

theorem AESIMC_alias : AESIMC none v = AESIMC (some v) v := by
  have copied : eachLane 16 (fun _ i => lane 8 v i) (0 : BitVec 128) = v := by
    refine ext_lane (w := 8) (m := 16) rfl fun i lt => ?_
    rw [lane_eachLane (by decide) (fun _ _ _ _ _ => rfl) _ (by omega), if_pos lt]
  have same : AESIMC none v = invMixColumns (eachLane 16 (fun _ i => lane 8 v i) 0) v := rfl
  rw [same, copied]
  rfl

theorem AESKEYGENASSIST_alias (ctx : Context) : AESKEYGENASSIST ctx none v = AESKEYGENASSIST ctx (some v) v := by
  have first : eachLaneAt (4 + ·) 4 (fun gx i => look subbytes (lane 8 (Source.read none gx) (4 + i))) v =
      eachLaneAt (4 + ·) 4 (fun _ i => look subbytes (lane 8 v (4 + i))) v := by
    refine eachLaneAt_eq _ fun u i lt untouched => congrArg (look subbytes) ?_
    exact untouched 8 (4 + i) (by omega) fun k before => .inr (lane_end (show 4 + k < 4 + i by omega))
  have second (g : BitVec 128) (kept : ∀ i < 4, lane 8 g (12 + i) = lane 8 v (12 + i)) :
      eachLaneAt (12 + ·) 4 (fun gx i => look subbytes (lane 8 (Source.read none gx) (12 + i))) g =
        eachLaneAt (12 + ·) 4 (fun _ i => look subbytes (lane 8 v (12 + i))) g := by
    refine eachLaneAt_eq _ fun u i lt untouched => congrArg (look subbytes) ?_
    rw [← kept i lt]
    exact untouched 8 (12 + i) (by omega) fun k before => .inr (lane_end (show 12 + k < 12 + i by omega))
  simp only [AESKEYGENASSIST, first]
  rw [second]
  · rfl
  · intro i lt
    exact untouched_eachLaneAt (4 + ·) 4 _ v 8 (12 + i) (by omega) fun k before => .inr (lane_end (show 4 + k < 12 + i by omega))

theorem copyHalves_alias : copyHalves none v = copyHalves (some v) v := by
  simp (disch := decide) only [copyHalves, copyLane, Source.read, Option.getD_none, Option.getD_some, lane_setLane_apart]

theorem unpackHighHalf_alias : unpackHighHalf none v = unpackHighHalf (some v) v := by
  simp (disch := decide) only [unpackHighHalf, moveLane, copyLane, Source.read, Option.getD_none, Option.getD_some,
    lane_setLane_apart]

theorem PUNPCKLDQ_alias : PUNPCKLDQ none v = PUNPCKLDQ (some v) v := by
  simp (disch := decide) only [PUNPCKLDQ, moveLane, copyLane, Source.read, Option.getD_none, Option.getD_some,
    lane_setLane_apart]

theorem PUNPCKHDQ_alias : PUNPCKHDQ none v = PUNPCKHDQ (some v) v := by
  simp (disch := decide) only [PUNPCKHDQ, moveLane, copyLane, Source.read, Option.getD_none, Option.getD_some,
    lane_setLane_apart]

theorem HADDPD_alias (ctx : Context) : HADDPD ctx none v = HADDPD ctx (some v) v := by
  simp only [HADDPD, Option.isNone_none, Option.isNone_some, if_true, Bool.false_eq_true, if_false, moveLane]
  rw [lane_setLane _ _ (by decide)]
  rfl

theorem narrowDoubles_alias (narrow : BitVec 64 → BitVec 32) : narrowDoubles narrow none v = narrowDoubles narrow (some v) v := by
  have first : eachLane 2 (fun gx i => narrow (lane 64 (Source.read none gx) i)) v =
      eachLaneAt id 2 (fun _ i => narrow (lane 64 v i)) v := by
    rw [eachLane_eq_at]
    refine eachLaneAt_eq id fun u i lt untouched => congrArg narrow ?_
    exact untouched 64 i (by omega) fun k before => .inr (by dsimp only [id]; omega)
  rw [narrowDoubles, first]
  rfl

theorem PMULUDQ_alias : PMULUDQ none v = PMULUDQ (some v) v := by
  simp (disch := decide) only [PMULUDQ, Source.read, Option.getD_none, Option.getD_some, lane_setLane_apart]

/-- The sum only depends on its own bytes. -/
theorem sumOfDifferences_congr {n : Nat} {g e e' : BitVec n} {i : Nat} (same : ∀ k < 8, lane 8 e (i + k) = lane 8 e' (i + k)) :
    sumOfDifferences g e i = sumOfDifferences g e' i := by
  refine List.foldl_ext _ _ _ fun sum k inside => ?_
  rw [same k (List.mem_range.mp inside)]

theorem PSADBW_alias : PSADBW none v = PSADBW (some v) v := by
  refine congrArg (setLane _ 1) (sumOfDifferences_congr fun k lt => ?_)
  exact lane_setLane_apart _ _ (by omega) (.inr (by omega))

end Run660F

theorem RunF30F.duplicate_alias (k : Nat) (inside : k < 2) : duplicate k none v = duplicate k (some v) v := by
  have kept (x : BitVec 32) : lane 32 (setLane (setLane v 0 x) 1 x) (2 + k) = lane 32 v (2 + k) := by
    rw [lane_setLane_ne _ _ (by omega) (by omega), lane_setLane_ne _ _ (by omega) (by omega)]
  simp only [duplicate, moveLane, copyLane, Source.read, Option.getD_none, Option.getD_some]
  rw [lane_setLane v _ (by decide), kept]

theorem RunF30F.PSHUFHW_alias (ctx : Context) : PSHUFHW ctx none v = PSHUFHW ctx (some v) v := by
  let pick (i : Nat) : Nat := 4 + ((ctx.imm8 >>> (i * 2)) &&& 3).toNat
  let words (u : BitVec 128) : BitVec 128 := eachLaneAt (4 + ·) 4 (fun _ i => lane 16 v (pick i)) u
  have written (u : BitVec 128) {i : Nat} (lt : i < 4) : lane 16 (words u) (4 + i) = lane 16 v (pick i) :=
    lane_eachLaneAt (4 + ·) (fun i => lane 16 v (pick i)) u lt (fun k _ after => by omega) (by omega)
  change setLane v 1 (lane 64 (words 0) 1) = setLane (words v) 0 (lane 64 v 0)
  have low : lane 64 (setLane (words v) 0 (lane 64 v 0)) 0 = lane 64 v 0 := lane_setLane _ _ (by decide)
  have high : lane 64 (words 0) 1 = lane 64 (words v) 1 := by
    refine ext_lane (w := 16) (m := 4) rfl fun i lt => ?_
    rw [lane_lane _ 1 lt, lane_lane _ 1 lt]
    exact (written 0 lt).trans (written v lt).symm
  apply eq_halves
  · rw [low, lane_setLane_ne _ _ (by decide) (by decide)]
  · rw [lane_setLane _ _ (by decide), lane_setLane_ne _ _ (by decide) (by decide), high]

end Others

namespace Run0F

variable (v : BitVec 64)

theorem PSHUFB_alias : PSHUFB none v = PSHUFB (some v) v := by
  refine eachLane_alias (w := 8) (by decide) (B := fun em gm i =>
    if lane 8 (em.read gm) i &&& 128 ≠ 0 then 0 else lane 8 v (lane 8 (em.read gm) i &&& 7).toNat) fun u i same => ⟨?_, rfl⟩
  exact congrArg (fun x : BitVec 8 => if x &&& 128 ≠ 0 then 0 else lane 8 v (x &&& 7).toNat) same

theorem PUNPCKLBW_alias : PUNPCKLBW none v = PUNPCKLBW (some v) v := by
  simp (disch := decide) only [PUNPCKLBW, moveLane, copyLane, Source.read, Option.getD_none, Option.getD_some,
    lane_setLane_apart]

theorem PUNPCKLWD_alias : PUNPCKLWD none v = PUNPCKLWD (some v) v := by
  simp (disch := decide) only [PUNPCKLWD, moveLane, copyLane, Source.read, Option.getD_none, Option.getD_some,
    lane_setLane_apart]

theorem setLane_lane {n w : Nat} (v : BitVec n) (i : Nat) : setLane v i (lane w v i) = v := by
  apply BitVec.eq_of_getLsbD_eq
  intro j lt
  rw [getLsbD_setLane v i _ lt]
  by_cases inside : w * i ≤ j ∧ j < w * i + w
  · rw [if_pos inside, getLsbD_lane _ _ (by omega), Nat.add_sub_cancel' inside.1]
  · rw [if_neg inside]

theorem PUNPCKHDQ_alias : PUNPCKHDQ none v = PUNPCKHDQ (some v) v := by
  have kept : lane 32 (moveLane 32 0 1 v) 1 = lane 32 v 1 := lane_setLane_apart _ _ (by decide) (by decide)
  have again := setLane_lane (w := 32) (moveLane 32 0 1 v) 1
  rw [kept] at again
  exact again.symm

end Run0F

/-! ### The cases that do not see it -/

section Plain

variable {n : Nat} {opcode : Nat}

theorem plain_toG {f : Source n → BitVec n → BitVec n} (same : ∀ v, f none v = f (some v) v) :
    (SimdCase.toG opcode f).Plain := fun _ v => congrArg some (same v)

theorem plain_store {f : Source n → BitVec n → BitVec n} (same : ∀ v, f none v = f (some v) v) :
    (SimdCase.store opcode f).Plain := fun _ v => congrArg some (same v)

theorem plain_within {f : Context → Source n → BitVec n → BitVec n} (same : ∀ ctx v, f ctx none v = f ctx (some v) v) :
    (SimdCase.within opcode f).Plain := fun ctx v => congrArg some (same ctx v)

theorem plain_shift {f : Source n → BitVec n → Option (BitVec n)} (same : ∀ v, f none v = f (some v) v) :
    (SimdCase.shift opcode f).Plain := fun _ => same

end Plain

namespace Run660F

theorem plain_cases10 : ∀ case ∈ cases10, case.Plain := by
  simp only [cases10, List.forall_mem_cons]
  refine ⟨plain_toG fun _ => rfl,
    plain_store fun _ => rfl,
    plain_toG fun _ => rfl,
    plain_toG unpackHighHalf_alias,
    plain_toG copyHalves_alias,
    plain_store copyHalves_alias,
    plain_within fun _ => mapLanes_alias (by decide) _,
    plain_toG (zipLanes_alias (by decide) _),
    plain_toG (zipLanes_alias (by decide) _),
    plain_toG (zipLanes_alias (by decide) _),
    plain_toG (zipLanes_alias (by decide) _),
    plain_within fun _ => zipLanes_alias (by decide) _,
    plain_within fun _ => zipLanes_alias (by decide) _,
    plain_within fun _ v => narrowDoubles_alias v _,
    plain_within fun _ => mapLanes_alias (by decide) _,
    plain_within fun _ => zipLanes_alias (by decide) _,
    plain_within fun _ => zipLanes_alias (by decide) _,
    plain_within fun _ => zipLanes_alias (by decide) _,
    plain_within fun _ => zipLanes_alias (by decide) _,
    nofun⟩

theorem plain_cases38 : ∀ case ∈ cases38, case.Plain := by
  simp only [cases38, List.forall_mem_cons]
  refine ⟨plain_toG PSHUFB_alias,
    plain_toG (pairLanes_alias (by decide) (by decide) _),
    plain_toG PHADDD_alias,
    plain_toG (pairLanes_alias (by decide) (by decide) _),
    plain_toG (zipLanes_alias (by decide) _),
    plain_toG (pairLanes_alias (by decide) (by decide) _),
    plain_toG (zipLanes_alias (by decide) _),
    plain_toG (zipLanes_alias (by decide) _),
    plain_toG (zipLanes_alias (by decide) _),
    plain_toG (zipLanes_alias (by decide) _),
    plain_within fun ctx v => BLENDVPS_alias v ctx,
    plain_toG (mapLanes_alias (by decide) _),
    plain_toG (mapLanes_alias (by decide) _),
    plain_toG (mapLanes_alias (by decide) _),
    plain_toG (widenLanes_alias (by decide) (by decide) _),
    plain_toG (widenLanes_alias (by decide) (by decide) _),
    plain_toG (widenLanes_alias (by decide) (by decide) _),
    plain_toG (widenLanes_alias (by decide) (by decide) _),
    plain_toG (widenLanes_alias (by decide) (by decide) _),
    plain_toG (widenLanes_alias (by decide) (by decide) _),
    plain_toG (widenLanes_alias (by decide) (by decide) _),
    plain_toG (widenLanes_alias (by decide) (by decide) _),
    plain_toG (widenLanes_alias (by decide) (by decide) _),
    plain_toG (widenLanes_alias (by decide) (by decide) _),
    plain_toG (widenLanes_alias (by decide) (by decide) _),
    plain_toG (widenLanes_alias (by decide) (by decide) _),
    plain_toG (zipLanes_alias (by decide) _),
    plain_toG (zipLanes_alias (by decide) _),
    plain_toG (zipLanes_alias (by decide) _),
    plain_toG (zipLanes_alias (by decide) _),
    plain_toG (zipLanes_alias (by decide) _),
    plain_toG (zipLanes_alias (by decide) _),
    plain_toG (zipLanes_alias (by decide) _),
    plain_toG (zipLanes_alias (by decide) _),
    plain_toG AESIMC_alias,
    nofun⟩

theorem plain_cases3A : ∀ case ∈ cases3A, case.Plain := by
  simp only [cases3A, List.forall_mem_cons]
  refine ⟨plain_within fun _ => mapLanes_alias (by decide) _,
    plain_within fun _ => mapLanes_alias (by decide) _,
    plain_within fun ctx v => PBLENDW_alias v ctx,
    fun _ _ => rfl,
    plain_within fun _ _ => rfl,
    plain_within fun _ _ => rfl,
    plain_within fun ctx v => AESKEYGENASSIST_alias v ctx,
    nofun⟩

theorem plain_cases60 : ∀ case ∈ cases60, case.Plain := by
  simp only [cases60, List.forall_mem_cons]
  refine ⟨plain_toG (unpackLow_alias (by decide)),
    plain_toG (unpackLow_alias (by decide)),
    plain_toG PUNPCKLDQ_alias,
    plain_toG (packLanes_alias (by decide) (by decide) (by decide) (by decide) _),
    plain_toG (zipLanes_alias (by decide) _),
    plain_toG (zipLanes_alias (by decide) _),
    plain_toG (zipLanes_alias (by decide) _),
    plain_toG (packLanes_alias (by decide) (by decide) (by decide) (by decide) _),
    plain_toG (unpackHigh_alias (by decide)),
    plain_toG (unpackHigh_alias (by decide)),
    plain_toG PUNPCKHDQ_alias,
    plain_toG (packLanes_alias (by decide) (by decide) (by decide) (by decide) _),
    plain_toG fun _ => rfl,
    plain_toG unpackHighHalf_alias,
    plain_toG copyHalves_alias,
    plain_within fun _ _ => rfl,
    plain_toG (zipLanes_alias (by decide) _),
    plain_toG (zipLanes_alias (by decide) _),
    plain_toG (zipLanes_alias (by decide) _),
    plain_within fun ctx v => HADDPD_alias v ctx,
    plain_store copyHalves_alias,
    nofun⟩

theorem plain_casesC0 : ∀ case ∈ casesC0, case.Plain := by
  simp only [casesC0, List.forall_mem_cons]
  refine ⟨plain_within fun _ => zipLanes_alias (by decide) _,
    plain_within fun _ _ => rfl,
    plain_shift fun _ => rfl,
    plain_shift fun _ => rfl,
    plain_shift fun _ => rfl,
    plain_toG (zipLanes_alias (by decide) _),
    plain_toG (zipLanes_alias (by decide) _),
    plain_store fun _ => rfl,
    plain_toG (zipLanes_alias (by decide) _),
    plain_toG (zipLanes_alias (by decide) _),
    plain_toG (zipLanes_alias (by decide) _),
    plain_toG (zipLanes_alias (by decide) _),
    plain_toG (zipLanes_alias (by decide) _),
    plain_toG (zipLanes_alias (by decide) _),
    plain_toG (zipLanes_alias (by decide) _),
    plain_toG (zipLanes_alias (by decide) _),
    nofun⟩

theorem plain_casesE0 : ∀ case ∈ casesE0, case.Plain := by
  simp only [casesE0, List.forall_mem_cons]
  refine ⟨plain_toG (zipLanes_alias (by decide) _),
    plain_shift fun _ => rfl,
    plain_shift fun _ => rfl,
    plain_toG (zipLanes_alias (by decide) _),
    plain_toG (zipLanes_alias (by decide) _),
    plain_toG (zipLanes_alias (by decide) _),
    plain_within fun _ v => narrowDoubles_alias v _,
    plain_store copyHalves_alias,
    plain_toG (zipLanes_alias (by decide) _),
    plain_toG (zipLanes_alias (by decide) _),
    plain_toG (zipLanes_alias (by decide) _),
    plain_toG (zipLanes_alias (by decide) _),
    plain_toG (zipLanes_alias (by decide) _),
    plain_toG (zipLanes_alias (by decide) _),
    plain_toG (zipLanes_alias (by decide) _),
    plain_toG (zipLanes_alias (by decide) _),
    nofun⟩

theorem plain_casesF0 : ∀ case ∈ casesF0, case.Plain := by
  simp only [casesF0, List.forall_mem_cons]
  refine ⟨plain_shift fun _ => rfl,
    plain_shift fun _ => rfl,
    plain_shift fun _ => rfl,
    plain_toG PMULUDQ_alias,
    plain_toG (zipLanes_alias (by decide) _),
    plain_toG PSADBW_alias,
    plain_toG (zipLanes_alias (by decide) _),
    plain_toG (zipLanes_alias (by decide) _),
    plain_toG (zipLanes_alias (by decide) _),
    plain_toG (zipLanes_alias (by decide) _),
    plain_toG (zipLanes_alias (by decide) _),
    plain_toG (zipLanes_alias (by decide) _),
    plain_toG (zipLanes_alias (by decide) _),
    nofun⟩

end Run660F

namespace Run0F

theorem plain_mmxCases38 : ∀ case ∈ mmxCases38, case.Plain := by
  simp only [mmxCases38, List.forall_mem_cons]
  refine ⟨plain_toG PSHUFB_alias,
    plain_toG (zipLanes_alias (by decide) _),
    plain_toG (zipLanes_alias (by decide) _),
    plain_toG (mapLanes_alias (by decide) _),
    plain_toG (mapLanes_alias (by decide) _),
    plain_toG (mapLanes_alias (by decide) _),
    nofun⟩

theorem plain_mmxCases60 : ∀ case ∈ mmxCases60, case.Plain := by
  simp only [mmxCases60, List.forall_mem_cons]
  refine ⟨plain_toG PUNPCKLBW_alias,
    plain_toG PUNPCKLWD_alias,
    plain_toG fun _ => rfl,
    plain_toG (packLanesMmx_alias (by decide) (by decide) (by decide) (by decide) _),
    plain_toG (zipLanes_alias (by decide) _),
    plain_toG (zipLanes_alias (by decide) _),
    plain_toG (zipLanes_alias (by decide) _),
    plain_toG (packLanesMmx_alias (by decide) (by decide) (by decide) (by decide) _),
    plain_toG (unpackHigh_alias (by decide)),
    plain_toG (unpackHigh_alias (by decide)),
    plain_toG PUNPCKHDQ_alias,
    plain_toG (packLanesMmx_alias (by decide) (by decide) (by decide) (by decide) _),
    plain_toG fun _ => rfl,
    plain_within fun _ _ => rfl,
    plain_toG (zipLanes_alias (by decide) _),
    plain_toG (zipLanes_alias (by decide) _),
    plain_toG (zipLanes_alias (by decide) _),
    plain_store fun _ => rfl,
    nofun⟩

theorem plain_mmxCasesD0 : ∀ case ∈ mmxCasesD0, case.Plain := by
  simp only [mmxCasesD0, List.forall_mem_cons]
  refine ⟨plain_shift fun _ => rfl,
    plain_shift fun _ => rfl,
    plain_shift fun _ => rfl,
    plain_toG (zipLanes_alias (by decide) _),
    plain_toG (zipLanes_alias (by decide) _),
    plain_toG (zipLanes_alias (by decide) _),
    plain_toG (zipLanes_alias (by decide) _),
    plain_toG (zipLanes_alias (by decide) _),
    plain_toG (zipLanes_alias (by decide) _),
    plain_toG (zipLanes_alias (by decide) _),
    plain_toG (zipLanes_alias (by decide) _),
    plain_toG (zipLanes_alias (by decide) _),
    plain_toG (zipLanes_alias (by decide) _),
    plain_shift fun _ => rfl,
    plain_shift fun _ => rfl,
    plain_toG (zipLanes_alias (by decide) _),
    plain_toG (zipLanes_alias (by decide) _),
    plain_toG (zipLanes_alias (by decide) _),
    plain_toG (zipLanes_alias (by decide) _),
    plain_toG (zipLanes_alias (by decide) _),
    plain_toG (zipLanes_alias (by decide) _),
    plain_toG (zipLanes_alias (by decide) _),
    plain_toG (zipLanes_alias (by decide) _),
    plain_toG (zipLanes_alias (by decide) _),
    nofun⟩

theorem plain_mmxCasesF0 : ∀ case ∈ mmxCasesF0, case.Plain := by
  simp only [mmxCasesF0, List.forall_mem_cons]
  refine ⟨plain_shift fun _ => rfl,
    plain_shift fun _ => rfl,
    plain_shift fun _ => rfl,
    plain_toG (zipLanes_alias (by decide) _),
    plain_toG fun _ => rfl,
    plain_toG (zipLanes_alias (by decide) _),
    plain_toG (zipLanes_alias (by decide) _),
    plain_toG (zipLanes_alias (by decide) _),
    plain_toG (zipLanes_alias (by decide) _),
    plain_toG (zipLanes_alias (by decide) _),
    plain_toG (zipLanes_alias (by decide) _),
    nofun⟩

theorem plain_sseCases10 : ∀ case ∈ sseCases10, case.Plain := by
  simp only [sseCases10, List.forall_mem_cons]
  refine ⟨plain_toG fun _ => rfl,
    plain_store fun _ => rfl,
    plain_toG fun _ => rfl,
    plain_store fun _ => rfl,
    plain_toG Run660F.PUNPCKLDQ_alias,
    plain_toG Run660F.PUNPCKHDQ_alias,
    plain_toG fun _ => rfl,
    plain_store fun _ => rfl,
    plain_toG Run660F.copyHalves_alias,
    plain_store Run660F.copyHalves_alias,
    plain_store Run660F.copyHalves_alias,
    nofun⟩

theorem plain_sseCases50 : ∀ case ∈ sseCases50, case.Plain := by
  simp only [sseCases50, List.forall_mem_cons]
  refine ⟨plain_within fun _ => mapLanes_alias (by decide) _,
    plain_within fun _ => mapLanes_alias (by decide) _,
    plain_within fun _ => mapLanes_alias (by decide) _,
    plain_toG (zipLanes_alias (by decide) _),
    plain_toG (zipLanes_alias (by decide) _),
    plain_toG (zipLanes_alias (by decide) _),
    plain_toG (zipLanes_alias (by decide) _),
    plain_within fun _ => zipLanes_alias (by decide) _,
    plain_within fun _ => zipLanes_alias (by decide) _,
    plain_within fun _ => widenLanes_alias (by decide) (by decide) _,
    plain_within fun _ => mapLanes_alias (by decide) _,
    plain_within fun _ => zipLanes_alias (by decide) _,
    plain_within fun _ => zipLanes_alias (by decide) _,
    plain_within fun _ => zipLanes_alias (by decide) _,
    plain_within fun _ => zipLanes_alias (by decide) _,
    plain_within fun _ => zipLanes_alias (by decide) _,
    plain_within fun _ _ => rfl,
    nofun⟩

end Run0F

namespace RunF30F

theorem plain_simdCases : ∀ case ∈ simdCases, case.Plain := by
  simp only [simdCases, List.forall_mem_cons]
  refine ⟨plain_toG fun _ => rfl,
    plain_store fun _ => rfl,
    plain_toG fun v => RunF30F.duplicate_alias v _ (by decide),
    plain_toG fun v => RunF30F.duplicate_alias v _ (by decide),
    plain_within fun _ => mapLanes_alias (by decide) _,
    plain_within fun _ => mapLanes_alias (by decide) _,
    plain_within fun _ => mapLanes_alias (by decide) _,
    plain_within fun _ => zipLanes_alias (by decide) _,
    plain_within fun _ => zipLanes_alias (by decide) _,
    plain_within fun _ => widenLanes_alias (by decide) (by decide) _,
    plain_within fun _ => mapLanes_alias (by decide) _,
    plain_within fun _ => zipLanes_alias (by decide) _,
    plain_within fun _ => zipLanes_alias (by decide) _,
    plain_within fun _ => zipLanes_alias (by decide) _,
    plain_within fun _ => zipLanes_alias (by decide) _,
    plain_toG fun _ => rfl,
    plain_within fun ctx v => PSHUFHW_alias v ctx,
    plain_toG fun _ => rfl,
    plain_store fun _ => rfl,
    plain_within fun _ => zipLanes_alias (by decide) _,
    plain_within fun _ => widenLanes_alias (by decide) (by decide) _,
    nofun⟩

end RunF30F

/-! ### The cases that do -/

namespace Run660F

theorem xorKey_some (key state : BitVec 128) : xorKey (some key) state = state ^^^ key := by
  refine ext_lane (w := 64) (m := 2) rfl fun i lt => ?_
  have lanes := lane_eachLane (w := 64) (m := 2) (f := fun gx i => lane 64 gx i ^^^ lane 64 (Source.read (some key) gx) i)
    (by decide) (fun _ _ i _ same => congrArg (fun x => x ^^^ lane 64 key i) same) state (show 64 * i + 64 ≤ 128 by omega)
  rw [if_pos lt] at lanes
  exact lanes.trans BitVec.extractLsb'_xor.symm

/-- With one register the key is the state itself. -/
theorem xorKey_alias_iff (state v : BitVec 128) : xorKey none state = xorKey (some v) state ↔ state = v := by
  have own : xorKey none state = state ^^^ state := (zipLanes_alias (by decide) _ state).trans (xorKey_some state state)
  rw [own, xorKey_some, BitVec.xor_self, eq_comm, BitVec.xor_eq_zero_iff]

end Run660F

namespace Run0F

theorem PALIGNR_alias_iff (tmp8u : Nat) (v : BitVec 64) : PALIGNR tmp8u none v = PALIGNR tmp8u (some v) v ↔
    (0 < tmp8u → tmp8u < 8 → (v <<< (64 - 8 * tmp8u)) >>> (8 * tmp8u) = v >>> (8 * tmp8u)) := by
  by_cases low : 0 < tmp8u ∧ tmp8u < 8
  · have different := (PALIGNR_iff tmp8u (some v) v).mpr (.inr (.inr ⟨low.1, low.2, .inl nofun⟩))
    rw [different]
    refine (PALIGNR_iff tmp8u none v).trans ?_
    constructor
    · rintro (high | ⟨zero, -⟩ | ⟨-, -, other | same⟩)
      · omega
      · omega
      · exact absurd rfl other
      · exact fun _ _ => same
    · exact fun same => .inr (.inr ⟨low.1, low.2, .inr (same low.1 low.2)⟩)
  · refine iff_of_true ?_ fun pos small => absurd ⟨pos, small⟩ low
    rw [PALIGNR, PALIGNR]
    by_cases high : tmp8u ≥ 16
    · rw [if_pos high, if_pos high]
    by_cases above : tmp8u > 8
    · rw [if_neg high, if_neg high, if_pos above, if_pos above]
    · have rest : tmp8u = 8 ∨ tmp8u = 0 := by omega
      rw [if_neg high, if_neg high, if_neg above, if_neg above, if_pos rest, if_pos rest]

end Run0F

/-! ### Every case -/

/-- The cases of `Run660F`, `Run0F` and `RunF30F` on SSE registers. -/
def sseCases : List (SimdCase 128) := Run660F.simdCases ++ Run0F.sseCases ++ RunF30F.simdCases

namespace SimdCase

/-- Where a case of `sseCases` does not see that source and destination are one register that holds `v`. -/
def SseUnseen (case : SimdCase 128) (v : BitVec 128) : Prop :=
  (case.opcode = 0x38DC → Run660F.aesencState v = v) ∧ (case.opcode = 0x38DD → Run660F.aesenclastState v = v) ∧
    (case.opcode = 0x38DE → Run660F.aesdecState v = v) ∧ (case.opcode = 0x38DF → Run660F.aesdeclastState v = v)

def MmxUnseen (case : SimdCase 64) (tmp8u : Nat) (v : BitVec 64) : Prop :=
  case.opcode = 0x3A0F → 0 < tmp8u → tmp8u < 8 → (v <<< (64 - 8 * tmp8u)) >>> (8 * tmp8u) = v >>> (8 * tmp8u)

section Exec

variable {ι : Type} {n : Nat}

/-- The destination among the registers `G` and `E` of the ModRM byte. -/
def dst (case : SimdCase n) (G E : ι) : ι := if case.toE then E else G

def src (case : SimdCase n) (G E : ι) : ι := if case.toE then G else E

/-- The registers after the case. -/
def exec [DecidableEq ι] (case : SimdCase n) (ctx : Context) (G E : ι) (file : ι → BitVec n) : Option (ι → BitVec n) :=
  let dst := case.dst G E
  let src := case.src G E
  (case.body ctx (if src = dst then none else some (file src)) (file dst)).map (Function.update file dst)

theorem dst_self (case : SimdCase n) (p : ι) : case.dst p p = p := ite_self p

theorem src_self (case : SimdCase n) (p : ι) : case.src p p = p := ite_self p

variable [DecidableEq ι]

theorem exec_dst (case : SimdCase n) (ctx : Context) (G E : ι) (file : ι → BitVec n) :
    (case.exec ctx G E file).map (fun file' => file' (case.dst G E)) =
      case.body ctx (if case.src G E = case.dst G E then none else some (file (case.src G E))) (file (case.dst G E)) := by
  simp only [exec, Option.map_map, Function.comp_def, Function.update_self, Option.map_id']

/-- One register on the left, two on the right. -/
theorem exec_alias_iff {case : SimdCase n} {ctx : Context} {P : BitVec n → Prop}
    (body : ∀ v, case.body ctx none v = case.body ctx (some v) v ↔ P v) {G E : ι} (other : G ≠ E) {file : ι → BitVec n}
    (same : file G = file E) :
    (case.exec ctx (case.dst G E) (case.dst G E) file).map (fun file' => file' (case.dst G E)) =
      (case.exec ctx G E file).map (fun file' => file' (case.dst G E)) ↔ P (file (case.dst G E)) := by
  have one := exec_dst case ctx (case.dst G E) (case.dst G E) file
  rw [dst_self, src_self, if_pos rfl] at one
  rw [one, exec_dst, ← body]
  cases side : case.toE with
  | true => simp only [dst, src, side, if_true, if_neg other, same]
  | false => simp only [dst, src, side, Bool.false_eq_true, if_false, if_neg other.symm, same]

end Exec

section Machine

variable (host : Host) (mxcsr : BitVec 32) (imm8 : BitVec 8)

def execSse (case : SimdCase 128) (G E : Fin 16) (xmm : Fin 16 → BitVec 128) : Option (Fin 16 → BitVec 128) :=
  case.exec ⟨host, mxcsr, imm8, if case.dst G E = 0 then none else some (xmm 0)⟩ G E xmm

def execMmx (case : SimdCase 64) (xmm0 : BitVec 128) (G E : Fin 8) (mmx : Fin 8 → BitVec 64) :
    Option (Fin 8 → BitVec 64) :=
  case.exec ⟨host, mxcsr, imm8, some xmm0⟩ G E mmx

end Machine

/-! ### Which cases see it -/

theorem aes_iff {opcode : Nat} {state : BitVec 128 → BitVec 128} (ctx : Context) (v : BitVec 128) :
    (toG opcode fun ex gx => Run660F.xorKey ex (state gx)).body ctx none v =
      (toG opcode fun ex gx => Run660F.xorKey ex (state gx)).body ctx (some v) v ↔ state v = v :=
  Option.some_inj.trans (Run660F.xorKey_alias_iff (state v) v)

/-- The cases of `sseCases` without those of AES. -/
def plainSse : List (SimdCase 128) :=
  Run660F.cases10 ++ Run660F.cases38 ++ Run660F.cases3A ++ Run660F.cases60 ++ Run660F.casesC0 ++ Run660F.casesE0 ++
    Run660F.casesF0 ++ Run0F.sseCases10 ++ Run0F.sseCases50 ++ RunF30F.simdCases

theorem plain_of_plainSse : ∀ case ∈ plainSse, case.Plain := by
  simp only [plainSse, List.forall_mem_append]
  exact ⟨⟨⟨⟨⟨⟨⟨⟨⟨Run660F.plain_cases10, Run660F.plain_cases38⟩, Run660F.plain_cases3A⟩, Run660F.plain_cases60⟩,
    Run660F.plain_casesC0⟩, Run660F.plain_casesE0⟩, Run660F.plain_casesF0⟩, Run0F.plain_sseCases10⟩,
    Run0F.plain_sseCases50⟩, RunF30F.plain_simdCases⟩

theorem mem_sseCases {case : SimdCase 128} (known : case ∈ sseCases) : case ∈ plainSse ∨ case ∈ Run660F.casesAes := by
  simp only [sseCases, Run660F.simdCases, Run0F.sseCases, List.mem_append] at known
  simp only [plainSse, List.mem_append]
  tauto

theorem opcode_plainSse : plainSse.all (fun case => case.opcode ∉ [0x38DC, 0x38DD, 0x38DE, 0x38DF]) = true := by decide

theorem sse_iff {case : SimdCase 128} (known : case ∈ sseCases) (ctx : Context) (v : BitVec 128) :
    case.body ctx none v = case.body ctx (some v) v ↔ case.SseUnseen v := by
  obtain plain | aes := mem_sseCases known
  · have free := of_decide_eq_true (List.all_eq_true.mp opcode_plainSse case plain)
    simp only [List.mem_cons, List.not_mem_nil, or_false, not_or] at free
    obtain ⟨enc, encLast, dec, decLast⟩ := free
    refine iff_of_true (plain_of_plainSse case plain ctx v) ⟨fun is => ?_, fun is => ?_, fun is => ?_, fun is => ?_⟩
    · exact absurd is enc
    · exact absurd is encLast
    · exact absurd is dec
    · exact absurd is decLast
  · simp only [Run660F.casesAes, List.mem_cons, List.not_mem_nil, or_false] at aes
    obtain rfl | rfl | rfl | rfl := aes
    · refine (aes_iff ctx v).trans ⟨fun same => ⟨fun _ => same, nofun, nofun, nofun⟩, fun unseen => unseen.1 rfl⟩
    · refine (aes_iff ctx v).trans ⟨fun same => ⟨nofun, fun _ => same, nofun, nofun⟩, fun unseen => unseen.2.1 rfl⟩
    · refine (aes_iff ctx v).trans ⟨fun same => ⟨nofun, nofun, fun _ => same, nofun⟩, fun unseen => unseen.2.2.1 rfl⟩
    · refine (aes_iff ctx v).trans ⟨fun same => ⟨nofun, nofun, nofun, fun _ => same⟩, fun unseen => unseen.2.2.2 rfl⟩

def plainMmx : List (SimdCase 64) := Run0F.mmxCases38 ++ Run0F.mmxCases60 ++ Run0F.mmxCasesD0 ++ Run0F.mmxCasesF0

theorem plain_of_plainMmx : ∀ case ∈ plainMmx, case.Plain := by
  simp only [plainMmx, List.forall_mem_append]
  exact ⟨⟨⟨Run0F.plain_mmxCases38, Run0F.plain_mmxCases60⟩, Run0F.plain_mmxCasesD0⟩, Run0F.plain_mmxCasesF0⟩

theorem mem_mmxCases {case : SimdCase 64} (known : case ∈ Run0F.mmxCases) : case ∈ plainMmx ∨ case ∈ Run0F.mmxCases3A := by
  simp only [Run0F.mmxCases, List.mem_append] at known
  simp only [plainMmx, List.mem_append]
  tauto

theorem opcode_plainMmx : plainMmx.all (fun case => case.opcode ≠ 0x3A0F) = true := by decide

theorem mmx_iff {case : SimdCase 64} (known : case ∈ Run0F.mmxCases) (ctx : Context) (v : BitVec 64) :
    case.body ctx none v = case.body ctx (some v) v ↔ case.MmxUnseen ctx.imm8.toNat v := by
  obtain plain | align := mem_mmxCases known
  · have free := of_decide_eq_true (List.all_eq_true.mp opcode_plainMmx case plain)
    exact iff_of_true (plain_of_plainMmx case plain ctx v) fun is => absurd is free
  · simp only [Run0F.mmxCases3A, List.mem_singleton] at align
    subst align
    exact (Run0F.PALIGNR_alias_iff ctx.imm8.toNat v).trans ⟨fun same _ => same, fun unseen => unseen rfl⟩

/-- A SIMD instruction gives its destination the same value with one register as with two that hold the same, except the
AES rounds, whose round key is gone by then, and `PALIGNR` of `Run0F` by 1 to 7 bytes. -/
theorem aliasing_iff (host : Host) (mxcsr : BitVec 32) (imm8 : BitVec 8) :
    (∀ case ∈ sseCases, ∀ (xmm : Fin 16 → BitVec 128) (G E : Fin 16), G ≠ E → xmm G = xmm E →
      let dst := case.dst G E
      ((case.execSse host mxcsr imm8 dst dst xmm).map (fun xmm' => xmm' dst) =
        (case.execSse host mxcsr imm8 G E xmm).map (fun xmm' => xmm' dst) ↔ case.SseUnseen (xmm dst))) ∧
    (∀ case ∈ Run0F.mmxCases, ∀ (xmm0 : BitVec 128) (mmx : Fin 8 → BitVec 64) (G E : Fin 8), G ≠ E → mmx G = mmx E →
      let dst := case.dst G E
      ((case.execMmx host mxcsr imm8 xmm0 dst dst mmx).map (fun mmx' => mmx' dst) =
        (case.execMmx host mxcsr imm8 xmm0 G E mmx).map (fun mmx' => mmx' dst) ↔
          case.MmxUnseen imm8.toNat (mmx dst))) := by
  constructor
  · intro case known xmm G E other same dst
    simp only [execSse, dst_self, dst]
    exact exec_alias_iff (sse_iff known _) other same
  · intro case known xmm0 mmx G E other same dst
    exact exec_alias_iff (mmx_iff known _) other same

theorem mem_aesenclast : toG 0x38DD Run660F.AESENCLAST ∈ sseCases := by
  simp only [sseCases, Run660F.simdCases, Run660F.casesAes, List.mem_append, List.mem_cons, true_or, or_true]

theorem aliasing_iff_aesenclast :
    ((toG 0x38DD Run660F.AESENCLAST).execSse default 0 0 1 1 fun _ => 0).map (fun xmm' => xmm' 1) =
      ((toG 0x38DD Run660F.AESENCLAST).execSse default 0 0 1 2 fun _ => 0).map (fun xmm' => xmm' 1) ↔
      (toG 0x38DD Run660F.AESENCLAST).SseUnseen 0 :=
  (aliasing_iff default 0 0).1 _ mem_aesenclast (fun _ => 0) 1 2 (by decide) rfl

/-- `AESENCLAST xmm1, xmm1` of zeros is 0, and `AESENCLAST xmm1, xmm2` is not. -/
theorem aesenclast_loses_key : ¬ ∀ (host : Host) (mxcsr : BitVec 32) (imm8 : BitVec 8),
    (∀ case ∈ sseCases, ∀ (xmm : Fin 16 → BitVec 128) (G E : Fin 16), G ≠ E → xmm G = xmm E →
      let dst := case.dst G E
      (case.execSse host mxcsr imm8 dst dst xmm).map (fun xmm' => xmm' dst) =
        (case.execSse host mxcsr imm8 G E xmm).map (fun xmm' => xmm' dst)) ∧
    (∀ case ∈ Run0F.mmxCases, ∀ (xmm0 : BitVec 128) (mmx : Fin 8 → BitVec 64) (G E : Fin 8), G ≠ E → mmx G = mmx E →
      let dst := case.dst G E
      (case.execMmx host mxcsr imm8 xmm0 dst dst mmx).map (fun mmx' => mmx' dst) =
        (case.execMmx host mxcsr imm8 xmm0 G E mmx).map (fun mmx' => mmx' dst)) := by
  intro same
  have here := (same default 0 0).1 _ mem_aesenclast (fun _ => 0) 1 2 (by decide) rfl
  have unseen := (exec_alias_iff (sse_iff mem_aesenclast _) (show (1 : Fin 16) ≠ 2 by decide) rfl).mp here
  have state : Run660F.aesenclastState 0 = 0 := unseen.2.1 rfl
  have byte : lane 8 (Run660F.aesenclastState 0) 15 = lane 8 (0 : BitVec 128) 15 := congrArg (fun v => lane 8 v 15) state
  exact absurd byte (by decide)

end SimdCase

end Box64.Emu
