import Mathlib.Data.BitVec

/-!
# Lanes of a wide word

A word read and written in lanes, lane 0 lowest. Accesses of different widths may overlap.
-/

namespace Lanes

variable {n w : Nat}

/-- Lane `i` of `w` bits. -/
def lane (w : Nat) (v : BitVec n) (i : Nat) : BitVec w := v.extractLsb' (w * i) w

def setLane (v : BitVec n) (i : Nat) (x : BitVec w) : BitVec n :=
  (v &&& ~~~((BitVec.allOnes w).setWidth n <<< (w * i))) ||| (x.setWidth n <<< (w * i))

theorem getLsbD_lane (v : BitVec n) (i : Nat) {j : Nat} (lt : j < w) :
    (lane w v i).getLsbD j = v.getLsbD (w * i + j) := by
  rw [lane, BitVec.getLsbD_extractLsb', decide_eq_true lt, Bool.true_and]

theorem getLsbD_setLane (v : BitVec n) (i : Nat) (x : BitVec w) {j : Nat} (lt : j < n) :
    (setLane v i x).getLsbD j = if w * i ≤ j ∧ j < w * i + w then x.getLsbD (j - w * i) else v.getLsbD j := by
  simp only [setLane, BitVec.getLsbD_or, BitVec.getLsbD_and, BitVec.getLsbD_not, BitVec.getLsbD_shiftLeft,
    BitVec.getLsbD_setWidth, BitVec.getLsbD_allOnes, decide_eq_true lt, Bool.true_and]
  by_cases below : j < w * i
  · rw [if_neg (by omega), decide_eq_true below]
    simp
  by_cases above : w * i + w ≤ j
  · rw [if_neg (by omega), BitVec.getLsbD_of_ge x _ (by omega), decide_eq_false (show ¬ j - w * i < w by omega)]
    simp
  · have inside : j - w * i < n := by omega
    rw [if_pos (by omega), decide_eq_false below, decide_eq_true inside,
      decide_eq_true (show j - w * i < w by omega)]
    simp

/-- Where lane `i` of `m` ends. -/
theorem lane_end {i m : Nat} (lt : i < m) : w * i + w ≤ w * m :=
  (Nat.mul_succ w i).symm.le.trans (Nat.mul_le_mul_left w lt)

section Access

variable (v : BitVec n) {i : Nat} (x : BitVec w)

theorem lane_setLane (fits : w * i + w ≤ n) : lane w (setLane v i x) i = x := by
  apply BitVec.eq_of_getLsbD_eq
  intro j lt
  rw [getLsbD_lane _ _ lt, getLsbD_setLane v i x (by omega), if_pos (by omega), Nat.add_sub_cancel_left]

/-- Lanes that do not overlap the one written, of any width. -/
theorem lane_setLane_apart {w' j : Nat} (fits : w' * j + w' ≤ n)
    (apart : w' * j + w' ≤ w * i ∨ w * i + w ≤ w' * j) : lane w' (setLane v i x) j = lane w' v j := by
  apply BitVec.eq_of_getLsbD_eq
  intro k lt
  rw [getLsbD_lane _ _ lt, getLsbD_lane _ _ lt, getLsbD_setLane v i x (by omega), if_neg (by omega)]

theorem lane_setLane_ne {j : Nat} (fits : w * j + w ≤ n) (ne : j ≠ i) : lane w (setLane v i x) j = lane w v j := by
  refine lane_setLane_apart v x fits ?_
  obtain below | above := Nat.lt_or_gt_of_ne ne
  · exact .inl (lane_end below)
  · exact .inr (lane_end above)

/-- A lane of a lane. -/
theorem lane_lane {k : Nat} (I : Nat) {i : Nat} (lt : i < k) : lane w (lane (w * k) v I) i = lane w v (k * I + i) := by
  apply BitVec.eq_of_getLsbD_eq
  intro j small
  have inside : w * i + w ≤ w * k := lane_end lt
  rw [getLsbD_lane _ _ small, getLsbD_lane _ _ (by omega), getLsbD_lane _ _ small]
  congr 1
  rw [Nat.mul_add, Nat.mul_assoc, Nat.add_assoc]

end Access

theorem ext_lane {v u : BitVec n} {m : Nat} (width : n = w * m) (same : ∀ i < m, lane w v i = lane w u i) : v = u := by
  apply BitVec.eq_of_getLsbD_eq
  intro j lt
  have pos : 0 < w := Nat.pos_of_ne_zero fun zero => by subst zero; omega
  have here := same (j / w) (Nat.div_lt_of_lt_mul (width ▸ lt))
  have bit := congrArg (fun x => x.getLsbD (j % w)) here
  rwa [getLsbD_lane _ _ (Nat.mod_lt j pos), getLsbD_lane _ _ (Nat.mod_lt j pos), Nat.div_add_mod] at bit

/-! ### Lanes written one after the other -/

/-- Lanes `0` to `m`, each from the word as the lanes before have left it. -/
def eachLane (m : Nat) (f : BitVec n → Nat → BitVec w) (v : BitVec n) : BitVec n :=
  (List.range m).foldl (fun v i => setLane v i (f v i)) v

theorem eachLane_succ (m : Nat) (f : BitVec n → Nat → BitVec w) (v : BitVec n) :
    eachLane (m + 1) f v = setLane (eachLane m f v) m (f (eachLane m f v) m) := by
  rw [eachLane, List.range_succ, List.foldl_append, List.foldl_cons, List.foldl_nil]
  rfl

/-- If each lane is made from itself, the order does not matter. -/
theorem lane_eachLane {f : BitVec n → Nat → BitVec w} {m : Nat} (fits : w * m ≤ n)
    (own : ∀ v u : BitVec n, ∀ i < m, lane w v i = lane w u i → f v i = f u i) (v : BitVec n) {i : Nat}
    (inside : w * i + w ≤ n) : lane w (eachLane m f v) i = if i < m then f v i else lane w v i := by
  induction m generalizing i with
  | zero =>
    rw [if_neg (Nat.not_lt_zero i)]
    rfl
  | succ m ih =>
    have before {j : Nat} (inside : w * j + w ≤ n) :=
      ih (by rw [Nat.mul_succ] at fits; omega) (fun v u i lt => own v u i (by omega)) inside
    rw [Nat.mul_succ] at fits
    rw [eachLane_succ]
    by_cases last : i = m
    · subst last
      rw [lane_setLane _ _ inside, if_pos (Nat.lt_succ_self i)]
      refine own _ _ i (Nat.lt_succ_self i) ?_
      rw [before inside, if_neg (Nat.lt_irrefl i)]
    · rw [lane_setLane_ne _ _ inside last, before inside]
      simp only [Nat.lt_succ_iff_lt_or_eq, last, or_false]

theorem lane_zero (w : Nat) (i : Nat) : lane w (0 : BitVec n) i = 0 := by
  apply BitVec.eq_of_getLsbD_eq
  intro j lt
  rw [getLsbD_lane _ _ lt, BitVec.ofNat_eq_ofNat, BitVec.getLsbD_zero, BitVec.ofNat_eq_ofNat, BitVec.getLsbD_zero]

/-- `eachLane` where a lane may have no value. -/
def eachLane? (m : Nat) (f : BitVec n → Nat → Option (BitVec w)) (v : BitVec n) : Option (BitVec n) :=
  (List.range m).foldlM (fun v i => (f v i).map (setLane v i)) v

theorem eachLane?_some {m : Nat} {f : BitVec n → Nat → Option (BitVec w)} {g : BitVec n → Nat → BitVec w}
    (value : ∀ v i, f v i = some (g v i)) (v : BitVec n) : eachLane? m f v = some (eachLane m g v) := by
  rw [eachLane?, eachLane]
  induction List.range m generalizing v with
  | nil => rfl
  | cons i rest ih =>
    rw [List.foldlM_cons, List.foldl_cons, value]
    exact ih _

theorem eachLane?_none {m : Nat} {f : BitVec n → Nat → Option (BitVec w)} (some_lane : m ≠ 0) {v : BitVec n}
    (first : f v 0 = none) : eachLane? m f v = none := by
  obtain ⟨m, rfl⟩ := Nat.exists_eq_succ_of_ne_zero some_lane
  rw [eachLane?, List.range_succ_eq_map, List.foldlM_cons, first]
  rfl

/-! ### Lanes written at chosen places -/

/-- Lane `place i` for `i = 0` to `m`, each from the word as the lanes before have left it. -/
def eachLaneAt (place : Nat → Nat) (m : Nat) (f : BitVec n → Nat → BitVec w) (v : BitVec n) : BitVec n :=
  (List.range m).foldl (fun v i => setLane v (place i) (f v i)) v

/-- `eachLaneAt` with `i` from `m` down. -/
def eachLaneDown (place : Nat → Nat) (m : Nat) (f : BitVec n → Nat → BitVec w) : BitVec n → BitVec n :=
  eachLaneAt (fun k => place (m - 1 - k)) m fun v k => f v (m - 1 - k)

theorem eachLane_eq_at (m : Nat) (f : BitVec n → Nat → BitVec w) : eachLane m f = eachLaneAt id m f := rfl

theorem eachLaneAt_succ (place : Nat → Nat) (m : Nat) (f : BitVec n → Nat → BitVec w) (v : BitVec n) :
    eachLaneAt place (m + 1) f v = setLane (eachLaneAt place m f v) (place m) (f (eachLaneAt place m f v) m) := by
  simp only [eachLaneAt, List.range_succ, List.foldl_append, List.foldl_cons, List.foldl_nil]

/-- `u` has the bits of `v` where the first `m` places are not, at any width. -/
def Untouched (w : Nat) (place : Nat → Nat) (m : Nat) (v u : BitVec n) : Prop :=
  ∀ w' j, w' * j + w' ≤ n → (∀ i < m, w' * j + w' ≤ w * place i ∨ w * place i + w ≤ w' * j) → lane w' u j = lane w' v j

theorem untouched_eachLaneAt (place : Nat → Nat) (m : Nat) (f : BitVec n → Nat → BitVec w) (v : BitVec n) :
    Untouched w place m v (eachLaneAt place m f v) := by
  intro w' j fits apart
  induction m with
  | zero => rfl
  | succ m ih =>
    rw [eachLaneAt_succ, lane_setLane_apart _ _ fits (apart m (Nat.lt_succ_self m))]
    exact ih fun i lt => apart i (Nat.lt_succ_of_lt lt)

/-- If no lane is made from those written before, all are made from the word at the start. -/
theorem eachLaneAt_eq (place : Nat → Nat) {m : Nat} {f : BitVec n → Nat → BitVec w} {F : Nat → BitVec w} {v : BitVec n}
    (early : ∀ u, ∀ i < m, Untouched w place i v u → f u i = F i) :
    eachLaneAt place m f v = eachLaneAt place m (fun _ i => F i) v := by
  induction m with
  | zero => rfl
  | succ m ih =>
    have before := ih fun u i lt => early u i (Nat.lt_succ_of_lt lt)
    rw [eachLaneAt_succ, eachLaneAt_succ, before]
    congr 1
    exact early _ m (Nat.lt_succ_self m) (untouched_eachLaneAt place m _ v)

theorem lane_eachLaneAt (place : Nat → Nat) {m : Nat} (F : Nat → BitVec w) (v : BitVec n) {i : Nat} (lt : i < m)
    (later : ∀ k < m, i < k → place k ≠ place i) (fits : w * place i + w ≤ n) :
    lane w (eachLaneAt place m (fun _ i => F i) v) (place i) = F i := by
  induction m with
  | zero => exact absurd lt (Nat.not_lt_zero i)
  | succ m ih =>
    rw [eachLaneAt_succ]
    by_cases last : i = m
    · rw [last, lane_setLane _ _ (last ▸ fits)]
    · have before : i < m := by omega
      rw [lane_setLane_ne _ _ fits fun same => later m (Nat.lt_succ_self m) before same.symm]
      exact ih before fun k lt => later k (Nat.lt_succ_of_lt lt)

/-! ### The low lane -/

theorem lane_whole (v : BitVec n) : lane n v 0 = v := by
  apply BitVec.eq_of_getLsbD_eq
  intro j lt
  rw [getLsbD_lane v 0 lt, Nat.mul_zero, Nat.zero_add]

theorem lane_low (k : Nat) (v : BitVec n) : lane k v 0 = v.setWidth k := by
  apply BitVec.eq_of_getLsbD_eq
  intro j lt
  rw [getLsbD_lane v 0 lt, BitVec.getLsbD_setWidth, decide_eq_true lt, Bool.true_and, Nat.mul_zero, Nat.zero_add]

/-- The low lane of a value written leaves what all of it written leaves, exactly if the rest is there. -/
theorem setLane_low_iff (k : Nat) (v x : BitVec n) : setLane v 0 x = setLane v 0 (lane k x 0) ↔ v >>> k = x >>> k := by
  constructor
  · intro same
    apply BitVec.eq_of_getLsbD_eq
    intro i _
    rw [BitVec.getLsbD_ushiftRight, BitVec.getLsbD_ushiftRight]
    by_cases inside : k + i < n
    · have bit := congrArg (fun x => x.getLsbD (k + i)) same
      simp only [getLsbD_setLane _ _ _ inside] at bit
      rw [if_pos (by omega), if_neg (by omega)] at bit
      simpa using bit.symm
    · rw [BitVec.getLsbD_of_ge _ _ (by omega), BitVec.getLsbD_of_ge _ _ (by omega)]
  · intro rest
    apply BitVec.eq_of_getLsbD_eq
    intro i lt
    rw [getLsbD_setLane _ _ _ lt, getLsbD_setLane _ _ _ lt, if_pos (by omega)]
    by_cases low : i < k
    · rw [if_pos (by omega), lane_low, BitVec.getLsbD_setWidth]
      simp [low]
    · have bit := congrArg (fun x => x.getLsbD (i - k)) rest
      have back : k + (i - k) = i := by omega
      simp only [BitVec.getLsbD_ushiftRight, back] at bit
      rw [if_neg (by omega), bit]
      simp

end Lanes
