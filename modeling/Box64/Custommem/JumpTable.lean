import Mathlib.Logic.Function.Basic
import Mathlib.Data.BitVec

/-!
# The four-level jump table

`custommem.c` maps a 64-bit guest address to a native entry through four tables
of 2^16 entries each. The tables of a level are allocated on the first write below
them; until then every entry points at one shared default table of that level.
-/

namespace Box64.Custommem

abbrev Addr := BitVec 64

/-- An index into one of the tables: `JMPTABL_SHIFT` bits of the address. -/
abbrev JmpIdx := BitVec 16

def idx3 (addr : Addr) : JmpIdx := (addr >>> 48).setWidth 16
def idx2 (addr : Addr) : JmpIdx := (addr >>> 32).setWidth 16
def idx1 (addr : Addr) : JmpIdx := (addr >>> 16).setWidth 16
def idx0 (addr : Addr) : JmpIdx := addr.setWidth 16

theorem idx_injective {a b : Addr} (h3 : idx3 a = idx3 b) (h2 : idx2 a = idx2 b)
    (h1 : idx1 a = idx1 b) (h0 : idx0 a = idx0 b) : a = b := by
  simp only [idx3, idx2, idx1, idx0, ← BitVec.toNat_inj, BitVec.toNat_setWidth,
    BitVec.toNat_ushiftRight, Nat.shiftRight_eq_div_pow] at *
  have ha := a.isLt
  have hb := b.isLt
  omega

/-- `box64_jmptbl3` and the tables hanging from it. A pointer to a table is a number: `0` is the
shared default table of the level, and `fresh` is the next pointer `malloc` returns. -/
structure JumpTable where
  jmptbl3 : JmpIdx → Nat
  level2 : Nat → JmpIdx → Nat
  level1 : Nat → JmpIdx → Nat
  level0 : Nat → JmpIdx → Addr
  fresh : Nat

namespace JumpTable

open Function (update)

variable (nativeNext : Addr)

/-- The tables after `init_custommem_helper`. -/
def initial : JumpTable where
  jmptbl3 _ := 0
  level2 _ _ := 0
  level1 _ _ := 0
  level0 _ _ := nativeNext
  fresh := 1

/-- The first allocation of `addJumpTableIfDefault64`. -/
def alloc2 (t : JumpTable) (i3 : JmpIdx) : JumpTable :=
  if t.jmptbl3 i3 = 0 then
    { t with
      jmptbl3 := update t.jmptbl3 i3 t.fresh
      level2 := update t.level2 t.fresh (fun _ => 0)
      fresh := t.fresh + 1 }
  else t

/-- The second allocation, of a table in `level1`. -/
def alloc1 (t : JumpTable) (i3 i2 : JmpIdx) : JumpTable :=
  let p := t.jmptbl3 i3
  if t.level2 p i2 = 0 then
    { t with
      level2 := update t.level2 p (update (t.level2 p) i2 t.fresh)
      level1 := update t.level1 t.fresh (fun _ => 0)
      fresh := t.fresh + 1 }
  else t

/-- The third allocation, of a table of native entries. -/
def alloc0 (t : JumpTable) (i3 i2 i1 : JmpIdx) : JumpTable :=
  let p := t.level2 (t.jmptbl3 i3) i2
  if t.level1 p i1 = 0 then
    { t with
      level1 := update t.level1 p (update (t.level1 p) i1 t.fresh)
      level0 := update t.level0 t.fresh (fun _ => nativeNext)
      fresh := t.fresh + 1 }
  else t

/-- The table of native entries that serves `addr`. -/
def leaf (t : JumpTable) (addr : Addr) : Nat :=
  t.level1 (t.level2 (t.jmptbl3 (idx3 addr)) (idx2 addr)) (idx1 addr)

/-- The native entry reached for `addr`. -/
def entry (t : JumpTable) (addr : Addr) : Addr := t.level0 (t.leaf addr) (idx0 addr)

/-- The three allocations, as `addJumpTableIfDefault64` and `getJumpTableAddress64` make them. -/
def allocPath (t : JumpTable) (addr : Addr) : JumpTable :=
  alloc0 nativeNext (alloc1 (alloc2 t (idx3 addr)) (idx3 addr) (idx2 addr))
    (idx3 addr) (idx2 addr) (idx1 addr)

/-- Write the word `box64_jmptbl3[idx3][idx2][idx1][idx0]`. -/
def store (t : JumpTable) (addr jmp : Addr) : JumpTable :=
  { t with level0 := update t.level0 (t.leaf addr) (update (t.level0 (t.leaf addr)) (idx0 addr) jmp) }

def addJumpTableIfDefault64 (t : JumpTable) (addr jmp : Addr) : JumpTable :=
  let t := allocPath nativeNext t addr
  if t.entry addr = nativeNext then t.store addr jmp else t

def setJumpTableDefault64 (t : JumpTable) (addr : Addr) : JumpTable :=
  if t.jmptbl3 (idx3 addr) = 0 then t
  else if t.level2 (t.jmptbl3 (idx3 addr)) (idx2 addr) = 0 then t
  else if t.leaf addr = 0 then t
  else if t.entry addr = nativeNext then t
  else t.store addr nativeNext

def isJumpTableDefault64 (t : JumpTable) (addr : Addr) : Bool :=
  if t.jmptbl3 (idx3 addr) = 0 then true
  else if t.level2 (t.jmptbl3 (idx3 addr)) (idx2 addr) = 0 then true
  else if t.leaf addr = 0 then true
  else t.entry addr = nativeNext

/-- Tables that are shared or not yet allocated hold the default of their level, and
no other table is reached through two different entries. -/
structure WellFormed (t : JumpTable) : Prop where
  pos : 0 < t.fresh
  default2 : ∀ p i, p = 0 ∨ t.fresh ≤ p → t.level2 p i = 0
  default1 : ∀ p i, p = 0 ∨ t.fresh ≤ p → t.level1 p i = 0
  default0 : ∀ p i, p = 0 ∨ t.fresh ≤ p → t.level0 p i = nativeNext
  below3 : ∀ i, t.jmptbl3 i < t.fresh
  below2 : ∀ p i, t.level2 p i < t.fresh
  below1 : ∀ p i, t.level1 p i < t.fresh
  inj3 : ∀ i j, t.jmptbl3 i ≠ 0 → t.jmptbl3 i = t.jmptbl3 j → i = j
  inj2 : ∀ p q i j, t.level2 p i ≠ 0 → t.level2 p i = t.level2 q j → p = q ∧ i = j
  inj1 : ∀ p q i j, t.level1 p i ≠ 0 → t.level1 p i = t.level1 q j → p = q ∧ i = j

variable {nativeNext} {t : JumpTable}

theorem initial_wellFormed : WellFormed nativeNext (initial nativeNext) where
  pos := Nat.one_pos
  default2 _ _ _ := rfl
  default1 _ _ _ := rfl
  default0 _ _ _ := rfl
  below3 _ := Nat.one_pos
  below2 _ _ := Nat.one_pos
  below1 _ _ := Nat.one_pos
  inj3 _ _ h := absurd rfl h
  inj2 _ _ _ _ h := absurd rfl h
  inj1 _ _ _ _ h := absurd rfl h

/-! ### Pointing an entry at a fresh table -/

/-- Updating one entry to an unused pointer keeps all entries below the next one. -/
theorem update_below {ι : Type*} [DecidableEq ι] {f : ι → Nat} {n : Nat}
    (below : ∀ i, f i < n) (i j : ι) : update f i n j < n + 1 := by
  by_cases same : j = i
  · subst same; simp
  · rw [Function.update_of_ne same]
    exact Nat.lt_succ_of_lt (below j)

theorem update_injective {ι : Type*} [DecidableEq ι] {f : ι → Nat} {n : Nat}
    (below : ∀ i, f i < n) (inj : ∀ i j, f i ≠ 0 → f i = f j → i = j) {k : ι} (i j : ι)
    (present : update f k n i ≠ 0) (same : update f k n i = update f k n j) : i = j := by
  by_cases hi : i = k <;> by_cases hj : j = k
  · exact hi.trans hj.symm
  · subst hi
    rw [Function.update_self, Function.update_of_ne hj] at same
    exact absurd same.symm (Nat.ne_of_lt (below j))
  · subst hj
    rw [Function.update_self, Function.update_of_ne hi] at same
    exact absurd same (Nat.ne_of_lt (below i))
  · rw [Function.update_of_ne hi] at present
    rw [Function.update_of_ne hi, Function.update_of_ne hj] at same
    exact inj i j present same

/-- Filling an unallocated table with its default changes nothing. -/
theorem update_default {β : Type*} {f : Nat → JmpIdx → β} {n : Nat} {d : β}
    (default : ∀ p i, p = 0 ∨ n ≤ p → f p i = d) : update f n (fun _ => d) = f := by
  funext p i
  by_cases same : p = n
  · subst same; simp [default p i (Or.inr (Nat.le_refl _))]
  · rw [Function.update_of_ne same]

theorem alloc2_eq (wf : WellFormed nativeNext t) {i3 : JmpIdx} (absent : t.jmptbl3 i3 = 0) :
    alloc2 t i3 = { t with jmptbl3 := update t.jmptbl3 i3 t.fresh, fresh := t.fresh + 1 } := by
  simp only [alloc2, if_pos absent, update_default wf.default2]

theorem alloc1_eq (wf : WellFormed nativeNext t) {i3 i2 : JmpIdx}
    (absent : t.level2 (t.jmptbl3 i3) i2 = 0) :
    alloc1 t i3 i2 = { t with
      level2 := update t.level2 (t.jmptbl3 i3) (update (t.level2 (t.jmptbl3 i3)) i2 t.fresh)
      fresh := t.fresh + 1 } := by
  simp only [alloc1, if_pos absent, update_default wf.default1]

theorem alloc0_eq (wf : WellFormed nativeNext t) {i3 i2 i1 : JmpIdx}
    (absent : t.level1 (t.level2 (t.jmptbl3 i3) i2) i1 = 0) :
    alloc0 nativeNext t i3 i2 i1 = { t with
      level1 := update t.level1 (t.level2 (t.jmptbl3 i3) i2)
        (update (t.level1 (t.level2 (t.jmptbl3 i3) i2)) i1 t.fresh)
      fresh := t.fresh + 1 } := by
  simp only [alloc0, if_pos absent, update_default wf.default0]

/-- The curried form in which the tables are stored agrees with one update of a pair. -/
theorem update_curry (f : Nat → JmpIdx → Nat) (p q : Nat) (i j : JmpIdx) (n : Nat) :
    update f p (update (f p) i n) q j = update (fun s : Nat × JmpIdx => f s.1 s.2) (p, i) n (q, j) := by
  by_cases hp : q = p
  · subst hp
    by_cases hi : j = i
    · subst hi; simp
    · simp [Function.update_of_ne hi, Function.update_of_ne (show (q, j) ≠ (q, i) by simp [hi])]
  · simp [Function.update_of_ne hp, Function.update_of_ne (show (q, j) ≠ (p, i) by simp [hp])]

theorem alloc2_wellFormed (wf : WellFormed nativeNext t) (i3 : JmpIdx) :
    WellFormed nativeNext (alloc2 t i3) := by
  by_cases absent : t.jmptbl3 i3 = 0
  · rw [alloc2_eq wf absent]
    obtain ⟨pos, d2, d1, d0, b3, b2, b1, n3, n2, n1⟩ := wf
    exact
      { pos := Nat.succ_pos _
        default2 := fun p i h => d2 p i (h.imp_right Nat.le_of_succ_le)
        default1 := fun p i h => d1 p i (h.imp_right Nat.le_of_succ_le)
        default0 := fun p i h => d0 p i (h.imp_right Nat.le_of_succ_le)
        below3 := update_below b3 i3
        below2 := fun p i => Nat.lt_succ_of_lt (b2 p i)
        below1 := fun p i => Nat.lt_succ_of_lt (b1 p i)
        inj3 := update_injective b3 n3
        inj2 := n2
        inj1 := n1 }
  · rwa [alloc2, if_neg absent]

theorem alloc1_wellFormed (wf : WellFormed nativeNext t) {i3 : JmpIdx} (i2 : JmpIdx)
    (present : t.jmptbl3 i3 ≠ 0) : WellFormed nativeNext (alloc1 t i3 i2) := by
  by_cases absent : t.level2 (t.jmptbl3 i3) i2 = 0
  · rw [alloc1_eq wf absent]
    obtain ⟨pos, d2, d1, d0, b3, b2, b1, n3, n2, n1⟩ := wf
    have below : ∀ s : Nat × JmpIdx, t.level2 s.1 s.2 < t.fresh := fun s => b2 s.1 s.2
    have inj : ∀ s u : Nat × JmpIdx, t.level2 s.1 s.2 ≠ 0 → t.level2 s.1 s.2 = t.level2 u.1 u.2 → s = u :=
      fun s u h e => Prod.ext_iff.mpr (n2 s.1 u.1 s.2 u.2 h e)
    exact
      { pos := Nat.succ_pos _
        default2 := fun p i h => by
          have other : p ≠ t.jmptbl3 i3 := by
            have := b3 i3
            dsimp only at h
            omega
          dsimp only
          rw [Function.update_of_ne other]
          exact d2 p i (h.imp_right Nat.le_of_succ_le)
        default1 := fun p i h => d1 p i (h.imp_right Nat.le_of_succ_le)
        default0 := fun p i h => d0 p i (h.imp_right Nat.le_of_succ_le)
        below3 := fun i => Nat.lt_succ_of_lt (b3 i)
        below2 := fun p i => by
          dsimp only
          rw [update_curry]
          exact update_below below _ _
        below1 := fun p i => Nat.lt_succ_of_lt (b1 p i)
        inj3 := n3
        inj2 := fun p q i j h e => by
          simp only [update_curry] at h e
          exact Prod.ext_iff.mp (update_injective below inj _ _ h e)
        inj1 := n1 }
  · rwa [alloc1, if_neg absent]

theorem alloc0_wellFormed (wf : WellFormed nativeNext t) {i3 i2 : JmpIdx} (i1 : JmpIdx)
    (present : t.level2 (t.jmptbl3 i3) i2 ≠ 0) : WellFormed nativeNext (alloc0 nativeNext t i3 i2 i1) := by
  by_cases absent : t.level1 (t.level2 (t.jmptbl3 i3) i2) i1 = 0
  · rw [alloc0_eq wf absent]
    obtain ⟨pos, d2, d1, d0, b3, b2, b1, n3, n2, n1⟩ := wf
    have below : ∀ s : Nat × JmpIdx, t.level1 s.1 s.2 < t.fresh := fun s => b1 s.1 s.2
    have inj : ∀ s u : Nat × JmpIdx, t.level1 s.1 s.2 ≠ 0 → t.level1 s.1 s.2 = t.level1 u.1 u.2 → s = u :=
      fun s u h e => Prod.ext_iff.mpr (n1 s.1 u.1 s.2 u.2 h e)
    exact
      { pos := Nat.succ_pos _
        default2 := fun p i h => d2 p i (h.imp_right Nat.le_of_succ_le)
        default1 := fun p i h => by
          have other : p ≠ t.level2 (t.jmptbl3 i3) i2 := by
            have := b2 (t.jmptbl3 i3) i2
            dsimp only at h
            omega
          dsimp only
          rw [Function.update_of_ne other]
          exact d1 p i (h.imp_right Nat.le_of_succ_le)
        default0 := fun p i h => d0 p i (h.imp_right Nat.le_of_succ_le)
        below3 := fun i => Nat.lt_succ_of_lt (b3 i)
        below2 := fun p i => Nat.lt_succ_of_lt (b2 p i)
        below1 := fun p i => by
          dsimp only
          rw [update_curry]
          exact update_below below _ _
        inj3 := n3
        inj2 := n2
        inj1 := fun p q i j h e => by
          simp only [update_curry] at h e
          exact Prod.ext_iff.mp (update_injective below inj _ _ h e) }
  · rwa [alloc0, if_neg absent]

/-! ### Entries -/

theorem entry_of_leaf_zero (wf : WellFormed nativeNext t) {addr : Addr} (h : t.leaf addr = 0) :
    t.entry addr = nativeNext := by
  rw [entry, h]
  exact wf.default0 0 _ (Or.inl rfl)

theorem leaf_of_jmptbl3_zero (wf : WellFormed nativeNext t) {addr : Addr}
    (h : t.jmptbl3 (idx3 addr) = 0) : t.leaf addr = 0 := by
  rw [leaf, h, wf.default2 0 _ (Or.inl rfl)]
  exact wf.default1 0 _ (Or.inl rfl)

theorem leaf_of_level2_zero (wf : WellFormed nativeNext t) {addr : Addr}
    (h : t.level2 (t.jmptbl3 (idx3 addr)) (idx2 addr) = 0) : t.leaf addr = 0 := by
  rw [leaf, h]
  exact wf.default1 0 _ (Or.inl rfl)

/-- Tables that are not reached through the default tables are reached by one address range only. -/
theorem leaf_injective (wf : WellFormed nativeNext t) {a b : Addr} (present : t.leaf a ≠ 0)
    (same : t.leaf a = t.leaf b) : idx3 a = idx3 b ∧ idx2 a = idx2 b ∧ idx1 a = idx1 b := by
  have present2 : t.level2 (t.jmptbl3 (idx3 a)) (idx2 a) ≠ 0 := mt (leaf_of_level2_zero wf) present
  have present3 : t.jmptbl3 (idx3 a) ≠ 0 := mt (leaf_of_jmptbl3_zero wf) present
  obtain ⟨same1, i1⟩ := wf.inj1 _ _ _ _ present same
  obtain ⟨same2, i2⟩ := wf.inj2 _ _ _ _ present2 same1
  exact ⟨wf.inj3 _ _ present3 same2, i2, i1⟩

theorem entry_alloc2 (wf : WellFormed nativeNext t) (i3 : JmpIdx) (b : Addr) :
    (alloc2 t i3).entry b = t.entry b := by
  by_cases absent : t.jmptbl3 i3 = 0
  · have wf' := alloc2_wellFormed wf i3
    by_cases same : idx3 b = i3
    · subst same
      have fresh : (alloc2 t (idx3 b)).level2 ((alloc2 t (idx3 b)).jmptbl3 (idx3 b)) (idx2 b) = 0 := by
        rw [alloc2_eq wf absent]
        simp only [Function.update_self]
        exact wf.default2 _ _ (Or.inr (Nat.le_refl _))
      rw [entry_of_leaf_zero wf' (leaf_of_level2_zero wf' fresh),
        entry_of_leaf_zero wf (leaf_of_jmptbl3_zero wf absent)]
    · rw [alloc2_eq wf absent]
      simp only [entry, leaf, Function.update_of_ne same]
  · rw [alloc2, if_neg absent]

theorem entry_alloc1 (wf : WellFormed nativeNext t) {i3 : JmpIdx} (i2 : JmpIdx)
    (present : t.jmptbl3 i3 ≠ 0) (b : Addr) : (alloc1 t i3 i2).entry b = t.entry b := by
  by_cases absent : t.level2 (t.jmptbl3 i3) i2 = 0
  · have wf' := alloc1_wellFormed wf i2 present
    by_cases same : (t.jmptbl3 (idx3 b), idx2 b) = (t.jmptbl3 i3, i2)
    · obtain ⟨same3, same2⟩ := Prod.mk.inj same
      have fresh : (alloc1 t i3 i2).leaf b = 0 := by
        rw [alloc1_eq wf absent]
        simp only [leaf, same3, same2, Function.update_self]
        exact wf.default1 _ _ (Or.inr (Nat.le_refl _))
      have old : t.leaf b = 0 := leaf_of_level2_zero wf (by rw [same3, same2]; exact absent)
      rw [entry_of_leaf_zero wf' fresh, entry_of_leaf_zero wf old]
    · rw [alloc1_eq wf absent]
      simp only [entry, leaf, update_curry, Function.update_of_ne same]
  · rw [alloc1, if_neg absent]

theorem entry_alloc0 (wf : WellFormed nativeNext t) {i3 i2 : JmpIdx} (i1 : JmpIdx)
    (b : Addr) : (alloc0 nativeNext t i3 i2 i1).entry b = t.entry b := by
  by_cases absent : t.level1 (t.level2 (t.jmptbl3 i3) i2) i1 = 0
  · rw [alloc0_eq wf absent]
    by_cases same : (t.level2 (t.jmptbl3 (idx3 b)) (idx2 b), idx1 b) = (t.level2 (t.jmptbl3 i3) i2, i1)
    · obtain ⟨same2, same1⟩ := Prod.mk.inj same
      have old : t.leaf b = 0 := by rw [leaf, same2, same1]; exact absent
      rw [entry_of_leaf_zero wf old]
      simp only [entry, leaf, same2, same1, Function.update_self]
      exact wf.default0 _ _ (Or.inr (Nat.le_refl _))
    · simp only [entry, leaf, update_curry, Function.update_of_ne same]
  · rw [alloc0, if_neg absent]

theorem alloc2_present (wf : WellFormed nativeNext t) (i3 : JmpIdx) : (alloc2 t i3).jmptbl3 i3 ≠ 0 := by
  by_cases absent : t.jmptbl3 i3 = 0
  · rw [alloc2_eq wf absent]
    simpa using Nat.ne_of_gt wf.pos
  · rwa [alloc2, if_neg absent]

theorem alloc1_present (wf : WellFormed nativeNext t) (i3 i2 : JmpIdx) :
    (alloc1 t i3 i2).level2 ((alloc1 t i3 i2).jmptbl3 i3) i2 ≠ 0 := by
  by_cases absent : t.level2 (t.jmptbl3 i3) i2 = 0
  · rw [alloc1_eq wf absent]
    simpa using Nat.ne_of_gt wf.pos
  · rwa [alloc1, if_neg absent]

theorem alloc0_present (wf : WellFormed nativeNext t) (i3 i2 i1 : JmpIdx) :
    (alloc0 nativeNext t i3 i2 i1).level1
      ((alloc0 nativeNext t i3 i2 i1).level2 ((alloc0 nativeNext t i3 i2 i1).jmptbl3 i3) i2) i1 ≠ 0 := by
  by_cases absent : t.level1 (t.level2 (t.jmptbl3 i3) i2) i1 = 0
  · rw [alloc0_eq wf absent]
    simpa using Nat.ne_of_gt wf.pos
  · rwa [alloc0, if_neg absent]

/-- After the allocations the tables are well formed, `addr` has a table of its own, and no
entry has changed. -/
theorem allocPath_spec (wf : WellFormed nativeNext t) (addr : Addr) :
    WellFormed nativeNext (allocPath nativeNext t addr) ∧ (allocPath nativeNext t addr).leaf addr ≠ 0 ∧
      ∀ b, (allocPath nativeNext t addr).entry b = t.entry b := by
  have wf2 := alloc2_wellFormed wf (idx3 addr)
  have present2 := alloc2_present wf (idx3 addr)
  have wf1 := alloc1_wellFormed wf2 (idx2 addr) present2
  have present1 := alloc1_present wf2 (idx3 addr) (idx2 addr)
  refine ⟨alloc0_wellFormed wf1 (idx1 addr) present1, alloc0_present wf1 _ _ _, fun b => ?_⟩
  rw [allocPath, entry_alloc0 wf1, entry_alloc1 wf2 _ present2, entry_alloc2 wf]

theorem store_wellFormed (wf : WellFormed nativeNext t) {addr : Addr} (jmp : Addr)
    (present : t.leaf addr ≠ 0) : WellFormed nativeNext (t.store addr jmp) where
  pos := wf.pos
  default2 := wf.default2
  default1 := wf.default1
  default0 p i h := by
    have other : p ≠ t.leaf addr := by
      have below : t.leaf addr < t.fresh := wf.below1 _ _
      have := present
      dsimp only [store] at h
      omega
    dsimp only [store]
    rw [Function.update_of_ne other]
    exact wf.default0 p i h
  below3 := wf.below3
  below2 := wf.below2
  below1 := wf.below1
  inj3 := wf.inj3
  inj2 := wf.inj2
  inj1 := wf.inj1

theorem entry_store (wf : WellFormed nativeNext t) {addr : Addr} (jmp : Addr)
    (present : t.leaf addr ≠ 0) (b : Addr) :
    (t.store addr jmp).entry b = if b = addr then jmp else t.entry b := by
  by_cases same : b = addr
  · subst same
    simp [store, entry, leaf]
  · rw [if_neg same]
    by_cases table : t.leaf b = t.leaf addr
    · obtain ⟨h3, h2, h1⟩ := leaf_injective wf present table.symm
      have other : idx0 b ≠ idx0 addr := fun h0 => same (idx_injective h3.symm h2.symm h1.symm h0)
      change update t.level0 (t.leaf addr) _ (t.leaf b) (idx0 b) = t.level0 (t.leaf b) (idx0 b)
      rw [table, Function.update_self, Function.update_of_ne other]
    · change update t.level0 (t.leaf addr) _ (t.leaf b) (idx0 b) = t.level0 (t.leaf b) (idx0 b)
      rw [Function.update_of_ne table]

/-! ### The operations on the flat map of entries -/

theorem addJumpTableIfDefault64_wellFormed (wf : WellFormed nativeNext t) (addr jmp : Addr) :
    WellFormed nativeNext (addJumpTableIfDefault64 nativeNext t addr jmp) := by
  obtain ⟨wf', present, _⟩ := allocPath_spec wf addr
  unfold addJumpTableIfDefault64
  dsimp only
  split
  · exact store_wellFormed wf' jmp present
  · exact wf'

theorem entry_addJumpTableIfDefault64 (wf : WellFormed nativeNext t) (addr jmp b : Addr) :
    (addJumpTableIfDefault64 nativeNext t addr jmp).entry b =
      if b = addr ∧ t.entry addr = nativeNext then jmp else t.entry b := by
  obtain ⟨wf', present, same⟩ := allocPath_spec wf addr
  unfold addJumpTableIfDefault64
  dsimp only
  rw [same addr]
  by_cases default : t.entry addr = nativeNext
  · rw [if_pos default, entry_store wf' jmp present, same b]
    simp only [default, and_true]
  · rw [if_neg default, same b, if_neg (fun h => default h.2)]

theorem setJumpTableDefault64_wellFormed (wf : WellFormed nativeNext t) (addr : Addr) :
    WellFormed nativeNext (setJumpTableDefault64 nativeNext t addr) := by
  unfold setJumpTableDefault64
  split
  · exact wf
  split
  · exact wf
  split
  · exact wf
  split
  · exact wf
  · exact store_wellFormed wf nativeNext (by assumption)

theorem entry_setJumpTableDefault64 (wf : WellFormed nativeNext t) (addr b : Addr) :
    (setJumpTableDefault64 nativeNext t addr).entry b = if b = addr then nativeNext else t.entry b := by
  have unchanged : t.entry addr = nativeNext → t.entry b = if b = addr then nativeNext else t.entry b := by
    intro default
    by_cases same : b = addr
    · rw [if_pos same, same, default]
    · rw [if_neg same]
  unfold setJumpTableDefault64
  split
  case isTrue h => exact unchanged (entry_of_leaf_zero wf (leaf_of_jmptbl3_zero wf h))
  split
  case isTrue h => exact unchanged (entry_of_leaf_zero wf (leaf_of_level2_zero wf h))
  split
  case isTrue h => exact unchanged (entry_of_leaf_zero wf h)
  split
  case isTrue h => exact unchanged h
  case isFalse => exact entry_store wf nativeNext (by assumption) b

theorem isJumpTableDefault64_iff (wf : WellFormed nativeNext t) (addr : Addr) :
    isJumpTableDefault64 nativeNext t addr = true ↔ t.entry addr = nativeNext := by
  unfold isJumpTableDefault64
  split
  case isTrue h => simp [entry_of_leaf_zero wf (leaf_of_jmptbl3_zero wf h)]
  split
  case isTrue h => simp [entry_of_leaf_zero wf (leaf_of_level2_zero wf h)]
  split
  case isTrue h => simp [entry_of_leaf_zero wf h]
  · simp

end JumpTable

end Box64.Custommem
