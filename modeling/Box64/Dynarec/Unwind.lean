import Box64.Dynarec.CacheOps
import Mathlib.Data.List.Perm.Subperm

/-!
# Unwinding an exit cache

`neoncacheUnwind` takes the cache at the end of an instruction back to what it was before it, from what was recorded of the
instruction: the swap, the new slots, the pushes and the pops. The tables of the cache are then built again from its slots.
-/

namespace Box64.Dynarec

open Function (update)

namespace NeonCache

variable (c : NeonCache)

/-- The search of `neoncacheUnwind` for the slots of the registers that were swapped. -/
def findCombined : List (Fin 24) → Option (Fin 24) → Option (Fin 24) → Option (Fin 24) × Option (Fin 24)
  | [], a, b => (a, b)
  | j :: rest, a, b =>
    if a = none ∨ b = none then
      if (c.neoncache j).isST then
        if (c.neoncache j).n.toNat = c.combined1 then findCombined rest (some j) b
        else if (c.neoncache j).n.toNat = c.combined2 then findCombined rest a (some j)
        else findCombined rest a b
      else findCombined rest a b
    else (a, b)

/-- unswap -/
def unwindSwap : NeonCache :=
  if c.swapped then
    let unswapped := match c.findCombined (List.finRange 24) none none with
      | (some a, some b) => c.exchangeSlots a b
      | _ => c
    { unswapped with swapped := false, combined1 := 0, combined2 := 0 }
  else c

/-- The newly created slots are removed. -/
def unwindNews : NeonCache :=
  { c with neoncache := fun i => if c.news i then .empty else c.neoncache i, news := fun _ => false }

/-- unpush -/
def unwindPush : NeonCache :=
  if c.stack_push ≠ 0 then
    { c with
      neoncache := fun j =>
        if (c.neoncache j).isST then
          if ((c.neoncache j).n.toNat : Int) < c.stack_push then .empty
          else { c.neoncache j with n := (c.neoncache j).n - BitVec.ofInt 4 c.stack_push }
        else c.neoncache j
      x87stack := c.x87stack - c.stack_push
      stack := c.stack - c.stack_push
      stack_push := 0 }
  else c

def unwindPop : NeonCache :=
  { c with x87stack := c.x87stack + c.stack_pop, stack_next := c.stack, stack_pop := 0, barrier := false }

/-- The tables before they are built again. -/
def clearTables : NeonCache :=
  { c with
    mmxcount := 0
    x87cache := fun _ => -1
    mmxcache := fun _ => none
    x87reg := fun _ => some XMM0
    ssecache := fun _ => none }

/-- What is built from a slot, with the number of x87 registers that have been seen; nothing where an array is left. -/
def rebuildSlot : NeonCache × Nat → Fin 24 → Option (NeonCache × Nat)
  | (c, x87reg), i =>
    if c.neoncache i ≠ .empty then
      let c := { c with fpuused := update c.fpuused i true }
      let n := (c.neoncache i).n
      match (c.neoncache i).t with
      | .MM =>
        if inside : n.toNat < 8 then
          some ({ c with mmxcache := update c.mmxcache ⟨n.toNat, inside⟩ (some i), mmxcount := c.mmxcount + 1 }, x87reg)
        else none
      | .XMMR => some ({ c with ssecache := update c.ssecache n.toFin (some (i, false)) }, x87reg)
      | .XMMW => some ({ c with ssecache := update c.ssecache n.toFin (some (i, true)) }, x87reg)
      | .ST_F | .ST_D =>
        if inside : x87reg < 8 then
          some ({ c with
            x87cache := update c.x87cache ⟨x87reg, inside⟩ n.toNat
            x87reg := update c.x87reg ⟨x87reg, inside⟩ (some i) }, x87reg + 1)
        else none
      | .SCR => some ({ c with fpuused := update c.fpuused i false, neoncache := update c.neoncache i .empty }, x87reg)
      | .NONE => some (c, x87reg)
    else some ({ c with fpuused := update c.fpuused i false }, x87reg)

/-- And now, rebuild the x87cache info with neoncache. -/
def rebuild : Option NeonCache := (Runs.exec rebuildSlot (c.clearTables, 0) (List.finRange 24)).map (·.1)

/-- `neoncacheUnwind`. -/
def neoncacheUnwind : Option NeonCache := c.unwindSwap.unwindNews.unwindPush.unwindPop.rebuild

/-- The tables say of each slot what it holds, and nothing else. -/
structure Describes : Prop where
  used : ∀ i, c.fpuused i = true ↔ c.neoncache i ≠ .empty
  mmx : ∀ a i, c.mmxcache a = some i ↔ c.neoncache i = ⟨.MM, BitVec.ofNat 4 a⟩
  mmxcount : c.mmxcount = (List.finRange 24).countP fun i => (c.neoncache i).t = .MM
  sse : ∀ a i write,
    c.ssecache a = some (i, write) ↔ c.neoncache i = ⟨if write then .XMMW else .XMMR, BitVec.ofNat 4 a⟩
  x87entry : ∀ k, c.x87cache k ≠ -1 →
    ∃ i, c.x87reg k = some i ∧ (c.neoncache i).isST ∧ c.x87cache k = (c.neoncache i).n.toNat
  x87slot : ∀ i, (c.neoncache i).isST → ∃! k, c.x87cache k ≠ -1 ∧ c.x87reg k = some i

/-- Every register is where it may be, and once: MMX and SSE registers at home, the x87 stack in slots of distinct numbers. -/
structure Placed (slots : Fin 24 → NeonSlot) : Prop where
  none : ∀ i, (slots i).t = .NONE → slots i = .empty
  scr : ∀ i, (slots i).t ≠ .SCR
  mm : ∀ i, (slots i).t = .MM → ∃ a : Fin 8, (slots i).n = BitVec.ofNat 4 a ∧ i = emmReg a
  xmm : ∀ i, (slots i).t = .XMMR ∨ (slots i).t = .XMMW → ∃ a : Fin 16, (slots i).n = BitVec.ofNat 4 a ∧ i = xmmReg a
  st : ∀ i, (slots i).isST → (slots i).n.toNat < 8
  distinct : ∀ i j, (slots i).isST → (slots j).isST → (slots i).n = (slots j).n → i = j

/-- A cache at the start of an instruction. -/
structure Entry : Prop extends Describes c, Placed c.neoncache where
  stack_next : c.stack_next = c.stack
  stack_push : c.stack_push = 0
  stack_pop : c.stack_pop = 0
  news : ∀ i, c.news i = false
  swapped : c.swapped = false

end NeonCache

/-- The same register, but for upgrades from float to double and from read to write. -/
def NeonSlot.Upgrades (s s' : NeonSlot) : Prop :=
  s'.n = s.n ∧ (s'.t = s.t ∨ s.t = .ST_F ∧ s'.t = .ST_D ∨ s.t = .XMMR ∧ s'.t = .XMMW)

namespace NeonCache

/-- `u` is the cache that the instruction started with, up to upgrades. -/
structure Recovers (e u : NeonCache) : Prop where
  slots : ∀ i, (e.neoncache i).Upgrades (u.neoncache i)
  x87stack : u.x87stack = e.x87stack
  stack : u.stack = e.stack
  stack_next : u.stack_next = e.stack_next

end NeonCache

namespace NeonSlot

variable {s s' : NeonSlot}

theorem Upgrades.refl (s : NeonSlot) : s.Upgrades s := ⟨rfl, .inl rfl⟩

/-- Types but the upgraded ones stay what they are. -/
theorem Upgrades.type (up : s.Upgrades s') {t : CacheType} (other : t ≠ .ST_D ∧ t ≠ .XMMW) (here : s'.t = t) : s.t = t := by
  obtain ⟨-, same | ⟨-, double⟩ | ⟨-, write⟩⟩ := up
  · exact same.symm.trans here
  · exact absurd (here.symm.trans double) other.1
  · exact absurd (here.symm.trans write) other.2

theorem Upgrades.isST_iff (up : s.Upgrades s') : s'.isST ↔ s.isST := by
  obtain ⟨-, same | ⟨single, double⟩ | ⟨read, write⟩⟩ := up
  · rw [isST, isST, same]
  · simp [isST, single, double]
  · simp [isST, read, write]

theorem Upgrades.xmm (up : s.Upgrades s') (here : s'.t = .XMMR ∨ s'.t = .XMMW) : s.t = .XMMR ∨ s.t = .XMMW := by
  obtain ⟨-, same | ⟨-, double⟩ | ⟨read, -⟩⟩ := up
  · rwa [← same]
  · simp [double] at here
  · exact .inl read

/-- Nothing but an empty slot becomes one. -/
theorem Upgrades.empty (up : s.Upgrades .empty) : s = .empty := by
  have none : s.t = .NONE := up.type (by decide) rfl
  obtain ⟨t, n⟩ := s
  obtain rfl : t = .NONE := none
  exact congrArg _ up.1.symm

end NeonSlot

namespace NeonCache

section Rebuild

/-- A cache less its tables. -/
def bare (c : NeonCache) : NeonCache := { c.clearTables with fpuused := fun _ => false }

/-- The slots of the x87 stack in a list. -/
def stSlots (slots : Fin 24 → NeonSlot) (l : List (Fin 24)) : List (Fin 24) := l.filter fun i => (slots i).isST

variable {slots : Fin 24 → NeonSlot} {done rest : List (Fin 24)} {i : Fin 24}

theorem stSlots_snoc (st : (slots i).isST) : stSlots slots (done ++ [i]) = stSlots slots done ++ [i] := by
  rw [stSlots, stSlots, List.filter_append, List.filter_cons_of_pos (by simpa using st), List.filter_nil]

theorem stSlots_snoc_of_not (other : ¬ (slots i).isST) : stSlots slots (done ++ [i]) = stSlots slots done := by
  rw [stSlots, stSlots, List.filter_append, List.filter_cons_of_neg (by simpa using other), List.filter_nil, List.append_nil]

/-- The numbers of the x87 stack are below 8 and distinct, so there are 8 slots of it at most. -/
theorem Placed.stSlots_length (placed : Placed slots) : (stSlots slots (List.finRange 24)).length ≤ 8 := by
  have member : ∀ i ∈ stSlots slots (List.finRange 24), (slots i).isST := by
    intro i listed
    exact of_decide_eq_true (List.mem_filter.mp listed).2
  have numbers : ((stSlots slots (List.finRange 24)).map fun i => (slots i).n.toNat).Nodup := by
    refine List.Nodup.map_on ?_ ((List.nodup_finRange 24).filter _)
    intro i first j second same
    exact placed.distinct i j (member i first) (member j second) (BitVec.eq_of_toNat_eq same)
  have below : ((stSlots slots (List.finRange 24)).map fun i => (slots i).n.toNat) ⊆ List.range 8 := by
    intro n listed
    obtain ⟨i, listed_i, rfl⟩ := List.mem_map.mp listed
    exact List.mem_range.mpr (placed.st i (member i listed_i))
  have fits := (List.subperm_of_subset numbers below).length_le
  rwa [List.length_map, List.length_range] at fits

/-- What the tables hold when the slots `done` have been read. -/
structure Rebuilt (slots : Fin 24 → NeonSlot) (base : NeonCache) (done : List (Fin 24)) (s : NeonCache × Nat) : Prop where
  bare : s.1.bare = base
  held : s.1.neoncache = slots
  used : ∀ i ∈ done, s.1.fpuused i = true ↔ slots i ≠ .empty
  mmx : ∀ a i, s.1.mmxcache a = some i ↔ i ∈ done ∧ slots i = ⟨.MM, BitVec.ofNat 4 a⟩
  mmxcount : s.1.mmxcount = done.countP fun i => (slots i).t = .MM
  sse : ∀ a i write,
    s.1.ssecache a = some (i, write) ↔ i ∈ done ∧ slots i = ⟨if write then .XMMW else .XMMR, BitVec.ofNat 4 a⟩
  count : s.2 = (stSlots slots done).length
  listed : ∀ (k : Fin 8) i, (stSlots slots done)[(k : Nat)]? = some i →
    s.1.x87reg k = some i ∧ s.1.x87cache k = (slots i).n.toNat
  unlisted : ∀ k : Fin 8, (stSlots slots done).length ≤ k → s.1.x87cache k = -1

theorem mem_snoc_and {p : Fin 24 → Prop} (other : ¬ p i) (j : Fin 24) : j ∈ done ++ [i] ∧ p j ↔ j ∈ done ∧ p j := by
  constructor
  · rintro ⟨member, holds⟩
    obtain member | last := List.mem_append.mp member
    · exact ⟨member, holds⟩
    · cases List.mem_singleton.mp last
      exact absurd holds other
  · rintro ⟨member, holds⟩
    exact ⟨List.mem_append_left _ member, holds⟩

theorem update_used {used : Fin 24 → Bool} (before : ∀ j ∈ done, used j = true ↔ slots j ≠ .empty) {b : Bool}
    (here : b = true ↔ slots i ≠ .empty) : ∀ j ∈ done ++ [i], update used i b j = true ↔ slots j ≠ .empty := by
  intro j member
  by_cases same : j = i
  · subst same
    rw [Function.update_self]
    exact here
  · rw [Function.update_of_ne same]
    obtain member | last := List.mem_append.mp member
    · exact before j member
    · exact absurd (List.mem_singleton.mp last) same

/-- A register found at home is found nowhere else, so that its entry of a table is written once. -/
theorem update_home {α β : Type} [DecidableEq α] {table : α → Option β} {k : β → Fin 24} {p : α → β → Prop}
    (a₀ : α) (b₀ : β)
    (before : ∀ a b, table a = some b ↔ k b ∈ done ∧ p a b) (home : k b₀ = i) (holds : p a₀ b₀)
    (once : ∀ a b, k b = i → p a b → a = a₀ ∧ b = b₀) (apart : ∀ b, p a₀ b → k b = i) :
    ∀ a b, update table a₀ (some b₀) a = some b ↔ k b ∈ done ++ [i] ∧ p a b := by
  intro a b
  rw [List.mem_append, List.mem_singleton]
  by_cases same : a = a₀
  · subst same
    rw [Function.update_self, Option.some_inj]
    constructor
    · rintro rfl
      exact ⟨.inr home, holds⟩
    · rintro ⟨-, other⟩
      exact (once a b (apart b other) other).2.symm
  · rw [Function.update_of_ne same, before]
    constructor
    · rintro ⟨member, other⟩
      exact ⟨.inl member, other⟩
    · rintro ⟨member | last, other⟩
      · exact ⟨member, other⟩
      · exact absurd (once a b last other).1 same

namespace Rebuilt

variable {base : NeonCache} {s : NeonCache × Nat} (built : Rebuilt slots base done s)

include built

theorem mmx_other (other : (slots i).t ≠ .MM) (a : Fin 8) (j : Fin 24) :
    s.1.mmxcache a = some j ↔ j ∈ done ++ [i] ∧ slots j = ⟨.MM, BitVec.ofNat 4 a⟩ := by
  have differs : slots i ≠ ⟨.MM, BitVec.ofNat 4 a⟩ := fun same => other (congrArg NeonSlot.t same)
  exact (built.mmx a j).trans (mem_snoc_and (p := fun j => slots j = ⟨.MM, BitVec.ofNat 4 a⟩) differs j).symm

theorem mmxcount_other (other : (slots i).t ≠ .MM) : s.1.mmxcount = (done ++ [i]).countP fun i => (slots i).t = .MM := by
  rw [built.mmxcount, List.countP_append, List.countP_singleton, if_neg (by simpa using other), Nat.add_zero]

theorem sse_other (other : (slots i).t ≠ .XMMR ∧ (slots i).t ≠ .XMMW) (a : Fin 16) (j : Fin 24) (write : Bool) :
    s.1.ssecache a = some (j, write) ↔
      j ∈ done ++ [i] ∧ slots j = ⟨if write then .XMMW else .XMMR, BitVec.ofNat 4 a⟩ := by
  have differs : slots i ≠ ⟨if write then .XMMW else .XMMR, BitVec.ofNat 4 a⟩ := by
    intro same
    cases write
    · exact other.1 (congrArg NeonSlot.t same)
    · exact other.2 (congrArg NeonSlot.t same)
  exact (built.sse a j write).trans
    (mem_snoc_and (p := fun j => slots j = ⟨if write then .XMMW else .XMMR, BitVec.ofNat 4 a⟩) differs j).symm

theorem used_here {t : CacheType} (here : (slots i).t = t) (some_type : t ≠ .NONE) :
    ∀ j ∈ done ++ [i], update s.1.fpuused i true j = true ↔ slots j ≠ .empty := by
  have kept : slots i ≠ .empty := fun same => some_type (here.symm.trans (congrArg NeonSlot.t same))
  exact update_used built.used (iff_of_true rfl kept)

/-- A slot of no register. -/
theorem skip (mm : (slots i).t ≠ .MM) (xmm : (slots i).t ≠ .XMMR ∧ (slots i).t ≠ .XMMW) (st : ¬ (slots i).isST) {b : Bool}
    (here : b = true ↔ slots i ≠ .empty) :
    Rebuilt slots base (done ++ [i]) ({ s.1 with fpuused := update s.1.fpuused i b }, s.2) where
  bare := built.bare
  held := built.held
  used := update_used built.used here
  mmx := built.mmx_other mm
  mmxcount := built.mmxcount_other mm
  sse := built.sse_other xmm
  count := by rw [stSlots_snoc_of_not st]; exact built.count
  listed := by rw [stSlots_snoc_of_not st]; exact built.listed
  unlisted := by rw [stSlots_snoc_of_not st]; exact built.unlisted

/-- A slot of an MMX register. -/
theorem mm (placed : Placed slots) (t : (slots i).t = .MM) (inside : (slots i).n.toNat < 8) :
    Rebuilt slots base (done ++ [i]) ({ s.1 with
      fpuused := update s.1.fpuused i true
      mmxcache := update s.1.mmxcache ⟨(slots i).n.toNat, inside⟩ (some i)
      mmxcount := s.1.mmxcount + 1 }, s.2) where
  bare := built.bare
  held := built.held
  used := built.used_here t (by decide)
  mmx := by
    have number : ∀ a : Fin 8, (slots i).n = BitVec.ofNat 4 a → a = ⟨(slots i).n.toNat, inside⟩ := by
      intro a same
      have value := congrArg BitVec.toNat same
      rw [BitVec.toNat_ofNat] at value
      exact Fin.ext (by simp only; omega)
    have held : slots i = ⟨.MM, BitVec.ofNat 4 (slots i).n.toNat⟩ := by rw [BitVec.ofNat_toNat, ← t]; rfl
    obtain ⟨a₀, n₀, home₀⟩ := placed.mm i t
    refine update_home (k := id) _ i built.mmx rfl held ?_ ?_
    · rintro a j rfl other
      exact ⟨number a (congrArg NeonSlot.n other), rfl⟩
    · intro j other
      obtain ⟨a, n, home⟩ := placed.mm j (congrArg NeonSlot.t other)
      have same : BitVec.ofNat 4 a = (slots i).n := by
        rw [← n, other, BitVec.ofNat_toNat]
        rfl
      rw [number a same.symm, ← number a₀ n₀, ← home₀] at home
      exact home
  mmxcount := by rw [built.mmxcount, List.countP_append, List.countP_singleton, if_pos (by simpa using t)]
  sse := built.sse_other (by simp [t])
  count := by rw [stSlots_snoc_of_not (by simp [NeonSlot.isST, t])]; exact built.count
  listed := by rw [stSlots_snoc_of_not (by simp [NeonSlot.isST, t])]; exact built.listed
  unlisted := by rw [stSlots_snoc_of_not (by simp [NeonSlot.isST, t])]; exact built.unlisted

/-- A slot of an SSE register. -/
theorem xmm (placed : Placed slots) (write : Bool) (t : (slots i).t = if write then .XMMW else .XMMR) :
    Rebuilt slots base (done ++ [i]) ({ s.1 with
      fpuused := update s.1.fpuused i true
      ssecache := update s.1.ssecache (slots i).n.toFin (some (i, write)) }, s.2) where
  bare := built.bare
  held := built.held
  used := built.used_here t (by cases write <;> decide)
  mmx := built.mmx_other (by cases write <;> simp [t])
  mmxcount := built.mmxcount_other (by cases write <;> simp [t])
  sse := by
    have isXmm : ∀ (j : Fin 24) (write : Bool), (slots j).t = (if write then .XMMW else .XMMR) →
        (slots j).t = .XMMR ∨ (slots j).t = .XMMW := by
      intro j write t
      cases write
      · exact .inl t
      · exact .inr t
    have number : ∀ a : Fin 16, (slots i).n = BitVec.ofNat 4 a → a = (slots i).n.toFin := by
      intro a same
      have value := congrArg BitVec.toNat same
      rw [BitVec.toNat_ofNat, Nat.mod_eq_of_lt a.isLt] at value
      exact Fin.ext value.symm
    have held : slots i = ⟨if write then .XMMW else .XMMR, BitVec.ofNat 4 ((slots i).n.toFin : Fin 16)⟩ := by
      rw [← t]
      exact congrArg (NeonSlot.mk (slots i).t) (BitVec.ofNat_toNat 4 (slots i).n).symm
    obtain ⟨a₀, n₀, home₀⟩ := placed.xmm i (isXmm i write t)
    intro a j w
    refine update_home (k := Prod.fst) (p := fun (a : Fin 16) b => slots b.1 = ⟨if b.2 then .XMMW else .XMMR, BitVec.ofNat 4 a⟩)
      (slots i).n.toFin (i, write) (fun a b => built.sse a b.1 b.2) rfl held ?_ ?_ a (j, w)
    · rintro a ⟨j, w⟩ rfl other
      refine ⟨number a (congrArg NeonSlot.n other), ?_⟩
      have types := (congrArg NeonSlot.t other).symm.trans t
      cases w <;> cases write <;> simp_all
    · rintro ⟨j, w⟩ other
      obtain ⟨a, n, home⟩ := placed.xmm j (isXmm j w (congrArg NeonSlot.t other))
      have same : BitVec.ofNat 4 a = (slots i).n := by
        rw [← n, other]
        exact BitVec.ofNat_toNat 4 (slots i).n
      rw [number a same.symm, ← number a₀ n₀, ← home₀] at home
      exact home
  count := by rw [stSlots_snoc_of_not (by cases write <;> simp [NeonSlot.isST, t])]; exact built.count
  listed := by rw [stSlots_snoc_of_not (by cases write <;> simp [NeonSlot.isST, t])]; exact built.listed
  unlisted := by rw [stSlots_snoc_of_not (by cases write <;> simp [NeonSlot.isST, t])]; exact built.unlisted

/-- A slot of the x87 stack. -/
theorem st (st : (slots i).isST) (inside : s.2 < 8) :
    Rebuilt slots base (done ++ [i]) ({ s.1 with
      fpuused := update s.1.fpuused i true
      x87cache := update s.1.x87cache ⟨s.2, inside⟩ (slots i).n.toNat
      x87reg := update s.1.x87reg ⟨s.2, inside⟩ (some i) }, s.2 + 1) where
  bare := built.bare
  held := built.held
  used := built.used_here rfl (by obtain t | t := st <;> simp [t])
  mmx := built.mmx_other (by obtain t | t := st <;> simp [t])
  mmxcount := built.mmxcount_other (by obtain t | t := st <;> simp [t])
  sse := built.sse_other (by obtain t | t := st <;> simp [t])
  count := by rw [stSlots_snoc st, List.length_append, ← built.count]; rfl
  listed := by
    intro k j found
    rw [stSlots_snoc st] at found
    by_cases last : k = ⟨s.2, inside⟩
    · subst last
      have found : (stSlots slots done ++ [i])[s.2]? = some j := found
      rw [built.count, List.getElem?_concat_length] at found
      cases found
      exact ⟨Function.update_self .., Function.update_self ..⟩
    · have before : (k : Nat) < (stSlots slots done).length := by
        have fits := (List.getElem?_eq_some_iff.mp found).1
        rw [List.length_append, List.length_singleton] at fits
        have := built.count
        have : (k : Nat) ≠ s.2 := fun same => last (Fin.ext same)
        omega
      rw [List.getElem?_append_left before] at found
      obtain ⟨reg, cached⟩ := built.listed k j found
      exact ⟨(Function.update_of_ne last ..).trans reg, (Function.update_of_ne last ..).trans cached⟩
  unlisted := by
    intro k beyond
    rw [stSlots_snoc st, List.length_append, List.length_singleton, ← built.count] at beyond
    have other : k ≠ ⟨s.2, inside⟩ := by
      rintro rfl
      exact absurd beyond (by simp)
    exact (Function.update_of_ne other ..).trans (built.unlisted k (by rw [← built.count]; omega))

/-- The loop reads the next slot, whatever it holds. -/
theorem step (placed : Placed slots) (room : (stSlots slots (done ++ [i])).length ≤ 8) :
    ∃ t, rebuildSlot s i = some t ∧ Rebuilt slots base (done ++ [i]) t := by
  obtain ⟨c, n⟩ := s
  obtain rfl : c.neoncache = slots := built.held
  by_cases empty : c.neoncache i = .empty
  · refine ⟨_, if_neg (Classical.not_not.mpr empty), ?_⟩
    exact built.skip (by simp [empty, NeonSlot.empty]) (by simp [empty, NeonSlot.empty])
      (by simp [empty, NeonSlot.empty, NeonSlot.isST]) (by simp [empty])
  · have kept : rebuildSlot (c, n) i = _ := if_pos empty
    have isST : (c.neoncache i).isST → n < 8 := by
      intro st
      rw [stSlots_snoc st, List.length_append, ← built.count] at room
      exact room
    cases t : (c.neoncache i).t with
    | NONE => exact absurd (placed.none i t) empty
    | SCR => exact absurd t (placed.scr i)
    | ST_D =>
      have inside := isST (.inl t)
      simp only [t, dif_pos inside] at kept
      exact ⟨_, kept, built.st (.inl t) inside⟩
    | ST_F =>
      have inside := isST (.inr t)
      simp only [t, dif_pos inside] at kept
      exact ⟨_, kept, built.st (.inr t) inside⟩
    | MM =>
      obtain ⟨a, number, -⟩ := placed.mm i t
      have inside : (c.neoncache i).n.toNat < 8 := by
        rw [number, BitVec.toNat_ofNat]
        omega
      simp only [t, dif_pos inside] at kept
      exact ⟨_, kept, built.mm placed t inside⟩
    | XMMW =>
      simp only [t] at kept
      exact ⟨_, kept, built.xmm placed true t⟩
    | XMMR =>
      simp only [t] at kept
      exact ⟨_, kept, built.xmm placed false t⟩

end Rebuilt

/-- The tables that are built from slots of which every register is in its place describe them. -/
theorem rebuild_describes {c : NeonCache} (placed : Placed c.neoncache) :
    ∃ u, c.rebuild = some u ∧ u.Describes ∧ u.neoncache = c.neoncache ∧ u.bare = c.bare := by
  have start : Rebuilt c.neoncache c.bare [] (c.clearTables, 0) := {
    bare := rfl
    held := rfl
    used := by simp
    mmx := by simp [clearTables]
    mmxcount := rfl
    sse := by simp [clearTables]
    count := rfl
    listed := by simp [stSlots]
    unlisted := fun _ _ => rfl }
  have covers : ∃ t, Runs.exec rebuildSlot (c.clearTables, 0) (List.finRange 24) = some t ∧
      Rebuilt c.neoncache c.bare (List.finRange 24) t := by
    refine Runs.exec_covers start ?_
    intro done i rest s all built
    have part : (stSlots c.neoncache (done ++ [i])).Sublist (stSlots c.neoncache (List.finRange 24)) := by
      rw [all]
      exact List.Sublist.filter _ (by simp)
    exact built.step placed (part.length_le.trans placed.stSlots_length)
  obtain ⟨⟨u, n⟩, ran, built⟩ := covers
  have held : u.neoncache = c.neoncache := built.held
  have isST : ∀ i ∈ stSlots c.neoncache (List.finRange 24), (c.neoncache i).isST := by
    intro i member
    exact of_decide_eq_true (List.mem_filter.mp member).2
  have entry : ∀ k, u.x87cache k ≠ -1 → ∃ i, (stSlots c.neoncache (List.finRange 24))[(k : Nat)]? = some i := by
    intro k cached
    have inside : (k : Nat) < (stSlots c.neoncache (List.finRange 24)).length := by
      by_contra beyond
      exact cached (built.unlisted k (Nat.le_of_not_lt beyond))
    exact ⟨_, List.getElem?_eq_getElem inside⟩
  have describes : u.Describes := {
    used := fun i => by rw [held]; exact built.used i (List.mem_finRange i)
    mmx := fun a i => by rw [held, built.mmx a i]; simp
    mmxcount := by rw [held]; exact built.mmxcount
    sse := fun a i write => by rw [held, built.sse a i write]; simp
    x87entry := by
      intro k cached
      obtain ⟨i, found⟩ := entry k cached
      obtain ⟨reg, number⟩ := built.listed k i found
      rw [held]
      exact ⟨i, reg, isST i (List.mem_of_getElem? found), number⟩
    x87slot := by
      intro i st
      rw [held] at st
      have member : i ∈ stSlots c.neoncache (List.finRange 24) :=
        List.mem_filter.mpr ⟨List.mem_finRange i, decide_eq_true st⟩
      obtain ⟨k, found⟩ := List.mem_iff_getElem?.mp member
      have inside := (List.getElem?_eq_some_iff.mp found).1
      have below : k < 8 := inside.trans_le placed.stSlots_length
      obtain ⟨reg, number⟩ := built.listed ⟨k, below⟩ i found
      refine ⟨⟨k, below⟩, ⟨by rw [number]; omega, reg⟩, ?_⟩
      rintro k' ⟨cached, reg'⟩
      obtain ⟨j, found'⟩ := entry k' cached
      have same := (built.listed k' j found').1.symm.trans reg'
      cases same
      have nodup : (stSlots c.neoncache (List.finRange 24)).Nodup := (List.nodup_finRange 24).filter _
      exact Fin.ext ((List.getElem?_inj inside nodup).mp (found.trans found'.symm)).symm }
  exact ⟨u, by rw [rebuild, ran]; rfl, describes, held, built.bare⟩

end Rebuild

/-- Slots that are upgraded or emptied stay in place. -/
theorem Placed.of_upgrades {before after : Fin 24 → NeonSlot} (placed : Placed before)
    (each : ∀ i, after i = .empty ∨ (before i).Upgrades (after i)) : Placed after := by
  have register : ∀ i, (after i).t ≠ .NONE → (before i).Upgrades (after i) := by
    intro i some_type
    obtain empty | up := each i
    · exact absurd (congrArg NeonSlot.t empty) some_type
    · exact up
  have isST : ∀ i, (after i).isST → (before i).isST ∧ (after i).n = (before i).n := by
    intro i st
    have up := register i (by obtain t | t := st <;> simp [t])
    exact ⟨up.isST_iff.mp st, up.1⟩
  exact {
    none := by
      intro i t
      obtain empty | up := each i
      · exact empty
      · have same := placed.none i (up.type (by decide) t)
        have number := up.1
        rw [same] at number
        exact congrArg₂ NeonSlot.mk t number
    scr := by
      intro i t
      exact placed.scr i ((register i (by simp [t])).type (by decide) t)
    mm := by
      intro i t
      have up := register i (by simp [t])
      rw [up.1]
      exact placed.mm i (up.type (by decide) t)
    xmm := by
      intro i t
      have up := register i (by obtain t | t := t <;> simp [t])
      rw [up.1]
      exact placed.xmm i (up.xmm t)
    st := by
      intro i st
      obtain ⟨st, same⟩ := isST i st
      rw [same]
      exact placed.st i st
    distinct := by
      intro i j first second same
      obtain ⟨first, n₁⟩ := isST i first
      obtain ⟨second, n₂⟩ := isST j second
      exact placed.distinct i j first second (n₁.symm.trans (same.trans n₂)) }

theorem unwindSwap_counters (c : NeonCache) : c.unwindSwap.news = c.news ∧ c.unwindSwap.x87stack = c.x87stack ∧
    c.unwindSwap.stack = c.stack ∧ c.unwindSwap.stack_push = c.stack_push ∧ c.unwindSwap.stack_pop = c.stack_pop := by
  unfold unwindSwap
  split_ifs
  · dsimp only
    split <;> exact ⟨rfl, rfl, rfl, rfl, rfl⟩
  · exact ⟨rfl, rfl, rfl, rfl, rfl⟩

theorem unwindPush_counters (c : NeonCache) : c.unwindPush.x87stack = c.x87stack - c.stack_push ∧
    c.unwindPush.stack = c.stack - c.stack_push ∧ c.unwindPush.stack_pop = c.stack_pop := by
  unfold unwindPush
  split_ifs with pushed
  · exact ⟨rfl, rfl, rfl⟩
  · have none : c.stack_push = 0 := Classical.not_not.mp pushed
    rw [none, Int.sub_zero, Int.sub_zero]
    exact ⟨rfl, rfl, rfl⟩

/-- Where the slots that are left are in place, the unwound cache describes them, and its counters are those without the
pushes and pops. -/
theorem neoncacheUnwind_describes {c : NeonCache} (placed : Placed c.unwindSwap.unwindNews.unwindPush.neoncache) :
    ∃ u, c.neoncacheUnwind = some u ∧ u.Describes ∧ u.neoncache = c.unwindSwap.unwindNews.unwindPush.neoncache ∧
      u.x87stack = c.x87stack - c.stack_push + c.stack_pop ∧ u.stack = c.stack - c.stack_push ∧ u.stack_next = u.stack := by
  obtain ⟨u, built, describes, slots, bare⟩ := rebuild_describes (c := c.unwindSwap.unwindNews.unwindPush.unwindPop) placed
  obtain ⟨-, x87stack, stack, push, pop⟩ := unwindSwap_counters c
  obtain ⟨x87stack', stack', pop'⟩ := unwindPush_counters c.unwindSwap.unwindNews
  refine ⟨u, built, describes, slots, ?_, ?_, ?_⟩
  · calc u.x87stack
        = c.unwindSwap.unwindNews.unwindPush.x87stack + c.unwindSwap.unwindNews.unwindPush.stack_pop :=
          congrArg NeonCache.x87stack bare
      _ = c.unwindSwap.x87stack - c.unwindSwap.stack_push + c.unwindSwap.stack_pop := by rw [x87stack', pop']; rfl
      _ = c.x87stack - c.stack_push + c.stack_pop := by rw [x87stack, push, pop]
  · have kept : u.bare.stack = c.unwindSwap.unwindNews.unwindPush.unwindPop.bare.stack := congrArg NeonCache.stack bare
    calc u.stack = c.unwindSwap.unwindNews.unwindPush.stack := kept
      _ = c.unwindSwap.stack - c.unwindSwap.stack_push := by rw [stack']; rfl
      _ = c.stack - c.stack_push := by rw [stack, push]
  · exact (congrArg NeonCache.stack_next bare).trans (congrArg NeonCache.stack bare).symm

end NeonCache

end Box64.Dynarec
