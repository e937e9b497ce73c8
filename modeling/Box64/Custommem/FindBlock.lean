import Box64.Custommem.MapMemIntervals

/-!
# Looking for a free range

`find47bitBlockNearHint` and `findBlockNearHint` walk the mapped intervals and measure the gap behind each one, from
its first address on the 64 KiB granularity.
-/

namespace Box64.Custommem

def LOWEST : Nat := 0x10000

/-- `a - b` of unsigned 64-bit numbers. -/
def usub (a b : Nat) : Nat := (a + 2 ^ 64 - b) % 2 ^ 64

/-- `(m->end+1+0xffff)&~0xffff`. -/
def blockAfter (m : Mapmem) : Nat := (m.stop + 1 + 0xffff) % 2 ^ 64 / 0x10000 * 0x10000

/-- The last address before the next interval. -/
def gapEnd : List Mapmem → Nat
  | [] => 0xffffffffffffffff
  | n :: _ => usub n.begin 1

/-- `end-from+1>=size`. -/
def Measures (next : List Mapmem) (start size : Nat) : Prop := (usub (gapEnd next) start + 1) % 2 ^ 64 ≥ size

instance (next : List Mapmem) (start size : Nat) : Decidable (Measures next start size) := inferInstanceAs (Decidable (_ ≥ _))

/-- The loop, where `h` is the hint as it was given and `hint` the one that may be returned. -/
def searchBlock (limit h hint size : Nat) : List Mapmem → Option Nat
  | [] => none
  | m :: next =>
    if m.stop < limit then
      if blockAfter m ≤ h ∧ gapEnd next ≥ h ∧ Measures next h size then some hint
      else if blockAfter m ≥ h ∧ Measures next (blockAfter m) size then some (blockAfter m)
      else searchBlock limit h hint size next
    else none

def sanitizedHint (hint : Nat) : Nat := if hint < LOWEST then LOWEST else hint

/-- `NULL` is `none`. -/
def find47bitBlockNearHint (mapmem : List Mapmem) (hint size : Nat) : Option Nat :=
  searchBlock 0x800000000000 hint (sanitizedHint hint) size mapmem

/-- What `findBlockNearHint` returns from its loop. -/
def findBlockInLoop (mapmem : List Mapmem) (hint size : Nat) : Option Nat :=
  searchBlock 0x100000000 hint (sanitizedHint hint) size mapmem

def findBlockNearHint (mapmem : List Mapmem) (hint size : Nat) : Nat :=
  (findBlockInLoop mapmem hint size).getD (sanitizedHint hint)

/-! ### What the search may return -/

/-- Intervals of 64-bit addresses in ascending order, no two of which meet. -/
structure Disjoint (mapmem : List Mapmem) : Prop where
  ordered : ∀ m ∈ mapmem, m.begin ≤ m.stop ∧ m.stop < 2 ^ 64
  apart : mapmem.Pairwise fun m n => m.stop < n.begin

/-- No interval meets the `size` addresses from `r`. -/
def FreeBlock (mapmem : List Mapmem) (r size : Nat) : Prop := ∀ m ∈ mapmem, m.stop < r ∨ r + size ≤ m.begin

/-- The gap ends before its own first address on the granularity. -/
def Narrow (m : Mapmem) (next : List Mapmem) : Prop := gapEnd next < blockAfter m

/-- If the first gap that passes the tests is a narrow one, no later interval meets the block behind its rounded
start. -/
def NarrowGapMisses (limit h size : Nat) : List Mapmem → Prop
  | [] => True
  | m :: next =>
    m.stop < limit → ¬ (blockAfter m ≤ h ∧ gapEnd next ≥ h ∧ Measures next h size) →
      if blockAfter m ≥ h ∧ Measures next (blockAfter m) size then Narrow m next → FreeBlock next (blockAfter m) size
      else NarrowGapMisses limit h size next

theorem Disjoint.tail {m : Mapmem} {next : List Mapmem} (disjoint : Disjoint (m :: next)) : Disjoint next :=
  ⟨fun n mem => disjoint.ordered n (List.mem_cons_of_mem m mem), (List.pairwise_cons.mp disjoint.apart).2⟩

theorem Disjoint.head {m : Mapmem} {next : List Mapmem} (disjoint : Disjoint (m :: next)) :
    m.begin ≤ m.stop ∧ m.stop < 2 ^ 64 :=
  disjoint.ordered m List.mem_cons_self

theorem Disjoint.after {m : Mapmem} {next : List Mapmem} (disjoint : Disjoint (m :: next)) :
    ∀ n ∈ next, m.stop < n.begin :=
  (List.pairwise_cons.mp disjoint.apart).1

theorem FreeBlock.cons_iff {m : Mapmem} {next : List Mapmem} {r size : Nat} (after : m.stop < r) :
    FreeBlock (m :: next) r size ↔ FreeBlock next r size := by
  unfold FreeBlock
  rw [List.forall_mem_cons]
  exact and_iff_right (Or.inl after)

theorem usub_of_le {a b : Nat} (le : b ≤ a) (fits : a < 2 ^ 64) : usub a b = a - b := by
  unfold usub
  omega

/-- Every later interval begins behind the end of the gap. -/
theorem gapEnd_spec {m : Mapmem} {next : List Mapmem} (disjoint : Disjoint (m :: next)) :
    m.stop ≤ gapEnd next ∧ gapEnd next < 2 ^ 64 ∧ ∀ n ∈ next, gapEnd next < n.begin := by
  have small := disjoint.head.2
  cases next with
  | nil => exact ⟨by rw [gapEnd]; omega, by decide, fun _ mem => absurd mem List.not_mem_nil⟩
  | cons n rest =>
    have after := disjoint.after n List.mem_cons_self
    have ordered := disjoint.tail.head
    have eq : gapEnd (n :: rest) = n.begin - 1 := usub_of_le (by omega) (by omega)
    rw [eq]
    refine ⟨by omega, by omega, List.forall_mem_cons.mpr ⟨by omega, fun x mem => ?_⟩⟩
    have later := disjoint.tail.after x mem
    omega

/-- Below the limits of the loops the rounding does not wrap. -/
theorem blockAfter_spec {m : Mapmem} (low : m.stop < 0x800000000000) :
    m.stop < blockAfter m ∧ LOWEST ≤ blockAfter m ∧ blockAfter m < 2 ^ 64 := by
  unfold blockAfter LOWEST
  omega

theorem le_of_measures {next : List Mapmem} {start size : Nat} (pos : 1 ≤ start) (le : start ≤ gapEnd next)
    (fits : gapEnd next < 2 ^ 64) (measures : Measures next start size) : start + size ≤ gapEnd next + 1 := by
  unfold Measures at measures
  rw [usub_of_le le fits] at measures
  omega

theorem free_of_inside {next : List Mapmem} {start size : Nat} (later : ∀ n ∈ next, gapEnd next < n.begin)
    (inside : start + size ≤ gapEnd next + 1) : FreeBlock next start size := by
  intro n mem
  have := later n mem
  right
  omega

section Search

variable {limit h size : Nat} (below : limit ≤ 0x800000000000)

include below

/-- What is found lies behind the first interval. -/
theorem searchBlock_gt {m : Mapmem} {next : List Mapmem} {r : Nat} (disjoint : Disjoint (m :: next))
    (found : searchBlock limit h (sanitizedHint h) size (m :: next) = some r) : m.stop < r := by
  induction next generalizing m with
  | nil =>
    unfold searchBlock at found
    split at found
    · have block := blockAfter_spec (m := m) (by omega)
      split at found
      · obtain rfl := Option.some.inj found
        unfold sanitizedHint
        split <;> omega
      · split at found
        · obtain rfl := Option.some.inj found
          exact block.1
        · exact absurd found (by simp [searchBlock])
    · exact absurd found (by simp)
  | cons n rest ih =>
    unfold searchBlock at found
    split at found
    · have block := blockAfter_spec (m := m) (by omega)
      split at found
      · obtain rfl := Option.some.inj found
        unfold sanitizedHint
        split <;> omega
      · split at found
        · obtain rfl := Option.some.inj found
          exact block.1
        · have behind := ih disjoint.tail found
          have after := disjoint.after n List.mem_cons_self
          have ordered := disjoint.tail.head
          omega
    · exact absurd found (by simp)

theorem searchBlock_free_iff {mapmem : List Mapmem} (disjoint : Disjoint mapmem) :
    (∀ r, searchBlock limit h (sanitizedHint h) size mapmem = some r → FreeBlock mapmem r size) ↔
      NarrowGapMisses limit h size mapmem := by
  induction mapmem with
  | nil => exact iff_of_true (fun r found => by simp [searchBlock] at found) trivial
  | cons m next ih =>
    obtain ⟨stop_le, fits, later⟩ := gapEnd_spec disjoint
    rw [searchBlock, NarrowGapMisses]
    by_cases low : m.stop < limit
    case neg => simp [low]
    have block := blockAfter_spec (m := m) (by omega)
    rw [if_pos low, forall_prop_of_true low]
    by_cases near : blockAfter m ≤ h ∧ gapEnd next ≥ h ∧ Measures next h size
    case pos =>
      rw [if_pos near]
      refine iff_of_true (fun r found => ?_) fun far => absurd near far
      have sane : sanitizedHint h = h := if_neg (by omega)
      obtain rfl : h = r := by rw [← sane]; exact Option.some.inj found
      have lowest := block.2.1
      unfold LOWEST at lowest
      rw [FreeBlock.cons_iff (by omega)]
      exact free_of_inside later (le_of_measures (by omega) near.2.1 fits near.2.2)
    rw [if_neg near, forall_prop_of_true near]
    by_cases behind : blockAfter m ≥ h ∧ Measures next (blockAfter m) size
    case pos =>
      rw [if_pos behind, if_pos behind]
      have result : (∀ r, some (blockAfter m) = some r → FreeBlock (m :: next) r size) ↔
          FreeBlock next (blockAfter m) size := by
        rw [← FreeBlock.cons_iff block.1]
        exact ⟨fun free => free _ rfl, fun free r found => Option.some.inj found ▸ free⟩
      rw [result]
      refine ⟨fun free _ => free, fun misses => ?_⟩
      by_cases narrow : Narrow m next
      · exact misses narrow
      · -- the rounded start is in the gap, since a gap it just follows measures nothing
        have lowest := block.2.1
        unfold Narrow LOWEST at *
        exact free_of_inside later (le_of_measures (by omega) (by omega) fits behind.2)
    case neg =>
      rw [if_neg behind, if_neg behind, ← ih disjoint.tail]
      refine forall_congr' fun r => imp_congr_right fun found => ?_
      cases next with
      | nil => simp [searchBlock] at found
      | cons n rest =>
        have gt := searchBlock_gt below disjoint.tail found
        have after := disjoint.after n List.mem_cons_self
        have ordered := disjoint.tail.head
        exact FreeBlock.cons_iff (by omega)

end Search

/-- What the calls of `addMapMem` and `removeMapMem` build. -/
theorem MapMemCall.run_disjoint (calls : List MapMemCall)
    (fits : ∀ begin stop le, .add begin stop le ∈ calls → stop < 2 ^ 64) : Disjoint (run calls) := by
  obtain ⟨apart, ordered, -⟩ := run_intervals calls
  refine ⟨fun m mem => ⟨ordered m mem, run_stop_lt calls fits m mem⟩, apart.imp fun gap => ?_⟩
  omega

/-- A found block is free exactly when the first gap that passes the tests is not one whose rounded start falls into
an interval behind it. -/
theorem findBlock_free_iff {mapmem : List Mapmem} (disjoint : Disjoint mapmem) (hint size : Nat) :
    ((∀ r, find47bitBlockNearHint mapmem hint size = some r → FreeBlock mapmem r size) ↔
      NarrowGapMisses 0x800000000000 hint size mapmem) ∧
    ((∀ r, findBlockInLoop mapmem hint size = some r → FreeBlock mapmem r size) ↔
      NarrowGapMisses 0x100000000 hint size mapmem) :=
  ⟨searchBlock_free_iff (Nat.le_refl _) disjoint, searchBlock_free_iff (by decide) disjoint⟩

/-- One free page between mapped ranges, and a page taken from the second range. -/
def onePageGap : List MapMemCall :=
  [.add 0x10000 0x10fff (by decide), .add 0x12000 0x30fff (by decide)]

theorem findBlock_free_iff_onePageGap :
    ((∀ r, find47bitBlockNearHint (MapMemCall.run onePageGap) 0x10000 0x1000 = some r →
        FreeBlock (MapMemCall.run onePageGap) r 0x1000) ↔
      NarrowGapMisses 0x800000000000 0x10000 0x1000 (MapMemCall.run onePageGap)) ∧
    ((∀ r, findBlockInLoop (MapMemCall.run onePageGap) 0x10000 0x1000 = some r →
        FreeBlock (MapMemCall.run onePageGap) r 0x1000) ↔
      NarrowGapMisses 0x100000000 0x10000 0x1000 (MapMemCall.run onePageGap)) := by
  refine findBlock_free_iff (MapMemCall.run_disjoint onePageGap fun begin stop le mem => ?_) 0x10000 0x1000
  simp only [onePageGap, List.mem_cons, MapMemCall.add.injEq, List.not_mem_nil, or_false] at mem
  omega

theorem findBlock_not_free :
    ∃ r, find47bitBlockNearHint (MapMemCall.run onePageGap) 0x10000 0x1000 = some r ∧
      findBlockInLoop (MapMemCall.run onePageGap) 0x10000 0x1000 = some r ∧
      ¬ FreeBlock (MapMemCall.run onePageGap) r 0x1000 := by
  refine ⟨0x20000, by decide, by decide, fun free => ?_⟩
  have mapped : (⟨0x12000, 0x30fff⟩ : Mapmem) ∈ MapMemCall.run onePageGap := by decide
  have := free _ mapped
  dsimp only at this
  omega

end Box64.Custommem
