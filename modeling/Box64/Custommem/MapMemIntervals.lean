import Box64.Custommem.MapMem
import Mathlib.Data.Set.Basic
import Mathlib.Order.Interval.Set.Defs

/-!
# The mapped intervals as a set of addresses

Runs of `addMapMem` and `removeMapMem`: the list stays sorted with gaps between its intervals, and above
0x10000 it covers what the page-rounded ranges added and removed leave covered.
-/

namespace Box64.Custommem

open Set (Icc)

/-- The addresses of whole pages. -/
structure Mapmem.Pages (m : Mapmem) : Prop where
  begin_page : m.begin % 0x1000 = 0
  stop_page : m.stop % 0x1000 = 0xfff
  begin_le : m.begin ≤ m.stop

/-- Intervals of whole pages in ascending order, no two of them adjacent. -/
structure Separated (mapmem : List Mapmem) : Prop where
  pages : ∀ m ∈ mapmem, m.Pages
  gaps : mapmem.Pairwise (fun m n => m.stop + 1 < n.begin)

def Covered (mapmem : List Mapmem) (a : Nat) : Prop := ∃ m ∈ mapmem, m.begin ≤ a ∧ a ≤ m.stop

theorem Separated.tail {m : Mapmem} {next : List Mapmem} (sep : Separated (m :: next)) : Separated next :=
  ⟨fun n mem => sep.pages n (List.mem_cons_of_mem m mem), (List.pairwise_cons.mp sep.gaps).2⟩

theorem Separated.head {m : Mapmem} {next : List Mapmem} (sep : Separated (m :: next)) : m.Pages :=
  sep.pages m List.mem_cons_self

theorem Separated.gap {m : Mapmem} {next : List Mapmem} (sep : Separated (m :: next)) :
    ∀ n ∈ next, m.stop + 1 < n.begin :=
  (List.pairwise_cons.mp sep.gaps).1

theorem Separated.cons {m : Mapmem} {next : List Mapmem} (pages : m.Pages) (gap : ∀ n ∈ next, m.stop + 1 < n.begin)
    (sep : Separated next) : Separated (m :: next) :=
  ⟨List.forall_mem_cons.mpr ⟨pages, sep.pages⟩, List.pairwise_cons.mpr ⟨gap, sep.gaps⟩⟩

theorem covered_cons (m : Mapmem) (next : List Mapmem) (a : Nat) :
    Covered (m :: next) a ↔ (m.begin ≤ a ∧ a ≤ m.stop) ∨ Covered next a := by
  simp only [Covered, List.mem_cons, or_and_right, exists_or, exists_eq_left]

/-! ### Adding a range -/

/-- Fusing keeps the first address and joins what is covered. -/
theorem fuseNext_spec {newm : Mapmem} {next : List Mapmem} (pages : newm.Pages) (sep : Separated next)
    (after : ∀ n ∈ next, newm.begin ≤ n.begin) :
    Separated (fuseNext newm next) ∧ (∀ m ∈ fuseNext newm next, newm.begin ≤ m.begin) ∧
      (∀ a, Covered (fuseNext newm next) a ↔ (newm.begin ≤ a ∧ a ≤ newm.stop) ∨ Covered next a) ∧
      ∃ m rest, fuseNext newm next = m :: rest ∧ m.begin = newm.begin := by
  induction next generalizing newm with
  | nil =>
    refine ⟨Separated.cons pages (fun _ mem => absurd mem List.not_mem_nil) sep, ?_, ?_, newm, [], rfl, rfl⟩
    · intro m mem
      rw [fuseNext, List.mem_singleton] at mem
      exact Nat.le_of_eq (congrArg Mapmem.begin mem.symm)
    · exact fun a => covered_cons newm [] a
  | cons tmp next ih =>
    have tmp_pages := sep.head
    have tmp_after := after tmp List.mem_cons_self
    rw [fuseNext]
    split
    case isTrue reach =>
      have fused : (if tmp.stop > newm.stop then { newm with stop := tmp.stop } else newm) =
          ⟨newm.begin, max newm.stop tmp.stop⟩ := by
        split
        case isTrue longer => rw [Nat.max_eq_right (Nat.le_of_lt longer)]
        case isFalse inside => rw [Nat.max_eq_left (Nat.not_lt.mp inside)]
      rw [fused]
      generalize newm_eq : (⟨newm.begin, max newm.stop tmp.stop⟩ : Mapmem) = newm'
      have begin_eq : newm'.begin = newm.begin := by rw [← newm_eq]
      have stop_eq : newm'.stop = max newm.stop tmp.stop := by rw [← newm_eq]
      have pages' : newm'.Pages := by
        obtain ⟨b, s, le⟩ := pages
        obtain ⟨tb, ts, tle⟩ := tmp_pages
        constructor
        · omega
        · rcases Nat.le_total newm.stop tmp.stop with h | h
          · rw [stop_eq, Nat.max_eq_right h, ts]
          · rw [stop_eq, Nat.max_eq_left h, s]
        · omega
      have after' : ∀ n ∈ next, newm'.begin ≤ n.begin := by
        intro n mem
        rw [begin_eq]
        exact after n (List.mem_cons_of_mem tmp mem)
      obtain ⟨sep', first, cover, m, rest, shape, head⟩ := ih pages' sep.tail after'
      rw [begin_eq] at first head
      refine ⟨sep', first, ?_, m, rest, shape, head⟩
      intro a
      rw [cover, covered_cons, begin_eq, stop_eq, ← or_assoc]
      have begin_le := pages.begin_le
      have tmp_le := tmp_pages.begin_le
      apply or_congr_left
      omega
    case isFalse apart =>
      refine ⟨Separated.cons pages ?_ sep, ?_, fun a => covered_cons newm (tmp :: next) a, newm, _, rfl, rfl⟩
      · intro n mem
        have tmp_le := tmp_pages.begin_le
        rcases List.mem_cons.mp mem with rfl | mem
        · omega
        · have gap := sep.gap n mem
          omega
      · intro m mem
        rcases List.mem_cons.mp mem with rfl | mem
        · exact Nat.le_refl _
        · exact after m mem

/-- An interval list that starts where `mapmem` does and covers `begin` to `stop` as well. -/
structure Added (begin stop : Nat) (m : Mapmem) (next result : List Mapmem) : Prop where
  separated : Separated result
  first : ∃ m' rest, result = m' :: rest ∧ m'.begin = m.begin
  after : ∀ m' ∈ result, m.begin ≤ m'.begin
  cover : ∀ a, Covered result a ↔ Covered (m :: next) a ∨ (begin ≤ a ∧ a ≤ stop)

theorem attachMapMem_added {begin stop : Nat} {m : Mapmem} {next : List Mapmem} (sep : Separated (m :: next))
    (range : (⟨begin, stop⟩ : Mapmem).Pages) (above : m.begin < begin) (before : ∀ n ∈ next, begin ≤ n.begin) :
    Added begin stop m next (attachMapMem begin stop m next) := by
  have pages := sep.head
  have begin_le : begin ≤ stop := range.begin_le
  have head_le := pages.begin_le
  have before_head : ∀ n ∈ next, m.begin ≤ n.begin := fun n mem => by
    have := before n mem
    omega
  rw [attachMapMem]
  split
  case isTrue reach =>
    split
    case isTrue inside =>
      refine ⟨sep, ⟨m, next, rfl, rfl⟩, ?_, ?_⟩
      · intro n mem
        rcases List.mem_cons.mp mem with rfl | mem
        · exact Nat.le_refl _
        · exact before_head n mem
      · intro a
        rw [covered_cons]
        constructor
        · exact Or.inl
        · rintro (old | new)
          · exact old
          · left
            omega
    case isFalse longer =>
      have wide : ({ m with stop := stop } : Mapmem).Pages := ⟨pages.begin_page, range.stop_page, by dsimp only; omega⟩
      obtain ⟨sep', after, cover, first⟩ := fuseNext_spec wide sep.tail before_head
      refine ⟨sep', first, after, ?_⟩
      intro a
      rw [cover, covered_cons, or_right_comm]
      apply or_congr_left
      dsimp only
      omega
  case isFalse apart =>
    obtain ⟨sep', after, cover, -⟩ := fuseNext_spec range sep.tail before
    refine ⟨Separated.cons pages ?_ sep', ⟨m, _, rfl, rfl⟩, ?_, ?_⟩
    · intro n mem
      have := after n mem
      dsimp only at this
      omega
    · intro n mem
      rcases List.mem_cons.mp mem with rfl | mem
      · exact Nat.le_refl _
      · have := after n mem
        dsimp only at this
        omega
    · intro a
      rw [covered_cons, cover, covered_cons, or_assoc]
      apply or_congr_right
      exact or_comm

theorem insertMapMem_added {begin stop : Nat} {m : Mapmem} {next : List Mapmem} (sep : Separated (m :: next))
    (range : (⟨begin, stop⟩ : Mapmem).Pages) (above : m.begin < begin) :
    Added begin stop m next (insertMapMem begin stop (m :: next)) := by
  induction next generalizing m with
  | nil =>
    rw [insertMapMem]
    exact attachMapMem_added sep range above (fun _ mem => absurd mem List.not_mem_nil)
  | cons n next ih =>
    rw [insertMapMem]
    split
    case isTrue later =>
      obtain ⟨sep', -, after, cover⟩ := ih sep.tail later
      have gap := sep.gap n List.mem_cons_self
      have pages := sep.head.begin_le
      refine ⟨Separated.cons sep.head ?_ sep', ⟨m, _, rfl, rfl⟩, ?_, ?_⟩
      · intro k mem
        have := after k mem
        omega
      · intro k mem
        rcases List.mem_cons.mp mem with rfl | mem
        · exact Nat.le_refl _
        · have := after k mem
          omega
      · intro a
        rw [covered_cons, cover, covered_cons m, or_assoc]
    case isFalse here =>
      apply attachMapMem_added sep range above
      intro k mem
      rcases List.mem_cons.mp mem with rfl | mem
      · omega
      · have gap := sep.tail.gap k mem
        have pages := sep.tail.head.begin_le
        omega

/-! ### Removing a range -/

/-- What `removeMapMem` leaves of a list. -/
structure Removed (begin stop : Nat) (mapmem result : List Mapmem) : Prop where
  separated : Separated result
  after : ∀ m' ∈ result, ∃ m ∈ mapmem, m.begin ≤ m'.begin
  cover : ∀ a, Covered result a ↔ Covered mapmem a ∧ ¬ (begin ≤ a ∧ a ≤ stop)

/-- The first interval trimmed to `m'`, the others done by the rest of the walk. -/
theorem Removed.cons {begin stop : Nat} {m m' : Mapmem} {next result : List Mapmem} (sep : Separated (m :: next))
    (rest : Removed begin stop next result) (pages : m'.Pages) (begin_le : m.begin ≤ m'.begin) (stop_le : m'.stop ≤ m.stop)
    (trim : ∀ a, m'.begin ≤ a ∧ a ≤ m'.stop ↔ (m.begin ≤ a ∧ a ≤ m.stop) ∧ ¬ (begin ≤ a ∧ a ≤ stop)) :
    Removed begin stop (m :: next) (m' :: result) := by
  refine ⟨Separated.cons pages ?_ rest.separated, ?_, ?_⟩
  · intro n mem
    obtain ⟨k, old, le⟩ := rest.after n mem
    have gap := sep.gap k old
    omega
  · intro n mem
    rcases List.mem_cons.mp mem with rfl | mem
    · exact ⟨m, List.mem_cons_self, begin_le⟩
    · obtain ⟨k, old, le⟩ := rest.after n mem
      exact ⟨k, List.mem_cons_of_mem m old, le⟩
  · intro a
    rw [covered_cons, rest.cover, covered_cons, trim, or_and_right]

/-- A list wholly above the range, or without anything in it, stays. -/
theorem Removed.refl {begin stop : Nat} {mapmem : List Mapmem} (sep : Separated mapmem)
    (above : ∀ m ∈ mapmem, stop < m.begin) : Removed begin stop mapmem mapmem := by
  refine ⟨sep, fun m mem => ⟨m, mem, Nat.le_refl _⟩, ?_⟩
  intro a
  refine ⟨fun cover => ⟨cover, ?_⟩, And.left⟩
  obtain ⟨m, mem, le, -⟩ := cover
  have := above m mem
  omega

theorem dropMapMem_removed {begin stop : Nat} {prev : Bool} {mapmem : List Mapmem} (sep : Separated mapmem)
    (range : (⟨begin, stop⟩ : Mapmem).Pages) (attached : prev = true ∨ ∀ m ∈ mapmem.head?, m.begin < begin) :
    Removed begin stop mapmem (dropMapMem begin stop prev mapmem) := by
  have begin_page : begin % 0x1000 = 0 := range.begin_page
  have stop_page : stop % 0x1000 = 0xfff := range.stop_page
  have range_le : begin ≤ stop := range.begin_le
  induction mapmem generalizing prev with
  | nil => exact Removed.refl sep (fun _ mem => absurd mem List.not_mem_nil)
  | cons m next ih =>
    obtain ⟨m_begin, m_stop, m_le⟩ := sep.head
    have rest : Removed begin stop next (dropMapMem begin stop true next) := ih sep.tail (Or.inl rfl)
    rw [dropMapMem.eq_def]
    dsimp only
    split
    case isTrue beyond =>
      apply Removed.refl sep
      intro n mem
      rcases List.mem_cons.mp mem with rfl | mem
      · exact beyond
      · have gap := sep.gap n mem
        omega
    split
    case isTrue inside =>
      have free : prev = true := by
        rcases attached with prev | first
        · exact prev
        · have := first m rfl
          omega
      rw [if_pos free]
      refine ⟨rest.separated, ?_, ?_⟩
      · intro n mem
        obtain ⟨k, old, le⟩ := rest.after n mem
        exact ⟨k, List.mem_cons_of_mem m old, le⟩
      · intro a
        rw [rest.cover, covered_cons]
        constructor
        · rintro ⟨cover, out⟩
          exact ⟨Or.inr cover, out⟩
        · rintro ⟨here | cover, out⟩
          · omega
          · exact ⟨cover, out⟩
    split
    case isTrue split_here =>
      -- the range is inside `m`: nothing of the rest is in it
      have above : ∀ n ∈ next, stop < n.begin := fun n mem => by
        have gap := sep.gap n mem
        omega
      have stay : Removed begin stop next next := Removed.refl sep.tail above
      have upper : Removed begin stop (⟨stop + 1, m.stop⟩ :: next) (⟨stop + 1, m.stop⟩ :: next) := by
        apply Removed.refl
        · exact Separated.cons ⟨by dsimp only; omega, m_stop, by dsimp only; omega⟩ sep.gap sep.tail
        · intro n mem
          rcases List.mem_cons.mp mem with rfl | mem
          · exact Nat.lt_succ_self stop
          · exact above n mem
      refine ⟨Separated.cons ⟨m_begin, by dsimp only; omega, by dsimp only; omega⟩ ?_ upper.separated, ?_, ?_⟩
      · intro n mem
        rcases List.mem_cons.mp mem with rfl | mem
        · dsimp only
          omega
        · have := above n mem
          dsimp only
          omega
      · intro n mem
        rcases List.mem_cons.mp mem with rfl | mem
        · exact ⟨m, List.mem_cons_self, Nat.le_refl _⟩
        rcases List.mem_cons.mp mem with rfl | mem
        · exact ⟨m, List.mem_cons_self, by dsimp only; omega⟩
        · exact ⟨n, List.mem_cons_of_mem m mem, Nat.le_refl _⟩
      · intro a
        have cover := stay.cover a
        rw [covered_cons, covered_cons, covered_cons, or_and_right, ← cover, ← or_assoc]
        apply or_congr_left
        dsimp only
        omega
    split
    case isTrue tail =>
      apply Removed.cons sep rest
      · exact ⟨m_begin, by dsimp only; omega, by dsimp only; omega⟩
      · exact Nat.le_refl _
      · dsimp only
        omega
      · intro a
        dsimp only
        omega
    split
    case isTrue head =>
      apply Removed.cons sep rest
      · exact ⟨by dsimp only; omega, m_stop, by dsimp only; omega⟩
      · dsimp only
        omega
      · exact Nat.le_refl _
      · intro a
        dsimp only
        omega
    case isFalse =>
      apply Removed.cons sep rest sep.head (Nat.le_refl _) (Nat.le_refl _)
      intro a
      omega

/-! ### Runs -/

/-- A call on the addresses from `begin` to `stop`. -/
inductive MapMemCall
  | add (begin stop : Nat) (le : begin ≤ stop)
  | remove (begin stop : Nat) (le : begin ≤ stop)

def MapMemCall.step (mapmem : List Mapmem) : MapMemCall → List Mapmem
  | add begin stop _ => addMapMem mapmem begin stop
  | remove begin stop _ => removeMapMem mapmem begin stop

def MapMemCall.run (calls : List MapMemCall) : List Mapmem := calls.foldl step initialMapmem

/-- The addresses of the pages a range touches. -/
def pageRange (begin stop : Nat) : Set Nat := Icc (fullPages begin stop).1 (fullPages begin stop).2

def MapMemCall.setStep (mapped : Set Nat) : MapMemCall → Set Nat
  | add begin stop _ => mapped ∪ pageRange begin stop
  | remove begin stop _ => mapped \ pageRange begin stop

def MapMemCall.setRun (calls : List MapMemCall) : Set Nat := calls.foldl setStep ∅

/-- The list after any calls: separated intervals, the first of them at address 0. -/
structure WellFormedMapMem (mapmem : List Mapmem) : Prop where
  separated : Separated mapmem
  first : ∃ m rest, mapmem = m :: rest ∧ m.begin = 0

/-- The first address a call works on. -/
def sanitizedBegin (begin stop : Nat) : Nat :=
  if (fullPages begin stop).1 = 0 then 0x10000 else (fullPages begin stop).1

/-- The walk of a removal would free the first interval, and change the attach. -/
def FreesFirst (mapmem : List Mapmem) (begin stop : Nat) : Prop :=
  0x10000 ≤ (fullPages begin stop).2 ∧
    ∃ m ∈ mapmem.head?, m.begin ≥ sanitizedBegin begin stop ∧ m.stop ≤ (fullPages begin stop).2

theorem sanitizedBegin_pos (begin stop : Nat) : 0 < sanitizedBegin begin stop := by
  rw [sanitizedBegin]
  split <;> omega

theorem sanitized_pages {begin stop : Nat} (le : begin ≤ stop) (high : 0x10000 ≤ (fullPages begin stop).2) :
    (⟨sanitizedBegin begin stop, (fullPages begin stop).2⟩ : Mapmem).Pages := by
  simp only [fullPages] at high
  have stop_page : (fullPages begin stop).2 % 0x1000 = 0xfff := by
    simp only [fullPages]
    omega
  have begin_page : (fullPages begin stop).1 % 0x1000 = 0 ∧ (fullPages begin stop).1 ≤ (fullPages begin stop).2 := by
    simp only [fullPages]
    omega
  rw [sanitizedBegin]
  by_cases zero : (fullPages begin stop).1 = 0
  · rw [if_pos zero]
    exact ⟨by dsimp only, stop_page, high⟩
  · rw [if_neg zero]
    exact ⟨begin_page.1, stop_page, begin_page.2⟩

theorem mem_pageRange {begin stop a : Nat} (high : 0x10000 ≤ a) :
    a ∈ pageRange begin stop ↔ sanitizedBegin begin stop ≤ a ∧ a ≤ (fullPages begin stop).2 := by
  simp only [pageRange, Set.mem_Icc, sanitizedBegin]
  split <;> omega

theorem not_mem_pageRange {begin stop a : Nat} (high : 0x10000 ≤ a) (small : (fullPages begin stop).2 < 0x10000) :
    a ∉ pageRange begin stop := by
  intro mem
  have le : a ≤ (fullPages begin stop).2 := mem.2
  omega

theorem not_freesFirst {mapmem : List Mapmem} (wf : WellFormedMapMem mapmem) (begin stop : Nat) :
    ¬ FreesFirst mapmem begin stop := by
  obtain ⟨m, rest, rfl, zero⟩ := wf.first
  rintro ⟨-, n, head, above, -⟩
  obtain rfl : m = n := Option.some.inj head
  have pos := sanitizedBegin_pos begin stop
  omega

/-- Removing above the first address leaves the first interval there. -/
theorem dropMapMem_first {begin stop : Nat} {m : Mapmem} {next : List Mapmem} (zero : m.begin = 0) (pos : 0 < begin) :
    ∃ m' rest, dropMapMem begin stop false (m :: next) = m' :: rest ∧ m'.begin = 0 := by
  rw [dropMapMem.eq_def]
  dsimp only
  split
  case isTrue => exact ⟨m, next, rfl, zero⟩
  split
  case isTrue inside => omega
  split
  case isTrue => exact ⟨_, _, rfl, zero⟩
  split
  case isTrue => exact ⟨_, _, rfl, zero⟩
  split
  case isTrue head => omega
  case isFalse => exact ⟨m, _, rfl, zero⟩

theorem addMapMem_step {mapmem : List Mapmem} (wf : WellFormedMapMem mapmem) {begin stop : Nat} (le : begin ≤ stop) :
    WellFormedMapMem (addMapMem mapmem begin stop) ∧
      ∀ a, 0x10000 ≤ a → (Covered (addMapMem mapmem begin stop) a ↔ Covered mapmem a ∨ a ∈ pageRange begin stop) := by
  rw [addMapMem]
  split
  rename_i b e pages
  have high_eq : (fullPages begin stop).2 = e := congrArg Prod.snd pages
  have sanitized : (if b = 0 then 0x10000 else b) = sanitizedBegin begin stop := by
    rw [sanitizedBegin, pages]
  split
  case isTrue small =>
    refine ⟨wf, fun a high => ?_⟩
    have out : a ∉ pageRange begin stop := not_mem_pageRange high (by omega)
    exact ⟨Or.inl, fun h => h.resolve_right out⟩
  case isFalse large =>
    rw [sanitized, ← high_eq]
    obtain ⟨m, next, rfl, zero⟩ := wf.first
    have range := sanitized_pages le (by omega)
    have above : m.begin < sanitizedBegin begin stop := by
      rw [zero]
      exact sanitizedBegin_pos begin stop
    obtain ⟨sep, ⟨m', rest, shape, head⟩, -, cover⟩ := insertMapMem_added wf.separated range above
    refine ⟨⟨sep, m', rest, shape, head.trans zero⟩, fun a high => ?_⟩
    rw [cover, mem_pageRange high]

theorem removeMapMem_step {mapmem : List Mapmem} (wf : WellFormedMapMem mapmem) {begin stop : Nat} (le : begin ≤ stop) :
    WellFormedMapMem (removeMapMem mapmem begin stop) ∧
      ∀ a, 0x10000 ≤ a → (Covered (removeMapMem mapmem begin stop) a ↔ Covered mapmem a ∧ a ∉ pageRange begin stop) := by
  rw [removeMapMem]
  split
  rename_i b e pages
  have high_eq : (fullPages begin stop).2 = e := congrArg Prod.snd pages
  have sanitized : (if b = 0 then 0x10000 else b) = sanitizedBegin begin stop := by
    rw [sanitizedBegin, pages]
  split
  case isTrue small =>
    refine ⟨wf, fun a high => ?_⟩
    have out : a ∉ pageRange begin stop := not_mem_pageRange high (by omega)
    exact ⟨fun h => ⟨h, out⟩, And.left⟩
  case isFalse large =>
    rw [sanitized, ← high_eq]
    obtain ⟨m, next, rfl, zero⟩ := wf.first
    have range := sanitized_pages le (by omega)
    have pos := sanitizedBegin_pos begin stop
    have attached : false = true ∨ ∀ n ∈ (m :: next).head?, n.begin < sanitizedBegin begin stop := by
      right
      intro n head
      obtain rfl : m = n := Option.some.inj head
      rw [zero]
      exact pos
    obtain ⟨sep, -, cover⟩ := dropMapMem_removed wf.separated range attached
    refine ⟨⟨sep, dropMapMem_first zero pos⟩, fun a high => ?_⟩
    rw [cover, mem_pageRange high]

theorem initialMapmem_wellFormed : WellFormedMapMem initialMapmem := by
  refine ⟨Separated.cons ⟨rfl, rfl, by decide⟩ (fun _ mem => absurd mem List.not_mem_nil) ?_, _, _, rfl, rfl⟩
  exact ⟨fun _ mem => absurd mem List.not_mem_nil, List.Pairwise.nil⟩

theorem MapMemCall.run_spec (calls : List MapMemCall) :
    WellFormedMapMem (run calls) ∧ ∀ a, 0x10000 ≤ a → (Covered (run calls) a ↔ a ∈ setRun calls) := by
  induction calls using List.reverseRecOn with
  | nil =>
    refine ⟨initialMapmem_wellFormed, fun a high => ?_⟩
    refine iff_of_false ?_ (Set.notMem_empty a)
    rintro ⟨m, mem, -, le⟩
    obtain rfl := List.mem_singleton.mp mem
    dsimp only at le
    omega
  | append_singleton calls call ih =>
    obtain ⟨wf, cover⟩ := ih
    rw [run, setRun, List.foldl_append, List.foldl_append]
    change WellFormedMapMem (step (run calls) call) ∧
      ∀ a, 0x10000 ≤ a → (Covered (step (run calls) call) a ↔ a ∈ setStep (setRun calls) call)
    cases call with
    | add begin stop le =>
      obtain ⟨wf', cover'⟩ := addMapMem_step wf le
      refine ⟨wf', fun a high => ?_⟩
      rw [step, setStep, cover' a high, cover a high, Set.mem_union]
    | remove begin stop le =>
      obtain ⟨wf', cover'⟩ := removeMapMem_step wf le
      refine ⟨wf', fun a high => ?_⟩
      rw [step, setStep, cover' a high, cover a high, Set.mem_sdiff]

/-- After any calls the intervals are in order, apart and never adjacent, the first starts at 0 and no removal would
free it, and above 0x10000 the list covers what the page-rounded ranges leave. -/
theorem MapMemCall.run_intervals (calls : List MapMemCall) :
    (run calls).Pairwise (fun m n => m.begin < n.begin ∧ m.stop + 1 < n.begin) ∧
    (∀ m ∈ run calls, m.begin ≤ m.stop) ∧
    (∃ m rest, run calls = m :: rest ∧ m.begin = 0) ∧
    (∀ begin stop, ¬ FreesFirst (run calls) begin stop) ∧
    ∀ a, 0x10000 ≤ a → (Covered (run calls) a ↔ a ∈ setRun calls) := by
  obtain ⟨wf, cover⟩ := run_spec calls
  have ordered : ∀ m ∈ run calls, m.begin ≤ m.stop := fun m mem => (wf.separated.pages m mem).begin_le
  refine ⟨?_, ordered, wf.first, not_freesFirst wf, cover⟩
  apply wf.separated.gaps.imp_of_mem
  intro m n mem _ gap
  have := ordered m mem
  omega

/-- Nothing wraps: with 64-bit addresses every interval ends at one. -/
theorem MapMemCall.run_stop_lt (calls : List MapMemCall)
    (fits : ∀ begin stop le, .add begin stop le ∈ calls → stop < 2 ^ 64) : ∀ m ∈ run calls, m.stop < 2 ^ 64 := by
  have mapped : ∀ a ∈ setRun calls, a < 2 ^ 64 := by
    induction calls using List.reverseRecOn with
    | nil => exact fun a mem => absurd mem (Set.notMem_empty a)
    | append_singleton calls call ih =>
      have before := ih fun begin stop le mem => fits begin stop le (List.mem_append_left _ mem)
      rw [setRun, List.foldl_append]
      intro a mem
      cases call with
      | add begin stop le =>
        rcases mem with old | ⟨-, below⟩
        · exact before a old
        · have := fits begin stop le (List.mem_append_right _ List.mem_cons_self)
          simp only [fullPages] at below
          omega
      | remove begin stop le => exact before a mem.1
  obtain ⟨wf, cover⟩ := run_spec calls
  intro m mem
  by_cases high : 0x10000 ≤ m.stop
  · exact mapped m.stop ((cover m.stop high).mp ⟨m, mem, (wf.separated.pages m mem).begin_le, Nat.le_refl _⟩)
  · omega

end Box64.Custommem
