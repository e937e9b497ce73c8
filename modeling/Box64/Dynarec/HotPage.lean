import Box64.Dynarec.Dynablock
import Box64.Lib.Runs
import Mathlib.Algebra.BigOperators.Fin
import Mathlib.Algebra.BigOperators.Group.Finset.Piecewise
import Mathlib.Data.List.FinRange
import Mathlib.Tactic.Ring

/-!
# Hot pages

The ranges that `AddHotPage` notes and `IsInHotPage` and `AreaInHotPage` use up, and their number in `hotpages`.
-/

namespace Box64.Dynarec

abbrev MAX_HOTPAGE : Nat := 64

def HOTPAGE_STEP : Int := 64

/-- One index of the three arrays. -/
structure HotPage where
  hotpage_count : Int
  hotpage : BitVec 64
  hotpage_size : BitVec 64
deriving DecidableEq

structure HotPages where
  hotpages : Int
  pages : Fin MAX_HOTPAGE → HotPage

namespace HotPage

/-- `hotpage[i]+0x1000*(hotpage_size[i]+1)` -/
def top (page : HotPage) : BitVec 64 := page.hotpage + 0x1000 * (page.hotpage_size + 1)

def covers (page : HotPage) (addr : BitVec 64) : Bool := page.hotpage ≤ addr ∧ addr < page.top

/-- The range of the page, without the wrap of `uintptr_t`. -/
def Inside (page : HotPage) (addr : BitVec 64) : Prop :=
  page.hotpage.toNat ≤ addr.toNat ∧ addr.toNat < page.hotpage.toNat + 0x1000 * (page.hotpage_size.toNat + 1)

end HotPage

theorem first_hotpage : 0 < MAX_HOTPAGE := by decide

namespace HotPages

def initial : HotPages := ⟨0, fun _ => ⟨0, 0, 0⟩⟩

def setPage (s : HotPages) (i : Fin MAX_HOTPAGE) (page : HotPage) : HotPages :=
  { s with pages := Function.update s.pages i page }

/-- `--hotpage_count[i]`, and the end of the hot page when none is left. -/
def useUp (s : HotPages) (i : Fin MAX_HOTPAGE) : HotPages :=
  let page := s.pages i
  if page.hotpage_count - 1 = 0 then
    { s with hotpages := s.hotpages - 1 }.setPage i { page with hotpage_count := 0, hotpage_size := 0 }
  else s.setPage i { page with hotpage_count := page.hotpage_count - 1 }

def isInHotPage (s : HotPages) (addr : BitVec 64) : Int × HotPages :=
  if s.hotpages = 0 then (0, s)
  else
    match (List.finRange MAX_HOTPAGE).find? fun i => 0 < (s.pages i).hotpage_count && (s.pages i).covers addr with
    | some i => (1, s.useUp i)
    | none => (0, s)

def areaInHotPage (s : HotPages) (start stop : BitVec 64) : Int × HotPages :=
  if s.hotpages = 0 then (0, s)
  else
    match (List.finRange MAX_HOTPAGE).find? fun i => 0 < (s.pages i).hotpage_count &&
      intervalIntersects start stop (s.pages i).hotpage ((s.pages i).top - 1) with
    | some i => (1, s.useUp i)
    | none => (0, s)

/-- One round of the loop that looks for the same address. -/
def extend (s : HotPages) (addr : BitVec 64) (i : Fin MAX_HOTPAGE) : Option HotPages :=
  let page := s.pages i
  if page.covers addr then
    some ({ s with hotpages := if page.hotpage_count = 0 then s.hotpages + 1 else s.hotpages }.setPage i
      { page with hotpage_count := HOTPAGE_STEP })
  else if addr = page.top then
    some (s.setPage i { page with hotpage_size := page.hotpage_size + 1, hotpage_count := HOTPAGE_STEP })
  else if addr + 0x1000 = page.hotpage then
    some (s.setPage i ⟨HOTPAGE_STEP, addr, page.hotpage_size + 1⟩)
  else none

def minidx (s : HotPages) : Fin MAX_HOTPAGE :=
  ((List.finRange MAX_HOTPAGE).drop 1).foldl
    (fun minidx i => if (s.pages i).hotpage_count < (s.pages minidx).hotpage_count then i else minidx) ⟨0, first_hotpage⟩

def replace (s : HotPages) (addr : BitVec 64) : HotPages :=
  let page := s.pages s.minidx
  if page.hotpage_count ≠ 0 then s.setPage s.minidx ⟨HOTPAGE_STEP, addr, 0⟩
  else { s with hotpages := s.hotpages + 1 }.setPage s.minidx ⟨HOTPAGE_STEP, addr, page.hotpage_size⟩

/-- `addr&=~0xfff` -/
def pageOf (addr : BitVec 64) : BitVec 64 := addr &&& ~~~0xfff

def addHotPage (s : HotPages) (addr : BitVec 64) : HotPages :=
  ((List.finRange MAX_HOTPAGE).findSome? (s.extend (pageOf addr))).getD (s.replace (pageOf addr))

/-- A call of one of the three functions. -/
inductive Call where
  | addHotPage (addr : BitVec 64)
  | isInHotPage (addr : BitVec 64)
  | areaInHotPage (start stop : BitVec 64)

def step (s : HotPages) : Call → Option HotPages
  | .addHotPage addr => some (s.addHotPage addr)
  | .isInHotPage addr => some (s.isInHotPage addr).2
  | .areaInHotPage start stop => some (s.areaInHotPage start stop).2

/-! ### What the counter is for -/

def positive (s : HotPages) : Finset (Fin MAX_HOTPAGE) := {i | 0 < (s.pages i).hotpage_count}

structure Tracked (s : HotPages) : Prop where
  counted : s.hotpages = s.positive.card
  reported : ∀ i ∈ s.positive, ∀ addr, (s.pages i).Inside addr → (s.isInHotPage addr).1 = 1

/-- `AddHotPage` grows a page that has no count left. -/
def GrowsIdle (s : HotPages) (addr : BitVec 64) : Prop :=
  ∃ i, (s.pages i).hotpage_count = 0 ∧ (s.pages i).covers addr = false ∧
    (addr = (s.pages i).top ∨ addr + 0x1000 = (s.pages i).hotpage) ∧ ∀ j < i, s.extend addr j = none

/-- No page without a count is grown, and no page at the end of the address space is added. -/
def Fits (s : HotPages) : Call → Prop
  | .addHotPage addr => ¬ s.GrowsIdle (pageOf addr) ∧ pageOf addr ≠ pageOf (-1)
  | _ => True

end HotPages

/-- What every page keeps: one without a count has no size, and one with a count ends in the address space. -/
structure HotPage.Ok (page : HotPage) : Prop where
  nonneg : 0 ≤ page.hotpage_count
  idle : page.hotpage_count = 0 → page.hotpage_size = 0
  aligned : page.hotpage.toNat % 0x1000 = 0
  ends : 0 < page.hotpage_count → page.hotpage.toNat + 0x1000 * (page.hotpage_size.toNat + 1) < 2 ^ 64

namespace HotPage

variable {page : HotPage} {addr : BitVec 64}

theorem toNat_top : page.top.toNat = (page.hotpage.toNat + 0x1000 * (page.hotpage_size.toNat + 1)) % 2 ^ 64 := by
  have step : (0x1000 : BitVec 64).toNat = 0x1000 := rfl
  have one : (1 : BitVec 64).toNat = 1 := rfl
  rw [top, BitVec.toNat_add, BitVec.toNat_mul, BitVec.toNat_add, step, one]
  omega

theorem covers_iff : page.covers addr = true ↔ page.hotpage.toNat ≤ addr.toNat ∧ addr.toNat < page.top.toNat := by
  rw [covers, decide_eq_true_iff, BitVec.le_def, BitVec.lt_def]

theorem Ok.covers_of_inside (ok : page.Ok) (positive : 0 < page.hotpage_count) (inside : page.Inside addr) :
    page.covers addr = true := by
  obtain ⟨low, high⟩ := inside
  rw [covers_iff, toNat_top, Nat.mod_eq_of_lt (ok.ends positive)]
  exact ⟨low, high⟩

theorem hotpage_step_pos : 0 < HOTPAGE_STEP := by decide

theorem ok_of_ends {start size : BitVec 64} (aligned : start.toNat % 0x1000 = 0)
    (ends : start.toNat + 0x1000 * (size.toNat + 1) < 2 ^ 64) : Ok ⟨HOTPAGE_STEP, start, size⟩ := by
  exact ⟨hotpage_step_pos.le, fun zero => absurd zero hotpage_step_pos.ne', aligned, fun _ => ends⟩

theorem Ok.revived (ok : page.Ok) (covered : page.covers addr = true) :
    Ok ⟨HOTPAGE_STEP, page.hotpage, page.hotpage_size⟩ := by
  refine ok_of_ends ok.aligned ?_
  obtain positive | zero := ok.nonneg.lt_or_eq
  · exact ok.ends positive
  · obtain ⟨low, high⟩ := covers_iff.mp covered
    have aligned := ok.aligned
    have small := page.hotpage.isLt
    have none : page.hotpage_size.toNat = 0 := congrArg BitVec.toNat (ok.idle zero.symm)
    rw [toNat_top] at high
    omega

theorem toNat_succ {size : BitVec 64} (room : size.toNat + 1 < 2 ^ 64) : (size + 1).toNat = size.toNat + 1 := by
  have one : (1 : BitVec 64).toNat = 1 := rfl
  rw [BitVec.toNat_add, one, Nat.mod_eq_of_lt room]

theorem bytes_succ (size : BitVec 64) (room : size.toNat + 1 < 2 ^ 64) :
    0x1000 * ((size + 1).toNat + 1) = 0x1000 * (size.toNat + 1) + 0x1000 := by
  rw [toNat_succ room, Nat.mul_succ]

theorem Ok.grownUp (ok : page.Ok) (positive : 0 < page.hotpage_count) (room : page.top.toNat + 0x1000 < 2 ^ 64) :
    Ok ⟨HOTPAGE_STEP, page.hotpage, page.hotpage_size + 1⟩ := by
  refine ok_of_ends ok.aligned ?_
  have ends := ok.ends positive
  rw [toNat_top, Nat.mod_eq_of_lt ends] at room
  rw [bytes_succ page.hotpage_size (by omega), ← Nat.add_assoc]
  exact room

theorem Ok.grownDown (ok : page.Ok) (positive : 0 < page.hotpage_count) (below : addr + 0x1000 = page.hotpage)
    (room : addr.toNat + 0x1000 < 2 ^ 64) (aligned : addr.toNat % 0x1000 = 0) :
    Ok ⟨HOTPAGE_STEP, addr, page.hotpage_size + 1⟩ := by
  refine ok_of_ends aligned ?_
  have ends := ok.ends positive
  have step : (0x1000 : BitVec 64).toNat = 0x1000 := rfl
  rw [← below, BitVec.toNat_add, step, Nat.mod_eq_of_lt room] at ends
  rw [bytes_succ page.hotpage_size (by omega), Nat.add_comm (_ * _), ← Nat.add_assoc]
  exact ends

end HotPage

namespace HotPages

variable {s : HotPages} {addr : BitVec 64} {i : Fin MAX_HOTPAGE}

theorem toNat_pageOf : (pageOf addr).toNat = addr.toNat / 0x1000 * 0x1000 := by
  have mask : ~~~(0xfff : BitVec 64) = BitVec.allOnes 64 <<< 12 := by decide
  have shifted : pageOf addr = addr >>> 12 <<< 12 := by
    rw [pageOf, mask, BitVec.shiftLeft_ushiftRight]
  have small := addr.isLt
  rw [shifted, BitVec.toNat_shiftLeft, BitVec.toNat_ushiftRight, Nat.shiftRight_eq_div_pow, Nat.shiftLeft_eq]
  omega

theorem mem_positive : i ∈ s.positive ↔ 0 < (s.pages i).hotpage_count := by
  rw [positive, Finset.mem_filter, and_iff_right (Finset.mem_univ i)]

theorem pages_setPage {page : HotPage} : (s.setPage i page).pages i = page := by
  simp [setPage]

theorem pages_setPage_of_ne {page : HotPage} {j : Fin MAX_HOTPAGE} (other : j ≠ i) :
    (s.setPage i page).pages j = s.pages j := by
  simp [setPage, other]

theorem positive_setPage {page : HotPage} : (s.setPage i page).positive =
    if 0 < page.hotpage_count then insert i s.positive else s.positive.erase i := by
  ext j
  rw [mem_positive, setPage]
  by_cases same : j = i
  · subst same
    split <;> simp [*]
  · split <;> simp [same, mem_positive]

/-- The counter is right and every page is. -/
structure Inv (s : HotPages) : Prop where
  counted : s.hotpages = s.positive.card
  ok : ∀ i, (s.pages i).Ok

theorem positive_of_found {hot : Fin MAX_HOTPAGE → Bool}
    (found : (List.finRange MAX_HOTPAGE).find? (fun i => 0 < (s.pages i).hotpage_count && hot i) = some i) :
    i ∈ s.positive ∧ hot i = true := by
  have here := List.find?_some found
  rw [Bool.and_eq_true, decide_eq_true_iff] at here
  exact ⟨mem_positive.mpr here.1, here.2⟩

theorem isInHotPage_eq_one : (s.isInHotPage addr).1 = 1 ↔
    s.hotpages ≠ 0 ∧ ∃ i ∈ s.positive, (s.pages i).covers addr = true := by
  rw [isInHotPage]
  split
  case isTrue zero => simp [zero]
  case isFalse some =>
    split
    case h_1 i found =>
      exact iff_of_true rfl ⟨some, i, positive_of_found found⟩
    case h_2 none =>
      refine iff_of_false zero_ne_one ?_
      rintro ⟨-, i, mem, covered⟩
      have away := List.find?_eq_none.mp none i (List.mem_finRange i)
      rw [decide_eq_true (mem_positive.mp mem), covered] at away
      exact away rfl

theorem Inv.tracked (inv : s.Inv) : s.Tracked := by
  refine ⟨inv.counted, ?_⟩
  intro i mem addr inside
  have positive := mem_positive.mp mem
  rw [isInHotPage_eq_one, inv.counted]
  refine ⟨?_, i, mem, (inv.ok i).covers_of_inside positive inside⟩
  exact_mod_cast Finset.card_ne_zero_of_mem mem

theorem addHotPage_cases (s : HotPages) (addr : BitVec 64) :
    (∃ i, s.extend (pageOf addr) i = some (s.addHotPage addr) ∧ ∀ j < i, s.extend (pageOf addr) j = none) ∨
      (∀ i, s.extend (pageOf addr) i = none) ∧ s.addHotPage addr = s.replace (pageOf addr) := by
  rw [addHotPage]
  cases found : (List.finRange MAX_HOTPAGE).findSome? (s.extend (pageOf addr)) with
  | none => exact Or.inr ⟨fun i => List.findSome?_eq_none_iff.mp found i (List.mem_finRange i), rfl⟩
  | some s' =>
    left
    obtain ⟨before, i, after, all, extended, missed⟩ := List.findSome?_eq_some_iff.mp found
    refine ⟨i, extended, ?_⟩
    intro j lt
    have mem : j ∈ before ++ i :: after := all ▸ List.mem_finRange j
    have sorted := all ▸ List.pairwise_lt_finRange MAX_HOTPAGE
    obtain here | later := List.mem_append.mp mem
    · exact missed j here
    · obtain ⟨-, tail, -⟩ := List.pairwise_append.mp sorted
      obtain rfl | behind := List.mem_cons.mp later
      · exact absurd lt (lt_irrefl _)
      · exact absurd (List.rel_of_pairwise_cons tail behind) (lt_asymm lt)

theorem extend_cases {s' : HotPages} (extended : s.extend addr i = some s') :
    ((s.pages i).covers addr = true ∧
      s' = { s with hotpages := if (s.pages i).hotpage_count = 0 then s.hotpages + 1 else s.hotpages }.setPage i
        { s.pages i with hotpage_count := HOTPAGE_STEP }) ∨
    ((s.pages i).covers addr = false ∧ addr = (s.pages i).top ∧
      s' = s.setPage i ⟨HOTPAGE_STEP, (s.pages i).hotpage, (s.pages i).hotpage_size + 1⟩) ∨
    ((s.pages i).covers addr = false ∧ addr + 0x1000 = (s.pages i).hotpage ∧
      s' = s.setPage i ⟨HOTPAGE_STEP, addr, (s.pages i).hotpage_size + 1⟩) := by
  unfold extend at extended
  dsimp only at extended
  split at extended
  case isTrue covered => exact Or.inl ⟨covered, (Option.some.inj extended).symm⟩
  case isFalse away =>
    right
    have away := Bool.eq_false_iff.mpr away
    split at extended
    case isTrue above => exact Or.inl ⟨away, above, (Option.some.inj extended).symm⟩
    case isFalse =>
      split at extended
      case isTrue below => exact Or.inr ⟨away, below, (Option.some.inj extended).symm⟩
      case isFalse => cases extended

/-! ### What a call keeps -/

theorem Inv.setPage (inv : s.Inv) {page : HotPage} {hotpages : Int} (ok : page.Ok)
    (counted : hotpages = ({ s with hotpages }.setPage i page).positive.card) :
    ({ s with hotpages }.setPage i page).Inv := by
  refine ⟨counted, ?_⟩
  intro j
  by_cases same : j = i
  · rw [same, pages_setPage]
    exact ok
  · rw [pages_setPage_of_ne same]
    exact inv.ok j

theorem Inv.useUp (inv : s.Inv) (mem : i ∈ s.positive) : (s.useUp i).Inv := by
  have positive := mem_positive.mp mem
  have page := inv.ok i
  have counted := inv.counted
  have some_page := Finset.card_pos.mpr ⟨i, mem⟩
  rw [HotPages.useUp]
  split
  case isTrue last =>
    refine inv.setPage ⟨le_rfl, fun _ => rfl, page.aligned, fun pos => absurd pos (lt_irrefl _)⟩ ?_
    rw [positive_setPage, if_neg (lt_irrefl _)]
    change s.hotpages - 1 = ((s.positive.erase i).card : Int)
    rw [Finset.card_erase_of_mem mem]
    omega
  case isFalse more =>
    refine inv.setPage ⟨by dsimp only; omega, fun zero => absurd zero more, page.aligned, fun _ => page.ends positive⟩ ?_
    rw [positive_setPage, if_pos (by dsimp only; omega), Finset.insert_eq_of_mem mem]
    exact counted

theorem Inv.isInHotPage (inv : s.Inv) (addr : BitVec 64) : (s.isInHotPage addr).2.Inv := by
  rw [HotPages.isInHotPage]
  split
  case isTrue => exact inv
  case isFalse =>
    split
    case h_1 i found =>
      obtain ⟨mem, -⟩ := positive_of_found found
      exact inv.useUp mem
    case h_2 => exact inv

theorem Inv.areaInHotPage (inv : s.Inv) (start stop : BitVec 64) : (s.areaInHotPage start stop).2.Inv := by
  rw [HotPages.areaInHotPage]
  split
  case isTrue => exact inv
  case isFalse =>
    split
    case h_1 i found =>
      obtain ⟨mem, -⟩ := positive_of_found found
      exact inv.useUp mem
    case h_2 => exact inv

/-- A page that gets a count again. -/
theorem Inv.counts (inv : s.Inv) {page : HotPage} (ok : page.Ok) (positive : 0 < page.hotpage_count) :
    ({ s with hotpages := if (s.pages i).hotpage_count = 0 then s.hotpages + 1 else s.hotpages }.setPage i page).Inv := by
  have counted := inv.counted
  refine inv.setPage ok ?_
  rw [positive_setPage, if_pos positive]
  change _ = ((insert i s.positive).card : Int)
  split
  case isTrue zero =>
    have out : i ∉ s.positive := fun mem => absurd (mem_positive.mp mem) (by omega)
    rw [Finset.card_insert_of_notMem out]
    push_cast
    omega
  case isFalse some =>
    have nonneg := (inv.ok i).nonneg
    rw [Finset.insert_eq_of_mem (mem_positive.mpr (by omega))]
    exact counted

theorem Inv.keeps (inv : s.Inv) {page : HotPage} (ok : page.Ok) (positive : 0 < page.hotpage_count)
    (mem : i ∈ s.positive) : (s.setPage i page).Inv := by
  have some : (s.pages i).hotpage_count ≠ 0 := (mem_positive.mp mem).ne'
  have counts := inv.counts (i := i) ok positive
  rw [if_neg some] at counts
  exact counts

theorem Inv.replace (inv : s.Inv) (room : addr.toNat + 0x1000 < 2 ^ 64) (aligned : addr.toNat % 0x1000 = 0) :
    (s.replace addr).Inv := by
  have fresh : HotPage.Ok ⟨HOTPAGE_STEP, addr, 0⟩ := HotPage.ok_of_ends aligned room
  rw [HotPages.replace]
  split
  case isTrue some =>
    have nonneg := (inv.ok s.minidx).nonneg
    exact inv.keeps fresh HotPage.hotpage_step_pos (mem_positive.mpr (by omega))
  case isFalse none =>
    have none := not_not.mp none
    have counts := inv.counts (i := s.minidx) fresh HotPage.hotpage_step_pos
    rw [if_pos none] at counts
    rw [(inv.ok s.minidx).idle none]
    exact counts

theorem last_page : (pageOf (-1)).toNat = 2 ^ 64 - 0x1000 := by decide

theorem room (away : pageOf addr ≠ pageOf (-1)) : (pageOf addr).toNat + 0x1000 < 2 ^ 64 := by
  have other : (pageOf addr).toNat ≠ (pageOf (-1)).toNat := fun same => away (BitVec.eq_of_toNat_eq same)
  have small := addr.isLt
  rw [last_page] at other
  rw [toNat_pageOf] at other ⊢
  omega

theorem pageOf_aligned : (pageOf addr).toNat % 0x1000 = 0 := by
  rw [toNat_pageOf, Nat.mul_mod_left]

theorem Inv.positive_of_adjoins (inv : s.Inv) (grows : ¬ s.GrowsIdle addr) (away : (s.pages i).covers addr = false)
    (adjoins : addr = (s.pages i).top ∨ addr + 0x1000 = (s.pages i).hotpage)
    (missed : ∀ j < i, s.extend addr j = none) : i ∈ s.positive := by
  rw [mem_positive]
  exact (inv.ok i).nonneg.lt_of_ne fun zero => grows ⟨i, zero.symm, away, adjoins, missed⟩

theorem Inv.addHotPage (inv : s.Inv) (grows : ¬ s.GrowsIdle (pageOf addr)) (away : pageOf addr ≠ pageOf (-1)) :
    (s.addHotPage addr).Inv := by
  have room := room away
  obtain ⟨i, extended, missed⟩ | ⟨-, replaced⟩ := addHotPage_cases s addr
  · have ok := inv.ok i
    obtain ⟨covered, revived⟩ | ⟨away, above, grown⟩ | ⟨away, below, grown⟩ := extend_cases extended
    · rw [revived]
      exact inv.counts (ok.revived covered) HotPage.hotpage_step_pos
    · have mem := inv.positive_of_adjoins grows away (Or.inl above) missed
      rw [above] at room
      rw [grown]
      exact inv.keeps (ok.grownUp (mem_positive.mp mem) room) HotPage.hotpage_step_pos mem
    · have mem := inv.positive_of_adjoins grows away (Or.inr below) missed
      rw [grown]
      exact inv.keeps (ok.grownDown (mem_positive.mp mem) below room pageOf_aligned) HotPage.hotpage_step_pos mem
  · rw [replaced]
    exact inv.replace room pageOf_aligned

theorem initial_inv : initial.Inv := by
  have none : initial.positive = ∅ := Finset.filter_false_of_mem fun _ _ => lt_irrefl 0
  refine ⟨?_, fun _ => ⟨le_rfl, fun _ => rfl, rfl, fun positive => absurd positive (lt_irrefl _)⟩⟩
  rw [none]
  rfl

theorem step_keeps (s : HotPages) (call : Call) (s' : HotPages) (inv : s.Inv) (fits : s.Fits call)
    (next : s.step call = some s') : s'.Inv := by
  cases call with
  | addHotPage addr =>
    obtain rfl := Option.some.inj next
    exact inv.addHotPage fits.1 fits.2
  | isInHotPage addr =>
    obtain rfl := Option.some.inj next
    exact inv.isInHotPage addr
  | areaInHotPage start stop =>
    obtain rfl := Option.some.inj next
    exact inv.areaInHotPage start stop

/-! ### What goes wrong -/

theorem extend_ne_none (adjoins : addr = (s.pages i).top ∨ addr + 0x1000 = (s.pages i).hotpage) :
    s.extend addr i ≠ none := by
  unfold extend
  dsimp only
  split
  · exact Option.some_ne_none _
  · split
    · exact Option.some_ne_none _
    · split
      · exact Option.some_ne_none _
      · next above below => exact (adjoins.elim above below).elim

/-- A page that gets a count which the counter does not notice. -/
theorem untracked_of_uncounted (inv : s.Inv) {page : HotPage} (zero : (s.pages i).hotpage_count = 0)
    (positive : 0 < page.hotpage_count) : ¬ (s.setPage i page).Tracked := by
  rintro ⟨counted, -⟩
  have out : i ∉ s.positive := fun mem => absurd (mem_positive.mp mem) (by omega)
  rw [positive_setPage, if_pos positive, Finset.card_insert_of_notMem out] at counted
  have before := inv.counted
  have same : (s.setPage i page).hotpages = s.hotpages := rfl
  push_cast at counted
  omega

theorem Inv.untracked_of_growsIdle (inv : s.Inv) (grows : s.GrowsIdle (pageOf addr)) :
    ¬ (s.addHotPage addr).Tracked := by
  obtain ⟨i, zero, away, adjoins, missed⟩ := grows
  have some := extend_ne_none adjoins
  obtain ⟨k, extended, missed'⟩ | ⟨none, -⟩ := addHotPage_cases s addr
  · obtain before | rfl | after := lt_trichotomy k i
    · rw [missed k before] at extended
      cases extended
    · obtain ⟨covered, -⟩ | ⟨-, -, grown⟩ | ⟨-, -, grown⟩ := extend_cases extended
      · exact absurd (covered.symm.trans away) (by decide)
      · rw [grown]
        exact untracked_of_uncounted inv zero HotPage.hotpage_step_pos
      · rw [grown]
        exact untracked_of_uncounted inv zero HotPage.hotpage_step_pos
    · exact absurd (missed' i after) some
  · exact absurd (none i) some

theorem not_covers_last {page : HotPage} (ok : page.Ok) : page.covers (pageOf (-1)) = false := by
  rw [Bool.eq_false_iff]
  intro covered
  obtain ⟨low, high⟩ := HotPage.covers_iff.mp covered
  have aligned := ok.aligned
  rw [last_page] at low high
  rw [HotPage.toNat_top] at high
  obtain positive | zero := ok.nonneg.lt_or_eq
  · have ends := ok.ends positive
    omega
  · have none : page.hotpage_size.toNat = 0 := congrArg BitVec.toNat (ok.idle zero.symm)
    omega

/-- A page that wraps around the address space hides its part before the end. -/
theorem untracked_of_wrapped (inv : s.Inv) {hotpages : Int} {start size : BitVec 64} {bytes : Nat}
    (length : 0x1000 * (size.toNat + 1) = bytes) (low : start.toNat ≤ 2 ^ 64 - 0x1000)
    (wraps : 2 ^ 64 ≤ start.toNat + bytes) (once : start.toNat + bytes ≤ 2 ^ 65 - 0x1000) :
    ¬ ({ s with hotpages }.setPage i ⟨HOTPAGE_STEP, start, size⟩).Tracked := by
  rintro ⟨-, reported⟩
  generalize named : HotPage.mk HOTPAGE_STEP start size = page at reported
  have positive : 0 < page.hotpage_count := named ▸ HotPage.hotpage_step_pos
  have inside : page.Inside (pageOf (-1)) := by
    rw [← named, HotPage.Inside, last_page, length]
    dsimp only
    omega
  have hidden : ¬ page.covers (pageOf (-1)) = true := by
    rw [← named, HotPage.covers_iff, last_page, HotPage.toNat_top, length]
    dsimp only
    omega
  have here : ({ s with hotpages }.setPage i page).pages i = page := pages_setPage
  have mem : i ∈ ({ s with hotpages }.setPage i page).positive := by rwa [mem_positive, here]
  obtain ⟨-, j, -, covered⟩ := isInHotPage_eq_one.mp (reported i mem (pageOf (-1)) (here.symm ▸ inside))
  by_cases same : j = i
  · rw [same, here] at covered
    exact hidden covered
  · have other : ({ s with hotpages }.setPage i page).pages j = s.pages j := pages_setPage_of_ne same
    rw [other, not_covers_last (inv.ok j)] at covered
    cases covered

theorem Inv.untracked_of_last (inv : s.Inv) (grows : ¬ s.GrowsIdle (pageOf addr)) (last : pageOf addr = pageOf (-1)) :
    ¬ (s.addHotPage addr).Tracked := by
  have at_last : (pageOf addr).toNat = 2 ^ 64 - 0x1000 := last ▸ last_page
  obtain ⟨i, extended, missed⟩ | ⟨-, replaced⟩ := addHotPage_cases s addr
  · have ok := inv.ok i
    obtain ⟨covered, -⟩ | ⟨away, above, grown⟩ | ⟨away, below, grown⟩ := extend_cases extended
    · rw [last, not_covers_last ok] at covered
      cases covered
    · have mem := inv.positive_of_adjoins grows away (Or.inl above) missed
      have ends := ok.ends (mem_positive.mp mem)
      rw [above, HotPage.toNat_top, Nat.mod_eq_of_lt ends] at at_last
      have length := HotPage.bytes_succ (s.pages i).hotpage_size (by omega)
      rw [grown]
      exact untracked_of_wrapped inv length (by omega) (by omega) (by omega)
    · have mem := inv.positive_of_adjoins grows away (Or.inr below) missed
      have ends := ok.ends (mem_positive.mp mem)
      have start : (s.pages i).hotpage.toNat = 0 := by
        rw [← below, BitVec.toNat_add, at_last]
        rfl
      have length := HotPage.bytes_succ (s.pages i).hotpage_size (by omega)
      rw [grown]
      exact untracked_of_wrapped inv length (by omega) (by omega) (by omega)
  · have length : 0x1000 * ((0 : BitVec 64).toNat + 1) = 0x1000 := rfl
    rw [replaced, HotPages.replace]
    split
    case isTrue => exact untracked_of_wrapped inv length (by omega) (by omega) (by omega)
    case isFalse none =>
      rw [(inv.ok s.minidx).idle (not_not.mp none)]
      exact untracked_of_wrapped inv length (by omega) (by omega) (by omega)

theorem step_leaves (s : HotPages) (call : Call) (s' : HotPages) (inv : s.Inv) (bad : ¬ s.Fits call)
    (next : s.step call = some s') : ¬ s'.Tracked := by
  cases call with
  | addHotPage addr =>
    obtain rfl := Option.some.inj next
    by_cases grows : s.GrowsIdle (pageOf addr)
    · exact inv.untracked_of_growsIdle grows
    · exact inv.untracked_of_last grows (not_not.mp fun away => bad ⟨grows, away⟩)
  | isInHotPage addr => exact absurd trivial bad
  | areaInHotPage start stop => exact absurd trivial bad

open Runs

/-- The counter and the answers are right in every state of a run exactly if no call of `AddHotPage` in it grows a page
without a count or adds the last page of the address space. -/
theorem tracked_iff (calls : List Call) :
    Always step Tracked initial calls ↔ AllSteps step Fits initial calls :=
  always_iff_allSteps (fun _ inv => inv.tracked) step_keeps step_leaves initial_inv calls

/-- The page after the one that the untouched arrays name is taken for its growth. -/
theorem first_page_untracked : ¬ ∀ calls, Always step Tracked initial calls := by
  intro always
  have counted := (always [.addHotPage 0x1000] [.addHotPage 0x1000] (List.prefix_refl _) _ rfl).counted
  exact absurd counted (by decide +kernel)

end HotPages

end Box64.Dynarec
