import Box64.Custommem.MapMem
import Mathlib.Logic.Function.Basic

/-!
# The page protections

`custommem.c` keeps the protection of every 4KB page below 2^48 in chunks of 65536 bytes, one byte
a page. A chunk is allocated when a page of it is first written; until then, and again when it
becomes empty, its pointer is that of one shared chunk of zeros.
-/

namespace Box64.Custommem

open Function (update)

/-- `memprot` and what it points to. A pointer is a number: 0 is `memprot_default`, and `fresh`
is the next one that `calloc` returns. -/
structure MemProt where
  memprot : Nat → Nat
  chunk : Nat → Nat → BitVec 8
  fresh : Nat
  mapmem : List Mapmem

def initialMemProt : MemProt where
  memprot _ := 0
  chunk _ _ := 0
  fresh := 1
  mapmem := initialMapmem

def PROT_READ : BitVec 32 := 1
def PROT_WRITE : BitVec 32 := 2
def PROT_EXEC : BitVec 32 := 4
def PROT_DYNAREC : BitVec 32 := 0x80

/-- `addr>>MEMPROT_SHIFT`. -/
def pageOf (addr : BitVec 64) : Nat := (addr >>> 12).toNat

/-- The last page of a range; memory above 48 bits is not tracked. -/
def endPage (addr size : BitVec 64) : Nat :=
  if pageOf (addr + size - 1) ≥ 2 ^ 36 then 2 ^ 36 - 1 else pageOf (addr + size - 1)

namespace MemProt

/-- `memprot[i>>16][i&0xffff]`. -/
def page (s : MemProt) (i : Nat) : BitVec 8 := s.chunk (s.memprot (i / 65536)) (i % 65536)

def setByte (s : MemProt) (pointer offset : Nat) (v : BitVec 8) : MemProt :=
  { s with chunk := update s.chunk pointer (update (s.chunk pointer) offset v) }

def setPage (s : MemProt) (i : Nat) (v : BitVec 8) : MemProt := s.setByte (s.memprot (i / 65536)) (i % 65536) v

/-- `for (i=first; n>0; ++i, --n)`. -/
def forEach (f : MemProt → Nat → MemProt) (s : MemProt) (i : Nat) : Nat → MemProt
  | 0 => s
  | n + 1 => forEach f (f s i) (i + 1) n

def allocChunk (s : MemProt) (i : Nat) : MemProt :=
  if s.memprot i = 0 then
    { s with
      memprot := update s.memprot i s.fresh
      chunk := update s.chunk s.fresh (fun _ => 0)
      fresh := s.fresh + 1 }
  else s

/-- The loop that gives each chunk of the pages `idx` to `last` a block of its own. -/
def allocChunks (s : MemProt) (idx last : Nat) : MemProt :=
  forEach allocChunk s (idx / 65536) (last / 65536 + 1 - idx / 65536)

/-- The loop over the pages `idx` to `last`. -/
def forPages (f : MemProt → Nat → MemProt) (s : MemProt) (idx last : Nat) : MemProt :=
  forEach f s idx (last + 1 - idx)

def addMapMem (s : MemProt) (addr size : BitVec 64) : MemProt :=
  { s with mapmem := Custommem.addMapMem s.mapmem addr.toNat (addr + size - 1).toNat }

def removeMapMem (s : MemProt) (addr size : BitVec 64) : MemProt :=
  { s with mapmem := Custommem.removeMapMem s.mapmem addr.toNat (addr + size - 1).toNat }

/-- The body shared by the functions that write pages one by one. -/
def writePages (s : MemProt) (addr size : BitVec 64) (f : MemProt → Nat → MemProt) : MemProt :=
  let idx := pageOf addr
  let last := endPage addr size
  if last < idx then s else forPages f (s.allocChunks idx last) idx last

def updateProtection (s : MemProt) (addr size : BitVec 64) (prot : BitVec 32) : MemProt :=
  (s.addMapMem addr size).writePages addr size fun s i =>
    let dyn := (s.page i).setWidth 32 &&& PROT_DYNAREC
    s.setPage i ((prot ||| dyn).setWidth 8)

def setProtection (s : MemProt) (addr size : BitVec 64) (prot : BitVec 32) : MemProt :=
  (s.addMapMem addr size).writePages addr size fun s i => s.setPage i (prot.setWidth 8)

/-- `(((i|(MEMPROT_SIZE-1))<end)?(MEMPROT_SIZE-1):end)&(MEMPROT_SIZE-1)`: the last page of the loop
in the chunk of `i`. -/
def finish (i last : Nat) : Nat := (if i ||| 65535 < last then 65535 else last) % 65536

/-- The outer loop of `allocProtection`; each round ends with the chunk. -/
def allocLoop (prot : BitVec 32) (last : Nat) : Nat → MemProt → Nat → MemProt
  | 0, s, _ => s
  | fuel + 1, s, i =>
    if i ≤ last then
      let start := i % 65536
      let block := s.memprot (i / 65536)
      let s := forEach (fun s ii => if s.chunk block ii = 0 then s.setByte block ii (prot.setWidth 8) else s)
        s start (finish i last + 1 - start)
      allocLoop prot last fuel s (i + (finish i last - start) + 1)
    else s

def allocProtection (s : MemProt) (addr size : BitVec 64) (prot : BitVec 32) : MemProt :=
  let s := s.addMapMem addr size
  let idx := pageOf addr
  let last := endPage addr size
  if last < idx then s else allocLoop prot last (last + 1 - idx) (s.allocChunks idx last) idx

def blockEmpty (block : Nat → BitVec 8) : Bool := (List.range 65536).all fun o => block o == 0

/-- `memset(block+start, 0, finish-start+1)`. -/
def clear (block : Nat → BitVec 8) (start finish : Nat) : Nat → BitVec 8 := fun o =>
  if start ≤ o ∧ o ≤ finish then 0 else block o

/-- The loop of `freeProtection`; a round is one page of the shared chunk or the rest of another. -/
def freeLoop (last : Nat) : Nat → MemProt → Nat → MemProt
  | 0, s, _ => s
  | fuel + 1, s, i =>
    if i ≤ last then
      let key := i / 65536
      if s.memprot key ≠ 0 then
        let start := i % 65536
        let block := clear (s.chunk (s.memprot key)) start (finish i last)
        let s := { s with
          chunk := update s.chunk (s.memprot key) block
          memprot := if blockEmpty block then update s.memprot key 0 else s.memprot }
        freeLoop last fuel s (i + (finish i last - start) + 1)
      else freeLoop last fuel s (i + 1)
    else s

def freeProtection (s : MemProt) (addr size : BitVec 64) : MemProt :=
  let s := s.removeMapMem addr size
  let idx := pageOf addr
  let last := endPage addr size
  if last < idx then s else freeLoop last (last + 1 - idx) s idx

def getProtection (s : MemProt) (addr : BitVec 64) : BitVec 32 :=
  if addr ≥ 2 ^ 48 then 0 else (s.page (pageOf addr)).setWidth 32

/-! ### The invariant -/

/-- No two chunks share a block, and the shared chunk holds zeros. -/
structure WellFormed (s : MemProt) : Prop where
  below : ∀ c, s.memprot c < s.fresh
  apart : ∀ c d, s.memprot c = s.memprot d → s.memprot c ≠ 0 → c = d
  zeros : ∀ o, s.chunk 0 o = 0

theorem initial_wellFormed : WellFormed initialMemProt :=
  ⟨fun _ => Nat.zero_lt_one, fun _ _ _ owned => absurd rfl owned, fun _ => rfl⟩

/-- The chunk of page `i` has a block of its own. -/
def Owned (s : MemProt) (i : Nat) : Prop := s.memprot (i / 65536) ≠ 0

theorem page_of_not_owned {s : MemProt} (wf : WellFormed s) {i : Nat} (shared : ¬Owned s i) : s.page i = 0 := by
  unfold Owned at shared
  rw [page, not_not.mp shared]
  exact wf.zeros _

theorem setByte_wellFormed {s : MemProt} (wf : WellFormed s) {pointer offset : Nat} {v : BitVec 8}
    (owned : pointer ≠ 0) : WellFormed (s.setByte pointer offset v) := by
  refine ⟨wf.below, wf.apart, ?_⟩
  intro o
  unfold setByte
  dsimp only
  rw [Function.update_of_ne (Ne.symm owned)]
  exact wf.zeros o

/-- A byte written in the chunk of `i` is the protection of one page. -/
theorem page_setByte {s : MemProt} (wf : WellFormed s) {i o : Nat} {v : BitVec 8} (owned : Owned s i)
    (offset : o < 65536) (j : Nat) :
    (s.setByte (s.memprot (i / 65536)) o v).page j = if j = i / 65536 * 65536 + o then v else s.page j := by
  unfold page setByte
  dsimp only
  by_cases chunk : j / 65536 = i / 65536
  · rw [chunk, Function.update_self]
    by_cases here : j = i / 65536 * 65536 + o
    · rw [if_pos here]
      have same : j % 65536 = o := by omega
      rw [same, Function.update_self]
    · rw [if_neg here, Function.update_of_ne (by omega)]
  · rw [if_neg (by omega), Function.update_of_ne]
    intro same
    exact chunk (wf.apart _ _ same (fun zero => owned (same ▸ zero)))

/-- The pages from `lo` up to `hi` went through `f`, and no other changed. -/
structure Mapped (f : BitVec 8 → BitVec 8) (lo hi : Nat) (s t : MemProt) : Prop where
  wellFormed : WellFormed t
  page : ∀ j, t.page j = if lo ≤ j ∧ j < hi then f (s.page j) else s.page j

theorem Mapped.refl {s : MemProt} (wf : WellFormed s) (f : BitVec 8 → BitVec 8) {lo hi : Nat} (empty : hi ≤ lo) :
    Mapped f lo hi s s := by
  refine ⟨wf, fun j => ?_⟩
  rw [if_neg (by omega)]

theorem Mapped.trans {f : BitVec 8 → BitVec 8} {lo mid hi : Nat} {s t u : MemProt} (first : Mapped f lo mid s t)
    (second : Mapped f mid hi t u) (ordered : lo ≤ mid ∧ mid ≤ hi) : Mapped f lo hi s u := by
  refine ⟨second.wellFormed, fun j => ?_⟩
  rw [second.page j, first.page j]
  by_cases early : j < mid
  · rw [if_neg (by omega)]
    by_cases inside : lo ≤ j
    · rw [if_pos ⟨inside, early⟩, if_pos ⟨inside, by omega⟩]
    · rw [if_neg (by omega), if_neg (by omega)]
  · have late : ¬(lo ≤ j ∧ j < mid) := by omega
    rw [if_neg late]
    by_cases inside : j < hi
    · rw [if_pos (by omega), if_pos (by omega)]
    · rw [if_neg (by omega), if_neg (by omega)]

/-- A loop whose round `i` writes page `base + i` and no pointer. -/
theorem forEach_mapped (body : MemProt → Nat → MemProt) {f : BitVec 8 → BitVec 8} (base n : Nat) {s : MemProt} {i : Nat}
    (wf : WellFormed s)
    (step : ∀ t ii, WellFormed t → t.memprot = s.memprot → i ≤ ii → ii < i + n →
      Mapped f (base + ii) (base + ii + 1) t (body t ii) ∧ (body t ii).memprot = t.memprot) :
    Mapped f (base + i) (base + i + n) s (forEach body s i n) ∧ (forEach body s i n).memprot = s.memprot := by
  induction n generalizing s i with
  | zero => exact ⟨Mapped.refl wf f (by omega), rfl⟩
  | succ n ih =>
    obtain ⟨first, pointers⟩ := step s i wf rfl (Nat.le_refl i) (by omega)
    obtain ⟨rest, pointers'⟩ := ih (i := i + 1) first.wellFormed fun t ii wf' same low high =>
      step t ii wf' (same.trans pointers) (by omega) (by omega)
    have next : base + (i + 1) = base + i + 1 := by omega
    have total : base + i + 1 + n = base + i + (n + 1) := by omega
    rw [next, total] at rest
    exact ⟨first.trans rest (by omega), pointers'.trans pointers⟩

theorem setPage_mapped {s : MemProt} (wf : WellFormed s) {i : Nat} (owned : Owned s i) {f : BitVec 8 → BitVec 8} :
    Mapped f i (i + 1) s (s.setPage i (f (s.page i))) := by
  refine ⟨setByte_wellFormed wf owned, fun j => ?_⟩
  rw [setPage, page_setByte wf owned (by omega), Nat.div_add_mod']
  by_cases here : j = i
  · subst here
    rw [if_pos rfl, if_pos (by omega)]
  · rw [if_neg here, if_neg (by omega)]

/-! ### Allocating chunks -/

theorem allocChunk_wellFormed {s : MemProt} (wf : WellFormed s) (c : Nat) :
    WellFormed (s.allocChunk c) ∧ (∀ j, (s.allocChunk c).page j = s.page j) ∧ (s.allocChunk c).memprot c ≠ 0 ∧
      ∀ d, s.memprot d ≠ 0 → (s.allocChunk c).memprot d ≠ 0 := by
  unfold allocChunk
  split
  case isFalse owned => exact ⟨wf, fun _ => rfl, owned, fun _ h => h⟩
  case isTrue shared =>
    have positive : 0 < s.fresh := Nat.lt_of_le_of_lt (Nat.zero_le _) (wf.below c)
    have pointer : ∀ d, update s.memprot c s.fresh d = if d = c then s.fresh else s.memprot d := by
      intro d
      by_cases same : d = c <;> simp [update, same]
    refine ⟨⟨?_, ?_, ?_⟩, ?_, ?_, ?_⟩
    · intro d
      have below := wf.below d
      dsimp only
      rw [pointer]
      split <;> omega
    · intro d e same owned
      have belowD := wf.below d
      have belowE := wf.below e
      dsimp only at same owned
      rw [pointer, pointer] at same
      rw [pointer] at owned
      split at same
      · split at same
        · omega
        · omega
      · split at same
        · omega
        case isFalse other _ =>
          rw [if_neg other] at owned
          exact wf.apart d e same owned
    · intro o
      dsimp only
      rw [Function.update_of_ne (by omega)]
      exact wf.zeros o
    · intro j
      have below := wf.below (j / 65536)
      unfold page
      dsimp only
      rw [pointer]
      split
      case isTrue same => rw [Function.update_self, same, shared, wf.zeros]
      case isFalse other => rw [Function.update_of_ne (by omega)]
    · dsimp only
      rw [pointer, if_pos rfl]
      omega
    · intro d owned
      dsimp only
      rw [pointer]
      split
      · omega
      · exact owned

theorem allocChunks_wellFormed {s : MemProt} (wf : WellFormed s) (idx last : Nat) :
    WellFormed (s.allocChunks idx last) ∧ (∀ j, (s.allocChunks idx last).page j = s.page j) ∧
      ∀ j, idx ≤ j → j ≤ last → Owned (s.allocChunks idx last) j := by
  have loop : ∀ (n c : Nat) (t : MemProt), WellFormed t →
      WellFormed (forEach allocChunk t c n) ∧ (∀ j, (forEach allocChunk t c n).page j = t.page j) ∧
        ∀ d, t.memprot d ≠ 0 ∨ (c ≤ d ∧ d < c + n) → (forEach allocChunk t c n).memprot d ≠ 0 := by
    intro n
    induction n with
    | zero => exact fun c t wf => ⟨wf, fun _ => rfl, fun d owned => owned.resolve_right (by omega)⟩
    | succ n ih =>
      intro c t wf
      obtain ⟨wf', pages, here, kept⟩ := allocChunk_wellFormed wf c
      obtain ⟨wf'', pages', owned⟩ := ih (c + 1) _ wf'
      refine ⟨wf'', fun j => (pages' j).trans (pages j), fun d reached => owned d ?_⟩
      rcases reached with before | ⟨low, high⟩
      · exact .inl (kept d before)
      · by_cases first : d = c
        · exact .inl (first ▸ here)
        · exact .inr ⟨by omega, by omega⟩
  obtain ⟨wf', pages, owned⟩ := loop (last / 65536 + 1 - idx / 65536) (idx / 65536) s wf
  exact ⟨wf', pages, fun j low high => owned _ (.inr ⟨by omega, by omega⟩)⟩

/-- The list of mapped memory is no part of the table. -/
theorem WellFormed.mapmem {s : MemProt} (wf : WellFormed s) (list : List Mapmem) :
    WellFormed { s with mapmem := list } := ⟨wf.below, wf.apart, wf.zeros⟩

/-- What each of the functions does to the pages of its range. -/
def MapsRange (f : BitVec 8 → BitVec 8) (addr size : BitVec 64) (s t : MemProt) : Prop :=
  Mapped f (pageOf addr) (endPage addr size + 1) s t

theorem writePages_mapsRange {s : MemProt} (wf : WellFormed s) (addr size : BitVec 64) {f : BitVec 8 → BitVec 8}
    (body : MemProt → Nat → MemProt) (writes : ∀ t i, body t i = t.setPage i (f (t.page i))) :
    MapsRange f addr size s (s.writePages addr size body) := by
  unfold writePages MapsRange
  dsimp only
  split
  · exact Mapped.refl wf f (by omega)
  case isFalse ordered =>
    obtain ⟨wf', pages, owned⟩ := allocChunks_wellFormed wf (pageOf addr) (endPage addr size)
    obtain ⟨mapped, -⟩ := forEach_mapped body (f := f) 0 (endPage addr size + 1 - pageOf addr) wf'
      (i := pageOf addr) fun t i wf'' same low high => by
        have mine : Owned t i := by
          unfold Owned
          rw [same]
          exact owned i low (by omega)
        rw [Nat.zero_add, writes]
        exact ⟨setPage_mapped wf'' mine, rfl⟩
    have total : pageOf addr + (endPage addr size + 1 - pageOf addr) = endPage addr size + 1 := by omega
    rw [Nat.zero_add, total] at mapped
    refine ⟨mapped.wellFormed, fun j => ?_⟩
    rw [forPages, mapped.page j, pages j]

end MemProt

end Box64.Custommem
