import Box64.Custommem.ArenaWalk
import Box64.Lib.Transition

/-!
# `customMalloc` and `customFree`

The allocator behind box64's own data: a list of arenas, searched first to last for a free
sub-block, with a new arena when none suits.
-/

namespace Box64.Custommem

open Tiling ByteMemory

structure Blocklist where
  block : Nat
  maxfree : Nat
  size : Nat

/-- The memory, and the blocks `p_blocks[0..n_blocks)`. -/
structure Heap where
  mem : ByteMemory
  pBlocks : List Blocklist

def mmapSize : Nat := 256 * 1024

/-- The loop of `customMalloc` over `p_blocks`: the memory, the list and the address returned. -/
def findSpace (mem : ByteMemory) (size : Nat) :
    List Blocklist → Option (Option (ByteMemory × List Blocklist × Nat))
  | [] => some none
  | b :: rest =>
    let others := (findSpace mem size rest).map (·.map fun r => (r.1, b :: r.2.1, r.2.2))
    if b.maxfree ≥ size then
      match getFirstBlock mem b.block size none b.size with
      | none => none
      | some none => others
      | some (some (sub, rsize)) =>
        (allocBlock mem sub size none b.size).bind fun (mem, ret, _) =>
          (if rsize = b.maxfree then getMaxFreeBlock mem b.block b.size none b.size else some b.maxfree).map
            fun maxfree => some (mem, { b with maxfree } :: rest, ret)
    else others

def allocSize (size : Nat) : Nat :=
  if (size + 2 * 8) % 2 ^ 64 > mmapSize then (size + 2 * 8) % 2 ^ 64 else mmapSize

/-- `calloc` of `n` bytes that returns `p`. -/
def calloc (mem : ByteMemory) (p n : Nat) : ByteMemory := fun a => if p ≤ a ∧ a < p + n then 0 else mem a

/-- The end of `customMalloc`: a new arena at `p`. -/
def addBlock (h : Heap) (size p : Nat) : Option (Heap × Nat) :=
  let mem := setupMarks (calloc h.mem p (allocSize size)) p (allocSize size)
  (allocBlock mem p size none (allocSize size)).bind fun (mem, ret, _) =>
    (getMaxFreeBlock mem p (allocSize size) none (allocSize size)).map fun maxfree =>
      ({ mem, pBlocks := h.pBlocks ++ [{ block := p, maxfree, size := allocSize size }] }, ret)

/-- `p` is what `calloc` returns when it is called. -/
def customMalloc (h : Heap) (size p : Nat) : Option (Heap × Nat) :=
  (findSpace h.mem size h.pBlocks).bind fun
    | some (mem, pBlocks, ret) => some ({ mem, pBlocks }, ret)
    | none => addBlock h size p

/-- The loop of `customFree` over `p_blocks`. -/
def freeIn (mem : ByteMemory) (addr : Nat) : List Blocklist → ByteMemory × List Blocklist
  | [] => (mem, [])
  | b :: rest =>
    if addr > b.block ∧ addr < b.block + b.size then
      let (mem, newfree, _) := freeBlock mem b.block (addr - 8) none
      (mem, (if b.maxfree < newfree then { b with maxfree := newfree } else b) :: rest)
    else
      let (mem, rest) := freeIn mem addr rest
      (mem, b :: rest)

def customFree (h : Heap) (addr : Nat) : Heap :=
  if addr = 0 then h
  else { mem := (freeIn h.mem addr h.pBlocks).1, pBlocks := (freeIn h.mem addr h.pBlocks).2 }

/-! ### Runs -/

/-- The heap, and the live allocations: each address with the size asked for. -/
structure MallocState where
  heap : Heap
  live : List (Nat × Nat)

inductive MallocCall where
  | malloc (size p : Nat)
  | free (addr : Nat)
  /-- The program stores a byte in one of its allocations, or outside every arena. -/
  | store (addr : Nat) (value : BitVec 8)

/-- `[p, p + n)` is memory that `calloc` may return. -/
def Fresh (blocks : List Blocklist) (p n : Nat) : Prop :=
  0 < p ∧ p + n ≤ 2 ^ 64 ∧ ∀ b ∈ blocks, p + n ≤ b.block ∨ b.block + b.size ≤ p

def Writable (s : MallocState) (addr : Nat) : Prop :=
  (∃ a ∈ s.live, a.1 ≤ addr ∧ addr < a.1 + a.2) ∨
    ∀ b ∈ s.heap.pBlocks, addr < b.block ∨ b.block + b.size ≤ addr

def mallocStep (s : MallocState) : MallocCall → MallocState → Prop
  | .malloc size p, t =>
    1 ≤ size ∧ size ≤ 2 ^ 31 - 17 ∧
      (findSpace s.heap.mem size s.heap.pBlocks = some none → Fresh s.heap.pBlocks p (allocSize size)) ∧
      ∃ ret, customMalloc s.heap size p = some (t.heap, ret) ∧ t.live = (ret, size) :: s.live
  | .free addr, t =>
    ∃ size, (addr, size) ∈ s.live ∧ t.heap = customFree s.heap addr ∧ t.live = s.live.erase (addr, size)
  | .store addr value, t =>
    Writable s addr ∧ t = { s with heap.mem := Function.update s.heap.mem addr value }

/-- Every sequence of calls, from no arena at all. -/
def allocator : Transition.System MallocState MallocCall where
  init s := s.heap.pBlocks = [] ∧ s.live = []
  step := mallocStep

/-! ### The invariant -/

/-- The cached `maxfree` is the size of a free sub-block, or 0. -/
def MaxfreeKept (b : Blocklist) (ts : List Mark) : Prop :=
  b.maxfree = 0 ∨ ∃ t ∈ ts, t.fill = false ∧ t.size = b.maxfree

/-- The live allocation `a` has a sub-block in use, large enough, among those of `b`. -/
def Holds (b : Blocklist) (ts : List Mark) (a : Nat × Nat) : Prop :=
  ∃ x n, (x, (⟨n, true⟩ : Mark)) ∈ place 8 b.block ts ∧ a.1 = x + 8 ∧ a.2 ≤ n

def Apart (b c : Blocklist) : Prop := b.block + b.size ≤ c.block ∨ c.block + c.size ≤ b.block

instance : Std.Symm Apart := ⟨fun _ _ => Or.symm⟩

/-- `tiles` gives the sub-blocks of the arena at each address. -/
structure HeapWellFormed (s : MallocState) (tiles : Nat → List Mark) : Prop where
  arena : ∀ b ∈ s.heap.pBlocks, Arena s.heap.mem b.block b.size (tiles b.block)
  maxfree : ∀ b ∈ s.heap.pBlocks, MaxfreeKept b (tiles b.block)
  inside : ∀ b ∈ s.heap.pBlocks, 0 < b.block ∧ b.block + b.size ≤ 2 ^ 64
  apart : s.heap.pBlocks.Pairwise Apart
  holds : ∀ a ∈ s.live, ∃ b ∈ s.heap.pBlocks, Holds b (tiles b.block) a
  distinct : (s.live.map Prod.fst).Nodup

theorem Holds.within {mem : ByteMemory} {b : Blocklist} {ts : List Mark} {a : Nat × Nat}
    (holds : Holds b ts a) (laid : Laid mem b.block b.size ts) :
    b.block + 8 ≤ a.1 ∧ a.1 + a.2 + 8 ≤ b.block + b.size := by
  obtain ⟨x, n, placed, address, enough⟩ := holds
  have within := place_within placed
  have whole := laid.whole
  dsimp only at within
  omega

theorem Laid.size_ge {mem : ByteMemory} {block size : Nat} {ts : List Mark} (laid : Laid mem block size ts) :
    8 ≤ size := by
  have whole := laid.whole
  omega

/-- An arena at `b` with sub-blocks `ts`, put in the place of what was between `pre` and `post`. -/
theorem HeapWellFormed.replace {s : MallocState} {tiles : Nat → List Mark} (wf : HeapWellFormed s tiles)
    {pre post : List Blocklist} {b : Blocklist} {ts : List Mark} {mem : ByteMemory} {live : List (Nat × Nat)}
    (known : ∀ c ∈ pre ++ post, c ∈ s.heap.pBlocks)
    (others : (pre ++ post).Pairwise Apart)
    (apart : ∀ c ∈ pre ++ post, Apart c b)
    (same : ChangedIn b.block (b.block + b.size) s.heap.mem mem) (arena : Arena mem b.block b.size ts)
    (maxfree : MaxfreeKept b ts) (inside : 0 < b.block ∧ b.block + b.size ≤ 2 ^ 64)
    (holds : ∀ a ∈ live, Holds b ts a ∨ ∃ c ∈ pre ++ post, Holds c (tiles c.block) a)
    (distinct : (live.map Prod.fst).Nodup) :
    HeapWellFormed ⟨⟨mem, pre ++ b :: post⟩, live⟩ (Function.update tiles b.block ts) := by
  have elsewhere : ∀ c ∈ pre ++ post, c.block ≠ b.block := by
    intro c mem
    have hc := (wf.arena c (known c mem)).toLaid.size_ge
    have hb := arena.toLaid.size_ge
    rcases apart c mem with before | after <;> omega
  have members : ∀ c, c ∈ pre ++ b :: post → c = b ∨ c ∈ pre ++ post := by
    intro c mem
    rcases List.mem_append.mp mem with before | rest
    · exact .inr (List.mem_append_left _ before)
    · rcases List.mem_cons.mp rest with here | after
      · exact .inl here
      · exact .inr (List.mem_append_right _ after)
  refine ⟨?_, ?_, ?_, ?_, ?_, distinct⟩
  · intro c mem
    rcases members c mem with rfl | other
    · rw [Function.update_self]
      exact arena
    · rw [Function.update_of_ne (elsewhere c other)]
      have old := wf.arena c (known c other)
      exact ⟨old.toLaid.frame same (apart c other), old.separated⟩
  · intro c mem
    rcases members c mem with rfl | other
    · rw [Function.update_self]
      exact maxfree
    · rw [Function.update_of_ne (elsewhere c other)]
      exact wf.maxfree c (known c other)
  · intro c mem
    rcases members c mem with rfl | other
    · exact inside
    · exact wf.inside c (known c other)
  · rw [List.pairwise_append] at others ⊢
    obtain ⟨before, after, across⟩ := others
    refine ⟨before, List.pairwise_cons.mpr ⟨fun c mem => ?_, after⟩, fun c hc d hd => ?_⟩
    · exact (apart c (List.mem_append_right _ mem)).symm
    · rcases List.mem_cons.mp hd with rfl | later
      · exact apart c (List.mem_append_left _ hc)
      · exact across c hc d later
  · intro a mem
    rcases holds a mem with here | ⟨c, other, held⟩
    · exact ⟨b, by simp, by rwa [Function.update_self]⟩
    · refine ⟨c, ?_, by rwa [Function.update_of_ne (elsewhere c other)]⟩
      rcases List.mem_append.mp other with before | after
      · exact List.mem_append_left _ before
      · exact List.mem_append_right _ (List.mem_cons_of_mem _ after)

/-! ### Allocating -/

theorem getFirstBlock_spec {mem : ByteMemory} {block size : Nat} {ts : List Mark} (want : Nat)
    (laid : Laid mem block size ts) :
    getFirstBlock mem block want none size = some none ∨
      ∃ left n right, ts = left.reverse ++ ⟨n, false⟩ :: right ∧ want ≤ n ∧
        getFirstBlock mem block want none size = some (some (block + extent 8 left, n)) := by
  have start : Laid mem block size ([] ++ ts) := laid
  have search := firstFree_spec want start laid.length_lt
  rw [extent_nil, Nat.add_zero] at search
  rw [getFirstBlock, Option.getD_none, search]
  cases found : (place 8 block ts).find? (Suits want) with
  | none => exact .inl rfl
  | some p =>
    obtain ⟨x, n, fill⟩ := p
    have suits := List.find?_some found
    simp only [Suits, Bool.and_eq_true, Bool.not_eq_true', decide_eq_true_eq] at suits
    obtain ⟨rfl, fits⟩ := suits
    obtain ⟨pre, post, rfl, rfl⟩ := mem_place.mp (List.mem_of_find?_eq_some found)
    refine .inr ⟨pre.reverse, n, post, by simp, fits, ?_⟩
    rw [extent_reverse]
    rfl

theorem maxfreeKept_recomputed (b : Blocklist) (ts : List Mark) :
    MaxfreeKept { b with maxfree := atLeastMark (maxFree ts) } ts := by
  unfold MaxfreeKept atLeastMark
  dsimp only
  split
  · exact maxFree_attained ts
  · exact .inl rfl

/-- Giving away a free sub-block of another size than `maxfree` keeps `maxfree` right. -/
theorem maxfreeKept_other {b : Blocklist} {left right ys : List Mark} {n : Nat}
    (kept : MaxfreeKept b (left.reverse ++ ⟨n, false⟩ :: right)) (other : n ≠ b.maxfree) :
    MaxfreeKept b (left.reverse ++ ys ++ right) := by
  rcases kept with zero | ⟨t, mem, free, size⟩
  · exact .inl zero
  · refine .inr ⟨t, ?_, free, size⟩
    rcases List.mem_append.mp mem with before | rest
    · simp [List.mem_reverse.mp before]
    · rcases List.mem_cons.mp rest with rfl | after
      · exact absurd size other
      · simp [after]

/-- The choice of `customMalloc` among the arenas there are. -/
theorem findSpace_spec {mem : ByteMemory} {want : Nat} {tiles : Nat → List Mark} (pos : 1 ≤ want)
    (blocks : List Blocklist)
    (arenas : ∀ b ∈ blocks, Arena mem b.block b.size (tiles b.block) ∧ MaxfreeKept b (tiles b.block)) :
    findSpace mem want blocks = some none ∨
      ∃ pre b post left n right maxfree, blocks = pre ++ b :: post ∧
        tiles b.block = left.reverse ++ ⟨n, false⟩ :: right ∧ want ≤ n ∧
        MaxfreeKept { b with maxfree } (left.reverse ++ split 8 16 n want ++ right) ∧
        findSpace mem want blocks = some (some (allocMarks mem (b.block + extent 8 left) want,
          pre ++ { b with maxfree } :: post, b.block + extent 8 left + 8)) := by
  induction blocks with
  | nil => exact .inl rfl
  | cons b rest ih =>
    obtain ⟨arena, kept⟩ := arenas b List.mem_cons_self
    have later := ih (fun c mem => arenas c (List.mem_cons_of_mem _ mem))
    have others : (findSpace mem want rest).map (·.map fun r => (r.1, b :: r.2.1, r.2.2)) = some none ∨
        ∃ pre c post left n right maxfree, b :: rest = pre ++ c :: post ∧
          tiles c.block = left.reverse ++ ⟨n, false⟩ :: right ∧ want ≤ n ∧
          MaxfreeKept { c with maxfree } (left.reverse ++ split 8 16 n want ++ right) ∧
          (findSpace mem want rest).map (·.map fun r => (r.1, b :: r.2.1, r.2.2)) =
            some (some (allocMarks mem (c.block + extent 8 left) want,
              pre ++ { c with maxfree } :: post, c.block + extent 8 left + 8)) := by
      rcases later with none | ⟨pre, c, post, left, n, right, maxfree, rfl, sub, fits, kept', found⟩
      · exact .inl (by rw [none]; rfl)
      · exact .inr ⟨b :: pre, c, post, left, n, right, maxfree, rfl, sub, fits, kept', by rw [found]; rfl⟩
    unfold findSpace
    dsimp only
    split
    · rcases getFirstBlock_spec want arena.toLaid with none | ⟨left, n, right, sub, fits, found⟩
      · rw [none]
        exact others
      · rw [found]
        rw [sub] at arena kept
        have after := (arena.alloc (Nat.lt_of_lt_of_le Nat.zero_lt_one pos) fits).1
        refine .inr ⟨[], b, rest, left, n, right,
          if n = b.maxfree then atLeastMark (maxFree (left.reverse ++ split 8 16 n want ++ right)) else b.maxfree,
          rfl, sub, fits, ?_, ?_⟩
        · split
          · exact maxfreeKept_recomputed ..
          case isFalse other => exact maxfreeKept_other kept other
        · simp only [allocBlock, Option.bind_some, reduceCtorEq, if_false]
          split
          · rw [getMaxFreeBlock_all after.toLaid]
            rfl
          · rfl
    · exact others

/-- Two blocks of a list stay apart when one is given other contents. -/
theorem apart_of_split {pre post : List Blocklist} {b : Blocklist}
    (apart : (pre ++ b :: post).Pairwise Apart) :
    (pre ++ post).Pairwise Apart ∧
      ∀ c ∈ pre ++ post, Apart c b := by
  refine ⟨apart.sublist (by simp), fun c mem => ?_⟩
  obtain ⟨_, behind, across⟩ := List.pairwise_append.mp apart
  rcases List.mem_append.mp mem with before | after
  · exact across c before b List.mem_cons_self
  · exact ((List.pairwise_cons.mp behind).1 c after).symm

/-- No live allocation begins in a free sub-block. -/
theorem HeapWellFormed.unheld {s : MallocState} {tiles : Nat → List Mark} (wf : HeapWellFormed s tiles)
    {b : Blocklist} {x n : Nat} (present : b ∈ s.heap.pBlocks)
    (free : (x, (⟨n, false⟩ : Mark)) ∈ place 8 b.block (tiles b.block)) : x + 8 ∉ s.live.map Prod.fst := by
  intro mem
  obtain ⟨a, live, address⟩ := List.mem_map.mp mem
  obtain ⟨c, hc, held⟩ := wf.holds a live
  by_cases same : c = b
  · subst same
    obtain ⟨y, m, placed, start, -⟩ := held
    have coincide : y = x := by omega
    subst coincide
    cases place_functional (by decide) placed free
  · have outer := held.within (wf.arena c hc).toLaid
    have inner := place_within free
    have whole := (wf.arena b present).whole
    have apart := wf.apart.forall hc present same
    dsimp only at inner
    rcases apart with before | after <;> omega

/-- Giving away a free sub-block of an arena there is. -/
theorem customMalloc_reuses {s : MallocState} {tiles : Nat → List Mark} (wf : HeapWellFormed s tiles)
    {pre post : List Blocklist} {b : Blocklist} {left right : List Mark} {n want : Nat} (maxfree : Nat) (pos : 1 ≤ want)
    (blocks : s.heap.pBlocks = pre ++ b :: post) (sub : tiles b.block = left.reverse ++ ⟨n, false⟩ :: right)
    (fits : want ≤ n)
    (kept : MaxfreeKept { b with maxfree } (left.reverse ++ split 8 16 n want ++ right)) :
    HeapWellFormed
      ⟨⟨allocMarks s.heap.mem (b.block + extent 8 left) want, pre ++ { b with maxfree } :: post⟩,
        (b.block + extent 8 left + 8, want) :: s.live⟩
      (Function.update tiles b.block (left.reverse ++ split 8 16 n want ++ right)) := by
  have present : b ∈ s.heap.pBlocks := by simp [blocks]
  have arena := wf.arena b present
  rw [sub] at arena
  obtain ⟨arena', same⟩ := arena.alloc (Nat.lt_of_lt_of_le Nat.zero_lt_one pos) fits
  have apart := wf.apart
  rw [blocks] at apart
  obtain ⟨others, apart⟩ := apart_of_split apart
  have known : ∀ c ∈ pre ++ post, c ∈ s.heap.pBlocks := by
    intro c mem
    rw [blocks]
    exact List.Sublist.subset (by simp) mem
  have free : (b.block + extent 8 left, (⟨n, false⟩ : Mark)) ∈ place 8 b.block (tiles b.block) := by
    rw [sub, place_zipper]
    simp
  refine wf.replace known others apart same arena' kept (wf.inside b present) ?_ ?_
  · intro a mem
    rcases List.mem_cons.mp mem with rfl | old
    · obtain ⟨m, rest, head, enough, -⟩ := split_head (h := 8) 16 fits
      refine .inl ⟨b.block + extent 8 left, m, ?_, rfl, enough⟩
      rw [List.append_assoc, head, List.cons_append, place_zipper]
      simp
    · obtain ⟨c, hc, held⟩ := wf.holds a old
      rw [blocks] at hc
      rcases List.mem_append.mp hc with before | rest
      · exact .inr ⟨c, List.mem_append_left _ before, held⟩
      · rcases List.mem_cons.mp rest with rfl | after
        · obtain ⟨x, m, placed, address, enough⟩ := held
          rw [sub] at placed
          exact .inl ⟨x, m, split_used (by decide) placed rfl, address, enough⟩
        · exact .inr ⟨c, List.mem_append_right _ after, held⟩
  · rw [List.map_cons, List.nodup_cons]
    exact ⟨wf.unheld present free, wf.distinct⟩

theorem changedIn_calloc (mem : ByteMemory) (p n : Nat) : ChangedIn p (p + n) mem (calloc mem p n) := by
  intro a out
  rw [calloc, if_neg (by omega)]

theorem allocSize_spec {size : Nat} (small : size < 2 ^ 31) :
    size + 16 ≤ allocSize size ∧ allocSize size < 2 ^ 31 + 16 := by
  unfold allocSize mmapSize
  split <;> omega

theorem setupArena (mem : ByteMemory) (p : Nat) {size want : Nat} (pos : 1 ≤ want) (enough : want + 16 ≤ size)
    (bounded : size < 2 ^ 31 + 16) :
    Arena (allocMarks (setupMarks mem p size) p want) p size (split 8 16 (size - 16) want) ∧
      ChangedIn p (p + size) mem (allocMarks (setupMarks mem p size) p want) := by
  obtain ⟨arena, marks⟩ := setupMarks_spec mem p (show 16 < size by omega) bounded
  have whole : Arena (setupMarks mem p size) p size ([].reverse ++ ⟨size - 16, false⟩ :: []) := arena
  obtain ⟨arena', same⟩ := whole.alloc (Nat.lt_of_lt_of_le Nat.zero_lt_one pos)
    (show want ≤ size - 16 by omega)
  rw [extent_nil, Nat.add_zero] at arena' same
  rw [List.reverse_nil, List.nil_append, List.append_nil] at arena'
  exact ⟨arena', marks.trans same⟩

/-- A new arena at `p`, and the sub-block given away in it. -/
theorem HeapWellFormed.addArena {s : MallocState} {tiles : Nat → List Mark} (wf : HeapWellFormed s tiles)
    {mem : ByteMemory} {size want p : Nat} (maxfree : Nat) (pos : 1 ≤ want) (enough : want + 16 ≤ size)
    (bounded : size < 2 ^ 31 + 16) (fresh : Fresh s.heap.pBlocks p size)
    (cleared : ChangedIn p (p + size) s.heap.mem mem)
    (kept : MaxfreeKept { block := p, maxfree := maxfree, size := size } (split 8 16 (size - 16) want)) :
    HeapWellFormed ⟨⟨allocMarks (setupMarks mem p size) p want,
        s.heap.pBlocks ++ [{ block := p, maxfree := maxfree, size := size }]⟩, (p + 8, want) :: s.live⟩
      (Function.update tiles p (split 8 16 (size - 16) want)) := by
  obtain ⟨positive, below, outside⟩ := fresh
  obtain ⟨arena, same⟩ := setupArena mem p pos enough bounded
  obtain ⟨m, rest, head, fits, -⟩ := split_head (h := 8) 16 (show want ≤ size - 16 by omega)
  refine wf.replace (b := { block := p, maxfree := maxfree, size := size }) ?_ ?_ ?_ ?_ arena kept
    ⟨positive, below⟩ ?_ ?_
  · simp
  · simpa using wf.apart
  · intro c mem
    rw [List.append_nil] at mem
    exact (outside c mem).symm
  · exact cleared.trans same
  · intro a mem
    rcases List.mem_cons.mp mem with rfl | old
    · refine .inl ⟨p, m, ?_, rfl, fits⟩
      rw [head]
      exact List.mem_cons_self
    · exact .inr (by simpa using wf.holds a old)
  · rw [List.map_cons, List.nodup_cons]
    refine ⟨?_, wf.distinct⟩
    intro mem
    obtain ⟨a, live, address⟩ := List.mem_map.mp mem
    obtain ⟨c, hc, held⟩ := wf.holds a live
    have within := held.within (wf.arena c hc).toLaid
    rcases outside c hc with before | after <;> omega

theorem addBlock_wellFormed {s : MallocState} {tiles : Nat → List Mark} (wf : HeapWellFormed s tiles)
    {want p : Nat} (pos : 1 ≤ want) (small : want < 2 ^ 31)
    (fresh : Fresh s.heap.pBlocks p (allocSize want)) :
    ∃ h ret tiles', addBlock s.heap want p = some (h, ret) ∧ HeapWellFormed ⟨h, (ret, want) :: s.live⟩ tiles' := by
  obtain ⟨enough, bounded⟩ := allocSize_spec small
  have cleared := changedIn_calloc s.heap.mem p (allocSize want)
  have kept := maxfreeKept_recomputed { block := p, maxfree := 0, size := allocSize want }
    (split 8 16 (allocSize want - 16) want)
  refine ⟨_, p + 8, _, ?_, wf.addArena _ pos enough bounded fresh cleared kept⟩
  have laid := (setupArena (calloc s.heap.mem p (allocSize want)) p pos enough bounded).1.toLaid
  simp only [addBlock, allocBlock, reduceCtorEq, if_false, Option.bind_some]
  rw [getMaxFreeBlock_all laid]
  rfl

/-! ### Freeing -/

/-- `customFree` looks for the arena the address lies in. -/
theorem freeIn_spec {mem : ByteMemory} {addr : Nat} {pre post : List Blocklist} {b : Blocklist}
    (apart : ∀ c ∈ pre, Apart c b) (inside : b.block < addr ∧ addr < b.block + b.size) :
    freeIn mem addr (pre ++ b :: post) =
      ((freeBlock mem b.block (addr - 8) none).1,
        pre ++ (if b.maxfree < (freeBlock mem b.block (addr - 8) none).2.1 then
          { b with maxfree := (freeBlock mem b.block (addr - 8) none).2.1 } else b) :: post) := by
  induction pre with
  | nil =>
    rw [List.nil_append, freeIn, if_pos inside]
    generalize freeBlock mem b.block (addr - 8) none = freed
    rfl
  | cons c rest ih =>
    have outside : ¬(addr > c.block ∧ addr < c.block + c.size) := by
      rcases apart c List.mem_cons_self with before | after <;> omega
    rw [List.cons_append, freeIn, if_neg outside, ih (fun d mem => apart d (List.mem_cons_of_mem _ mem))]
    generalize freeBlock mem b.block (addr - 8) none = freed
    rfl

theorem maxfreeKept_release {b : Blocklist} {left right : List Mark} {n : Nat}
    (kept : MaxfreeKept b (left.reverse ++ ⟨n, true⟩ :: right)) :
    MaxfreeKept (if b.maxfree < releasedSize 8 left right n then
      { b with maxfree := releasedSize 8 left right n } else b) (release 8 left right n) := by
  split
  · exact .inr ⟨_, released_mem left right n, rfl, rfl⟩
  case isFalse large =>
    rcases kept with zero | ⟨t, mem, free, size⟩
    · exact .inl zero
    · have beside : t ∈ left ∨ t ∈ right := by
        rcases List.mem_append.mp mem with before | rest
        · exact .inl (List.mem_reverse.mp before)
        · rcases List.mem_cons.mp rest with rfl | after
          · cases free
          · exact .inr after
      rcases release_keeps (h := 8) (n := n) (by decide) beside with remains | small
      · exact .inr ⟨t, remains, free, size⟩
      · exact absurd small (by omega)

/-- What `customFree` makes of a sub-block in use, in the arena `b`. -/
theorem HeapWellFormed.freed {s : MallocState} {tiles : Nat → List Mark} (wf : HeapWellFormed s tiles)
    {b : Blocklist} {left right : List Mark} {n : Nat} (present : b ∈ s.heap.pBlocks)
    (sub : tiles b.block = left.reverse ++ ⟨n, true⟩ :: right) :
    ∃ pre post mem', s.heap.pBlocks = pre ++ b :: post ∧
      freeMarks s.heap.mem b.block (b.block + extent 8 left) = (mem', b.block + extent 8 (absorb 8 left n).1) ∧
      customFree s.heap (b.block + extent 8 left + 8) = ⟨mem', pre ++ (if b.maxfree < releasedSize 8 left right n then
        { b with maxfree := releasedSize 8 left right n } else b) :: post⟩ ∧
      Arena mem' b.block b.size (release 8 left right n) ∧
      b.block + extent 8 (absorb 8 left n).1 + releasedSize 8 left right n + 12 ≤ b.block + b.size ∧
      ChangedIn (b.block + extent 8 (absorb 8 left n).1 + 4)
        (b.block + extent 8 (absorb 8 left n).1 + releasedSize 8 left right n + 12) s.heap.mem mem' := by
  obtain ⟨pre, post, blocks⟩ := List.append_of_mem present
  have arena := wf.arena b present
  have whole := arena.whole
  rw [sub] at arena whole
  obtain ⟨mem', freed, arena', size', same⟩ := freeMarks_spec arena
  simp only [extent_append, extent_reverse, extent_cons] at whole
  have apart := wf.apart
  rw [blocks] at apart
  obtain ⟨-, apart⟩ := apart_of_split apart
  have result : freeBlock s.heap.mem b.block (b.block + extent 8 left + 8 - 8) none =
      (mem', releasedSize 8 left right n, none) := by
    rw [freeBlock, Nat.add_sub_cancel, freed]
    dsimp only
    rw [size']
    rfl
  refine ⟨pre, post, mem', blocks, freed, ?_, arena', ?_, same⟩
  · rw [customFree, if_neg (by omega), blocks, freeIn_spec
      (fun c mem => apart c (List.mem_append_left _ mem)) (by omega), result]
  · have whole' := arena'.whole
    simp only [release, extent_append, extent_reverse, extent_cons] at whole'
    unfold releasedSize
    omega

theorem HeapWellFormed.free {s : MallocState} {tiles : Nat → List Mark} (wf : HeapWellFormed s tiles)
    {b : Blocklist} {left right : List Mark} {n size : Nat} (present : b ∈ s.heap.pBlocks)
    (sub : tiles b.block = left.reverse ++ ⟨n, true⟩ :: right)
    (live : (b.block + extent 8 left + 8, size) ∈ s.live) :
    HeapWellFormed ⟨customFree s.heap (b.block + extent 8 left + 8),
      s.live.erase (b.block + extent 8 left + 8, size)⟩ (Function.update tiles b.block (release 8 left right n)) := by
  obtain ⟨pre, post, mem', blocks, -, heap, arena', bound, same⟩ := wf.freed present sub
  have apart := wf.apart
  rw [blocks] at apart
  obtain ⟨others, apart⟩ := apart_of_split apart
  have kept := maxfreeKept_release (sub ▸ wf.maxfree b present : MaxfreeKept b (left.reverse ++ ⟨n, true⟩ :: right))
  have known : ∀ c ∈ pre ++ post, c ∈ s.heap.pBlocks := by
    intro c mem
    rw [blocks]
    exact List.Sublist.subset (by simp) mem
  rw [heap]
  generalize hb : (if b.maxfree < releasedSize 8 left right n then
      { b with maxfree := releasedSize 8 left right n } else b) = b' at kept ⊢
  have block' : b'.block = b.block := by rw [← hb]; split <;> rfl
  have size'' : b'.size = b.size := by rw [← hb]; split <;> rfl
  have final : Arena mem' b'.block b'.size (release 8 left right n) := by rwa [block', size'']
  rw [← block']
  refine wf.replace known others ?_ ?_ final kept ?_ ?_ ?_
  · intro c mem
    have beside := apart c mem
    rwa [Apart, ← block', ← size''] at beside
  · rw [block', size'']
    exact same.mono (by omega) bound
  · rw [block', size'']
    exact wf.inside b present
  · intro a mem
    have old : a ∈ s.live := List.mem_of_mem_erase mem
    obtain ⟨c, hc, held⟩ := wf.holds a old
    rw [blocks] at hc
    rcases List.mem_append.mp hc with before | rest
    · exact .inr ⟨c, List.mem_append_left _ before, held⟩
    · rcases List.mem_cons.mp rest with rfl | after
      · obtain ⟨y, m, placed', address', enough⟩ := held
        rw [sub] at placed'
        refine .inl ⟨y, m, ?_, address', enough⟩
        rw [block']
        refine release_used placed' rfl ?_
        -- another allocation has another address
        rintro rfl
        have nodup := wf.distinct.of_map
        have pairs := List.inj_on_of_nodup_map wf.distinct old live (by dsimp only; omega)
        rw [pairs, block'] at mem
        exact absurd mem (List.Nodup.not_mem_erase nodup)
      · exact .inr ⟨c, List.mem_append_right _ after, held⟩
  · exact wf.distinct.sublist (List.Sublist.map _ List.erase_sublist)

theorem customFree_wellFormed {s : MallocState} {tiles : Nat → List Mark} (wf : HeapWellFormed s tiles)
    {addr size : Nat} (live : (addr, size) ∈ s.live) :
    ∃ tiles', HeapWellFormed ⟨customFree s.heap addr, s.live.erase (addr, size)⟩ tiles' := by
  obtain ⟨b, present, x, n, placed, address, -⟩ := wf.holds _ live
  obtain ⟨left, right, sub, rfl⟩ := placed_zipper placed
  obtain rfl : addr = b.block + extent 8 left + 8 := address
  exact ⟨_, wf.free present sub live⟩

/-! ### Stores of the program -/

/-- A byte inside a used sub-block is no part of a mark. -/
theorem Arena.store {mem : ByteMemory} {block size addr x n : Nat} {ts : List Mark} (value : BitVec 8)
    (arena : Arena mem block size ts) (placed : (x, (⟨n, true⟩ : Mark)) ∈ place 8 block ts)
    (payload : x + 8 ≤ addr ∧ addr < x + 8 + n) : Arena (Function.update mem addr value) block size ts := by
  obtain ⟨pre, post, rfl, rfl⟩ := mem_place.mp placed
  have same : ChangedIn addr (addr + 1) mem (Function.update mem addr value) := by
    intro b out
    rw [Function.update_of_ne (by omega)]
  obtain ⟨here, behind, -⟩ := arena.spells_at
  dsimp only at behind
  refine ⟨Laid.rewrite [⟨n, true⟩] [⟨n, true⟩] arena.toLaid ?_ ⟨?_, ?_, trivial⟩ rfl ?_, arena.separated⟩
  · simp only [extent_cons, extent_nil]
    exact same.mono (by omega) (by omega)
  · rw [next, mark_frame same (by omega)]
    exact here
  · rw [prev, mark_frame same (by dsimp only; omega)]
    exact behind
  · intro t mem
    exact arena.sized t (by simp [List.mem_singleton.mp mem])

theorem store_wellFormed {s : MallocState} {tiles : Nat → List Mark} (wf : HeapWellFormed s tiles)
    {addr : Nat} {value : BitVec 8} (writable : Writable s addr) :
    HeapWellFormed { s with heap.mem := Function.update s.heap.mem addr value } tiles := by
  refine ⟨?_, wf.maxfree, wf.inside, wf.apart, wf.holds, wf.distinct⟩
  intro b present
  have arena := wf.arena b present
  have outside : addr < b.block ∨ b.block + b.size ≤ addr →
      Arena (Function.update s.heap.mem addr value) b.block b.size (tiles b.block) := by
    intro out
    have same : ChangedIn addr (addr + 1) s.heap.mem (Function.update s.heap.mem addr value) := by
      intro c away
      rw [Function.update_of_ne (by omega)]
    exact ⟨arena.toLaid.frame same (by omega), arena.separated⟩
  rcases writable with ⟨a, live, payload⟩ | elsewhere
  · obtain ⟨c, hc, held⟩ := wf.holds a live
    by_cases same : c = b
    · subst same
      obtain ⟨x, n, placed, address, enough⟩ := held
      exact arena.store value placed (by omega)
    · have within := held.within (wf.arena c hc).toLaid
      have apart := wf.apart.forall hc present same
      exact outside (by rcases apart with before | after <;> omega)
  · exact outside (elsewhere b present)

/-! ### Whole runs -/

theorem customMalloc_wellFormed {s : MallocState} {tiles : Nat → List Mark} (wf : HeapWellFormed s tiles)
    {size p : Nat} (pos : 1 ≤ size) (small : size < 2 ^ 31)
    (fresh : findSpace s.heap.mem size s.heap.pBlocks = some none →
      Fresh s.heap.pBlocks p (allocSize size)) :
    ∃ h ret tiles', customMalloc s.heap size p = some (h, ret) ∧
      HeapWellFormed ⟨h, (ret, size) :: s.live⟩ tiles' := by
  rcases findSpace_spec pos s.heap.pBlocks (fun b mem => ⟨wf.arena b mem, wf.maxfree b mem⟩) with
    none | ⟨pre, b, post, left, n, right, maxfree, blocks, sub, fits, kept, found⟩
  · obtain ⟨h, ret, tiles', added, wf'⟩ := addBlock_wellFormed wf pos small (fresh none)
    exact ⟨h, ret, tiles', by rw [customMalloc, none]; exact added, wf'⟩
  · exact ⟨_, _, _, by rw [customMalloc, found]; rfl, customMalloc_reuses wf _ pos blocks sub fits kept⟩

theorem mallocStep_wellFormed {s t : MallocState} {call : MallocCall} {tiles : Nat → List Mark}
    (wf : HeapWellFormed s tiles) (step : mallocStep s call t) : ∃ tiles', HeapWellFormed t tiles' := by
  obtain ⟨heap, live⟩ := t
  cases call with
  | malloc size p =>
    obtain ⟨pos, small, fresh, ret, returned, rfl⟩ := step
    obtain ⟨h, ret', tiles', served, wf'⟩ := customMalloc_wellFormed wf pos (by omega) fresh
    rw [served] at returned
    obtain ⟨rfl, rfl⟩ := Prod.mk.inj (Option.some.inj returned)
    exact ⟨tiles', wf'⟩
  | free addr =>
    obtain ⟨size, present, rfl, rfl⟩ := step
    exact customFree_wellFormed wf present
  | store addr value =>
    obtain ⟨writable, same⟩ := step
    rw [same]
    exact ⟨tiles, store_wellFormed wf writable⟩

theorem allocator_wellFormed {s : MallocState} (h : Transition.Reachable allocator s) :
    ∃ tiles, HeapWellFormed s tiles := by
  refine h.invariant (P := fun s => ∃ tiles, HeapWellFormed s tiles) ?_ ?_
  · rintro s ⟨empty, none⟩
    refine ⟨fun _ => [], ?_, ?_, ?_, ?_, ?_, ?_⟩ <;> simp [empty, none]
  · intro s call t ⟨tiles, wf⟩ step
    exact mallocStep_wellFormed wf step

/-- The marks of the arena `b` are well formed, walked either way, and `maxfree` is no more than
its largest free sub-block. -/
structure BlockSound (mem : ByteMemory) (b : Blocklist) (ts : List Mark) : Prop where
  forward : followNext mem b.size b.block = some (place 8 b.block ts)
  backward : followPrev mem b.size (lastBlock b.block b.size) = some (place 8 b.block ts).reverse
  arena : Arena mem b.block b.size ts
  maxfree : b.maxfree ≤ maxFree ts

/-- Every arena is sound, every live allocation has in one of them a used sub-block with the
size asked for, and no two of them share a byte. -/
structure HeapSound (s : MallocState) : Prop where
  blocks : ∀ b ∈ s.heap.pBlocks, ∃ ts, BlockSound s.heap.mem b ts
  inside : ∀ a ∈ s.live, ∃ b ∈ s.heap.pBlocks, ∃ ts n, BlockSound s.heap.mem b ts ∧
    (a.1 - 8, (⟨n, true⟩ : Mark)) ∈ place 8 b.block ts ∧ a.2 ≤ n ∧
    b.block < a.1 ∧ a.1 + n + 8 ≤ b.block + b.size
  disjoint : s.live.Pairwise fun a c => a.1 + a.2 ≤ c.1 ∨ c.1 + c.2 ≤ a.1

theorem HeapWellFormed.blockSound {s : MallocState} {tiles : Nat → List Mark} (wf : HeapWellFormed s tiles)
    {b : Blocklist} (present : b ∈ s.heap.pBlocks) : BlockSound s.heap.mem b (tiles b.block) := by
  have arena := wf.arena b present
  have laid : Laid s.heap.mem b.block b.size ([] ++ tiles b.block) := arena.toLaid
  have reversed : Laid s.heap.mem b.block b.size ((tiles b.block).reverse.reverse ++ []) := by
    simpa using arena.toLaid
  have short : (tiles b.block).length < b.size := arena.toLaid.length_lt
  refine ⟨?_, ?_, arena, ?_⟩
  · exact followNext_spec laid short
  · have last : lastBlock b.block b.size = b.block + extent 8 (tiles b.block).reverse := by
      rw [lastBlock, arena.whole, extent_reverse]
      omega
    rw [last, followPrev_spec reversed (by simpa using short), List.reverse_reverse]
  · rcases wf.maxfree b present with zero | ⟨t, mem, free, size⟩
    · rw [zero]
      exact Nat.zero_le _
    · rw [← size]
      exact le_maxFree mem free

/-- Two live allocations at different addresses share no byte. -/
theorem HeapWellFormed.disjoint {s : MallocState} {tiles : Nat → List Mark} (wf : HeapWellFormed s tiles)
    {a c : Nat × Nat} (ha : a ∈ s.live) (hc : c ∈ s.live) (differ : a.1 ≠ c.1) :
    a.1 + a.2 ≤ c.1 ∨ c.1 + c.2 ≤ a.1 := by
  obtain ⟨b, hb, held⟩ := wf.holds a ha
  obtain ⟨d, hd, held'⟩ := wf.holds c hc
  by_cases same : b = d
  · subst same
    obtain ⟨x, n, placed, address, enough⟩ := held
    obtain ⟨y, m, placed', address', enough'⟩ := held'
    have apart := place_disjoint placed placed' (by
      intro equal
      exact differ (by rw [address, address', (Prod.mk.inj equal).1]))
    dsimp only at apart
    omega
  · have within := held.within (wf.arena b hb).toLaid
    have within' := held'.within (wf.arena d hd).toLaid
    rcases wf.apart.forall hb hd same with before | after <;> omega

theorem HeapWellFormed.sound {s : MallocState} {tiles : Nat → List Mark} (wf : HeapWellFormed s tiles) :
    HeapSound s := by
  refine ⟨fun b present => ⟨_, wf.blockSound present⟩, ?_, ?_⟩
  · intro a live
    obtain ⟨b, present, x, n, placed, address, enough⟩ := wf.holds a live
    have within := place_within placed
    have whole := (wf.arena b present).whole
    dsimp only at within
    have start : a.1 - 8 = x := by omega
    exact ⟨b, present, _, n, wf.blockSound present, by rwa [start], enough, by omega, by omega⟩
  · have pairs := List.pairwise_map.mp wf.distinct
    exact pairs.imp_of_mem fun ha hc differ => wf.disjoint ha hc differ

/-- Whatever the calls, the heap is sound, and the next `customMalloc` returns. -/
theorem customMalloc_sound {s : MallocState} (h : Transition.Reachable allocator s) :
    HeapSound s ∧ ∀ size p, 1 ≤ size → size ≤ 2 ^ 31 - 17 → Fresh s.heap.pBlocks p (allocSize size) →
      ∃ heap ret, customMalloc s.heap size p = some (heap, ret) ∧
        HeapSound ⟨heap, (ret, size) :: s.live⟩ := by
  obtain ⟨tiles, wf⟩ := allocator_wellFormed h
  refine ⟨wf.sound, ?_⟩
  intro size p pos small fresh
  obtain ⟨heap, ret, tiles', served, wf'⟩ := customMalloc_wellFormed wf pos (by omega) (fun _ => fresh)
  exact ⟨heap, ret, served, wf'.sound⟩

/-- Two allocations from one arena, and the first of them freed. -/
def mallocRun : Option (Heap × Nat × Heap × Nat) :=
  (customMalloc ⟨fun _ => 0xA5, []⟩ 100 0x10000).bind fun (h, a) =>
    (customMalloc h 3 0).map fun (h', b) => (h, a, h', b)

theorem customMalloc_sound_run : ∃ h a h' b, mallocRun = some (h, a, h', b) ∧ a = 0x10008 ∧ b = 0x10074 ∧
    HeapSound ⟨customFree h' a, [(b, 3)]⟩ := by
  have outcome : mallocRun.map (fun r => (r.2.1, r.2.2.2,
      (findSpace r.1.mem 3 r.1.pBlocks).map (·.isNone))) = some (0x10008, 0x10074, some false) := by
    decide +kernel
  obtain ⟨⟨h, a, h', b⟩, run, outcome⟩ := Option.map_eq_some_iff.mp outcome
  obtain ⟨first, second, reused⟩ := Prod.mk.inj outcome |>.imp_right Prod.mk.inj
  have steps := run
  obtain ⟨⟨h₁, a₁⟩, served, rest⟩ := Option.bind_eq_some_iff.mp steps
  obtain ⟨⟨h₂, b₂⟩, served', same⟩ := Option.map_eq_some_iff.mp rest
  simp only [Prod.mk.injEq] at same
  obtain ⟨rfl, rfl, rfl, rfl⟩ := same
  have start : Transition.Reachable allocator ⟨⟨fun _ => 0xA5, []⟩, []⟩ := .initial ⟨rfl, rfl⟩
  have one : Transition.Reachable allocator ⟨h₁, [(a₁, 100)]⟩ :=
    start.step (a := .malloc 100 0x10000) ⟨by decide, by decide, fun _ => ⟨by decide, by decide, by simp⟩,
      a₁, served, rfl⟩
  have two : Transition.Reachable allocator ⟨h₂, [(b₂, 3), (a₁, 100)]⟩ := by
    refine one.step (a := .malloc 3 0) ⟨by decide, by decide, fun none => ?_, b₂, served', rfl⟩
    rw [none] at reused
    cases reused
  have three : Transition.Reachable allocator ⟨customFree h₂ a₁, [(b₂, 3)]⟩ := by
    refine two.step (a := .free a₁) ⟨100, by simp, rfl, ?_⟩
    dsimp only at first second
    subst first second
    rfl
  exact ⟨h₁, a₁, h₂, b₂, run, first, second, (customMalloc_sound three).1⟩

end Box64.Custommem
