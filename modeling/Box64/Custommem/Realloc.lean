import Box64.Custommem.CustomMalloc

/-!
# `customRealloc`

A sub-block is resized in place when it is large enough, and otherwise given up for another one, to which all of its
bytes are copied.
-/

namespace Box64.Custommem

open Tiling ByteMemory

/-- The memory, and whether the sub-block has the new size. -/
def expandBlock (mem : ByteMemory) (sub newsize : Nat) : ByteMemory × Bool :=
  let newsize := (newsize + 3) % 2 ^ 64 / 4 * 4
  let s := sub
  let n := nextBlock mem s
  -- big enough, no shrinking...
  if (next mem s).size ≥ newsize then (mem, true)
  -- "next block is filled", but it is the sub-block itself that is looked at
  else if (next mem s).fill then (mem, false)
  else if (next mem s).size + (next mem n).size + 8 < newsize then (mem, false)
  else
    let mem :=
      if (next mem s).size + (next mem n).size + 8 - newsize < 2 * 8 then
        setNextSize mem s ((next mem s).size + ((next mem n).size + 8))
      else setNextSize mem s (newsize + 8)
    let m := nextBlock mem s
    let mem := setPrevSize (setPrevFill mem m true) m (next mem s).size
    if n ≠ m then
      let mem := setPrevSize (setPrevFill mem m true) m (next mem s).size
      let mem := setNextSize (setNextFill mem m false) m ((n + 2 ^ 64 - m) % 2 ^ 64)
      (setPrevSize (setPrevFill mem n false) n (next mem m).size, true)
    else (mem, true)

def sizeBlock (mem : ByteMemory) (sub : Nat) : Nat := (next mem sub).size

/-- What the loop of `customRealloc` does with the sub-block. -/
inductive Expansion where
  | absent
  | expanded (mem : ByteMemory) (pBlocks : List Blocklist)
  | full

def Expansion.behind (b : Blocklist) : Expansion → Expansion
  | .expanded mem pBlocks => .expanded mem (b :: pBlocks)
  | e => e

/-- The loop of `customRealloc` over `p_blocks`. -/
def expandIn (mem : ByteMemory) (addr size : Nat) : List Blocklist → Option Expansion
  | [] => some .absent
  | b :: rest =>
    if addr > b.block ∧ addr < b.block + b.size then
      match expandBlock mem (addr - 8) size with
      | (mem, true) =>
        (getMaxFreeBlock mem b.block b.size none b.size).map fun maxfree => .expanded mem ({ b with maxfree } :: rest)
      | (_, false) => some .full
    else (expandIn mem addr size rest).map (·.behind b)

/-- `base` is what `calloc` returns when `customMalloc` calls it. -/
def customRealloc (h : Heap) (p size base : Nat) : Option (Heap × Nat) :=
  if p = 0 then customMalloc h size base
  else
    (expandIn h.mem p size h.pBlocks).bind fun
      | .expanded mem pBlocks => some ({ mem, pBlocks }, p)
      | .full =>
        (customMalloc h size base).map fun (h, newp) =>
          (customFree { h with mem := copy h.mem newp (sizeBlock h.mem (p - 8)) h.mem p } p, newp)
      | .absent => customMalloc h size base

/-! ### Sub-blocks of a heap -/

/-- A sub-block in use: its mark and its size. -/
def Used (s : MallocState) (tiles : Nat → List Mark) (x n : Nat) : Prop :=
  ∃ b ∈ s.heap.pBlocks, (x, (⟨n, true⟩ : Mark)) ∈ place 8 b.block (tiles b.block)

theorem Laid.marks_placed {mem : ByteMemory} {block size x : Nat} {ts : List Mark} {t : Mark}
    (laid : Laid mem block size ts) (placed : (x, t) ∈ place 8 block ts) :
    next mem x = t ∧ prev mem (x + 8 + t.size) = t := by
  obtain ⟨pre, post, rfl, rfl⟩ := mem_place.mp placed
  obtain ⟨here, behind, -⟩ := laid.spells_at
  exact ⟨here, behind⟩

section

variable {s : MallocState} {tiles : Nat → List Mark} (wf : HeapWellFormed s tiles)

include wf

theorem HeapWellFormed.used_within {x n : Nat} {b : Blocklist} (present : b ∈ s.heap.pBlocks)
    (placed : (x, (⟨n, true⟩ : Mark)) ∈ place 8 b.block (tiles b.block)) :
    b.block ≤ x ∧ x + 8 + n + 8 ≤ b.block + b.size := by
  have within := place_within placed
  have whole := (wf.arena b present).whole
  dsimp only at within
  omega

theorem HeapWellFormed.used_marks {x n : Nat} (used : Used s tiles x n) :
    next s.heap.mem x = ⟨n, true⟩ ∧ prev s.heap.mem (x + 8 + n) = ⟨n, true⟩ := by
  obtain ⟨b, present, placed⟩ := used
  exact (wf.arena b present).toLaid.marks_placed placed

/-- Two sub-blocks in use lie one after the other. -/
theorem HeapWellFormed.used_disjoint {x n y l : Nat} (used : Used s tiles x n) (used' : Used s tiles y l)
    (differ : x ≠ y) : x + 8 + n ≤ y ∨ y + 8 + l ≤ x := by
  obtain ⟨b, hb, placed⟩ := used
  obtain ⟨d, hd, placed'⟩ := used'
  by_cases same : b = d
  · subst same
    have apart := place_disjoint placed placed' (by
      intro equal
      exact differ (Prod.mk.inj equal).1)
    exact apart
  · have within := wf.used_within hb placed
    have within' := wf.used_within hd placed'
    rcases wf.apart.forall hb hd same with before | after <;> omega

/-- Bytes inside a sub-block in use are no part of a mark. -/
theorem HeapWellFormed.payload {x n : Nat} {mem : ByteMemory} (used : Used s tiles x n)
    (same : ChangedIn (x + 8) (x + 8 + n) s.heap.mem mem) : HeapWellFormed { s with heap.mem := mem } tiles := by
  refine ⟨?_, wf.maxfree, wf.inside, wf.apart, wf.holds, wf.distinct⟩
  intro b present
  have arena := wf.arena b present
  obtain ⟨c, hc, placed⟩ := used
  by_cases here : c = b
  · subst here
    obtain ⟨before, behind⟩ := arena.toLaid.marks_placed placed
    obtain ⟨pre, post, split, rfl⟩ := mem_place.mp placed
    rw [split] at arena ⊢
    refine ⟨Laid.rewrite [⟨n, true⟩] [⟨n, true⟩] arena.toLaid ?_ ⟨?_, ?_, trivial⟩ rfl ?_, arena.separated⟩
    · simp only [extent_cons, extent_nil]
      exact same.mono (by omega) (by omega)
    · rw [next, mark_frame same (by omega)]
      exact before
    · rw [prev, mark_frame same (by dsimp only; omega)]
      exact behind
    · intro t mem
      exact arena.sized t (by simp [List.mem_singleton.mp mem])
  · have within := wf.used_within hc placed
    have apart := wf.apart.forall hc present here
    refine ⟨arena.toLaid.frame same ?_, arena.separated⟩
    rcases apart with before | after <;> omega

end

/-- The bytes of a sub-block that starts at `x`. -/
def SamePayload (x n : Nat) (mem mem' : ByteMemory) : Prop := ∀ a, x + 8 ≤ a → a < x + 8 + n → mem' a = mem a

/-- Sub-blocks in use that are other than the one at `x` stay in use and keep their bytes. -/
def KeepsOthers (x : Nat) (s : MallocState) (tiles : Nat → List Mark) (t : MallocState) (tiles' : Nat → List Mark) :
    Prop :=
  ∀ y n, y ≠ x → Used s tiles y n → Used t tiles' y n ∧ SamePayload y n s.heap.mem t.heap.mem

/-! ### The sub-block that `customMalloc` gives -/

section

variable {s : MallocState} {tiles : Nat → List Mark} (wf : HeapWellFormed s tiles)

include wf

/-- A sub-block was taken out of the arena `b`, the others left alone. -/
theorem HeapWellFormed.keeps_reused {pre post : List Blocklist} {b : Blocklist} {left right : List Mark} {n want : Nat}
    (maxfree : Nat) (live : List (Nat × Nat)) (pos : 1 ≤ want)
    (blocks : s.heap.pBlocks = pre ++ b :: post) (sub : tiles b.block = left.reverse ++ ⟨n, false⟩ :: right)
    (fits : want ≤ n) :
    KeepsOthers (b.block + extent 8 left) s tiles
      ⟨⟨allocMarks s.heap.mem (b.block + extent 8 left) want, pre ++ { b with maxfree } :: post⟩, live⟩
      (Function.update tiles b.block (left.reverse ++ split 8 16 n want ++ right)) := by
  have present : b ∈ s.heap.pBlocks := by simp [blocks]
  have arena := wf.arena b present
  rw [sub] at arena
  have here := arena.spells_at
  rw [extent_reverse] at here
  obtain ⟨-, same⟩ := allocMarks_spec fits here
  have free : (b.block + extent 8 left, (⟨n, false⟩ : Mark)) ∈ place 8 b.block (tiles b.block) := by
    rw [sub, place_zipper]
    simp
  have inner := place_within free
  have whole := (wf.arena b present).whole
  dsimp only at inner
  rintro y l differ ⟨c, hc, placed⟩
  by_cases equal : c = b
  · subst equal
    have apart := place_disjoint placed free (by simp)
    dsimp only at apart
    refine ⟨⟨{ c with maxfree }, by simp, ?_⟩, fun a lo hi => same a (by omega)⟩
    rw [Function.update_self]
    rw [sub] at placed
    exact split_used (by decide) placed rfl
  · have outer := wf.used_within hc placed
    have apart := wf.apart.forall hc present equal
    have size := (wf.arena c hc).toLaid.size_ge
    have size' := (wf.arena b present).toLaid.size_ge
    have elsewhere : c.block ≠ b.block := by rcases apart with before | after <;> omega
    refine ⟨⟨c, ?_, ?_⟩, fun a lo hi => same a (by rcases apart with before | after <;> omega)⟩
    · rw [blocks] at hc
      rcases List.mem_append.mp hc with before | rest
      · exact List.mem_append_left _ before
      · rcases List.mem_cons.mp rest with same | after
        · exact absurd same equal
        · exact List.mem_append_right _ (List.mem_cons_of_mem _ after)
    · rwa [Function.update_of_ne elsewhere]

/-- A new arena at `p` leaves the others alone. -/
theorem HeapWellFormed.keeps_added {size p : Nat} (maxfree : Nat) (live : List (Nat × Nat)) {mem : ByteMemory}
    (fresh : Fresh s.heap.pBlocks p size) (same : ChangedIn p (p + size) s.heap.mem mem) (ts : List Mark)
    (large : 8 ≤ size) :
    KeepsOthers p s tiles ⟨⟨mem, s.heap.pBlocks ++ [{ block := p, maxfree := maxfree, size := size }]⟩, live⟩
      (Function.update tiles p ts) := by
  obtain ⟨positive, below, outside⟩ := fresh
  rintro y l - ⟨c, hc, placed⟩
  have outer := wf.used_within hc placed
  have size := (wf.arena c hc).toLaid.size_ge
  have apart := outside c hc
  have elsewhere : c.block ≠ p := by omega
  refine ⟨⟨c, List.mem_append_left _ hc, ?_⟩, fun a lo hi => same a (by omega)⟩
  rwa [Function.update_of_ne elsewhere]

theorem customMalloc_grants {want base : Nat} (pos : 1 ≤ want) (small : want < 2 ^ 31)
    (fresh : findSpace s.heap.mem want s.heap.pBlocks = some none → Fresh s.heap.pBlocks base (allocSize want)) :
    ∃ h x n tiles', customMalloc s.heap want base = some (h, x + 8) ∧
      HeapWellFormed ⟨h, (x + 8, want) :: s.live⟩ tiles' ∧ want ≤ n ∧
      Used ⟨h, (x + 8, want) :: s.live⟩ tiles' x n ∧ (∀ l, ¬ Used s tiles x l) ∧
      KeepsOthers x s tiles ⟨h, (x + 8, want) :: s.live⟩ tiles' := by
  rcases findSpace_spec pos s.heap.pBlocks (fun b mem => ⟨wf.arena b mem, wf.maxfree b mem⟩) with
    none | ⟨pre, b, post, left, n, right, maxfree, blocks, sub, fits, kept, found⟩
  · obtain ⟨enough, bounded⟩ := allocSize_spec small
    have cleared := changedIn_calloc s.heap.mem base (allocSize want)
    have kept := maxfreeKept_recomputed { block := base, maxfree := 0, size := allocSize want }
      (split 8 16 (allocSize want - 16) want)
    obtain ⟨arena, same⟩ := setupArena (calloc s.heap.mem base (allocSize want)) base pos enough bounded
    obtain ⟨m, rest, head, fits, -⟩ := split_head (h := 8) 16 (show want ≤ allocSize want - 16 by omega)
    refine ⟨_, base, m, _, ?_, wf.addArena _ pos enough bounded (fresh none) cleared kept, fits, ?_, ?_, ?_⟩
    · rw [customMalloc, none]
      simp only [Option.bind_some, addBlock, allocBlock, reduceCtorEq, if_false]
      rw [getMaxFreeBlock_all arena.toLaid]
      rfl
    · refine ⟨_, List.mem_append_right _ List.mem_cons_self, ?_⟩
      rw [Function.update_self, head]
      exact List.mem_cons_self
    · rintro l ⟨c, hc, placed⟩
      have outer := wf.used_within hc placed
      have outside := (fresh none).2.2 c hc
      omega
    · exact wf.keeps_added _ _ (fresh none) (cleared.trans same) _ (by omega)
  · have present : b ∈ s.heap.pBlocks := by simp [blocks]
    obtain ⟨m, rest, head, enough, -⟩ := split_head (h := 8) 16 fits
    refine ⟨_, b.block + extent 8 left, m, _, by rw [customMalloc, found]; rfl,
      customMalloc_reuses wf _ pos blocks sub fits kept, enough, ?_, ?_, wf.keeps_reused maxfree _ pos blocks sub fits⟩
    · refine ⟨{ b with maxfree }, by simp, ?_⟩
      rw [Function.update_self, List.append_assoc, head, List.cons_append, place_zipper]
      simp
    · have free : (b.block + extent 8 left, (⟨n, false⟩ : Mark)) ∈ place 8 b.block (tiles b.block) := by
        rw [sub, place_zipper]
        simp
      rintro l ⟨c, hc, placed⟩
      by_cases equal : c = b
      · subst equal
        cases place_functional (by decide) placed free
      · have outer := wf.used_within hc placed
        have inner := place_within free
        have whole := (wf.arena b present).whole
        have apart := wf.apart.forall hc present equal
        dsimp only at inner
        rcases apart with before | after <;> omega

end

/-! ### Freeing with a mark that is not right

The two low bytes of a mark's `prev` hold no bit of its `fill`. `customFree` does not look at the rest of the mark
behind a sub-block in use.
-/

/-- `mem` with the bytes that `src` has at `c` and `c + 1`. -/
def lowBytes (mem : ByteMemory) (c : Nat) (src : ByteMemory) : ByteMemory := copy mem c 2 src c

/-- The word at `a` has neither of the two bytes. -/
def Clear (c a : Nat) : Prop := a + 4 ≤ c ∨ c + 2 ≤ a

section

variable {mem src : ByteMemory} {c a : Nat}

theorem lowBytes_changed (mem src : ByteMemory) (c : Nat) : ChangedIn c (c + 2) mem (lowBytes mem c src) :=
  fun _ out => copy_outside mem src out

theorem mark_lowBytes (clear : Clear c a) : mark (lowBytes mem c src) a = mark mem a :=
  mark_frame (lowBytes_changed mem src c) clear

theorem setMark_lowBytes (clear : Clear c a) (k : Mark) :
    setMark (lowBytes mem c src) a k = lowBytes (setMark mem a k) c src := by
  funext b
  unfold setMark lowBytes write copy
  unfold Clear at clear
  by_cases low : c ≤ b ∧ b < c + 2
  · rw [if_pos low, if_neg (by omega), if_pos low]
  · rw [if_neg low, if_neg low]

theorem fill_lowBytes : (mark (lowBytes mem c src) c).fill = (mark mem c).fill := by
  have kept : ∀ b, c + 2 ≤ b → lowBytes mem c src b = mem b := fun b hi => copy_outside mem src (.inr hi)
  have top : ∀ m : ByteMemory, read m c 4 / 2 ^ 31 = (m (c + 3)).toNat / 128 := by
    intro m
    simp only [ByteMemory.read]
    have b₀ := (m c).isLt
    have b₁ := (m (c + 1)).isLt
    have b₂ := (m (c + 1 + 1)).isLt
    have same : c + 1 + 1 + 1 = c + 3 := by omega
    rw [same]
    omega
  unfold mark
  simp only [top, kept (c + 3) (by omega)]

theorem next_lowBytes (clear : Clear c (a + 4)) : next (lowBytes mem c src) a = next mem a := mark_lowBytes clear

theorem prev_lowBytes (clear : Clear c a) : prev (lowBytes mem c src) a = prev mem a := mark_lowBytes clear

theorem setNextSize_lowBytes (clear : Clear c (a + 4)) (n : Nat) :
    setNextSize (lowBytes mem c src) a n = lowBytes (setNextSize mem a n) c src := by
  unfold setNextSize
  rw [next_lowBytes clear, setMark_lowBytes clear]

theorem setNextFill_lowBytes (clear : Clear c (a + 4)) (f : Bool) :
    setNextFill (lowBytes mem c src) a f = lowBytes (setNextFill mem a f) c src := by
  unfold setNextFill
  rw [next_lowBytes clear, setMark_lowBytes clear]

theorem setPrevSize_lowBytes (clear : Clear c a) (n : Nat) :
    setPrevSize (lowBytes mem c src) a n = lowBytes (setPrevSize mem a n) c src := by
  unfold setPrevSize
  rw [prev_lowBytes clear, setMark_lowBytes clear]

theorem setPrevFill_lowBytes (clear : Clear c a) (f : Bool) :
    setPrevFill (lowBytes mem c src) a f = lowBytes (setPrevFill mem a f) c src := by
  unfold setPrevFill
  rw [prev_lowBytes clear, setMark_lowBytes clear]

theorem mergePrevious_lowBytes {m s n : Nat} (at_s : Clear c s) (next_s : Clear c (s + 4)) (at_n : Clear c n)
    (next_m : (prev mem s).fill = false → prev mem s ≠ Mark.zero → Clear c (m + 4)) :
    mergePrevious (lowBytes mem c src) m s n =
      (lowBytes (mergePrevious mem m s n).1 c src, (mergePrevious mem m s n).2) := by
  unfold mergePrevious
  rw [prev_lowBytes at_s]
  by_cases merges : prev mem s ≠ Mark.zero ∧ (prev mem s).fill = false
  · have next_m := next_m merges.2 merges.1
    rw [if_pos merges, if_pos merges, next_lowBytes next_m, next_lowBytes next_s]
    dsimp only
    rw [setNextSize_lowBytes next_m, next_lowBytes next_m, setPrevSize_lowBytes at_n]
  · rw [if_neg merges, if_neg merges]

theorem mergeNext_lowBytes {s n : Nat} (next_s : Clear c (s + 4)) (next_n : Clear c (n + 4))
    (at_n2 : (next mem n).fill = false → next mem n ≠ Mark.zero → Clear c (nextBlock mem n)) :
    mergeNext (lowBytes mem c src) s n = lowBytes (mergeNext mem s n) c src := by
  unfold mergeNext
  rw [next_lowBytes next_n]
  by_cases merges : next mem n ≠ Mark.zero ∧ (next mem n).fill = false
  · have at_n2 := at_n2 merges.2 merges.1
    unfold nextBlock at at_n2 ⊢
    rw [if_pos merges, if_pos merges, next_lowBytes next_n, next_lowBytes next_s]
    dsimp only
    rw [setNextSize_lowBytes next_s, next_lowBytes next_s, setPrevSize_lowBytes at_n2]
  · rw [if_neg merges, if_neg merges]

/-- `c` is not a part of a mark that `freeBlock` writes, nor of one it reads but for the `prev` of a sub-block that
has one in use before it. -/
inductive Unseen (block c n : Nat) (left right : List Mark) : Prop
  | before (apart : c + 2 ≤ block + extent 8 left)
      (far : ∀ l ls, left = l :: ls → l.fill = false → c + 2 ≤ block + extent 8 ls + 4)
  | here (l : Mark) (ls : List Mark) (first : left = l :: ls) (used : l.fill = true) (same : c = block + extent 8 left)
  | behind (apart : block + extent 8 left + n + 16 ≤ c)
      (far : ∀ r rs, right = r :: rs → r.fill = false → block + extent 8 left + n + 16 + r.size + 4 ≤ c)

section
variable {block size n : Nat} {left right : List Mark}

theorem Unseen.next_clear (unseen : Unseen block c n left right) : Clear c (block + extent 8 left + 4) := by
  unfold Clear
  cases unseen <;> omega

theorem Unseen.behind_clear (unseen : Unseen block c n left right) : Clear c (block + extent 8 left + n + 8) := by
  unfold Clear
  cases unseen <;> omega

theorem Unseen.behind_next_clear (unseen : Unseen block c n left right) :
    Clear c (block + extent 8 left + n + 8 + 4) := by
  unfold Clear
  cases unseen <;> omega

/-- The sub-block that a merge with the previous one ends in. -/
theorem Unseen.previous_clear (unseen : Unseen block c n left right) {l : Mark} {ls : List Mark}
    (first : left = l :: ls) (free : l.fill = false) : Clear c (block + extent 8 ls + 4) := by
  have start := congrArg (extent 8) first
  rw [extent_cons] at start
  unfold Clear
  cases unseen with
  | before apart far =>
    have := far l ls first free
    omega
  | here k ks first' used same =>
    rw [first] at first'
    obtain ⟨rfl, -⟩ := List.cons.inj first'
    rw [used] at free
    cases free
  | behind apart far => omega

theorem Unseen.absorbed_clear (unseen : Unseen block c n left right) :
    Clear c (block + extent 8 (absorb 8 left n).1 + 4) := by
  rcases absorb_cases (h := 8) left n with ⟨same, -⟩ | ⟨l, ls, first, free, taken⟩
  · rw [same]
    exact unseen.next_clear
  · rw [taken]
    exact unseen.previous_clear first free

/-- The sub-block behind the one that a merge with the next one takes in. -/
theorem Unseen.far_clear (unseen : Unseen block c n left right) {r : Mark} {rs : List Mark}
    (first : right = r :: rs) (free : r.fill = false) :
    Clear c (block + extent 8 left + n + 8 + r.size + 8) := by
  unfold Clear
  cases unseen with
  | before apart far => omega
  | here l ls first' used same => omega
  | behind apart far =>
    have := far r rs first free
    omega

/-- Where the `prev` of the sub-block itself is not right, only its `fill` is looked at, which says that nothing is
merged; so `m'` is free there. -/
theorem mergePrevious_unseen (src : ByteMemory) {m m' : Nat}
    (laid : Laid mem block size (left.reverse ++ ⟨n, false⟩ :: right))
    (before : ∀ l ls, left = l :: ls → m = block + extent 8 ls) (unseen : Unseen block c n left right)
    (same : Clear c (block + extent 8 left) → m' = m) :
    mergePrevious (lowBytes mem c src) m' (block + extent 8 left) (block + extent 8 left + n + 8) =
      (lowBytes (mergePrevious mem m (block + extent 8 left) (block + extent 8 left + n + 8)).1 c src,
        (mergePrevious mem m (block + extent 8 left) (block + extent 8 left + n + 8)).2) := by
  have behind := laid.prev_at
  by_cases at_s : Clear c (block + extent 8 left)
  · rw [same at_s]
    refine mergePrevious_lowBytes at_s unseen.next_clear unseen.behind_clear ?_
    rw [behind]
    intro free nonzero
    cases left with
    | nil => exact absurd rfl nonzero
    | cons l ls =>
      rw [before l ls rfl]
      exact unseen.previous_clear rfl free
  · cases unseen with
    | before apart far => exact absurd (Or.inr apart) at_s
    | behind apart far => exact absurd (Or.inl (by omega)) at_s
    | here l ls first used equal =>
      have filled : (prev mem (block + extent 8 left)).fill = true := by
        rw [behind, first]
        exact used
      subst equal
      have filled' : (prev (lowBytes mem (block + extent 8 left) src) (block + extent 8 left)).fill = true :=
        fill_lowBytes.trans filled
      unfold mergePrevious
      rw [if_neg (by rw [filled']; simp), if_neg (by rw [filled]; simp)]

theorem freeMarks_lowBytes (arena : Arena mem block size (left.reverse ++ ⟨n, true⟩ :: right))
    (unseen : Unseen block c n left right) :
    freeMarks (lowBytes mem c src) block (block + extent 8 left) =
      (lowBytes (freeMarks mem block (block + extent 8 left)).1 c src,
        (freeMarks mem block (block + extent 8 left)).2) := by
  have here := arena.spells_at.1
  have behind := arena.prev_at
  rw [extent_reverse] at here
  have after : nextBlock mem (block + extent 8 left) = block + extent 8 left + n + 8 := by
    rw [nextBlock, here]
  have after' : nextBlock (lowBytes mem c src) (block + extent 8 left) = block + extent 8 left + n + 8 := by
    unfold nextBlock
    rw [next_lowBytes unseen.next_clear, here]
  obtain ⟨laid, -⟩ := arena.toLaid.unfill
  have before : ∀ l ls, left = l :: ls →
      (if block ≠ block + extent 8 left then prevBlock mem (block + extent 8 left) else block) =
        block + extent 8 ls := by
    rintro l ls rfl
    rw [if_pos (by rw [extent_cons]; omega), prevBlock, behind]
    simp only [extent_cons, List.head?_cons, Option.getD_some]
    omega
  have start : Clear c (block + extent 8 left) →
      (if block ≠ block + extent 8 left then prevBlock (lowBytes mem c src) (block + extent 8 left) else block) =
        if block ≠ block + extent 8 left then prevBlock mem (block + extent 8 left) else block := by
    intro at_s
    simp only [prevBlock, prev_lowBytes at_s]
  have merged' := mergePrevious_unseen src laid before unseen start
  obtain ⟨mem', merged, laid', -⟩ := mergePrevious_spec laid before
  rw [merged] at merged'
  have last : next mem' (block + extent 8 left + n + 8) = right.head?.getD Mark.zero := by
    have total := extent_absorb (h := 8) left n
    have joined : Laid mem' block size (((absorb 8 left n).1.reverse ++ [⟨(absorb 8 left n).2, false⟩]) ++ right) := by
      simpa using laid'
    have last := joined.next_at
    rw [extent_append, extent_reverse, extent_cons, extent_nil] at last
    have place : block + (extent 8 (absorb 8 left n).1 + (8 + (absorb 8 left n).2 + 0)) =
        block + extent 8 left + n + 8 := by omega
    rwa [place] at last
  unfold freeMarks
  simp only [after, after', setNextFill_lowBytes unseen.next_clear, setPrevFill_lowBytes unseen.behind_clear, merged,
    merged']
  rw [mergeNext_lowBytes unseen.absorbed_clear unseen.behind_next_clear]
  rw [last]
  intro free nonzero
  cases right with
  | nil => exact absurd rfl nonzero
  | cons r rs =>
    have far : nextBlock mem' (block + extent 8 left + n + 8) = block + extent 8 left + n + 8 + r.size + 8 := by
      rw [nextBlock, last]
      rfl
    rw [far]
    exact unseen.far_clear rfl free

end

end

theorem HeapWellFormed.keeps_freed {s : MallocState} {tiles : Nat → List Mark} (wf : HeapWellFormed s tiles)
    {b : Blocklist} {left right : List Mark} {n : Nat} (live : List (Nat × Nat)) (present : b ∈ s.heap.pBlocks)
    (sub : tiles b.block = left.reverse ++ ⟨n, true⟩ :: right) :
    KeepsOthers (b.block + extent 8 left) s tiles ⟨customFree s.heap (b.block + extent 8 left + 8), live⟩
      (Function.update tiles b.block (release 8 left right n)) := by
  obtain ⟨pre, post, mem', blocks, -, heap, arena', bound, same⟩ := wf.freed present sub
  have apart := wf.apart
  rw [heap]
  generalize hb : (if b.maxfree < releasedSize 8 left right n then
      { b with maxfree := releasedSize 8 left right n } else b) = b'
  have block' : b'.block = b.block := by rw [← hb]; split <;> rfl
  rintro y l differ ⟨d, hd, placed⟩
  by_cases equal : d = b
  · subst equal
    rw [sub] at placed
    have remains := release_used placed rfl differ
    have free : (d.block + extent 8 (absorb 8 left n).1, (⟨releasedSize 8 left right n, false⟩ : Mark)) ∈
        place 8 d.block (release 8 left right n) := by
      rw [release, place_zipper]
      simp [releasedSize]
    have beside := place_disjoint remains free (by simp)
    dsimp only at beside
    refine ⟨⟨b', by simp, by rwa [block', Function.update_self]⟩, fun a lo hi => same a (by omega)⟩
  · have outer := wf.used_within hd placed
    have beside := apart.forall hd present equal
    have size := (wf.arena d hd).toLaid.size_ge
    have size' := (wf.arena b present).toLaid.size_ge
    have elsewhere : d.block ≠ b.block := by rcases beside with before | after <;> omega
    refine ⟨⟨d, ?_, ?_⟩, fun a lo hi => same a (by rcases beside with before | after <;> omega)⟩
    · rw [blocks] at hd
      rcases List.mem_append.mp hd with before | rest
      · exact List.mem_append_left _ before
      · rcases List.mem_cons.mp rest with same | after
        · exact absurd same equal
        · exact List.mem_append_right _ (List.mem_cons_of_mem _ after)
    · rwa [Function.update_of_ne elsewhere]

/-! ### Marks that spell one tiling only -/

/-- The `next` of each mark decides where the marks behind are. -/
theorem spells_unique {mem mem' : ByteMemory} {a : Nat} {ts us : List Mark} (spells : Spells mem a ts)
    (spells' : Spells mem' a us) (sized : ∀ t ∈ ts, 0 < t.size) (sized' : ∀ u ∈ us, 0 < u.size)
    (last : next mem (a + extent 8 ts) = Mark.zero) (last' : next mem' (a + extent 8 us) = Mark.zero)
    (same : ∀ x t, (x, t) ∈ place 8 a ts → next mem' x = next mem x)
    (same_last : next mem' (a + extent 8 ts) = next mem (a + extent 8 ts)) : us = ts := by
  induction ts generalizing a us with
  | nil =>
    cases us with
    | nil => rfl
    | cons u us =>
      have first := spells'.1
      rw [extent_nil, Nat.add_zero] at last same_last
      rw [same_last, last] at first
      exact absurd first.symm (mark_ne_zero (sized' u List.mem_cons_self))
  | cons t ts ih =>
    obtain ⟨here, -, rest⟩ := spells
    have here' := same a t List.mem_cons_self
    rw [here] at here'
    cases us with
    | nil =>
      rw [extent_nil, Nat.add_zero] at last'
      rw [last'] at here'
      exact absurd here'.symm (mark_ne_zero (sized t List.mem_cons_self))
    | cons u us =>
      obtain ⟨first, -, rest'⟩ := spells'
      obtain rfl : u = t := first.symm.trans here'
      have joint : ∀ vs : List Mark, a + extent 8 (u :: vs) = a + 8 + u.size + extent 8 vs := by
        intro vs
        rw [extent_cons]
        omega
      rw [joint] at last last' same_last
      rw [ih rest rest' (fun v mem => sized v (List.mem_cons_of_mem _ mem))
        (fun v mem => sized' v (List.mem_cons_of_mem _ mem)) last last'
        (fun x v placed => same x v (List.mem_cons_of_mem _ placed)) same_last]

/-- The mark behind a sub-block in use cannot be written over without harm. -/
theorem Laid.prev_of_changed {mem mem' : ByteMemory} {block size y k : Nat} {ts us : List Mark}
    (laid : Laid mem block size ts) (laid' : Laid mem' block size us)
    (placed : (y, (⟨k, true⟩ : Mark)) ∈ place 8 block ts)
    (changed : ChangedIn (y + 8 + k) (y + 8 + k + 2) mem mem') : prev mem' (y + 8 + k) = ⟨k, true⟩ := by
  have within := place_within placed
  dsimp only at within
  have unique : us = ts := by
    refine spells_unique laid.spells laid'.spells laid.sized laid'.sized laid.last laid'.last ?_ ?_
    · intro x t here
      by_cases equal : (x, t) = (y, ⟨k, true⟩)
      · obtain ⟨rfl, rfl⟩ := Prod.mk.inj equal
        rw [next, next, mark_frame changed (by omega)]
      · have beside := place_disjoint here placed equal
        dsimp only at beside
        rw [next, next, mark_frame changed (by omega)]
    · rw [next, next, mark_frame changed (by omega)]
  rw [unique] at laid'
  exact (laid'.marks_placed placed).2

theorem read_inj {mem mem' : ByteMemory} {a n : Nat} (same : ByteMemory.read mem' a n = ByteMemory.read mem a n) :
    ∀ b, a ≤ b → b < a + n → mem' b = mem b := by
  induction n generalizing a with
  | zero => exact fun b lo hi => by omega
  | succ n ih =>
    rw [ByteMemory.read, ByteMemory.read] at same
    have low := (mem a).isLt
    have low' := (mem' a).isLt
    intro b lo hi
    rcases Nat.eq_or_lt_of_le lo with rfl | above
    · exact BitVec.eq_of_toNat_eq (by omega)
    · have rest : ByteMemory.read mem' (a + 1) n = ByteMemory.read mem (a + 1) n := by omega
      exact ih rest b (by omega) (by omega)

theorem mark_inj {mem mem' : ByteMemory} {a : Nat} (same : mark mem' a = mark mem a) :
    ∀ b, a ≤ b → b < a + 4 → mem' b = mem b := by
  have bound := ByteMemory.read_lt mem a 4
  have bound' := ByteMemory.read_lt mem' a 4
  unfold mark at same
  obtain ⟨size, fill⟩ := Tile.mk.inj same
  have top : (ByteMemory.read mem' a 4 / 2 ^ 31 = 1) ↔ ByteMemory.read mem a 4 / 2 ^ 31 = 1 := by
    simpa using fill
  have word : ByteMemory.read mem' a 4 = ByteMemory.read mem a 4 := by omega
  exact read_inj word

/-! ### `customRealloc` -/

/-- The size that `expandBlock` compares. -/
def roundedSize (m : Nat) : Nat := (m + 3) % 2 ^ 64 / 4 * 4

/-- A sub-block in use is kept when it is large enough and never grows. -/
theorem expandBlock_used {mem : ByteMemory} {x n m : Nat} (here : next mem x = ⟨n, true⟩) :
    expandBlock mem x m = (mem, decide (roundedSize m ≤ n)) := by
  unfold expandBlock roundedSize
  by_cases enough : (m + 3) % 2 ^ 64 / 4 * 4 ≤ n
  · simp only [here, ge_iff_le, enough, if_true, decide_true]
  · simp only [here, ge_iff_le, enough, if_false, if_true, decide_false]

theorem expandIn_used {mem : ByteMemory} {x n m : Nat} {pre : List Blocklist} {b : Blocklist} {ts : List Mark}
    (post : List Blocklist) (apart : ∀ c ∈ pre, Apart c b) (inside : b.block < x + 8 ∧ x + 8 < b.block + b.size)
    (laid : Laid mem b.block b.size ts) (here : next mem x = ⟨n, true⟩) :
    expandIn mem (x + 8) m (pre ++ b :: post) =
      some (if roundedSize m ≤ n then .expanded mem (pre ++ { b with maxfree := atLeastMark (maxFree ts) } :: post)
        else .full) := by
  induction pre with
  | nil =>
    rw [List.nil_append, expandIn, if_pos inside, Nat.add_sub_cancel, expandBlock_used here]
    by_cases enough : roundedSize m ≤ n
    · simp only [enough, decide_true, if_true, List.nil_append]
      rw [getMaxFreeBlock_all laid]
      rfl
    · simp only [enough, decide_false, if_false]
  | cons c rest ih =>
    have outside : ¬(x + 8 > c.block ∧ x + 8 < c.block + c.size) := by
      rcases apart c List.mem_cons_self with before | after <;> omega
    rw [List.cons_append, expandIn, if_neg outside, ih (fun d mem => apart d (List.mem_cons_of_mem _ mem))]
    by_cases enough : roundedSize m ≤ n
    · rw [if_pos enough, if_pos enough]
      rfl
    · rw [if_neg enough, if_neg enough]
      rfl

/-- The sub-block at `x` with `n` bytes is now one of at least `m` bytes at `newp`, and nothing else has changed. -/
structure Reallocated (s : MallocState) (tiles : Nat → List Mark) (x n m : Nat) (h : Heap) (newp : Nat) : Prop where
  large : ∃ b ∈ h.pBlocks, ∃ ts y k, Arena h.mem b.block b.size ts ∧ (y, (⟨k, true⟩ : Mark)) ∈ place 8 b.block ts ∧
    newp = y + 8 ∧ m ≤ k
  bytes : ∀ i, i < min n m → h.mem (newp + i) = s.heap.mem (x + 8 + i)
  marks : ∀ b ∈ h.pBlocks, ∃ ts, Arena h.mem b.block b.size ts
  others : ∀ y l, y ≠ x → Used s tiles y l → SamePayload y l s.heap.mem h.mem

/-- Below 2 GiB, and if a new sub-block is needed, the one that `customMalloc` has for the size takes all bytes of the
old one, or the bytes copied beyond it are what is there. -/
def CopyFits (s : MallocState) (x n m base : Nat) : Prop :=
  m < 2 ^ 31 ∧
    (n < roundedSize m → ∀ h newp, customMalloc s.heap m base = some (h, newp) →
      ∀ i, sizeBlock h.mem (newp - 8) ≤ i → i < n → h.mem (newp + i) = s.heap.mem (x + 8 + i))

theorem Reallocated.small {s : MallocState} {tiles : Nat → List Mark} {x n m : Nat} {h : Heap} {newp : Nat}
    (reallocated : Reallocated s tiles x n m h newp) : m < 2 ^ 31 := by
  obtain ⟨b, -, ts, y, k, arena, placed, -, le⟩ := reallocated.large
  obtain ⟨pre, post, rfl, -⟩ := mem_place.mp placed
  have bound := spells_size_lt arena.spells ⟨k, true⟩ (by simp)
  dsimp only at bound
  omega

section

variable {s : MallocState} {tiles : Nat → List Mark} (wf : HeapWellFormed s tiles)
variable {x n m base size : Nat} (used : Used s tiles x n)

include wf used

theorem customRealloc_used :
    (roundedSize m ≤ n → ∃ pre b post maxfree, s.heap.pBlocks = pre ++ b :: post ∧
      customRealloc s.heap (x + 8) m base = some (⟨s.heap.mem, pre ++ { b with maxfree } :: post⟩, x + 8)) ∧
    (n < roundedSize m → customRealloc s.heap (x + 8) m base =
      (customMalloc s.heap m base).map fun (h, newp) =>
        (customFree { h with mem := copy h.mem newp (sizeBlock h.mem x) h.mem (x + 8) } (x + 8), newp)) := by
  obtain ⟨here, -⟩ := wf.used_marks used
  obtain ⟨b, present, placed⟩ := used
  have within := wf.used_within present placed
  obtain ⟨pre, post, blocks⟩ := List.append_of_mem present
  have apart := wf.apart
  rw [blocks] at apart
  obtain ⟨-, apart⟩ := apart_of_split apart
  have found := expandIn_used (m := m) post (fun c mem => apart c (List.mem_append_left _ mem))
    (by omega) (wf.arena b present).toLaid here
  rw [← blocks] at found
  constructor
  · intro enough
    rw [if_pos enough] at found
    refine ⟨pre, b, post, atLeastMark (maxFree (tiles b.block)), blocks, ?_⟩
    rw [customRealloc, if_neg (by omega), found]
    rfl
  · intro short
    rw [if_neg (by omega)] at found
    rw [customRealloc, if_neg (by omega), found, Nat.add_sub_cancel]
    rfl

theorem reallocated_inPlace (enough : roundedSize m ≤ n) (small : m < 2 ^ 31) :
    ∃ h newp, customRealloc s.heap (x + 8) m base = some (h, newp) ∧ Reallocated s tiles x n m h newp := by
  obtain ⟨pre, b, post, maxfree, blocks, result⟩ := (customRealloc_used wf used).1 enough
  have same : ∀ c, c ∈ s.heap.pBlocks → ∃ d ∈ pre ++ { b with maxfree } :: post, d.block = c.block ∧ d.size = c.size := by
    intro c mem
    rw [blocks] at mem
    rcases List.mem_append.mp mem with before | rest
    · exact ⟨c, List.mem_append_left _ before, rfl, rfl⟩
    · rcases List.mem_cons.mp rest with rfl | after
      · exact ⟨_, List.mem_append_right _ List.mem_cons_self, rfl, rfl⟩
      · exact ⟨c, List.mem_append_right _ (List.mem_cons_of_mem _ after), rfl, rfl⟩
  have fits : m ≤ n := by
    unfold roundedSize at enough
    omega
  refine ⟨_, _, result, ?_, fun i lt => rfl, ?_, fun y l _ _ a _ _ => rfl⟩
  · obtain ⟨c, present, placed⟩ := used
    obtain ⟨d, mem, block, size⟩ := same c present
    refine ⟨d, mem, tiles c.block, x, n, ?_, ?_, rfl, fits⟩
    · rw [block, size]
      exact wf.arena c present
    · rwa [block]
  · intro d mem
    have known : ∃ c ∈ s.heap.pBlocks, d.block = c.block ∧ d.size = c.size := by
      rw [blocks]
      rcases List.mem_append.mp mem with before | rest
      · exact ⟨d, List.mem_append_left _ before, rfl, rfl⟩
      · rcases List.mem_cons.mp rest with rfl | after
        · exact ⟨b, List.mem_append_right _ List.mem_cons_self, rfl, rfl⟩
        · exact ⟨d, List.mem_append_right _ (List.mem_cons_of_mem _ after), rfl, rfl⟩
    obtain ⟨c, present, block, size⟩ := known
    rw [block, size]
    exact ⟨_, wf.arena c present⟩

end

/-! ### Moving to another sub-block -/

/-- Where the mark behind a sub-block in use is, seen from another one. -/
theorem unseen_of_used {s : MallocState} {tiles : Nat → List Mark} (wf : HeapWellFormed s tiles) {b : Blocklist}
    {left right : List Mark} {n y k : Nat} (present : b ∈ s.heap.pBlocks)
    (sub : tiles b.block = left.reverse ++ ⟨n, true⟩ :: right) (used : Used s tiles y k)
    (differ : y ≠ b.block + extent 8 left) : Unseen b.block (y + 8 + k) n left right := by
  have whole := (wf.arena b present).whole
  rw [sub] at whole
  simp only [extent_append, extent_reverse, extent_cons] at whole
  obtain ⟨d, hd, placed⟩ := used
  by_cases same : d = b
  · subst same
    rw [sub, place_zipper] at placed
    rcases List.mem_append.mp placed with before | rest
    · cases left with
      | nil => cases before
      | cons l ls =>
        rw [List.reverse_cons, place_append, extent_reverse] at before
        rcases List.mem_append.mp before with earlier | last
        · have within := place_within earlier
          rw [extent_reverse] at within
          dsimp only at within
          refine .before (by rw [extent_cons]; omega) fun l' ls' first _ => ?_
          obtain ⟨-, rfl⟩ := List.cons.inj first
          omega
        · obtain ⟨rfl, rfl⟩ := Prod.mk.inj (List.mem_singleton.mp last)
          refine .here _ ls rfl rfl ?_
          rw [extent_cons]
          dsimp only
          omega
    · rcases List.mem_cons.mp rest with here | after
      · exact absurd (Prod.mk.inj here).1 differ
      · have within := place_within after
        dsimp only at within
        refine .behind (by omega) fun r rs first free => ?_
        rw [first] at after
        rcases List.mem_cons.mp after with here | later
        · obtain ⟨-, rfl⟩ := Prod.mk.inj here
          cases free
        · have within := place_within later
          dsimp only at within
          omega
  · have within := wf.used_within hd placed
    rcases wf.apart.forall hd present same with before | after
    · refine .before (by omega) fun l ls first _ => ?_
      omega
    · refine .behind (by omega) fun r rs first _ => ?_
      have total := congrArg (extent 8) first
      rw [extent_cons] at total
      omega

theorem customFree_inside {h : Heap} {addr : Nat} {pre post : List Blocklist} {b : Blocklist}
    (blocks : h.pBlocks = pre ++ b :: post) (apart : ∀ c ∈ pre, Apart c b)
    (inside : b.block < addr ∧ addr < b.block + b.size) :
    ∃ b' : Blocklist, b'.block = b.block ∧ b'.size = b.size ∧
      customFree h addr = ⟨(freeBlock h.mem b.block (addr - 8) none).1, pre ++ b' :: post⟩ := by
  rw [customFree, if_neg (by omega), blocks, freeIn_spec apart inside]
  generalize freeBlock h.mem b.block (addr - 8) none = outcome
  refine ⟨if b.maxfree < outcome.2.1 then { b with maxfree := outcome.2.1 } else b, ?_, ?_, rfl⟩
  · split <;> rfl
  · split <;> rfl

theorem customFree_lowBytes {s : MallocState} {tiles : Nat → List Mark} (wf : HeapWellFormed s tiles) {b : Blocklist}
    {left right : List Mark} {n c : Nat} (src : ByteMemory) (present : b ∈ s.heap.pBlocks)
    (sub : tiles b.block = left.reverse ++ ⟨n, true⟩ :: right) (unseen : Unseen b.block c n left right) :
    let freed := customFree s.heap (b.block + extent 8 left + 8)
    let freed' := customFree { s.heap with mem := lowBytes s.heap.mem c src } (b.block + extent 8 left + 8)
    freed'.mem = lowBytes freed.mem c src ∧
      ∀ d ∈ freed.pBlocks, ∃ d' ∈ freed'.pBlocks, d'.block = d.block ∧ d'.size = d.size := by
  have arena := wf.arena b present
  have whole := arena.whole
  rw [sub] at arena whole
  simp only [extent_append, extent_reverse, extent_cons] at whole
  obtain ⟨pre, post, mem', blocks, freed, heap, -, -, -⟩ := wf.freed present sub
  have apart := wf.apart
  rw [blocks] at apart
  obtain ⟨-, apart⟩ := apart_of_split apart
  have marks : freeMarks (lowBytes s.heap.mem c src) b.block (b.block + extent 8 left) = _ :=
    freeMarks_lowBytes arena unseen
  rw [freed] at marks
  have heap' := customFree_inside (h := { s.heap with mem := lowBytes s.heap.mem c src }) blocks
    (fun c mem => apart c (List.mem_append_left _ mem))
    (show b.block < b.block + extent 8 left + 8 ∧ b.block + extent 8 left + 8 < b.block + b.size by omega)
  obtain ⟨b', block', size', heap'⟩ := heap'
  dsimp only
  rw [heap, heap']
  dsimp only
  refine ⟨by rw [freeBlock, Nat.add_sub_cancel, marks], fun d mem => ?_⟩
  rcases List.mem_append.mp mem with before | rest
  · exact ⟨d, List.mem_append_left _ before, rfl, rfl⟩
  · rcases List.mem_cons.mp rest with rfl | after
    · refine ⟨b', List.mem_append_right _ List.mem_cons_self, ?_, ?_⟩
      · rw [block']
        split <;> rfl
      · rw [size']
        split <;> rfl
    · exact ⟨d, List.mem_append_right _ (List.mem_cons_of_mem _ after), rfl, rfl⟩

/-- A copy of up to two bytes too many differs from the one of `k` in them only. -/
theorem copy_eq_lowBytes (mem : ByteMemory) (dst src : Nat) {n k : Nat} (reach : n ≤ k + 2) :
    copy mem dst n mem src = lowBytes (copy mem dst (min n k) mem src) (dst + k) (copy mem dst n mem src) := by
  funext a
  by_cases low : dst + k ≤ a ∧ a < dst + k + 2
  · have same : dst + k + (a - (dst + k)) = a := by omega
    rw [lowBytes, copy_inside _ _ low, same]
  · refine Eq.trans ?_ (copy_outside _ _ (by omega)).symm
    unfold copy
    by_cases within : dst ≤ a ∧ a < dst + min n k
    · rw [if_pos within, if_pos (by omega)]
    · rw [if_neg within, if_neg (by omega)]

/-- Bytes that are there already need not be copied. -/
theorem copy_eq_min (mem : ByteMemory) (dst src : Nat) {n k : Nat}
    (there : ∀ i, k ≤ i → i < n → mem (dst + i) = mem (src + i)) :
    copy mem dst n mem src = copy mem dst (min n k) mem src := by
  funext a
  unfold copy
  by_cases within : dst ≤ a ∧ a < dst + min n k
  · rw [if_pos within, if_pos (by omega)]
  · rw [if_neg within]
    by_cases overwritten : dst ≤ a ∧ a < dst + n
    · have same := there (a - dst) (by omega) (by omega)
      have position : dst + (a - dst) = a := by omega
      rw [position] at same
      rw [if_pos overwritten, same]
    · rw [if_neg overwritten]

section

variable {s : MallocState} {tiles : Nat → List Mark} (wf : HeapWellFormed s tiles)
variable {x n m base size : Nat} (used : Used s tiles x n) (live : (x + 8, size) ∈ s.live) (pos : 1 ≤ m)
  (small : m < 2 ^ 31)
  (fresh : findSpace s.heap.mem m s.heap.pBlocks = some none → Fresh s.heap.pBlocks base (allocSize m))
  (short : n < roundedSize m)

include wf used live pos small fresh short

/-- The copy that stops at the end of the new sub-block is what is wanted; the real one may go on for two bytes. -/
theorem reallocated_moves_iff :
    (∃ h newp, customRealloc s.heap (x + 8) m base = some (h, newp) ∧ Reallocated s tiles x n m h newp) ↔
      ∀ h newp, customMalloc s.heap m base = some (h, newp) →
        ∀ i, sizeBlock h.mem (newp - 8) ≤ i → i < n → h.mem (newp + i) = s.heap.mem (x + 8 + i) := by
  obtain ⟨h, y, k, tiles₁, served, wf₁, enough, used₁, new, keeps₁⟩ := customMalloc_grants wf pos small fresh
  have differ : x ≠ y := by
    rintro rfl
    exact new n used
  obtain ⟨usedx, samex⟩ := keeps₁ x n differ used
  have herex := (wf₁.used_marks usedx).1
  obtain ⟨herey, behindy⟩ := wf₁.used_marks used₁
  have apart := wf₁.used_disjoint usedx used₁ differ
  have reach : n ≤ k + 2 := by
    unfold roundedSize at short
    omega
  have result : customRealloc s.heap (x + 8) m base =
      some (customFree { h with mem := copy h.mem (y + 8) n h.mem (x + 8) } (x + 8), y + 8) := by
    rw [(customRealloc_used wf used).2 short, served]
    dsimp only [Option.map_some]
    rw [sizeBlock, herex]
  -- the heap in which the copy stops at the end of the new sub-block
  have inside : ChangedIn (y + 8) (y + 8 + k) h.mem (copy h.mem (y + 8) (min n k) h.mem (x + 8)) :=
    fun a out => copy_outside h.mem h.mem (by omega)
  have wf₂ := wf₁.payload used₁ inside
  obtain ⟨b, present, placed⟩ := usedx
  obtain ⟨left, right, sub, rfl⟩ := placed_zipper placed
  have live₂ : (b.block + extent 8 left + 8, size) ∈ (y + 8, m) :: s.live := List.mem_cons_of_mem _ live
  have wf₃ := wf₂.free present sub live₂
  have keeps₃ := wf₂.keeps_freed (((y + 8, m) :: s.live).erase (b.block + extent 8 left + 8, size)) present sub
  obtain ⟨used₃, samey⟩ := keeps₃ y k (Ne.symm differ) used₁
  generalize good_eq : copy h.mem (y + 8) (min n k) h.mem (b.block + extent 8 left + 8) = good at *
  constructor
  · rintro ⟨h', newp, returned, reallocated⟩ h₁ newp₁ served₁ i ge lt
    rw [served] at served₁
    obtain ⟨rfl, rfl⟩ := Prod.mk.inj (Option.some.inj served₁)
    rw [result] at returned
    obtain ⟨rfl, -⟩ := Prod.mk.inj (Option.some.inj returned)
    rw [sizeBlock, Nat.add_sub_cancel, herey] at ge
    dsimp only at ge
    generalize copied_eq : copy h.mem (y + 8) n h.mem (b.block + extent 8 left + 8) = copied at reallocated
    have copied_low : copied = lowBytes good (y + 8 + k) copied := by
      rw [← copied_eq, ← good_eq]
      exact copy_eq_lowBytes h.mem (y + 8) (b.block + extent 8 left + 8) reach
    have unseen := unseen_of_used wf₂ present sub used₁ (Ne.symm differ)
    obtain ⟨mem_eq, blocks_eq⟩ := customFree_lowBytes wf₂ copied present sub unseen
    dsimp only at mem_eq blocks_eq
    rw [← copied_low] at mem_eq blocks_eq
    obtain ⟨d, hd, placed₃⟩ := used₃
    obtain ⟨d', hd', block, size⟩ := blocks_eq d hd
    obtain ⟨ts, arena⟩ := reallocated.marks d' hd'
    rw [block, size, mem_eq] at arena
    have lost := (wf₃.arena d hd).toLaid.prev_of_changed arena.toLaid placed₃ (lowBytes_changed _ copied _)
    have kept := (wf₃.used_marks ⟨d, hd, placed₃⟩).2
    have before := (wf₂.used_marks used₁).2
    dsimp only at kept before
    have one := mark_inj (kept.trans before.symm) (y + 8 + i) (by omega) (by omega)
    have two := mark_inj (lost.trans kept.symm) (y + 8 + i) (by omega) (by omega)
    rw [one, lowBytes, copy_inside _ copied (by omega)] at two
    have position : y + 8 + k + (y + 8 + i - (y + 8 + k)) = y + 8 + i := by omega
    have offset : b.block + extent 8 left + 8 + (y + 8 + i - (y + 8)) = b.block + extent 8 left + 8 + i := by omega
    rw [position, ← copied_eq, copy_inside h.mem h.mem (by omega), offset, inside _ (by omega),
      samex _ (by omega) (by omega)] at two
    exact two.symm
  · intro fits
    have beyond := fits h (y + 8) served
    rw [sizeBlock, Nat.add_sub_cancel, herey] at beyond
    dsimp only at beyond
    have copied : copy h.mem (y + 8) n h.mem (b.block + extent 8 left + 8) = good := by
      rw [← good_eq]
      refine copy_eq_min h.mem (y + 8) (b.block + extent 8 left + 8) fun i ge lt => ?_
      exact (beyond i ge lt).trans (samex _ (by omega) (by omega)).symm
    rw [copied] at result
    refine ⟨_, _, result, ?_, ?_, fun d mem => ⟨_, wf₃.arena d mem⟩, ?_⟩
    · obtain ⟨d, hd, placed₃⟩ := used₃
      exact ⟨d, hd, _, y, k, wf₃.arena d hd, placed₃, rfl, enough⟩
    · intro i lt
      have here : good (y + 8 + i) = h.mem (b.block + extent 8 left + 8 + i) := by
        rw [← good_eq, copy_inside h.mem h.mem (by omega)]
        congr 1
        omega
      exact (samey _ (by omega) (by omega)).trans (here.trans (samex _ (by omega) (by omega)))
    · intro z l other usedz a lo hi
      have apart_new : z ≠ y := by
        rintro rfl
        exact new l usedz
      obtain ⟨usedz₁, same₁⟩ := keeps₁ z l apart_new usedz
      obtain ⟨-, same₃⟩ := keeps₃ z l other usedz₁
      have beside := wf₁.used_disjoint usedz₁ used₁ apart_new
      exact (same₃ a lo hi).trans ((inside a (by omega)).trans (same₁ a lo hi))

end

/-- For every live pointer and every size, `customRealloc` keeps the data, the marks and the neighbours exactly when
the copy fits. -/
theorem customRealloc_keeps_iff {s : MallocState} {tiles : Nat → List Mark} (wf : HeapWellFormed s tiles)
    {x n m base size : Nat} (used : Used s tiles x n) (live : (x + 8, size) ∈ s.live) (pos : 1 ≤ m)
    (fresh : findSpace s.heap.mem m s.heap.pBlocks = some none → Fresh s.heap.pBlocks base (allocSize m)) :
    (∃ h newp, customRealloc s.heap (x + 8) m base = some (h, newp) ∧ Reallocated s tiles x n m h newp) ↔
      CopyFits s x n m base := by
  constructor
  · rintro ⟨h, newp, returned, reallocated⟩
    have small := reallocated.small
    refine ⟨small, fun short => ?_⟩
    exact (reallocated_moves_iff wf used live pos small fresh short).mp ⟨h, newp, returned, reallocated⟩
  · rintro ⟨small, fits⟩
    by_cases enough : roundedSize m ≤ n
    · exact reallocated_inPlace wf used enough small
    · have short : n < roundedSize m := Nat.lt_of_not_le enough
      exact (reallocated_moves_iff wf used live pos small fresh short).mpr (fits short)

/-- Seven bytes in a first arena. -/
theorem sevenBytes : ∃ h tiles, customMalloc ⟨fun _ => 0xA5, []⟩ 7 0x10000 = some (h, 0x10008) ∧
    HeapWellFormed ⟨h, [(0x10008, 7)]⟩ tiles ∧ Used ⟨h, [(0x10008, 7)]⟩ tiles 0x10000 7 ∧
    (findSpace h.mem 5 h.pBlocks).map (·.isNone) = some false ∧
    (customMalloc h 5 0).map (fun r => (sizeBlock r.1.mem (r.2 - 8), r.1.mem (r.2 + 5), h.mem 0x1000D)) =
      some (5, 5, 0) := by
  have start : HeapWellFormed ⟨⟨fun _ => 0xA5, []⟩, []⟩ fun _ => [] := by
    refine ⟨?_, ?_, ?_, ?_, ?_, ?_⟩ <;> simp
  have first : (customMalloc ⟨fun _ => 0xA5, []⟩ 7 0x10000).map (fun r => (r.2, sizeBlock r.1.mem (r.2 - 8))) =
      some (0x10008, 7) := by
    decide +kernel
  have space : (customMalloc ⟨fun _ => 0xA5, []⟩ 7 0x10000).bind
      (fun r => (findSpace r.1.mem 5 r.1.pBlocks).map (·.isNone)) = some false := by
    decide +kernel
  have second : (customMalloc ⟨fun _ => 0xA5, []⟩ 7 0x10000).bind (fun r => (customMalloc r.1 5 0).map fun q =>
      (sizeBlock q.1.mem (q.2 - 8), q.1.mem (q.2 + 5), r.1.mem 0x1000D)) = some (5, 5, 0) := by
    decide +kernel
  obtain ⟨h, x, n, tiles, served, wf, -, used, -⟩ :=
    customMalloc_grants start (show 1 ≤ 7 by decide) (by decide)
      fun _ => (⟨by decide, by decide, by simp⟩ : Fresh [] 0x10000 (allocSize 7))
  rw [served] at first space second
  simp only [Option.map_some, Option.some.injEq, Prod.mk.injEq, Nat.add_sub_cancel] at first
  obtain ⟨address, size⟩ := first
  have marks := (wf.used_marks used).1
  obtain rfl : x = 0x10000 := by omega
  rw [sizeBlock, marks] at size
  dsimp only at size
  subst size
  exact ⟨h, tiles, served, wf, used, space, second⟩

theorem customRealloc_keeps_iff_sevenBytes : ∃ h tiles,
    customMalloc ⟨fun _ => 0xA5, []⟩ 7 0x10000 = some (h, 0x10008) ∧
    ((∃ h' newp, customRealloc h (0x10000 + 8) 5 0 = some (h', newp) ∧
        Reallocated ⟨h, [(0x10008, 7)]⟩ tiles 0x10000 7 5 h' newp) ↔
      CopyFits ⟨h, [(0x10008, 7)]⟩ 0x10000 7 5 0) := by
  obtain ⟨h, tiles, served, wf, used, reused, -⟩ := sevenBytes
  refine ⟨h, tiles, served, customRealloc_keeps_iff wf used (List.mem_singleton.mpr rfl) (by decide) fun none => ?_⟩
  rw [none] at reused
  cases reused

/-- Asked for five bytes, `customRealloc` copies the seven it has into a sub-block of five. -/
theorem customRealloc_overruns : ∃ h tiles,
    customMalloc ⟨fun _ => 0xA5, []⟩ 7 0x10000 = some (h, 0x10008) ∧
    HeapWellFormed ⟨h, [(0x10008, 7)]⟩ tiles ∧ Used ⟨h, [(0x10008, 7)]⟩ tiles 0x10000 7 ∧
    ¬ ∃ h' newp, customRealloc h (0x10000 + 8) 5 0 = some (h', newp) ∧
        Reallocated ⟨h, [(0x10008, 7)]⟩ tiles 0x10000 7 5 h' newp := by
  obtain ⟨h, tiles, served, wf, used, reused, next⟩ := sevenBytes
  refine ⟨h, tiles, served, wf, used, fun kept => ?_⟩
  have fresh : findSpace h.mem 5 h.pBlocks = some none → Fresh h.pBlocks 0 (allocSize 5) := by
    intro none
    rw [none] at reused
    cases reused
  have fits := (reallocated_moves_iff wf used (List.mem_singleton.mpr rfl) (by decide) (by decide) fresh
    (by decide)).mp kept
  obtain ⟨⟨h₂, newp⟩, served₂, values⟩ := Option.map_eq_some_iff.mp next
  simp only [Prod.mk.injEq] at values
  obtain ⟨size, mark, byte⟩ := values
  have copied := fits h₂ newp served₂ 5 (Nat.le_of_eq size) (by decide)
  rw [mark] at copied
  exact absurd (copied.trans byte) (by decide)

end Box64.Custommem
