import Box64.Custommem.DynarecMap

/-!
# Looking up a native address

`FindDynablockFromNativeAddress` answers from the `helper` bytes and the hash of block starts.
Both agree with the live allocations as long as nothing is freed and every block of more than
255 bytes gets a map of its own.
-/

namespace Box64.Custommem

open Tiling ByteMemory

variable {Db : Type}

/-- Each address of a map has the owner that the live allocations give it, or none. -/
def LookupExact (s : DynarecState Db) : Prop :=
  ∀ oversized, ∀ m ∈ s.mmaplist, ∀ a, m.block ≤ a → a < m.block + m.size →
    ∃ r, findDynablockFromNativeAddress oversized a s.mmaplist = some r ∧
      ∀ db, r = some db ↔ ∃ l ∈ s.live, l.db = db ∧ l.addr ≤ a ∧ a < l.addr + l.size

/-- Nothing is freed, and a block of more than 255 bytes finds no map that is open and has room. -/
def FreshBlocks (s : DynarecState Db) : DynarecCall Db → Prop
  | .alloc _ size _ => size ≤ 255 ∨ ∀ m ∈ s.mmaplist, m.locked ≠ 0 ∨ m.maxfree < size + 8
  | .free _ => False
  | .store _ _ => True

/-! ### The invariant -/

def Allocation.Covers (l : Allocation Db) (a : Nat) : Prop := l.addr ≤ a ∧ a < l.addr + l.size

/-- The `helper` bytes and the hash of `m` are those of the live allocations in it. -/
structure Indexed (m : Mmaplist Db) (live : List (Allocation Db)) : Prop where
  back : ∀ l ∈ live, m.block ≤ l.addr → l.addr < m.block + m.size →
    ∀ j < l.size, m.helper (l.addr - m.block + j) = BitVec.ofNat 8 (min j 255)
  owner : ∀ l ∈ live, m.block ≤ l.addr → l.addr < m.block + m.size → m.get l.addr = some l.db
  unowned : ∀ a, m.block ≤ a → a < m.block + m.size → (∀ l ∈ live, ¬l.Covers a) →
    m.helper (a - m.block) = 0 ∧ m.get a = none

/-- `first` is the place of a mark. -/
def AtMark (first block : Nat) (ts : List Mark) : Prop := ∃ xs ys, ts = xs ++ ys ∧ first = block + extent 8 xs

structure MapsWellFormed (s : DynarecState Db) (tiles : Nat → List Mark) : Prop where
  heap : HeapWellFormed s.arenas tiles
  size : ∀ m ∈ s.mmaplist, m.size = mmapSize
  first : ∀ m ∈ s.mmaplist, AtMark m.first m.block (tiles m.block)
  indexed : ∀ m ∈ s.mmaplist, Indexed m s.live
  positive : ∀ l ∈ s.live, 0 < l.size

theorem MapsWellFormed.arena {s : DynarecState Db} {tiles : Nat → List Mark} (wf : MapsWellFormed s tiles)
    {m : Mmaplist Db} (mem : m ∈ s.mmaplist) : Arena s.mem m.block m.size (tiles m.block) :=
  wf.heap.arena m.arena (List.mem_map_of_mem mem)

/-- A live allocation lies in one of the maps, behind its mark. -/
theorem MapsWellFormed.within {s : DynarecState Db} {tiles : Nat → List Mark} (wf : MapsWellFormed s tiles)
    {l : Allocation Db} (live : l ∈ s.live) :
    ∃ m ∈ s.mmaplist, m.block + 8 ≤ l.addr ∧ l.addr + l.size + 8 ≤ m.block + m.size := by
  obtain ⟨b, hb, held⟩ := wf.heap.holds (l.addr, l.size) (List.mem_map_of_mem live)
  obtain ⟨m, mem, rfl⟩ := List.mem_map.mp hb
  exact ⟨m, mem, held.within (wf.heap.arena _ hb).toLaid⟩

/-- Two maps that share an address are at the same block. -/
theorem MapsWellFormed.same_block {s : DynarecState Db} {tiles : Nat → List Mark} (wf : MapsWellFormed s tiles)
    {m k : Mmaplist Db} (hm : m ∈ s.mmaplist) (hk : k ∈ s.mmaplist) {a : Nat} (inM : m.block ≤ a ∧ a < m.block + m.size)
    (inK : k.block ≤ a ∧ a < k.block + k.size) : m.block = k.block := by
  by_contra differ
  have other : m.arena ≠ k.arena := fun same => differ (congrArg Blocklist.block same)
  have apart := wf.heap.apart.forall (List.mem_map_of_mem hm) (List.mem_map_of_mem hk) other
  simp only [Apart, Mmaplist.arena] at apart
  omega

/-! ### Reading the table -/

theorem stepBack_spec {helper : ByteMemory} {o : Nat} (j : Nat) {fuel : Nat} (enough : j < fuel)
    (back : ∀ i ≤ j, helper (o + i) = BitVec.ofNat 8 (min i 255)) : stepBack helper fuel (o + j) = some o := by
  induction fuel generalizing j with
  | zero => cases enough
  | succ fuel ih =>
    have byte := back j (Nat.le_refl j)
    have value : (helper (o + j)).toNat = min j 255 := by
      rw [byte, BitVec.toNat_ofNat]
      omega
    rw [stepBack]
    by_cases start : j = 0
    · subst start
      have zero : helper (o + 0) = 0 := byte
      rw [if_pos zero]
      rfl
    · have stepped : o + j - min j 255 = o + (j - min j 255) := by omega
      rw [if_neg, if_pos (by omega), value, stepped]
      · exact ih _ (by omega) fun i below => back i (by omega)
      · intro zero
        rw [zero] at value
        have least : 0 = min j 255 := value
        omega

theorem find_in {oversized : Nat → Option Db} {a : Nat} {pre post : List (Mmaplist Db)} {m : Mmaplist Db}
    (elsewhere : ∀ k ∈ pre, ¬(k.block ≤ a ∧ a < k.block + k.size)) (inside : m.block ≤ a ∧ a < m.block + m.size) :
    findDynablockFromNativeAddress oversized a (pre ++ m :: post) =
      (stepBack m.helper (a - m.block + 1) (a - m.block)).map fun p => m.get (m.block + p) := by
  induction pre with
  | nil => rw [List.nil_append, findDynablockFromNativeAddress, if_pos inside]
  | cons k rest ih =>
    rw [List.cons_append, findDynablockFromNativeAddress, if_neg (elsewhere k List.mem_cons_self)]
    exact ih fun k mem => elsewhere k (List.mem_cons_of_mem _ mem)

theorem MapsWellFormed.find {s : DynarecState Db} {tiles : Nat → List Mark} (wf : MapsWellFormed s tiles)
    (oversized : Nat → Option Db) {m : Mmaplist Db} (mem : m ∈ s.mmaplist) {a : Nat}
    (inside : m.block ≤ a ∧ a < m.block + m.size) :
    findDynablockFromNativeAddress oversized a s.mmaplist =
      (stepBack m.helper (a - m.block + 1) (a - m.block)).map fun p => m.get (m.block + p) := by
  obtain ⟨pre, post, split⟩ := List.append_of_mem mem
  have apart := wf.heap.apart
  simp only [DynarecState.arenas, split, List.map_append, List.map_cons] at apart
  obtain ⟨_, _, across⟩ := List.pairwise_append.mp apart
  rw [split]
  refine find_in ?_ inside
  intro k before here
  have beside := across k.arena (List.mem_map_of_mem before) m.arena List.mem_cons_self
  simp only [Apart, Mmaplist.arena] at beside
  omega

/-- The answer is exact where the invariant holds. -/
theorem MapsWellFormed.lookupExact {s : DynarecState Db} {tiles : Nat → List Mark} (wf : MapsWellFormed s tiles) :
    LookupExact s := by
  intro oversized m mem a low high
  have table := wf.indexed m mem
  rw [wf.find oversized mem ⟨low, high⟩]
  by_cases covered : ∃ l ∈ s.live, l.Covers a
  · obtain ⟨l, live, covers⟩ := covered
    obtain ⟨k, hk, lower, upper⟩ := wf.within live
    have same := wf.same_block mem hk ⟨low, high⟩ (by unfold Allocation.Covers at covers; omega)
    have sizes : m.size = k.size := (wf.size m mem).trans (wf.size k hk).symm
    have start : m.block ≤ l.addr ∧ l.addr < m.block + m.size := by
      unfold Allocation.Covers at covers
      omega
    have offset : a - m.block = l.addr - m.block + (a - l.addr) := by
      unfold Allocation.Covers at covers
      omega
    have back := table.back l live start.1 start.2
    refine ⟨some l.db, ?_, ?_⟩
    · rw [offset, stepBack_spec (a - l.addr) (by omega) fun i below => back i (by
        unfold Allocation.Covers at covers
        omega)]
      rw [Option.map_some, Nat.add_sub_cancel' start.1, table.owner l live start.1 start.2]
    · intro db
      constructor
      · intro found
        exact ⟨l, live, Option.some.inj found, covers⟩
      · rintro ⟨l', live', rfl, covers'⟩
        by_cases address : l'.addr = l.addr
        · have owner := table.owner l' live' (by omega) (by omega)
          rw [address, table.owner l live start.1 start.2] at owner
          exact owner
        · have disjoint := wf.heap.disjoint (List.mem_map_of_mem live') (List.mem_map_of_mem live) address
          unfold Allocation.Covers at covers
          dsimp only at disjoint
          omega
  · have free : ∀ l ∈ s.live, ¬l.Covers a := fun l live covers => covered ⟨l, live, covers⟩
    obtain ⟨zero, unowned⟩ := table.unowned a low high free
    refine ⟨none, ?_, ?_⟩
    · rw [stepBack, if_pos zero, Option.map_some, Nat.add_sub_cancel' low, unowned]
    · intro db
      constructor
      · intro found
        cases found
      · rintro ⟨l, live, -, covers⟩
        exact absurd covers (free l live)

/-! ### Allocating -/

def Mmaplist.unlocked (m : Mmaplist Db) : Mmaplist Db := { m with locked := 0 }

/-- `m` after `size` bytes of it are given away for `db`, at offset `o`. -/
def Mmaplist.reuse (m : Mmaplist Db) (db : Db) (size o first maxfree : Nat) : Mmaplist Db :=
  Mmaplist.put { m with
    maxfree := maxfree, first := first, helper := helperReused m.helper o size, locked := 0 } (m.block + o) db

/-- What a search of `maps` may end in: changed locks only, or a sub-block given away. -/
def Searched (mem : ByteMemory) (db : Db) (size : Nat) (tiles : Nat → List Mark) (maps : List (Mmaplist Db))
    (result : Option (Option (ByteMemory × Nat) × List (Mmaplist Db))) : Prop :=
  (∃ maps', maps'.map Mmaplist.unlocked = maps.map Mmaplist.unlocked ∧ result = some (none, maps')) ∨
    ∃ pre m post left n right first maxfree,
      (pre ++ m :: post).map Mmaplist.unlocked = maps.map Mmaplist.unlocked ∧ m ∈ maps ∧
      (m.maxfree ≥ size + 8 ∧ m.locked = 0) ∧
      tiles m.block = left.reverse ++ ⟨n, false⟩ :: right ∧ size ≤ n ∧
      AtMark first m.block (left.reverse ++ split 8 16 n size ++ right) ∧
      result = some (some (allocMarks mem (m.block + extent 8 left) size, m.block + extent 8 left + 8),
        pre ++ m.reuse db size (extent 8 left + 8) first maxfree :: post)

theorem Searched.cons {mem : ByteMemory} {db : Db} {size : Nat} {tiles : Nat → List Mark} {m k : Mmaplist Db}
    {rest : List (Mmaplist Db)} {result : Option (Option (ByteMemory × Nat) × List (Mmaplist Db))}
    (searched : Searched mem db size tiles rest result) (same : k.unlocked = m.unlocked) :
    Searched mem db size tiles (m :: rest) (result.map fun r => (r.1, k :: r.2)) := by
  rcases searched with ⟨maps', locks, rfl⟩ | ⟨pre, c, post, left, n, right, first, maxfree, locks, mem, h⟩
  · exact .inl ⟨k :: maps', by simp [locks, same], rfl⟩
  · obtain ⟨room, sub, fits, mark, rfl⟩ := h
    exact .inr ⟨k :: pre, c, post, left, n, right, first, maxfree, by simpa [same] using locks,
      List.mem_cons_of_mem _ mem, room, sub, fits, mark, rfl⟩

/-- Searching one map from its `first`. -/
theorem getFirstBlock_from {mem : ByteMemory} {block size first : Nat} {ts : List Mark} (want : Nat)
    (laid : Laid mem block size ts) (mark : AtMark first block ts) :
    getFirstBlock mem block want (some first) size = some none ∨
      ∃ left n right, ts = left.reverse ++ ⟨n, false⟩ :: right ∧ want ≤ n ∧
        (∃ xs ys, left.reverse = xs ++ ys ∧ first = block + extent 8 xs) ∧
        getFirstBlock mem block want (some first) size = some (some (block + extent 8 left, n)) := by
  obtain ⟨xs, ys, rfl, rfl⟩ := mark
  have short := laid.length_lt
  rw [List.length_append] at short
  have search := firstFree_spec want laid (show ys.length < size by omega)
  rw [getFirstBlock, Option.getD_some, search]
  cases found : (place 8 (block + extent 8 xs) ys).find? (Suits want) with
  | none => exact .inl rfl
  | some p =>
    obtain ⟨x, n, fill⟩ := p
    have suits := List.find?_some found
    simp only [Suits, Bool.and_eq_true, Bool.not_eq_true', decide_eq_true_eq] at suits
    obtain ⟨rfl, fits⟩ := suits
    obtain ⟨pre, post, rfl, rfl⟩ := mem_place.mp (List.mem_of_find?_eq_some found)
    refine .inr ⟨(xs ++ pre).reverse, n, post, by simp, fits, ⟨xs, pre, by simp, rfl⟩, ?_⟩
    rw [extent_reverse, extent_append, ← Nat.add_assoc]
    rfl

/-- `allocBlock` keeps its caller's `first` at a mark. -/
theorem allocBlock_first {mem : ByteMemory} {block size n first want : Nat} {left right : List Mark}
    (arena : Arena (allocMarks mem (block + extent 8 left) want) block size
      (left.reverse ++ split 8 16 n want ++ right))
    (mark : ∃ xs ys, left.reverse = xs ++ ys ∧ first = block + extent 8 xs) :
    ∃ first', allocBlock mem (block + extent 8 left) want (some first) size =
        some (allocMarks mem (block + extent 8 left) want, block + extent 8 left + 8, some first') ∧
      AtMark first' block (left.reverse ++ split 8 16 n want ++ right) := by
  obtain ⟨xs, ys, split, rfl⟩ := mark
  unfold allocBlock
  dsimp only
  split
  case isTrue here =>
    have laid := arena.toLaid
    rw [List.append_assoc] at laid
    have short := laid.length_lt
    rw [List.length_append] at short
    have skip := skipFilled_spec laid (show _ < size by omega)
    rw [extent_reverse] at skip
    rw [skip]
    refine ⟨_, rfl, left.reverse ++ List.takeWhile (·.fill) (Tiling.split 8 16 n want ++ right),
      List.dropWhile (·.fill) (Tiling.split 8 16 n want ++ right), ?_, rfl⟩
    rw [List.append_assoc, List.append_assoc, List.takeWhile_append_dropWhile]
  case isFalse elsewhere =>
    exact ⟨_, rfl, xs, ys ++ Tiling.split 8 16 n want ++ right, by simp [split], rfl⟩

theorem findFreeDynarecMap_spec {mem : ByteMemory} (db : Db) {size : Nat} {tiles : Nat → List Mark} (pos : 1 ≤ size)
    (maps : List (Mmaplist Db)) (arenas : ∀ m ∈ maps, Arena mem m.block m.size (tiles m.block))
    (firsts : ∀ m ∈ maps, AtMark m.first m.block (tiles m.block)) :
    Searched mem db size tiles maps (findFreeDynarecMap mem db size maps) := by
  induction maps with
  | nil => exact .inl ⟨[], rfl, rfl⟩
  | cons m rest ih =>
    have arena := arenas m List.mem_cons_self
    have first := firsts m List.mem_cons_self
    have later := ih (fun k mem => arenas k (List.mem_cons_of_mem _ mem))
      (fun k mem => firsts k (List.mem_cons_of_mem _ mem))
    unfold findFreeDynarecMap
    dsimp only
    split
    case isFalse closed => exact later.cons rfl
    case isTrue room =>
      rcases getFirstBlock_from size arena.toLaid first with none | ⟨left, n, right, sub, fits, before, found⟩
      · rw [none]
        exact later.cons rfl
      · rw [found]
        rw [sub] at arena
        have after := (arena.alloc (Nat.lt_of_lt_of_le Nat.zero_lt_one pos) fits).1
        obtain ⟨first', given, mark⟩ := allocBlock_first after before
        obtain ⟨xs, ys, tiled, place⟩ := mark
        have laid := after.toLaid
        rw [tiled] at laid
        have offset : m.block + extent 8 left + 8 - m.block = extent 8 left + 8 := by omega
        have largest := getMaxFreeBlock_from laid
        rw [← place] at largest
        refine .inr ⟨[], m, rest, left, n, right, first',
          if n = m.maxfree then atLeastMark (maxFree ys) else m.maxfree, rfl, List.mem_cons_self, room, sub,
          fits, ⟨xs, ys, tiled, place⟩, ?_⟩
        dsimp only
        rw [given]
        simp only [Option.bind_some, Option.getD_some, offset, largest]
        split
        · rfl
        · rfl

/-! ### The tables after an allocation -/

theorem get_put (m : Mmaplist Db) (key : Nat) (db : Db) (a : Nat) :
    (m.put key db).get a = if a = key then some db else m.get a := by
  obtain ⟨_, _, _, dblist, _, _, _⟩ := m
  unfold Mmaplist.put Mmaplist.get
  cases dblist <;> by_cases same : a = key <;> simp [Function.update, same]

/-- Bytes `helper` gets for a new block: those of the block, and no other. -/
def HelperWritten (old new : ByteMemory) (o size : Nat) : Prop :=
  (∀ j < size, new (o + j) = BitVec.ofNat 8 (min j 255)) ∧ ∀ b, b < o ∨ o + size ≤ b → new b = old b

theorem helperReused_written (helper : ByteMemory) (o : Nat) {size : Nat} (short : size ≤ 255) :
    HelperWritten helper (helperReused helper o size) o size := by
  have whole : (if size < 256 then size else 255) = size := if_pos (by omega)
  unfold helperReused
  dsimp only
  rw [whole, if_neg (by simp)]
  constructor
  · intro j below
    dsimp only
    rw [if_pos (by omega)]
    congr 1
    omega
  · intro b out
    dsimp only
    rw [if_neg (by omega)]

theorem helperNew_written (helper : ByteMemory) (o size : Nat) :
    HelperWritten helper (helperNew helper o size) o size := by
  unfold helperNew
  constructor
  · intro j below
    dsimp only
    rw [if_pos (by omega), Nat.add_sub_cancel_left]
    congr 1
    split <;> omega
  · intro b out
    dsimp only
    rw [if_neg (by omega)]

/-- The table of the map that a new allocation is in. -/
theorem Indexed.add {m k : Mmaplist Db} {live : List (Allocation Db)} {l : Allocation Db} (table : Indexed m live)
    (block : k.block = m.block) (size : k.size = m.size) (positive : 0 < l.size)
    (inside : m.block ≤ l.addr ∧ l.addr + l.size ≤ m.block + m.size)
    (written : HelperWritten m.helper k.helper (l.addr - m.block) l.size)
    (owners : ∀ a, k.get a = if a = l.addr then some l.db else m.get a)
    (apart : ∀ c ∈ live, c.addr + c.size ≤ l.addr ∨ l.addr + l.size ≤ c.addr)
    (sizes : ∀ c ∈ live, 0 < c.size) : Indexed k (l :: live) := by
  obtain ⟨fresh, kept⟩ := written
  refine ⟨?_, ?_, ?_⟩
  · intro c mem low high j below
    rw [block] at low high ⊢
    rcases List.mem_cons.mp mem with rfl | old
    · exact fresh j below
    · have beside := apart c old
      rw [kept _ (by omega)]
      exact table.back c old low (size ▸ high) j below
  · intro c mem low high
    rw [block] at low high
    rw [owners]
    rcases List.mem_cons.mp mem with rfl | old
    · rw [if_pos rfl]
    · have beside := apart c old
      have some := sizes c old
      rw [if_neg (by omega)]
      exact table.owner c old low (size ▸ high)
  · intro a low high uncovered
    rw [block] at low high ⊢
    rw [size] at high
    have outside := uncovered l List.mem_cons_self
    unfold Allocation.Covers at outside
    rw [kept _ (by omega), owners, if_neg (by omega)]
    exact table.unowned a low high fun c mem => uncovered c (List.mem_cons_of_mem _ mem)

/-- The table of a map that a new allocation is not in. -/
theorem Indexed.other {m : Mmaplist Db} {live : List (Allocation Db)} {l : Allocation Db} (table : Indexed m live)
    (outside : l.addr + l.size ≤ m.block ∨ m.block + m.size ≤ l.addr) (positive : 0 < l.size) :
    Indexed m (l :: live) := by
  refine ⟨?_, ?_, ?_⟩
  · intro c mem low high
    rcases List.mem_cons.mp mem with rfl | old
    · omega
    · exact table.back c old low high
  · intro c mem low high
    rcases List.mem_cons.mp mem with rfl | old
    · omega
    · exact table.owner c old low high
  · intro a low high uncovered
    exact table.unowned a low high fun c mem => uncovered c (List.mem_cons_of_mem _ mem)

theorem Indexed.unlock {m k : Mmaplist Db} {live : List (Allocation Db)} (table : Indexed m live)
    (same : k.unlocked = m.unlocked) : Indexed k live := by
  obtain ⟨block, maxfree, size, dblist, helper, first, locked⟩ := k
  obtain ⟨block', maxfree', size', dblist', helper', first', locked'⟩ := m
  simp only [Mmaplist.unlocked, Mmaplist.mk.injEq, and_true] at same
  obtain ⟨rfl, rfl, rfl, rfl, rfl, rfl⟩ := same
  exact ⟨table.back, table.owner, table.unowned⟩

/-- Locks are no part of the invariant. -/
theorem MapsWellFormed.relock {s : DynarecState Db} {tiles : Nat → List Mark} (wf : MapsWellFormed s tiles)
    {maps : List (Mmaplist Db)} (locks : maps.map Mmaplist.unlocked = s.mmaplist.map Mmaplist.unlocked) :
    MapsWellFormed { s with mmaplist := maps } tiles := by
  have origin : ∀ k ∈ maps, ∃ m ∈ s.mmaplist, k.unlocked = m.unlocked := by
    intro k mem
    have unlocked := List.mem_map_of_mem (f := Mmaplist.unlocked) mem
    rw [locks] at unlocked
    obtain ⟨m, hm, same⟩ := List.mem_map.mp unlocked
    exact ⟨m, hm, same.symm⟩
  have arenas : maps.map Mmaplist.arena = s.mmaplist.map Mmaplist.arena := by
    have views := congrArg (List.map Mmaplist.arena) locks
    rwa [List.map_map, List.map_map] at views
  refine ⟨?_, ?_, ?_, ?_, wf.positive⟩
  · have heap := wf.heap
    unfold DynarecState.arenas at heap ⊢
    rwa [← arenas] at heap
  · intro k mem
    obtain ⟨m, hm, same⟩ := origin k mem
    exact (congrArg Mmaplist.size same).trans (wf.size m hm)
  · intro k mem
    obtain ⟨m, hm, same⟩ := origin k mem
    have first := congrArg Mmaplist.first same
    have block := congrArg Mmaplist.block same
    simp only [Mmaplist.unlocked] at first block
    rw [first, block]
    exact wf.first m hm
  · intro k mem
    obtain ⟨m, hm, same⟩ := origin k mem
    exact (wf.indexed m hm).unlock same

/-- A map `k` with a new allocation `l`, put in the place of what was between `pre` and `post`. -/
theorem MapsWellFormed.serve {s : DynarecState Db} {tiles : Nat → List Mark} (wf : MapsWellFormed s tiles)
    {pre post : List (Mmaplist Db)} {k : Mmaplist Db} {l : Allocation Db} {mem : ByteMemory} {ts : List Mark}
    (heap : HeapWellFormed ⟨⟨mem, (pre ++ k :: post).map Mmaplist.arena⟩,
      (l.addr, l.size) :: s.live.map fun a => (a.addr, a.size)⟩ (Function.update tiles k.block ts))
    (known : ∀ c ∈ pre ++ post, c ∈ s.mmaplist) (size : k.size = mmapSize) (mark : AtMark k.first k.block ts)
    (inside : k.block ≤ l.addr ∧ l.addr + l.size ≤ k.block + k.size) (indexed : Indexed k (l :: s.live))
    (positive : 0 < l.size) :
    MapsWellFormed { s with mem := mem, mmaplist := pre ++ k :: post, live := l :: s.live }
      (Function.update tiles k.block ts) := by
  have members : ∀ c, c ∈ pre ++ k :: post → c = k ∨ c ∈ pre ++ post := by
    intro c mem
    simp only [List.mem_append, List.mem_cons] at mem ⊢
    tauto
  have apart : ∀ c ∈ pre ++ post, c.block + c.size ≤ k.block ∨ k.block + k.size ≤ c.block := by
    intro c mem
    have blocks := heap.apart
    dsimp only at blocks
    rw [List.map_append, List.map_cons] at blocks
    obtain ⟨-, beside⟩ := apart_of_split blocks
    exact beside c.arena (by rw [← List.map_append]; exact List.mem_map_of_mem mem)
  have away : ∀ c ∈ pre ++ post, c.block ≠ k.block := by
    intro c mem
    have beside := apart c mem
    have sizes := wf.size c (known c mem)
    simp only [mmapSize] at size sizes
    omega
  refine ⟨heap, ?_, ?_, ?_, ?_⟩
  · intro c mem
    rcases members c mem with rfl | other
    · exact size
    · exact wf.size c (known c other)
  · intro c mem
    rcases members c mem with rfl | other
    · rw [Function.update_self]
      exact mark
    · rw [Function.update_of_ne (away c other)]
      exact wf.first c (known c other)
  · intro c mem
    rcases members c mem with rfl | other
    · exact indexed
    · have beside := apart c other
      exact (wf.indexed c (known c other)).other (by omega) positive
  · intro c mem
    rcases List.mem_cons.mp mem with rfl | old
    · exact positive
    · exact wf.positive c old

/-- A new allocation shares no byte with those there are. -/
theorem apart_of_heap {blocks : Heap} {live : List (Allocation Db)} {addr size : Nat} {tiles : Nat → List Mark}
    (heap : HeapWellFormed ⟨blocks, (addr, size) :: live.map fun a => (a.addr, a.size)⟩ tiles) :
    ∀ c ∈ live, c.addr + c.size ≤ addr ∨ addr + size ≤ c.addr := by
  intro c mem
  have old : (c.addr, c.size) ∈ live.map fun a => (a.addr, a.size) := List.mem_map_of_mem mem
  have differ : c.addr ≠ addr := by
    intro same
    have fresh := (List.nodup_cons.mp heap.distinct).1
    have here := List.mem_map_of_mem (f := Prod.fst) old
    rw [same] at here
    exact fresh here
  exact heap.disjoint (List.mem_cons_of_mem _ old) List.mem_cons_self differ

theorem MapsWellFormed.reused {s : DynarecState Db} {tiles : Nat → List Mark} (wf : MapsWellFormed s tiles)
    {pre post : List (Mmaplist Db)} {m : Mmaplist Db} {db : Db} {size first maxfree n : Nat} {left right : List Mark}
    (pos : 1 ≤ size) (short : size ≤ 255) (maps : s.mmaplist = pre ++ m :: post)
    (sub : tiles m.block = left.reverse ++ ⟨n, false⟩ :: right) (fits : size ≤ n)
    (mark : AtMark first m.block (left.reverse ++ split 8 16 n size ++ right)) :
    MapsWellFormed
      { s with
        mem := allocMarks s.mem (m.block + extent 8 left) size
        mmaplist := pre ++ m.reuse db size (extent 8 left + 8) first maxfree :: post
        live := ⟨m.block + extent 8 left + 8, size, db⟩ :: s.live }
      (Function.update tiles m.block (left.reverse ++ split 8 16 n size ++ right)) := by
  have present : m ∈ s.mmaplist := by simp [maps]
  have arenas : s.arenas.heap.pBlocks = pre.map Mmaplist.arena ++ m.arena :: post.map Mmaplist.arena := by
    simp [DynarecState.arenas, maps]
  have heap := customMalloc_reuses wf.heap 0 pos arenas sub fits (.inl rfl)
  have whole := (wf.arena present).whole
  simp only [sub, extent_append, extent_reverse, extent_cons] at whole
  have views : (pre ++ m.reuse db size (extent 8 left + 8) first maxfree :: post).map Mmaplist.arena =
      pre.map Mmaplist.arena ++ m.arena :: post.map Mmaplist.arena := by
    rw [List.map_append]
    rfl
  have known : ∀ c ∈ pre ++ post, c ∈ s.mmaplist := by
    intro c mem
    rw [maps]
    exact List.Sublist.subset (by simp) mem
  have offset : m.block + extent 8 left + 8 - m.block = extent 8 left + 8 := by omega
  have table : Indexed (m.reuse db size (extent 8 left + 8) first maxfree)
      (⟨m.block + extent 8 left + 8, size, db⟩ :: s.live) := by
    refine (wf.indexed m present).add rfl rfl pos (by dsimp only; omega) ?_ (fun a => get_put _ _ db a)
      (apart_of_heap heap) wf.positive
    dsimp only
    rw [offset]
    exact helperReused_written m.helper _ short
  exact wf.serve (by rw [views]; exact heap) known (wf.size m present) mark
    (show m.block ≤ m.block + extent 8 left + 8 ∧ m.block + extent 8 left + 8 + size ≤ m.block + m.size by omega)
    table pos

/-- A table with no owner and no byte set. -/
theorem indexed_empty {m : Mmaplist Db} {live : List (Allocation Db)} (helper : ∀ b, m.helper b = 0)
    (owner : ∀ a, m.get a = none) (outside : ∀ l ∈ live, l.addr < m.block ∨ m.block + m.size ≤ l.addr) :
    Indexed m live := by
  refine ⟨?_, ?_, fun a _ _ _ => ⟨helper _, owner a⟩⟩
  · intro l mem low high
    have away := outside l mem
    omega
  · intro l mem low high
    have away := outside l mem
    omega

theorem addNewDynarecMap_wellFormed {s : DynarecState Db} {tiles : Nat → List Mark} (wf : MapsWellFormed s tiles)
    (db : Db) {size p : Nat} (pos : 1 ≤ size) (small : size ≤ mmapSize - 2 * 8)
    (fresh : Fresh (s.mmaplist.map Mmaplist.arena) p mmapSize) :
    ∃ mem maps tiles', addNewDynarecMap s.mem db size s.mmaplist p = some (mem, p + 8, maps) ∧
      MapsWellFormed { s with mem := mem, mmaplist := maps, live := ⟨p + 8, size, db⟩ :: s.live } tiles' := by
  have enough : size + 16 ≤ mmapSize := by
    simp only [mmapSize] at small ⊢
    omega
  have bounded : mmapSize < 2 ^ 31 + 16 := by decide
  have arena := (setupArena s.mem p pos enough bounded).1
  have heap := wf.heap.addArena 0 pos enough bounded fresh (ChangedIn.refl _ _ s.mem) (.inl rfl)
  have start : Arena (allocMarks (setupMarks s.mem p mmapSize) (p + extent 8 []) size) p mmapSize
      ([].reverse ++ split 8 16 (mmapSize - 16) size ++ []) := by simpa using arena
  obtain ⟨first, given, mark⟩ := allocBlock_first start
    (show ∃ xs ys, [].reverse = xs ++ ys ∧ p = p + extent 8 xs from ⟨[], [], rfl, rfl⟩)
  rw [extent_nil, Nat.add_zero] at given
  rw [List.reverse_nil, List.nil_append, List.append_nil] at mark
  obtain ⟨xs, ys, tiled, place⟩ := mark
  have laid := arena.toLaid
  rw [tiled] at laid
  have largest := getMaxFreeBlock_from laid
  rw [← place] at largest
  obtain ⟨maxfree, h⟩ : ∃ maxfree, maxfree = atLeastMark (maxFree ys) := ⟨_, rfl⟩
  let clear : Mmaplist Db :=
    { block := p, maxfree := maxfree, size := mmapSize, dblist := some fun _ => none,
      helper := fun _ => 0, first := first, locked := 0 }
  let m : Mmaplist Db := Mmaplist.put { clear with helper := helperNew (fun _ => 0) 8 size } (p + 8) db
  have offset : p + 8 - p = 8 := by omega
  have served : addNewDynarecMap s.mem db size s.mmaplist p =
      some (allocMarks (setupMarks s.mem p mmapSize) p size, p + 8, s.mmaplist ++ [m]) := by
    simp only [addNewDynarecMap, given, Option.bind_some, Option.getD_some, largest, Option.map_some, offset, ← h]
    rfl
  have outside : ∀ l ∈ s.live, l.addr < p ∨ p + mmapSize ≤ l.addr := by
    intro l live
    obtain ⟨c, hc, low, high⟩ := wf.within live
    have apart : p + mmapSize ≤ c.block ∨ c.block + c.size ≤ p := fresh.2.2 c.arena (List.mem_map_of_mem hc)
    omega
  have table : Indexed m (⟨p + 8, size, db⟩ :: s.live) := by
    have empty : Indexed clear s.live := indexed_empty (fun _ => rfl) (fun _ => rfl) outside
    refine empty.add rfl rfl pos ⟨Nat.le_add_right p 8, ?_⟩ ?_ (fun a => get_put _ _ db a) (apart_of_heap heap)
      wf.positive
    · show p + 8 + size ≤ p + mmapSize
      omega
    · show HelperWritten _ _ (p + 8 - p) size
      rw [offset]
      exact helperNew_written _ 8 size
  have views : (s.mmaplist ++ m :: []).map Mmaplist.arena =
      s.mmaplist.map Mmaplist.arena ++ [{ block := p, maxfree := 0, size := mmapSize }] := by
    rw [List.map_append]
    rfl
  refine ⟨_, _, _, served, wf.serve (k := m) (l := ⟨p + 8, size, db⟩) (by rw [views]; exact heap) ?_ rfl
    ⟨xs, ys, tiled, place⟩ ?_ table pos⟩
  · intro c mem
    rwa [List.append_nil] at mem
  · show p ≤ p + 8 ∧ p + 8 + size ≤ p + mmapSize
    omega

/-! ### Runs -/

theorem allocDynarecMap_wellFormed {s t : DynarecState Db} {tiles : Nat → List Mark} (wf : MapsWellFormed s tiles)
    {db : Db} {size : Nat} {p : Option Nat} (ok : FreshBlocks s (.alloc db size p))
    (step : dynarecStep s (.alloc db size p) t) : ∃ tiles', MapsWellFormed t tiles' := by
  obtain ⟨tmem, tmaps, tlive, tfreed⟩ := t
  obtain ⟨small, fresh, ret, served, rfl, rfl⟩ := step
  dsimp only at served
  unfold allocDynarecMap at served
  split at served
  case isTrue zero =>
    obtain ⟨rfl, rfl, rfl⟩ := served
    exact ⟨tiles, wf⟩
  case isFalse nonzero =>
    have pos : 1 ≤ size := by omega
    rcases findFreeDynarecMap_spec db pos s.mmaplist (fun m mem => wf.arena mem) (fun m mem => wf.first m mem) with
      ⟨maps', locks, none⟩ | ⟨pre, m, post, left, n, right, first, maxfree, locks, mem, room, sub, fits, mark, found⟩
    · have wf' := wf.relock locks
      rw [none] at served
      cases p with
      | none =>
        obtain ⟨rfl, rfl, rfl⟩ := served
        exact ⟨tiles, wf'⟩
      | some p =>
        have arenas : maps'.map Mmaplist.arena = s.mmaplist.map Mmaplist.arena := by
          have views := congrArg (List.map Mmaplist.arena) locks
          rwa [List.map_map, List.map_map] at views
        have fresh' : Fresh (maps'.map Mmaplist.arena) p mmapSize := by
          rw [arenas]
          exact fresh p rfl
        obtain ⟨mem, maps, tiles', new, wf''⟩ := addNewDynarecMap_wellFormed wf' db pos small fresh'
        dsimp only [Option.bind_some] at served new
        rw [new] at served
        obtain ⟨rfl, rfl, rfl⟩ := served
        rw [if_neg (by omega)]
        exact ⟨tiles', wf''⟩
    · have short : size ≤ 255 := by
        rcases ok with short | full
        · exact short
        · have closed := full m mem
          omega
      have wf' := wf.relock locks
      rw [found] at served
      obtain ⟨rfl, rfl, rfl⟩ := served
      rw [if_neg (by omega)]
      exact ⟨_, wf'.reused pos short rfl sub fits mark⟩

theorem dynarecStep_wellFormed {s t : DynarecState Db} {call : DynarecCall Db} {tiles : Nat → List Mark}
    (wf : MapsWellFormed s tiles) (ok : FreshBlocks s call) (step : dynarecStep s call t) :
    ∃ tiles', MapsWellFormed t tiles' := by
  cases call with
  | alloc db size p => exact allocDynarecMap_wellFormed wf ok step
  | free a => exact ok.elim
  | store addr value =>
    obtain ⟨writable, rfl⟩ := step
    exact ⟨tiles, ⟨store_wellFormed wf.heap writable, wf.size, wf.first, wf.indexed, wf.positive⟩⟩

/-- As long as nothing is freed and blocks of more than 255 bytes get a map of their own, every
address of a map has the owner that the live allocations give it. -/
theorem nativeLookup_exact {s : DynarecState Db}
    (h : Transition.Reachable ((dynarecMaps Db).guard FreshBlocks) s) : LookupExact s := by
  have wf : ∃ tiles, MapsWellFormed s tiles := by
    refine h.invariant (P := fun s => ∃ tiles, MapsWellFormed s tiles) ?_ ?_
    · rintro s ⟨maps, live, -⟩
      refine ⟨fun _ => [], ⟨?_, ?_, ?_, ?_, ?_, ?_⟩, ?_, ?_, ?_, ?_⟩ <;> simp [DynarecState.arenas, maps, live]
    · intro s call t ⟨tiles, wf⟩ ⟨ok, step⟩
      exact dynarecStep_wellFormed wf ok step
  obtain ⟨tiles, wf⟩ := wf
  exact wf.lookupExact

/-- A block of 100 bytes, then one of 300 from the same map. -/
def twoBlocks : Option ((ByteMemory × Nat × List (Mmaplist Nat)) × (ByteMemory × Nat × List (Mmaplist Nat))) :=
  (allocDynarecMap (fun _ => 0) [] 1 100 (some 0x100000)).bind fun r =>
    (allocDynarecMap r.1 r.2.2 2 300 none).map fun r' => (r, r')

/-- The first block of `twoBlocks`, in a map of its own. -/
theorem oneBlock_reachable {r : ByteMemory × Nat × List (Mmaplist Nat)}
    (served : allocDynarecMap (fun _ => 0) [] 1 100 (some 0x100000) = some r) (nonzero : r.2.1 ≠ 0) :
    Transition.Reachable ((dynarecMaps Nat).guard FreshBlocks) ⟨r.1, r.2.2, [⟨r.2.1, 100, 1⟩], []⟩ := by
  have start : Transition.Reachable ((dynarecMaps Nat).guard FreshBlocks) ⟨fun _ => 0, [], [], []⟩ :=
    .initial ⟨rfl, rfl, rfl⟩
  refine start.step (a := .alloc 1 100 (some 0x100000)) ⟨.inl (by decide), by decide, ?_, r.2.1, served, ?_, rfl⟩
  · rintro q h
    obtain rfl := Option.some.inj h
    exact ⟨by decide, by decide, by simp⟩
  · rw [if_neg nonzero]

/-- A freed block is still found at its start, and the 256th byte of a longer block given away in a
map in use has no owner. -/
theorem nativeLookup_not_exact :
    (∃ (s : DynarecState Nat) (f : Allocation Nat), Transition.Reachable (dynarecMaps Nat) s ∧ s.live = [] ∧
      s.freed = [f] ∧ findDynablockFromNativeAddress (fun _ => none) f.addr s.mmaplist = some (some f.db)) ∧
    ∃ (s : DynarecState Nat) (l : Allocation Nat), Transition.Reachable (dynarecMaps Nat) s ∧ l ∈ s.live ∧
      255 < l.size ∧ findDynablockFromNativeAddress (fun _ => none) (l.addr + 255) s.mmaplist = some none := by
  have outcome : twoBlocks.map (fun r => (r.1.2.1, r.2.2.1,
      findDynablockFromNativeAddress (fun _ => none) r.1.2.1 (freeDynarecMap r.1.1 r.1.2.2 r.1.2.1 100).2,
      findDynablockFromNativeAddress (fun _ => none) (r.2.2.1 + 255) r.2.2.2)) =
      some (0x100008, 0x100074, some (some 1), some none) := by decide +kernel
  obtain ⟨⟨r, r'⟩, run, outcome⟩ := Option.map_eq_some_iff.mp outcome
  obtain ⟨r₁, served, rest⟩ := Option.bind_eq_some_iff.mp run
  obtain ⟨r₂, served', same⟩ := Option.map_eq_some_iff.mp rest
  simp only [Prod.mk.injEq] at same outcome
  obtain ⟨rfl, rfl⟩ := same
  obtain ⟨first, second, freed, hole⟩ := outcome
  have one := (oneBlock_reachable served (by rw [first]; decide)).of_guard
  constructor
  · let f : Allocation Nat := ⟨r₁.2.1, 100, 1⟩
    let after := freeDynarecMap r₁.1 r₁.2.2 f.addr f.size
    refine ⟨⟨after.1, after.2, [], [f]⟩, f, ?_, rfl, rfl, freed⟩
    exact one.step (a := .free f) ⟨[], [], rfl, rfl, rfl, rfl⟩
  · refine ⟨⟨r₂.1, r₂.2.2, [⟨r₂.2.1, 300, 2⟩, ⟨r₁.2.1, 100, 1⟩], []⟩, ⟨r₂.2.1, 300, 2⟩, ?_, by simp, by dsimp only; decide, hole⟩
    refine one.step (a := .alloc 2 300 none) ⟨by decide, by simp, r₂.2.1, served', ?_, rfl⟩
    rw [if_neg (by rw [second]; decide)]

theorem nativeLookup_exact_oneBlock : ∃ r, allocDynarecMap (fun _ => 0) [] 1 100 (some 0x100000) = some r ∧
    LookupExact (⟨r.1, r.2.2, [⟨r.2.1, 100, (1 : Nat)⟩], []⟩ : DynarecState Nat) := by
  have outcome : (allocDynarecMap (fun _ => 0) [] 1 100 (some 0x100000)).map (fun r => r.2.1) = some 0x100008 := by
    decide +kernel
  obtain ⟨r, served, address⟩ := Option.map_eq_some_iff.mp outcome
  exact ⟨r, served, nativeLookup_exact (oneBlock_reachable served (by rw [address]; decide))⟩

end Box64.Custommem
