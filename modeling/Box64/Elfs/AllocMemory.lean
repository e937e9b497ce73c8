import Mathlib.Data.BitVec
import Mathlib.Data.List.Count

/-!
# The memory of an ELF

`AllocElfMemory` for an ELF with an address of its own, and the ranges that `LoadElfMemory` writes. `mmap` may answer
anything. The result is `none` where an array is read outside.
-/

namespace Box64.Elfs

structure Elf64_Phdr where
  p_type : BitVec 32
  p_flags : BitVec 32
  p_vaddr : BitVec 64
  p_paddr : BitVec 64
  p_memsz : BitVec 64
  p_align : BitVec 64

def PT_LOAD : BitVec 32 := 1

namespace Elf64_Phdr

/-- A `PT_LOAD` that gets memory. -/
def Placed (e : Elf64_Phdr) : Prop := e.p_type = PT_LOAD ∧ e.p_flags ≠ 0

instance (e : Elf64_Phdr) : Decidable e.Placed := inferInstanceAs (Decidable (_ ∧ _))

def balign (e : Elf64_Phdr) : BitVec 64 :=
  let balign := if e.p_align ≠ 0 then e.p_align - 1 else 1
  if balign < 4095 then 4095 else balign

def bstart (e : Elf64_Phdr) : BitVec 64 := e.p_vaddr &&& ~~~e.balign

def bend (e : Elf64_Phdr) : BitVec 64 := (e.p_vaddr + e.p_memsz + e.balign) &&& ~~~e.balign

end Elf64_Phdr

/-- An element of `multiblock_offs` and of `multiblock_size`. -/
structure Block where
  offs : BitVec 64
  size : BitVec 64

namespace Block

def start (b : Block) (e : Elf64_Phdr) : BitVec 64 := b.offs &&& ~~~e.balign

def stop (b : Block) : BitVec 64 := b.offs + b.size

def Takes (dyn : Bool) (b : Block) (e : Elf64_Phdr) : Prop :=
  dyn = true ∨ (e.bstart ≥ b.start e ∧ e.bstart ≤ b.stop + 0x1000) ∨ (e.bend ≥ b.start e ∧ e.bend ≤ b.stop) ∨
    (e.bstart < b.start e ∧ e.bend > b.stop)

instance (dyn : Bool) (b : Block) (e : Elf64_Phdr) : Decidable (b.Takes dyn e) := inferInstanceAs (Decidable (_ ∨ _))

def merge (b : Block) (e : Elf64_Phdr) : Block :=
  let offs := if e.bstart < b.start e then e.bstart else b.offs
  ⟨offs, (if e.bend > b.stop then e.bend else b.stop) - offs⟩

end Block

/-- An entry is merged into the first block that takes it, or gets a new one. -/
def place (dyn : Bool) (e : Elf64_Phdr) : List Block → List Block
  | [] => [⟨e.bstart, e.bend - e.bstart⟩]
  | b :: rest => if b.Takes dyn e then b.merge e :: rest else b :: place dyn e rest

def MAP_FAILED : BitVec 64 := -1

structure Alloc where
  PHEntries : List Elf64_Phdr
  delta : BitVec 64
  multiblock : List (BitVec 64)

section Alloc

variable (dyn : Bool) (mmap : Nat → BitVec 64)

/-- The elements of the arrays, of which `calloc` clears those that are not used. -/
def readBlock (length : Nat) (blocks : List Block) (j : Nat) : Option Block :=
  if j < length then some (blocks.getD j ⟨0, 0⟩) else none

/-- The loop that moves the entries of a block that is not where it was asked for, from the entry `j` on. -/
def adjust (length : Nat) (blocks : List Block) (p : BitVec 64) :
    Nat → List Elf64_Phdr → BitVec 64 → Option (List Elf64_Phdr × BitVec 64)
  | _, [], delta => some ([], delta)
  | j, e :: rest, delta =>
    if e.p_type = PT_LOAD then do
      let b ← readBlock length blocks j
      if e.p_vaddr ≥ b.offs ∧ e.p_vaddr < b.stop then
        let delta := if delta = 0 then p - b.offs else delta
        let after ← adjust length blocks p (j + 1) rest delta
        some ({ e with p_vaddr := e.p_vaddr - b.offs + p } :: after.1, after.2)
      else
        let after ← adjust length blocks p (j + 1) rest delta
        some (e :: after.1, after.2)
    else do
      let after ← adjust length blocks p (j + 1) rest delta
      some (e :: after.1, after.2)

/-- The loop over the blocks from the `i`-th on, where `mmap i` is what the call answers; `some none` where the function
returns 1. -/
def mapBlocks (length : Nat) (blocks : List Block) : Nat → List Block → Alloc → Option (Option Alloc)
  | _, [], head => some (some head)
  | i, b :: rest, head =>
    if mmap i = MAP_FAILED then some none
    else if b.offs ≠ 0 ∧ mmap i ≠ b.offs then
      if dyn then do
        let moved ← adjust length blocks (mmap i) 0 head.PHEntries head.delta
        mapBlocks length blocks (i + 1) rest ⟨moved.1, moved.2, head.multiblock ++ [mmap i]⟩
      else some none
    else mapBlocks length blocks (i + 1) rest { head with multiblock := head.multiblock ++ [mmap i] }

/-- `multiblock_n` when the arrays are allocated. -/
def allocated (PHEntries : List Elf64_Phdr) : Nat := PHEntries.countP fun e => e.Placed

def multiblocks (PHEntries : List Elf64_Phdr) : List Block :=
  (PHEntries.filter fun e => e.Placed).foldl (fun blocks e => place dyn e blocks) []

def allocElfMemory (PHEntries : List Elf64_Phdr) : Option (Option Alloc) :=
  let blocks := multiblocks dyn PHEntries
  mapBlocks dyn mmap (allocated PHEntries) blocks 0 blocks ⟨PHEntries, 0, []⟩

/-- `dest` and `p_memsz` of the entries that `LoadElfMemory` writes. -/
def loadElfMemory (head : Alloc) : List (BitVec 64 × BitVec 64) :=
  (head.PHEntries.filter fun e => e.p_type = PT_LOAD).map fun e => (e.p_paddr + head.delta, e.p_memsz)

end Alloc

/-! ### What is promised -/

/-- The range from `dest` on is inside of the one from `p` on. -/
def Inside (dest memsz p size : BitVec 64) : Prop := (dest - p).toNat + memsz.toNat ≤ size.toNat

instance (dest memsz p size : BitVec 64) : Decidable (Inside dest memsz p size) := inferInstanceAs (Decidable (_ ≤ _))

def Block.lo (b : Block) : Nat := b.offs.toNat

def Block.hi (b : Block) : Nat := b.offs.toNat + b.size.toNat

def Block.Apart (b c : Block) : Prop := b.hi ≤ c.lo ∨ c.hi ≤ b.lo

structure Mapped (length : Nat) (blocks : List Block) (head : Alloc) : Prop where
  loaded : ∀ range ∈ loadElfMemory head, range.2 ≠ 0 → ∃ (i : Nat) (b : Block) (p : BitVec 64),
    blocks[i]? = some b ∧ head.multiblock[i]? = some p ∧ Inside range.1 range.2 p b.size
  disjoint : blocks.Pairwise Block.Apart
  indices : blocks.length ≤ length

/-- Where the function returns 0, what is loaded is inside of what is mapped, and no array is read outside. -/
def AllMapped (dyn : Bool) (mmap : Nat → BitVec 64) (PHEntries : List Elf64_Phdr) : Prop :=
  match allocElfMemory dyn mmap PHEntries with
  | none => False
  | some none => True
  | some (some head) => Mapped (allocated PHEntries) (multiblocks dyn PHEntries) head

/-- The `PT_LOAD` entries are sorted by address and do not overlap. -/
def Sorted (PHEntries : List Elf64_Phdr) : Prop :=
  (PHEntries.filter fun e => e.p_type = PT_LOAD).Pairwise fun e f => e.p_vaddr.toNat + e.p_memsz.toNat ≤ f.p_vaddr.toNat

instance (PHEntries : List Elf64_Phdr) : Decidable (Sorted PHEntries) := inferInstanceAs (Decidable (List.Pairwise _ _))

/-- No entry comes down to the end of the ones before a gap that an entry in between has left. -/
def NoReachBack (entries : List Elf64_Phdr) : Prop :=
  ∀ before first between e after, entries = before ++ first :: between ++ e :: after →
    (∀ r ∈ before, r.bend.toNat + 0x1000 < first.bstart.toNat) → ∀ r ∈ before, r.bend.toNat + 0x1000 < e.bstart.toNat

/-- The table begins with its `PT_LOAD` entries, and all of them get memory. -/
def LoadsFirst (PHEntries : List Elf64_Phdr) : Prop :=
  ∃ loads others, PHEntries = loads ++ others ∧ (∀ e ∈ loads, e.Placed) ∧ ∀ e ∈ others, e.p_type ≠ PT_LOAD

/-- The addresses that some entries lie in, where no gap between them is larger than a page. -/
structure Stretch where
  low : BitVec 64
  high : BitVec 64

namespace Stretch

def of (e : Elf64_Phdr) : Stretch := ⟨e.bstart, e.bend⟩

/-- Where an alignment is no power of two, a later entry can round down to an address below the first. -/
def join (s : Stretch) (e : Elf64_Phdr) : Stretch :=
  ⟨if e.bstart < s.low &&& ~~~e.balign then e.bstart else s.low, if e.bend > s.high then e.bend else s.high⟩

/-- Where the addresses of the stretch are mapped, before anything is moved. -/
def home (s : Stretch) (p : BitVec 64) : BitVec 64 := if s.low = 0 then p else s.low

end Stretch

/-- The entry is in the last stretch, which stands first, or begins a new one. A shared object has one stretch. -/
def widen (dyn : Bool) (e : Elf64_Phdr) : List Stretch → List Stretch
  | [] => [.of e]
  | s :: before =>
    if dyn = true ∨ e.bstart.toNat ≤ s.high.toNat + 0x1000 then s.join e :: before else .of e :: s :: before

def stretches (dyn : Bool) (PHEntries : List Elf64_Phdr) : List Stretch :=
  ((PHEntries.filter fun e => e.Placed).foldl (fun stretches e => widen dyn e stretches) []).reverse

/-- Rounding up the end of the entry stays a page below the end of the addresses. -/
def Elf64_Phdr.Below (e : Elf64_Phdr) : Prop := e.p_vaddr.toNat + e.p_memsz.toNat + e.balign.toNat + 0x1000 < 2 ^ 64

instance (e : Elf64_Phdr) : Decidable e.Below := inferInstanceAs (Decidable (_ < _))

structure Tidy (dyn : Bool) (PHEntries : List Elf64_Phdr) : Prop where
  below : ∀ e ∈ PHEntries, e.Placed → e.Below
  noReachBack : dyn = false → NoReachBack (PHEntries.filter fun e => e.Placed)

/-- A mapping fails, or is not at the address that an ELF of a fixed address needs. -/
def Refused (dyn : Bool) (mmap : Nat → BitVec 64) (PHEntries : List Elf64_Phdr) : Prop :=
  ∃ (i : Nat) (s : Stretch), (stretches dyn PHEntries)[i]? = some s ∧
    (mmap i = MAP_FAILED ∨ dyn = false ∧ s.low ≠ 0 ∧ mmap i ≠ s.low)

structure Loadable (dyn : Bool) (mmap : Nat → BitVec 64) (PHEntries : List Elf64_Phdr) : Prop where
  /-- What is loaded has its place in the memory of the table. -/
  covered : ∀ e ∈ PHEntries, e.p_type = PT_LOAD → e.p_memsz ≠ 0 → ∃ (i : Nat) (s : Stretch),
    (stretches dyn PHEntries)[i]? = some s ∧ Inside e.p_paddr e.p_memsz (s.home (mmap i)) (s.high - s.low)
  movable : dyn = true → ∀ s ∈ stretches dyn PHEntries, s.low ≠ 0 → mmap 0 ≠ s.low → LoadsFirst PHEntries

section Rounding

theorem round_down_le (x m : BitVec 64) : (x &&& ~~~m).toNat ≤ x.toNat := by
  rw [BitVec.toNat_and]
  exact Nat.and_le_left

theorem le_round_down (x m : BitVec 64) : x.toNat ≤ (x &&& ~~~m).toNat + m.toNat := by
  have apart : (x &&& m) &&& (x &&& ~~~m) = 0#64 := by
    ext i lt
    simp only [BitVec.getElem_and, BitVec.getElem_not, BitVec.getElem_zero]
    cases x[i] <;> cases m[i] <;> rfl
  have parts : (x &&& m) + (x &&& ~~~m) = x := by
    rw [BitVec.add_eq_or_of_and_eq_zero _ _ apart]
    ext i lt
    simp only [BitVec.getElem_or, BitVec.getElem_and, BitVec.getElem_not]
    cases x[i] <;> cases m[i] <;> rfl
  have low : (x &&& m).toNat ≤ m.toNat := by
    rw [BitVec.toNat_and]
    exact Nat.and_le_right
  have sum := congrArg BitVec.toNat parts
  rw [BitVec.toNat_add] at sum
  have := Nat.mod_le ((x &&& m).toNat + (x &&& ~~~m).toNat) (2 ^ 64)
  omega

end Rounding

namespace Elf64_Phdr

variable {e : Elf64_Phdr}

theorem bstart_le : e.bstart.toNat ≤ e.p_vaddr.toNat := round_down_le ..

theorem end_toNat (below : e.Below) : (e.p_vaddr + e.p_memsz + e.balign).toNat =
    e.p_vaddr.toNat + e.p_memsz.toNat + e.balign.toNat := by
  rw [Below] at below
  rw [BitVec.toNat_add, BitVec.toNat_add]
  omega

theorem le_bend (below : e.Below) : e.p_vaddr.toNat + e.p_memsz.toNat ≤ e.bend.toNat := by
  have down := le_round_down (e.p_vaddr + e.p_memsz + e.balign) e.balign
  rw [end_toNat below] at down
  rw [bend]
  omega

theorem bend_lt (below : e.Below) : e.bend.toNat + 0x1000 < 2 ^ 64 := by
  have up := round_down_le (e.p_vaddr + e.p_memsz + e.balign) e.balign
  rw [end_toNat below] at up
  rw [Below] at below
  rw [bend]
  omega

theorem bstart_le_bend (below : e.Below) : e.bstart.toNat ≤ e.bend.toNat := by
  have := le_bend below
  have := bstart_le (e := e)
  omega

end Elf64_Phdr

namespace Block

variable {dyn : Bool} {b : Block} {e : Elf64_Phdr}

theorem start_le : (b.start e).toNat ≤ b.lo := round_down_le ..

theorem lo_le_hi : b.lo ≤ b.hi := Nat.le_add_right ..

theorem stop_toNat (top : b.hi + 0x1000 < 2 ^ 64) : b.stop.toNat = b.hi := by
  rw [hi] at top
  rw [stop, hi, BitVec.toNat_add]
  omega

theorem lo_mk (offs stop : BitVec 64) : (⟨offs, stop - offs⟩ : Block).lo = offs.toNat := rfl

theorem hi_mk {offs stop : BitVec 64} (le : offs.toNat ≤ stop.toNat) : (⟨offs, stop - offs⟩ : Block).hi = stop.toNat := by
  change offs.toNat + (stop - offs).toNat = stop.toNat
  rw [BitVec.toNat_sub_of_le (BitVec.le_def.mpr le)]
  omega

/-- An entry that starts beyond the block and the page after it. -/
theorem not_takes (far : b.hi + 0x1000 < e.bstart.toNat) (below : e.Below) : ¬ b.Takes false e := by
  have top := Elf64_Phdr.bend_lt below
  have ends := Elf64_Phdr.bstart_le_bend below
  have stop : b.stop.toNat = b.hi := stop_toNat (by omega)
  have start := start_le (b := b) (e := e)
  have order := lo_le_hi (b := b)
  rintro (absurd | ⟨-, low⟩ | ⟨-, low⟩ | ⟨low, -⟩)
  · cases absurd
  · rw [BitVec.le_def, BitVec.toNat_add, stop] at low
    simp at low
    omega
  · rw [BitVec.le_def, stop] at low
    omega
  · rw [BitVec.lt_def] at low
    omega

theorem far_of_not_takes (top : b.hi + 0x1000 < 2 ^ 64) (reached : b.lo ≤ e.bend.toNat) (apart : ¬ b.Takes dyn e) :
    b.hi + 0x1000 < e.bstart.toNat := by
  have stop : b.stop.toNat = b.hi := stop_toNat top
  have start := start_le (b := b) (e := e)
  have page : (b.stop + 0x1000).toNat = b.hi + 0x1000 := by
    rw [BitVec.toNat_add, stop]
    simp
    omega
  simp only [Takes, not_or, not_and, ge_iff_le, gt_iff_lt, BitVec.le_def, BitVec.lt_def, stop, page] at apart
  omega

theorem lo_merge : (b.merge e).lo = if e.bstart < b.start e then e.bstart.toNat else b.lo := by
  unfold merge lo
  split <;> rfl

theorem hi_merge (top : b.hi + 0x1000 < 2 ^ 64) (below : e.Below) : (b.merge e).hi = max e.bend.toNat b.hi := by
  have stop : b.stop.toNat = b.hi := stop_toNat top
  have start := start_le (b := b) (e := e)
  have order := lo_le_hi (b := b)
  have ends := Elf64_Phdr.bstart_le_bend below
  have up : (if e.bend > b.stop then e.bend else b.stop).toNat = max e.bend.toNat b.hi := by
    split
    · rename_i more
      rw [gt_iff_lt, BitVec.lt_def, stop] at more
      omega
    · rename_i less
      rw [gt_iff_lt, BitVec.lt_def, stop] at less
      omega
  unfold merge
  rw [hi_mk, up]
  rw [up]
  split
  · omega
  · rw [lo] at order
    omega

end Block

/-! ### The blocks -/

section Blocks

variable {dyn : Bool}

theorem place_append {e : Elf64_Phdr} {front : List Block} (apart : ∀ b ∈ front, ¬ b.Takes dyn e) (rest : List Block) :
    place dyn e (front ++ rest) = front ++ place dyn e rest := by
  induction front with
  | nil => rfl
  | cons b front ih =>
    obtain ⟨here, later⟩ := List.forall_mem_cons.mp apart
    rw [List.cons_append, place, if_neg here, ih later]
    rfl

theorem place_length (dyn : Bool) (e : Elf64_Phdr) (blocks : List Block) : (place dyn e blocks).length ≤ blocks.length + 1 := by
  induction blocks with
  | nil => exact Nat.le_refl 1
  | cons b rest ih =>
    rw [place]
    split
    · exact Nat.le_succ _
    · exact Nat.succ_le_succ ih

namespace Stretch

def block (s : Stretch) : Block := ⟨s.low, s.high - s.low⟩

variable {s : Stretch} {e : Elf64_Phdr}

theorem stop_block : s.block.stop = s.high := by
  rw [block, Block.stop]
  bv_omega

theorem block_merge : s.block.merge e = (s.join e).block := by
  rw [Block.merge, Block.start, stop_block]
  rfl

end Stretch

/-- The blocks of some entries, of which only the last can take another. -/
structure Built (dyn : Bool) (entries : List Elf64_Phdr) (front : List Block) (last : Block) : Prop where
  covers : ∀ e ∈ entries, ∃ b ∈ front ++ [last], b.lo ≤ e.p_vaddr.toNat ∧ e.bend.toNat ≤ b.hi
  lows : ∀ b ∈ front ++ [last], ∃ e ∈ entries, b.lo = e.bstart.toNat
  tops : ∀ b ∈ front ++ [last], ∃ e ∈ entries, b.hi = e.bend.toNat
  apart : (front ++ [last]).Pairwise fun b c => b.hi < c.lo
  gaps : ∀ b ∈ front, ∃ before first between, entries = before ++ first :: between ∧
    (∀ r ∈ before, r.bend.toNat + 0x1000 < first.bstart.toNat) ∧ ∃ r ∈ before, b.hi = r.bend.toNat
  behind : dyn = false → ∀ before first between, entries = before ++ first :: between →
    (∀ r ∈ before, r.bend.toNat + 0x1000 < first.bstart.toNat) → ∀ r ∈ before, ∃ b ∈ front, r.bend.toNat ≤ b.hi
  single : dyn = true → front = []

theorem built_first {e : Elf64_Phdr} (below : e.Below) : Built dyn [e] [] ⟨e.bstart, e.bend - e.bstart⟩ := by
  have hi := Block.hi_mk (Elf64_Phdr.bstart_le_bend below)
  refine ⟨?_, ?_, ?_, ?_, ?_, ?_, ?_⟩
  · intro f mem
    obtain rfl := List.mem_singleton.mp mem
    exact ⟨_, List.mem_singleton_self _, Elf64_Phdr.bstart_le, hi.ge⟩
  · intro b mem
    obtain rfl := List.mem_singleton.mp mem
    exact ⟨e, List.mem_singleton_self _, rfl⟩
  · intro b mem
    obtain rfl := List.mem_singleton.mp mem
    exact ⟨e, List.mem_singleton_self _, hi⟩
  · exact List.pairwise_singleton _ _
  · exact fun b mem => absurd mem List.not_mem_nil
  · intro _ before first between split _ r mem
    obtain ⟨rfl, -⟩ | ⟨front, rfl, here⟩ := List.append_eq_cons_iff.mp split.symm
    · exact absurd mem List.not_mem_nil
    · simp at here
  · exact fun _ => rfl

/-- The ways in which a list that grows at its end splits at an entry. -/
theorem split_last {entries before between : List Elf64_Phdr} {e first : Elf64_Phdr}
    (split : entries ++ [e] = before ++ first :: between) :
    before = entries ∧ first = e ∧ between = [] ∨ ∃ rest, between = rest ++ [e] ∧ entries = before ++ first :: rest := by
  induction between using List.reverseRecOn with
  | nil =>
    obtain ⟨same, last⟩ := List.append_inj' split rfl
    exact .inl ⟨same.symm, (List.singleton_inj.mp last).symm, rfl⟩
  | append_singleton rest f _ =>
    rw [← List.cons_append, ← List.append_assoc] at split
    obtain ⟨same, last⟩ := List.append_inj' split rfl
    obtain rfl := List.singleton_inj.mp last
    exact .inr ⟨rest, rfl, same⟩

variable {entries : List Elf64_Phdr} {front : List Block} {last : Block} {e : Elf64_Phdr}

/-- The blocks before the last are too far down for an entry that does not reach back. -/
theorem Built.far (built : Built dyn entries front last) (nothing : dyn = false → NoReachBack (entries ++ [e])) :
    ∀ b ∈ front, b.hi + 0x1000 < e.bstart.toNat := by
  intro b mem
  cases kind : dyn with
  | true =>
    rw [built.single kind] at mem
    exact absurd mem List.not_mem_nil
  | false =>
    obtain ⟨before, first, between, rfl, gap, r, low, top⟩ := built.gaps b mem
    rw [top]
    exact nothing kind before first between e [] (by simp) gap r low

theorem Built.apart_front (built : Built dyn entries front last) (below : e.Below)
    (far : ∀ b ∈ front, b.hi + 0x1000 < e.bstart.toNat) : ∀ b ∈ front, ¬ b.Takes dyn e := by
  intro b mem
  cases kind : dyn with
  | true =>
    rw [built.single kind] at mem
    exact absurd mem List.not_mem_nil
  | false => exact Block.not_takes (far b mem) below

theorem pairwise_last {front : List Block} {last : Block} {R : Block → Block → Prop} :
    (front ++ [last]).Pairwise R ↔ front.Pairwise R ∧ ∀ b ∈ front, R b last := by
  rw [List.pairwise_append]
  simp

theorem Built.merge (built : Built dyn entries front last) (below : e.Below) (top : last.hi + 0x1000 < 2 ^ 64)
    (takes : last.Takes dyn e)
    (sorted : ∀ r ∈ entries, r.p_vaddr.toNat ≤ e.p_vaddr.toNat)
    (far : ∀ b ∈ front, b.hi + 0x1000 < e.bstart.toNat) : Built dyn (entries ++ [e]) front (last.merge e) := by
  have hi := Block.hi_merge top below
  have lo : (last.merge e).lo = _ := Block.lo_merge
  have start := Block.start_le (b := last) (e := e)
  have round := Elf64_Phdr.bstart_le (e := e)
  have lower : (last.merge e).lo ≤ last.lo := by
    rw [lo]
    split
    · rename_i less
      rw [BitVec.lt_def] at less
      omega
    · exact Nat.le_refl _
  obtain ⟨covers, lows, tops, apart, gaps, behind, single⟩ := built
  have keep : ∀ b ∈ front ++ [last], ∃ c ∈ front ++ [last.merge e], c.lo ≤ b.lo ∧ b.hi ≤ c.hi := by
    intro b mem
    obtain mem | same := List.mem_append.mp mem
    · exact ⟨b, List.mem_append_left _ mem, Nat.le_refl _, Nat.le_refl _⟩
    · obtain rfl := List.mem_singleton.mp same
      exact ⟨b.merge e, by simp, lower, by omega⟩
  have last_mem : last ∈ front ++ [last] := by simp
  refine ⟨?_, ?_, ?_, ?_, ?_, ?_, single⟩
  · intro r mem
    obtain mem | same := List.mem_append.mp mem
    · obtain ⟨b, there, low, high⟩ := covers r mem
      obtain ⟨c, here, low', high'⟩ := keep b there
      exact ⟨c, here, by omega, by omega⟩
    · obtain rfl := List.mem_singleton.mp same
      obtain ⟨q, old, low⟩ := lows last last_mem
      have := sorted q old
      have := Elf64_Phdr.bstart_le (e := q)
      exact ⟨last.merge r, by simp, by omega, by omega⟩
  · intro b mem
    obtain mem | same := List.mem_append.mp mem
    · obtain ⟨q, old, low⟩ := lows b (List.mem_append_left _ mem)
      exact ⟨q, List.mem_append_left _ old, low⟩
    · obtain rfl := List.mem_singleton.mp same
      rw [lo]
      split
      · exact ⟨e, by simp, rfl⟩
      · obtain ⟨q, old, low⟩ := lows last last_mem
        exact ⟨q, List.mem_append_left _ old, low⟩
  · intro b mem
    obtain mem | same := List.mem_append.mp mem
    · obtain ⟨q, old, high⟩ := tops b (List.mem_append_left _ mem)
      exact ⟨q, List.mem_append_left _ old, high⟩
    · obtain rfl := List.mem_singleton.mp same
      obtain ⟨q, old, high⟩ := tops last last_mem
      rw [hi]
      by_cases more : last.hi ≤ e.bend.toNat
      · exact ⟨e, by simp, by omega⟩
      · exact ⟨q, List.mem_append_left _ old, by omega⟩
  · obtain ⟨rest, ends⟩ := pairwise_last.mp apart
    refine pairwise_last.mpr ⟨rest, ?_⟩
    intro b mem
    have := ends b mem
    have := far b mem
    rw [lo]
    split <;> omega
  · intro b mem
    obtain ⟨before, first, between, rfl, gap, high⟩ := gaps b mem
    exact ⟨before, first, between ++ [e], by simp, gap, high⟩
  · intro kind before first between split gap r mem
    obtain ⟨rfl, rfl, rfl⟩ | ⟨rest, rfl, old⟩ := split_last split
    · -- an entry after a gap is not merged
      obtain ⟨q, old, high⟩ := tops last last_mem
      have beyond : last.hi + 0x1000 < first.bstart.toNat := high ▸ gap q old
      exact absurd (kind ▸ takes) (Block.not_takes beyond below)
    · exact behind kind before first rest old gap r mem

theorem Built.fresh (built : Built dyn entries front last) (below : e.Below) (kind : dyn = false)
    (far : ∀ b ∈ front ++ [last], b.hi + 0x1000 < e.bstart.toNat) :
    Built dyn (entries ++ [e]) (front ++ [last]) ⟨e.bstart, e.bend - e.bstart⟩ := by
  have hi := Block.hi_mk (Elf64_Phdr.bstart_le_bend below)
  obtain ⟨covers, lows, tops, apart, gaps, behind, -⟩ := built
  refine ⟨?_, ?_, ?_, ?_, ?_, ?_, ?_⟩
  · intro r mem
    obtain mem | same := List.mem_append.mp mem
    · obtain ⟨b, there, low, high⟩ := covers r mem
      exact ⟨b, List.mem_append_left _ there, low, high⟩
    · obtain rfl := List.mem_singleton.mp same
      exact ⟨_, List.mem_append_right _ (List.mem_singleton_self _), Elf64_Phdr.bstart_le, hi.ge⟩
  · intro b mem
    obtain mem | same := List.mem_append.mp mem
    · obtain ⟨q, old, low⟩ := lows b mem
      exact ⟨q, List.mem_append_left _ old, low⟩
    · obtain rfl := List.mem_singleton.mp same
      exact ⟨e, by simp, rfl⟩
  · intro b mem
    obtain mem | same := List.mem_append.mp mem
    · obtain ⟨q, old, high⟩ := tops b mem
      exact ⟨q, List.mem_append_left _ old, high⟩
    · obtain rfl := List.mem_singleton.mp same
      exact ⟨e, by simp, hi⟩
  · refine pairwise_last.mpr ⟨apart, ?_⟩
    intro b mem
    have := far b mem
    rw [Block.lo_mk]
    omega
  · intro b mem
    obtain mem | same := List.mem_append.mp mem
    · obtain ⟨before, first, between, rfl, gap, high⟩ := gaps b mem
      exact ⟨before, first, between ++ [e], by simp, gap, high⟩
    · obtain rfl := List.mem_singleton.mp same
      refine ⟨entries, e, [], rfl, ?_, tops b (by simp)⟩
      intro r mem
      obtain ⟨c, there, -, high⟩ := covers r mem
      have := far c there
      omega
  · intro _ before first between split gap r mem
    obtain ⟨rfl, rfl, rfl⟩ | ⟨rest, rfl, old⟩ := split_last split
    · obtain ⟨b, there, -, high⟩ := covers r mem
      exact ⟨b, there, high⟩
    · obtain ⟨b, there, high⟩ := behind kind before first rest old gap r mem
      exact ⟨b, List.mem_append_left _ there, high⟩
  · exact fun dynamic => absurd (dynamic.symm.trans kind) nofun

theorem NoReachBack.left {rest : List Elf64_Phdr} (nothing : NoReachBack (entries ++ rest)) : NoReachBack entries := by
  intro before first between e after same
  refine nothing before first between e (after ++ rest) ?_
  rw [same]
  simp

theorem Built.last_top (built : Built dyn entries front last) (below : ∀ r ∈ entries, r.Below) :
    last.hi + 0x1000 < 2 ^ 64 := by
  obtain ⟨r, mem, high⟩ := built.tops last (by simp)
  rw [high]
  exact Elf64_Phdr.bend_lt (below r mem)

/-- An entry that the last block does not take is beyond it. -/
theorem Built.beyond (built : Built dyn entries front last) (below : e.Below) (top : last.hi + 0x1000 < 2 ^ 64)
    (order : ∀ r ∈ entries, r.p_vaddr.toNat ≤ e.p_vaddr.toNat) (apart : ¬ last.Takes dyn e) :
    last.hi + 0x1000 < e.bstart.toNat := by
  obtain ⟨q, mem, low⟩ := built.lows last (by simp)
  have := order q mem
  have := Elf64_Phdr.bstart_le (e := q)
  have := Elf64_Phdr.le_bend below
  exact Block.far_of_not_takes top (by omega) apart

theorem Built.hi_last {s : Stretch} (built : Built dyn entries front s.block) (below : ∀ r ∈ entries, r.Below) :
    s.block.hi = s.high.toNat := by
  rw [← Block.stop_toNat (built.last_top below), Stretch.stop_block]

/-- What the blocks of the entries are, in the order of the table. -/
theorem built_place (dyn : Bool) (below : ∀ e ∈ entries, e.Below)
    (sorted : entries.Pairwise fun e f => e.p_vaddr.toNat ≤ f.p_vaddr.toNat)
    (nothing : dyn = false → NoReachBack entries) (some_entry : entries ≠ []) :
    ∃ before last, entries.foldl (fun stretches e => widen dyn e stretches) [] = last :: before ∧
      entries.foldl (fun blocks e => place dyn e blocks) [] = before.reverse.map Stretch.block ++ [last.block] ∧
      Built dyn entries (before.reverse.map Stretch.block) last.block := by
  induction entries using List.reverseRecOn with
  | nil => exact absurd rfl some_entry
  | append_singleton entries e ih =>
    rw [List.foldl_append, List.foldl_append]
    change ∃ before last, widen dyn e _ = _ ∧ place dyn e _ = _ ∧ _
    have here := below e (by simp)
    by_cases first : entries = []
    · subst first
      exact ⟨[], .of e, rfl, rfl, built_first here⟩
    obtain ⟨sorted, -, order⟩ := List.pairwise_append.mp sorted
    have below : ∀ r ∈ entries, r.Below := fun r mem => below r (List.mem_append_left _ mem)
    have order : ∀ r ∈ entries, r.p_vaddr.toNat ≤ e.p_vaddr.toNat := fun r mem => order r mem e (by simp)
    obtain ⟨before, last, widened, same, built⟩ := ih below sorted (fun kind => (nothing kind).left) first
    have far := built.far nothing
    have top := built.last_top below
    rw [widened, same, place_append (built.apart_front here far), widen]
    by_cases takes : last.block.Takes dyn e
    · have near : dyn = true ∨ e.bstart.toNat ≤ last.high.toNat + 0x1000 := by
        cases kind : dyn with
        | true => exact .inl rfl
        | false =>
          refine .inr (Nat.le_of_not_lt fun beyond => Block.not_takes ?_ here (kind ▸ takes))
          rwa [built.hi_last below]
      refine ⟨before, last.join e, if_pos near, ?_, ?_⟩
      · rw [place, if_pos takes, Stretch.block_merge]
      · rw [← Stretch.block_merge]
        exact built.merge here top takes order far
    · have kind : dyn = false := Bool.eq_false_iff.mpr fun dynamic => takes (.inl dynamic)
      have beyond := built.beyond here top order takes
      have gap : ¬ (dyn = true ∨ e.bstart.toNat ≤ last.high.toNat + 0x1000) := by
        rw [← built.hi_last below, kind]
        simp
        omega
      refine ⟨last :: before, .of e, if_neg gap, ?_, ?_⟩
      · rw [place, if_neg takes, place, List.reverse_cons, List.map_append, List.append_assoc]
        rfl
      · rw [List.reverse_cons, List.map_append]
        refine built.fresh here kind ?_
        intro b mem
        obtain mem | same := List.mem_append.mp mem
        · exact far b mem
        · obtain rfl := List.mem_singleton.mp same
          exact beyond

theorem blocks_length (dyn : Bool) (entries : List Elf64_Phdr) (blocks : List Block) :
    (entries.foldl (fun blocks e => place dyn e blocks) blocks).length ≤ blocks.length + entries.length := by
  induction entries generalizing blocks with
  | nil => exact Nat.le_refl _
  | cons e rest ih =>
    have := ih (place dyn e blocks)
    have := place_length dyn e blocks
    rw [List.foldl_cons, List.length_cons]
    omega

end Blocks

/-! ### Reaching back -/

section ReachBack

variable {dyn : Bool} {blocks front : List Block}

theorem Block.merge_grows {b : Block} {e : Elf64_Phdr} (below : e.Below) (top : b.hi + 0x1000 < 2 ^ 64) :
    (b.merge e).lo ≤ b.lo ∧ b.hi ≤ (b.merge e).hi ∧ e.bend.toNat ≤ (b.merge e).hi ∧ (b.merge e).hi + 0x1000 < 2 ^ 64 := by
  have start := b.start_le (e := e)
  have ends := Elf64_Phdr.bend_lt below
  rw [lo_merge, hi_merge top below]
  refine ⟨?_, by omega, by omega, by omega⟩
  split
  · rename_i less
    rw [BitVec.lt_def] at less
    omega
  · exact Nat.le_refl _

/-- The first block that takes the entry grows, the later ones stay as they are. -/
theorem place_taken {e : Elf64_Phdr} {b : Block} (mem : b ∈ front) (takes : b.Takes dyn e) (rest : List Block) :
    ∃ before c after, front = before ++ c :: after ∧ place dyn e (front ++ rest) = before ++ c.merge e :: after ++ rest := by
  induction front with
  | nil => exact absurd mem List.not_mem_nil
  | cons first front ih =>
    by_cases here : first.Takes dyn e
    · refine ⟨[], first, front, rfl, ?_⟩
      rw [List.cons_append, place, if_pos here]
      rfl
    · have later : b ∈ front := (List.mem_cons.mp mem).resolve_left fun same => here (same ▸ takes)
      obtain ⟨before, c, after, rfl, placed⟩ := ih later
      refine ⟨first :: before, c, after, rfl, ?_⟩
      rw [List.cons_append, place, if_neg here, placed]
      rfl

variable {entries : List Elf64_Phdr} {last : Block} {e : Elf64_Phdr}

/-- An entry that reaches back over the last block is in a block that overlaps with it. -/
theorem Built.overlaps (built : Built dyn entries front last) (below : ∀ r ∈ entries, r.Below) (here : e.Below)
    (full : e.p_memsz ≠ 0) (order : ∀ r ∈ entries, r.p_vaddr.toNat ≤ e.p_vaddr.toNat) {b : Block} (mem : b ∈ front)
    (near : e.bstart.toNat ≤ b.hi + 0x1000) : ¬ (place dyn e (front ++ [last])).Pairwise Block.Apart := by
  have tops : ∀ c ∈ front ++ [last], c.hi + 0x1000 < 2 ^ 64 := by
    intro c there
    obtain ⟨r, old, high⟩ := built.tops c there
    rw [high]
    exact Elf64_Phdr.bend_lt (below r old)
  have beyond : ∀ c ∈ front ++ [last], c.lo < e.bend.toNat := by
    intro c there
    obtain ⟨q, old, low⟩ := built.lows c there
    have := order q old
    have := Elf64_Phdr.bstart_le (e := q)
    have := Elf64_Phdr.le_bend here
    have size : e.p_memsz.toNat ≠ 0 := fun none => full (BitVec.eq_of_toNat_eq none)
    omega
  have takes : b.Takes dyn e := by
    by_contra apart
    have := Block.far_of_not_takes (tops b (by simp [mem])) (Nat.le_of_lt (beyond b (by simp [mem]))) apart
    omega
  intro apart
  obtain ⟨before, c, after, rfl, placed⟩ := place_taken mem takes [last]
  rw [placed] at apart
  have two := (pairwise_last.mp apart).2 (c.merge e) (by simp)
  obtain ⟨lower, -, reached, -⟩ := Block.merge_grows here (tops c (by simp))
  have order := (pairwise_last.mp built.apart).2 c (by simp)
  have := beyond last (by simp)
  have := c.lo_le_hi
  have := last.lo_le_hi
  rw [Block.Apart] at two
  omega

end ReachBack

end Box64.Elfs
