import Box64.Lib.ByteMemory
import Box64.Lib.Tiling

/-!
# Boundary marks

The sub-blocks of an arena, as `custommem.c` keeps them: each begins with a `blockmark_t`, two
32-bit words that hold the size and the use of the sub-block before (`prev`) and of the
sub-block itself (`next`). An arena starts with a zero `prev` and ends with a zero `next`.
Addresses and sizes are counted in bytes; `sizeof(blockmark_t)` is 8.
-/

namespace Box64.Custommem

open Tiling ByteMemory

/-- A `mark_t`, read as its `size` and `fill` bit-fields. -/
abbrev Mark := Tile

def mark (mem : ByteMemory) (a : Nat) : Mark :=
  let x32 := read mem a 4
  ⟨x32 % 2 ^ 31, x32 / 2 ^ 31 == 1⟩

def setMark (mem : ByteMemory) (a : Nat) (k : Mark) : ByteMemory :=
  write mem a 4 (k.size % 2 ^ 31 + (if k.fill then 2 ^ 31 else 0))

/-- A mark whose `x32` is 0. -/
def Mark.zero : Mark := ⟨0, false⟩

def prev (mem : ByteMemory) (b : Nat) : Mark := mark mem b
def next (mem : ByteMemory) (b : Nat) : Mark := mark mem (b + 4)

def setPrevSize (mem : ByteMemory) (b size : Nat) : ByteMemory := setMark mem b ⟨size, (prev mem b).fill⟩
def setPrevFill (mem : ByteMemory) (b : Nat) (fill : Bool) : ByteMemory :=
  setMark mem b ⟨(prev mem b).size, fill⟩
def setNextSize (mem : ByteMemory) (b size : Nat) : ByteMemory :=
  setMark mem (b + 4) ⟨size, (next mem b).fill⟩
def setNextFill (mem : ByteMemory) (b : Nat) (fill : Bool) : ByteMemory :=
  setMark mem (b + 4) ⟨(next mem b).size, fill⟩

def nextBlock (mem : ByteMemory) (b : Nat) : Nat := b + (next mem b).size + 8
def prevBlock (mem : ByteMemory) (b : Nat) : Nat := b - (prev mem b).size - 8
def lastBlock (block size : Nat) : Nat := block + size - 8

/-! ### The source's functions -/

/-- The loop of `getFirstBlock`; `none` when it outruns the fuel. -/
def firstFree (mem : ByteMemory) (maxsize : Nat) : Nat → Nat → Option (Option (Nat × Nat))
  | 0, _ => none
  | fuel + 1, m =>
    if next mem m = Mark.zero then some none
    else if (next mem m).fill = false ∧ maxsize ≤ (next mem m).size then some (some (m, (next mem m).size))
    else firstFree mem maxsize fuel (nextBlock mem m)

/-- The first free sub-block of at least `maxsize` bytes, and its size. -/
def getFirstBlock (mem : ByteMemory) (block maxsize : Nat) (start : Option Nat) (fuel : Nat) :
    Option (Option (Nat × Nat)) :=
  firstFree mem maxsize fuel (start.getD block)

def maxForward (mem : ByteMemory) : Nat → Nat → Nat → Option Nat
  | 0, _, _ => none
  | fuel + 1, m, maxsize =>
    if next mem m = Mark.zero then some maxsize
    else if (next mem m).fill = false ∧ maxsize < (next mem m).size then
      maxForward mem fuel (nextBlock mem m) (next mem m).size
    else maxForward mem fuel (nextBlock mem m) maxsize

def maxBackward (mem : ByteMemory) (block : Nat) : Nat → Nat → Nat → Option Nat
  | 0, _, _ => none
  | fuel + 1, m, maxsize =>
    if prev mem m = Mark.zero then some maxsize
    else if (prev mem m).fill = false ∧ maxsize < (prev mem m).size then
      -- no block large enough left
      if block + (prev mem m).size > m then some (prev mem m).size
      else maxBackward mem block fuel (prevBlock mem m) (prev mem m).size
    else maxBackward mem block fuel (prevBlock mem m) maxsize

def getMaxFreeBlock (mem : ByteMemory) (block blockSize : Nat) (start : Option Nat) (fuel : Nat) :
    Option Nat :=
  (match start with
    | some m => maxForward mem fuel m 0
    | none => maxBackward mem block fuel (lastBlock block blockSize) 0).map
      fun maxsize => if 8 ≤ maxsize then maxsize else 0

/-- The writes of `allocBlock`. -/
def allocMarks (mem : ByteMemory) (s size : Nat) : ByteMemory :=
  let n := nextBlock mem s
  let mem := setNextFill mem s true
  -- check if a new mark is worth it
  let mem := if (next mem s).size > (size + 2 * 8) % 2 ^ 64 then setNextSize mem s size else mem
  let m := nextBlock mem s
  let mem := setPrevFill mem m true
  if n ≠ m then
    let mem := setPrevSize mem m (next mem s).size
    let mem := setNextFill mem m false
    let mem := setNextSize mem m (n - m - 8)
    let mem := setPrevFill mem n false
    setPrevSize mem n (next mem m).size
  else mem

/-- The loop that looks for the next free block. -/
def skipFilled (mem : ByteMemory) : Nat → Nat → Option Nat
  | 0, _ => none
  | fuel + 1, m => if (next mem m).fill then skipFilled mem fuel (nextBlock mem m) else some m

/-- The memory, the address returned, and `*pstart` when the caller gave one. -/
def allocBlock (mem : ByteMemory) (sub size : Nat) (pstart : Option Nat) (fuel : Nat) :
    Option (ByteMemory × Nat × Option Nat) :=
  let mem := allocMarks mem sub size
  if pstart = some sub then (skipFilled mem fuel sub).map fun m => (mem, sub + 8, some m)
  else some (mem, sub + 8, pstart)

/-- `freeBlock`: merge with the previous sub-block. The memory, and the start of the result. -/
def mergePrevious (mem : ByteMemory) (m s n : Nat) : ByteMemory × Nat :=
  if prev mem s ≠ Mark.zero ∧ (prev mem s).fill = false then
    -- remove s...
    let mem := setNextSize mem m ((next mem m).size + ((next mem s).size + 8))
    (setPrevSize mem n (next mem m).size, m)
  else (mem, s)

/-- `freeBlock`: merge with the next sub-block. -/
def mergeNext (mem : ByteMemory) (s n : Nat) : ByteMemory :=
  if next mem n ≠ Mark.zero ∧ (next mem n).fill = false then
    let n2 := nextBlock mem n
    -- remove n
    let mem := setNextSize mem s ((next mem s).size + ((next mem n).size + 8))
    setPrevSize mem n2 (next mem s).size
  else mem

/-- The writes of `freeBlock`, and the sub-block that `sub` ends up in. -/
def freeMarks (mem : ByteMemory) (block sub : Nat) : ByteMemory × Nat :=
  let s := sub
  let n := nextBlock mem s
  let m := if block ≠ sub then prevBlock mem s else block
  let mem := setNextFill mem s false
  let mem := setPrevFill mem n false
  let (mem, s) := mergePrevious mem m s n
  (mergeNext mem s n, s)

/-- The memory, the free size at the current block, and `*pstart` when the caller gave one. -/
def freeBlock (mem : ByteMemory) (block sub : Nat) (pstart : Option Nat) :
    ByteMemory × Nat × Option Nat :=
  let (mem, s) := freeMarks mem block sub
  (mem, (next mem s).size, pstart.map fun start => if start > sub then s else start)

/-- The marks of a fresh arena: one free sub-block between the two terminal marks. -/
def setupMarks (mem : ByteMemory) (p allocsize : Nat) : ByteMemory :=
  let m := p
  let mem := setMark mem m Mark.zero
  let mem := setNextFill mem m false
  let mem := setNextSize mem m (allocsize - 2 * 8)
  let n := nextBlock mem m
  let mem := setMark mem (n + 4) Mark.zero
  let mem := setPrevFill mem n false
  setPrevSize mem n (next mem m).size

/-! ### Reading back a mark -/

theorem mark_size_lt (mem : ByteMemory) (a : Nat) : (mark mem a).size < 2 ^ 31 := Nat.mod_lt _ (by decide)

@[simp] theorem mark_setMark_same {mem : ByteMemory} {a size : Nat} {fill : Bool}
    (small : size < 2 ^ 31) : mark (setMark mem a ⟨size, fill⟩) a = ⟨size, fill⟩ := by
  have stored : read (setMark mem a ⟨size, fill⟩) a 4 = size + (if fill then 2 ^ 31 else 0) := by
    rw [setMark, read_write_same, Nat.mod_eq_of_lt small, Nat.mod_eq_of_lt]
    dsimp only
    split <;> omega
  unfold mark
  rw [stored]
  dsimp only
  cases fill
  · rw [if_neg (by decide), Nat.add_zero, Nat.mod_eq_of_lt small, Nat.div_eq_of_lt small]
    rfl
  · rw [if_pos rfl, Nat.add_mod_right, Nat.mod_eq_of_lt small, Nat.add_div_right _ (by decide),
      Nat.div_eq_of_lt small]
    rfl

@[simp] theorem mark_setMark_other {mem : ByteMemory} {a c : Nat} {k : Mark}
    (apart : c + 4 ≤ a ∨ a + 4 ≤ c) : mark (setMark mem a k) c = mark mem c := by
  unfold mark
  rw [setMark, read_write_disjoint mem apart]

theorem changedIn_setMark {mem : ByteMemory} {a : Nat} {k : Mark} {lo hi : Nat} (below : lo ≤ a)
    (above : a + 4 ≤ hi) : ChangedIn lo hi mem (setMark mem a k) :=
  changedIn_write mem a 4 _ below above

theorem mark_frame {mem mem' : ByteMemory} {lo hi a : Nat} (same : ChangedIn lo hi mem mem')
    (apart : a + 4 ≤ lo ∨ hi ≤ a) : mark mem' a = mark mem a := by
  unfold mark
  rw [same.read apart]

end Box64.Custommem
