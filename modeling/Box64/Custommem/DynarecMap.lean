import Box64.Custommem.CustomMalloc

/-!
# Memory for translated blocks

The 256KB maps that hold native code. Each has, besides its marks, a hash of the dynablocks by
start address, and a `helper` table with one byte for each of its own: how far to step back
towards the start of the block.
-/

namespace Box64.Custommem

open Tiling ByteMemory

/-- `mmaplist_t`. A dynablock is known by its pointer, of type `Db`. -/
structure Mmaplist (Db : Type) where
  block : Nat
  maxfree : Nat
  size : Nat
  dblist : Option (Nat → Option Db)
  helper : ByteMemory
  /-- first free block, to speed up things -/
  first : Nat
  /-- don't try to add stuff on locked block -/
  locked : Nat

variable {Db : Type}

/-- `kh_get` and `kh_value`. -/
def Mmaplist.get (m : Mmaplist Db) (key : Nat) : Option Db := m.dblist.bind (· key)

/-- `kh_put` and `kh_value`, in a table made on first use. -/
def Mmaplist.put (m : Mmaplist Db) (key : Nat) (db : Db) : Mmaplist Db :=
  { m with dblist := some (Function.update (m.dblist.getD fun _ => none) key (some db)) }

/-- The `helper` bytes that `FindFreeDynarecMap` writes for a block at offset `o`. -/
def helperReused (helper : ByteMemory) (o size : Nat) : ByteMemory :=
  let size255 := if size < 256 then size else 255
  let helper : ByteMemory := fun b => if o ≤ b ∧ b < o + size255 then BitVec.ofNat 8 (b - o) else helper b
  if size ≠ size255 then fun b => if o + 256 ≤ b ∧ b < o + 256 + (size - 255) then 255 else helper b
  else helper

/-- The `helper` bytes that `AddNewDynarecMap` writes. -/
def helperNew (helper : ByteMemory) (o size : Nat) : ByteMemory := fun b =>
  if o ≤ b ∧ b < o + size then BitVec.ofNat 8 (if b - o < 256 then b - o else 255) else helper b

/-- `FindFreeDynarecMap`: the memory and the address when a map has room, and the maps after. -/
def findFreeDynarecMap (mem : ByteMemory) (db : Db) (size : Nat) :
    List (Mmaplist Db) → Option (Option (ByteMemory × Nat) × List (Mmaplist Db))
  | [] => some (none, [])
  | m :: rest =>
    let others (m : Mmaplist Db) := (findFreeDynarecMap mem db size rest).map fun r => (r.1, m :: r.2)
    if m.maxfree ≥ size + 8 ∧ m.locked = 0 then
      match getFirstBlock mem m.block size (some m.first) m.size with
      | none => none
      | some none => others { m with locked := 1 }
      | some (some (sub, rsize)) =>
        (allocBlock mem sub size (some m.first) m.size).bind fun (mem, ret, first) =>
          let first := first.getD m.first
          (if rsize = m.maxfree then getMaxFreeBlock mem m.block m.size (some first) m.size
            else some m.maxfree).map fun maxfree =>
              let m := { m with maxfree, first, helper := helperReused m.helper (ret - m.block) size, locked := 0 }
              (some (mem, ret), m.put ret db :: rest)
    else others m

/-- `AddNewDynarecMap`, for a map at `p`. -/
def addNewDynarecMap (mem : ByteMemory) (db : Db) (size : Nat) (maps : List (Mmaplist Db)) (p : Nat) :
    Option (ByteMemory × Nat × List (Mmaplist Db)) :=
  let mem := setupMarks mem p mmapSize
  (allocBlock mem p size (some p) mmapSize).bind fun (mem, sub, first) =>
    let first := first.getD p
    (getMaxFreeBlock mem p mmapSize (some first) mmapSize).map fun maxfree =>
      let m : Mmaplist Db :=
        { block := p, maxfree, size := mmapSize, dblist := some fun _ => none,
          helper := helperNew (fun _ => 0) (sub - p) size, first, locked := 0 }
      (mem, sub, maps ++ [m.put sub db])

/-- `AllocDynarecMap` below the oversized threshold; `p` is what `posix_memalign` gives, if it does. -/
def allocDynarecMap (mem : ByteMemory) (maps : List (Mmaplist Db)) (db : Db) (size : Nat) (p : Option Nat) :
    Option (ByteMemory × Nat × List (Mmaplist Db)) :=
  if size = 0 then some (mem, 0, maps)
  else
    (findFreeDynarecMap mem db size maps).bind fun
      | (some (mem, ret), maps) => some (mem, ret, maps)
      | (none, maps) =>
        match p with
        | none => some (mem, 0, maps)
        | some p => addNewDynarecMap mem db size maps p

/-- `ActuallyFreeDynarecMap`. -/
def actuallyFreeDynarecMap (mem : ByteMemory) (addr size : Nat) :
    List (Mmaplist Db) → ByteMemory × List (Mmaplist Db)
  | [] => (mem, [])
  | m :: rest =>
    if addr > m.block ∧ addr < m.block + m.size then
      let sub := addr - 8
      let (mem, newfree, first) := freeBlock mem m.block sub (some m.first)
      let o := sub - m.block
      let m :=
        { m with
          first := first.getD m.first
          maxfree := if m.maxfree < newfree then newfree else m.maxfree
          -- the key asked for is the mark's address
          dblist := m.dblist.map fun blocks => Function.update blocks sub none
          helper :=
            if m.dblist.isSome then fun b => if o ≤ b ∧ b < o + size then 0 else m.helper b else m.helper
          locked := if m.locked ≠ 0 then m.locked + 1 else m.locked }
      (mem, m :: rest)
    else
      let (mem, rest) := actuallyFreeDynarecMap mem addr size rest
      (mem, m :: rest)

/-- `FreeDynarecMap` below the oversized threshold. -/
def freeDynarecMap (mem : ByteMemory) (maps : List (Mmaplist Db)) (addr size : Nat) :
    ByteMemory × List (Mmaplist Db) :=
  if addr = 0 ∨ size = 0 then (mem, maps) else actuallyFreeDynarecMap mem addr size maps

/-- `while(helper[p]) p -= helper[p]`; `none` when it steps out of the table. -/
def stepBack (helper : ByteMemory) : Nat → Nat → Option Nat
  | 0, _ => none
  | fuel + 1, p =>
    if helper p = 0 then some p
    else if (helper p).toNat ≤ p then stepBack helper fuel (p - (helper p).toNat)
    else none

/-- `FindDynablockFromNativeAddress`, where `oversized` looks in the list of oversized blocks. -/
def findDynablockFromNativeAddress (oversized : Nat → Option Db) (addr : Nat) :
    List (Mmaplist Db) → Option (Option Db)
  | [] => some (oversized addr)
  | m :: rest =>
    if addr ≥ m.block ∧ addr < m.block + m.size then
      (stepBack m.helper (addr - m.block + 1) (addr - m.block)).map fun p => m.get (m.block + p)
    else findDynablockFromNativeAddress oversized addr rest

/-! ### Runs -/

structure Allocation (Db : Type) where
  addr : Nat
  size : Nat
  db : Db

/-- The memory and the maps, the live allocations and those that have been freed. -/
structure DynarecState (Db : Type) where
  mem : ByteMemory
  mmaplist : List (Mmaplist Db)
  live : List (Allocation Db)
  freed : List (Allocation Db)

inductive DynarecCall (Db : Type) where
  | alloc (db : Db) (size : Nat) (p : Option Nat)
  | free (a : Allocation Db)
  /-- Code is written in a live allocation, or a byte outside every map. -/
  | store (addr : Nat) (value : BitVec 8)

/-- A map as an arena whose `maxfree` is not looked at. -/
def Mmaplist.arena (m : Mmaplist Db) : Blocklist := { block := m.block, maxfree := 0, size := m.size }

def DynarecState.arenas (s : DynarecState Db) : MallocState :=
  ⟨⟨s.mem, s.mmaplist.map Mmaplist.arena⟩, s.live.map fun a => (a.addr, a.size)⟩

def dynarecStep (s : DynarecState Db) : DynarecCall Db → DynarecState Db → Prop
  | .alloc db size p, t =>
    size ≤ mmapSize - 2 * 8 ∧ (∀ q, p = some q → Fresh (s.mmaplist.map Mmaplist.arena) q mmapSize) ∧
      ∃ ret, allocDynarecMap s.mem s.mmaplist db size p = some (t.mem, ret, t.mmaplist) ∧
        t.live = (if ret = 0 then s.live else ⟨ret, size, db⟩ :: s.live) ∧ t.freed = s.freed
  | .free a, t =>
    ∃ before after, s.live = before ++ a :: after ∧
      (t.mem, t.mmaplist) = freeDynarecMap s.mem s.mmaplist a.addr a.size ∧
      t.live = before ++ after ∧ t.freed = a :: s.freed
  | .store addr value, t =>
    Writable s.arenas addr ∧ t = { s with mem := Function.update s.mem addr value }

def dynarecMaps (Db : Type) : Transition.System (DynarecState Db) (DynarecCall Db) where
  init s := s.mmaplist = [] ∧ s.live = [] ∧ s.freed = []
  step := dynarecStep

end Box64.Custommem
