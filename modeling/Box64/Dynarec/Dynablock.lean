import Box64.Custommem.JumpTable
import Box64.Lib.Transition

/-!
# The dynamap and its dynablocks

`custommem.c` keeps one `dynablocklist_t` for each 64KB zone of guest memory that may hold
code, and `dynablock.c` hangs the translated blocks on the `direct[]` array of the zone
they start in. A write to code marks the blocks it touches.
-/

namespace Box64.Dynarec
open Custommem
open Function (update)

/-- `dynablock_t`. A pointer to a block is a number; `parent` is the zone of its list. -/
structure Dynablock where
  parent : Nat := 0
  block : Addr := 0
  x64Addr : Addr := 0
  x64Size : BitVec 64 := 0
  needTest : Bool := false
  done : Bool := false
  sons : List Nat := []
  father : Option Nat := none

def Dynablock.addSon (b : Dynablock) (son : Nat) : Dynablock := { b with sons := b.sons ++ [son] }

/-- `dynablocklist_t`. The `direct` array maps an offset in the zone to a block. -/
structure Dynablocklist where
  text : Addr
  textsz : Nat
  minstart : Addr
  maxend : Addr
  direct : Option (Nat → Option Nat)

/-- The dynamap, the blocks allocated so far (below `fresh`) and the jump table. -/
structure Dynamap where
  dynmap : Nat → Option Dynablocklist
  blocks : Nat → Dynablock
  fresh : Nat
  jmptbl : JumpTable

/-! ### Loops over zones -/

/-- The zone of an address: `addr >> DYNAMAP_SHIFT`. -/
def zone (addr : Addr) : Nat := (addr >>> 16).toNat

/-- The values of `for(uintptr_t i=first; i<=last; ++i)`. -/
def zonesFromTo (first last : Nat) : List Nat := List.range' first (last + 1 - first)

/-- The values of `for(unsigned idx=first; idx<bound; ++idx)`, whose 32-bit counter never
reaches a bound of 2^32 or more. -/
def unsignedBelow (first bound : Nat) : Option (List Nat) :=
  if bound < 2 ^ 32 then some (List.range' (first % 2 ^ 32) (bound - first % 2 ^ 32)) else none

/-! ### Zones -/

variable (nativeNext : Addr)

def initial : Dynamap where
  dynmap _ := none
  blocks _ := {}
  fresh := 0
  jmptbl := JumpTable.initial nativeNext

variable {nativeNext}

/-- `NewDynablockList(text, textsz, 0)`. -/
def newDynablockList (text : Addr) (textsz : Nat) : Dynablocklist where
  text := text
  textsz := textsz
  minstart := text
  maxend := text + BitVec.ofNat 64 textsz - 1
  direct := none

/-- The three levels of `dynmap123`, none of whose tables is freed before the end, as one map. -/
def getDB (s : Dynamap) (idx : Nat) : Option Dynablocklist := s.dynmap (idx % 2 ^ 48)

def addZone (s : Dynamap) (i : Nat) : Dynamap :=
  match getDB s i with
  | some _ => s
  | none => { s with
      dynmap := update s.dynmap (i % 2 ^ 48)
        (some (newDynablockList (BitVec.ofNat 64 (i % 2 ^ 48) <<< 16) (2 ^ 16))) }

def addDBFromAddressRange (s : Dynamap) (addr : Addr) (size : BitVec 64) : Dynamap :=
  (zonesFromTo (zone addr) (zone (addr + size - 1))).foldl addZone s

/-! ### Adding a block -/

def Dynablocklist.covers (l : Dynablocklist) (addr : Addr) : Bool :=
  l.text ≤ addr ∧ addr < l.text + BitVec.ofNat 64 l.textsz

/-- The block in the slot of `addr`. -/
def Dynablocklist.slot (l : Dynablocklist) (addr : Addr) : Option Nat :=
  l.direct.bind fun d => d (addr - l.text).toNat

/-- The list `AddNewDynablock` ends up in: the one given when it covers `addr`, else the one of
`addr`. The outer `none` is the endless recursion on a list that does not cover its addresses. -/
def ownerList (s : Dynamap) (parent : Nat) (addr : Addr) : Option (Option Nat) :=
  if (s.dynmap parent).any (·.covers addr) then some (some parent)
  else match getDB s (zone addr) with
    | none => some none
    | some l => if l.covers addr then some (some (zone addr)) else none

/-- Store a new block in the slot of `addr` in the list of zone `z`, creating `direct[]` if needed. -/
def insertBlock (s : Dynamap) (z : Nat) (l : Dynablocklist) (addr : Addr) (b : Dynablock) : Dynamap :=
  let d := l.direct.getD fun _ => none
  { s with
    dynmap := update s.dynmap z
      (some { l with direct := some (update d (addr - l.text).toNat (some s.fresh)) })
    blocks := update s.blocks s.fresh b
    fresh := s.fresh + 1 }

/-- `AddNewDynablock` with `*created == 1`. The result is the block and whether it is new. -/
def addNewDynablock (s : Dynamap) (parent : Nat) (addr : Addr) : Option (Dynamap × Option Nat × Bool) :=
  match ownerList s parent addr with
  | none => none
  | some none => some (s, none, false)
  | some (some z) =>
    match s.dynmap z with
    | none => some (s, none, false)
    | some l =>
      match l.slot addr with
      | some p => some (s, some p, false)
      | none => some (insertBlock s z l addr { parent := z }, some s.fresh, true)

/-- What `FillBlock64` finds for a block: the native code, where the translation started and how
many guest bytes it covers, and the sons it may create with their native entries. -/
structure Filled where
  block : Addr
  start : Addr
  x64Size : BitVec 64
  sons : List (Addr × Addr)

/-- `end` in `FillBlock64`. -/
def Filled.stop (f : Filled) : Addr := f.start + f.x64Size

def setBlock (s : Dynamap) (p : Nat) (f : Dynablock → Dynablock) : Dynamap :=
  { s with blocks := update s.blocks p (f (s.blocks p)) }

section
variable (s : Dynamap) (p : Nat) (f : Dynablock → Dynablock)

@[simp] theorem setBlock_dynmap : (setBlock s p f).dynmap = s.dynmap := rfl
@[simp] theorem setBlock_fresh : (setBlock s p f).fresh = s.fresh := rfl
@[simp] theorem setBlock_jmptbl : (setBlock s p f).jmptbl = s.jmptbl := rfl
@[simp] theorem setBlock_same : (setBlock s p f).blocks p = f (s.blocks p) := by simp [setBlock]
@[simp] theorem setBlock_other {q : Nat} (h : q ≠ p) : (setBlock s p f).blocks q = s.blocks q := by
  simp [setBlock, Function.update_of_ne h]

end

/-- One round of the loop of `FillBlock64` over the sons. -/
def fillSon (block : Nat) (stop : Addr) (s : Dynamap) (son : Addr × Addr) : Option Dynamap :=
  match addNewDynablock s (s.blocks block).parent son.1 with
  | none => none
  | some (s, some p, true) =>
    let s := setBlock s p fun b =>
      { b with block := son.2, x64Addr := son.1, x64Size := stop - son.1, father := some block }
    some (setBlock s block (·.addSon p))
  | some (s, _, _) => some s

/-- The part of `FillBlock64` after the translation has succeeded. -/
def fillBlock64 (s : Dynamap) (p : Nat) (f : Filled) : Option Dynamap :=
  f.sons.foldlM (fillSon p f.stop)
    (setBlock s p fun b => { b with block := f.block, needTest := false, x64Size := f.x64Size })

def lowerMinstart (addr : Addr) (s : Dynamap) (idx : Nat) : Dynamap :=
  match getDB s idx with
  | none => s
  | some l =>
    if addr < l.minstart then { s with dynmap := update s.dynmap (idx % 2 ^ 48) (some { l with minstart := addr }) }
    else s

/-- `int blocksz = block->x64_size`, as it is added to an address. -/
def blocksz (x64Size : BitVec 64) : BitVec 64 := (x64Size.setWidth 32).signExtend 64

/-- The update of `minstart` and `maxend` in `internalDBGetBlock`. -/
def updateHints (s : Dynamap) (z : Nat) (addr : Addr) (x64Size : BitVec 64) : Option Dynamap :=
  let s := lowerMinstart addr s z
  match getDB s z with
  | none => some s
  | some l =>
    let stop := addr + blocksz x64Size
    if l.maxend < stop then
      let s := { s with dynmap := update s.dynmap (z % 2 ^ 48) (some { l with maxend := stop }) }
      (unsignedBelow (zone addr + 1) (zone (stop - 1) + 1)).map fun zones =>
        zones.foldl (lowerMinstart addr) s
    else some s

variable (nativeNext)

def addJump (s : Dynamap) (p : Nat) : Dynamap :=
  { s with jmptbl :=
      JumpTable.addJumpTableIfDefault64 nativeNext s.jmptbl (s.blocks p).x64Addr (s.blocks p).block }

@[simp] theorem addJump_blocks (s : Dynamap) (p : Nat) : (addJump nativeNext s p).blocks = s.blocks := rfl

/-- Fill in the jump table and declare the block and its sons done. -/
def publish (s : Dynamap) (p : Nat) : Dynamap :=
  let s := addJump nativeNext s p
  let s := (s.blocks p).sons.foldl
    (fun s son => setBlock (addJump nativeNext s son) son fun b => { b with done := true }) s
  setBlock s p fun b => { b with done := true }

/-- The success path of `internalDBGetBlock`: no block at `addr` yet, and `FillBlock64` succeeds.
`none` is every other outcome. -/
def internalDBGetBlock (s : Dynamap) (addr : Addr) (f : Filled) : Option Dynamap :=
  match addNewDynablock s (zone addr) addr with
  | some (s, some p, true) => do
    let s ← fillBlock64 (setBlock s p fun b => { b with x64Addr := addr }) p f
    if f.x64Size = 0 then some s
    else
      let s ← updateHints s (zone addr) addr f.x64Size
      some (publish nativeNext s p)
  | _ => none

/-! ### Marking -/

/-- The father of a block, or the block itself. -/
def fatherOf (s : Dynamap) (p : Nat) : Nat := (s.blocks p).father.getD p

def setDefault (s : Dynamap) (p : Nat) : Dynamap :=
  { s with jmptbl := JumpTable.setJumpTableDefault64 nativeNext s.jmptbl (s.blocks p).x64Addr }

def markDynablock (s : Dynamap) (p : Nat) : Dynamap :=
  let db := fatherOf s p
  if (s.blocks db).needTest then s
  else
    let s := setDefault nativeNext (setBlock s db fun b => { b with needTest := true }) db
    (s.blocks db).sons.foldl (setDefault nativeNext) s

def intervalIntersects (start1 end1 start2 end2 : Addr) : Bool :=
  !(end2 < start1 || end1 < start2)

/-- The test of `MarkDirectDynablock` on one block. -/
def markTest (b : Dynablock) (addr : Addr) (size : BitVec 64) : Bool :=
  intervalIntersects b.x64Addr (b.x64Addr + b.x64Size - 1) addr (addr + size + 1)

/-- One round of the loop of `MarkDirectDynablock`. -/
def markSlot (d : Nat → Option Nat) (addr : Addr) (size : BitVec 64) (s : Dynamap) (i : Nat) : Dynamap :=
  match d i with
  | none => s
  | some p => if markTest (s.blocks p) addr size then markDynablock nativeNext s p else s

def markDirectDynablock (s : Dynamap) (dynablocks : Option Dynablocklist) (addr : Addr)
    (size : BitVec 64) : Dynamap :=
  match dynablocks with
  | none => s
  | some l =>
    match l.direct with
    | none => s
    | some d => (List.range l.textsz).foldl (markSlot nativeNext d addr size) s

def markRangeDynablock (s : Dynamap) (l : Dynablocklist) (addr : Addr) (size : BitVec 64) :
    Option Dynamap :=
  match l.direct with
  | none => some s
  | some _ =>
    let s := markDirectDynablock nativeNext s (some l) addr size
    (unsignedBelow (zone l.minstart) (zone addr)).map fun zones =>
      zones.foldl (fun s idx => markDirectDynablock nativeNext s (getDB s idx) addr size) s

/-- One round of the loop of `cleanDBFromAddressRange`. -/
def cleanZone (addr : Addr) (size : BitVec 64) (s : Dynamap) (i : Nat) : Option Dynamap :=
  match getDB s i with
  | none => some s
  | some l => markRangeDynablock nativeNext s l addr size

/-- `cleanDBFromAddressRange(addr, size, 0)`. `none` when it does not return. -/
def cleanDBFromAddressRange (s : Dynamap) (addr : Addr) (size : BitVec 64) : Option Dynamap :=
  (zonesFromTo (zone addr) (zone (addr + size - 1))).foldlM (cleanZone nativeNext addr size) s

end Box64.Dynarec
