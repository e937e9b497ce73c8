import Box64.Lib.ByteMemory
import Box64.Lib.Runs

/-!
# Thread-local storage

The template of the TLS blocks that grows with each library, and the area each thread gets from it: the blocks below
the thread pointer, the thread control block and the DTV above it.
-/

namespace Box64.Emu.Tls

/-- The value of a signed number in an `int`. -/
def int32 (x : Int) : Int := x.bmod (2 ^ 32)

/-- How far the loader is with an ELF: in the list, with a partition, or with the image of its block in the
template. -/
inductive Stage
  | added
  | partitioned
  | loaded (image : List (BitVec 8))
  deriving DecidableEq

/-- The part of `elfheader_t` the TLS needs. -/
structure Elf where
  tlssize : BitVec 64
  tlsbase : Int
  stage : Stage

structure Context where
  tlsdata : ByteMemory
  tlssize : Int
  elfs : List Elf
  canary : BitVec 64
  vsyscall : BitVec 64

/-- `tlsdatasize_t`: the size, the address and the contents of an allocation. -/
structure Area where
  tlssize : Int
  tlsdata : BitVec 64
  mem : ByteMemory

/-- What `malloc` returns: an address, and whatever is there. -/
structure Fresh where
  ptr : BitVec 64
  junk : ByteMemory

/-! ### The template -/

/-- `AddTLSPartition` and the base it returns. Counts of bytes are unsigned: a negative one is past any allocation. -/
def AddTLSPartition (context : Context) (tlssize : Int) : Option (Context × Int) :=
  let oldsize := int32 context.tlssize
  if tlssize < 0 ∨ oldsize < 0 then none
  else
    let tlsdata := context.tlsdata.copy tlssize.toNat oldsize.toNat context.tlsdata 0
    let tlsdata := tlsdata.fill 0 tlssize.toNat 0
    some ({ context with tlsdata, tlssize := context.tlssize + tlssize }, int32 (-(context.tlssize + tlssize)))

/-- The `PT_TLS` part of `LoadElfMemory`: `file` is in the file, the rest up to `memsz` is zero. -/
def loadImage (context : Context) (tlsbase : Int) (file : List (BitVec 8)) (memsz : Nat) : Context :=
  let dest := (context.tlssize + tlsbase).toNat
  let tlsdata := context.tlsdata.copy dest file.length (fun a => file.getD a 0) 0
  { context with tlsdata := tlsdata.fill (dest + file.length) (memsz - file.length) 0 }

/-! ### The area of a thread -/

def POS_TLS : Nat := 0x200

/-- The entries of the DTV from the one of ELF `i` on. `tp` is where the thread control block is in `mem`. -/
def writeDtv (ptr : BitVec 64) (tlssize : Int) (tp i : Nat) : List Elf → ByteMemory → ByteMemory
  | [], mem => mem
  | e :: elfs, mem =>
    let dtp := ptr + BitVec.ofInt 64 (tlssize + int32 e.tlsbase)
    let mem := (mem.write (tp + POS_TLS + i * 16) 8 dtp.toNat).write (tp + POS_TLS + i * 16 + 8) 8 i
    writeDtv ptr tlssize tp (i + 1) elfs mem

def setupTLSData (context : Context) (fresh : Fresh) : Area :=
  let dtsize := context.elfs.length * 16
  let tp := context.tlssize.toNat
  let mem := fresh.junk.copy 0 tp context.tlsdata 0
  let mem := mem.fill tp (POS_TLS + dtsize) 0
  let mem := mem.write (tp + 0x28) 8 context.canary.toNat
  let tlsptr := fresh.ptr + BitVec.ofInt 64 context.tlssize
  let mem := (mem.write tp 8 tlsptr.toNat).write (tp + 0x10) 8 tlsptr.toNat
  let mem := mem.write (tp + 8) 8 (tlsptr + BitVec.ofNat 64 POS_TLS).toNat
  let mem := writeDtv fresh.ptr context.tlssize tp 0 context.elfs mem
  let mem := mem.write (tp + 0x20) 8 context.vsyscall.toNat
  ⟨int32 context.tlssize, fresh.ptr, mem⟩

def fillTLSData (context : Context) (fresh : Fresh) : Area := setupTLSData context fresh

/-- The old area copied to the top of a new one. -/
def resizeTLSData (context : Context) (oldata : Area) (fresh : Fresh) : Option Area :=
  let data := setupTLSData context fresh
  if oldata.tlssize < 0 ∨ context.tlssize < oldata.tlssize then none
  else
    let mem := data.mem.copy (context.tlssize - oldata.tlssize).toNat oldata.tlssize.toNat oldata.mem 0
    some { data with mem }

/-- The area a thread has after `GetSeg33Base`, and after `GetTLSPointer` of an ELF with a block. -/
def currentArea (context : Context) (area : Option Area) (first second : Fresh) : Option Area :=
  let ptr := area.getD (fillTLSData context first)
  if ptr.tlssize ≠ context.tlssize then resizeTLSData context ptr second else some ptr

def GetSeg33Base (context : Context) (area : Option Area) (first second : Fresh) : Option (Area × BitVec 64) := do
  let ptr ← currentArea context area first second
  return (ptr, ptr.tlsdata + BitVec.ofInt 64 ptr.tlssize)

def GetTLSPointer (context : Context) (h : Elf) (area : Option Area) (first second : Fresh) :
    Option (Option Area × BitVec 64) :=
  if h.tlssize = 0 then some (area, 0)
  else do
    let ptr ← currentArea context area first second
    return (some ptr, ptr.tlsdata + BitVec.ofInt 64 (ptr.tlssize + h.tlsbase))

/-! ### Runs -/

/-- What the threads do. The calls of a thread come between those of the others in any order. -/
inductive Op
  | addElf (tlssize : BitVec 64)
  | addPartition (h : Nat)
  | loadImage (h : Nat) (file : List (BitVec 8)) (memsz : Nat)
  | getSeg33Base (t : Nat) (first second : Fresh)
  | getTLSPointer (t h : Nat) (first second : Fresh)
  | write (t h off : Nat) (v : BitVec 8)

/-- `written` is not in the code: the byte each thread last wrote at an offset in its block of an ELF. -/
structure State where
  context : Context
  area : Nat → Option Area
  written : Nat → Nat → Nat → Option (BitVec 8)

def step (s : State) : Op → Option State
  | .addElf tlssize => some { s with context := { s.context with elfs := s.context.elfs ++ [⟨tlssize, 0, .added⟩] } }
  | .addPartition h => do
    let e ← s.context.elfs[h]?
    -- `tlssize` is an `int` parameter
    let (context, tlsbase) ← AddTLSPartition s.context (int32 e.tlssize.toNat)
    if e.stage = .added then
      return { s with context := { context with elfs := context.elfs.set h { e with tlsbase, stage := .partitioned } } }
    else none
  | .loadImage h file memsz => do
    let e ← s.context.elfs[h]?
    if e.stage = .partitioned ∧ file.length ≤ memsz ∧ memsz ≤ e.tlssize.toNat then
      let context := Tls.loadImage s.context e.tlsbase file memsz
      return { s with context := { context with elfs := context.elfs.set h { e with stage := .loaded file } } }
    else none
  | .getSeg33Base t first second => do
    let (ptr, _) ← GetSeg33Base s.context (s.area t) first second
    return { s with area := Function.update s.area t (some ptr) }
  | .getTLSPointer t h first second => do
    let e ← s.context.elfs[h]?
    let (ptr, _) ← GetTLSPointer s.context e (s.area t) first second
    return { s with area := Function.update s.area t ptr }
  | .write t h off v => do
    let e ← s.context.elfs[h]?
    let a ← s.area t
    -- only inside the block, and only where the area has it
    if e.stage ≠ .added ∧ off < e.tlssize.toNat ∧ 0 ≤ a.tlssize + e.tlsbase then
      let mem := Function.update a.mem ((a.tlssize + e.tlsbase).toNat + off) v
      let last := Function.update (s.written t h) off (some v)
      return { s with
        area := Function.update s.area t (some { a with mem })
        written := Function.update s.written t (Function.update (s.written t) h last) }
    else none

def start (canary vsyscall : BitVec 64) : State where
  context := ⟨fun _ => 0, 0, [], canary, vsyscall⟩
  area _ := none
  written _ _ _ := none

end Box64.Emu.Tls
