import Box64.Emu.MemOperand
import Box64.Lib.RetryLoop

/-!
# Instructions with a `LOCK` prefix

`RunF0` and `Run66F0` for a memory operand, as compiled with `DYNAREC`. `native_lock_read_X` sees the operand in the
memory of its pass, and `native_lock_write_X` fails once for each memory in `others`, in order.
-/

namespace Box64.Emu

open BitVec RetryLoop

namespace MemInsn

variable (i : MemInsn) (emu : X64Emu) (mem : Memory) (others : List Memory)

/-! ### Loops around an operation -/

/-- `do { tmp = native_lock_read(ED); tmp = OP(emu, tmp, src); } while(native_lock_write(ED, tmp));` with the size of
the store apart. -/
def opPass (w : Width) (stored : Nat) (op : X64Emu → BitVec w.bits → BitVec w.bits × X64Emu) (emu : X64Emu)
    (mem : Memory) : Pass X64Emu Memory :=
  let (tmp, emu) := op emu (mem.load w.bits i.ed)
  ⟨emu, some (mem.store i.ed (tmp.setWidth stored))⟩

def lockOp (w : Width) (op : X64Emu → BitVec w.bits → BitVec w.bits × X64Emu) : Final X64Emu Memory :=
  run (i.opPass w w.bits op) emu mem others

/-- An operand read as all but its low byte, and its low byte by itself. -/
def readUnaligned (n : Nat) (mem : Memory) : BitVec n :=
  (mem.load n i.ed &&& ~~~0xff#n) ||| (mem.load 8 i.ed).setWidth n

/-- The loop for an operand that is not aligned: only the low byte is written by the store that may fail. -/
def unalignedPass (w : Width) (op : X64Emu → BitVec w.bits → BitVec w.bits × X64Emu) (s : X64Emu × BitVec w.bits)
    (mem : Memory) : Pass (X64Emu × BitVec w.bits) Memory :=
  let (tmp, emu) := op s.1 (i.readUnaligned w.bits mem)
  ⟨(emu, tmp), some (mem.store i.ed (tmp.setWidth 8))⟩

/-- The rest of the operand is stored after the loop. -/
def lockUnaligned (w : Width) (op : X64Emu → BitVec w.bits → BitVec w.bits × X64Emu) : Final X64Emu Memory :=
  let final := run (i.unalignedPass w op) (emu, 0) mem others
  ⟨final.state.1, final.seen, final.object.store i.ed final.state.2⟩

/-- The groups `0x80` to `0x83`; `CMP` has no loop. -/
def lockGroup (w : Width) (src : BitVec w.bits) : Final X64Emu Memory :=
  match BinOp.ofIndex i.ext with
  | some op => i.lockOp emu mem others w fun emu d => op.eval w emu d src
  | none => ⟨(cmp w emu (mem.load w.bits i.ed) src).2, mem, mem⟩

/-! ### Bit operations -/

/-- `BTS`: leaves the loop if the bit is set. `set` sets it. -/
def btsPass (w : Width) (ed : BitVec 64) (k : Nat) (set : BitVec w.bits → BitVec w.bits) (emu : X64Emu) (mem : Memory) :
    Pass X64Emu Memory :=
  let tmp := mem.load w.bits ed
  if tmp &&& twoPow w.bits k ≠ 0 then ⟨emu.setCF true, none⟩ else ⟨emu.setCF false, some (mem.store ed (set tmp))⟩

def btrPass (w : Width) (ed : BitVec 64) (k : Nat) (emu : X64Emu) (mem : Memory) : Pass X64Emu Memory :=
  let tmp := mem.load w.bits ed
  if tmp &&& twoPow w.bits k ≠ 0 then ⟨emu.setCF true, some (mem.store ed (tmp ^^^ twoPow w.bits k))⟩
  else ⟨emu.setCF false, none⟩

def btcPass (w : Width) (ed : BitVec 64) (k : Nat) (emu : X64Emu) (mem : Memory) : Pass X64Emu Memory :=
  let tmp := mem.load w.bits ed
  ⟨emu.setCF (tmp &&& twoPow w.bits k != 0), some (mem.store ed (tmp ^^^ twoPow w.bits k))⟩

/-- `((uint32_t*)(ED))+(tmp8u>>5)`, from the low byte of the register alone, and the masked byte. -/
def lockBitOperand : BitVec 64 × Nat :=
  let tmp8u := (emu.regs i.GD).setWidth 8
  (i.ed + 4 * (tmp8u >>> 5).setWidth 64, if i.rex.w then (tmp8u &&& 63).toNat else (tmp8u &&& 31).toNat)

/-- `F8` masked to the operand. -/
def lockBitImm : Nat := if i.rex.w then (i.F8 &&& 63).toNat else (i.F8 &&& 31).toNat

/-! ### Exchanges -/

/-- `CMPXCHG`: leaves the loop if the operand differs from the accumulator. `src` is stored by the function given. -/
def cmpxchgPass (w : Width) (read : Memory → BitVec w.bits) (write : Memory → Memory) (emu : X64Emu) (mem : Memory) :
    Pass X64Emu Memory :=
  let tmp := read mem
  let emu := (cmp w emu (emu.reg w _RAX) tmp).2
  if emu.eflags.ZF then ⟨emu, some (write mem)⟩ else ⟨emu.setReg _RAX tmp, none⟩

def lockCMPXCHG (w : Width) (src : BitVec w.bits) : Final X64Emu Memory :=
  run (cmpxchgPass w (·.load w.bits i.ed) (·.store i.ed src)) emu mem others

def lockCMPXCHG_Ed_Gd : Final X64Emu Memory :=
  if i.rex.w then
    let src := emu.reg .w64 i.GD
    if i.ed &&& 7 ≠ 0 then
      run (cmpxchgPass .w64 (i.readUnaligned 64) fun mem => (mem.store i.ed (src.setWidth 8)).store i.ed src) emu mem others
    else i.lockCMPXCHG emu mem others .w64 src
  else
    let final := i.lockCMPXCHG emu mem others .w32 (emu.reg .w32 i.GD)
    -- `emu->regs[_AX].dword[1] = 0`
    { final with state := final.state.setReg _RAX ((final.state.reg .w32 _RAX).setWidth 64) }

/-- A pass of `XADD`; the state has what was read. -/
def xaddPass (w : Width) (src : X64Emu → BitVec w.bits) (s : X64Emu × BitVec w.bits) (mem : Memory) :
    Pass (X64Emu × BitVec w.bits) Memory :=
  let tmp := mem.load w.bits i.ed
  let (tmp2, emu) := add w s.1 tmp (src s.1)
  ⟨(emu, tmp), some (mem.store i.ed tmp2)⟩

/-- `XADD Gb,Eb`: the register is not written. -/
def lockXADD_Gb_Eb : Final X64Emu Memory :=
  let final := run (i.xaddPass .w8 (·.getByte i.GB)) (emu, 0) mem others
  ⟨final.state.1, final.seen, final.object⟩

/-- A pass of the 32-bit `XADD` of an operand that is not aligned; the state has what was read and the sum. -/
def xaddUnalignedPass (s : X64Emu × BitVec 32 × BitVec 32) (mem : Memory) : Pass (X64Emu × BitVec 32 × BitVec 32) Memory :=
  let tmp32u := i.readUnaligned 32 mem
  let (tmp32u2, emu) := add .w32 s.1 tmp32u (s.1.reg .w32 i.GD)
  ⟨(emu, tmp32u, tmp32u2), some (mem.store i.ed (tmp32u2.setWidth 8))⟩

def lockXADD_Gd_Ed : Final X64Emu Memory :=
  if i.rex.w then
    let final := run (i.xaddPass .w64 (·.reg .w64 i.GD)) (emu, 0) mem others
    ⟨final.state.1.setReg i.GD final.state.2, final.seen, final.object⟩
  else if i.ed &&& 3 ≠ 0 then
    let final := run i.xaddUnalignedPass (emu, 0, 0) mem others
    ⟨final.state.1.setReg i.GD (final.state.2.1.setWidth 64), final.seen, final.object.store i.ed final.state.2.2⟩
  else
    let final := run (i.xaddPass .w32 (·.reg .w32 i.GD)) (emu, 0) mem others
    ⟨final.state.1.setReg i.GD (final.state.2.setWidth 64), final.seen, final.object⟩

/-- A pass of `XCHG`, also of `native_lock_xchg`. -/
def xchgPass (w : Width) (s : X64Emu × BitVec w.bits) (mem : Memory) : Pass (X64Emu × BitVec w.bits) Memory :=
  ⟨(s.1, mem.load w.bits i.ed), some (mem.store i.ed (s.1.reg w i.GD))⟩

def lockXCHG_Ed_Gd (w : Width) : Final X64Emu Memory :=
  let final := run (i.xchgPass w) (emu, 0) mem others
  ⟨final.state.1.setReg i.GD (final.state.2.setWidth 64), final.seen, final.object⟩

/-- A pass of `CMPXCHG16B`. -/
def cmpxchg16Pass (emu : X64Emu) (mem : Memory) : Pass X64Emu Memory :=
  let tmp64u := mem.load 64 i.ed
  let tmp64u2 := mem.load 64 (i.ed + 8)
  if emu.regs _RAX = tmp64u ∧ emu.regs _RDX = tmp64u2 then
    ⟨emu.setZF true, some ((mem.store i.ed (emu.regs _RBX)).store (i.ed + 8) (emu.regs _RCX))⟩
  else ⟨((emu.setZF false).setReg _RAX tmp64u).setReg _RDX tmp64u2, none⟩

/-- A pass of `CMPXCHG8B`. -/
def cmpxchg8Pass (emu : X64Emu) (mem : Memory) : Pass X64Emu Memory :=
  let tmp64u := mem.load 64 i.ed
  if low 32 (emu.regs _RAX) = tmp64u.setWidth 32 ∧ low 32 (emu.regs _RDX) = (tmp64u >>> 32).setWidth 32 then
    ⟨emu.setZF true,
      some (mem.store i.ed ((low 32 (emu.regs _RBX)).setWidth 64 ||| ((low 32 (emu.regs _RCX)).setWidth 64 <<< 32)))⟩
  else ⟨((emu.setZF false).setReg _RAX (tmp64u &&& 0xffffffff)).setReg _RDX ((tmp64u >>> 32) &&& 0xffffffff), none⟩

/-! ### The opcodes -/

/-- `INC` of an operand that is not aligned; `DEC` has this case only with `rex.w`. -/
def lockINC : Final X64Emu Memory :=
  if i.rex.w then
    if i.ed &&& 7 ≠ 0 then i.lockUnaligned emu mem others .w64 (inc .w64) else i.lockOp emu mem others .w64 (inc .w64)
  else if i.ed &&& 3 ≠ 0 then i.lockUnaligned emu mem others .w32 (inc .w32)
  else i.lockOp emu mem others .w32 (inc .w32)

def lockDEC : Final X64Emu Memory :=
  if i.rex.w then
    if i.ed &&& 7 ≠ 0 then i.lockUnaligned emu mem others .w64 (dec .w64) else i.lockOp emu mem others .w64 (dec .w64)
  else i.lockOp emu mem others .w32 (dec .w32)

/-- The cases of `0x0f`. -/
def RunF00F : Option (Final X64Emu Memory) :=
  match i.opcode2.toNat with
  | 0xAB =>
    let emu := CHECK_FLAGS emu
    let (ed, k) := i.lockBitOperand emu
    some (run (btsPass i.width ed k (· ||| twoPow _ k)) emu mem others)
  | 0xB0 => let emu := CHECK_FLAGS emu; some (i.lockCMPXCHG emu mem others .w8 (emu.getByte i.GB))
  | 0xB1 => some (i.lockCMPXCHG_Ed_Gd emu mem others)
  | 0xB3 =>
    let emu := CHECK_FLAGS emu
    let (ed, k) := i.lockBitOperand emu
    some (run (btrPass i.width ed k) emu mem others)
  | 0xBA =>
    let k := i.lockBitImm
    match i.ext with
    | 4 => some ⟨(CHECK_FLAGS emu).setCF (mem.load i.width.bits i.ed &&& twoPow _ k != 0), mem, mem⟩
    | 5 => some (run (btsPass i.width i.ed k (· ^^^ twoPow _ k)) (CHECK_FLAGS emu) mem others)
    | 6 => some (run (btrPass i.width i.ed k) (CHECK_FLAGS emu) mem others)
    | 7 => some (run (btcPass i.width i.ed k) (CHECK_FLAGS emu) mem others)
    | _ => none
  | 0xC0 => some (i.lockXADD_Gb_Eb emu mem others)
  | 0xC1 => some (i.lockXADD_Gd_Ed emu mem others)
  | 0xC7 =>
    if i.ext = 1 then some (run (if i.rex.w then i.cmpxchg16Pass else i.cmpxchg8Pass) (CHECK_FLAGS emu) mem others)
    else none
  | _ => none

/-- The immediate of `0x81` and `0x83`, a signed 64-bit number, as the operation takes it. -/
def lockImm (w : Width) : BitVec w.bits :=
  let tmp64u := if i.opcode = 0x83 then i.F8.signExtend 64 else i.imm.signExtend 64
  tmp64u.setWidth w.bits

def RunF0 : Option (Final X64Emu Memory) :=
  match i.opcode.toNat with
  | 0x0f => i.RunF00F emu mem others
  | 0x80 => some (i.lockGroup emu mem others .w8 i.F8)
  | 0x81 | 0x83 => some (i.lockGroup emu mem others i.width (i.lockImm i.width))
  | 0x87 => some (i.lockXCHG_Ed_Gd emu mem others i.width)
  | 0xFF =>
    match i.ext with
    | 0 => some (i.lockINC emu mem others)
    | 1 => some (i.lockDEC emu mem others)
    | _ => none
  | _ =>
    match GO i.opcode with
    | some (op, 0) => some (i.lockOp emu mem others .w8 fun emu d => op.eval .w8 emu d (emu.getByte i.GB))
    | some (op, 1) => some (i.lockOp emu mem others i.width fun emu d => op.eval i.width emu d (emu.reg i.width i.GD))
    | _ => none

end MemInsn

/-- What `RunF0` finds where it is called: an instruction with an operand in memory, or another one. -/
inductive Behind
  | memory (i : MemInsn)
  | other (run : X64Emu → Memory → List Memory → Option (Final X64Emu Memory))

def Behind.RunF0 (emu : X64Emu) (mem : Memory) (others : List Memory) : Behind → Option (Final X64Emu Memory)
  | memory i => i.RunF0 emu mem others
  | other run => run emu mem others

namespace MemInsn

variable (i : MemInsn) (emu : X64Emu) (mem : Memory) (others : List Memory)

/-- The immediate of the 16-bit groups. -/
def lockImm16 : BitVec 16 :=
  let tmp64s := if i.opcode = 0x83 then i.F8.signExtend 64 else (i.imm.setWidth 16).signExtend 64
  tmp64s.setWidth 16

/-- `behind` is what stands behind the opcode. -/
def Run66F0 (behind : Behind) : Option (Final X64Emu Memory) :=
  -- the opcode is fetched already, and `RunF0` fetches another one
  if i.rex.w then behind.RunF0 emu mem others else
  match i.opcode.toNat with
  | 0x0f => if i.opcode2 = 0xB1 then some (i.lockCMPXCHG emu mem others .w16 (emu.reg .w16 i.GD)) else none
  | 0x81 | 0x83 => some (i.lockGroup emu mem others .w16 i.lockImm16)
  | 0xFF =>
    match i.ext with
    | 0 =>
      if i.ed &&& 1 ≠ 0 then some (i.lockUnaligned emu mem others .w16 (inc .w16))
      else some (i.lockOp emu mem others .w16 (inc .w16))
    | 1 => some (i.lockOp emu mem others .w16 (dec .w16))
    | _ => none
  | _ =>
    match GO i.opcode with
    | some (op, 1) =>
      -- read by `native_lock_read_h`, written by `native_lock_write_d`
      some (run (i.opPass .w16 32 fun emu d => op.eval .w16 emu d (emu.reg .w16 i.GD)) emu mem others)
    | _ => none

end MemInsn

end Box64.Emu
