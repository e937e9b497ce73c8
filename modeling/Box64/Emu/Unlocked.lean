import Box64.Emu.MemOperand

/-!
# Instructions without a `LOCK` prefix

The cases of `Run`, `Run0F`, `Run66` and `Run660F` that read and write a memory operand and have a locked form; the
other opcodes are `none`.
-/

namespace Box64.Emu

open BitVec

namespace MemInsn

variable (i : MemInsn) (emu : X64Emu) (mem : Memory)

/-- `ED = OP(emu, ED, src)`. -/
def modify (w : Width) (op : X64Emu → BitVec w.bits → BitVec w.bits × X64Emu) : X64Emu × Memory :=
  let (res, emu) := op emu (mem.load w.bits i.ed)
  (emu, mem.store i.ed res)

/-- The groups `0x80` to `0x83`. -/
def group (w : Width) (src : BitVec w.bits) : X64Emu × Memory :=
  match BinOp.ofIndex i.ext with
  | some op => i.modify emu mem w fun emu d => op.eval w emu d src
  | none => ((cmp w emu (mem.load w.bits i.ed) src).2, mem)

/-- What `BTS` and `BTR` make of a register: the word at this distance from the operand, and the bit of it. -/
def bitOperand : BitVec 64 × Nat :=
  let tmp32s := emu.reg .w32 i.GD
  if i.rex.w then (i.ed + ((tmp32s.sshiftRight 6) <<< 3).signExtend 64, (tmp32s &&& 63).toNat)
  else (i.ed + ((tmp32s.sshiftRight 5) <<< 2).signExtend 64, (tmp32s &&& 31).toNat)

/-- `F8` masked to the operand. -/
def bitImm : Nat := if i.rex.w then (i.F8 &&& 63).toNat else (i.F8 &&& 31).toNat

def BTS (w : Width) (ed : BitVec 64) (k : Nat) : X64Emu × Memory :=
  let tmp := mem.load w.bits ed
  if tmp &&& twoPow w.bits k ≠ 0 then (emu.setCF true, mem) else (emu.setCF false, mem.store ed (tmp ||| twoPow w.bits k))

/-- `BTS Ed,Ib`. -/
def BTS_Ib (w : Width) (k : Nat) : X64Emu × Memory :=
  let tmp := mem.load w.bits i.ed
  if tmp &&& twoPow w.bits k ≠ 0 then (emu.setCF true, mem)
  else (emu.setCF false, mem.store i.ed (tmp ^^^ twoPow w.bits k))

def BTR (w : Width) (ed : BitVec 64) (k : Nat) : X64Emu × Memory :=
  let tmp := mem.load w.bits ed
  if tmp &&& twoPow w.bits k ≠ 0 then (emu.setCF true, mem.store ed (tmp ^^^ twoPow w.bits k)) else (emu.setCF false, mem)

def BTC_Ib (w : Width) (k : Nat) : X64Emu × Memory :=
  let tmp := mem.load w.bits i.ed
  (emu.setCF (tmp &&& twoPow w.bits k != 0), mem.store i.ed (tmp ^^^ twoPow w.bits k))

def BT_Ib (w : Width) (k : Nat) : X64Emu × Memory :=
  (emu.setCF (mem.load w.bits i.ed &&& twoPow w.bits k != 0), mem)

/-- `CMPXCHG` of 8, 16 and 64 bits. -/
def CMPXCHG (w : Width) (src : BitVec w.bits) : X64Emu × Memory :=
  let tmp := mem.load w.bits i.ed
  let emu := (cmp w emu (emu.reg w _RAX) tmp).2
  if emu.eflags.ZF then (emu, mem.store i.ed src) else (emu.setReg _RAX tmp, mem)

def CMPXCHG_Ed_Gd : X64Emu × Memory :=
  if i.rex.w then i.CMPXCHG emu mem .w64 (emu.reg .w64 i.GD) else
    let tmp := mem.load 32 i.ed
    let emu := (cmp .w32 emu (low 32 (emu.regs _RAX)) tmp).2
    -- "to erase upper part of RAX"
    let emu := emu.setReg _RAX (tmp.setWidth 64)
    if emu.eflags.ZF then (emu, mem.store i.ed (emu.reg .w32 i.GD)) else (emu, mem)

def XADD_Gb_Eb : X64Emu × Memory :=
  let (tmp8u, emu) := add .w8 emu (mem.load 8 i.ed) (emu.getByte i.GB)
  (emu.setByte i.GB (mem.load 8 i.ed), mem.store i.ed tmp8u)

def XADD_Gd_Ed (w : Width) : X64Emu × Memory :=
  let (tmp, emu) := add w emu (mem.load w.bits i.ed) (emu.reg w i.GD)
  (emu.setReg i.GD ((mem.load w.bits i.ed).setWidth 64), mem.store i.ed tmp)

/-- With `rex.w` the source stores `R_EBX` and `R_ECX`. -/
def CMPXCHG8B : X64Emu × Memory :=
  let emu := CHECK_FLAGS emu
  if i.rex.w then
    let tmp64u := mem.load 64 i.ed
    let tmp64u2 := mem.load 64 (i.ed + 8)
    if emu.regs _RAX = tmp64u ∧ emu.regs _RDX = tmp64u2 then
      (emu.setZF true,
        (mem.store i.ed ((low 32 (emu.regs _RBX)).setWidth 64)).store (i.ed + 8) ((low 32 (emu.regs _RCX)).setWidth 64))
    else (((emu.setZF false).setReg _RAX tmp64u).setReg _RDX tmp64u2, mem)
  else
    let tmp32u := mem.load 32 i.ed
    let tmp32u2 := mem.load 32 (i.ed + 4)
    if low 32 (emu.regs _RAX) = tmp32u ∧ low 32 (emu.regs _RDX) = tmp32u2 then
      (emu.setZF true, (mem.store i.ed (low 32 (emu.regs _RBX))).store (i.ed + 4) (low 32 (emu.regs _RCX)))
    else (((emu.setZF false).setReg _RAX (tmp32u.setWidth 64)).setReg _RDX (tmp32u2.setWidth 64), mem)

/-- `XCHG Ed,Gd`, which locks by itself; here in one go. -/
def XCHG_Ed_Gd (w : Width) : X64Emu × Memory :=
  (emu.setReg i.GD ((mem.load w.bits i.ed).setWidth 64), mem.store i.ed (emu.reg w i.GD))

/-! ### The opcodes -/

def Run0F : Option (X64Emu × Memory) :=
  match i.opcode2.toNat with
  | 0xAB => let emu := CHECK_FLAGS emu; let (ed, k) := i.bitOperand emu; some (BTS emu mem i.width ed k)
  | 0xB0 => some (i.CMPXCHG emu mem .w8 (emu.getByte i.GB))
  | 0xB1 => some (i.CMPXCHG_Ed_Gd emu mem)
  | 0xB3 => let emu := CHECK_FLAGS emu; let (ed, k) := i.bitOperand emu; some (BTR emu mem i.width ed k)
  | 0xBA =>
    match i.ext with
    | 4 => some (i.BT_Ib (CHECK_FLAGS emu) mem i.width i.bitImm)
    | 5 => some (i.BTS_Ib (CHECK_FLAGS emu) mem i.width i.bitImm)
    | 6 => some (BTR (CHECK_FLAGS emu) mem i.width i.ed i.bitImm)
    | 7 => some (i.BTC_Ib (CHECK_FLAGS emu) mem i.width i.bitImm)
    | _ => none
  | 0xC0 => some (i.XADD_Gb_Eb emu mem)
  | 0xC1 => some (i.XADD_Gd_Ed emu mem i.width)
  | 0xC7 => if i.ext = 1 then some (i.CMPXCHG8B emu mem) else none
  | _ => none

/-- The immediate of `0x81` and `0x83`: a signed 32-bit number, widened with `rex.w`. -/
def imm81 (w : Width) : BitVec w.bits :=
  let tmp32s := if i.opcode = 0x81 then i.imm else i.F8.signExtend 32
  tmp32s.signExtend w.bits

def Run : Option (X64Emu × Memory) :=
  match i.opcode.toNat with
  | 0x0f => i.Run0F emu mem
  | 0x80 => some (i.group emu mem .w8 i.F8)
  | 0x81 | 0x83 => some (i.group emu mem i.width (i.imm81 i.width))
  | 0x87 => some (i.XCHG_Ed_Gd emu mem i.width)
  | 0xFF =>
    match i.ext with
    | 0 => some (i.modify emu mem i.width (inc i.width))
    | 1 => some (i.modify emu mem i.width (dec i.width))
    | _ => none
  | _ =>
    match GO i.opcode with
    | some (op, 0) => some (i.modify emu mem .w8 fun emu d => op.eval .w8 emu d (emu.getByte i.GB))
    | some (op, 1) => some (i.modify emu mem i.width fun emu d => op.eval i.width emu d (emu.reg i.width i.GD))
    | _ => none

/-- With the prefix `0x66`: the groups and `0xFF` do not look at `rex.w`. -/
def Run66 : Option (X64Emu × Memory) :=
  match i.opcode.toNat with
  | 0x0f => if i.opcode2 = 0xB1 then some (i.CMPXCHG emu mem i.width66 (emu.reg i.width66 i.GD)) else none
  | 0x81 => some (i.group emu mem .w16 (i.imm.setWidth 16))
  | 0x83 => some (i.group emu mem .w16 (i.F8.signExtend 16))
  | 0xFF =>
    match i.ext with
    | 0 => some (i.modify emu mem .w16 (inc .w16))
    | 1 => some (i.modify emu mem .w16 (dec .w16))
    | _ => none
  | _ =>
    match GO i.opcode with
    | some (op, 1) => some (i.modify emu mem i.width66 fun emu d => op.eval i.width66 emu d (emu.reg i.width66 i.GD))
    | _ => none

end MemInsn

end Box64.Emu
