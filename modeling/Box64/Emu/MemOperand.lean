import Box64.Emu.Primop
import Box64.Lib.WordMemory

/-!
# Instructions with a memory operand

What `Run`, `RunF0` and the functions they call for the prefixes read of an instruction once its operand's address is
computed, and the parts of `x64emu_t` these instructions address.
-/

namespace Box64.Emu

open BitVec

def _RCX : Fin 16 := 1
def _RBX : Fin 16 := 3

/-! ### Registers -/

/-- The `rex` prefix, 0 if there is none. -/
structure Rex where
  rex : BitVec 8

def Rex.r (rex : Rex) : Bool := rex.rex.getLsbD 2

def Rex.w (rex : Rex) : Bool := rex.rex.getLsbD 3

/-- A byte of a general register, the second one for `AH` to `BH`. -/
structure ByteReg where
  reg : Fin 16
  high : Bool

/-- `((v&0x38)>>3)+(rex.r<<3)`. -/
def GetGd (rex : Rex) (v : BitVec 8) : Fin 16 :=
  Fin.ofNat 16 (((v &&& 0x38) >>> 3).toNat + if rex.r then 8 else 0)

def GetGb (rex : Rex) (v : BitVec 8) : ByteReg :=
  let m := (v &&& 0x38) >>> 3
  if rex.rex ≠ 0 then ⟨Fin.ofNat 16 ((m &&& 7).toNat + if rex.r then 8 else 0), false⟩
  else ⟨Fin.ofNat 16 (m &&& 3).toNat, m.getLsbD 2⟩

namespace X64Emu

variable (emu : X64Emu)

def getByte (g : ByteReg) : BitVec 8 := (emu.regs g.reg).extractLsb' (if g.high then 8 else 0) 8

/-- The register with the byte replaced. -/
def putByte (g : ByteReg) (v : BitVec 8) : BitVec 64 :=
  let k := if g.high then 8 else 0
  (emu.regs g.reg &&& ~~~((0xff#64) <<< k)) ||| (v.setWidth 64 <<< k)

def setByte (g : ByteReg) (v : BitVec 8) : X64Emu :=
  { emu with regs := Function.update emu.regs g.reg (emu.putByte g v) }

def setCF (b : Bool) : X64Emu := { emu with eflags := { emu.eflags with CF := b } }

def setZF (b : Bool) : X64Emu := { emu with eflags := { emu.eflags with ZF := b } }

/-- The low `w` bits of a general register. -/
def reg (w : Width) (r : Fin 16) : BitVec w.bits := low w.bits (emu.regs r)

end X64Emu

/-! ### Instructions -/

/-- An instruction with a memory operand: its opcode, the second byte of the opcode where the first is `0x0f`, the
`ModRM` byte, the address of the operand and the bytes of the immediate. -/
structure MemInsn where
  rex : Rex
  opcode : BitVec 8
  opcode2 : BitVec 8
  nextop : BitVec 8
  ed : BitVec 64
  imm : BitVec 32

namespace MemInsn

variable (i : MemInsn)

/-- `F8` where the immediate stands. -/
def F8 : BitVec 8 := i.imm.setWidth 8

/-- `(nextop>>3)&7`. -/
def ext : Nat := ((i.nextop >>> 3) &&& 7).toNat

/-- The operand size without `0x66`. -/
def width : Width := if i.rex.w then .w64 else .w32

/-- The operand size with `0x66`. -/
def width66 : Width := if i.rex.w then .w64 else .w16

def GB : ByteReg := GetGb i.rex i.nextop

def GD : Fin 16 := GetGd i.rex i.nextop

end MemInsn

/-! ### The binary operations -/

inductive BinOp
  | add
  | or
  | adc
  | sbb
  | and
  | sub
  | xor
  deriving DecidableEq

namespace BinOp

/-- In the order of the opcodes and of the `/r` field of `0x80` to `0x83`. -/
def ofIndex : Nat → Option BinOp
  | 0 => some add
  | 1 => some or
  | 2 => some adc
  | 3 => some sbb
  | 4 => some and
  | 5 => some sub
  | 6 => some xor
  | _ => none

def eval (w : Width) (emu : X64Emu) (d s : BitVec w.bits) : BinOp → BitVec w.bits × X64Emu
  | add => Emu.add w emu d s
  | or => Emu.or w emu d s
  | adc => Emu.adc w emu d s
  | sbb => Emu.sbb w emu d s
  | and => Emu.and w emu d s
  | sub => Emu.sub w emu d s
  | xor => Emu.xor w emu d s

end BinOp

/-- The opcodes of `GO(B, OP)`: the operation, and the offset from `B`. -/
def GO (opcode : BitVec 8) : Option (BinOp × Nat) :=
  (BinOp.ofIndex (opcode.toNat / 8)).map fun op => (op, opcode.toNat % 8)

end Box64.Emu
