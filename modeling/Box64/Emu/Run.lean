import Box64.Emu.Address
import Box64.Emu.Division
import Box64.Emu.Unlocked

/-!
# Instructions that write a general register

The cases of `Run`, `Run0F` and `RunF30F` without the prefix `0x66` that compute a register or memory operand: what they
leave in the registers, the flags and the memory.
-/

namespace Box64.Emu

open BitVec AddressForm

/-! ### Operands -/

/-- An instruction whose operand may also be a register, with the prefix `0xF2` or `0xF3` as 1 or 2. -/
structure Insn extends MemInsn where
  rep : Nat

/-- What the conversions of `RunF30F` give for `EX->f[0]`, for the rounding in `mxcsr`: a rounding function of the host
and a conversion to an integer. -/
structure Sse where
  mxcsr : BitVec 32
  toInt : (rounding : BitVec 2) → (w : Width) → BitVec w.bits

def ROUND_Chop : BitVec 2 := 3

def Sse.rounding (sse : Sse) : BitVec 2 := (sse.mxcsr >>> 13).setWidth 2

namespace X64Emu

variable (emu : X64Emu) (r : Fin 16)

/-- `q[0] = v`. -/
def setWhole {n : Nat} (v : BitVec n) : X64Emu := emu.setReg r (v.setWidth 64)

/-- `dword[1] = 0`. -/
def clearHigh : X64Emu := emu.setWhole r (emu.reg .w32 r)

end X64Emu

namespace Insn

variable (i : Insn) (w : Width) (emu : X64Emu) (mem : Memory)

def MODREG : Bool := i.nextop &&& 0xC0 == 0xC0

/-- The register `ED` points to. -/
def edReg : Fin 16 := regNumber i.nextop i.rex.b

/-- The byte `EB` points to. -/
def ebByte : ByteReg :=
  if i.rex.rex ≠ 0 then ⟨i.edReg, false⟩ else ⟨Fin.ofNat 16 (i.nextop &&& 3).toNat, i.nextop.getLsbD 2⟩

def ED : BitVec w.bits := if i.MODREG then emu.reg w i.edReg else mem.load w.bits i.ed

def EB : BitVec 8 := if i.MODREG then emu.getByte i.ebByte else mem.load 8 i.ed

/-- `ED->q[0]` of a register, `ED->dword[0]` or `ED->q[0]` of memory. -/
def setED {n : Nat} (v : BitVec n) : X64Emu × Memory :=
  if i.MODREG then (emu.setWhole i.edReg v, mem) else (emu, mem.store i.ed v)

/-- `ED->dword[0]` or `ED->q[0]`, wherever it is. -/
def putED {n : Nat} (v : BitVec n) : X64Emu × Memory :=
  if i.MODREG then (emu.setReg i.edReg v, mem) else (emu, mem.store i.ed v)

def setGD {n : Nat} (v : BitVec n) : X64Emu := emu.setWhole i.GD v

/-- `GD->sdword[0] = v` with `GD->dword[1] = 0`, or `GD->sq[0] = v`. -/
def setSignedGD (v : BitVec w.bits) : X64Emu :=
  match w with
  | .w64 => emu.setReg i.GD v
  | _ => (emu.setReg i.GD v).clearHigh i.GD

end Insn

/-! ### Operations -/

/-- `BTS` of `Run0F` with a register and with an immediate, `BTR` and `BTC`. -/
inductive BitOp where
  | BTS_Gd
  | BTS_Ib
  | BTR
  | BTC
  deriving DecidableEq

/-- What is stored, if anything. -/
def BitOp.eval {n : Nat} (tmp : BitVec n) (k : Nat) : BitOp → Option (BitVec n)
  | BTS_Gd => if tmp.getLsbD k then none else some (tmp ||| twoPow n k)
  | BTS_Ib => if tmp.getLsbD k then none else some (tmp ^^^ twoPow n k)
  | BTR => if tmp.getLsbD k then some (tmp ^^^ twoPow n k) else none
  | BTC => some (tmp ^^^ twoPow n k)

/-- Where a shift takes its count from. -/
inductive Count where
  | Ib
  | one
  | CL
  deriving DecidableEq

/-- An operation of the switches, for the operands the opcode names. -/
inductive Op where
  | OP_Ed_Gd (op : BinOp)
  | OP_Gd_Ed (op : BinOp)
  | OP_EAX_Id (op : BinOp)
  | MOVSXD
  | IMUL_Gd_Ed_Id
  | IMUL_Gd_Ed_Ib
  | GRP_Ed_Id (op : BinOp)
  | GRP2_Ed (count : Count)
  | NOT_Ed
  | NEG_Ed
  /-- `MUL` and `IMUL` of the accumulator. -/
  | MUL_Ed (sg : Signedness)
  /-- `DIV` and `IDIV`. -/
  | DIV_Ed (sg : Signedness)
  | INC_Ed
  | DEC_Ed
  | CMOV (cond : Nat)
  | SHLD (count : Count)
  | SHRD (count : Count)
  | BIT_Ed_Gd (op : BitOp)
  | BIT_Ed_Ib (op : BitOp)
  | IMUL_Gd_Ed
  | MOVZX_Gd_Eb
  | MOVZX_Gd_Ew
  | MOVSX_Gd_Eb
  | MOVSX_Gd_Ew
  | BSF
  | BSR
  | XADD
  | BSWAP
  | POPCNT
  | TZCNT
  | LZCNT
  | CVTTSS2SI
  | CVTSS2SI

/-- The `/r` field of `0xC1`, `0xD1` and `0xD3`. -/
def shiftOp (w : Width) (emu : X64Emu) (d : BitVec w.bits) (s : BitVec 8) : Nat → BitVec w.bits × X64Emu
  | 0 => rol w emu d s
  | 1 => ror w emu d s
  | 2 => rcl w emu d s
  | 3 => rcr w emu d s
  | 5 => shr w emu d s
  | 7 => sar w emu d s
  | _ => shl w emu d s

/-- The conditions of `GOCOND`. -/
def X64Flags.cond (f : X64Flags) : Nat → Bool
  | 0x0 => f.OF
  | 0x1 => !f.OF
  | 0x2 => f.CF
  | 0x3 => !f.CF
  | 0x4 => f.ZF
  | 0x5 => !f.ZF
  | 0x6 => f.ZF || f.CF
  | 0x7 => !(f.ZF || f.CF)
  | 0x8 => f.SF
  | 0x9 => !f.SF
  | 0xA => f.PF
  | 0xB => !f.PF
  | 0xC => f.SF != f.OF
  | 0xD => f.SF == f.OF
  | 0xE => f.ZF || f.SF != f.OF
  | _ => !f.ZF && f.SF == f.OF

/-- `while(!(x&(1<<k))) ++k`, in no more steps than given. -/
def scanUp {n : Nat} (x : BitVec n) (k : Nat) : Nat → Nat
  | 0 => k
  | steps + 1 => if x.getLsbD k then k else scanUp x (k + 1) steps

/-- `while(!(x&(1<<k))) --k`. -/
def scanDown {n : Nat} (x : BitVec n) : Nat → Nat
  | 0 => 0
  | k + 1 => if x.getLsbD (k + 1) then k + 1 else scanDown x k

/-- `__builtin_bswap32` and `__builtin_bswap64`. -/
def bswap {n : Nat} (x : BitVec n) : Nat → BitVec n
  | 0 => 0
  | bytes + 1 => (bswap (x >>> 8) bytes) ||| ((x &&& 0xff) <<< (8 * bytes))

namespace Insn

variable (i : Insn)

/-! ### The switches -/

def opF30F : Option Op :=
  match i.opcode2.toNat with
  | 0x2C => some .CVTTSS2SI
  | 0x2D => some .CVTSS2SI
  | 0xB8 => some .POPCNT
  | 0xBC => some .TZCNT
  | 0xBD => some .LZCNT
  | _ => none

def op0F : Option Op :=
  if i.opcode2 &&& 0xF0 = 0x40 then some (.CMOV (i.opcode2 &&& 0x0F).toNat)
  else if i.opcode2 &&& 0xF8 = 0xC8 then some .BSWAP
  else
    match i.opcode2.toNat with
    | 0xA4 => some (.SHLD .Ib)
    | 0xA5 => some (.SHLD .CL)
    | 0xAB => some (.BIT_Ed_Gd .BTS_Gd)
    | 0xAC => some (.SHRD .Ib)
    | 0xAD => some (.SHRD .CL)
    | 0xAF => some .IMUL_Gd_Ed
    | 0xB3 => some (.BIT_Ed_Gd .BTR)
    | 0xB6 => some .MOVZX_Gd_Eb
    | 0xB7 => some .MOVZX_Gd_Ew
    | 0xBA =>
      match i.ext with
      | 5 => some (.BIT_Ed_Ib .BTS_Ib)
      | 6 => some (.BIT_Ed_Ib .BTR)
      | 7 => some (.BIT_Ed_Ib .BTC)
      | _ => none
    | 0xBB => some (.BIT_Ed_Gd .BTC)
    | 0xBC => some .BSF
    | 0xBD => some .BSR
    | 0xBE => some .MOVSX_Gd_Eb
    | 0xBF => some .MOVSX_Gd_Ew
    | 0xC1 => some .XADD
    | _ => none

/-- The operation, if it is one of those above. -/
def op : Option Op :=
  match i.opcode.toNat with
  | 0x0F => if i.rep = 1 then none else if i.rep = 2 then i.opF30F else i.op0F
  | 0x63 => some .MOVSXD
  | 0x69 => some .IMUL_Gd_Ed_Id
  | 0x6B => some .IMUL_Gd_Ed_Ib
  | 0x81 | 0x83 => (BinOp.ofIndex i.ext).map .GRP_Ed_Id
  | 0xC1 => some (.GRP2_Ed .Ib)
  | 0xD1 => some (.GRP2_Ed .one)
  | 0xD3 => some (.GRP2_Ed .CL)
  | 0xF7 =>
    match i.ext with
    | 2 => some .NOT_Ed
    | 3 => some .NEG_Ed
    | 4 => some (.MUL_Ed .unsigned)
    | 5 => some (.MUL_Ed .signed)
    | 6 => some (.DIV_Ed .unsigned)
    | 7 => some (.DIV_Ed .signed)
    | _ => none
  | 0xFF =>
    match i.ext with
    | 0 => some .INC_Ed
    | 1 => some .DEC_Ed
    | _ => none
  | _ =>
    match GO i.opcode with
    | some (op, 1) => some (.OP_Ed_Gd op)
    | some (op, 3) => some (.OP_Gd_Ed op)
    | some (op, 5) => some (.OP_EAX_Id op)
    | _ => none

section Exec

variable (w : Width) (emu : X64Emu) (mem : Memory)

/-- `ED = OP(emu, ED)`. -/
def modifyED (op : X64Emu → BitVec w.bits → BitVec w.bits × X64Emu) : X64Emu × Memory :=
  let (v, emu') := op emu (i.ED w emu mem)
  i.setED emu' mem v

def count (emu : X64Emu) : Count → BitVec 8
  | .Ib => i.F8
  | .one => 1
  | .CL => low 8 (emu.regs _RCX)

/-- `ED` moved to the word that holds the bit a register gives, and the bit of it. -/
def bitOperand : Insn × Nat :=
  let tmp32s := emu.reg .w32 i.GD
  let (words, bit) :=
    match w with
    | .w64 => ((tmp32s.sshiftRight 6) <<< 3, tmp32s &&& 63)
    | _ => ((tmp32s.sshiftRight 5) <<< 2, tmp32s &&& 31)
  (if i.MODREG then i else { i with ed := i.ed + words.signExtend 64 }, bit.toNat)

def bitImm : Nat :=
  match w with
  | .w64 => (i.F8 &&& 63).toNat
  | _ => (i.F8 &&& 31).toNat

/-- A bit of `ED` read into `CF` and changed. -/
def bit (op : BitOp) (k : Nat) : X64Emu × Memory :=
  let tmp := i.ED w emu mem
  let emu := emu.setCF (tmp.getLsbD k)
  match op.eval tmp k with
  | some v => i.putED emu mem v
  | none => (emu, mem)

/-- `BSF` and `BSR`: the bit found, if there is one. -/
def scan (found : Nat) : X64Emu :=
  let emu := CHECK_FLAGS emu
  if i.ED w emu mem ≠ 0 then i.setGD (emu.setZF false) (BitVec.ofNat 8 found) else emu.setZF true

def countFlags (emu : X64Emu) (zero carry : Bool) : X64Emu :=
  { emu with eflags := { emu.eflags with ZF := zero, CF := carry } }

/-- What an operation leaves, `none` where it raises an error or the host's division is undefined. -/
def exec (sse : Sse) : Op → Option (X64Emu × Memory)
  | .OP_Ed_Gd op => some (i.modifyED w emu mem fun emu d => op.eval w emu d (emu.reg w i.GD))
  | .OP_Gd_Ed op =>
    let (v, emu') := op.eval w emu (emu.reg w i.GD) (i.ED w emu mem)
    some (i.setGD emu' v, mem)
  | .OP_EAX_Id op =>
    let (v, emu') := op.eval w emu (emu.reg w _RAX) (i.imm.signExtend w.bits)
    some (emu'.setWhole _RAX v, mem)
  | .MOVSXD =>
    match w with
    | .w64 => some (emu.setReg i.GD ((i.ED .w32 emu mem).signExtend 64), mem)
    | _ =>
      if i.MODREG then some (i.setGD emu (i.ED .w32 emu mem), mem)
      else some (emu.setReg i.GD (i.ED .w32 emu mem), mem)
  | .IMUL_Gd_Ed_Id =>
    let (v, emu') := imul w emu (i.ED w emu mem) (i.imm.signExtend w.bits)
    some (i.setGD emu' v, mem)
  | .IMUL_Gd_Ed_Ib =>
    let (v, emu') := imul w emu (i.ED w emu mem) (i.F8.signExtend w.bits)
    some (i.setGD emu' v, mem)
  | .GRP_Ed_Id op => some (i.modifyED w emu mem fun emu d => op.eval w emu d (i.imm81 w))
  | .GRP2_Ed count => some (i.modifyED w emu mem fun emu d => shiftOp w emu d (i.count emu count) i.ext)
  | .NOT_Ed => some (i.modifyED w emu mem (not w))
  | .NEG_Ed => some (i.modifyED w emu mem (neg w))
  | .MUL_Ed sg =>
    let emu' :=
      match sg with
      | .unsigned => mul w emu (i.ED w emu mem)
      | .signed => imulAcc w emu (i.ED w emu mem)
    some (if w = .w64 then emu' else emu'.clearHigh _RAX, mem)
  | .DIV_Ed sg =>
    match sg.divide w emu (i.ED w emu mem) with
    | .done emu' => some (emu', mem)
    | _ => none
  | .INC_Ed => some (i.modifyED w emu mem (inc w))
  | .DEC_Ed => some (i.modifyED w emu mem (dec w))
  | .CMOV cond =>
    let emu := CHECK_FLAGS emu
    if emu.eflags.cond cond then some (i.setGD emu (i.ED w emu mem), mem)
    else some (if w = .w64 then emu else emu.clearHigh i.GD, mem)
  | .SHLD count => some (i.modifyED w emu mem fun emu d => shld w emu d (emu.reg w i.GD) (i.count emu count))
  | .SHRD count => some (i.modifyED w emu mem fun emu d => shrd w emu d (emu.reg w i.GD) (i.count emu count))
  | .BIT_Ed_Gd op =>
    let emu := CHECK_FLAGS emu
    let (i, k) := i.bitOperand w emu
    let (emu, mem) := i.bit w emu mem op k
    some (if w ≠ .w64 ∧ i.MODREG then emu.clearHigh i.edReg else emu, mem)
  | .BIT_Ed_Ib op => some (i.bit w (CHECK_FLAGS emu) mem op (i.bitImm w))
  | .IMUL_Gd_Ed =>
    let (v, emu') := imul w emu (emu.reg w i.GD) (i.ED w emu mem)
    some (i.setGD emu' v, mem)
  | .MOVZX_Gd_Eb => some (i.setGD emu (i.EB emu mem), mem)
  | .MOVZX_Gd_Ew => some (i.setGD emu (i.ED .w16 emu mem), mem)
  | .MOVSX_Gd_Eb => some (i.setSignedGD w emu ((i.EB emu mem).signExtend w.bits), mem)
  | .MOVSX_Gd_Ew => some (i.setSignedGD w emu ((i.ED .w16 emu mem).signExtend w.bits), mem)
  | .BSF => some (i.scan w emu mem (scanUp (i.ED w emu mem) 0 w.bits), mem)
  | .BSR => some (i.scan w emu mem (scanDown (i.ED w emu mem) (w.bits - 1)), mem)
  | .XADD =>
    let d := i.ED w emu mem
    let (v, emu') := add w emu d (emu.reg w i.GD)
    some (i.setED (i.setGD emu' d) mem v)
  | .BSWAP =>
    let r := regNumber i.opcode2 i.rex.b
    some (emu.setWhole r (bswap (emu.reg w r) (w.bits / 8)), mem)
  | .POPCNT =>
    let v := (i.ED w emu mem).cpop
    let emu := i.setGD (RESET_FLAGS emu) v
    some ({ emu with eflags := ⟨false, false, false, v == 0, false, false⟩ }, mem)
  | .TZCNT =>
    let emu := CHECK_FLAGS emu
    let d := i.ED w emu mem
    if d ≠ 0 then
      let k := scanUp d 0 w.bits
      some (countFlags (emu.setReg i.GD (BitVec.ofNat w.bits k)) (k == 0) false, mem)
    else some (countFlags (emu.setReg i.GD (BitVec.ofNat w.bits w.bits)) false true, mem)
  | .LZCNT =>
    let emu := CHECK_FLAGS emu
    let v := (i.ED w emu mem).clz.setWidth 8
    some (i.setGD (countFlags emu (v == 0) (v.toNat == w.bits)) v, mem)
  | .CVTTSS2SI => some (i.setSignedGD w emu (sse.toInt ROUND_Chop w), mem)
  | .CVTSS2SI => some (i.setSignedGD w emu (sse.toInt sse.rounding w), mem)

/-- The instruction with its `REX` prefix. -/
def Run (sse : Sse) : Option (X64Emu × Memory) := i.op.bind (i.exec i.width emu mem sse)

end Exec

end Insn

end Box64.Emu
