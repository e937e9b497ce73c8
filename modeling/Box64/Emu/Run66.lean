import Box64.Emu.LongDouble
import Box64.Emu.Run
import Box64.Emu.StringOps
import Box64.Emu.X87

/-!
# The one-byte map with the prefix `0x66`

The cases of `Run66` that it does not hand to the functions for other maps, and the cases of `Run` for the same opcodes. A
case is an operation with the widths and the immediate its text in the `switch` chooses; several cases of both functions
share one.
-/

namespace Box64.Emu

open BitVec Memory AddressForm

def _RSP : Fin 16 := 4
def _RBP : Fin 16 := 5

/-! ### State -/

/-- What the cases use of `x64emu_t`, and the memory. -/
structure Cpu extends StringState where
  fpu : X87
  /-- The 32-bit words from `segs` on. -/
  segs : Fin 8 → BitVec 32
  R_RIP : BitVec 64

/-- What is outside: where `regs` lies, the bytes of `x64emu_t` behind it, and the status word after `fpu_fcom`. -/
structure Surroundings where
  regs : Fin 16 → BitVec 64
  behind : Nat → BitVec 8
  fpu_fcom : (ST0 other : BitVec 64) → (sw : BitVec 16) → BitVec 16

/-- `oped`: a register or an address. -/
inductive Oped (R : Type) where
  | reg (r : R)
  | mem (a : BitVec 64)

namespace Cpu

variable (s : Cpu)

/-- `EB->byte[0]`. -/
def readByte : Oped ByteReg → BitVec 8
  | .reg g => s.emu.getByte g
  | .mem a => s.mem.load 8 a

def writeByte (v : BitVec 8) : Oped ByteReg → Cpu
  | .reg g => { s with emu := s.emu.setByte g v }
  | .mem a => { s with mem := s.mem.store a v }

/-- `EW->word[0]`, `ED->dword[0]` or `ED->q[0]`. -/
def read (w : Width) : Oped (Fin 16) → BitVec w.bits
  | .reg r => s.emu.reg w r
  | .mem a => s.mem.load w.bits a

/-- Sets them; of a register `q[0]` for 32 bits. -/
def write (w : Width) (v : BitVec w.bits) : Oped (Fin 16) → Cpu
  | .reg r => { s with emu := if w = .w32 then s.emu.setWhole r v else s.emu.setReg r v }
  | .mem a => { s with mem := s.mem.store a v }

/-- `ED = OP(emu, ED)`. -/
def modify (w : Width) (o : Oped (Fin 16)) (op : X64Emu → BitVec w.bits → BitVec w.bits × X64Emu) : Cpu :=
  let (v, emu) := op s.emu (s.read w o)
  { s with emu }.write w v o

def reg (r : Fin 16) : BitVec 64 := s.emu.regs r

def setReg (r : Fin 16) (v : BitVec 64) : Cpu := { s with emu := s.emu.setReg r v }

/-- `Push16` and `Push`. -/
def push (w : Width) (v : BitVec w.bits) : Cpu :=
  let s := s.setReg _RSP (s.reg _RSP - BitVec.ofNat 64 (w.bits / 8))
  { s with mem := s.mem.store (s.reg _RSP) v }

/-- `Pop16` and `Pop`. -/
def pop (w : Width) : BitVec w.bits × Cpu :=
  (s.mem.load w.bits (s.reg _RSP), s.setReg _RSP (s.reg _RSP + BitVec.ofNat 64 (w.bits / 8)))

end Cpu

/-! ### Fetches -/

section Fetch

variable (code : Memory) (rex : Rex) (s : Cpu)

/-- `F8`, `F16`, `F32` and `F64`. -/
def fetch (n : Nat) : BitVec n × Cpu :=
  (code.load n s.R_RIP, { s with R_RIP := s.R_RIP + BitVec.ofNat 64 (n / 8) })

/-- The bytes of an immediate that goes with the width. -/
def immBytes : Width → Nat
  | .w8 => 1
  | .w16 => 2
  | .w32 | .w64 => 4

/-- `F16`, `F32` or `F32S64`. -/
def fetchImm (w : Width) : BitVec w.bits × Cpu :=
  let (v, s) := fetch code s (8 * immBytes w)
  (v.signExtend w.bits, s)

/-- `GETEW` and `GETED`. -/
def GetEd (nextop delta : BitVec 8) : Oped (Fin 16) × Cpu :=
  if nextop &&& 0xC0 = 0xC0 then (.reg (regNumber nextop rex.b), s)
  else
    let (a, R_RIP) := GetECommon s.emu code rex (nextop &&& 0xC7) delta s.R_RIP
    (.mem a, { s with R_RIP })

def GetEb (nextop delta : BitVec 8) : Oped ByteReg × Cpu :=
  if nextop &&& 0xC0 = 0xC0 then
    (.reg (if rex.rex ≠ 0 then ⟨regNumber nextop rex.b, false⟩ else ⟨Fin.ofNat 16 (nextop &&& 3).toNat, nextop.getLsbD 2⟩),
      s)
  else
    let (a, R_RIP) := GetECommon s.emu code rex (nextop &&& 0xC7) delta s.R_RIP
    (.mem a, { s with R_RIP })

end Fetch

/-! ### Environments of the `x87` -/

/-- The 16-bit word `k` bytes behind `p`. -/
def wordAt (p : Nat → BitVec 8) (k : Nat) : BitVec 16 := p (k + 1) ++ p k

def fpu_loadenv (p : Nat → BitVec 8) (b16 : Bool) (fpu : X87) : X87 :=
  let step := if b16 then 2 else 4
  let sw := wordAt p step
  let tags := wordAt p (2 * step)
  { fpu with
    cw := wordAt p 0, sw, top := topOf sw
    tag := fun i => (tags >>> (i.toNat * 2)).setWidth 2 }

def storeWords (mem : Memory) (p : BitVec 64) : List (BitVec 16) → Memory
  | [] => mem
  | v :: words => storeWords (mem.store p v) (p + 2) words

def fpu_savenv (p : BitVec 64) (b16 : Bool) (fpu : X87) (mem : Memory) : X87 × Memory :=
  let sw := setTop fpu.sw fpu.top
  let tags := eight.foldl (fun tags i => tags ||| (fpu.tag i).setWidth 16 <<< (i.toNat * 2)) 0
  ({ fpu with sw }, storeWords mem p (if b16 then [fpu.cw, sw, tags] else [fpu.cw, 0, sw, 0, tags]))

/-- The environment's size in memory. -/
def envBytes (b16 : Bool) : Nat := if b16 then 14 else 28

/-- The ten bytes `k` behind `p`. -/
def longDoubleAt (p : Nat → BitVec 8) (k : Nat) : LongDouble :=
  ⟨wordAt p (k + 6) ++ wordAt p (k + 4) ++ wordAt p (k + 2) ++ wordAt p k, wordAt p (k + 8)⟩

def frstor (p : Nat → BitVec 8) (b16 : Bool) (fpu : X87) : X87 :=
  eight.foldl (fun fpu i => fpu.setST i (LD2D (longDoubleAt p (envBytes b16 + 10 * i.toNat)))) (fpu_loadenv p b16 fpu)

def reset_fpu (fpu : X87) : X87 :=
  { fpu with x87 := fun _ => 0, cw := 0x37F, sw := 0, top := 0, tag := fun _ => 0b11 }

def storeLongDouble (mem : Memory) (p : BitVec 64) (ld : LongDouble) : Memory := (mem.store p ld.q).store (p + 8) ld.b

def fnsave (p : BitVec 64) (b16 : Bool) (fpu : X87) (mem : Memory) : X87 × Memory :=
  let (fpu, mem) := fpu_savenv p b16 fpu mem
  let saved := eight.foldl (fun mem i =>
    storeLongDouble mem (p + BitVec.ofNat 64 (envBytes b16 + 10 * i.toNat)) (D2LD (fpu.ST i))) mem
  (reset_fpu fpu, saved)

/-- `(char*)ED`; registers are read through to what is behind them. -/
def Cpu.bytes (s : Cpu) (around : Surroundings) : Oped (Fin 16) → Nat → BitVec 8
  | .reg r, k =>
    let i := 8 * r.val + k
    if i < 128 then (s.reg (Fin.ofNat 16 (i / 8))).extractLsb' (8 * (i % 8)) 8 else around.behind (i - 128)
  | .mem a, k => s.mem (a + BitVec.ofNat 64 k)

/-! ### The cases -/

/-- A case of either function, named after its operands. -/
inductive OneByte where
  | OP_Eb_Gb (op : BinOp)
  | OP_Ew_Gw (op : BinOp) (w : Width)
  | OP_Gb_Eb (op : BinOp)
  | OP_Gw_Ew (op : BinOp) (w : Width)
  | OP_AL_Ib (op : BinOp)
  | OP_AX_Iw (op : BinOp) (w : Width)
  | CMP_Ew_Gw (w : Width)
  /-- `EW` is read with the second width. -/
  | CMP_Gw_Ew (w ew : Width)
  | CMP_AX_Iw (w : Width)
  | IMUL_Gw_Ew_Iw (w : Width)
  | IMUL_Gw_Ew_Ib (w : Width)
  | Jcc
  | GRP_Ew_Iw (w : Width)
  | GRP_Ew_Ib (w : Width)
  | TEST_Ew_Gw (w : Width)
  | XCHG_Ew_Gw (w : Width)
  | MOV_Ew_Gw (w : Width)
  | MOV_Gw_Ew (w : Width)
  /-- With a width for a register and one for memory. -/
  | MOV_Ew_Seg (reg mem : Width)
  | LEA_Gw (w : Width)
  | XCHG_reg_AX (w : Width)
  /-- `CBW`, `CWDE` and `CDQE`. -/
  | CBW (w : Width)
  /-- `CWD`, `CDQ` and `CQO`. -/
  | CWD (w : Width)
  | MOV_AX_Ow (w : Width)
  | MOV_Ow_AX (w : Width)
  | MOVS (w : Width)
  | CMPS (w : Width)
  | TEST_AX_Iw (w : Width)
  | STOS (w : Width)
  | LODS (w : Width)
  | SCAS (w : Width)
  | MOV_reg_Iw (w : Width)
  | GRP2_Ew (w : Width) (count : Count)
  | MOV_Ew_Iw (w : Width)
  | ENTER (w : Width)
  | LEAVE (w : Width)
  | FLDENV (b16 : Bool)
  | FNSTENV (b16 : Bool)
  | FRSTOR (b16 : Bool)
  | FNSAVE (b16 : Bool)
  | FUCOM
  | CALL_Id
  | GRP3_Ew (w : Width)
  | INC_Ew (w : Width)
  | DEC_Ew (w : Width)
  deriving DecidableEq

/-- What a case leaves. -/
inductive Ran where
  | done (s : Cpu)
  /-- `INTR_RAISE_DIV0`. -/
  | raised (s : Cpu)
  /-- The host's division is undefined. -/
  | overflow

/-- `(nextop>>3)&7`. -/
def extOf (nextop : BitVec 8) : Nat := ((nextop >>> 3) &&& 7).toNat

/-- `for (tmp8u2 = 1; tmp8u2 < tmp8u; tmp8u2++)` of `ENTER`. -/
def pushFrames (w : Width) : Nat → BitVec 64 → Cpu → Cpu
  | 0, _, s => s
  | n + 1, tmp64u, s =>
    let tmp64u := tmp64u - BitVec.ofNat 64 (w.bits / 8)
    pushFrames w n tmp64u (s.push w (s.mem.load w.bits tmp64u))

def enter (w : Width) (tmp16u : BitVec 16) (tmp8u : BitVec 8) (s : Cpu) : Cpu :=
  let tmp64u := s.reg _RBP
  let s := s.push w (s.emu.reg w _RBP)
  let s := s.setReg _RBP (s.reg _RSP)
  let s :=
    if tmp8u ≠ 0 then
      let s := pushFrames w (tmp8u.toNat - 1) tmp64u s
      s.push w (s.emu.reg w _RBP)
    else s
  s.setReg _RSP (s.reg _RSP - tmp16u.setWidth 64)

def leave (w : Width) (s : Cpu) : Cpu :=
  let s := s.setReg _RSP (s.reg _RBP)
  let (v, s) := s.pop w
  s.write w v (.reg _RBP)

/-- `LODSW`, which leaves the rest of `RAX`; the others are the same at every width. -/
def lodsOf (rep : Rep) (w : Width) (s : StringState) : StringState :=
  match w with
  | .w16 =>
    let tmp8s := tmp8s .w16 s
    whileLeft rep s fun s => (s.put _RAX (setLow (s.reg _RAX) (s.read .w16 _RSI))).add _RSI tmp8s
  | _ => lods rep w s

/-- The width half as large. -/
def Width.half : Width → Width
  | w64 => w32
  | w32 => w16
  | _ => w8

namespace OneByte

section Exec

variable (around : Surroundings) (code : Memory) (rex : Rex) (rep : Rep) (opcode : BitVec 8)

/-- `(opcode&7)+(rex.b<<3)`. -/
def opcodeReg : Fin 16 := regNumber opcode rex.b

/-- `nextop = F8`, `GETEW(delta)` and `GETGW`. -/
def withEw {α : Type} (delta : BitVec 8) (s : Cpu) (f : BitVec 8 → Oped (Fin 16) → Fin 16 → Cpu → α) : α :=
  let (nextop, s) := fetch code s 8
  let (o, s) := GetEd code rex s nextop delta
  f nextop o (GetGd rex nextop) s

/-- `nextop = F8`, `GETEB(0)` and `GETGB`. -/
def withEb {α : Type} (s : Cpu) (f : Oped ByteReg → ByteReg → Cpu → α) : α :=
  let (nextop, s) := fetch code s 8
  let (o, s) := GetEb code rex s nextop 0
  f o (GetGb rex nextop) s

/-- The `switch` of `0x81` and `0x83`. -/
def group (w : Width) (ext : Nat) (o : Oped (Fin 16)) (v : BitVec w.bits) (s : Cpu) : Cpu :=
  match BinOp.ofIndex ext with
  | some op => s.modify w o fun emu d => op.eval w emu d v
  | none => { s with emu := (cmp w s.emu (s.read w o) v).2 }

/-- The `switch` of `0xF7`. -/
def group3 (w : Width) (ext : Nat) (o : Oped (Fin 16)) (s : Cpu) : Ran :=
  let accumulate (emu : X64Emu) : Ran := .done { s with emu := if w = .w32 then emu.clearHigh _RAX else emu }
  let divide (sg : Signedness) : Ran :=
    match sg.divide w s.emu (s.read w o) with
    | .done emu => .done { s with emu }
    | .raised emu => .raised { s with emu }
    | .overflow => .overflow
  match ext with
  | 0 | 1 =>
    let (v, s) := fetchImm code s w
    .done { s with emu := test w s.emu (s.read w o) v }
  | 2 => .done (s.modify w o (not w))
  | 3 => .done (s.modify w o (neg w))
  | 4 => accumulate (mul w s.emu (s.read w o))
  | 5 => accumulate (imulAcc w s.emu (s.read w o))
  | 6 => divide .unsigned
  | _ => divide .signed

/-- The delta of `0xF7`. -/
def delta3 (w : Width) (nextop : BitVec 8) : BitVec 8 := if extOf nextop < 2 then BitVec.ofNat 8 (immBytes w) else 0

/-- A string instruction. -/
def string (f : StringState → StringState) (s : Cpu) : Ran := .done { s with toStringState := f s.toStringState }

/-- From `R_RIP` behind the opcode. -/
def exec (s : Cpu) : OneByte → Ran
  | OP_Eb_Gb op => withEb code rex s fun o g s =>
    let (v, emu) := op.eval .w8 s.emu (s.readByte o) (s.emu.getByte g)
    .done ({ s with emu }.writeByte v o)
  | OP_Ew_Gw op w => withEw code rex 0 s fun _ o g s =>
    .done (s.modify w o fun emu d => op.eval w emu d (emu.reg w g))
  | OP_Gb_Eb op => withEb code rex s fun o g s =>
    let (v, emu) := op.eval .w8 s.emu (s.emu.getByte g) (s.readByte o)
    .done { s with emu := emu.setByte g v }
  | OP_Gw_Ew op w => withEw code rex 0 s fun _ o g s =>
    .done (s.modify w (.reg g) fun emu d => op.eval w emu d (s.read w o))
  | OP_AL_Ib op =>
    let (v, s) := fetch code s 8
    .done (s.modify .w8 (.reg _RAX) fun emu d => op.eval .w8 emu d v)
  | OP_AX_Iw op w =>
    let (v, s) := fetchImm code s w
    .done (s.modify w (.reg _RAX) fun emu d => op.eval w emu d v)
  | CMP_Ew_Gw w => withEw code rex 0 s fun _ o g s =>
    .done { s with emu := (cmp w s.emu (s.read w o) (s.emu.reg w g)).2 }
  | CMP_Gw_Ew w ew => withEw code rex 0 s fun _ o g s =>
    .done { s with emu := (cmp w s.emu (s.emu.reg w g) ((s.read ew o).setWidth w.bits)).2 }
  | CMP_AX_Iw w =>
    let (v, s) := fetchImm code s w
    .done { s with emu := (cmp w s.emu (s.emu.reg w _RAX) v).2 }
  | IMUL_Gw_Ew_Iw w => withEw code rex (BitVec.ofNat 8 (immBytes w)) s fun _ o g s =>
    let (v, s) := fetchImm code s w
    .done (s.modify w (.reg g) fun emu _ => imul w emu (s.read w o) v)
  | IMUL_Gw_Ew_Ib w => withEw code rex 1 s fun _ o g s =>
    let (v, s) := fetch code s 8
    .done (s.modify w (.reg g) fun emu _ => imul w emu (s.read w o) (v.signExtend w.bits))
  | Jcc =>
    let (tmp8s, s) := fetch code s 8
    let emu := CHECK_FLAGS s.emu
    let taken := emu.eflags.cond (opcode &&& 0x0F).toNat
    .done { s with emu, R_RIP := if taken then s.R_RIP + tmp8s.signExtend 64 else s.R_RIP }
  | GRP_Ew_Iw w => withEw code rex (BitVec.ofNat 8 (immBytes w)) s fun nextop o _ s =>
    let (v, s) := fetchImm code s w
    .done (group w (extOf nextop) o v s)
  | GRP_Ew_Ib w => withEw code rex 1 s fun nextop o _ s =>
    let (v, s) := fetch code s 8
    .done (group w (extOf nextop) o (v.signExtend w.bits) s)
  | TEST_Ew_Gw w => withEw code rex 0 s fun _ o g s =>
    .done { s with emu := test w s.emu (s.read w o) (s.emu.reg w g) }
  | XCHG_Ew_Gw w => withEw code rex 0 s fun _ o g s =>
    .done ((s.write w (s.read w o) (.reg g)).write w (s.emu.reg w g) o)
  | MOV_Ew_Gw w => withEw code rex 0 s fun _ o g s => .done (s.write w (s.emu.reg w g) o)
  | MOV_Gw_Ew w => withEw code rex 0 s fun _ o g s => .done (s.write w (s.read w o) (.reg g))
  | MOV_Ew_Seg reg mem => withEw code rex 0 s fun nextop o _ s =>
    let seg := s.segs (Fin.ofNat 8 (extOf nextop))
    match o with
    | .reg r => .done (s.write reg (seg.setWidth reg.bits) (.reg r))
    | .mem a => .done (s.write mem (seg.setWidth mem.bits) (.mem a))
  | LEA_Gw w => withEw code rex 0 s fun _ o g s =>
    match o with
    | .reg r => .done (s.write w ((around.regs r).setWidth w.bits) (.reg g))
    | .mem a => .done (s.write w (a.setWidth w.bits) (.reg g))
  | XCHG_reg_AX w =>
    let tmp8u := opcodeReg rex opcode
    if tmp8u = _RAX then .done s
    else .done ((s.write w (s.emu.reg w tmp8u) (.reg _RAX)).write w (s.emu.reg w _RAX) (.reg tmp8u))
  | CBW w => .done (s.write w ((s.emu.reg w.half _RAX).signExtend w.bits) (.reg _RAX))
  | CWD w => .done (s.write w (if (s.emu.reg w _RAX).msb then allOnes w.bits else 0) (.reg _RDX))
  | MOV_AX_Ow w =>
    let (a, s) := fetch code s 64
    .done (s.write w (s.mem.load w.bits a) (.reg _RAX))
  | MOV_Ow_AX w =>
    let (a, s) := fetch code s 64
    .done (s.write w (s.emu.reg w _RAX) (.mem a))
  | MOVS w => string (movs rep w) s
  | CMPS w => string (cmps rep w) s
  | TEST_AX_Iw w =>
    let (v, s) := fetchImm code s w
    .done { s with emu := test w s.emu (s.emu.reg w _RAX) v }
  | STOS w => string (stos rep w) s
  | LODS w => string (lodsOf rep w) s
  | SCAS w => string (scas rep w) s
  | MOV_reg_Iw w =>
    let (v, s) := fetch code s w.bits
    .done (s.write w v (.reg (opcodeReg rex opcode)))
  | GRP2_Ew w .Ib => withEw code rex 1 s fun nextop o _ s =>
    let (tmp8u, s) := fetch code s 8
    .done (s.modify w o fun emu d => shiftOp w emu d tmp8u (extOf nextop))
  | GRP2_Ew w .one => withEw code rex 0 s fun nextop o _ s =>
    .done (s.modify w o fun emu d => shiftOp w emu d 1 (extOf nextop))
  | GRP2_Ew w .CL => withEw code rex 0 s fun nextop o _ s =>
    .done (s.modify w o fun emu d => shiftOp w emu d (low 8 (emu.regs _RCX)) (extOf nextop))
  | MOV_Ew_Iw w => withEw code rex (BitVec.ofNat 8 (immBytes w)) s fun _ o _ s =>
    let (v, s) := fetchImm code s w
    .done (s.write w v o)
  | ENTER w =>
    let (tmp16u, s) := fetch code s 16
    let (tmp8u, s) := fetch code s 8
    .done (enter w tmp16u (tmp8u &&& 0x1f) s)
  | LEAVE w => .done (leave w s)
  | FLDENV b16 => withEw code rex 0 s fun _ o _ s =>
    .done { s with fpu := fpu_loadenv (s.bytes around o) b16 s.fpu }
  | FNSTENV b16 => withEw code rex 0 s fun _ o _ s =>
    match o with
    | .reg _ => .done s -- refused by the `switch`
    | .mem a =>
      let saved := fpu_savenv a b16 s.fpu s.mem
      .done { s with fpu := saved.1, mem := saved.2 }
  | FRSTOR b16 => withEw code rex 0 s fun _ o _ s =>
    .done { s with fpu := frstor (s.bytes around o) b16 s.fpu }
  | FNSAVE b16 => withEw code rex 0 s fun _ o _ s =>
    match o with
    | .reg _ => .done s -- refused by the `switch`
    | .mem a =>
      let saved := fnsave a b16 s.fpu s.mem
      .done { s with fpu := saved.1, mem := saved.2 }
  | FUCOM =>
    let (nextop, s) := fetch code s 8
    let fpu := s.fpu
    let other := fpu.ST ((nextop &&& 7).setWidth 3)
    .done { s with fpu := { fpu with sw := around.fpu_fcom (fpu.ST 0) other fpu.sw } }
  | CALL_Id =>
    let (tmp32s, s) := fetch code s 32
    let s := s.push .w64 s.R_RIP
    .done { s with R_RIP := s.R_RIP + tmp32s.signExtend 64 }
  | GRP3_Ew w =>
    let delta := delta3 w (code.load 8 s.R_RIP)
    withEw code rex delta s fun nextop o _ s => group3 code w (extOf nextop) o s
  | INC_Ew w => withEw code rex 0 s fun _ o _ s => .done (s.modify w o (inc w))
  | DEC_Ew w => withEw code rex 0 s fun _ o _ s => .done (s.modify w o (dec w))

end Exec

/-! ### The switches -/

section Switch

variable (rex : Rex) (opcode nextop : BitVec 8)

/-- `GO(B, OP)`. -/
def ofGO (w : Width) (op : BinOp) : Nat → Option OneByte
  | 0 => some (OP_Eb_Gb op)
  | 1 => some (OP_Ew_Gw op w)
  | 2 => some (OP_Gb_Eb op)
  | 3 => some (OP_Gw_Ew op w)
  | 4 => some (OP_AL_Ib op)
  | 5 => some (OP_AX_Iw op w)
  | _ => none

/-- The register forms that `Run66D9` and `Run66DD` refuse. -/
def refused66 : Bool :=
  nextop &&& 0xC0 = 0xC0 ∧ nextop.toNat ∉
    [0xD1, 0xD2, 0xD3, 0xD4, 0xD5, 0xD6, 0xD7, 0xD8, 0xD9, 0xDA, 0xDB, 0xDC, 0xDD, 0xDE, 0xDF, 0xE2, 0xE3, 0xE6, 0xE7, 0xEF]

def Run66D9 : Option OneByte :=
  if refused66 nextop then none else
    match extOf nextop with
    | 4 => some (FLDENV true)
    | 6 => some (FNSTENV true)
    | _ => none

def Run66DD : Option OneByte :=
  if refused66 nextop then none else
    match extOf nextop with
    | 4 => some (FRSTOR true)
    | 6 => some (FNSAVE true)
    | _ => none

/-- The `switch` of `Run66`; `none` for what it refuses and for `0x0F`, `0x64` and `0xF0`, which lead to other maps. -/
def Run66 : Option OneByte :=
  let w : Width := if rex.w then .w64 else .w16
  match opcode.toNat with
  | 0x39 => some (CMP_Ew_Gw w)
  | 0x3B => some (CMP_Gw_Ew w (if rex.w then .w32 else .w16))
  | 0x3D => some (CMP_AX_Iw w)
  | 0x69 => some (IMUL_Gw_Ew_Iw w)
  | 0x6B => some (IMUL_Gw_Ew_Ib w)
  -- `R_RIP--`: the loop of `Run` reads the opcode again, without prefixes
  | 0x70 | 0x71 | 0x72 | 0x73 | 0x74 | 0x75 | 0x76 | 0x77 => some Jcc
  | 0x78 | 0x79 | 0x7A | 0x7B | 0x7C | 0x7D | 0x7E | 0x7F => some Jcc
  | 0x81 => some (GRP_Ew_Iw .w16)
  | 0x83 => some (GRP_Ew_Ib .w16)
  | 0x85 => some (TEST_Ew_Gw .w16)
  | 0x87 => some (XCHG_Ew_Gw w)
  | 0x89 => some (MOV_Ew_Gw w)
  | 0x8B => some (MOV_Gw_Ew w)
  | 0x8C => some (MOV_Ew_Seg w w)
  | 0x8D => some (LEA_Gw w)
  | 0x90 | 0x91 | 0x92 | 0x93 | 0x94 | 0x95 | 0x96 | 0x97 => some (XCHG_reg_AX w)
  | 0x98 => some (CBW .w16)
  | 0x99 => some (CWD .w16)
  | 0xA1 => some (MOV_AX_Ow w)
  | 0xA3 => some (MOV_Ow_AX w)
  | 0xA5 => some (MOVS w)
  | 0xA7 => some (CMPS w)
  | 0xA9 => some (TEST_AX_Iw w)
  | 0xAB => some (STOS w)
  | 0xAD => some (LODS w)
  | 0xAF => some (SCAS w)
  | 0xB8 | 0xB9 | 0xBA | 0xBB | 0xBC | 0xBD | 0xBE | 0xBF => some (MOV_reg_Iw w)
  | 0xC1 => some (GRP2_Ew .w16 .Ib)
  | 0xC7 => some (MOV_Ew_Iw .w16)
  | 0xC8 => some (ENTER .w16)
  | 0xC9 => some (LEAVE .w16)
  | 0xD1 => some (GRP2_Ew w .one)
  | 0xD3 => some (GRP2_Ew w .CL)
  | 0xD9 => Run66D9 nextop
  | 0xDD => Run66DD nextop
  | 0xE8 => some CALL_Id
  | 0xF7 => some (GRP3_Ew w)
  | 0xFF =>
    match extOf nextop with
    | 0 => some (INC_Ew .w16)
    | 1 => some (DEC_Ew .w16)
    | _ => none
  | _ => (GO opcode).bind fun (op, k) => ofGO w op k

/-- The cases of `RunD9` that `Run66D9` has. -/
def RunD9 : Option OneByte :=
  if nextop &&& 0xC0 = 0xC0 then none else
    match extOf nextop with
    | 4 => some (FLDENV false)
    | 6 => some (FNSTENV false)
    | _ => none

/-- The cases of `RunDD` that `Run66DD` has. -/
def RunDD : Option OneByte :=
  if nextop &&& 0xF8 = 0xE0 then some FUCOM
  else if nextop &&& 0xC0 = 0xC0 then none
  else
    match extOf nextop with
    | 4 => some (FRSTOR false)
    | 6 => some (FNSAVE false)
    | _ => none

/-- The `switch` of `Run` for the opcodes and the `/r` fields that `Run66` has. -/
def Run : Option OneByte :=
  let w : Width := if rex.w then .w64 else .w32
  match opcode.toNat with
  | 0x39 => some (CMP_Ew_Gw w)
  | 0x3B => some (CMP_Gw_Ew w w)
  | 0x3D => some (CMP_AX_Iw w)
  | 0x69 => some (IMUL_Gw_Ew_Iw w)
  | 0x6B => some (IMUL_Gw_Ew_Ib w)
  | 0x70 | 0x71 | 0x72 | 0x73 | 0x74 | 0x75 | 0x76 | 0x77 => some Jcc
  | 0x78 | 0x79 | 0x7A | 0x7B | 0x7C | 0x7D | 0x7E | 0x7F => some Jcc
  | 0x81 => some (GRP_Ew_Iw w)
  | 0x83 => some (GRP_Ew_Ib w)
  | 0x85 => some (TEST_Ew_Gw w)
  | 0x87 => some (XCHG_Ew_Gw w)
  | 0x89 => some (MOV_Ew_Gw w)
  | 0x8B => some (MOV_Gw_Ew w)
  | 0x8C => some (MOV_Ew_Seg .w64 .w16)
  | 0x8D => some (LEA_Gw w)
  | 0x90 | 0x91 | 0x92 | 0x93 | 0x94 | 0x95 | 0x96 | 0x97 => some (XCHG_reg_AX w)
  | 0x98 => some (CBW w)
  | 0x99 => some (CWD w)
  | 0xA1 => some (MOV_AX_Ow w)
  | 0xA3 => some (MOV_Ow_AX w)
  | 0xA5 => some (MOVS w)
  | 0xA7 => some (CMPS w)
  | 0xA9 => some (TEST_AX_Iw w)
  | 0xAB => some (STOS w)
  | 0xAD => some (LODS w)
  | 0xAF => some (SCAS w)
  | 0xB8 | 0xB9 | 0xBA | 0xBB | 0xBC | 0xBD | 0xBE | 0xBF => some (MOV_reg_Iw w)
  | 0xC1 => some (GRP2_Ew w .Ib)
  | 0xC7 => some (MOV_Ew_Iw w)
  | 0xC8 => some (ENTER .w64)
  | 0xC9 => some (LEAVE .w64)
  | 0xD1 => some (GRP2_Ew w .one)
  | 0xD3 => some (GRP2_Ew w .CL)
  | 0xD9 => RunD9 nextop
  | 0xDD => RunDD nextop
  | 0xE8 => some CALL_Id
  | 0xF7 => some (GRP3_Ew w)
  | 0xFF =>
    match extOf nextop with
    | 0 => some (INC_Ew w)
    | 1 => some (DEC_Ew w)
    | _ => none
  | _ => (GO opcode).bind fun (op, k) => ofGO w op k

end Switch

end OneByte

/-! ### Instructions -/

namespace Cpu

variable (around : Surroundings) (code : Memory) (rex : Rex) (rep : Rep) (s : Cpu)

/-- An instruction of a map, from behind its prefixes on. -/
def runWith (map : BitVec 8 → BitVec 8 → Option OneByte) : Option Ran :=
  let (opcode, s) := fetch code s 8
  (map opcode (code.load 8 s.R_RIP)).map (OneByte.exec around code rex rep opcode s)

/-- `Run66` behind the prefixes, of which `rex` is the last. -/
def Run66 : Option Ran := s.runWith around code rex rep (OneByte.Run66 rex)

/-- `Run` behind the prefixes. -/
def Run : Option Ran := s.runWith around code rex rep (OneByte.Run rex)

end Cpu

end Box64.Emu
