import Box64.Lib.Lanes

/-!
# Packed shifts

The MMX and SSE shifts of `Run0F` and `Run660F`, by an immediate byte and by a register. A C shift by the width of its
promoted operand or more has no value.
-/

namespace Box64.Emu

open Lanes

/-- `EX` or `EM` next to the destination of an instruction: `none` for the same register. -/
abbrev Source (n : Nat) := Option (BitVec n)

/-- What is read through `EX` or `EM` while the destination holds `gx`. -/
def Source.read {n : Nat} (ex : Source n) (gx : BitVec n) : BitVec n := ex.getD gx

/-! ### C shifts -/

section CShift

variable {w : Nat} (x : BitVec w) (count : Nat)

/-- `x >> count`, of an unsigned lane. -/
def shrUnsigned : Option (BitVec w) :=
  if count < max w 32 then some ((x.setWidth (max w 32) >>> count).setWidth w) else none

/-- `x >> count`, of a signed lane. -/
def shrSigned : Option (BitVec w) :=
  if count < max w 32 then some (((x.signExtend (max w 32)).sshiftRight count).setWidth w) else none

/-- `x << count`, of an unsigned lane. -/
def shlUnsigned : Option (BitVec w) :=
  if count < max w 32 then some ((x.setWidth (max w 32) <<< count).setWidth w) else none

/-- `x << count`, of a signed lane. -/
def shlSigned : Option (BitVec w) :=
  if count < max w 32 then some ((x.signExtend (max w 32) <<< count).setWidth w) else none

end CShift

/-! ### The instructions -/

section Shifts

variable {n : Nat}

/-- `for (int i=0; i<m; ++i) v->lane[i] op= count;` -/
def shiftEach (w m : Nat) (op : BitVec w → Nat → Option (BitVec w)) (count : Nat) (v : BitVec n) : Option (BitVec n) :=
  eachLane? m (fun v i => op (lane w v i) count) v

/-- `for (int i=0; i<m; ++i) v->lane[i] = (v->lane[i]<0)?-1:0;` -/
def signEach (w m : Nat) (v : BitVec n) : Option (BitVec n) :=
  some (eachLane m (fun v i => if (lane w v i).slt 0 then (-1 : BitVec w) else 0) v)

/-- `if(count>most) v = 0; else ...` -/
def clearOr (most : Nat) (shift : Nat → BitVec n → Option (BitVec n)) (count : Nat) (v : BitVec n) : Option (BitVec n) :=
  if count > most then some 0 else shift count v

/-- `EM->q`, `EX->q[0]` -/
def countOf (ex : BitVec n) : Nat := (lane 64 ex 0).toNat

/-- `EM->ub[0]`, `EX->ub[0]` -/
def countByte (ex : BitVec n) : Nat := (lane 8 ex 0).toNat

/-- `if(EX->q[0]>most) {GX = 0;} else {tmp8u=...; for ... GX->lane[i] op= tmp8u;}` -/
def clearOrBy (most : Nat) (shift : Nat → BitVec n → Option (BitVec n)) (tmp8u : BitVec n → Nat) (ex : Source n)
    (gx : BitVec n) : Option (BitVec n) :=
  if countOf (ex.read gx) > most then some 0 else shift (tmp8u (ex.read gx)) gx

end Shifts

namespace Run0F

def PSRLW_Em_Ib : Nat → BitVec 64 → Option (BitVec 64) := clearOr 15 (shiftEach 16 4 shrUnsigned)

def PSRAW_Em_Ib (tmp8u : Nat) (em : BitVec 64) : Option (BitVec 64) :=
  let tmp8u := if tmp8u > 15 then 15 else tmp8u
  shiftEach 16 4 shrSigned tmp8u em

def PSLLW_Em_Ib : Nat → BitVec 64 → Option (BitVec 64) := clearOr 15 (shiftEach 16 4 shlUnsigned)

def PSRLD_Em_Ib : Nat → BitVec 64 → Option (BitVec 64) := clearOr 31 (shiftEach 32 2 shrUnsigned)

def PSRAD_Em_Ib : Nat → BitVec 64 → Option (BitVec 64) := shiftEach 32 2 shrSigned

def PSLLD_Em_Ib : Nat → BitVec 64 → Option (BitVec 64) := clearOr 31 (shiftEach 32 2 shlUnsigned)

def PSRLQ_Em_Ib : Nat → BitVec 64 → Option (BitVec 64) := clearOr 63 (shiftEach 64 1 shrUnsigned)

def PSLLQ_Em_Ib : Nat → BitVec 64 → Option (BitVec 64) := clearOr 63 (shiftEach 64 1 shlUnsigned)

def PSRLW_Gm_Em : Source 64 → BitVec 64 → Option (BitVec 64) := clearOrBy 15 (shiftEach 16 4 shrUnsigned) countByte

def PSRLD_Gm_Em : Source 64 → BitVec 64 → Option (BitVec 64) := clearOrBy 31 (shiftEach 32 2 shrUnsigned) countByte

def PSRLQ_Gm_Em : Source 64 → BitVec 64 → Option (BitVec 64) := clearOrBy 63 (shiftEach 64 1 shrUnsigned) countOf

def PSRAW_Gm_Em (em : Source 64) (gm : BitVec 64) : Option (BitVec 64) :=
  let tmp8u := if countOf (em.read gm) > 15 then 16 else countByte (em.read gm)
  shiftEach 16 4 shrSigned tmp8u gm

def PSRAD_Gm_Em (em : Source 64) (gm : BitVec 64) : Option (BitVec 64) :=
  if countOf (em.read gm) > 31 then signEach 32 2 gm
  else shiftEach 32 2 shrSigned (countByte (em.read gm)) gm

def PSLLW_Gm_Em : Source 64 → BitVec 64 → Option (BitVec 64) := clearOrBy 15 (shiftEach 16 4 shlSigned) countByte

def PSLLD_Gm_Em : Source 64 → BitVec 64 → Option (BitVec 64) := clearOrBy 31 (shiftEach 32 2 shlSigned) countByte

def PSLLQ_Gm_Em : Source 64 → BitVec 64 → Option (BitVec 64) := clearOrBy 63 (shiftEach 64 1 shlUnsigned) countByte

def PALIGNR (tmp8u : Nat) (em : Source 64) (gm : BitVec 64) : Option (BitVec 64) :=
  if tmp8u ≥ 16 then some 0
  else if tmp8u > 8 then shrUnsigned gm ((tmp8u - 8) * 8)
  else if tmp8u = 8 ∨ tmp8u = 0 then some gm
  else do
    let gm ← shlUnsigned gm ((8 - tmp8u) * 8)
    let low ← shrUnsigned (em.read gm) (tmp8u * 8)
    some (gm ||| low)

end Run0F

namespace Run660F

def PSRLW_Ex_Ib : Nat → BitVec 128 → Option (BitVec 128) := clearOr 15 (shiftEach 16 8 shrUnsigned)

def PSRAW_Ex_Ib : Nat → BitVec 128 → Option (BitVec 128) := shiftEach 16 8 shrSigned

def PSLLW_Ex_Ib : Nat → BitVec 128 → Option (BitVec 128) := clearOr 15 (shiftEach 16 8 shlUnsigned)

def PSRLD_Ex_Ib : Nat → BitVec 128 → Option (BitVec 128) := clearOr 31 (shiftEach 32 4 shrUnsigned)

def PSRAD_Ex_Ib (tmp8u : Nat) (ex : BitVec 128) : Option (BitVec 128) :=
  if tmp8u > 31 then signEach 32 4 ex else shiftEach 32 4 shrSigned tmp8u ex

def PSLLD_Ex_Ib : Nat → BitVec 128 → Option (BitVec 128) := clearOr 31 (shiftEach 32 4 shlUnsigned)

def PSRLQ_Ex_Ib : Nat → BitVec 128 → Option (BitVec 128) := clearOr 63 (shiftEach 64 2 shrUnsigned)

def PSLLQ_Ex_Ib : Nat → BitVec 128 → Option (BitVec 128) := clearOr 63 (shiftEach 64 2 shlUnsigned)

def PSRLDQ_Ex_Ib (tmp8u : Nat) (ex : BitVec 128) : Option (BitVec 128) :=
  if tmp8u > 15 then some 0
  else
    let tmp8u := tmp8u * 8
    if tmp8u < 64 then do
      let low ← shrUnsigned (lane 64 ex 0) tmp8u
      let high ← shlUnsigned (lane 64 ex 1) (64 - tmp8u)
      let ex := setLane ex 0 (low ||| high)
      let high ← shrUnsigned (lane 64 ex 1) tmp8u
      some (setLane ex 1 high)
    else do
      let low ← shrUnsigned (lane 64 ex 1) (tmp8u - 64)
      some (setLane (setLane ex 0 low) 1 (0 : BitVec 64))

def PSLLDQ_Ex_Ib (tmp8u : Nat) (ex : BitVec 128) : Option (BitVec 128) :=
  if tmp8u > 15 then some 0
  else
    let tmp8u := tmp8u * 8
    if tmp8u < 64 then do
      let high ← shlUnsigned (lane 64 ex 1) tmp8u
      let low ← shrUnsigned (lane 64 ex 0) (64 - tmp8u)
      let ex := setLane ex 1 (high ||| low)
      let low ← shlUnsigned (lane 64 ex 0) tmp8u
      some (setLane ex 0 low)
    else do
      let high ← shlUnsigned (lane 64 ex 0) (tmp8u - 64)
      some (setLane (setLane ex 1 high) 0 (0 : BitVec 64))

def PSRLW_Gx_Ex : Source 128 → BitVec 128 → Option (BitVec 128) := clearOrBy 15 (shiftEach 16 8 shrUnsigned) countByte

def PSRLD_Gx_Ex : Source 128 → BitVec 128 → Option (BitVec 128) := clearOrBy 31 (shiftEach 32 4 shrUnsigned) countByte

def PSRLQ_Gx_Ex : Source 128 → BitVec 128 → Option (BitVec 128) := clearOrBy 63 (shiftEach 64 2 shrUnsigned) countByte

def PSRAW_Gx_Ex (ex : Source 128) (gx : BitVec 128) : Option (BitVec 128) :=
  let tmp8u := if countOf (ex.read gx) > 15 then 16 else countByte (ex.read gx)
  shiftEach 16 8 shrSigned tmp8u gx

def PSRAD_Gx_Ex (ex : Source 128) (gx : BitVec 128) : Option (BitVec 128) :=
  let tmp8u := if countOf (ex.read gx) > 31 then 32 else countByte (ex.read gx)
  if tmp8u > 31 then signEach 32 4 gx else shiftEach 32 4 shrSigned tmp8u gx

def PSLLW_Gx_Ex : Source 128 → BitVec 128 → Option (BitVec 128) := clearOrBy 15 (shiftEach 16 8 shlUnsigned) countByte

def PSLLD_Gx_Ex : Source 128 → BitVec 128 → Option (BitVec 128) := clearOrBy 31 (shiftEach 32 4 shlUnsigned) countByte

/-- `tmp8u=EX->q[0];` -/
def PSLLQ_Gx_Ex : Source 128 → BitVec 128 → Option (BitVec 128) :=
  clearOrBy 63 (shiftEach 64 2 shlUnsigned) fun ex => countOf ex % 256

def PALIGNR (tmp8u : Nat) (ex : Source 128) (gx : BitVec 128) : Option (BitVec 128) :=
  if tmp8u > 31 then some 0
  else
    let ex := ex.read gx
    let eax1 := eachLane 16 (fun _ i =>
      if tmp8u + i > 15 then if tmp8u + i > 31 then 0 else lane 8 gx (tmp8u + i - 16)
      else lane 8 ex (tmp8u + i)) (0 : BitVec 128)
    some (setLane (setLane gx 0 (lane 64 eax1 0)) 1 (lane 64 eax1 1))

end Run660F

/-! ### Every packed shift -/

inductive Size where
  | mmx
  | sse

def Size.bits : Size → Nat
  | mmx => 64
  | sse => 128

inductive ShiftOp where
  | psrlw
  | psrld
  | psrlq
  | psraw
  | psrad
  | psllw
  | pslld
  | psllq

namespace ShiftOp

def width : ShiftOp → Nat
  | psrlw | psraw | psllw => 16
  | psrld | psrad | pslld => 32
  | psrlq | psllq => 64

/-- The lane shifted by any count. -/
def shifted (op : ShiftOp) (x : BitVec op.width) (count : Nat) : BitVec op.width :=
  match op with
  | psrlw | psrld | psrlq => x >>> count
  | psraw | psrad => x.sshiftRight count
  | psllw | pslld | psllq => x <<< count

end ShiftOp

/-- A packed shift with its immediate byte. -/
inductive PackedShift : Size → Type where
  | imm (size : Size) (op : ShiftOp) (tmp8u : BitVec 8) : PackedShift size
  | reg (size : Size) (op : ShiftOp) : PackedShift size
  | psrldq (tmp8u : BitVec 8) : PackedShift .sse
  | pslldq (tmp8u : BitVec 8) : PackedShift .sse
  | palignr (size : Size) (tmp8u : BitVec 8) : PackedShift size

namespace PackedShift

/-- The value that `dst` gets. A shift by an immediate has no other operand. -/
def run {size : Size} (insn : PackedShift size) (src : Source size.bits) (dst : BitVec size.bits) :
    Option (BitVec size.bits) :=
  match insn with
  | imm .mmx .psrlw tmp8u => Run0F.PSRLW_Em_Ib tmp8u.toNat dst
  | imm .mmx .psrld tmp8u => Run0F.PSRLD_Em_Ib tmp8u.toNat dst
  | imm .mmx .psrlq tmp8u => Run0F.PSRLQ_Em_Ib tmp8u.toNat dst
  | imm .mmx .psraw tmp8u => Run0F.PSRAW_Em_Ib tmp8u.toNat dst
  | imm .mmx .psrad tmp8u => Run0F.PSRAD_Em_Ib tmp8u.toNat dst
  | imm .mmx .psllw tmp8u => Run0F.PSLLW_Em_Ib tmp8u.toNat dst
  | imm .mmx .pslld tmp8u => Run0F.PSLLD_Em_Ib tmp8u.toNat dst
  | imm .mmx .psllq tmp8u => Run0F.PSLLQ_Em_Ib tmp8u.toNat dst
  | imm .sse .psrlw tmp8u => Run660F.PSRLW_Ex_Ib tmp8u.toNat dst
  | imm .sse .psrld tmp8u => Run660F.PSRLD_Ex_Ib tmp8u.toNat dst
  | imm .sse .psrlq tmp8u => Run660F.PSRLQ_Ex_Ib tmp8u.toNat dst
  | imm .sse .psraw tmp8u => Run660F.PSRAW_Ex_Ib tmp8u.toNat dst
  | imm .sse .psrad tmp8u => Run660F.PSRAD_Ex_Ib tmp8u.toNat dst
  | imm .sse .psllw tmp8u => Run660F.PSLLW_Ex_Ib tmp8u.toNat dst
  | imm .sse .pslld tmp8u => Run660F.PSLLD_Ex_Ib tmp8u.toNat dst
  | imm .sse .psllq tmp8u => Run660F.PSLLQ_Ex_Ib tmp8u.toNat dst
  | reg .mmx .psrlw => Run0F.PSRLW_Gm_Em src dst
  | reg .mmx .psrld => Run0F.PSRLD_Gm_Em src dst
  | reg .mmx .psrlq => Run0F.PSRLQ_Gm_Em src dst
  | reg .mmx .psraw => Run0F.PSRAW_Gm_Em src dst
  | reg .mmx .psrad => Run0F.PSRAD_Gm_Em src dst
  | reg .mmx .psllw => Run0F.PSLLW_Gm_Em src dst
  | reg .mmx .pslld => Run0F.PSLLD_Gm_Em src dst
  | reg .mmx .psllq => Run0F.PSLLQ_Gm_Em src dst
  | reg .sse .psrlw => Run660F.PSRLW_Gx_Ex src dst
  | reg .sse .psrld => Run660F.PSRLD_Gx_Ex src dst
  | reg .sse .psrlq => Run660F.PSRLQ_Gx_Ex src dst
  | reg .sse .psraw => Run660F.PSRAW_Gx_Ex src dst
  | reg .sse .psrad => Run660F.PSRAD_Gx_Ex src dst
  | reg .sse .psllw => Run660F.PSLLW_Gx_Ex src dst
  | reg .sse .pslld => Run660F.PSLLD_Gx_Ex src dst
  | reg .sse .psllq => Run660F.PSLLQ_Gx_Ex src dst
  | psrldq tmp8u => Run660F.PSRLDQ_Ex_Ib tmp8u.toNat dst
  | pslldq tmp8u => Run660F.PSLLDQ_Ex_Ib tmp8u.toNat dst
  | palignr .mmx tmp8u => Run0F.PALIGNR tmp8u.toNat src dst
  | palignr .sse tmp8u => Run660F.PALIGNR tmp8u.toNat src dst

/-- The operand that the instruction writes, `G` or `E`. -/
def target {ι : Type} {size : Size} (insn : PackedShift size) (G E : ι) : ι :=
  match insn with
  | imm .. | psrldq _ | pslldq _ => E
  | reg .. | palignr .. => G

/-- The registers and memory operands `file` after the instruction. -/
def exec {ι : Type} [DecidableEq ι] {size : Size} (insn : PackedShift size) (G E : ι) (file : ι → BitVec size.bits) :
    Option (ι → BitVec size.bits) :=
  let dst := insn.target G E
  (insn.run (if E = dst then none else some (file E)) (file dst)).map (Function.update file dst)

/-- `result` is `dst` shifted. -/
def Shifted {size : Size} (insn : PackedShift size) (src dst result : BitVec size.bits) : Prop :=
  match insn with
  | imm _ op tmp8u => ∀ i, op.width * i + op.width ≤ size.bits →
      lane op.width result i = op.shifted (lane op.width dst i) tmp8u.toNat
  | reg _ op => ∀ i, op.width * i + op.width ≤ size.bits →
      lane op.width result i = op.shifted (lane op.width dst i) (countOf src)
  | psrldq tmp8u => result = dst >>> (8 * tmp8u.toNat)
  | pslldq tmp8u => result = dst <<< (8 * tmp8u.toNat)
  | palignr _ tmp8u => result = ((dst ++ src) >>> (8 * tmp8u.toNat)).setWidth size.bits

end PackedShift

end Box64.Emu
