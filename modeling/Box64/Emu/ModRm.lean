import Box64.Emu.Address

/-!
# Operands in memory and the immediates behind them

For each function that decodes opcodes, the cases with a `ModRM` byte: how they locate an operand in memory, and the bytes
of the immediate they read afterwards. Opcodes without `ModRM`, and those a function refuses, are `none`.
-/

namespace Box64.Emu

open BitVec

/-- `GETED(D)`, `GETED_OFFS(D, tlsdata)` and `GETED32(D)`, and the same for `EB`, `EW`, `EX` and `EM`. -/
inductive Geted
  | near
  | offs
  | near32
  deriving DecidableEq

/-- The reads of an immediate. -/
inductive Imm
  | none
  | F8
  | F16
  | F32
  deriving DecidableEq

def Imm.bytes : Imm → Nat
  | none => 0
  | F8 => 1
  | F16 => 2
  | F32 => 4

/-- What a case fetches behind `ModRM`: an operand, located with `delta`, then an immediate. -/
structure Fetch where
  geted : Geted
  delta : BitVec 8
  imm : Imm
  deriving DecidableEq

/-- The operand located with `D`, and no immediate. -/
def GETE (D : BitVec 8) : Fetch := ⟨.near, D, .none⟩

def GETE_OFFS (D : BitVec 8) : Fetch := ⟨.offs, D, .none⟩

def GETE32 (D : BitVec 8) : Fetch := ⟨.near32, D, .none⟩

/-- Located before an immediate is read. -/
def Fetch.before (f : Fetch) (imm : Imm) : Fetch := { f with imm }

/-- The bytes a case looks at; `opcode2` where it reads another opcode. -/
structure Encoding where
  rex : Rex
  rep : Nat
  opcode : BitVec 8
  opcode2 : BitVec 8
  nextop : BitVec 8

namespace Encoding

open Imm (F8 F16 F32)

variable (e : Encoding)

/-- `(nextop>>3)&7`. -/
def ext : Nat := ((e.nextop >>> 3) &&& 7).toNat

def op : Nat := e.opcode.toNat

def op2 : Nat := e.opcode2.toNat

/-- `0x00` to `0x33` as `GO` has them: the offsets of the operations with `ModRM`. -/
def inGO (offsets : List Nat) : Bool :=
  match GO e.opcode with
  | some (_, k) => k ∈ offsets
  | none => false

/-- The opcodes from one to another. -/
def span (first last : Nat) : List Nat := List.range' first (last + 1 - first)

/-- `RunD8` to `RunDF`: the operations on memory. -/
def x87 : List Nat :=
  match e.op with
  | 0xD9 => [0, 2, 3, 4, 5, 6, 7]
  | 0xDB => [0, 1, 2, 3, 5, 7]
  | 0xDD => [0, 1, 2, 3, 4, 6, 7]
  | 0xDE => [0, 1, 4, 5, 6, 7]
  | _ => span 0 7

def Run : Option Fetch :=
  match e.op with
  | 0x69 => some ((GETE 4).before F32)
  | 0x6B | 0x80 | 0xC0 | 0xC1 | 0xC6 => some ((GETE 1).before F8)
  | 0x81 | 0x83 => some ((GETE (if e.opcode = 0x81 then 4 else 1)).before (if e.opcode = 0x81 then F32 else F8))
  | 0xC7 => some ((GETE 4).before F32)
  | 0xD8 | 0xD9 | 0xDA | 0xDB | 0xDC | 0xDD | 0xDE | 0xDF => if e.ext ∈ e.x87 then some (GETE 0) else none
  | 0xF6 => some ((GETE (if e.ext < 2 then 1 else 0)).before (if e.ext < 2 then F8 else .none))
  | 0xF7 => some ((GETE (if e.ext < 2 then 4 else 0)).before (if e.ext < 2 then F32 else .none))
  | 0xFE => if e.ext < 2 then some (GETE 0) else none
  | 0xFF => if e.ext < 7 then some (GETE 0) else none
  | op =>
    if e.inGO (span 0 3) ∨ op ∈ span 0x38 0x3B ++ [0x63] ++ span 0x84 0x8D ++ [0x8F] ++ span 0xD0 0xD3 then some (GETE 0)
    else none

def Run0F : Option Fetch :=
  match e.op with
  | 0x0D => if e.ext = 1 then some (GETE 0) else none
  | 0x38 => if e.op2 ∈ [0x00, 0x04, 0x0B, 0x1C, 0x1D, 0x1E] then some (GETE 0) else none
  | 0x3A => if e.op2 = 0x0F then some ((GETE 1).before F8) else none
  | 0x70 | 0xC2 | 0xC6 => some ((GETE 1).before F8)
  | 0x71 | 0x72 => if e.ext ∈ [2, 4, 6] then some ((GETE 1).before F8) else none
  | 0x73 => if e.ext ∈ [2, 6] then some ((GETE 1).before F8) else none
  | 0xA4 | 0xA5 => some ((GETE (if e.nextop = 0xA4 then 1 else 0)).before (if e.opcode = 0xA4 then F8 else .none))
  | 0xAC | 0xAD => some ((GETE (if e.nextop = 0xAC then 1 else 0)).before (if e.opcode = 0xAC then F8 else .none))
  | 0xAE => if e.ext ∈ [0, 1, 2, 3, 7] then some (GETE 0) else none
  | 0xBA => if e.ext ∈ span 4 7 then some ((GETE 1).before F8) else none
  | 0xC4 | 0xC5 => some ((GETE 0).before F8)
  | 0xC7 => if e.ext = 1 then some (GETE 0) else none
  | op =>
    if op ∈ span 0x10 0x18 ++ [0x1F] ++ span 0x28 0x2F ++ span 0x40 0x4F ++ span 0x50 0x6B ++ [0x6E, 0x6F] ++
        span 0x74 0x76 ++ [0x7E, 0x7F] ++ span 0x90 0x9F ++ [0xA3, 0xAB, 0xAF, 0xB0, 0xB1, 0xB3, 0xB6, 0xB7] ++
        span 0xBB 0xC1 ++ [0xC3] ++ span 0xD1 0xD3 ++ [0xD5] ++ span 0xD7 0xE5 ++ span 0xE7 0xE9 ++ span 0xEB 0xED ++
        [0xEF] ++ span 0xF1 0xF3 ++ [0xF5, 0xF6, 0xF8, 0xF9, 0xFA, 0xFC, 0xFD, 0xFE] then some (GETE 0)
    else none

def RunF20F : Option Fetch :=
  match e.op with
  | 0x70 | 0xC2 => some ((GETE 1).before F8)
  | op =>
    if op ∈ span 0x10 0x12 ++ [0x1E, 0x2A, 0x2C, 0x2D, 0x51] ++ span 0x58 0x5A ++ span 0x5C 0x5F ++
        [0x7C, 0xD0, 0xD6, 0xE6, 0xF0] then some (GETE 0)
    else none

def RunF30F : Option Fetch :=
  match e.op with
  | 0x70 | 0xC2 => some ((GETE 1).before F8)
  | op =>
    if op ∈ span 0x10 0x12 ++ [0x16, 0x1E, 0x2A, 0x2C, 0x2D] ++ span 0x51 0x53 ++ span 0x58 0x5F ++
        [0x6F, 0x7E, 0x7F, 0xB8, 0xBC, 0xBD, 0xD6, 0xE6] then some (GETE 0)
    else none

/-- `Run66D9` and `Run66DD` have the environments, the other cases of `0x66` are those of 16 bits. -/
def Run66 : Option Fetch :=
  match e.op with
  | 0x69 => some ((GETE (if e.rex.w then 4 else 2)).before (if e.rex.w then F32 else F16))
  | 0x6B | 0xC1 => some ((GETE 1).before F8)
  | 0x81 | 0x83 => some ((GETE (if e.opcode = 0x81 then 2 else 1)).before (if e.opcode = 0x81 then F16 else F8))
  | 0xC7 => some ((GETE 2).before F16)
  | 0xD9 | 0xDD => if e.ext ∈ [4, 6] then some (GETE 0) else none
  | 0xF7 =>
    if e.rex.w then some ((GETE (if e.ext < 2 then 4 else 0)).before (if e.ext < 2 then F32 else .none))
    else if e.ext < 2 then some ((GETE 2).before F16)
    else some (GETE 0)
  | 0xFF => if e.ext < 2 then some (GETE 0) else none
  | op =>
    if e.inGO (span 0 3) ∨ op ∈ [0x39, 0x3B, 0x85, 0x87, 0x89, 0x8B, 0x8C, 0x8D, 0xD1, 0xD3] then some (GETE 0) else none

def Run660F : Option Fetch :=
  match e.op with
  | 0x38 =>
    if e.op2 ∈ span 0x00 0x05 ++ span 0x08 0x0B ++ [0x14, 0x17] ++ span 0x1C 0x1E ++ span 0x20 0x25 ++ span 0x30 0x35 ++
        span 0x38 0x3F ++ span 0xDB 0xDF then some (GETE 0)
    else none
  | 0x3A =>
    if e.op2 ∈ [0x0A, 0x0B, 0x0E, 0x0F, 0x14, 0x16, 0x17, 0x20, 0x21, 0x22, 0x40, 0xDF] then some ((GETE 1).before F8)
    else none
  | 0x70 | 0xC2 | 0xC4 | 0xC5 | 0xC6 => some ((GETE 1).before F8)
  | 0x71 | 0x72 => if e.ext ∈ [2, 4, 6] then some ((GETE 1).before F8) else none
  | 0x73 => if e.ext ∈ [2, 3, 6, 7] then some ((GETE 1).before F8) else none
  | 0xA4 | 0xA5 => some ((GETE (if e.nextop = 0xA4 then 1 else 0)).before (if e.opcode = 0xA4 then F8 else .none))
  | 0xAC | 0xAD => some ((GETE (if e.nextop = 0xAC then 1 else 0)).before (if e.opcode = 0xAC then F8 else .none))
  | 0xBA => if e.ext ∈ span 4 7 then some ((GETE 0).before F8) else none
  | op =>
    if op ∈ span 0x10 0x17 ++ [0x1F, 0x28, 0x29, 0x2A] ++ span 0x2C 0x2F ++ span 0x40 0x51 ++ span 0x54 0x6F ++
        span 0x74 0x76 ++ [0x7C, 0x7E, 0x7F, 0xA3, 0xAB, 0xAF, 0xB1, 0xB3, 0xB6, 0xB7] ++ span 0xBB 0xBE ++ [0xC1] ++
        span 0xD1 0xD6 ++ span 0xD8 0xEF ++ span 0xF1 0xFE then some (GETE 0)
    else none

def RunF0 : Option Fetch :=
  match e.op with
  | 0x0F =>
    match e.op2 with
    | 0xBA => if e.ext ∈ span 4 7 then some ((GETE 1).before F8) else none
    | 0xC7 => if e.ext = 1 then some (GETE 0) else none
    | op2 => if op2 ∈ [0xAB, 0xB0, 0xB1, 0xB3, 0xC0, 0xC1] then some (GETE 0) else none
  | 0x80 => some ((GETE 1).before F8)
  | 0x81 | 0x83 => some ((GETE (if e.opcode = 0x81 then 4 else 1)).before (if e.opcode = 0x83 then F8 else F32))
  | 0x87 => some (GETE 0)
  | 0xFF => if e.ext < 2 then some (GETE 0) else none
  | _ => if e.inGO (span 0 3) then some (GETE 0) else none

/-- Without `rex.w`. -/
def Run66F0 : Option Fetch :=
  match e.op with
  | 0x0F => if e.op2 = 0xB1 then some (GETE 0) else none
  | 0x81 | 0x83 => some ((GETE (if e.opcode = 0x83 then 1 else 2)).before (if e.opcode = 0x83 then F8 else F16))
  | 0xFF => if e.ext < 2 then some (GETE 0) else none
  | _ => if e.inGO [1, 3] then some (GETE 0) else none

def Run64 : Option Fetch :=
  match e.op with
  | 0x0F =>
    match e.op2 with
    | 0x10 => if e.rep ∈ [1, 2] then some (GETE_OFFS 0) else none
    | 0x11 => if e.rep ∈ [0, 1, 2] then some (GETE_OFFS 0) else none
    | 0x29 => if e.rep = 0 then some (GETE_OFFS 0) else none
    | 0x59 | 0x6F => if e.rep = 2 then some (GETE_OFFS 0) else none
    | 0xAF | 0xB6 => some (GETE_OFFS 0)
    | _ => none
  | 0x80 | 0xC6 => some ((GETE_OFFS 1).before F8)
  | 0x81 | 0x83 => some ((GETE_OFFS (if e.opcode = 0x81 then 4 else 1)).before (if e.opcode = 0x81 then F32 else F8))
  | 0xC7 => some ((GETE_OFFS 4).before F32)
  | 0xF7 => some ((GETE_OFFS (if e.ext < 2 then 4 else 0)).before (if e.ext < 2 then F32 else .none))
  | 0xFF => if e.ext < 7 then some (GETE_OFFS 0) else none
  | op =>
    if e.inGO (span 0 3) ∨ op ∈ [0x38, 0x39, 0x3B, 0x63, 0x88, 0x89, 0x8A, 0x8B, 0xD1, 0xD3] then some (GETE_OFFS 0)
    else none

def Run6664 : Option Fetch :=
  match e.op with
  | 0x0F => if e.op2 = 0xD6 then some (GETE_OFFS 0) else none
  | 0x89 | 0x8B => some (GETE_OFFS 0)
  | _ => none

def Run67 : Option Fetch :=
  match e.op with
  | 0x80 | 0xC1 => some ((GETE32 1).before F8)
  | 0xF7 => some ((GETE32 (if e.ext < 2 then 4 else 0)).before (if e.ext < 2 then F32 else .none))
  | op => if e.inGO (span 0 3) ∨ op ∈ [0x88, 0x89, 0x8A, 0x8B, 0x8D] then some (GETE32 0) else none

def Run670F : Option Fetch :=
  match e.op with
  | 0x2E | 0x2F => if e.rep = 0 then some (GETE32 0) else none
  | 0x6F | 0x7F => some (GETE32 0)
  | _ => none

def Run67660F : Option Fetch :=
  match e.op with
  | 0x6F | 0x76 => some (GETE32 0)
  | _ => none

end Encoding

end Box64.Emu
