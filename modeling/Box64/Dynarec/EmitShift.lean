import Box64.Dynarec.Arm64
import Box64.Dynarec.FlagNeed

/-!
# Shift and rotate emitters

`dynarec_arm64_emit_shift.c`, with `emit_pf`. An emitter returns the code for the flags the instruction has to
compute (`need_flags`): with `X_PEND` it stores the pending operation, and each flag asked for is put in `xFlags`.
-/

namespace Box64.Arm64

open Emu Dynarec

/-! ### Constants of the emulator -/

/-- `defered_flags_t`, in the order of the enumeration. -/
def defered_flags_t : List DeferedFlags :=
  let widths : List Width := [.w8, .w16, .w32, .w64]
  [.d_none, .d_add .w8, .d_add .w16, .d_add .w32, .d_add32b, .d_add .w64] ++
    widths.map .d_and ++ widths.map .d_dec ++ widths.map .d_inc ++ widths.map .d_imul ++ widths.map .d_or ++
    widths.map .d_mul ++ widths.map .d_neg ++ widths.map .d_shl ++ widths.map .d_shr ++ widths.map .d_sar ++
    widths.map .d_sub ++ widths.map .d_xor ++ widths.map .d_cmp ++ widths.map .d_tst ++
    [.d_adc .w8, .d_adc .w16, .d_adc .w32, .d_adc32b, .d_adc .w64] ++ widths.map .d_sbb ++ widths.map .d_rol ++
    widths.map .d_ror ++ widths.map .d_rcl ++ widths.map .d_rcr ++ [.d_unknown]

/-- The number of a `defered_flags_t`. -/
def dfCode (df : DeferedFlags) : BitVec 64 := BitVec.ofNat 64 (defered_flags_t.idxOf df)

def dfOfCode (code : BitVec 32) : DeferedFlags := defered_flags_t.getD code.toNat .d_unknown

theorem dfOfCode_dfCode (df : DeferedFlags) : dfOfCode (low 32 (dfCode df)) = df := by
  cases df with
  | d_none | d_add32b | d_adc32b | d_unknown => decide
  | d_add w | d_and w | d_dec w | d_inc w | d_imul w | d_or w | d_mul w | d_neg w | d_shl w | d_shr w | d_sar w
  | d_sub w | d_xor w | d_cmp w | d_tst w | d_adc w | d_sbb w | d_rol w | d_ror w | d_rcl w | d_rcr w =>
    cases w <;> decide

/-! ### Bits of `xFlags` -/

def F_CF : Nat := 0
def F_PF : Nat := 2
def F_AF : Nat := 4
def F_ZF : Nat := 6
def F_SF : Nat := 7
def F_OF : Nat := 11

/-! ### Instructions by the names of the emitter's macros -/

def STRxw_U12 (rexw : Bool) (rt : Reg) (field : EmuField) : Inst := .STR (opWidth rexw) rt field
def TST_REG (sf : Bool) (rn rm : Reg) : Inst := .alu .AND true sf xZR rn (.reg rm)
def CMPS_U12 (sf : Bool) (rn : Reg) (imm : BitVec 64) : Inst := .alu .SUB true sf xZR rn (.imm imm)
def SUB_REG (sf : Bool) (rd rn rm : Reg) : Inst := .alu .SUB false sf rd rn (.reg rm)
def SUB_U12 (sf : Bool) (rd rn : Reg) (imm : BitVec 64) : Inst := .alu .SUB false sf rd rn (.imm imm)
def ADD_REG_LSR (sf : Bool) (rd rn rm : Reg) (k : Nat) : Inst := .alu .ADD false sf rd rn (.shifted rm .lsr k)
def EOR_REG (sf : Bool) (rd rn rm : Reg) : Inst := .alu .EOR false sf rd rn (.reg rm)
def EOR_REG_LSR (sf : Bool) (rd rn rm : Reg) (k : Nat) : Inst := .alu .EOR false sf rd rn (.shifted rm .lsr k)
def ORR_REG_LSL (sf : Bool) (rd rn rm : Reg) (k : Nat) : Inst := .alu .ORR false sf rd rn (.shifted rm .lsl k)
def ORR_REG_LSR (sf : Bool) (rd rn rm : Reg) (k : Nat) : Inst := .alu .ORR false sf rd rn (.shifted rm .lsr k)
def MVN_REG (sf : Bool) (rd rm : Reg) : Inst := .alu .ORN false sf rd xZR (.reg rm)
def AND_mask (sf : Bool) (rd rn : Reg) (mask : BitVec 64) : Inst := .alu .AND false sf rd rn (.imm mask)
def LSL (sf : Bool) (rd rn : Reg) (k : Nat) : Inst := .shift .lsl sf rd rn k
def LSR (sf : Bool) (rd rn : Reg) (k : Nat) : Inst := .shift .lsr sf rd rn k
def ASR (sf : Bool) (rd rn : Reg) (k : Nat) : Inst := .shift .asr sf rd rn k
def ROR (sf : Bool) (rd rn : Reg) (k : Nat) : Inst := .shift .ror sf rd rn k
def LSL_REG (sf : Bool) (rd rn rm : Reg) : Inst := .shiftv .lsl sf rd rn rm
def LSR_REG (sf : Bool) (rd rn rm : Reg) : Inst := .shiftv .lsr sf rd rn rm
def BFI (sf : Bool) (rd rn : Reg) (lsb : Nat) : Inst := .BFI sf rd rn lsb 1
def BFC (sf : Bool) (rd : Reg) (lsb : Nat) : Inst := .BFI sf rd xZR lsb 1

/-! ### The translator at an instruction -/

/-- What an emitter reads of `dyn`, of the instruction and of its `rex` prefix. -/
structure Emit where
  need_flags : BitVec 8
  dfnone : Bool
  rexw : Bool

namespace Emit

variable (dyn : Emit)

/-- The index of the sign bit. -/
def sign : Nat := if dyn.rexw then 63 else 31

def size : Nat := if dyn.rexw then 64 else 32

def needs (A : BitVec 8) : Bool := dyn.need_flags &&& A != 0

def IFX (A : BitVec 8) (code : List Inst) : List Inst := if dyn.needs A then code else []

def SET_DF (S : Reg) (N : DeferedFlags) : List Inst := [.MOV S (dfCode N), .STR .w32 S .df]

def SET_DFNONE (S : Reg) : List Inst := if dyn.dfnone then [] else [.MOV S (dfCode .d_none), .STR .w32 S .df]

/-! ### Fragments the emitters share -/

/-- `IFX(X_PEND) {...} else IFX(X_ALL) {SET_DFNONE(S);}`. -/
def pendOrNone (S : Reg) (pend : List Inst) : List Inst :=
  if dyn.needs X_PEND then pend else dyn.IFX X_ALL (dyn.SET_DFNONE S)

/-- The operands of the pending operation. -/
def pendOp (s1 s2 s4 : Reg) (N : DeferedFlags) : List Inst :=
  dyn.pendOrNone s4 ([STRxw_U12 dyn.rexw s1 .op1, STRxw_U12 dyn.rexw s2 .op2] ++ SET_DF s4 N)

/-- The operand and the constant count of the pending operation. -/
def pendOpc (s1 : Reg) (c : Nat) (s3 s4 : Reg) (N : DeferedFlags) : List Inst :=
  dyn.pendOrNone s4
    ([.MOV s3 (BitVec.ofNat 64 c), STRxw_U12 dyn.rexw s1 .op1, STRxw_U12 dyn.rexw s3 .op2] ++ SET_DF s4 N)

/-- The count alone: the flags of a rotate need no operand. -/
def pendCount (c : Nat) (s3 s4 : Reg) (N : DeferedFlags) : List Inst :=
  dyn.pendOrNone s4 ([.MOV s3 (BitVec.ofNat 64 c), STRxw_U12 dyn.rexw s3 .op2] ++ SET_DF s4 N)

def pendRes (s1 : Reg) : List Inst := dyn.IFX X_PEND [STRxw_U12 dyn.rexw s1 .res]

def setZF (sf : Bool) (s1 s4 : Reg) : List Inst :=
  dyn.IFX X_ZF [TST_REG sf s1 s1, .CSETw s4 .cEQ, BFI false xFlags s4 F_ZF]

def setSF (s1 s4 : Reg) : List Inst := dyn.IFX X_SF [LSR dyn.rexw s4 s1 dyn.sign, BFI true xFlags s4 F_SF]

/-- `OF` after a right shift by 1: the top two bits of the result differ. -/
def topTwoDiffer (s1 s4 : Reg) : List Inst :=
  [LSR dyn.rexw s4 s1 (dyn.sign - 1), EOR_REG_LSR false s4 s4 s4 1, BFI false xFlags s4 F_OF]

variable (host : Host)

/-- `PF: (((emu->x64emu_parity_tab[(res) / 32] >> ((res) % 32)) & 1) == 0)`. -/
def emit_pf (s1 s3 s4 : Reg) : List Inst :=
  [ AND_mask false s3 s1 0xE0,
    LSR false s3 s3 5,
    .MOV s4 host.GetParityTab,
    .LDRw_REG_LSL2 s4 s4 s3,
    AND_mask false s3 s1 0x1F,
    LSR_REG false s4 s4 s3,
    MVN_REG false s4 s4,
    BFI false xFlags s4 F_PF ]

def setPF (s1 s3 s4 : Reg) : List Inst := dyn.IFX X_PF (emit_pf host s1 s3 s4)

/-! ### Shifts -/

/-- `s3` can be the same as `s2`. -/
def emit_shl32 (s1 s2 s3 s4 : Reg) : List Inst :=
  dyn.pendOp s1 s2 s4 (.d_shl (opWidth dyn.rexw)) ++
  -- the source tests the bit index `F_OF` here, not the set `X_OF`
  dyn.IFX (BitVec.ofNat 8 F_OF)
    ([CMPS_U12 dyn.rexw s2 0] ++
      dyn.IFX (BitVec.ofNat 8 F_OF) [.Bcond .cNE 8, BFC true xFlags F_OF] ++
      dyn.IFX X_PEND [.Bcond .cNE 8, STRxw_U12 dyn.rexw s1 .res] ++
      [.B_NEXT .cEQ]) ++
  dyn.IFX (X_CF ||| X_OF)
    [.MOV s4 (BitVec.ofNat 64 dyn.size), SUB_REG dyn.rexw s4 s4 s2, LSR_REG dyn.rexw s4 s1 s4,
      BFI false xFlags s4 F_CF] ++
  [LSL_REG dyn.rexw s1 s1 s2] ++
  dyn.pendRes s1 ++
  dyn.setZF dyn.rexw s1 s4 ++
  dyn.setSF s1 s4 ++
  dyn.IFX X_OF
    ([CMPS_U12 dyn.rexw s2 1] ++
      (if dyn.needs X_SF then [] else [LSR dyn.rexw s4 s1 dyn.sign]) ++
      [EOR_REG dyn.rexw s4 s4 xFlags, .CSELw s4 s4 xZR .cEQ, BFI false xFlags s4 F_OF]) ++
  dyn.setPF host s1 s3 s4

/-- What `SHL` and `SHLD` by a constant 0 do after the operands are stored. -/
def keepLeft (s1 : Reg) : List Inst :=
  dyn.IFX (BitVec.ofNat 8 F_OF) [BFC true xFlags F_OF] ++ dyn.pendRes s1

def emit_shl32c (s1 : Reg) (c : Nat) (s3 s4 : Reg) : List Inst :=
  dyn.pendOpc s1 c s3 s4 (.d_shl (opWidth dyn.rexw)) ++
  if c = 0 then dyn.keepLeft s1 else
    dyn.IFX (X_CF ||| X_OF) [LSR dyn.rexw s3 s1 (dyn.size - c), BFI dyn.rexw xFlags s3 F_CF] ++
    [LSL dyn.rexw s1 s1 c] ++
    dyn.pendRes s1 ++
    dyn.setZF dyn.rexw s1 s4 ++
    dyn.setSF s1 s4 ++
    dyn.IFX X_OF
      (if c = 1 then
        (if dyn.needs X_SF then [] else [LSR dyn.rexw s4 s1 dyn.sign]) ++
          [EOR_REG dyn.rexw s4 s4 xFlags, BFI false xFlags s4 F_OF]
      else [BFC false xFlags F_OF]) ++
    dyn.setPF host s1 s3 s4

/-- `s2` can be the same as `s3`, the source says; but then the carry's count replaces the count. -/
def emit_shr32 (s1 s2 s3 s4 : Reg) : List Inst :=
  dyn.pendOp s1 s2 s4 (.d_shr (opWidth dyn.rexw)) ++
  dyn.IFX X_ALL
    ([CMPS_U12 dyn.rexw s2 0] ++
      dyn.IFX X_PEND [.Bcond .cNE 12, STRxw_U12 dyn.rexw s1 .res] ++
      [.B_NEXT .cEQ]) ++
  dyn.IFX X_CF [SUB_U12 dyn.rexw s3 s2 1, LSR_REG dyn.rexw s3 s1 s3, BFI false xFlags s3 0] ++
  [LSR_REG dyn.rexw s1 s1 s2] ++
  dyn.pendRes s1 ++
  dyn.setZF dyn.rexw s1 s4 ++
  dyn.setSF s1 s4 ++
  dyn.IFX X_OF ([CMPS_U12 dyn.rexw s2 1, .Bcond .cNE (4 + 3 * 4)] ++ dyn.topTwoDiffer s1 s4) ++
  dyn.setPF host s1 s3 s4

/-- `SHR`, `SAR` and `SHRD` by a constant: the carry is the last bit shifted out. -/
def lastOut (kind : Shift) (s1 : Reg) (c : Nat) (s3 : Reg) : List Inst :=
  dyn.IFX X_CF
    ((if 1 < c then [.shift kind dyn.rexw s3 s1 (c - 1)] else []) ++ [BFI false xFlags (if 1 < c then s3 else s1) 0])

def emit_shr32c (s1 : Reg) (c : Nat) (s3 s4 : Reg) : List Inst :=
  dyn.pendOpc s1 c s3 s4 (.d_shr (opWidth dyn.rexw)) ++
  if c = 0 then dyn.pendRes s1 else
    dyn.lastOut .lsr s1 c s3 ++
    [LSR dyn.rexw s1 s1 c] ++
    dyn.pendRes s1 ++
    dyn.setZF dyn.rexw s1 s4 ++
    dyn.setSF s1 s4 ++
    dyn.IFX X_OF (if c = 1 then dyn.topTwoDiffer s1 s4 else []) ++
    dyn.setPF host s1 s3 s4

def emit_sar32c (s1 : Reg) (c : Nat) (s3 s4 : Reg) : List Inst :=
  dyn.pendOpc s1 c s3 s4 (.d_sar (opWidth dyn.rexw)) ++
  if c = 0 then dyn.pendRes s1 else
    dyn.lastOut .asr s1 c s3 ++
    [ASR dyn.rexw s1 s1 c] ++
    dyn.pendRes s1 ++
    -- `TSTw_REG`, also for a 64-bit operand
    dyn.setZF false s1 s4 ++
    dyn.setSF s1 s4 ++
    dyn.setPF host s1 s3 s4

/-! ### Rotates -/

def emit_rol32c (s1 : Reg) (c : Nat) (s3 s4 : Reg) : List Inst :=
  -- `d_rol32`, also for a 64-bit operand
  dyn.pendCount c s3 s4 (.d_rol .w32) ++
  if c = 0 then dyn.pendRes s1 else
    [ROR dyn.rexw s1 s1 (dyn.size - c)] ++
    dyn.pendRes s1 ++
    dyn.IFX X_CF [BFI false xFlags s1 F_CF] ++
    dyn.IFX X_OF (if c = 1 then [ADD_REG_LSR dyn.rexw s3 s1 s1 dyn.sign, BFI false xFlags s3 F_OF] else [])

def emit_ror32c (s1 : Reg) (c : Nat) (s3 s4 : Reg) : List Inst :=
  dyn.pendCount c s3 s4 (.d_ror (opWidth dyn.rexw)) ++
  if c = 0 then dyn.pendRes s1 else
    [ROR dyn.rexw s1 s1 c] ++
    dyn.pendRes s1 ++
    dyn.IFX X_CF [LSR dyn.rexw s3 s1 dyn.sign, BFI false xFlags s3 F_CF] ++
    dyn.IFX X_OF
      (if c = 1 then
        -- the bit is made in `s3` but taken from `s4`
        [LSR dyn.rexw s3 s1 (dyn.sign - 1), EOR_REG_LSR dyn.rexw s3 s3 s3 1, BFI false xFlags s4 F_OF]
      else [])

/-! ### Double shifts -/

def emit_shrd32c (s1 s2 : Reg) (c : Nat) (s3 s4 : Reg) : List Inst :=
  let c := c &&& (if dyn.rexw then 0x3f else 0x1f)
  -- "same flags computation as with shl64/shl32"
  dyn.pendOpc s1 c s3 s4 (.d_shl (opWidth dyn.rexw)) ++
  if c = 0 then dyn.pendRes s1 else
    dyn.lastOut .lsr s1 c s3 ++
    [LSR dyn.rexw s3 s1 c, ORR_REG_LSL dyn.rexw s1 s3 s2 (dyn.size - c)] ++
    dyn.pendRes s1 ++
    dyn.setZF dyn.rexw s1 s4 ++
    dyn.setSF s1 s4 ++
    dyn.IFX X_OF (if c = 1 then dyn.topTwoDiffer s1 s4 else []) ++
    dyn.setPF host s1 s3 s4

def emit_shld32c (s1 s2 : Reg) (c : Nat) (s3 s4 : Reg) : List Inst :=
  let c := c &&& (if dyn.rexw then 0x3f else 0x1f)
  -- "same flags computation as with shl64/shl32"
  dyn.pendOpc s1 c s3 s4 (.d_shl (opWidth dyn.rexw)) ++
  if c = 0 then dyn.keepLeft s1 else
    dyn.IFX (X_CF ||| X_OF) [LSR dyn.rexw s3 s1 (dyn.size - c), BFI dyn.rexw xFlags s3 F_CF] ++
    [LSL dyn.rexw s3 s1 c, ORR_REG_LSR dyn.rexw s1 s3 s2 (dyn.size - c)] ++
    dyn.pendRes s1 ++
    dyn.setZF dyn.rexw s1 s4 ++
    dyn.setSF s1 s4 ++
    dyn.IFX X_OF
      (if c = 1 then
        [.UBFX dyn.rexw s3 s1 dyn.sign 1, EOR_REG dyn.rexw s3 s3 xFlags, BFI false xFlags s3 F_OF]
      else [BFC false xFlags F_OF]) ++
    dyn.setPF host s1 s3 s4

end Emit

end Box64.Arm64
