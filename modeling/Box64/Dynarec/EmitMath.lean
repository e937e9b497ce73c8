import Box64.Dynarec.EmitLogic

/-!
# Arithmetic emitters of 32 and 64 bits

From `dynarec_arm64_emit_math.c` and `dynarec_arm64_emit_tests.c`, those that take no carry and no constant.
-/

namespace Box64.Arm64

open Emu Dynarec

def ADD_REG (sf : Bool) (rd rn rm : Reg) : Inst := .alu .ADD false sf rd rn (.reg rm)
def ADDS_REG (sf : Bool) (rd rn rm : Reg) : Inst := .alu .ADD true sf rd rn (.reg rm)
def ADD_U12 (sf : Bool) (rd rn : Reg) (imm : BitVec 64) : Inst := .alu .ADD false sf rd rn (.imm (imm &&& 0xfff))
def ADDS_U12 (sf : Bool) (rd rn : Reg) (imm : BitVec 64) : Inst := .alu .ADD true sf rd rn (.imm (imm &&& 0xfff))
def SUBS_REG (sf : Bool) (rd rn rm : Reg) : Inst := .alu .SUB true sf rd rn (.reg rm)
def SUB_imm (sf : Bool) (rd rn : Reg) (imm : BitVec 64) : Inst := .alu .SUB false sf rd rn (.imm (imm &&& 0xfff))
def SUBS_imm (sf : Bool) (rd rn : Reg) (imm : BitVec 64) : Inst := .alu .SUB true sf rd rn (.imm (imm &&& 0xfff))
def NEG_REG (sf : Bool) (rd rm : Reg) : Inst := SUB_REG sf rd xZR rm
def NEGS_REG (sf : Bool) (rd rm : Reg) : Inst := SUBS_REG sf rd xZR rm
def ORN_REG (sf : Bool) (rd rn rm : Reg) : Inst := .alu .ORN false sf rd rn (.reg rm)
def ORR_mask (sf : Bool) (rd rn : Reg) (mask : BitVec 64) : Inst := .alu .ORR false sf rd rn (.imm mask)
def MOV_REG (sf : Bool) (rd rm : Reg) : Inst := ORR_REG sf rd xZR rm

/-- `inc` and `dec` leave `CF` alone. -/
def X_INC : BitVec 8 := X_ZF ||| X_OF ||| X_AF ||| X_SF ||| X_PF

namespace Emit

variable (dyn : Emit)

/-! ### What the emitters share -/

/-- `IFX(X_PEND) {...} else IFX(X_ZF|X_OF|X_AF|X_SF|X_PF) {SET_DFNONE(S);}` -/
def pendInc (s1 S : Reg) (N : DeferedFlags) : List Inst :=
  if dyn.needs X_PEND then STRxw_U12 dyn.rexw s1 .op1 :: SET_DF S N else dyn.IFX X_INC (dyn.SET_DFNONE S)

def pendOne (s1 S : Reg) (N : DeferedFlags) : List Inst := dyn.pendOrNone S (STRxw_U12 dyn.rexw s1 .op1 :: SET_DF S N)

/-- `IFX_PENDOR0` with the operands stored, `else {SET_DFNONE(S);}` -/
def pendCmp (s1 s2 S : Reg) : List Inst :=
  dyn.IFX_PENDOR0 ([STRxw_U12 dyn.rexw s1 .op1, STRxw_U12 dyn.rexw s2 .op2] ++ SET_DF S (.d_cmp (opWidth dyn.rexw)))
    (dyn.SET_DFNONE S)

/-- A condition of ARM64 put into a flag. -/
def condFlag (A : BitVec 8) (S : Reg) (cond : Cond) (F : Nat) : List Inst :=
  dyn.IFX A [.CSETw S cond, BFI false xFlags S F]

/-- A bit of a register put into a flag. -/
def bitFlag (A : BitVec 8) (sf : Bool) (S src : Reg) (k : Nat) (sb : Bool) (F : Nat) : List Inst :=
  dyn.IFX A [LSR sf S src k, BFI sb xFlags S F]

/-- `s3 = (op1 & op2) | ((op1 | op2) & ~ res)` -/
def joinCarries (sf : Bool) (res s3 s4 : Reg) : List Inst := [BIC_REG sf s3 s3 res, ORR_REG sf s3 s3 s4]

/-- `s3 = (~op1 & op2) | ((~op1 | op2) & res)` -/
def joinBorrows (sf : Bool) (res s3 s4 : Reg) : List Inst := [AND_REG sf s3 s3 res, ORR_REG sf s3 s3 s4]

/-- The chain joined and its bit 3 put into `AF`. -/
def chainAF (join : List Inst) (sb : Bool) (s3 s4 : Reg) : List Inst :=
  dyn.IFX X_AF (join ++ [LSR dyn.rexw s4 s3 3, BFI sb xFlags s4 F_AF])

variable (host : Host)

def signParity (sb : Bool) (s1 s3 s4 : Reg) : List Inst :=
  dyn.bitFlag X_SF dyn.rexw s3 s1 dyn.sign sb F_SF ++ dyn.setPF host s1 s3 s4

/-! ### The emitters -/

def emit_add32 (s1 s2 s3 s4 : Reg) : List Inst :=
  dyn.pendOp s1 s2 s3 (if dyn.rexw then .d_add .w64 else .d_add32b) ++
    dyn.IFX X_AF [ORR_REG dyn.rexw s3 s1 s2, AND_REG dyn.rexw s4 s1 s2] ++
    [if dyn.needs X_ALL then ADDS_REG dyn.rexw s1 s1 s2 else ADD_REG dyn.rexw s1 s1 s2] ++ dyn.pendRes s1 ++
    dyn.chainAF (joinCarries dyn.rexw s1 s3 s4) dyn.rexw s3 s4 ++ dyn.condFlag X_ZF s4 .cEQ F_ZF ++
    dyn.condFlag X_CF s4 .cCS F_CF ++ dyn.condFlag X_OF s4 .cVS F_OF ++ dyn.signParity host true s1 s3 s4

def emit_sub32 (s1 s2 s3 s4 : Reg) : List Inst :=
  dyn.pendOp s1 s2 s3 (.d_sub (opWidth dyn.rexw)) ++
    dyn.IFX X_AF [MVN_REG dyn.rexw s3 s1, ORR_REG dyn.rexw s3 s3 s2, BIC_REG dyn.rexw s4 s2 s1] ++
    [if dyn.needs X_ALL then SUBS_REG dyn.rexw s1 s1 s2 else SUB_REG dyn.rexw s1 s1 s2] ++ dyn.pendRes s1 ++
    dyn.chainAF (joinBorrows dyn.rexw s1 s3 s4) true s3 s4 ++ dyn.condFlag X_ZF s4 .cEQ F_ZF ++
    dyn.condFlag X_CF s4 .cCC F_CF ++ dyn.condFlag X_OF s4 .cVS F_OF ++ dyn.signParity host true s1 s3 s4

def emit_inc32 (s1 s3 s4 : Reg) : List Inst :=
  dyn.pendInc s1 s4 (.d_inc (opWidth dyn.rexw)) ++
    dyn.IFX X_AF [ORR_mask dyn.rexw s3 s1 1, AND_mask dyn.rexw s4 s1 1] ++
    [if dyn.needs (X_ZF ||| X_OF) then ADDS_U12 dyn.rexw s1 s1 1 else ADD_U12 dyn.rexw s1 s1 1] ++ dyn.pendRes s1 ++
    dyn.chainAF (joinCarries dyn.rexw s1 s3 s4) dyn.rexw s3 s4 ++ dyn.condFlag X_ZF s4 .cEQ F_ZF ++
    dyn.condFlag X_OF s4 .cVS F_OF ++ dyn.signParity host dyn.rexw s1 s3 s4

def emit_dec32 (s1 s3 s4 : Reg) : List Inst :=
  dyn.pendInc s1 s4 (.d_dec (opWidth dyn.rexw)) ++
    dyn.IFX X_AF [MVN_REG dyn.rexw s3 s1, AND_mask dyn.rexw s4 s3 1, ORR_mask dyn.rexw s3 s3 1] ++
    [if dyn.needs (X_ZF ||| X_OF) then SUBS_imm dyn.rexw s1 s1 1 else SUB_imm dyn.rexw s1 s1 1] ++ dyn.pendRes s1 ++
    dyn.chainAF (joinBorrows dyn.rexw s1 s3 s4) false s3 s4 ++ dyn.condFlag X_ZF s4 .cEQ F_ZF ++
    dyn.condFlag X_OF s4 .cVS F_OF ++ dyn.signParity host dyn.rexw s1 s3 s4

/-- The carry is that the operand is not 0. -/
def emit_neg32 (s1 s3 s4 : Reg) : List Inst :=
  dyn.pendOne s1 s3 (.d_neg (opWidth dyn.rexw)) ++
    dyn.IFX X_CF [TST_REG dyn.rexw s1 s1, .CSETw s4 .cNE, BFI false xFlags s4 F_CF] ++
    dyn.IFX X_AF [MOV_REG dyn.rexw s3 s1] ++
    [if dyn.needs (X_ZF ||| X_OF) then NEGS_REG dyn.rexw s1 s1 else NEG_REG dyn.rexw s1 s1] ++ dyn.pendRes s1 ++
    dyn.condFlag X_ZF s4 .cEQ F_ZF ++ dyn.condFlag X_OF s4 .cVS F_OF ++
    dyn.chainAF [ORR_REG dyn.rexw s3 s3 s1] false s3 s4 ++ dyn.signParity host false s1 s3 s4

def emit_cmp32 (s1 s2 s3 s4 s5 : Reg) : List Inst :=
  dyn.pendCmp s1 s2 s4 ++ dyn.IFX X_AF [ORN_REG dyn.rexw s3 s2 s1, BIC_REG dyn.rexw s4 s2 s1] ++
    [SUBS_REG dyn.rexw s5 s1 s2] ++ dyn.IFX_PENDOR0 [STRxw_U12 dyn.rexw s5 .res] [] ++
    dyn.chainAF (joinBorrows dyn.rexw s5 s3 s4) true s3 s4 ++ dyn.condFlag X_ZF s4 .cEQ F_ZF ++
    dyn.condFlag X_CF s4 .cCC F_CF ++ dyn.condFlag X_OF s4 .cVS F_OF ++ dyn.signParity host false s5 s3 s4

end Emit

end Box64.Arm64
