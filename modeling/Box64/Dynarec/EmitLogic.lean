import Box64.Dynarec.EmitFragments
import Box64.Emu.Primop

/-!
# Logic emitters

`dynarec_arm64_emit_logic.c`, and the `emit_test` functions of `dynarec_arm64_emit_tests.c`.
-/

namespace Box64.Arm64

open Emu Dynarec

def x3 : Reg := 3
def x4 : Reg := 4
def x5 : Reg := 5
def xRCX : Reg := 11

def ORR_REG (sf : Bool) (rd rn rm : Reg) : Inst := .alu .ORR false sf rd rn (.reg rm)
def AND_REG (sf : Bool) (rd rn rm : Reg) : Inst := .alu .AND false sf rd rn (.reg rm)
def ANDS_REG (sf : Bool) (rd rn rm : Reg) : Inst := .alu .AND true sf rd rn (.reg rm)
def ANDS_mask (sf : Bool) (rd rn : Reg) (mask : BitVec 64) : Inst := .alu .AND true sf rd rn (.imm mask)
def BIC_REG (sf : Bool) (rd rn rm : Reg) : Inst := .alu .BIC false sf rd rn (.reg rm)

/-- `MOV64xw` -/
def MOV64xw (rexw : Bool) (rd : Reg) (c : BitVec 64) : Inst := .MOV rd (if rexw then c else (low 32 c).setWidth 64)

namespace Emit

variable (dyn : Emit)

/-! ### What the emitters share -/

/-- `IFX(X_PEND) {SET_DF(S, N);} else IFX(X_ALL) {SET_DFNONE(S);}` -/
def pendDF (S : Reg) (N : DeferedFlags) : List Inst := dyn.pendOrNone S (SET_DF S N)

def clearCAO (s3 : Reg) : List Inst :=
  dyn.IFX (X_CF ||| X_AF ||| X_OF)
    [.MOV s3 (BitVec.ofNat 64 (1 <<< F_CF ||| 1 <<< F_AF ||| 1 <<< F_OF)), BIC_REG false xFlags xFlags s3]

/-- `test` leaves in the condition flags whether the result is 0. -/
def zeroFlag (test : List Inst) (s3 : Reg) : List Inst :=
  dyn.IFX X_ZF (test ++ [.CSETw s3 .cEQ, BFI false xFlags s3 F_ZF])

variable (host : Host)

/-- The flags of the emitters with a `rex` prefix. -/
def flagsxw (test : List Inst) (s1 s3 s4 : Reg) : List Inst :=
  dyn.clearCAO s3 ++ dyn.zeroFlag test s3 ++ dyn.setSF s1 s3 ++ dyn.setPF host s1 s3 s4

/-- The flags of the 8-bit and 16-bit emitters. -/
def flagsw (size : Width) (test : List Inst) (s1 s3 s4 : Reg) : List Inst :=
  dyn.clearCAO s3 ++ dyn.zeroFlag test s3 ++
    dyn.IFX X_SF [LSR false s3 s1 (size.bits - 1), BFI false xFlags s3 F_SF] ++ dyn.setPF host s1 s3 s4

/-! ### 32 and 64 bits -/

def emit_or32 (s1 s2 s3 s4 : Reg) : List Inst :=
  dyn.pendDF s4 (.d_or (opWidth dyn.rexw)) ++ [ORR_REG dyn.rexw s1 s1 s2] ++ dyn.pendRes s1 ++
    dyn.flagsxw host [TST_REG dyn.rexw s1 s1] s1 s3 s4

def emit_or32c (s1 : Reg) (c : BitVec 64) (s3 s4 : Reg) : List Inst :=
  dyn.pendDF s4 (.d_or (opWidth dyn.rexw)) ++ [MOV64xw dyn.rexw s3 c, ORR_REG dyn.rexw s1 s1 s3] ++ dyn.pendRes s1 ++
    dyn.flagsxw host [TST_REG dyn.rexw s1 s1] s1 s3 s4

def emit_xor32 (s1 s2 s3 s4 : Reg) : List Inst :=
  dyn.pendDF s4 (.d_xor (opWidth dyn.rexw)) ++ [EOR_REG dyn.rexw s1 s1 s2] ++ dyn.pendRes s1 ++
    dyn.flagsxw host [TST_REG dyn.rexw s1 s1] s1 s3 s4

def emit_xor32c (s1 : Reg) (c : BitVec 64) (s3 s4 : Reg) : List Inst :=
  dyn.pendDF s4 (.d_xor (opWidth dyn.rexw)) ++ [MOV64xw dyn.rexw s3 c, EOR_REG dyn.rexw s1 s1 s3] ++ dyn.pendRes s1 ++
    dyn.flagsxw host [TST_REG dyn.rexw s1 s1] s1 s3 s4

def emit_and32 (s1 s2 s3 s4 : Reg) : List Inst :=
  dyn.pendDF s4 (.d_and (opWidth dyn.rexw)) ++
    [if dyn.needs X_ZF then ANDS_REG dyn.rexw s1 s1 s2 else AND_REG dyn.rexw s1 s1 s2] ++ dyn.pendRes s1 ++
    dyn.flagsxw host [] s1 s3 s4

def emit_and32c (s1 : Reg) (c : BitVec 64) (s3 s4 : Reg) : List Inst :=
  dyn.pendDF s4 (.d_and (opWidth dyn.rexw)) ++
    [MOV64xw dyn.rexw s3 c, if dyn.needs X_ALL then ANDS_REG dyn.rexw s1 s1 s3 else AND_REG dyn.rexw s1 s1 s3] ++
    dyn.pendRes s1 ++ dyn.flagsxw host [] s1 s3 s4

/-! ### 8 bits

`s4` can be the same as `s2`. -/

def emit_or8 (s1 s2 s3 s4 : Reg) : List Inst :=
  dyn.pendDF s3 (.d_or .w8) ++ [ORR_REG false s1 s1 s2] ++ dyn.IFX X_PEND [.STR .w8 s1 .res] ++
    dyn.flagsw host .w8 [TST_REG false s1 s1] s1 s3 s4

def emit_or8c (s1 : Reg) (c : BitVec 64) (s3 s4 : Reg) : List Inst :=
  [.MOV s3 (c &&& 0xff)] ++ dyn.pendDF s4 (.d_or .w8) ++ [ORR_REG false s1 s1 s3] ++
    dyn.IFX X_PEND [.STR .w8 s1 .res] ++ dyn.flagsw host .w8 [TST_REG false s1 s1] s1 s3 s4

/-- The operation is on 64 bits. -/
def emit_xor8 (s1 s2 s3 s4 : Reg) : List Inst :=
  dyn.pendDF s3 (.d_xor .w8) ++ [EOR_REG true s1 s1 s2] ++ dyn.IFX X_PEND [.STR .w8 s1 .res] ++
    dyn.flagsw host .w8 [TST_REG false s1 s1] s1 s3 s4

def emit_xor8c (s1 : Reg) (c : BitVec 64) (s3 s4 : Reg) : List Inst :=
  [.MOV s3 (c &&& 0xff)] ++ dyn.pendDF s4 (.d_xor .w8) ++ [EOR_REG false s1 s1 s3] ++
    dyn.IFX X_PEND [.STR .w8 s1 .res] ++ dyn.flagsw host .w8 [TST_REG false s1 s1] s1 s3 s4

def emit_and8 (s1 s2 s3 s4 : Reg) : List Inst :=
  dyn.pendDF s3 (.d_and .w8) ++
    [if dyn.needs X_ZF then ANDS_REG false s1 s1 s2 else AND_REG false s1 s1 s2] ++
    dyn.IFX X_PEND [.STR .w8 s1 .res] ++ dyn.flagsw host .w8 [] s1 s3 s4

def emit_and8c (s1 : Reg) (c : BitVec 64) (s3 s4 : Reg) : List Inst :=
  [.MOV s3 (c &&& 0xff)] ++ dyn.pendDF s4 (.d_and .w8) ++
    [if dyn.needs X_ZF then ANDS_REG false s1 s1 s3 else AND_REG false s1 s1 s3] ++
    dyn.IFX X_PEND [.STR .w8 s1 .res] ++ dyn.flagsw host .w8 [] s1 s3 s4

/-! ### 16 bits

The result is only cut to 16 bits where `ZF` is computed. -/

def emit_or16 (s1 s2 s3 s4 : Reg) : List Inst :=
  dyn.pendDF s3 (.d_or .w16) ++ [ORR_REG false s1 s1 s2] ++ dyn.IFX X_PEND [.STR .w16 s1 .res] ++
    dyn.flagsw host .w16 [ANDS_mask false s1 s1 0xffff] s1 s3 s4

def emit_xor16 (s1 s2 s3 s4 : Reg) : List Inst :=
  dyn.pendDF s3 (.d_xor .w16) ++ [EOR_REG false s1 s1 s2] ++ dyn.IFX X_PEND [.STR .w16 s1 .res] ++
    dyn.flagsw host .w16 [ANDS_mask false s1 s1 0xffff] s1 s3 s4

/-- The result is stored twice. -/
def emit_and16 (s1 s2 s3 s4 : Reg) : List Inst :=
  dyn.pendDF s3 (.d_and .w16) ++
    [if dyn.needs X_ALL then ANDS_REG false s1 s1 s2 else AND_REG false s1 s1 s2] ++
    (dyn.IFX X_PEND [.STR .w16 s1 .res] ++ dyn.IFX X_PEND [.STR .w8 s1 .res]) ++ dyn.flagsw host .w16 [] s1 s3 s4

/-! ### Tests -/

/-- `IFX_PENDOR0` -/
def IFX_PENDOR0 (code other : List Inst) : List Inst :=
  if dyn.needs X_PEND || dyn.need_flags == 0 then code else other

/-- The parity is that of the high three bits of the result and the low five of `s1`. -/
def emit_test32 (s1 s2 s3 s4 : Reg) : List Inst :=
  dyn.IFX_PENDOR0 (SET_DF s3 (.d_tst (opWidth dyn.rexw))) (dyn.SET_DFNONE s4) ++ dyn.clearCAO s3 ++
    [ANDS_REG dyn.rexw s3 s1 s2] ++ dyn.IFX_PENDOR0 [STRxw_U12 dyn.rexw s3 .res] [] ++ dyn.zeroFlag [] s4 ++
    dyn.IFX X_SF [LSR dyn.rexw s4 s3 dyn.sign, BFI false xFlags s4 F_SF] ++
    dyn.IFX X_PF
      [ AND_mask false s3 s3 0xE0,
        LSR false s3 s3 5,
        .MOV s4 host.GetParityTab,
        .LDRw_REG_LSL2 s4 s4 s3,
        AND_mask false s3 s1 0x1F,
        LSR_REG false s4 s4 s3,
        MVN_REG true s4 s4,
        BFI false xFlags s4 F_PF ]

/-- What `emit_test16` and `emit_test8` share. -/
def emit_testw (size : Width) (s1 s2 s3 s4 s5 : Reg) : List Inst :=
  dyn.IFX_PENDOR0 (SET_DF s3 (.d_tst size)) (dyn.SET_DFNONE s4) ++ dyn.IFX X_OF [BFC false xFlags F_OF] ++
    dyn.IFX X_CF [BFC false xFlags F_CF] ++ [ANDS_REG false s5 s1 s2] ++ dyn.IFX_PENDOR0 [.STR size s5 .res] [] ++
    dyn.zeroFlag [] s4 ++ dyn.IFX X_SF [LSR false s4 s5 (size.bits - 1), BFI false xFlags s4 F_SF] ++
    dyn.setPF host s5 s3 s4

def emit_test16 (s1 s2 s3 s4 s5 : Reg) : List Inst := dyn.emit_testw host .w16 s1 s2 s3 s4 s5

def emit_test8 (s1 s2 s3 s4 s5 : Reg) : List Inst := dyn.emit_testw host .w8 s1 s2 s3 s4 s5

end Emit

end Box64.Arm64
