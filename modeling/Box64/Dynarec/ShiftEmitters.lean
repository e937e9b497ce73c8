import Box64.Dynarec.EmitFragments
import Box64.Emu.Primop
import Box64.Emu.EagerFlags

/-!
# Shift and rotate emitters against the interpreter

What the code of each emitter leaves in its operand, in `xFlags` and in the pending operation, against the
interpreter's primitive on the same operand, count and flags.
-/

namespace Box64.Arm64

open BitVec Emu Dynarec

inductive ShiftEmitter
  | shl32
  | shl32c
  | shr32
  | shr32c
  | sar32c
  | rol32c
  | ror32c
  | shrd32c
  | shld32c
  deriving DecidableEq

namespace ShiftEmitter

/-- The registers an emitter is called with. `s1` is the operand; `s2` the count of `shl32` and `shr32`, where it may
be `s3`, and the fill of a double shift, where it may be `s1`; `s3` and `s4` are scratch. -/
structure Registers (e : ShiftEmitter) where
  s1 : Reg
  s2 : Reg
  s3 : Reg
  s4 : Reg
  usable1 : Usable s1
  usable2 : Usable s2
  usable3 : Usable s3
  usable4 : Usable s4
  ne13 : s1 ≠ s3
  ne14 : s1 ≠ s4
  ne24 : s2 ≠ s4
  ne34 : s3 ≠ s4
  count_apart : e = shl32 ∨ e = shr32 → s1 ≠ s2
  fill_apart : e = shrd32c ∨ e = shld32c → s2 ≠ s3

variable (host : Host) (dyn : Emit)

def code (e : ShiftEmitter) (r : e.Registers) (cnt : Nat) : List Inst :=
  match e with
  | shl32 => dyn.emit_shl32 host r.s1 r.s2 r.s3 r.s4
  | shl32c => dyn.emit_shl32c host r.s1 cnt r.s3 r.s4
  | shr32 => dyn.emit_shr32 host r.s1 r.s2 r.s3 r.s4
  | shr32c => dyn.emit_shr32c host r.s1 cnt r.s3 r.s4
  | sar32c => dyn.emit_sar32c host r.s1 cnt r.s3 r.s4
  | rol32c => dyn.emit_rol32c r.s1 cnt r.s3 r.s4
  | ror32c => dyn.emit_ror32c r.s1 cnt r.s3 r.s4
  | shrd32c => dyn.emit_shrd32c host r.s1 r.s2 cnt r.s3 r.s4
  | shld32c => dyn.emit_shld32c host r.s1 r.s2 cnt r.s3 r.s4

/-- The count is in the second register of these. -/
def CountIn (e : ShiftEmitter) (r : e.Registers) (m : Cpu) (cnt : Nat) : Prop :=
  e = shl32 ∨ e = shr32 → (m.regs r.s2).toNat = cnt

/-- The interpreter's primitive. -/
def primop (w : Width) (emu : X64Emu) (d fill : BitVec w.bits) (s : BitVec 8) : ShiftEmitter → BitVec w.bits × X64Emu
  | shl32 | shl32c => shl w emu d s
  | shr32 | shr32c => shr w emu d s
  | sar32c => sar w emu d s
  | rol32c => rol w emu d s
  | ror32c => ror w emu d s
  | shrd32c => shrd w emu d fill s
  | shld32c => shld w emu d fill s

/-- The flags of the processor. -/
def eager {n : Nat} (ref : EagerFlags) (d fill : BitVec n) (cnt : Nat) : ShiftEmitter → EagerFlags
  | shl32 | shl32c => eagerShl ref d cnt
  | shr32 | shr32c => eagerShr ref d cnt
  | sar32c => eagerSar ref d cnt
  | rol32c => eagerRol ref d cnt
  | ror32c => eagerRor ref d cnt
  | shrd32c => eagerShrd ref d fill cnt
  | shld32c => eagerShld ref d fill cnt

/-- The instruction writes this flag; a rotate writes only `CF` and `OF`. -/
def writes (A : BitVec 8) : ShiftEmitter → Bool
  | rol32c | ror32c => A == X_CF || A == X_OF
  | _ => true

end ShiftEmitter

/-- Those flags of `ref` that have a value, with the values of `f`. -/
def shownBy (ref : EagerFlags) (f : X64Flags) : EagerFlags where
  CF := ref.CF.map fun _ => f.CF
  PF := ref.PF.map fun _ => f.PF
  AF := ref.AF.map fun _ => f.AF
  ZF := ref.ZF.map fun _ => f.ZF
  SF := ref.SF.map fun _ => f.SF
  OF := ref.OF.map fun _ => f.OF

/-- The flags of a set. -/
def only (asked : BitVec 8 → Bool) (ref : EagerFlags) : EagerFlags where
  CF := if asked X_CF then ref.CF else none
  PF := if asked X_PF then ref.PF else none
  AF := if asked X_AF then ref.AF else none
  ZF := if asked X_ZF then ref.ZF else none
  SF := if asked X_SF then ref.SF else none
  OF := if asked X_OF then ref.OF else none

namespace ShiftEmitter

variable (host : Host) (dyn : Emit) (e : ShiftEmitter) (r : e.Registers) (m : Cpu) (cnt : Nat)

def operand : BitVec (opSize dyn.rexw) := m.get dyn.rexw r.s1

def fill : BitVec (opSize dyn.rexw) := m.get dyn.rexw r.s2

/-- The interpreter from the same state, its flags up to date. -/
def interpreted : BitVec (opSize dyn.rexw) × X64Emu :=
  e.primop (opWidth dyn.rexw) { m.emu with df := .d_none } (e.operand dyn r m) (e.fill dyn r m) (BitVec.ofNat 8 cnt)

/-- The flags the instruction has to show: none changes for a count of 0, and otherwise the processor says which have
a value, and the interpreter what it is. -/
def expected : EagerFlags :=
  if cnt = 0 then m.flags.toEager else
    shownBy (e.eager m.flags.toEager (e.operand dyn r m) (e.fill dyn r m) cnt)
      (updateFlags (e.interpreted dyn r m cnt).2).eflags

/-- The code agrees with the interpreter. -/
structure Agrees : Prop where
  result : (exec host (e.code host dyn r cnt) m).get dyn.rexw r.s1 = (e.interpreted dyn r m cnt).1
  direct : (only (fun A => dyn.needs A || !e.writes A) (e.expected dyn r m cnt)).Agrees
    (exec host (e.code host dyn r cnt) m).flags
  pending : dyn.needs X_PEND = true →
    (e.expected dyn r m cnt).Agrees (updateFlags (exec host (e.code host dyn r cnt) m).emu).eflags

/-- `IFX(F_OF)` of the source holds: `F_OF` is 11, the set of `X_CF`, `X_PF` and `X_ZF`. -/
def testsOF : Bool := dyn.needs (BitVec.ofNat 8 F_OF)

/-- The low bit of what `emit_ror32c` takes for `OF`: the code of the pending operation, or of `d_none`, or what was
in the scratch register. -/
def strayBit : Bool :=
  if dyn.needs X_PEND then !dyn.rexw else if dyn.dfnone then (m.get false r.s4).getLsbD 0 else false

/-- When the code agrees with the interpreter. -/
def HoldsWhen : Prop :=
  let d := e.operand dyn r m
  match e with
  | shl32 =>
    cnt = 0 → (dyn.needs X_OF || dyn.needs X_PEND → m.flags.OF = false) ∧
      (testsOF dyn = false → (dyn.needs X_SF → m.flags.SF = d.msb) ∧
        (dyn.needs X_OF && dyn.needs X_PEND → m.flags.CF = d.getLsbD 0))
  | shl32c | shld32c => cnt = 0 → dyn.needs X_OF && testsOF dyn || dyn.needs X_PEND → m.flags.OF = false
  | shr32 =>
    r.s2 = r.s3 → dyn.needs X_CF → cnt ≠ 0 →
      d >>> ((d >>> (cnt - 1)).toNat % opSize dyn.rexw) = d >>> cnt ∧
        (dyn.needs X_OF → cnt = 1 → d ≠ 1 → m.flags.OF = d.msb)
  | shr32c => True
  | sar32c => dyn.needs X_ZF && dyn.rexw → cnt ≠ 0 → low 32 ((d.sshiftRight cnt).setWidth 64) = 0 → d.sshiftRight cnt = 0
  | rol32c =>
    dyn.needs X_PEND → (cnt = 0 → m.flags.CF = d.getLsbD 0) ∧
      (cnt = 1 → dyn.rexw → d.getLsbD 30 = d.getLsbD 62)
  | ror32c =>
    (dyn.needs X_PEND → cnt = 0 → m.flags.CF = d.msb) ∧
      (dyn.needs X_OF → cnt = 1 → strayBit dyn ror32c r m = (d.getLsbD 0 ^^ d.msb))
  | shrd32c =>
    dyn.needs X_PEND → (cnt = 0 → m.flags.OF = false) ∧
      (cnt ≠ 0 → d.getLsbD (opSize dyn.rexw - cnt) = d.getLsbD (cnt - 1))

end ShiftEmitter

end Box64.Arm64
