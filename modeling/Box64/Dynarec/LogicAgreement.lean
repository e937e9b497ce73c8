import Box64.Dynarec.LogicEmitters

/-!
# Every logic emitter agrees with the interpreter

The result, the flags asked for and the pending operation of each emitter of `dynarec_arm64_emit_logic.c` are those of the
interpreter's primitive.
-/

namespace Box64.Arm64

open BitVec Emu Dynarec

namespace Emit

variable (host : Host) (dyn : Emit) {s1 s2 s3 s4 src : Reg} {w : Width} {N : DeferedFlags} {op : AluOp} {set sop : Bool}
  {head store : List Inst}

theorem flagsxw_eq (test : List Inst) :
    dyn.flagsxw host test s1 s3 s4 = dyn.resultFlags host test dyn.rexw true dyn.sign s1 s3 s4 := by
  unfold flagsxw resultFlags setSF
  simp only [List.append_assoc]

theorem flagsw_eq (test : List Inst) :
    dyn.flagsw host w test s1 s3 s4 = dyn.resultFlags host test false false (w.bits - 1) s1 s3 s4 := by
  unfold flagsw resultFlags
  simp only [List.append_assoc]

theorem sign_last : dyn.sign + 1 = (opWidth dyn.rexw).bits := by
  unfold sign
  cases dyn.rexw <;> rfl

theorem stores_pendRes (m : Cpu) (u1 : Usable s1) : dyn.Stores (opWidth dyn.rexw) s1 m (exec host (dyn.pendRes s1) m) :=
  dyn.stores_STR host (opWidth dyn.rexw) m u1

/-- The condition flags of the operation show whether the result is 0. -/
theorem zero_of_operates {m m' : Cpu} (operated : Operates op set sop s1 src m m') (is : set = true)
    (small : (op.bits (m.get sop s1) (m.get sop src)).toNat < 2 ^ w.bits) :
    m'.nzcv.Z = (low w.bits (m'.regs s1) == 0) := by
  rw [operated.zero is, operated.result, beq_zero_low small, low, setWidth_setWidth_of_le _ w.bits_le]

/-! ### The forms of the code -/

section Forms
variable (m : Cpu) (apart : Apart s1 s3 s4) (bitwise : op.Bitwise) (real : src ≠ xZR) (straight : Straight head)
include apart bitwise real straight

/-- A `rex` prefix, and the result tested. -/
theorem leaves_xw_TST {s : BitVec (opWidth dyn.rexw).bits}
    (heads : dyn.Heads (opWidth dyn.rexw) s3 s4 N src s m (exec host head m)) :
    dyn.Leaves (opWidth dyn.rexw) s1 s3 s4 N (op.bits (low _ (m.regs s1)) s) m
      (exec host (head ++ [.alu op false dyn.rexw s1 s1 (.reg src)] ++ dyn.pendRes s1 ++
        dyn.flagsxw host [TST_REG dyn.rexw s1 s1] s1 s3 s4) m) := by
  rw [flagsxw_eq, List.append_assoc, List.append_assoc]
  refine dyn.leaves_parts host m apart bitwise real le_rfl le_rfl dyn.sign_last straight dyn.closed_pendRes rfl heads
    (fun m => dyn.stores_pendRes host m apart.usable1) ?_
  intro _ _ m' _ _ _
  exact tests_TST host apart le_rfl (m'.get dyn.rexw s1).isLt

/-- A `rex` prefix, and the condition flags set by the operation. -/
theorem leaves_xw {s : BitVec (opWidth dyn.rexw).bits} (sets : dyn.needs X_ZF = true → set = true)
    (heads : dyn.Heads (opWidth dyn.rexw) s3 s4 N src s m (exec host head m)) :
    dyn.Leaves (opWidth dyn.rexw) s1 s3 s4 N (op.bits (low _ (m.regs s1)) s) m
      (exec host (head ++ [.alu op set dyn.rexw s1 s1 (.reg src)] ++ dyn.pendRes s1 ++
        dyn.flagsxw host [] s1 s3 s4) m) := by
  rw [flagsxw_eq, List.append_assoc, List.append_assoc]
  refine dyn.leaves_parts host m apart bitwise real le_rfl le_rfl dyn.sign_last straight dyn.closed_pendRes rfl heads
    (fun m => dyn.stores_pendRes host m apart.usable1) ?_
  intro m2 operated m' here cond needed
  refine tests_nil host ?_
  rw [here, cond]
  exact zero_of_operates operated (sets needed) (op.bits _ _).isLt

/-- 8 bits, and the result tested. -/
theorem leaves_w8_TST {s : BitVec 8} (heads : dyn.Heads .w8 s3 s4 N src s m (exec host head m))
    (small : ((exec host head m).get false s1).toNat < 2 ^ 8) (small2 : ((exec host head m).get false src).toNat < 2 ^ 8) :
    dyn.Leaves .w8 s1 s3 s4 N (op.bits (low 8 (m.regs s1)) s) m
      (exec host (head ++ [.alu op false sop s1 s1 (.reg src)] ++ dyn.IFX X_PEND [.STR .w8 s1 .res] ++
        dyn.flagsw host .w8 [TST_REG false s1 s1] s1 s3 s4) m) := by
  have le : opSize false ≤ opSize sop := by cases sop <;> decide
  have wide : Width.bits .w8 ≤ opSize sop := le_trans (by decide) le
  rw [flagsw_eq, List.append_assoc, List.append_assoc]
  refine dyn.leaves_parts host m apart bitwise real wide (by decide) rfl straight (dyn.closed_IFX (Straight.closed rfl)) rfl heads
    (fun m => dyn.stores_STR host .w8 m apart.usable1) ?_
  intro m2 operated m' here _ _
  refine tests_TST host apart (by decide) ?_
  have same : m'.get false s1 = m2.get false s1 := by rw [Cpu.get, Cpu.get, here]
  have read : ∀ r, r ≠ xZR → ((exec host head m).get sop r).setWidth (opSize false) = (exec host head m).get false r := by
    intro r ne
    rw [setWidth_get ne le, Cpu.get_of_ne _ r false ne]
  rw [same, operated.get apart.usable1, bitwise.low, read s1 apart.usable1.not_zero, read src real]
  exact bitwise.lt small small2

/-- 8 or 16 bits, and the condition flags set by the operation. -/
theorem leaves_w {s : BitVec w.bits} (narrow : w.bits ≤ 32) (sets : dyn.needs X_ZF = true → set = true)
    (heads : dyn.Heads w s3 s4 N src s m (exec host head m)) (closed : Closed host store)
    (stores : ∀ m, dyn.Stores w s1 m (exec host store m))
    (small : (op.bits ((exec host head m).get false s1) ((exec host head m).get false src)).toNat < 2 ^ w.bits) :
    dyn.Leaves w s1 s3 s4 N (op.bits (low w.bits (m.regs s1)) s) m
      (exec host (head ++ [.alu op set false s1 s1 (.reg src)] ++ store ++ dyn.flagsw host w [] s1 s3 s4) m) := by
  have pos := w.bits_pos
  rw [flagsw_eq, List.append_assoc, List.append_assoc]
  refine dyn.leaves_parts host m apart bitwise real narrow narrow (by omega) straight closed rfl heads stores ?_
  intro m2 operated m' here cond needed
  refine tests_nil host ?_
  rw [here, cond]
  exact zero_of_operates operated (sets needed) small

/-- 16 bits, and the result cut. -/
theorem leaves_w16_mask {s : BitVec 16} (heads : dyn.Heads .w16 s3 s4 N src s m (exec host head m)) :
    dyn.Leaves .w16 s1 s3 s4 N (op.bits (low 16 (m.regs s1)) s) m
      (exec host (head ++ [.alu op false false s1 s1 (.reg src)] ++ dyn.IFX X_PEND [.STR .w16 s1 .res] ++
        dyn.flagsw host .w16 [ANDS_mask false s1 s1 0xffff] s1 s3 s4) m) := by
  rw [flagsw_eq, List.append_assoc, List.append_assoc]
  refine dyn.leaves_parts host m apart bitwise real (by decide) (by decide) rfl straight (dyn.closed_IFX (Straight.closed rfl)) rfl heads
    (fun m => dyn.stores_STR host .w16 m apart.usable1) ?_
  intro _ _ m' _ _ _
  exact tests_mask host apart

end Forms

theorem ANDS_or_AND (b : Bool) (sf : Bool) (rd rn rm : Reg) :
    (if b then ANDS_REG sf rd rn rm else AND_REG sf rd rn rm) = .alu .AND b sf rd rn (.reg rm) := by
  cases b <;> rfl

theorem needs_all_of_ZF (needed : dyn.needs X_ZF = true) : dyn.needs X_ALL = true := by
  have all : X_ALL = X_ZF ||| X_ALL := by decide
  rw [all, needs_or, needed, Bool.true_or]

theorem low_MOV64xw (rexw : Bool) (c : BitVec 64) :
    low (opWidth rexw).bits (if rexw then c else (low 32 c).setWidth 64) = low (opWidth rexw).bits c := by
  cases rexw
  · exact setWidth_setWidth_of_le _ (by decide)
  · rfl

theorem heads_MOV64xw (m : Cpu) (N : DeferedFlags) (apart : Apart s1 s3 s4) (c : BitVec 64) :
    dyn.Heads (opWidth dyn.rexw) s3 s4 N s3 (low _ c) m (exec host (dyn.pendDF s4 N ++ [MOV64xw dyn.rexw s3 c]) m) := by
  have heads : dyn.Heads (opWidth dyn.rexw) s3 s4 N s3 _ _ _ := dyn.heads_const host m N apart (if dyn.rexw then c else (low 32 c).setWidth 64)
  rwa [low_MOV64xw] at heads

theorem straight_append {a b : List Inst} (left : Straight a) (right : Straight b) : Straight (a ++ b) := by
  unfold Straight at left right ⊢
  rw [List.all_append, left, right, Bool.true_and]

theorem straight_MOV64xw (S : Reg) (N : DeferedFlags) (s3 : Reg) (c : BitVec 64) :
    Straight (dyn.pendDF S N ++ [MOV64xw dyn.rexw s3 c]) :=
  straight_append (dyn.straight_pendDF S N) (show Straight [MOV64xw dyn.rexw s3 c] from rfl)

theorem straight_MOV (S : Reg) (N : DeferedFlags) (s3 : Reg) (c : BitVec 64) : Straight ([.MOV s3 c] ++ dyn.pendDF S N) :=
  straight_append (show Straight [.MOV s3 c] from rfl) (dyn.straight_pendDF S N)

theorem byte_const (sf : Bool) (c : BitVec 64) :
    (low (opSize sf) (c &&& 0xff)).toNat < 2 ^ 8 ∧ low 8 (c &&& 0xff) = low 8 c := by
  have small : (c &&& 0xff).toNat < 2 ^ 8 := by
    rw [toNat_and]
    exact Nat.and_lt_two_pow _ (by decide)
  refine ⟨?_, ?_⟩
  · rw [low, toNat_setWidth]
    exact lt_of_le_of_lt (Nat.mod_le _ _) small
  · rw [low, setWidth_and, show (0xff : BitVec 64).setWidth 8 = allOnes 8 by decide, and_allOnes]
    rfl

theorem heads_byte (m : Cpu) (N : DeferedFlags) (apart : Apart s1 s3 s4) (c : BitVec 64) :
    dyn.Heads .w8 s3 s4 N s3 (low 8 c) m (exec host ([.MOV s3 (c &&& 0xff)] ++ dyn.pendDF s4 N) m) := by
  have heads : dyn.Heads .w8 s3 s4 N s3 _ _ _ := dyn.const_heads host m N apart (c &&& 0xff)
  rwa [show low (Width.bits .w8) (c &&& 0xff) = low 8 c from (byte_const false c).2] at heads

end Emit

/-! ### The emitters -/

inductive LogicEmitter
  | or32
  | or32c
  | xor32
  | xor32c
  | and32
  | and32c
  | or8
  | or8c
  | xor8
  | xor8c
  | and8
  | and8c
  | or16
  | xor16
  | and16
  deriving DecidableEq

namespace LogicEmitter

/-- The second operand is a constant. -/
def constant : LogicEmitter → Bool
  | or32c | xor32c | and32c | or8c | xor8c | and8c => true
  | _ => false

def size (rexw : Bool) : LogicEmitter → Width
  | or32 | or32c | xor32 | xor32c | and32 | and32c => opWidth rexw
  | or8 | or8c | xor8 | xor8c | and8 | and8c => .w8
  | or16 | xor16 | and16 => .w16

/-- The register in which the number of the operation is made. -/
def numbered (s3 s4 : Reg) : LogicEmitter → Reg
  | or8 | xor8 | and8 | or16 | xor16 | and16 => s3
  | _ => s4

/-- The registers an emitter is called with; `s2` may be `s1`, or the scratch register the number is not made in. -/
structure Registers (e : LogicEmitter) where
  s1 : Reg
  s2 : Reg
  s3 : Reg
  s4 : Reg
  apart : Emit.Apart s1 s3 s4
  usable2 : Usable s2
  kept : s2 ≠ e.numbered s3 s4

variable (host : Host) (dyn : Emit)

def code (e : LogicEmitter) (r : e.Registers) (c : BitVec 64) : List Inst :=
  match e with
  | or32 => dyn.emit_or32 host r.s1 r.s2 r.s3 r.s4
  | or32c => dyn.emit_or32c host r.s1 c r.s3 r.s4
  | xor32 => dyn.emit_xor32 host r.s1 r.s2 r.s3 r.s4
  | xor32c => dyn.emit_xor32c host r.s1 c r.s3 r.s4
  | and32 => dyn.emit_and32 host r.s1 r.s2 r.s3 r.s4
  | and32c => dyn.emit_and32c host r.s1 c r.s3 r.s4
  | or8 => dyn.emit_or8 host r.s1 r.s2 r.s3 r.s4
  | or8c => dyn.emit_or8c host r.s1 c r.s3 r.s4
  | xor8 => dyn.emit_xor8 host r.s1 r.s2 r.s3 r.s4
  | xor8c => dyn.emit_xor8c host r.s1 c r.s3 r.s4
  | and8 => dyn.emit_and8 host r.s1 r.s2 r.s3 r.s4
  | and8c => dyn.emit_and8c host r.s1 c r.s3 r.s4
  | or16 => dyn.emit_or16 host r.s1 r.s2 r.s3 r.s4
  | xor16 => dyn.emit_xor16 host r.s1 r.s2 r.s3 r.s4
  | and16 => dyn.emit_and16 host r.s1 r.s2 r.s3 r.s4

/-- The interpreter's primitive. -/
def primop (w : Width) (emu : X64Emu) (d s : BitVec w.bits) : LogicEmitter → BitVec w.bits × X64Emu
  | or32 | or32c | or8 | or8c | or16 => or w emu d s
  | xor32 | xor32c | xor8 | xor8c | xor16 => xor w emu d s
  | and32 | and32c | and8 | and8c | and16 => and w emu d s

def op : LogicEmitter → AluOp
  | or32 | or32c | or8 | or8c | or16 => .ORR
  | xor32 | xor32c | xor8 | xor8c | xor16 => .EOR
  | and32 | and32c | and8 | and8c | and16 => .AND

def operation (w : Width) : LogicEmitter → DeferedFlags
  | or32 | or32c | or8 | or8c | or16 => .d_or w
  | xor32 | xor32c | xor8 | xor8c | xor16 => .d_xor w
  | and32 | and32c | and8 | and8c | and16 => .d_and w

section Agreement
variable (e : LogicEmitter) (r : e.Registers) (m : Cpu) (c : BitVec 64)

def operand2 : BitVec (e.size dyn.rexw).bits := if e.constant then low _ c else low _ (m.regs r.s2)

/-- The interpreter from the same state, its flags up to date. -/
def interpreted : BitVec (e.size dyn.rexw).bits × X64Emu :=
  e.primop (e.size dyn.rexw) { m.emu with df := .d_none } (low _ (m.regs r.s1)) (e.operand2 dyn r m c)

/-- The operands of the 8-bit emitters come without bits above them, and so does one of the operands of `emit_and16`. -/
def Narrow : Prop :=
  match e with
  | or8 | xor8 => (m.get false r.s1).toNat < 2 ^ 8 ∧ (m.get false r.s2).toNat < 2 ^ 8
  | or8c | xor8c => (m.get false r.s1).toNat < 2 ^ 8
  | and8 => (m.get false r.s1).toNat < 2 ^ 8 ∨ (m.get false r.s2).toNat < 2 ^ 8
  | and16 => (m.get false r.s1).toNat < 2 ^ 16 ∨ (m.get false r.s2).toNat < 2 ^ 16
  | _ => True

/-- The code agrees with the interpreter, and leaves the other registers alone. -/
structure Agrees : Prop where
  result : low _ ((exec host (e.code host dyn r c) m).regs r.s1) = (e.interpreted dyn r m c).1
  direct : (only dyn.needs (updateFlags (e.interpreted dyn r m c).2).eflags.toEager).Agrees
    (exec host (e.code host dyn r c) m).flags
  pending : dyn.needs X_PEND = true →
    (updateFlags (exec host (e.code host dyn r c) m).emu).eflags = (updateFlags (e.interpreted dyn r m c).2).eflags
  settled : dyn.needs X_PEND = false → dyn.needs X_ALL = true → (dyn.dfnone = true → m.emu.df = .d_none) →
    (exec host (e.code host dyn r c) m).emu.df = .d_none
  others : ∀ q, q ≠ xFlags → q ≠ r.s1 → q ≠ r.s3 → q ≠ r.s4 → (exec host (e.code host dyn r c) m).regs q = m.regs q

end Agreement

/-! ### Agreement -/

section Agreement
variable (e : LogicEmitter) (r : e.Registers) (m : Cpu) (c : BitVec 64)

/-- The flags of a bitwise result. -/
def resultFlags {w : Width} (v : BitVec w.bits) : X64Flags where
  CF := false
  PF := PARITY (v.setWidth 8)
  AF := false
  ZF := v == 0
  SF := v.msb
  OF := false

theorem interpreted_eq : (e.interpreted dyn r m c).1 = e.op.bits (low _ (m.regs r.s1)) (e.operand2 dyn r m c) ∧
    (updateFlags (e.interpreted dyn r m c).2).eflags = resultFlags (e.interpreted dyn r m c).1 := by
  have stored : ∀ (w : Width) (cell : BitVec 64) (v : BitVec w.bits), low w.bits (setLow cell v) = v :=
    fun w cell v => low_setLow w.bits_le cell v
  unfold interpreted
  cases e <;> exact ⟨stored _ _ _, rfl⟩

theorem logicFlags_eq (emu : X64Emu) (w : Width) (is : emu.df = e.operation w) :
    (updateFlags emu).eflags = resultFlags (low w.bits emu.res) := by
  unfold updateFlags deferedFlags
  cases e <;> rw [is] <;> rfl

/-- The flags asked for are all those of the result. -/
theorem asked_flagsOfResult (f : X64Flags) {w : Width} (v : BitVec w.bits) :
    (only dyn.needs (resultFlags v).toEager).Agrees (dyn.flagsOfResult f v) := by
  have three : dyn.needs (X_CF ||| X_AF ||| X_OF) = (dyn.needs X_CF || dyn.needs X_AF || dyn.needs X_OF) := by
    rw [dyn.needs_or, dyn.needs_or]
  unfold Emit.flagsOfResult
  rw [three]
  constructor <;> unfold only X64Flags.toEager <;> dsimp only <;> split <;> simp_all [resultFlags]

theorem agrees_of_leaves (leaves : dyn.Leaves (e.size dyn.rexw) r.s1 r.s3 r.s4 (e.operation (e.size dyn.rexw))
      (e.op.bits (low _ (m.regs r.s1)) (e.operand2 dyn r m c)) m (exec host (e.code host dyn r c) m)) :
    e.Agrees host dyn r m c := by
  obtain ⟨result, flags, regs, df, res, none⟩ := leaves
  obtain ⟨value, eflags⟩ := e.interpreted_eq dyn r m c
  refine ⟨result.trans value.symm, ?_, ?_, none, regs⟩
  · rw [eflags, value, flags]
    exact asked_flagsOfResult dyn m.flags _
  · intro needed
    rw [e.logicFlags_eq _ _ (df needed), res needed, eflags, value]

/-- A register head leaves both operands. -/
theorem get_pendDF {S q : Reg} (N : DeferedFlags) (u : Usable S) (uq : Usable q) (ne : q ≠ S) (sf : Bool) :
    (exec host (dyn.pendDF S N) m).get sf q = m.get sf q := by
  obtain ⟨keeps, _⟩ := dyn.pendDF_spec host m N u
  rw [Cpu.get, Cpu.get, keeps.regs q uq.not_flags (by simpa using ne)]

theorem get_constHead {s1 s3 s4 : Reg} (N : DeferedFlags) (apart : Emit.Apart s1 s3 s4) (sf : Bool) :
    (exec host ([.MOV s3 c] ++ dyn.pendDF s4 N) m).get sf s1 = m.get sf s1 ∧
      (exec host ([.MOV s3 c] ++ dyn.pendDF s4 N) m).get sf s3 = low _ c := by
  show (exec host (dyn.pendDF s4 N) (m.set s3 c)).get sf s1 = _ ∧ (exec host (dyn.pendDF s4 N) (m.set s3 c)).get sf s3 = _
  rw [get_pendDF host dyn _ N apart.usable4 apart.usable1 apart.ne14, get_pendDF host dyn _ N apart.usable4 apart.usable3 apart.ne34,
    get_set_of_ne m c apart.ne13, get_set m c apart.usable3, setWidth_eq]
  exact ⟨rfl, rfl⟩

theorem leaves (narrow : e.Narrow r m) :
    dyn.Leaves (e.size dyn.rexw) r.s1 r.s3 r.s4 (e.operation (e.size dyn.rexw))
      (e.op.bits (low _ (m.regs r.s1)) (e.operand2 dyn r m c)) m (exec host (e.code host dyn r c) m) := by
  obtain ⟨s1, s2, s3, s4, apart, u2, kept⟩ := r
  have straight := fun S N => dyn.straight_pendDF S N
  have real3 := apart.usable3.not_zero
  have in3 : s3 ∈ [s3, s4] := by simp
  have in4 : s4 ∈ [s3, s4] := by simp
  have closed : ∀ w, Closed host (dyn.IFX X_PEND [.STR w s1 .res]) := fun w => dyn.closed_IFX (Straight.closed rfl)
  cases e with
  | or32 =>
    exact dyn.leaves_xw_TST host m apart .orr u2.not_zero (straight _ _) (dyn.heads_reg host m _ apart.usable4 in4 u2 kept)
  | xor32 =>
    exact dyn.leaves_xw_TST host m apart .eor u2.not_zero (straight _ _) (dyn.heads_reg host m _ apart.usable4 in4 u2 kept)
  | and32 =>
    show dyn.Leaves _ s1 s3 s4 _ _ m (exec host (dyn.emit_and32 host s1 s2 s3 s4) m)
    unfold Emit.emit_and32
    rw [Emit.ANDS_or_AND]
    exact dyn.leaves_xw host m apart .and u2.not_zero (straight _ _) (fun needed => needed)
      (dyn.heads_reg host m _ apart.usable4 in4 u2 kept)
  | or32c =>
    have heads := dyn.heads_MOV64xw host m (.d_or (opWidth dyn.rexw)) apart c
    show dyn.Leaves _ s1 s3 s4 _ _ m (exec host (dyn.emit_or32c host s1 c s3 s4) m)
    unfold Emit.emit_or32c
    rw [List.append_cons (dyn.pendDF _ _) _ [_]]
    exact dyn.leaves_xw_TST host m apart .orr real3 (dyn.straight_MOV64xw _ _ _ _) heads
  | xor32c =>
    have heads := dyn.heads_MOV64xw host m (.d_xor (opWidth dyn.rexw)) apart c
    show dyn.Leaves _ s1 s3 s4 _ _ m (exec host (dyn.emit_xor32c host s1 c s3 s4) m)
    unfold Emit.emit_xor32c
    rw [List.append_cons (dyn.pendDF _ _) _ [_]]
    exact dyn.leaves_xw_TST host m apart .eor real3 (dyn.straight_MOV64xw _ _ _ _) heads
  | and32c =>
    have heads := dyn.heads_MOV64xw host m (.d_and (opWidth dyn.rexw)) apart c
    show dyn.Leaves _ s1 s3 s4 _ _ m (exec host (dyn.emit_and32c host s1 c s3 s4) m)
    unfold Emit.emit_and32c
    rw [List.append_cons (dyn.pendDF _ _) _ [_], Emit.ANDS_or_AND]
    exact dyn.leaves_xw host m apart .and real3 (dyn.straight_MOV64xw _ _ _ _) dyn.needs_all_of_ZF heads
  | or8 =>
    refine dyn.leaves_w8_TST host m apart .orr u2.not_zero (straight _ _) (dyn.heads_reg host m _ apart.usable3 in3 u2 kept) ?_ ?_
    · exact (congrArg BitVec.toNat (get_pendDF host dyn m _ apart.usable3 apart.usable1 apart.ne13 false)).trans_lt narrow.1
    · exact (congrArg BitVec.toNat (get_pendDF host dyn m _ apart.usable3 u2 kept false)).trans_lt narrow.2
  | xor8 =>
    refine dyn.leaves_w8_TST host m apart .eor u2.not_zero (straight _ _) (dyn.heads_reg host m _ apart.usable3 in3 u2 kept) ?_ ?_
    · exact (congrArg BitVec.toNat (get_pendDF host dyn m _ apart.usable3 apart.usable1 apart.ne13 false)).trans_lt narrow.1
    · exact (congrArg BitVec.toNat (get_pendDF host dyn m _ apart.usable3 u2 kept false)).trans_lt narrow.2
  | or8c =>
    have heads := dyn.heads_byte host m (.d_or .w8) apart c
    obtain ⟨get1, get3⟩ := get_constHead host dyn m (c &&& 0xff) (.d_or .w8) apart false
    have small := (Emit.byte_const false c).1
    refine dyn.leaves_w8_TST host m apart .orr real3 (dyn.straight_MOV _ _ _ _) heads ?_ ?_
    · exact (congrArg BitVec.toNat get1).trans_lt narrow
    · exact (congrArg BitVec.toNat get3).trans_lt small
  | xor8c =>
    have heads := dyn.heads_byte host m (.d_xor .w8) apart c
    obtain ⟨get1, get3⟩ := get_constHead host dyn m (c &&& 0xff) (.d_xor .w8) apart false
    have small := (Emit.byte_const false c).1
    refine dyn.leaves_w8_TST host m apart .eor real3 (dyn.straight_MOV _ _ _ _) heads ?_ ?_
    · exact (congrArg BitVec.toNat get1).trans_lt narrow
    · exact (congrArg BitVec.toNat get3).trans_lt small
  | and8 =>
    show dyn.Leaves _ s1 s3 s4 _ _ m (exec host (dyn.emit_and8 host s1 s2 s3 s4) m)
    unfold Emit.emit_and8
    rw [Emit.ANDS_or_AND]
    refine dyn.leaves_w host m apart .and u2.not_zero (straight _ _) (show Width.bits .w8 ≤ 32 by decide) (fun needed => needed)
      (dyn.heads_reg host m _ apart.usable3 in3 u2 kept) (closed _) (fun m => dyn.stores_STR host .w8 m apart.usable1) ?_
    rw [get_pendDF host dyn m _ apart.usable3 apart.usable1 apart.ne13 false, get_pendDF host dyn m _ apart.usable3 u2 kept false]
    exact and_lt narrow
  | and8c =>
    have heads := dyn.heads_byte host m (.d_and .w8) apart c
    obtain ⟨get1, get3⟩ := get_constHead host dyn m (c &&& 0xff) (.d_and .w8) apart false
    have small := (Emit.byte_const false c).1
    show dyn.Leaves _ s1 s3 s4 _ _ m (exec host (dyn.emit_and8c host s1 c s3 s4) m)
    unfold Emit.emit_and8c
    rw [Emit.ANDS_or_AND]
    refine dyn.leaves_w host m apart .and real3 (dyn.straight_MOV _ _ _ _) (show Width.bits .w8 ≤ 32 by decide) (fun needed => needed)
      heads (closed _) (fun m => dyn.stores_STR host .w8 m apart.usable1) ?_
    rw [get3]
    exact and_lt (Or.inr small)
  | or16 =>
    exact dyn.leaves_w16_mask host m apart .orr u2.not_zero (straight _ _) (dyn.heads_reg host m _ apart.usable3 in3 u2 kept)
  | xor16 =>
    exact dyn.leaves_w16_mask host m apart .eor u2.not_zero (straight _ _) (dyn.heads_reg host m _ apart.usable3 in3 u2 kept)
  | and16 =>
    show dyn.Leaves _ s1 s3 s4 _ _ m (exec host (dyn.emit_and16 host s1 s2 s3 s4) m)
    unfold Emit.emit_and16
    rw [Emit.ANDS_or_AND]
    refine dyn.leaves_w host m apart .and u2.not_zero (straight _ _) (show Width.bits .w16 ≤ 32 by decide) dyn.needs_all_of_ZF
      (dyn.heads_reg host m _ apart.usable3 in3 u2 kept) ((closed _).append (closed _))
      (fun m => dyn.stores_twice host m apart.usable1) ?_
    rw [get_pendDF host dyn m _ apart.usable3 apart.usable1 apart.ne13 false, get_pendDF host dyn m _ apart.usable3 u2 kept false]
    exact and_lt narrow

end Agreement

/-- Every emitter agrees with the interpreter. -/
theorem emitters_agree (host : Host) (dyn : Emit) (e : LogicEmitter) (r : e.Registers) (m : Cpu) (c : BitVec 64)
    (narrow : e.Narrow r m) : e.Agrees host dyn r m c :=
  agrees_of_leaves host dyn e r m c (leaves host dyn e r m c narrow)

theorem usable_x1 : Usable x1 := ⟨by decide, by decide, by decide⟩
theorem usable_x2 : Usable x2 := ⟨by decide, by decide, by decide⟩
theorem usable_x4 : Usable x4 := ⟨by decide, by decide, by decide⟩

theorem apart_aliased : Emit.Apart x1 x4 x2 := ⟨usable_x1, usable_x4, usable_x2, by decide, by decide, by decide⟩

theorem kept_aliased : x2 ≠ or8.numbered x4 x2 := by decide

/-- `emit_or8(dyn, ninst, x1, x2, x4, x2)` -/
def aliased : or8.Registers where
  s1 := x1
  s2 := x2
  s3 := x4
  s4 := x2
  apart := apart_aliased
  usable2 := usable_x2
  kept := kept_aliased

/-- Every register has the number 12. -/
def twelves : Cpu := { regs := fun _ => 12, nzcv := ⟨false, false, false, false⟩, fields := fun _ => 0 }

theorem emitters_agree_or8 : or8.Agrees tableHost ⟨X_ALL, false, false⟩ aliased twelves 0 :=
  emitters_agree tableHost ⟨X_ALL, false, false⟩ or8 aliased twelves 0 ⟨by decide, by decide⟩

end LogicEmitter

end Box64.Arm64
