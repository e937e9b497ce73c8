import Box64.Emu.Run66
import Box64.Emu.UpperHalf

/-!
# The prefix `0x66` under `REX.W`

For which bytes `Run66` does with `rex.w` what `Run` does with the same bytes: the processor takes no notice of `0x66` where
the operand already has 64 bits.
-/

namespace Box64.Emu

open BitVec Memory AddressForm

/-! ### The bytes -/

section Bytes

variable (code : Memory) (rex : Rex) (R_RIP : BitVec 64)

def opcodeAt : BitVec 8 := code.load 8 R_RIP

def nextopAt : BitVec 8 := code.load 8 (R_RIP + 1)

/-- The bytes of `SIB` and displacement behind `nextop`. -/
def operandBytes (nextop : BitVec 8) (a : BitVec 64) : Nat :=
  if nextop &&& 0xC0 = 0xC0 then 0 else (decode rex.b rex.x nextop code a).length

/-- The byte behind the operand. -/
def Ib : BitVec 8 := code.load 8 (R_RIP + 2 + BitVec.ofNat 64 (operandBytes code rex (nextopAt code R_RIP) (R_RIP + 2)))

/-- `Run66` has a case for the bytes. -/
def Accepted66 : Prop := (OneByte.Run66 rex (opcodeAt code R_RIP) (nextopAt code R_RIP)).isSome

/-- The opcodes whose operand `Run66` does not widen. -/
def narrowed : List Nat := [0x3B, 0x81, 0x83, 0x85, 0x98, 0x99, 0xC7, 0xC8, 0xC9, 0xD9, 0xDD, 0xFF]

/-- `MOV` of a segment to memory stores more, and the shifts by an immediate are narrow unless they are rotations by 0. -/
def Ignores66 : Prop :=
  if opcodeAt code R_RIP = 0x8C then nextopAt code R_RIP &&& 0xC0 = 0xC0
  else if opcodeAt code R_RIP = 0xC1 then extOf (nextopAt code R_RIP) < 4 ∧ Ib code rex R_RIP &&& 0x3F = 0
  else (opcodeAt code R_RIP).toNat ∉ narrowed

instance : Decidable (Accepted66 code rex R_RIP) := inferInstanceAs (Decidable (_ = true))

instance : Decidable (Ignores66 code rex R_RIP) := by
  delta Ignores66
  infer_instance

end Bytes

/-! ### Cases in common -/

section Switch

variable {rex : Rex} {opcode nextop : BitVec 8}

theorem Run66_eq_Run (w : rex.w = true) (shared : opcode.toNat ∉ 0x8C :: 0xC1 :: narrowed) :
    OneByte.Run66 rex opcode nextop = OneByte.Run rex opcode nextop := by
  simp only [OneByte.Run66, OneByte.Run, w, if_true]
  split
  all_goals first
    | rfl
    | rename_i op
      rw [op] at shared
      exact absurd (by decide) shared

theorem Run66_wide (w : rex.w = true) : OneByte.Run66 rex = OneByte.Run66 ⟨0x48⟩ := by
  funext opcode nextop
  simp only [OneByte.Run66, w]
  rfl

theorem Run_wide (w : rex.w = true) : OneByte.Run rex = OneByte.Run ⟨0x48⟩ := by
  funext opcode nextop
  simp only [OneByte.Run, w]
  rfl

end Switch

/-! ### Operands -/

section Operand

variable (code : Memory) (rex : Rex) (emu : X64Emu) (delta : BitVec 8) (R_RIP : BitVec 64) (s : Cpu)

/-- `EW`, from the `R_RIP` of the opcode on. -/
def operandOf : Oped (Fin 16) :=
  let nextop := nextopAt code R_RIP
  if nextop &&& 0xC0 = 0xC0 then .reg (regNumber nextop rex.b)
  else .mem (GetECommon emu code rex (nextop &&& 0xC7) delta (R_RIP + 2)).1

def behindOpcode : Cpu := { s with R_RIP := s.R_RIP + 1 }

/-- Once the operand is located. -/
def behindOperand : Cpu :=
  { s with R_RIP := s.R_RIP + 2 + BitVec.ofNat 64 (operandBytes code rex (nextopAt code s.R_RIP) (s.R_RIP + 2)) }

theorem withEw_eq (f : BitVec 8 → Oped (Fin 16) → Fin 16 → Cpu → Ran) :
    OneByte.withEw code rex delta (behindOpcode s) f =
      f (nextopAt code s.R_RIP) (operandOf code rex s.emu delta s.R_RIP) (GetGd rex (nextopAt code s.R_RIP))
        (behindOperand code rex s) := by
  have next : s.R_RIP + 1 + BitVec.ofNat 64 (8 / 8) = s.R_RIP + 2 := BitVec.add_assoc _ _ _
  simp only [OneByte.withEw, fetch, GetEd, next, operandOf, behindOpcode, behindOperand, operandBytes]
  change _ = f (code.load 8 (s.R_RIP + 1)) (if code.load 8 (s.R_RIP + 1) &&& 0xC0 = 0xC0 then _ else _) _ _
  by_cases register : code.load 8 (s.R_RIP + 1) &&& 0xC0 = 0xC0
  · rw [if_pos register, if_pos register, nextopAt, if_pos register]
    simp only [BitVec.add_zero]
  · rw [if_neg register, if_neg register, nextopAt, if_neg register, GetECommon_eq _ _ _ _ _ register]

end Operand

/-! ### What is written -/

theorem load_store_narrow {n : Nat} (m : Memory) (a : BitVec 64) (v : BitVec n) (whole : 8 ∣ n) (fits : n ≤ 64) :
    load 64 (store m a v) a = setLow (load 64 m a) v := by
  apply eq_of_getLsbD_eq
  intro i lt
  rw [setLow, getLsbD_or, getLsbD_setWidth, getLsbD_shiftLeft, getLsbD_ushiftRight, getLsbD_load _ _ lt]
  by_cases inside : i < n
  · rw [bit_store _ _ _ inside whole fits]
    simp [inside, lt]
  · have out : ¬ (byteOf a i - a).toNat < n / 8 := by
      rw [byteOf, distance _ (by omega)]
      omega
    rw [store_outside _ _ _ out, ← getLsbD_load _ _ lt]
    simp [inside, lt, Nat.add_sub_cancel' (Nat.le_of_not_lt inside), getLsbD_of_ge v i (Nat.le_of_not_lt inside)]

section Write

variable (s : Cpu) (w : Width) (v : BitVec w.bits) (o : Oped (Fin 16))
  (op : X64Emu → BitVec w.bits → BitVec w.bits × X64Emu)

@[simp] theorem write_R_RIP : (s.write w v o).R_RIP = s.R_RIP := by cases o <;> rfl

@[simp] theorem write_df : (s.write w v o).emu.df = s.emu.df := by
  cases o with
  | reg r => simp only [Cpu.write]; split <;> rfl
  | mem a => rfl

@[simp] theorem write_eflags : (s.write w v o).emu.eflags = s.emu.eflags := by
  cases o with
  | reg r => simp only [Cpu.write]; split <;> rfl
  | mem a => rfl

@[simp] theorem modify_R_RIP : (s.modify w o op).R_RIP = s.R_RIP := write_R_RIP _ _ _ _

@[simp] theorem modify_df : (s.modify w o op).emu.df = (op s.emu (s.read w o)).2.df := write_df _ _ _ _

@[simp] theorem modify_eflags : (s.modify w o op).emu.eflags = (op s.emu (s.read w o)).2.eflags := write_eflags _ _ _ _

@[simp] theorem group_R_RIP (ext : Nat) : (OneByte.group w ext o v s).R_RIP = s.R_RIP := by
  rw [OneByte.group]
  split
  · exact modify_R_RIP _ _ _ _
  · rfl

theorem Cpu.setReg_self (r : Fin 16) (v : BitVec 64) : (s.setReg r v).reg r = v := by
  simp only [Cpu.reg, Cpu.setReg, X64Emu.setReg, Function.update_self, setLow_full]

theorem Cpu.setReg_ne {r t : Fin 16} (other : t ≠ r) (v : BitVec 64) : (s.setReg r v).reg t = s.reg t := by
  simp only [Cpu.reg, Cpu.setReg, X64Emu.setReg, Function.update_of_ne other]

variable {w}

theorem write_same (partly : w ≠ .w32) (r : Fin 16) : (s.write w v (.reg r)).reg r = setLow (s.reg r) v := by
  simp only [Cpu.reg, Cpu.write, if_neg partly, X64Emu.setReg, Function.update_self]

theorem write_other {r t : Fin 16} (other : t ≠ r) : (s.write w v (.reg r)).reg t = s.reg t := by
  simp only [Cpu.reg, Cpu.write]
  split <;> simp only [X64Emu.setWhole, X64Emu.setReg, Function.update_of_ne other]

theorem write_read (partly : w ≠ .w32) : s.write w (s.read w o) o = s := by
  cases o with
  | reg r => rw [Cpu.write, if_neg partly, Cpu.read, X64Emu.setReg, X64Emu.reg, setLow_low, Function.update_eq_self]
  | mem a => rw [Cpu.write, Cpu.read, store_load s.mem a w.dvd_bits w.bits_le]

theorem read_write_of_le {n : Width} (le : n.bits ≤ w.bits) (partly : w ≠ .w32) :
    (s.write w v o).read n o = v.setWidth n.bits := by
  cases o with
  | reg r =>
    rw [Cpu.write, if_neg partly, Cpu.read, X64Emu.reg, X64Emu.setReg]
    simp only [Function.update_self]
    exact low_setLow_of_le le w.bits_le _ v
  | mem a =>
    apply eq_of_getLsbD_eq
    intro i lt
    have below : i < w.bits := by omega
    rw [Cpu.write, Cpu.read, getLsbD_load _ _ lt, bit_store _ _ _ below w.dvd_bits w.bits_le, getLsbD_setWidth]
    simp only [lt, decide_true, Bool.true_and]

theorem read_write_narrow (v : BitVec Width.w16.bits) :
    (s.write .w16 v o).read .w64 o = setLow (s.read .w64 o) v := by
  cases o with
  | reg r =>
    simp only [Cpu.write, Cpu.read, X64Emu.reg, X64Emu.setReg, reduceCtorEq, if_false, Function.update_self]
    rfl
  | mem a => exact load_store_narrow s.mem a v (by decide) (by decide)

theorem read_of_regs {s : Cpu} {o : Oped (Fin 16)} {emu : X64Emu} (regs : emu.regs = s.emu.regs) :
    Cpu.read { s with emu } w o = s.read w o := by
  cases o with
  | reg r => rw [Cpu.read, Cpu.read, X64Emu.reg, X64Emu.reg, regs]
  | mem a => rfl

theorem read_modify (op : X64Emu → BitVec Width.w64.bits → BitVec Width.w64.bits × X64Emu) :
    (s.modify .w64 o op).read .w64 o = (op s.emu (s.read .w64 o)).1 := by
  rw [Cpu.modify, read_write_of_le _ _ o (Nat.le_refl Width.w64.bits) (by decide), BitVec.setWidth_eq]

theorem read_modify_narrow {op : X64Emu → BitVec Width.w16.bits → BitVec Width.w16.bits × X64Emu}
    (regs : (op s.emu (s.read .w16 o)).2.regs = s.emu.regs) :
    (s.modify .w16 o op).read .w64 o = setLow (s.read .w64 o) (op s.emu (s.read .w16 o)).1 := by
  rw [← read_of_regs regs]
  exact read_write_narrow _ o _

end Write

/-! ### Transparent bytes -/

theorem shiftOp_zero (w : Width) (emu : X64Emu) (d : BitVec w.bits) {s : BitVec 8} {ext : Nat} (rotates : ext < 4)
    (zero : maskedCount w s = 0) : shiftOp w emu d s ext = (d, if ext < 2 then emu else CHECK_FLAGS emu) := by
  match ext, rotates with
  | 0, _ => simp [shiftOp, rol, zero]
  | 1, _ => simp [shiftOp, ror, zero]
  | 2, _ => simp [shiftOp, rcl, zero]
  | 3, _ => simp [shiftOp, rcr, zero]

theorem maskedCount_of_zero (w : Width) {s : BitVec 8} (zero : s &&& 0x3F = 0) : maskedCount w s = 0 := by
  have narrow : s &&& 0x1F = 0 := by
    revert s
    decide
  cases w <;> assumption

theorem modify_same {s : Cpu} {w : Width} {o : Oped (Fin 16)} {op : X64Emu → BitVec w.bits → BitVec w.bits × X64Emu}
    {emu : X64Emu} (partly : w ≠ .w32) (same : op s.emu (s.read w o) = (s.read w o, emu)) (regs : emu.regs = s.emu.regs) :
    s.modify w o op = { s with emu } := by
  rw [Cpu.modify, same]
  exact (congrArg (Cpu.write _ w · o) (read_of_regs regs).symm).trans (write_read _ o partly)

section Transparent

variable (around : Surroundings) {code : Memory} {rex : Rex} (rep : Rep) (s : Cpu)

theorem rotate_zero (w : Width) (partly : w ≠ .w32) (rotates : extOf (nextopAt code s.R_RIP) < 4)
    (zero : Ib code rex s.R_RIP &&& 0x3F = 0) :
    OneByte.exec around code rex rep 0xC1 (behindOpcode s) (.GRP2_Ew w .Ib) =
      .done { (fetch code (behindOperand code rex s) 8).2 with
        emu := if extOf (nextopAt code s.R_RIP) < 2 then s.emu else CHECK_FLAGS s.emu } := by
  rw [OneByte.exec, withEw_eq]
  refine congrArg Ran.done (modify_same partly ?_ ?_)
  · exact shiftOp_zero w _ _ rotates (maskedCount_of_zero w zero)
  · split
    · rfl
    · exact CHECK_FLAGS_regs s.emu

theorem run_shared (w : rex.w = true) (shared : (opcodeAt code s.R_RIP).toNat ∉ 0x8C :: 0xC1 :: narrowed) :
    s.Run66 around code rex rep = s.Run around code rex rep := by
  have same : OneByte.Run66 rex (opcodeAt code s.R_RIP) (nextopAt code s.R_RIP) = _ := Run66_eq_Run w shared
  exact congrArg (Option.map _) same

variable {s} {opcode : BitVec 8}

theorem runWith_map (map : BitVec 8 → BitVec 8 → Option OneByte) :
    s.runWith around code rex rep map =
      (map (opcodeAt code s.R_RIP) (nextopAt code s.R_RIP)).map
        (OneByte.exec around code rex rep (opcodeAt code s.R_RIP) (behindOpcode s)) := rfl

theorem runWith_eq (op : opcodeAt code s.R_RIP = opcode) {map : BitVec 8 → BitVec 8 → Option OneByte} {c : OneByte}
    (has : map opcode (nextopAt code s.R_RIP) = some c) :
    s.runWith around code rex rep map =
      some (OneByte.exec around code rex rep opcode (behindOpcode s) c) := by
  rw [runWith_map, op, has]
  rfl

theorem run_seg (w : rex.w = true) (op : opcodeAt code s.R_RIP = 0x8C) (register : nextopAt code s.R_RIP &&& 0xC0 = 0xC0) :
    s.Run66 around code rex rep = s.Run around code rex rep := by
  have wide : OneByte.Run66 ⟨0x48⟩ 0x8C (nextopAt code s.R_RIP) = some (.MOV_Ew_Seg .w64 .w64) := rfl
  have own : OneByte.Run ⟨0x48⟩ 0x8C (nextopAt code s.R_RIP) = some (.MOV_Ew_Seg .w64 .w16) := rfl
  rw [Cpu.Run66, Cpu.Run, Run66_wide w, Run_wide w, runWith_eq around rep op wide, runWith_eq around rep op own,
    OneByte.exec, OneByte.exec, withEw_eq, withEw_eq, operandOf, if_pos register]

theorem run_rotate_zero (w : rex.w = true) (op : opcodeAt code s.R_RIP = 0xC1)
    (rotates : extOf (nextopAt code s.R_RIP) < 4) (zero : Ib code rex s.R_RIP &&& 0x3F = 0) :
    s.Run66 around code rex rep = s.Run around code rex rep := by
  have narrow : OneByte.Run66 ⟨0x48⟩ 0xC1 (nextopAt code s.R_RIP) = some (.GRP2_Ew .w16 .Ib) := rfl
  have own : OneByte.Run ⟨0x48⟩ 0xC1 (nextopAt code s.R_RIP) = some (.GRP2_Ew .w64 .Ib) := rfl
  rw [Cpu.Run66, Cpu.Run, Run66_wide w, Run_wide w, runWith_eq around rep op narrow, runWith_eq around rep op own,
    rotate_zero around rep s .w16 (by decide) rotates zero, rotate_zero around rep s .w64 (by decide) rotates zero]

end Transparent

/-! ### States that tell the two apart -/

/-- Every register is `v`, and no flag is set or pending. -/
def X64Emu.filled (v : BitVec 64) : X64Emu := ⟨fun _ => v, ⟨false, false, false, false, false, false⟩, .d_none, 0, 0, 0⟩

def X87.blank : X87 := ⟨fun _ => 0, fun _ => 0, fun _ => 0, 0, 0, 0, fun _ => 0⟩

def Cpu.filled (R_RIP v : BitVec 64) (mem : Memory) (fpu : X87) : Cpu := ⟨⟨.filled v, false, mem⟩, fpu, fun _ => 0, R_RIP⟩

section Probe

variable (code : Memory) (rex : Rex) (delta : BitVec 8) (R_RIP v : BitVec 64)

/-- The operand in memory is `v` too. -/
def probe : Cpu :=
  .filled R_RIP v
    (match operandOf code rex (.filled v) delta R_RIP with
      | .reg _ => fun _ => 0
      | .mem a => store (fun _ => 0) a v) .blank

theorem read_probe (n : Width) :
    (behindOperand code rex (probe code rex delta R_RIP v)).read n (operandOf code rex (.filled v) delta R_RIP) =
      low n.bits v := by
  rw [behindOperand, probe]
  cases operandOf code rex (.filled v) delta R_RIP with
  | reg r => rfl
  | mem a =>
    apply eq_of_getLsbD_eq
    intro i lt
    have below : i < 64 := lt.trans_le n.bits_le
    change (load n.bits (store (fun _ => 0) a v) a).getLsbD i = _
    rw [getLsbD_load _ _ lt, bit_store _ _ _ below (by decide) (by decide), low, getLsbD_setWidth]
    simp only [lt, decide_true, Bool.true_and]

theorem read_fetch (s : Cpu) (n : Nat) (w : Width) (o : Oped (Fin 16)) : (fetch code s n).2.read w o = s.read w o := by
  cases o <;> rfl

/-- A case that takes an operand finds `v` in it. -/
theorem withEw_probe : ∃ (o : Oped (Fin 16)) (s : Cpu), s.emu = .filled v ∧ (∀ n, s.read n o = low n.bits v) ∧
    (fetch code s 8).1 = Ib code rex R_RIP ∧
    ∀ f : BitVec 8 → Oped (Fin 16) → Fin 16 → Cpu → Ran, OneByte.withEw code rex delta (behindOpcode (probe code rex delta R_RIP v)) f =
      f (nextopAt code R_RIP) o (GetGd rex (nextopAt code R_RIP)) s :=
  ⟨operandOf code rex (.filled v) delta R_RIP, behindOperand code rex (probe code rex delta R_RIP v), rfl,
    read_probe code rex delta R_RIP v, rfl, withEw_eq code rex delta (probe code rex delta R_RIP v)⟩

theorem filled_reg (w : Width) (r : Fin 16) : (X64Emu.filled v).reg w r = low w.bits v := rfl

end Probe

section Differ

variable (around : Surroundings) (code : Memory) (rex : Rex) (rep : Rep) (opcode : BitVec 8)

/-- The state from which two cases do not leave the same. -/
def TellsApart (c c' : OneByte) (s : Cpu) : Prop :=
  OneByte.exec around code rex rep opcode (behindOpcode s) c ≠ OneByte.exec around code rex rep opcode (behindOpcode s) c'

variable {around code rex rep opcode}

theorem runs_differ {s : Cpu} {c c' : OneByte} (op : opcodeAt code s.R_RIP = opcode)
    (narrow : OneByte.Run66 rex opcode (nextopAt code s.R_RIP) = some c)
    (own : OneByte.Run rex opcode (nextopAt code s.R_RIP) = some c')
    (apart : TellsApart around code rex rep opcode c c' s) :
    s.Run66 around code rex rep ≠ s.Run around code rex rep := by
  rw [Cpu.Run66, Cpu.Run, runWith_eq around rep op narrow, runWith_eq around rep op own]
  exact fun same => apart (Option.some.inj same)

variable (R_RIP : BitVec 64)

/-- `EW->dword[0]` of a number above 32 bits. -/
theorem cmp_apart :
    TellsApart around code rex rep opcode (.CMP_Gw_Ew .w64 .w32) (.CMP_Gw_Ew .w64 .w64)
      (probe code rex 0 R_RIP 0x100000000) := by
  obtain ⟨o, s, emu, reads, -, runs⟩ := withEw_probe code rex 0 R_RIP 0x100000000
  rw [TellsApart, OneByte.exec, OneByte.exec, runs, runs]
  intro same
  injection same with same
  have zero := congrArg (fun s : Cpu => s.emu.eflags.ZF) same
  simp only [emu, reads, filled_reg] at zero
  exact absurd zero (by decide)

theorem test_apart :
    TellsApart around code rex rep opcode (.TEST_Ew_Gw .w16) (.TEST_Ew_Gw .w64) (probe code rex 0 R_RIP 0x10000) := by
  obtain ⟨o, s, emu, reads, -, runs⟩ := withEw_probe code rex 0 R_RIP 0x10000
  rw [TellsApart, OneByte.exec, OneByte.exec, runs, runs]
  intro same
  injection same with same
  have zero := congrArg (fun s : Cpu => s.emu.eflags.ZF) same
  simp only [emu, reads, filled_reg] at zero
  exact absurd zero (by decide)

/-- A shorter immediate is behind the operand. -/
theorem imm_apart (s : Cpu) :
    TellsApart around code rex rep opcode (.GRP_Ew_Iw .w16) (.GRP_Ew_Iw .w64) s ∧
      TellsApart around code rex rep opcode (.MOV_Ew_Iw .w16) (.MOV_Ew_Iw .w64) s := by
  have shorter (a : BitVec 64) : a + BitVec.ofNat 64 (8 * 2 / 8) ≠ a + BitVec.ofNat 64 (8 * 4 / 8) := by
    intro same
    exact absurd ((BitVec.add_right_inj a).mp same) (by decide)
  constructor
  all_goals
    rw [TellsApart, OneByte.exec, OneByte.exec, withEw_eq, withEw_eq]
    intro same
    injection same with same
    have rip := congrArg Cpu.R_RIP same
    simp only [group_R_RIP, write_R_RIP] at rip
    exact shorter _ rip

theorem step_apart :
    TellsApart around code rex rep opcode (.INC_Ew .w16) (.INC_Ew .w64) (probe code rex 0 R_RIP 0) ∧
      TellsApart around code rex rep opcode (.DEC_Ew .w16) (.DEC_Ew .w64) (probe code rex 0 R_RIP 0) := by
  obtain ⟨o, s, emu, -, -, runs⟩ := withEw_probe code rex 0 R_RIP 0
  constructor
  all_goals
    rw [TellsApart, OneByte.exec, OneByte.exec, runs, runs]
    intro same
    injection same with same
    have df := congrArg (fun s : Cpu => s.emu.df) same
    simp only [modify_df] at df
    cases df

/-- The operand that makes the result `0x8000`: negative as a word only. -/
def signOperand (op : Option BinOp) (imm : BitVec 8) : BitVec 64 :=
  if op = some .adc then 0x8000 - imm.signExtend 64 else 0x8000 + imm.signExtend 64

theorem eager_sign (imm : BitVec 8) :
    let d := signOperand (some .adc) imm
    let d' := signOperand none imm
    (adc .w16 (.filled d) (low 16 d) (imm.signExtend 16)).2.eflags.SF ≠
        (adc .w64 (.filled d) (low 64 d) (imm.signExtend 64)).2.eflags.SF ∧
      (sbb .w16 (.filled d') (low 16 d') (imm.signExtend 16)).2.eflags.SF ≠
        (sbb .w64 (.filled d') (low 64 d') (imm.signExtend 64)).2.eflags.SF ∧
      (cmp .w16 (.filled d') (low 16 d') (imm.signExtend 16)).2.eflags.SF ≠
        (cmp .w64 (.filled d') (low 64 d') (imm.signExtend 64)).2.eflags.SF := by
  revert imm
  decide

/-- The sums and the logic keep their width in `df`, the others their sign. -/
theorem group_differs {ext : Nat} {imm : BitVec 8} {o : Oped (Fin 16)} {s : Cpu}
    (emu : s.emu = .filled (signOperand (BinOp.ofIndex ext) imm))
    (reads : ∀ n, s.read n o = low n.bits (signOperand (BinOp.ofIndex ext) imm)) :
    OneByte.group .w16 ext o (imm.signExtend 16) s ≠ OneByte.group .w64 ext o (imm.signExtend 64) s := by
  intro same
  have df := congrArg (fun s : Cpu => s.emu.df) same
  have sign := congrArg (fun s : Cpu => s.emu.eflags.SF) same
  simp only [OneByte.group] at df sign
  obtain ⟨adc, sbb, cmp⟩ := eager_sign imm
  generalize BinOp.ofIndex ext = op at emu reads df sign
  cases op with
  | none =>
    simp only [emu, reads] at sign
    exact cmp sign
  | some op =>
    simp only [modify_df, modify_eflags, emu, reads] at df sign
    cases op with
    | adc => exact adc sign
    | sbb => exact sbb sign
    | add | or | and | sub | xor => cases df

theorem group_apart :
    TellsApart around code rex rep opcode (.GRP_Ew_Ib .w16) (.GRP_Ew_Ib .w64)
      (probe code rex 1 R_RIP (signOperand (BinOp.ofIndex (extOf (nextopAt code R_RIP))) (Ib code rex R_RIP))) := by
  obtain ⟨o, s, emu, reads, imm, runs⟩ := withEw_probe code rex 1 R_RIP
    (signOperand (BinOp.ofIndex (extOf (nextopAt code R_RIP))) (Ib code rex R_RIP))
  rw [TellsApart, OneByte.exec, OneByte.exec, runs, runs]
  intro same
  injection same with same
  change OneByte.group .w16 _ o ((fetch code s 8).1.signExtend 16) (fetch code s 8).2 =
    OneByte.group .w64 _ o ((fetch code s 8).1.signExtend 64) (fetch code s 8).2 at same
  rw [imm] at same
  have emu' : (fetch code s 8).2.emu = .filled _ := emu
  refine group_differs emu' (fun n => ?_) same
  rw [read_fetch, reads]

theorem shiftOp_regs (w : Width) (emu : X64Emu) (d : BitVec w.bits) (s : BitVec 8) {ext : Nat} (rotates : ext < 4) :
    (shiftOp w emu d s ext).2.regs = emu.regs := by
  match ext, rotates with
  | 0, _ => rw [shiftOp, rol]; split <;> simp [CHECK_FLAGS_regs]
  | 1, _ => rw [shiftOp, ror]; split <;> simp [CHECK_FLAGS_regs]
  | 2, _ => rw [shiftOp, rcl]; split <;> simp [CHECK_FLAGS_regs]
  | 3, _ => rw [shiftOp, rcr]; split <;> simp [CHECK_FLAGS_regs]

/-- A rotation of 64 bits moves the sixteen zeros. -/
theorem rotate_moves : ∀ s : BitVec 8, s &&& 0x3F ≠ 0 → ∀ ext : Fin 4,
    (setLow 0xFFFFFFFFFFFF0000 (shiftOp .w16 (.filled 0xFFFFFFFFFFFF0000) (low 16 0xFFFFFFFFFFFF0000) s ext).1).toNat ≠
      (shiftOp .w64 (.filled 0xFFFFFFFFFFFF0000) (low 64 0xFFFFFFFFFFFF0000) s ext).1.toNat := by
  decide

theorem shift_df (w : Width) (emu : X64Emu) (d : BitVec w.bits) (s : BitVec 8) (ext : Nat) :
    (shiftOp w emu d s (ext + 4)).2.df =
      if ext = 1 then .d_shr w else if ext = 3 then .d_sar w else .d_shl w := by
  match ext with
  | 0 | 1 | 2 | 3 => rfl
  | n + 4 => rfl

/-- The shifts keep their width in `df`; the rotations move bits above 16. -/
theorem shift_apart (moves : ¬ (extOf (nextopAt code R_RIP) < 4 ∧ Ib code rex R_RIP &&& 0x3F = 0)) :
    TellsApart around code rex rep opcode (.GRP2_Ew .w16 .Ib) (.GRP2_Ew .w64 .Ib)
      (probe code rex 1 R_RIP 0xFFFFFFFFFFFF0000) := by
  obtain ⟨o, s, emu, reads, imm, runs⟩ := withEw_probe code rex 1 R_RIP 0xFFFFFFFFFFFF0000
  rw [TellsApart, OneByte.exec, OneByte.exec, runs, runs]
  generalize extOf (nextopAt code R_RIP) = ext at moves
  intro same
  injection same with same
  change Cpu.modify (fetch code s 8).2 .w16 o (fun emu d => shiftOp .w16 emu d (fetch code s 8).1 ext) =
    Cpu.modify (fetch code s 8).2 .w64 o (fun emu d => shiftOp .w64 emu d (fetch code s 8).1 ext) at same
  rw [imm] at same
  by_cases rotates : ext < 4
  · have value := congrArg (fun s : Cpu => s.read .w64 o) same
    have regs := shiftOp_regs .w16 (fetch code s 8).2.emu ((fetch code s 8).2.read .w16 o) (Ib code rex R_RIP) rotates
    have emu' : (fetch code s 8).2.emu = .filled _ := emu
    simp only [read_modify] at value
    rw [read_modify_narrow _ o regs, emu', read_fetch, read_fetch, reads, reads] at value
    exact rotate_moves (Ib code rex R_RIP) (fun zero => moves ⟨rotates, zero⟩) ⟨ext, rotates⟩ (congrArg BitVec.toNat value)
  · obtain ⟨n, rfl⟩ := Nat.exists_eq_add_of_le' (Nat.le_of_not_lt rotates)
    have df := congrArg (fun s : Cpu => s.emu.df) same
    simp only [modify_df, shift_df] at df
    split at df
    · cases df
    · split at df <;> cases df

theorem accumulator_apart :
    TellsApart around code rex rep opcode (.CBW .w16) (.CBW .w64) (.filled R_RIP 0x80 (fun _ => 0) .blank) ∧
      TellsApart around code rex rep opcode (.CWD .w16) (.CWD .w64) (.filled R_RIP 0x8000 (fun _ => 0) .blank) := by
  constructor
  · intro same
    injection same with same
    have rax := congrArg (fun s : Cpu => s.reg _RAX) same
    simp only [ne_eq, reduceCtorEq, not_false_eq_true, write_same] at rax
    have values : setLow 0x80 ((0x80 : BitVec 8).signExtend 16) = setLow 0x80 ((0x80 : BitVec 32).signExtend 64) := rax
    exact absurd values (by decide)
  · intro same
    injection same with same
    have rdx := congrArg (fun s : Cpu => s.reg _RDX) same
    simp only [ne_eq, reduceCtorEq, not_false_eq_true, write_same] at rdx
    have values : setLow 0x8000 (if (0x8000 : BitVec 16).msb then allOnes 16 else 0) =
        setLow 0x8000 (if (0x8000 : BitVec 64).msb then allOnes 64 else 0) := rdx
    exact absurd values (by decide)

theorem leave_RSP (w : Width) (s : Cpu) :
    (leave w s).reg _RSP = s.reg _RBP + BitVec.ofNat 64 (w.bits / 8) := by
  rw [leave]
  simp only [Cpu.pop, write_other _ _ (show _RSP ≠ _RBP by decide), Cpu.setReg_self]

theorem leave_apart :
    TellsApart around code rex rep opcode (.LEAVE .w16) (.LEAVE .w64) (.filled R_RIP 0 (fun _ => 0) .blank) := by
  intro same
  injection same with same
  have rsp := congrArg (fun s : Cpu => s.reg _RSP) same
  simp only [leave_RSP] at rsp
  have values : (0 + 2 : BitVec 64) = 0 + 8 := rsp
  exact absurd values (by decide)

theorem push_RBP (s : Cpu) (w : Width) (v : BitVec w.bits) : (s.push w v).reg _RBP = s.reg _RBP :=
  s.setReg_ne (show _RBP ≠ _RSP by decide) _

theorem pushFrames_RBP (w : Width) (n : Nat) (tmp64u : BitVec 64) (s : Cpu) :
    (pushFrames w n tmp64u s).reg _RBP = s.reg _RBP := by
  induction n generalizing tmp64u s with
  | zero => rfl
  | succ n ih =>
    rw [pushFrames, ih]
    exact push_RBP s w _

/-- The frame pointer is the stack pointer after the first push. -/
theorem enter_RBP (w : Width) (tmp16u : BitVec 16) (tmp8u : BitVec 8) (s : Cpu) :
    (enter w tmp16u tmp8u s).reg _RBP = s.reg _RSP - BitVec.ofNat 64 (w.bits / 8) := by
  have pushed : (s.push w (s.emu.reg w _RBP)).reg _RSP = s.reg _RSP - BitVec.ofNat 64 (w.bits / 8) := s.setReg_self _RSP _
  rw [enter, Cpu.setReg_ne _ (show _RBP ≠ _RSP by decide)]
  split
  · rw [push_RBP, pushFrames_RBP, Cpu.setReg_self, pushed]
  · rw [Cpu.setReg_self, pushed]

theorem enter_apart :
    TellsApart around code rex rep opcode (.ENTER .w16) (.ENTER .w64) (.filled R_RIP 0 (fun _ => 0) .blank) := by
  intro same
  injection same with same
  have rbp := congrArg (fun s : Cpu => s.reg _RBP) same
  simp only [enter_RBP] at rbp
  have values : (0 - 2 : BitVec 64) = 0 - 8 := rbp
  exact absurd values (by decide)

theorem operandOf_mem (code : Memory) (rex : Rex) (emu : X64Emu) (delta : BitVec 8) {R_RIP : BitVec 64}
    (memory : nextopAt code R_RIP &&& 0xC0 ≠ 0xC0) : ∃ a, operandOf code rex emu delta R_RIP = .mem a := ⟨_, if_neg memory⟩

theorem withEw_filled (delta : BitVec 8) (v : BitVec 64) (mem : Memory) (fpu : X87)
    (f : BitVec 8 → Oped (Fin 16) → Fin 16 → Cpu → Ran) :
    OneByte.withEw code rex delta (behindOpcode (.filled R_RIP v mem fpu)) f =
      f (nextopAt code R_RIP) (operandOf code rex (.filled v) delta R_RIP) (GetGd rex (nextopAt code R_RIP))
        (behindOperand code rex (.filled R_RIP v mem fpu)) :=
  withEw_eq code rex delta (.filled R_RIP v mem fpu) f

/-- A segment stored in eight bytes of ones. -/
theorem seg_apart (memory : nextopAt code R_RIP &&& 0xC0 ≠ 0xC0) :
    TellsApart around code rex rep opcode (.MOV_Ew_Seg .w64 .w64) (.MOV_Ew_Seg .w64 .w16)
      (.filled R_RIP 0 (fun _ => 0xFF) .blank) := by
  obtain ⟨a, place⟩ := operandOf_mem code rex (.filled 0) 0 memory
  rw [TellsApart, OneByte.exec, OneByte.exec, withEw_filled, withEw_filled, place]
  intro same
  injection same with same
  have byte := congrArg (fun s : Cpu => s.mem (a + BitVec.ofNat 64 2)) same
  have out : ¬ (a + BitVec.ofNat 64 2 - a).toNat < Width.w16.bits / 8 := by
    rw [distance a (by decide)]
    decide
  simp only [Cpu.write] at byte
  rw [store_inside _ _ _ (by decide) (by decide)] at byte
  have values : ((0 : BitVec 32).setWidth 64).extractLsb' 16 8 = (0xFF : BitVec 8) := byte.trans (store_outside _ a _ out)
  exact absurd values (by decide)

/-! ### Environments -/

theorem storeWords_outside {mem : Memory} {p b : BitVec 64} {words : List (BitVec 16)}
    (out : 2 * words.length ≤ (b - p).toNat) : storeWords mem p words b = mem b := by
  induction words generalizing mem p with
  | nil => rfl
  | cons v words ih =>
    rw [List.length_cons] at out
    have next : (b - (p + 2)).toNat = (b - p).toNat - 2 := by bv_omega
    rw [storeWords, ih (by omega), store_outside _ _ _ (by omega)]

/-- The words come one behind the other. -/
theorem storeWords_second (mem : Memory) (p : BitVec 64) (v u : BitVec 16) {words : List (BitVec 16)}
    (short : words.length < 8) : storeWords mem p (v :: u :: words) (p + 2) = u.extractLsb' 0 8 := by
  have back : (p + 2 - (p + 2 + 2)).toNat = 2 ^ 64 - 2 := by bv_omega
  rw [storeWords, storeWords, storeWords_outside (by omega)]
  have inside := store_inside (mem.store p v) (p + 2) u (show 0 < 16 / 8 by decide) (by decide)
  rwa [BitVec.add_zero] at inside

/-- The status word is at the second word of a short environment, and at the third of a long one. -/
theorem savenv_apart (p : BitVec 64) (mem : Memory) (fpu : X87) (set : (setTop fpu.sw fpu.top).extractLsb' 0 8 ≠ 0#8) :
    (fpu_savenv p true fpu mem).2 (p + 2) ≠ (fpu_savenv p false fpu mem).2 (p + 2) := by
  simp only [fpu_savenv, if_true, if_neg Bool.false_ne_true]
  rw [storeWords_second _ _ _ _ (by simp), storeWords_second _ _ _ _ (by simp)]
  exact set

theorem loadenv_apart (p : Nat → BitVec 8) (fpu : X87) (differ : wordAt p 2 ≠ wordAt p 4) :
    (fpu_loadenv p true fpu).sw ≠ (fpu_loadenv p false fpu).sw := differ

theorem frstor_sw (p : Nat → BitVec 8) (b16 : Bool) (fpu : X87) :
    (frstor p b16 fpu).sw = (fpu_loadenv p b16 fpu).sw ∧ (frstor p b16 fpu).cw = wordAt p 0 := by
  have kept (g : BitVec 3 → BitVec 64) (l : List (BitVec 3)) (fpu : X87) :
      (l.foldl (fun fpu i => fpu.setST i (g i)) fpu).sw = fpu.sw ∧ (l.foldl (fun fpu i => fpu.setST i (g i)) fpu).cw = fpu.cw := by
    induction l generalizing fpu with
    | nil => exact ⟨rfl, rfl⟩
    | cons i l ih => exact ih (fpu.setST i (g i))
  exact kept _ eight _

theorem storeLongDouble_behind (mem : Memory) (p : BitVec 64) (ld : LongDouble) {n : Nat} (behind : 14 ≤ n) (small : n < 100) :
    storeLongDouble mem (p + BitVec.ofNat 64 n) ld (p + 2) = mem (p + 2) := by
  have first : ¬ (p + 2 - (p + BitVec.ofNat 64 n)).toNat < 64 / 8 := by bv_omega
  have second : ¬ (p + 2 - (p + BitVec.ofNat 64 n + 8)).toNat < 16 / 8 := by bv_omega
  rw [storeLongDouble, store_outside _ _ _ second, store_outside _ _ _ first]

/-- The registers are behind the environment. -/
theorem fnsave_env (p : BitVec 64) (b16 : Bool) (fpu : X87) (mem : Memory) :
    (fnsave p b16 fpu mem).2 (p + 2) = (fpu_savenv p b16 fpu mem).2 (p + 2) := by
  have size : 14 ≤ envBytes b16 ∧ envBytes b16 ≤ 28 := by cases b16 <;> decide
  have kept (ld : BitVec 3 → LongDouble) (l : List (BitVec 3)) (mem : Memory) :
      (l.foldl (fun mem i => storeLongDouble mem (p + BitVec.ofNat 64 (envBytes b16 + 10 * i.toNat)) (ld i)) mem) (p + 2) =
        mem (p + 2) := by
    induction l generalizing mem with
    | nil => rfl
    | cons i l ih =>
      have few : i.toNat < 8 := i.isLt
      rw [List.foldl_cons, ih, storeLongDouble_behind _ _ _ (by omega) (by omega)]
  simp only [fnsave]
  exact kept (fun i => D2LD ((fpu_savenv p b16 fpu mem).1.ST i)) eight (fpu_savenv p b16 fpu mem).2

/-- Memory in which the words at 2 and at 4 behind `a` differ. -/
def marked (a : BitVec 64) : Memory := fun b => if b = a + 2 then 1 else 0

theorem marked_words (a : BitVec 64) :
    wordAt (fun k => marked a (a + BitVec.ofNat 64 k)) 2 ≠ wordAt (fun k => marked a (a + BitVec.ofNat 64 k)) 4 := by
  simp only [wordAt, marked, BitVec.add_right_inj]
  decide

theorem load_apart (memory : nextopAt code R_RIP &&& 0xC0 ≠ 0xC0) : ∃ s : Cpu, s.R_RIP = R_RIP ∧
    TellsApart around code rex rep opcode (.FLDENV true) (.FLDENV false) s ∧
    TellsApart around code rex rep opcode (.FRSTOR true) (.FRSTOR false) s := by
  obtain ⟨a, place⟩ := operandOf_mem code rex (.filled 0) 0 memory
  refine ⟨.filled R_RIP 0 (marked a) .blank, rfl, ?_, ?_⟩
  · rw [TellsApart, OneByte.exec, OneByte.exec, withEw_filled, withEw_filled, place]
    intro same
    injection same with same
    exact loadenv_apart _ _ (marked_words a) (congrArg (fun s : Cpu => s.fpu.sw) same)
  · rw [TellsApart, OneByte.exec, OneByte.exec, withEw_filled, withEw_filled, place]
    intro same
    injection same with same
    have sw := congrArg (fun s : Cpu => s.fpu.sw) same
    simp only [(frstor_sw _ _ _).1] at sw
    exact loadenv_apart _ _ (marked_words a) sw

/-- A state whose status word is not 0. -/
def X87.busy : X87 := { X87.blank with sw := 1 }

theorem save_apart (memory : nextopAt code R_RIP &&& 0xC0 ≠ 0xC0) :
    TellsApart around code rex rep opcode (.FNSTENV true) (.FNSTENV false) (.filled R_RIP 0 (fun _ => 0) .busy) ∧
      TellsApart around code rex rep opcode (.FNSAVE true) (.FNSAVE false) (.filled R_RIP 0 (fun _ => 0) .busy) := by
  obtain ⟨a, place⟩ := operandOf_mem code rex (.filled 0) 0 memory
  have apart := savenv_apart a (fun _ => 0) .busy (by decide)
  constructor
  · rw [TellsApart, OneByte.exec, OneByte.exec, withEw_filled, withEw_filled, place]
    intro same
    exact apart (congrArg (fun s : Cpu => s.mem (a + 2)) (Ran.done.inj same))
  · rw [TellsApart, OneByte.exec, OneByte.exec, withEw_filled, withEw_filled, place]
    intro same
    have byte := congrArg (fun s : Cpu => s.mem (a + 2)) (Ran.done.inj same)
    simp only [fnsave_env] at byte
    exact apart byte

theorem bytes_filled {v R_RIP : BitVec 64} {mem : Memory} {fpu : X87} (r : Fin 16) {k : Nat} (lt : k < 8) :
    (behindOperand code rex (.filled R_RIP v mem fpu)).bytes around (.reg r) k = v.extractLsb' (8 * k) 8 := by
  have inside : 8 * r.val + k < 128 := by omega
  have offset : (8 * r.val + k) % 8 = k := by omega
  simp only [Cpu.bytes, if_pos inside, offset]
  rfl

/-- `FRSTOR` of a register in place of `FUCOM`: the control word is loaded. -/
theorem frstor_register_apart (register : nextopAt code R_RIP &&& 0xC0 = 0xC0) :
    TellsApart around code rex rep opcode (.FRSTOR true) .FUCOM (.filled R_RIP 1 (fun _ => 0) .blank) := by
  have place : operandOf code rex (.filled 1) 0 R_RIP = .reg (regNumber (nextopAt code R_RIP) rex.b) := if_pos register
  rw [TellsApart, OneByte.exec, OneByte.exec, withEw_filled, place]
  intro same
  injection same with same
  have cw := congrArg (fun s : Cpu => s.fpu.cw) same
  simp only [(frstor_sw _ _ _).2] at cw
  rw [wordAt, bytes_filled _ (by decide), bytes_filled _ (by decide)] at cw
  have values : (1 : BitVec 64).extractLsb' 8 8 ++ (1 : BitVec 64).extractLsb' 0 8 = 0#16 := cw
  exact absurd values (by decide)

end Differ

/-! ### The environments' switches -/

theorem Run66D9_cases : ∀ nextop : BitVec 8, (OneByte.Run66D9 nextop).isSome →
    nextop &&& 0xC0 = 0xC0 ∧ OneByte.RunD9 nextop = none ∨
    nextop &&& 0xC0 ≠ 0xC0 ∧
      (OneByte.Run66D9 nextop = some (.FLDENV true) ∧ OneByte.RunD9 nextop = some (.FLDENV false) ∨
        OneByte.Run66D9 nextop = some (.FNSTENV true) ∧ OneByte.RunD9 nextop = some (.FNSTENV false)) := by
  decide

theorem Run66DD_cases : ∀ nextop : BitVec 8, (OneByte.Run66DD nextop).isSome →
    nextop &&& 0xC0 = 0xC0 ∧ OneByte.Run66DD nextop = some (.FRSTOR true) ∧ OneByte.RunDD nextop = some .FUCOM ∨
    nextop &&& 0xC0 ≠ 0xC0 ∧
      (OneByte.Run66DD nextop = some (.FRSTOR true) ∧ OneByte.RunDD nextop = some (.FRSTOR false) ∨
        OneByte.Run66DD nextop = some (.FNSAVE true) ∧ OneByte.RunDD nextop = some (.FNSAVE false)) := by
  decide

theorem group5_cases : ∀ nextop : BitVec 8, (OneByte.Run66 ⟨0x48⟩ 0xFF nextop).isSome →
    OneByte.Run66 ⟨0x48⟩ 0xFF nextop = some (.INC_Ew .w16) ∧ OneByte.Run ⟨0x48⟩ 0xFF nextop = some (.INC_Ew .w64) ∨
      OneByte.Run66 ⟨0x48⟩ 0xFF nextop = some (.DEC_Ew .w16) ∧ OneByte.Run ⟨0x48⟩ 0xFF nextop = some (.DEC_Ew .w64) := by
  decide

/-! ### Which bytes are transparent -/

section Main

variable (around : Surroundings) (code : Memory) (rex : Rex) (rep : Rep) (R_RIP : BitVec 64)

/-- In some state the prefix makes a difference. -/
def Seen : Prop := ∃ s : Cpu, s.R_RIP = R_RIP ∧ s.Run66 around code rex rep ≠ s.Run around code rex rep

variable {around code rex rep R_RIP}

theorem seen_of_apart (w : rex.w = true) {opcode : BitVec 8} (op : opcodeAt code R_RIP = opcode) {c c' : OneByte} {s : Cpu}
    (rip : s.R_RIP = R_RIP) (narrow : OneByte.Run66 ⟨0x48⟩ opcode (nextopAt code R_RIP) = some c)
    (own : OneByte.Run ⟨0x48⟩ opcode (nextopAt code R_RIP) = some c')
    (apart : TellsApart around code rex rep opcode c c' s) : Seen around code rex rep R_RIP := by
  subst rip
  rw [← Run66_wide w] at narrow
  rw [← Run_wide w] at own
  exact ⟨s, rfl, runs_differ op narrow own apart⟩

theorem seen_of_refused (w : rex.w = true) {opcode : BitVec 8} (op : opcodeAt code R_RIP = opcode) {c : OneByte}
    (narrow : OneByte.Run66 ⟨0x48⟩ opcode (nextopAt code R_RIP) = some c)
    (own : OneByte.Run ⟨0x48⟩ opcode (nextopAt code R_RIP) = none) : Seen around code rex rep R_RIP := by
  obtain ⟨s, rip⟩ : ∃ s : Cpu, s.R_RIP = R_RIP := ⟨.filled R_RIP 0 (fun _ => 0) .blank, rfl⟩
  subst rip
  refine ⟨s, rfl, ?_⟩
  rw [Cpu.Run66, Cpu.Run, runWith_map, runWith_map, Run66_wide w, Run_wide w, op, narrow, own]
  exact Option.some_ne_none _

theorem seen_D9 (w : rex.w = true) (op : opcodeAt code R_RIP = 0xD9)
    (accepted : (OneByte.Run66D9 (nextopAt code R_RIP)).isSome) : Seen around code rex rep R_RIP := by
  obtain ⟨-, refused⟩ | ⟨memory, ⟨narrow, own⟩ | ⟨narrow, own⟩⟩ := Run66D9_cases _ accepted
  · obtain ⟨c, narrow⟩ := Option.isSome_iff_exists.mp accepted
    exact seen_of_refused w op narrow refused
  · obtain ⟨s, rip, apart, -⟩ := load_apart R_RIP memory
    exact seen_of_apart w op rip narrow own apart
  · exact seen_of_apart w op rfl narrow own (save_apart R_RIP memory).1

theorem seen_DD (w : rex.w = true) (op : opcodeAt code R_RIP = 0xDD)
    (accepted : (OneByte.Run66DD (nextopAt code R_RIP)).isSome) : Seen around code rex rep R_RIP := by
  obtain ⟨register, narrow, own⟩ | ⟨memory, ⟨narrow, own⟩ | ⟨narrow, own⟩⟩ := Run66DD_cases _ accepted
  · exact seen_of_apart w op rfl narrow own (frstor_register_apart R_RIP register)
  · obtain ⟨s, rip, -, apart⟩ := load_apart R_RIP memory
    exact seen_of_apart w op rip narrow own apart
  · exact seen_of_apart w op rfl narrow own (save_apart R_RIP memory).2

theorem seen_FF (w : rex.w = true) (op : opcodeAt code R_RIP = 0xFF)
    (accepted : (OneByte.Run66 ⟨0x48⟩ 0xFF (nextopAt code R_RIP)).isSome) : Seen around code rex rep R_RIP := by
  obtain ⟨narrow, own⟩ | ⟨narrow, own⟩ := group5_cases _ accepted
  · exact seen_of_apart w op rfl narrow own (step_apart R_RIP).1
  · exact seen_of_apart w op rfl narrow own (step_apart R_RIP).2

theorem seen_of_narrowed (w : rex.w = true) (accepted : Accepted66 code rex R_RIP)
    (narrow : (opcodeAt code R_RIP).toNat ∈ narrowed) : Seen around code rex rep R_RIP := by
  rw [Accepted66, Run66_wide w] at accepted
  simp only [narrowed, List.mem_cons, List.not_mem_nil, or_false] at narrow
  have opcode {k : BitVec 8} (same : (opcodeAt code R_RIP).toNat = k.toNat) : opcodeAt code R_RIP = k :=
    BitVec.eq_of_toNat_eq same
  obtain op | op | op | op | op | op | op | op | op | op | op | op := narrow
  · exact seen_of_apart w (opcode (k := 0x3B) op) rfl rfl rfl (cmp_apart R_RIP)
  · exact seen_of_apart w (opcode (k := 0x81) op) rfl rfl rfl (imm_apart (.filled R_RIP 0 (fun _ => 0) .blank)).1
  · exact seen_of_apart w (opcode (k := 0x83) op) rfl rfl rfl (group_apart R_RIP)
  · exact seen_of_apart w (opcode (k := 0x85) op) rfl rfl rfl (test_apart R_RIP)
  · exact seen_of_apart w (opcode (k := 0x98) op) rfl rfl rfl (accumulator_apart R_RIP).1
  · exact seen_of_apart w (opcode (k := 0x99) op) rfl rfl rfl (accumulator_apart R_RIP).2
  · exact seen_of_apart w (opcode (k := 0xC7) op) rfl rfl rfl (imm_apart (.filled R_RIP 0 (fun _ => 0) .blank)).2
  · exact seen_of_apart w (opcode (k := 0xC8) op) rfl rfl rfl (enter_apart R_RIP)
  · exact seen_of_apart w (opcode (k := 0xC9) op) rfl rfl rfl (leave_apart R_RIP)
  · have op : opcodeAt code R_RIP = 0xD9 := opcode op
    rw [op] at accepted
    exact seen_D9 w op accepted
  · have op : opcodeAt code R_RIP = 0xDD := opcode op
    rw [op] at accepted
    exact seen_DD w op accepted
  · have op : opcodeAt code R_RIP = 0xFF := opcode op
    rw [op] at accepted
    exact seen_FF w op accepted

/-- The prefix is without effect on exactly the bytes of `Ignores66`. -/
theorem transparent_iff (around : Surroundings) (rep : Rep) (w : rex.w = true) (accepted : Accepted66 code rex R_RIP) :
    (∀ s : Cpu, s.R_RIP = R_RIP → s.Run66 around code rex rep = s.Run around code rex rep) ↔ Ignores66 code rex R_RIP := by
  constructor
  · intro same
    by_contra ignores
    suffices seen : Seen around code rex rep R_RIP by
      obtain ⟨s, rip, differ⟩ := seen
      exact differ (same s rip)
    rw [Ignores66] at ignores
    split at ignores
    case isTrue op => exact seen_of_apart w op rfl rfl rfl (seg_apart R_RIP ignores)
    case isFalse =>
      split at ignores
      case isTrue op => exact seen_of_apart w op rfl rfl rfl (shift_apart R_RIP ignores)
      case isFalse => exact seen_of_narrowed w accepted (not_not.mp ignores)
  · rintro ignores s rfl
    rw [Ignores66] at ignores
    split at ignores
    case isTrue op => exact run_seg around rep w op ignores
    case isFalse seg =>
      split at ignores
      case isTrue op => exact run_rotate_zero around rep w op ignores.1 ignores.2
      case isFalse shift =>
        refine run_shared around rep s w fun member => ?_
        obtain op | op | narrow := List.mem_cons.mp member |>.imp_right List.mem_cons.mp
        · exact seg (BitVec.eq_of_toNat_eq op)
        · exact shift (BitVec.eq_of_toNat_eq op)
        · exact ignores narrow

end Main

/-- `ADD RAX, RBX` behind the prefixes. -/
theorem transparent_iff_add :
    (∀ s : Cpu, s.R_RIP = 0x1000 →
      s.Run66 ⟨fun _ => 0, fun _ => 0, fun _ _ sw => sw⟩ (fun a => if a = 0x1000 then 0x01 else 0xD8) ⟨0x48⟩ .none =
        s.Run ⟨fun _ => 0, fun _ => 0, fun _ _ sw => sw⟩ (fun a => if a = 0x1000 then 0x01 else 0xD8) ⟨0x48⟩ .none) ↔
      Ignores66 (fun a => if a = 0x1000 then 0x01 else 0xD8) ⟨0x48⟩ 0x1000 :=
  transparent_iff _ .none (by decide) (by decide)

/-- `66 48 98` extends `AL` to `AX` and not `EAX` to `RAX`. -/
theorem cdqe_stays_cbw : ¬ ∀ (around : Surroundings) (code : Memory) (rex : Rex) (rep : Rep) (R_RIP : BitVec 64),
    rex.w = true → Accepted66 code rex R_RIP →
      ∀ s : Cpu, s.R_RIP = R_RIP → s.Run66 around code rex rep = s.Run around code rex rep := by
  intro transparent
  let around : Surroundings := ⟨fun _ => 0, fun _ => 0, fun _ _ sw => sw⟩
  have opcode : opcodeAt (fun _ => 0x98) 0 = 0x98 := by decide
  obtain ⟨s, rip, differ⟩ : Seen around (fun _ => 0x98) ⟨0x48⟩ .none 0 :=
    seen_of_apart (by decide) opcode rfl rfl rfl (accumulator_apart 0).1
  exact differ (transparent around _ ⟨0x48⟩ .none 0 (by decide) (by decide) s rip)

end Box64.Emu
