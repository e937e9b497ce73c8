import Box64.Emu.FlagLemmas
import Box64.Emu.Run

/-!
# Upper halves after 32-bit operations

An operation with 32-bit operands leaves the upper half of each register it writes clear, but for those cases of `Run`,
`Run0F` and `RunF30F` that write the low half alone: these keep what the upper half was.
-/

namespace Box64.Emu

open BitVec AddressForm

/-- The upper half is clear. -/
def Extended (x : BitVec 64) : Prop := x.toNat < 2 ^ 32

instance (x : BitVec 64) : Decidable (Extended x) := inferInstanceAs (Decidable (_ < _))

theorem extended_iff (x : BitVec 64) : Extended x ↔ x >>> 32 = 0 := by
  rw [Extended, ← BitVec.toNat_inj, BitVec.toNat_ushiftRight, Nat.shiftRight_eq_div_pow]
  simp [Nat.div_eq_zero_iff]

namespace Insn

variable (i : Insn) (emu : X64Emu) (mem : Memory)

/-! ### What the processor writes -/

/-- `ED` as a destination. -/
def edRegs : List (Fin 16) := if i.MODREG then [i.edReg] else []

/-- The general registers an operation writes; `BSF` and `BSR` write none if they find no bit. -/
def writes : Op → List (Fin 16)
  | .OP_Ed_Gd _ | .GRP_Ed_Id _ | .GRP2_Ed _ | .NOT_Ed | .NEG_Ed | .INC_Ed | .DEC_Ed | .SHLD _ | .SHRD _
  | .BIT_Ed_Gd _ | .BIT_Ed_Ib _ => i.edRegs
  | .OP_EAX_Id _ => [_RAX]
  | .MUL_Ed _ | .DIV_Ed _ => [_RAX, _RDX]
  | .BSF | .BSR => if i.ED .w32 emu mem = 0 then [] else [i.GD]
  | .XADD => i.GD :: i.edRegs
  | .BSWAP => [regNumber i.opcode2 i.rex.b]
  | .OP_Gd_Ed _ | .MOVSXD | .IMUL_Gd_Ed_Id | .IMUL_Gd_Ed_Ib | .CMOV _ | .IMUL_Gd_Ed | .MOVZX_Gd_Eb | .MOVZX_Gd_Ew
  | .MOVSX_Gd_Eb | .MOVSX_Gd_Ew | .POPCNT | .TZCNT | .LZCNT | .CVTTSS2SI | .CVTSS2SI => [i.GD]

/-- No register whose low half alone is written has anything in its upper half. -/
def Clear : Op → Prop
  | .MOVSXD => i.MODREG ∨ Extended (emu.regs i.GD)
  | .BIT_Ed_Ib _ => i.MODREG → Extended (emu.regs i.edReg)
  | .MUL_Ed _ => Extended (emu.regs _RDX)
  | .TZCNT => Extended (emu.regs i.GD)
  | _ => True

end Insn

/-! ### Writing registers -/

section Write

variable (emu : X64Emu) (r : Fin 16)

theorem setWhole_regs {n : Nat} (v : BitVec n) : (emu.setWhole r v).regs r = v.setWidth 64 := by
  rw [X64Emu.setWhole, setReg_regs, Function.update_self, setLow_full]

theorem setWhole_other {n : Nat} {r r' : Fin 16} (other : r' ≠ r) (v : BitVec n) :
    (emu.setWhole r v).regs r' = emu.regs r' :=
  setReg_other emu other (v.setWidth 64)

theorem extended_setWhole {n : Nat} (narrow : n ≤ 32) (v : BitVec n) : Extended ((emu.setWhole r v).regs r) := by
  have small : v.toNat < 2 ^ 32 := Nat.lt_of_lt_of_le v.isLt (Nat.pow_le_pow_right (by decide) narrow)
  rw [setWhole_regs, Extended, BitVec.toNat_setWidth_of_le (by omega)]
  exact small

theorem extended_clearHigh : Extended ((emu.clearHigh r).regs r) := extended_setWhole emu r (Nat.le_refl 32) _

/-- Writing the low half keeps the upper one. -/
theorem extended_setReg_iff (v : BitVec 32) : Extended ((emu.setReg r v).regs r) ↔ Extended (emu.regs r) := by
  have kept : setLow (emu.regs r) v >>> 32 = emu.regs r >>> 32 := by
    ext k lt
    simpa [setLow] using BitVec.lt_of_getLsbD
  rw [setReg_regs, Function.update_self, extended_iff, extended_iff, kept]

end Write

/-! ### What keeps the registers -/

section Frames

variable (i : Insn) (emu : X64Emu) (mem : Memory)

theorem CHECK_FLAGS_regs : (CHECK_FLAGS emu).regs = emu.regs := by
  rw [CHECK_FLAGS_eq]
  rfl

theorem setCF_regs (b : Bool) : (emu.setCF b).regs = emu.regs := rfl

theorem setED_of_register {n : Nat} (register : i.MODREG) (v : BitVec n) :
    i.setED emu mem v = (emu.setWhole i.edReg v, mem) := if_pos register

theorem putED_of_register {n : Nat} (register : i.MODREG) (v : BitVec n) :
    i.putED emu mem v = (emu.setReg i.edReg v, mem) := if_pos register

theorem mem_edRegs {r : Fin 16} (mem : r ∈ i.edRegs) : i.MODREG ∧ r = i.edReg := by
  unfold Insn.edRegs at mem
  split at mem
  · exact ⟨‹_›, List.mem_singleton.mp mem⟩
  · cases mem

end Frames

/-! ### Destinations -/

section Destinations

variable (i : Insn) (emu : X64Emu) (mem : Memory)

theorem setED_extends {n : Nat} (narrow : n ≤ 32) (v : BitVec n) :
    ∀ r ∈ i.edRegs, Extended ((i.setED emu mem v).1.regs r) := by
  intro r member
  obtain ⟨register, rfl⟩ := mem_edRegs i member
  rw [setED_of_register i emu mem register]
  exact extended_setWhole emu i.edReg narrow v

theorem setGD_extends {n : Nat} (narrow : n ≤ 32) (v : BitVec n) :
    ∀ r ∈ [i.GD], Extended ((i.setGD emu v).regs r) := by
  intro r member
  obtain rfl := List.mem_singleton.mp member
  exact extended_setWhole emu i.GD narrow v

theorem setSignedGD_extends (v : BitVec 32) : ∀ r ∈ [i.GD], Extended ((i.setSignedGD .w32 emu v).regs r) := by
  intro r member
  obtain rfl := List.mem_singleton.mp member
  exact extended_clearHigh (emu.setReg i.GD v) i.GD

theorem setED_keeps {n : Nat} (narrow : n ≤ 32) (v : BitVec n) {r : Fin 16} (extended : Extended (emu.regs r)) :
    Extended ((i.setED emu mem v).1.regs r) := by
  by_cases register : i.MODREG
  · rw [setED_of_register i emu mem register]
    by_cases same : r = i.edReg
    · subst same
      exact extended_setWhole emu i.edReg narrow v
    · rwa [setWhole_other emu same]
  · rw [Insn.setED, if_neg register]
    exact extended

theorem modifyED_extends (op : X64Emu → BitVec 32 → BitVec 32 × X64Emu) :
    ∀ r ∈ i.edRegs, Extended ((i.modifyED .w32 emu mem op).1.regs r) :=
  setED_extends i _ mem (Nat.le_refl 32) _

/-- A bit set, cleared or changed in a register is in its low half. -/
theorem bit_extends_iff (op : BitOp) (k : Nat) (register : i.MODREG) :
    Extended ((i.bit .w32 emu mem op k).1.regs i.edReg) ↔ Extended (emu.regs i.edReg) := by
  cases stored : op.eval (i.ED .w32 emu mem) k with
  | none => simp only [Insn.bit, stored, setCF_regs]
  | some v =>
    simp only [Insn.bit, stored, putED_of_register i _ mem register]
    exact extended_setReg_iff _ i.edReg v

/-- `BSF` and `BSR` write their register if there is a bit to find. -/
theorem scan_extends (found : Nat) :
    ∀ r ∈ if i.ED .w32 emu mem = 0 then [] else [i.GD], Extended ((i.scan .w32 emu mem found).regs r) := by
  have same : i.ED .w32 (CHECK_FLAGS emu) mem = i.ED .w32 emu mem := by
    unfold Insn.ED X64Emu.reg
    rw [CHECK_FLAGS_regs]
  intro r member
  split at member
  case isTrue zero => cases member
  case isFalse nonzero =>
    have written : i.scan .w32 emu mem found = i.setGD ((CHECK_FLAGS emu).setZF false) (BitVec.ofNat 8 found) := by
      simp only [Insn.scan, same, ne_eq, nonzero, not_false_eq_true, if_true]
    rw [written]
    exact setGD_extends i _ (by decide) _ r member

theorem mul_RDX (s : BitVec 32) : Extended ((mul .w32 emu s).regs _RDX) ↔ Extended (emu.regs _RDX) :=
  extended_setReg_iff _ _RDX _

theorem imulAcc_RDX (s : BitVec 32) : Extended ((imulAcc .w32 emu s).regs _RDX) ↔ Extended (emu.regs _RDX) :=
  extended_setReg_iff _ _RDX _

theorem setDivided_extends (quot mod : BitVec 32) :
    ∀ r ∈ [_RAX, _RDX], Extended ((setDivided emu .w32 quot mod).regs r) := by
  have written : setDivided emu .w32 quot mod = (emu.setWhole _RAX quot).setWhole _RDX mod := rfl
  rw [written]
  intro r member
  rcases List.mem_pair.mp member with rfl | rfl
  · rw [setWhole_other _ (by decide)]
    exact extended_setWhole emu _RAX (Nat.le_refl 32) quot
  · exact extended_setWhole _ _RDX (Nat.le_refl 32) mod

/-- A division that raises nothing stores a quotient and a remainder. -/
theorem divide_done (sg : Signedness) (s : BitVec 32) {emu' : X64Emu} (done : sg.divide .w32 emu s = .done emu') :
    ∃ before quot mod, emu' = setDivided before .w32 quot mod := by
  cases sg with
  | signed =>
    simp only [Signedness.divide, idiv] at done
    split at done
    · cases done
    · split at done
      · cases done
      · split at done
        · cases done
        · cases done
        · cases done
          exact ⟨_, _, _, rfl⟩
  | unsigned =>
    simp only [Signedness.divide, div] at done
    split at done
    · cases done
    · split at done
      · cases done
      · cases done
        exact ⟨_, _, _, rfl⟩

end Destinations

namespace Insn

variable (i : Insn) (emu : X64Emu) (mem : Memory)

theorem exec_extends_iff (sse : Sse) (op : Op) {out : X64Emu × Memory} (done : i.exec .w32 emu mem sse op = some out) :
    (∀ r ∈ i.writes emu mem op, Extended (out.1.regs r)) ↔ i.Clear emu op := by
  cases op
  case OP_Ed_Gd | GRP_Ed_Id | GRP2_Ed | NOT_Ed | NEG_Ed | INC_Ed | DEC_Ed | SHLD | SHRD =>
    cases done
    exact iff_of_true (modifyED_extends i emu mem _) trivial
  case OP_Gd_Ed | IMUL_Gd_Ed_Id | IMUL_Gd_Ed_Ib | IMUL_Gd_Ed | MOVZX_Gd_Eb | MOVZX_Gd_Ew | POPCNT | LZCNT =>
    cases done
    exact iff_of_true (setGD_extends i _ (by decide) _) trivial
  case MOVSX_Gd_Eb | MOVSX_Gd_Ew | CVTTSS2SI | CVTSS2SI =>
    cases done
    exact iff_of_true (setSignedGD_extends i _ _) trivial
  case BSF | BSR =>
    cases done
    exact iff_of_true (scan_extends i emu mem _) trivial
  case OP_EAX_Id op =>
    cases done
    refine iff_of_true (fun r member => ?_) trivial
    obtain rfl := List.mem_singleton.mp member
    exact extended_setWhole _ _RAX (by decide) _
  case BSWAP =>
    cases done
    refine iff_of_true (fun r member => ?_) trivial
    obtain rfl := List.mem_singleton.mp member
    exact extended_setWhole emu _ (by decide) _
  case CMOV cond =>
    refine iff_of_true (fun r member => ?_) trivial
    simp only [exec] at done
    split at done
    · cases done
      exact setGD_extends i _ (by decide) _ r member
    · cases done
      obtain rfl := List.mem_singleton.mp member
      exact extended_clearHigh _ i.GD
  case DIV_Ed sg =>
    refine iff_of_true ?_ trivial
    simp only [exec] at done
    split at done
    case h_2 => cases done
    case h_1 emu' divided =>
      cases done
      obtain ⟨before, quot, mod, rfl⟩ := divide_done emu sg _ divided
      exact setDivided_extends before quot mod
  case BIT_Ed_Gd op =>
    refine iff_of_true (fun r member => ?_) trivial
    obtain ⟨register, rfl⟩ := mem_edRegs i member
    obtain ⟨k, inPlace⟩ : ∃ k, i.bitOperand .w32 (CHECK_FLAGS emu) = (i, k) :=
      ⟨_, Prod.ext (if_pos register) rfl⟩
    simp only [exec, inPlace] at done
    cases done
    rw [if_pos ⟨by decide, register⟩]
    exact extended_clearHigh _ i.edReg
  case XADD =>
    cases done
    refine iff_of_true (fun r member => ?_) trivial
    rcases List.mem_cons.mp member with rfl | operand
    · exact setED_keeps i _ mem (by decide) _ (extended_setWhole _ i.GD (by decide) _)
    · exact setED_extends i _ mem (by decide) _ r operand
  case MOVSXD =>
    by_cases register : i.MODREG
    · simp only [exec, register, if_true] at done
      cases done
      exact iff_of_true (setGD_extends i emu (by decide) _) (.inl register)
    · simp only [exec, register] at done
      cases done
      rw [writes, List.forall_mem_singleton, Clear, or_iff_right register]
      exact extended_setReg_iff emu i.GD _
  case BIT_Ed_Ib op =>
    cases done
    rw [writes, Clear]
    constructor
    · intro extended register
      have kept := extended i.edReg (by rw [edRegs, if_pos register]; exact List.mem_singleton_self _)
      rwa [bit_extends_iff i _ mem op _ register, CHECK_FLAGS_regs] at kept
    · intro clear r member
      obtain ⟨register, rfl⟩ := mem_edRegs i member
      rw [bit_extends_iff i _ mem op _ register, CHECK_FLAGS_regs]
      exact clear register
  case TZCNT =>
    have kept (v : BitVec 32) :
        Extended (((CHECK_FLAGS emu).setReg i.GD v).regs i.GD) ↔ Extended (emu.regs i.GD) := by
      rw [extended_setReg_iff, CHECK_FLAGS_regs]
    rw [writes, List.forall_mem_singleton, Clear]
    simp only [exec] at done
    split at done
    · cases done
      exact kept _
    · cases done
      exact kept _
  case MUL_Ed sg =>
    have accumulator (e : X64Emu) : Extended ((e.clearHigh _RAX).regs _RAX) := extended_clearHigh e _RAX
    have other (e : X64Emu) : (e.clearHigh _RAX).regs _RDX = e.regs _RDX := setWhole_other e (by decide) _
    rw [writes, List.forall_mem_cons, List.forall_mem_singleton, Clear]
    cases sg with
    | unsigned =>
      cases done
      exact (and_iff_right (accumulator _)).trans (by rw [← mul_RDX emu, ← other]; rfl)
    | signed =>
      cases done
      exact (and_iff_right (accumulator _)).trans (by rw [← imulAcc_RDX emu, ← other]; rfl)

/-- A 32-bit instruction leaves the upper half of every register it writes clear exactly if it is not one of those that
write a low half alone, or finds the upper half clear. -/
theorem upper_halves_clear_iff (sse : Sse) {op : Op} {out : X64Emu × Memory} (plain : i.rex.w = false)
    (is : i.op = some op) (done : i.Run emu mem sse = some out) :
    (∀ r ∈ i.writes emu mem op, Extended (out.1.regs r)) ↔ i.Clear emu op := by
  have narrow : i.width = .w32 := by rw [MemInsn.width, plain]; rfl
  rw [Run, is, Option.bind_some, narrow] at done
  exact exec_extends_iff i emu mem sse op done

/-- Every register with an upper half. -/
def sampleEmu : X64Emu where
  regs _ := 0x700000003
  eflags := ⟨false, false, false, false, false, false⟩
  df := .d_none
  op1 := 0
  op2 := 0
  res := 0

def sampleSse : Sse where
  mxcsr := 0x1f80
  toInt _ _ := 0

/-- `NOT ECX`. -/
def sampleNot : Insn where
  rex := ⟨0⟩
  opcode := 0xF7
  opcode2 := 0
  nextop := 0xD1
  ed := 0
  imm := 0
  rep := 0

theorem upper_halves_clear_iff_sample :
    (∀ r ∈ sampleNot.writes sampleEmu (fun _ => 0) .NOT_Ed,
      Extended ((sampleEmu.setWhole 1 0xfffffffc#32).regs r)) ↔ sampleNot.Clear sampleEmu .NOT_Ed := by
  have done : sampleNot.Run sampleEmu (fun _ => 0) sampleSse =
      some (sampleEmu.setWhole 1 0xfffffffc#32, fun _ => 0) := rfl
  exact upper_halves_clear_iff sampleNot sampleEmu (fun _ => 0) sampleSse rfl rfl done

/-- `MOVSXD EAX, [RSI]`. -/
def sampleMovsxd : Insn where
  rex := ⟨0⟩
  opcode := 0x63
  opcode2 := 0
  nextop := 0x06
  ed := 0x700000003
  imm := 0
  rep := 0

/-- `MOVSXD` leaves the upper half it finds. -/
theorem upper_halves_left :
    ¬ ∀ (i : Insn) (emu : X64Emu) (mem : Memory) (sse : Sse) (op : Op) (out : X64Emu × Memory), i.rex.w = false →
      i.op = some op → i.Run emu mem sse = some out → ∀ r ∈ i.writes emu mem op, Extended (out.1.regs r) := by
  intro always
  have extended := always sampleMovsxd sampleEmu (fun _ => 0) sampleSse .MOVSXD
    (sampleEmu.setReg 0 0#32, fun _ => 0) rfl rfl rfl 0 (List.mem_singleton_self _)
  exact absurd extended (by decide)

end Insn

end Box64.Emu
