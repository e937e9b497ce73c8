import Box64.Dynarec.ShiftOverflow

/-!
# Runs of the shift emitters' code

The host state after the code of each shift: the operand, the flags and the pending operation, for a count that is
not 0. The code falls into the carry, the result and what follows a result.
-/

namespace Box64.Arm64

open BitVec Emu Dynarec

namespace Emit

variable (host : Host) (dyn : Emit) {s1 s2 s3 s4 : Reg}

/-- The flags after a result; the carry is in `f` already. -/
def finishFlags (f : X64Flags) (v : BitVec (opSize dyn.rexw)) (zf off : Bool) : X64Flags where
  CF := f.CF
  PF := if dyn.needs X_PF then PARITY (v.setWidth 8) else f.PF
  AF := f.AF
  ZF := if dyn.needs X_ZF then zf else f.ZF
  SF := if dyn.needs X_SF then v.msb else f.SF
  OF := if dyn.needs X_OF then off else f.OF

/-- The code ends with a value in its operand and with these flags, and the pending operation has the value for its
result. -/
structure Ends (s1 : Reg) (v : BitVec (opSize dyn.rexw)) (f : X64Flags) (m m' : Cpu) : Prop where
  result : m'.get dyn.rexw s1 = v
  flags : m'.flags = f
  same : SameOperation m m'
  res : dyn.needs X_PEND = true → low (opSize dyn.rexw) m'.emu.res = v

/-- What the code of a result does: only the operand and scratch registers change. -/
structure Results (s1 : Reg) (scratch : List Reg) (v : BitVec (opSize dyn.rexw)) (m m' : Cpu) : Prop where
  value : m'.get dyn.rexw s1 = v
  flags : m'.flags = m.flags
  regs : ∀ r, r ≠ xFlags → r ≠ s1 → r ∉ scratch → m'.regs r = m.regs r
  fields : m'.fields = m.fields

theorem low_eight (sf : Bool) (usable : Usable s1) (m : Cpu) : low 8 (m.regs s1) = (m.get sf s1).setWidth 8 := by
  have le : 8 ≤ opSize sf := (opWidth sf).le_bits
  rw [m.get_of_ne s1 sf usable.not_zero, low, low, setWidth_setWidth_of_le _ le]

theorem get_narrow (m : Cpu) (usable : Usable s1) {sf sf' : Bool} (le : opSize sf' ≤ opSize sf) :
    m.get sf' s1 = (m.get sf s1).setWidth (opSize sf') := by
  rw [m.get_of_ne s1 sf usable.not_zero, m.get_of_ne s1 sf' usable.not_zero, low, low, setWidth_setWidth_of_le _ le]

theorem get_of_regs {m m' : Cpu} (sf : Bool) {q : Reg} (same : m'.regs q = m.regs q) : m'.get sf q = m.get sf q := by
  rw [Cpu.get, Cpu.get, same]

theorem Apart.not_mem (apart : Apart s1 s3 s4) : s1 ∉ [s3, s4] := by
  simpa using And.intro apart.ne13 apart.ne14

/-- Code that computes a carry, then a result, then the flags of the result, run after the operands are stored. -/
theorem ends_of_parts (apart : Apart s1 s3 s4) {m m1 : Cpu} (keeps : Keeps [s3, s4] m m1) {sf : Bool}
    (le : opSize sf ≤ opSize dyn.rexw) {carry result overflow : List Inst} {f : X64Flags}
    {v : BitVec (opSize dyn.rexw)} {off : Bool} (closed_carry : Closed host carry) (straight : Straight result)
    (closed_overflow : Closed host overflow) (carries : Computes [s3, s4] f m1 (exec host carry m1))
    (results : let m2 := exec host carry m1
      (∀ r, r ≠ xFlags → r ∉ [s3, s4] → m2.regs r = m.regs r) → dyn.Results s1 [s3, s4] v m2 (exec host result m2))
    (overflows : let m3 := exec host result (exec host carry m1)
      m3.get dyn.rexw s1 = v → m3.flags = f →
        dyn.ComputesSignAndOverflow host s1 s3 s4 off m3 (dyn.setSF s1 s4 ++ overflow)) :
    dyn.Ends s1 v (dyn.finishFlags f v (v.setWidth (opSize sf) == 0) off) m1
      (exec host (carry ++ (result ++ (dyn.pendRes s1 ++ (dyn.setZF sf s1 s4 ++ (dyn.setSF s1 s4 ++
        (overflow ++ dyn.setPF host s1 s3 s4)))))) m1) := by
  let m2 := exec host carry m1
  let m3 := exec host result m2
  have regs2 : ∀ r, r ≠ xFlags → r ∉ [s3, s4] → m2.regs r = m.regs r :=
    fun r ne out => (carries.regs r ne out).trans (keeps.regs r ne out)
  have made := results regs2
  have value : m3.get dyn.rexw s1 = v := made.value
  have flags3 : m3.flags = f := made.flags.trans carries.flags
  have closed : Closed host (dyn.setSF s1 s4 ++ overflow) := (dyn.closed_setSF).append closed_overflow
  have finished := dyn.finished_finish m3 apart sf closed
    (overflows value flags3)
  have zero : m3.get sf s1 = v.setWidth (opSize sf) := by rw [get_narrow m3 apart.usable1 le, value]
  rw [closed_carry, exec_append host m2 straight]
  rw [finish, List.append_assoc] at finished
  refine ⟨?_, ?_, fun field ne => ?_, fun needed => ?_⟩
  · rw [Cpu.get, finished.result, ← Cpu.get]
    exact value
  · rw [finished.flags, low_eight dyn.rexw apart.usable1, flags3, value, zero]
    rfl
  · rw [finished.same field ne, made.fields, carries.fields]
  · rw [finished.res needed]
    exact value

theorem ends_of_whole_parts (apart : Apart s1 s3 s4) {m m1 : Cpu} (keeps : Keeps [s3, s4] m m1)
    {carry result overflow : List Inst} {f : X64Flags} {v : BitVec (opSize dyn.rexw)} {off : Bool}
    (closed_carry : Closed host carry) (straight : Straight result) (closed_overflow : Closed host overflow)
    (carries : Computes [s3, s4] f m1 (exec host carry m1))
    (results : let m2 := exec host carry m1
      (∀ r, r ≠ xFlags → r ∉ [s3, s4] → m2.regs r = m.regs r) → dyn.Results s1 [s3, s4] v m2 (exec host result m2))
    (overflows : let m3 := exec host result (exec host carry m1)
      m3.get dyn.rexw s1 = v → m3.flags = f →
        dyn.ComputesSignAndOverflow host s1 s3 s4 off m3 (dyn.setSF s1 s4 ++ overflow)) :
    dyn.Ends s1 v (dyn.finishFlags f v (v == 0) off) m1
      (exec host (carry ++ (result ++ (dyn.pendRes s1 ++ (dyn.setZF dyn.rexw s1 s4 ++ (dyn.setSF s1 s4 ++
        (overflow ++ dyn.setPF host s1 s3 s4)))))) m1) := by
  have ends := dyn.ends_of_parts host apart keeps (Nat.le_refl _) closed_carry straight closed_overflow carries results
    overflows
  rw [setWidth_eq] at ends
  exact ends

/-! ### Results -/

theorem results_set (m : Cpu) (usable : Usable s1) (scratch : List Reg) (v : BitVec (opSize dyn.rexw)) :
    dyn.Results s1 scratch v m (m.set s1 v) where
  value := get_set_same m usable dyn.rexw v
  flags := set_flags m v usable
  regs _ _ ne _ := m.set_regs_of_ne v ne
  fields := m.set_fields s1 v

/-- A double shift makes one part in a scratch register. -/
theorem results_set_set (m : Cpu) (apart : Apart s1 s3 s4) (x v : BitVec (opSize dyn.rexw)) :
    dyn.Results s1 [s3, s4] v m ((m.set s3 x).set s1 v) where
  value := get_set_same _ apart.usable1 dyn.rexw v
  flags := (set_flags _ v apart.usable1).trans (set_flags m x apart.usable3)
  regs r _ ne out := by
    have ne3 : r ≠ s3 := fun eq => out (by simp [eq])
    rw [Cpu.set_regs_of_ne _ v ne, m.set_regs_of_ne x ne3]
  fields := by rw [Cpu.set_fields, Cpu.set_fields]

/-! ### Carries -/

/-- `BFI` of the low bit of a register. -/
theorem computes_BFI_CF (m : Cpu) (sf : Bool) {q : Reg} {scratch : List Reg} {b : Bool}
    (bit : (m.get sf q).getLsbD 0 = b) :
    Computes scratch { m.flags with CF := b } m (exec host [BFI sf xFlags q F_CF] m) where
  flags := (putFlag_CF m sf (m.get sf q)).trans (by rw [bit])
  regs r ne _ := putFlag_regs m sf (m.get sf q) F_CF ne
  fields := putFlag_fields m sf (m.get sf q) F_CF

theorem bit_get_eq (m : Cpu) {q : Reg} (usable : q ≠ xZR) (sf : Bool) :
    (m.get sf q).getLsbD 0 = (m.regs q).getLsbD 0 := by
  rw [m.get_of_ne q sf usable, low, getLsbD_setWidth]
  simp [opSize_pos]

/-- The last bit of `s1` shifted out by a constant. -/
theorem computes_lastOut (kind : Shift) (m : Cpu) (apart : Apart s1 s3 s4) (c : Nat) {b : Bool}
    (many : 1 < c → (kind.eval (m.get dyn.rexw s1) (c - 1)).getLsbD 0 = b)
    (one : ¬ 1 < c → (m.get dyn.rexw s1).getLsbD 0 = b) :
    Computes [s3, s4] (if dyn.needs X_CF then { m.flags with CF := b } else m.flags) m
      (exec host (dyn.lastOut kind s1 c s3) m) := by
  refine dyn.computes_IFX m ?_
  intro _
  by_cases several : 1 < c
  · let v := kind.eval (m.get dyn.rexw s1) (c - 1)
    have code : exec host ((if 1 < c then [Inst.shift kind dyn.rexw s3 s1 (c - 1)] else []) ++
        [BFI false xFlags (if 1 < c then s3 else s1) 0]) m = exec host [BFI false xFlags s3 F_CF] (m.set s3 v) := by
      rw [if_pos several, if_pos several]
      rfl
    have bit : ((m.set s3 v).get false s3).getLsbD 0 = b := by
      rw [getLsbD_get_set m v apart.usable3 false (opSize_pos false)]
      exact many several
    have first : Computes [s3, s4] m.flags m (m.set s3 v) := computes_set m apart.usable3 (by simp) v
    have put : Computes [s3, s4] _ (m.set s3 v) _ := computes_BFI_CF host (m.set s3 v) false bit
    rw [first.flags] at put
    rw [code]
    exact first.trans put
  · have code : exec host ((if 1 < c then [Inst.shift kind dyn.rexw s3 s1 (c - 1)] else []) ++
        [BFI false xFlags (if 1 < c then s3 else s1) 0]) m = exec host [BFI false xFlags s1 F_CF] m := by
      rw [if_neg several, if_neg several]
      rfl
    have bit : (m.get false s1).getLsbD 0 = b := by
      rw [bit_get_eq m apart.usable1.not_zero, ← bit_get_eq m apart.usable1.not_zero dyn.rexw]
      exact one several
    rw [code]
    exact computes_BFI_CF host m false bit

/-- The carry of a left shift by a constant. -/
theorem computes_topOut (m : Cpu) (apart : Apart s1 s3 s4) (c : Nat) :
    Computes [s3, s4]
      (if dyn.needs (X_CF ||| X_OF) then { m.flags with CF := (m.get dyn.rexw s1).getLsbD (dyn.size - c) } else m.flags)
      m (exec host (dyn.IFX (X_CF ||| X_OF) [LSR dyn.rexw s3 s1 (dyn.size - c), BFI dyn.rexw xFlags s3 F_CF]) m) := by
  refine dyn.computes_IFX m ?_
  intro _
  let v := m.get dyn.rexw s1 >>> (dyn.size - c)
  have bit : ((m.set s3 v).get dyn.rexw s3).getLsbD 0 = (m.get dyn.rexw s1).getLsbD (dyn.size - c) := by
    rw [get_set_same m apart.usable3 dyn.rexw, getLsbD_ushiftRight, Nat.add_zero]
  have first : Computes [s3, s4] m.flags m (m.set s3 v) := computes_set m apart.usable3 (by simp) v
  have put : Computes [s3, s4] _ (m.set s3 v) _ := computes_BFI_CF host (m.set s3 v) dyn.rexw bit
  rw [first.flags] at put
  exact first.trans put

/-! ### Shifts by a constant -/

theorem straight_pendOpc (N : DeferedFlags) (c : Nat) : Straight (dyn.pendOpc s1 c s3 s4 N) :=
  dyn.straight_pendOrNone rfl

theorem straight_pendOp (N : DeferedFlags) : Straight (dyn.pendOp s1 s2 s4 N) := dyn.straight_pendOrNone rfl

/-- The carry flag after the carry fragment. -/
def carryFlags (A : BitVec 8) (f : X64Flags) (cf : Bool) : X64Flags := if dyn.needs A then { f with CF := cf } else f

/-- The code of `OF` in `emit_shl32c`. -/
def overflowLeft (s1 s4 : Reg) (c : Nat) : List Inst :=
  if c = 1 then dyn.signBit s1 s4 ++ [EOR_REG dyn.rexw s4 s4 xFlags, BFI false xFlags s4 F_OF]
  else [BFC false xFlags F_OF]

theorem closed_overflowLeft (c : Nat) : Closed host (dyn.IFX X_OF (dyn.overflowLeft s1 s4 c)) := by
  refine dyn.closed_IFX ?_
  rw [overflowLeft]
  split
  case isTrue => exact Closed.append (Straight.closed dyn.straight_signBit) (Straight.closed rfl)
  case isFalse => exact Straight.closed rfl

theorem overflows_left (m : Cpu) (apart : Apart s1 s3 s4) (c : Nat) :
    dyn.ComputesSignAndOverflow host s1 s3 s4 (if c = 1 then (m.get dyn.rexw s1).msb ^^ m.flags.CF else false) m
      (dyn.setSF s1 s4 ++ dyn.IFX X_OF (dyn.overflowLeft s1 s4 c)) := by
  rw [overflowLeft]
  split
  case isTrue => exact overflow_msb_xor_carry host dyn m apart
  case isFalse => exact overflow_cleared host dyn m apart

theorem ends_shl32c (m : Cpu) (apart : Apart s1 s3 s4) {c : Nat} (nonzero : c ≠ 0) :
    let d := m.get dyn.rexw s1
    let f := dyn.carryFlags (X_CF ||| X_OF) m.flags (d.getLsbD (dyn.size - c))
    dyn.Ends s1 (d <<< c)
      (dyn.finishFlags f (d <<< c) (d <<< c == 0) (if c = 1 then (d <<< c).msb ^^ f.CF else false))
      (exec host (dyn.pendOpc s1 c s3 s4 (.d_shl (opWidth dyn.rexw))) m)
      (exec host (dyn.emit_shl32c host s1 c s3 s4) m) := by
  intro d f
  let N : DeferedFlags := .d_shl (opWidth dyn.rexw)
  let m1 := exec host (dyn.pendOpc s1 c s3 s4 N) m
  have keeps : Keeps [s3, s4] m m1 := dyn.keeps_pendOpc m N c apart.usable3 apart.usable4
  have operand : m1.get dyn.rexw s1 = d :=
    get_of_regs dyn.rexw (keeps.regs s1 apart.usable1.not_flags apart.not_mem)
  have code : exec host (dyn.emit_shl32c host s1 c s3 s4) m =
      exec host (dyn.IFX (X_CF ||| X_OF) [LSR dyn.rexw s3 s1 (dyn.size - c), BFI dyn.rexw xFlags s3 F_CF] ++
        ([LSL dyn.rexw s1 s1 c] ++ (dyn.pendRes s1 ++ (dyn.setZF dyn.rexw s1 s4 ++ (dyn.setSF s1 s4 ++
          (dyn.IFX X_OF (dyn.overflowLeft s1 s4 c) ++ dyn.setPF host s1 s3 s4)))))) m1 := by
    rw [emit_shl32c, if_neg nonzero, exec_append host m (dyn.straight_pendOpc N c)]
    simp only [List.append_assoc]
    rfl
  have carries := dyn.computes_topOut host m1 apart c
  rw [operand, keeps.flags] at carries
  rw [code]
  refine dyn.ends_of_whole_parts host apart keeps (dyn.closed_IFX (Straight.closed rfl)) rfl
    (dyn.closed_overflowLeft host c) carries ?_ ?_
  · intro m2 regs
    have operand2 : m2.get dyn.rexw s1 = d := get_of_regs dyn.rexw (regs s1 apart.usable1.not_flags apart.not_mem)
    rw [← operand2]
    exact dyn.results_set m2 apart.usable1 [s3, s4] (m2.get dyn.rexw s1 <<< c)
  · intro m3 value flags
    rw [← value, ← flags]
    exact dyn.overflows_left host m3 apart c

theorem closed_lastOut (kind : Shift) (c : Nat) : Closed host (dyn.lastOut kind s1 c s3) := by
  refine dyn.closed_IFX (Straight.closed ?_)
  by_cases several : 1 < c
  · rw [if_pos several]
    rfl
  · rw [if_neg several]
    rfl

/-- The code of `OF` after a right shift. -/
def overflowRight (s1 s4 : Reg) (c : Nat) : List Inst := if c = 1 then dyn.topTwoDiffer s1 s4 else []

theorem closed_overflowRight (c : Nat) : Closed host (dyn.IFX X_OF (dyn.overflowRight s1 s4 c)) := by
  refine dyn.closed_IFX (Straight.closed ?_)
  rw [overflowRight]
  split <;> rfl

theorem overflows_right (m : Cpu) (apart : Apart s1 s3 s4) (c : Nat) :
    dyn.ComputesSignAndOverflow host s1 s3 s4
      (if c = 1 then XOR2 (m.get dyn.rexw s1 >>> (dyn.sign - 1)) else m.flags.OF) m
      (dyn.setSF s1 s4 ++ dyn.IFX X_OF (dyn.overflowRight s1 s4 c)) := by
  rw [overflowRight]
  split
  case isTrue => exact overflow_topTwoDiffer host dyn m apart
  case isFalse =>
    have nothing : dyn.IFX X_OF [] = [] := ite_self []
    rw [nothing, List.append_nil]
    exact overflow_kept host dyn m apart

theorem computes_lastOut_lsr (m : Cpu) (apart : Apart s1 s3 s4) {c : Nat} (nonzero : c ≠ 0) :
    Computes [s3, s4] (dyn.carryFlags X_CF m.flags ((m.get dyn.rexw s1).getLsbD (c - 1))) m
      (exec host (dyn.lastOut .lsr s1 c s3) m) := by
  refine dyn.computes_lastOut host .lsr m apart c ?_ ?_
  · intro _
    exact getLsbD_ushiftRight_pred _
  · intro single
    have one : c - 1 = 0 := by omega
    rw [one]

theorem ends_shr32c (m : Cpu) (apart : Apart s1 s3 s4) {c : Nat} (nonzero : c ≠ 0) :
    let d := m.get dyn.rexw s1
    dyn.Ends s1 (d >>> c)
      (dyn.finishFlags (dyn.carryFlags X_CF m.flags (d.getLsbD (c - 1))) (d >>> c) (d >>> c == 0)
        (if c = 1 then XOR2 (d >>> c >>> (dyn.sign - 1)) else m.flags.OF))
      (exec host (dyn.pendOpc s1 c s3 s4 (.d_shr (opWidth dyn.rexw))) m)
      (exec host (dyn.emit_shr32c host s1 c s3 s4) m) := by
  intro d
  let N : DeferedFlags := .d_shr (opWidth dyn.rexw)
  let m1 := exec host (dyn.pendOpc s1 c s3 s4 N) m
  have keeps : Keeps [s3, s4] m m1 := dyn.keeps_pendOpc m N c apart.usable3 apart.usable4
  have operand : m1.get dyn.rexw s1 = d :=
    get_of_regs dyn.rexw (keeps.regs s1 apart.usable1.not_flags apart.not_mem)
  have code : exec host (dyn.emit_shr32c host s1 c s3 s4) m =
      exec host (dyn.lastOut .lsr s1 c s3 ++ ([LSR dyn.rexw s1 s1 c] ++ (dyn.pendRes s1 ++ (dyn.setZF dyn.rexw s1 s4 ++
        (dyn.setSF s1 s4 ++ (dyn.IFX X_OF (dyn.overflowRight s1 s4 c) ++ dyn.setPF host s1 s3 s4)))))) m1 := by
    rw [emit_shr32c, if_neg nonzero, exec_append host m (dyn.straight_pendOpc N c)]
    simp only [List.append_assoc]
    rfl
  have carries := dyn.computes_lastOut_lsr host m1 apart nonzero
  rw [operand, keeps.flags] at carries
  rw [code]
  refine dyn.ends_of_whole_parts host apart keeps (dyn.closed_lastOut host .lsr c) rfl
    (dyn.closed_overflowRight host c) carries ?_ ?_
  · intro m2 regs
    have operand2 : m2.get dyn.rexw s1 = d := get_of_regs dyn.rexw (regs s1 apart.usable1.not_flags apart.not_mem)
    rw [← operand2]
    exact dyn.results_set m2 apart.usable1 [s3, s4] (m2.get dyn.rexw s1 >>> c)
  · intro m3 value flags
    have overflow : m3.flags.OF = m.flags.OF := by
      rw [flags, carryFlags]
      split <;> rfl
    rw [← value, ← overflow]
    exact dyn.overflows_right host m3 apart c

theorem ends_sar32c (m : Cpu) (apart : Apart s1 s3 s4) {c : Nat} (nonzero : c ≠ 0) (lt : c < opSize dyn.rexw) :
    let d := m.get dyn.rexw s1
    dyn.Ends s1 (d.sshiftRight c)
      (dyn.finishFlags (dyn.carryFlags X_CF m.flags (d.getLsbD (c - 1))) (d.sshiftRight c)
        ((d.sshiftRight c).setWidth (opSize false) == 0) m.flags.OF)
      (exec host (dyn.pendOpc s1 c s3 s4 (.d_sar (opWidth dyn.rexw))) m)
      (exec host (dyn.emit_sar32c host s1 c s3 s4) m) := by
  intro d
  let N : DeferedFlags := .d_sar (opWidth dyn.rexw)
  let m1 := exec host (dyn.pendOpc s1 c s3 s4 N) m
  have keeps : Keeps [s3, s4] m m1 := dyn.keeps_pendOpc m N c apart.usable3 apart.usable4
  have operand : m1.get dyn.rexw s1 = d :=
    get_of_regs dyn.rexw (keeps.regs s1 apart.usable1.not_flags apart.not_mem)
  have code : exec host (dyn.emit_sar32c host s1 c s3 s4) m =
      exec host (dyn.lastOut .asr s1 c s3 ++ ([ASR dyn.rexw s1 s1 c] ++ (dyn.pendRes s1 ++ (dyn.setZF false s1 s4 ++
        (dyn.setSF s1 s4 ++ ([] ++ dyn.setPF host s1 s3 s4)))))) m1 := by
    rw [emit_sar32c, if_neg nonzero, exec_append host m (dyn.straight_pendOpc N c)]
    simp only [List.append_assoc]
    rfl
  have carries : Computes [s3, s4] (dyn.carryFlags X_CF m1.flags ((m1.get dyn.rexw s1).getLsbD (c - 1))) m1
      (exec host (dyn.lastOut .asr s1 c s3) m1) := by
    have inside : c - 1 < opSize dyn.rexw := by omega
    refine dyn.computes_lastOut host .asr m1 apart c ?_ ?_
    · intro _
      exact (getLsbD_sshiftRight_pred _ (opSize_pos dyn.rexw)).trans (if_pos inside)
    · intro single
      have one : c - 1 = 0 := by omega
      rw [one]
  have narrow : opSize false ≤ opSize dyn.rexw := by cases dyn.rexw <;> decide
  rw [operand, keeps.flags] at carries
  rw [code]
  refine dyn.ends_of_parts host apart keeps narrow (dyn.closed_lastOut host .asr c) rfl (Straight.closed rfl) carries
    ?_ ?_
  · intro m2 regs
    have operand2 : m2.get dyn.rexw s1 = d := get_of_regs dyn.rexw (regs s1 apart.usable1.not_flags apart.not_mem)
    rw [← operand2]
    exact dyn.results_set m2 apart.usable1 [s3, s4] ((m2.get dyn.rexw s1).sshiftRight c)
  · intro m3 _ flags
    have overflow : m3.flags.OF = m.flags.OF := by
      rw [flags, carryFlags]
      split <;> rfl
    rw [← overflow, List.append_nil]
    exact overflow_kept host dyn m3 apart

/-! ### Double shifts by a constant -/

theorem masked_count {c : Nat} (lt : c < opSize dyn.rexw) : c &&& (if dyn.rexw then 0x3f else 0x1f) = c := by
  cases rexw : dyn.rexw with
  | false =>
    rw [rexw] at lt
    exact (Nat.and_two_pow_sub_one_eq_mod c 5).trans (Nat.mod_eq_of_lt lt)
  | true =>
    rw [rexw] at lt
    exact (Nat.and_two_pow_sub_one_eq_mod c 6).trans (Nat.mod_eq_of_lt lt)

/-- The two parts of a double shift put together. -/
theorem results_double (m : Cpu) (apart : Apart s1 s3 s4) (ne23 : s2 ≠ s3) (kind kind' : Shift) (c c' : Nat) :
    dyn.Results s1 [s3, s4] (kind.eval (m.get dyn.rexw s1) c ||| kind'.eval (m.get dyn.rexw s2) c') m
      (exec host [.shift kind dyn.rexw s3 s1 c, .alu .ORR false dyn.rexw s1 s3 (.shifted s2 kind' c')] m) := by
  let x := kind.eval (m.get dyn.rexw s1) c
  have part : (m.set s3 x).get dyn.rexw s3 = x := get_set_same m apart.usable3 dyn.rexw x
  have fill : (m.set s3 x).get dyn.rexw s2 = m.get dyn.rexw s2 := get_set_of_ne m x ne23 dyn.rexw
  have code : exec host [.shift kind dyn.rexw s3 s1 c, .alu .ORR false dyn.rexw s1 s3 (.shifted s2 kind' c')] m =
      (m.set s3 x).set s1 ((m.set s3 x).get dyn.rexw s3 ||| kind'.eval ((m.set s3 x).get dyn.rexw s2) c') := rfl
  rw [code, part, fill]
  exact dyn.results_set_set m apart x _

/-- The code of `OF` in `emit_shld32c`. -/
def overflowExtracted (s1 s3 : Reg) (c : Nat) : List Inst :=
  if c = 1 then
    [.UBFX dyn.rexw s3 s1 dyn.sign 1, EOR_REG dyn.rexw s3 s3 xFlags, BFI false xFlags s3 F_OF]
  else [BFC false xFlags F_OF]

theorem closed_overflowExtracted (c : Nat) : Closed host (dyn.IFX X_OF (dyn.overflowExtracted s1 s3 c)) := by
  refine dyn.closed_IFX (Straight.closed ?_)
  rw [overflowExtracted]
  split <;> rfl

theorem overflows_extracted (m : Cpu) (apart : Apart s1 s3 s4) (c : Nat) :
    dyn.ComputesSignAndOverflow host s1 s3 s4 (if c = 1 then (m.get dyn.rexw s1).msb ^^ m.flags.CF else false) m
      (dyn.setSF s1 s4 ++ dyn.IFX X_OF (dyn.overflowExtracted s1 s3 c)) := by
  rw [overflowExtracted]
  split
  case isTrue => exact overflow_extracted host dyn m apart
  case isFalse => exact overflow_cleared host dyn m apart

theorem ends_shld32c (m : Cpu) (apart : Apart s1 s3 s4) (usable2 : Usable s2) (ne23 : s2 ≠ s3) (ne24 : s2 ≠ s4) {c : Nat}
    (nonzero : c ≠ 0) (lt : c < opSize dyn.rexw) :
    let d := m.get dyn.rexw s1
    let v := (d <<< c) ||| (m.get dyn.rexw s2 >>> (dyn.size - c))
    let f := dyn.carryFlags (X_CF ||| X_OF) m.flags (d.getLsbD (dyn.size - c))
    dyn.Ends s1 v (dyn.finishFlags f v (v == 0) (if c = 1 then v.msb ^^ f.CF else false))
      (exec host (dyn.pendOpc s1 c s3 s4 (.d_shl (opWidth dyn.rexw))) m)
      (exec host (dyn.emit_shld32c host s1 s2 c s3 s4) m) := by
  intro d v f
  let N : DeferedFlags := .d_shl (opWidth dyn.rexw)
  let m1 := exec host (dyn.pendOpc s1 c s3 s4 N) m
  have keeps : Keeps [s3, s4] m m1 := dyn.keeps_pendOpc m N c apart.usable3 apart.usable4
  have operand : m1.get dyn.rexw s1 = d :=
    get_of_regs dyn.rexw (keeps.regs s1 apart.usable1.not_flags apart.not_mem)
  have code : exec host (dyn.emit_shld32c host s1 s2 c s3 s4) m =
      exec host (dyn.IFX (X_CF ||| X_OF) [LSR dyn.rexw s3 s1 (dyn.size - c), BFI dyn.rexw xFlags s3 F_CF] ++
        ([.shift .lsl dyn.rexw s3 s1 c, .alu .ORR false dyn.rexw s1 s3 (.shifted s2 .lsr (dyn.size - c))] ++
          (dyn.pendRes s1 ++ (dyn.setZF dyn.rexw s1 s4 ++ (dyn.setSF s1 s4 ++
            (dyn.IFX X_OF (dyn.overflowExtracted s1 s3 c) ++ dyn.setPF host s1 s3 s4)))))) m1 := by
    rw [emit_shld32c, dyn.masked_count lt, if_neg nonzero, exec_append host m (dyn.straight_pendOpc N c)]
    simp only [List.append_assoc]
    rfl
  have carries := dyn.computes_topOut host m1 apart c
  rw [operand, keeps.flags] at carries
  rw [code]
  refine dyn.ends_of_whole_parts host apart keeps (dyn.closed_IFX (Straight.closed rfl)) rfl
    (dyn.closed_overflowExtracted host c) carries ?_ ?_
  · intro m2 regs
    have operand2 : m2.get dyn.rexw s1 = d := get_of_regs dyn.rexw (regs s1 apart.usable1.not_flags apart.not_mem)
    have fill2 : m2.get dyn.rexw s2 = m.get dyn.rexw s2 :=
      get_of_regs dyn.rexw (regs s2 usable2.not_flags (by simpa using And.intro ne23 ne24))
    have results := dyn.results_double host m2 apart ne23 .lsl .lsr c (dyn.size - c)
    rw [operand2, fill2] at results
    exact results
  · intro m3 value flags
    rw [← value, ← flags]
    exact dyn.overflows_extracted host m3 apart c

theorem ends_shrd32c (m : Cpu) (apart : Apart s1 s3 s4) (usable2 : Usable s2) (ne23 : s2 ≠ s3) (ne24 : s2 ≠ s4) {c : Nat}
    (nonzero : c ≠ 0) (lt : c < opSize dyn.rexw) :
    let d := m.get dyn.rexw s1
    let v := (d >>> c) ||| (m.get dyn.rexw s2 <<< (dyn.size - c))
    dyn.Ends s1 v
      (dyn.finishFlags (dyn.carryFlags X_CF m.flags (d.getLsbD (c - 1))) v (v == 0)
        (if c = 1 then XOR2 (v >>> (dyn.sign - 1)) else m.flags.OF))
      (exec host (dyn.pendOpc s1 c s3 s4 (.d_shl (opWidth dyn.rexw))) m)
      (exec host (dyn.emit_shrd32c host s1 s2 c s3 s4) m) := by
  intro d v
  let N : DeferedFlags := .d_shl (opWidth dyn.rexw)
  let m1 := exec host (dyn.pendOpc s1 c s3 s4 N) m
  have keeps : Keeps [s3, s4] m m1 := dyn.keeps_pendOpc m N c apart.usable3 apart.usable4
  have operand : m1.get dyn.rexw s1 = d :=
    get_of_regs dyn.rexw (keeps.regs s1 apart.usable1.not_flags apart.not_mem)
  have code : exec host (dyn.emit_shrd32c host s1 s2 c s3 s4) m =
      exec host (dyn.lastOut .lsr s1 c s3 ++
        ([.shift .lsr dyn.rexw s3 s1 c, .alu .ORR false dyn.rexw s1 s3 (.shifted s2 .lsl (dyn.size - c))] ++
          (dyn.pendRes s1 ++ (dyn.setZF dyn.rexw s1 s4 ++ (dyn.setSF s1 s4 ++
            (dyn.IFX X_OF (dyn.overflowRight s1 s4 c) ++ dyn.setPF host s1 s3 s4)))))) m1 := by
    rw [emit_shrd32c, dyn.masked_count lt, if_neg nonzero, exec_append host m (dyn.straight_pendOpc N c)]
    simp only [List.append_assoc]
    rfl
  have carries := dyn.computes_lastOut_lsr host m1 apart nonzero
  rw [operand, keeps.flags] at carries
  rw [code]
  refine dyn.ends_of_whole_parts host apart keeps (dyn.closed_lastOut host .lsr c) rfl
    (dyn.closed_overflowRight host c) carries ?_ ?_
  · intro m2 regs
    have operand2 : m2.get dyn.rexw s1 = d := get_of_regs dyn.rexw (regs s1 apart.usable1.not_flags apart.not_mem)
    have fill2 : m2.get dyn.rexw s2 = m.get dyn.rexw s2 :=
      get_of_regs dyn.rexw (regs s2 usable2.not_flags (by simpa using And.intro ne23 ne24))
    have results := dyn.results_double host m2 apart ne23 .lsr .lsl c (dyn.size - c)
    rw [operand2, fill2] at results
    exact results
  · intro m3 value flags
    have overflow : m3.flags.OF = m.flags.OF := by
      rw [flags, carryFlags]
      split <;> rfl
    rw [← value, ← overflow]
    exact dyn.overflows_right host m3 apart c

/-! ### Shifts by a count in a register -/

/-- The test of the count in `emit_shl32`. -/
def guardLeft (s1 s2 : Reg) : List Inst :=
  dyn.IFX (BitVec.ofNat 8 F_OF)
    ([CMPS_U12 dyn.rexw s2 0] ++
      dyn.IFX (BitVec.ofNat 8 F_OF) [.Bcond .cNE 8, BFC true xFlags F_OF] ++
      dyn.IFX X_PEND [.Bcond .cNE 8, STRxw_U12 dyn.rexw s1 .res] ++
      [.B_NEXT .cEQ])

/-- The test of the count in `emit_shr32`. -/
def guardRight (s1 s2 : Reg) : List Inst :=
  dyn.IFX X_ALL
    ([CMPS_U12 dyn.rexw s2 0] ++
      dyn.IFX X_PEND [.Bcond .cNE 12, STRxw_U12 dyn.rexw s1 .res] ++
      [.B_NEXT .cEQ])

theorem low_zero (sf : Bool) : low (opSize sf) 0 = 0 := setWidth_zero (opSize sf) 64

theorem exec_Bcond_over_one (m : Cpu) (cond : Cond) (i : Inst) (rest : List Inst) :
    exec host (.Bcond cond 8 :: i :: rest) m = if m.nzcv.holds cond then exec host rest m else exec host (i :: rest) m := by
  show run host (if m.nzcv.holds cond then 1 else 0) (i :: rest) m = _
  split <;> rfl

theorem exec_Bcond_over_two (m : Cpu) (cond : Cond) (i j : Inst) (rest : List Inst) :
    exec host (.Bcond cond 12 :: i :: j :: rest) m =
      if m.nzcv.holds cond then exec host rest m else exec host (i :: j :: rest) m := by
  show run host (if m.nzcv.holds cond then 2 else 0) (i :: j :: rest) m = _
  split <;> rfl

theorem exec_B_NEXT (m : Cpu) (cond : Cond) (rest : List Inst) :
    exec host (.B_NEXT cond :: rest) m = if m.nzcv.holds cond then m else exec host rest m := rfl

theorem exec_BFC (m : Cpu) (rest : List Inst) :
    exec host (BFC true xFlags F_OF :: rest) m = exec host rest ((BFC true xFlags F_OF).effect host m) := rfl

theorem nzcv_BFC (m : Cpu) : ((BFC true xFlags F_OF).effect host m).nzcv = m.nzcv :=
  putFlag_nzcv m true (m.get true xZR) F_OF

theorem exec_STR (m : Cpu) (field : EmuField) (rest : List Inst) :
    exec host (STRxw_U12 dyn.rexw s1 field :: rest) m =
      exec host rest ((STRxw_U12 dyn.rexw s1 field).effect host m) := rfl

theorem nzcv_STR (m : Cpu) (field : EmuField) : ((STRxw_U12 dyn.rexw s1 field).effect host m).nzcv = m.nzcv := rfl

/-- A count of 0 clears `OF` and leaves, if the test is made. -/
theorem exec_guardLeft (m : Cpu) (rest : List Inst) :
    exec host (dyn.guardLeft s1 s2 ++ rest) m =
      if dyn.needs (BitVec.ofNat 8 F_OF) then
        if m.get dyn.rexw s2 = 0 then exec host ([BFC true xFlags F_OF] ++ dyn.pendRes s1) (compared m dyn.rexw s2 0)
        else exec host rest (compared m dyn.rexw s2 0)
      else exec host rest m := by
  have zero : (compared m dyn.rexw s2 0).nzcv.Z = decide (m.get dyn.rexw s2 = 0) := by
    rw [compared_Z, low_zero]
    rfl
  simp only [guardLeft, pendRes, IFX]
  cases dyn.needs (BitVec.ofNat 8 F_OF) with
  | false => rfl
  | true =>
    rw [if_pos rfl, if_pos rfl, if_pos rfl, List.append_assoc, List.append_assoc, List.append_assoc,
      List.singleton_append, exec_CMPS]
    generalize compared m dyn.rexw s2 0 = mc at zero
    by_cases null : m.get dyn.rexw s2 = 0 <;> cases dyn.needs X_PEND <;>
      simp only [null, if_true, if_false, decide_true, decide_false, List.cons_append, List.nil_append,
        exec_Bcond_over_one, exec_B_NEXT, exec_BFC, exec_STR, exec_nil, nzcv_BFC, nzcv_STR, Nzcv.holds, zero,
        Bool.not_true, Bool.not_false, Bool.false_eq_true]

/-- A count of 0 leaves, if a flag is asked for. -/
theorem exec_guardRight (m : Cpu) (rest : List Inst) :
    exec host (dyn.guardRight s1 s2 ++ rest) m =
      if dyn.needs X_ALL then
        if m.get dyn.rexw s2 = 0 then exec host (dyn.pendRes s1) (compared m dyn.rexw s2 0)
        else exec host rest (compared m dyn.rexw s2 0)
      else exec host rest m := by
  have zero : (compared m dyn.rexw s2 0).nzcv.Z = decide (m.get dyn.rexw s2 = 0) := by
    rw [compared_Z, low_zero]
    rfl
  simp only [guardRight, pendRes, IFX]
  cases dyn.needs X_ALL with
  | false => rfl
  | true =>
    rw [if_pos rfl, if_pos rfl, List.append_assoc, List.append_assoc, List.singleton_append, exec_CMPS]
    generalize compared m dyn.rexw s2 0 = mc at zero
    by_cases null : m.get dyn.rexw s2 = 0 <;> cases dyn.needs X_PEND <;>
      simp only [null, if_true, if_false, decide_true, decide_false, List.cons_append, List.nil_append,
        exec_Bcond_over_two, exec_B_NEXT, exec_STR, exec_nil, nzcv_STR, Nzcv.holds, zero,
        Bool.not_true, Bool.not_false, Bool.false_eq_true]

theorem keeps_compared {m m1 : Cpu} {scratch : List Reg} (keeps : Keeps scratch m m1) (q : Reg) (imm : BitVec 64) :
    Keeps scratch m (compared m1 dyn.rexw q imm) := ⟨keeps.flags, keeps.regs⟩

/-- The carry of a left shift by a count in a register. -/
def carryLeft (s1 s2 s4 : Reg) : List Inst :=
  dyn.IFX (X_CF ||| X_OF)
    [.MOV s4 (BitVec.ofNat 64 dyn.size), SUB_REG dyn.rexw s4 s4 s2, LSR_REG dyn.rexw s4 s1 s4, BFI false xFlags s4 F_CF]

theorem toNat_of_count (m : Cpu) (usable : Usable s2) {cnt : Nat} (count : (m.regs s2).toNat = cnt)
    (lt : cnt < opSize dyn.rexw) : (m.get dyn.rexw s2).toNat = cnt := by
  have small : cnt < 2 ^ opSize dyn.rexw := lt_trans lt Nat.lt_two_pow_self
  rw [m.get_of_ne s2 _ usable.not_zero, low, toNat_setWidth, count, Nat.mod_eq_of_lt small]

theorem value_SUB {n : Nat} (c : Bool) (x y : BitVec n) : (AluOp.SUB.eval c x y).1 = x - y := CarryChain.addc_not x y

theorem computes_carryLeft (m : Cpu) (apart : Apart s1 s3 s4) (usable2 : Usable s2) (ne24 : s2 ≠ s4) {cnt : Nat}
    (count : (m.regs s2).toNat = cnt) (lt : cnt < opSize dyn.rexw) :
    Computes [s4]
      (dyn.carryFlags (X_CF ||| X_OF) m.flags
        ((m.get dyn.rexw s1).getLsbD ((opSize dyn.rexw - cnt) % opSize dyn.rexw))) m
      (exec host (dyn.carryLeft s1 s2 s4) m) := by
  refine dyn.computes_IFX m ?_
  intro _
  let w := opSize dyn.rexw
  let m1 := m.set s4 (BitVec.ofNat 64 dyn.size)
  let back : BitVec (opSize dyn.rexw) := BitVec.ofNat _ w - m.get dyn.rexw s2
  let m2 := m1.set s4 back
  let v := m.get dyn.rexw s1 >>> (back.toNat % w)
  let m3 := m2.set s4 v
  have size : m1.get dyn.rexw s4 = BitVec.ofNat _ w := by
    rw [get_set m _ apart.usable4, size_eq, setWidth_eq]
    exact low_ofNat dyn.rexw w
  have e2 : (SUB_REG dyn.rexw s4 s4 s2).effect host m1 = m2 := by
    have value := value_SUB m1.nzcv.C (m1.get dyn.rexw s4) (m1.get dyn.rexw s2)
    rw [size, get_set_of_ne m _ ne24] at value
    show m1.set s4 (AluOp.SUB.eval m1.nzcv.C (m1.get dyn.rexw s4) (m1.get dyn.rexw s2)).1 = m2
    rw [size, get_set_of_ne m _ ne24, value]
  have e3 : (LSR_REG dyn.rexw s4 s1 s4).effect host m2 = m3 := by
    have operand : m2.get dyn.rexw s1 = m.get dyn.rexw s1 := by
      rw [get_set_of_ne m1 _ apart.ne14, get_set_of_ne m _ apart.ne14]
    show m2.set s4 (m2.get dyn.rexw s1 >>> ((m2.get dyn.rexw s4).toNat % opSize dyn.rexw)) = m3
    rw [operand, get_set_same m1 apart.usable4 dyn.rexw]
  have code : exec host [.MOV s4 (BitVec.ofNat 64 dyn.size), SUB_REG dyn.rexw s4 s4 s2, LSR_REG dyn.rexw s4 s1 s4,
      BFI false xFlags s4 F_CF] m = exec host [BFI false xFlags s4 F_CF] m3 := by
    rw [exec_cons _ _ _ rfl, exec_cons _ _ _ rfl, exec_cons _ _ _ rfl]
    show exec host _ ((LSR_REG dyn.rexw s4 s1 s4).effect host ((SUB_REG dyn.rexw s4 s4 s2).effect host m1)) = _
    rw [e2, e3]
  have amount : back.toNat % w = (w - cnt) % w := by
    have big : w < 2 ^ w := Nat.lt_two_pow_self
    have le : cnt ≤ w := lt.le
    have regroup : 2 ^ w - cnt + w = 2 ^ w + (w - cnt) := by omega
    have small : w - cnt < 2 ^ w := by omega
    rw [BitVec.toNat_sub, dyn.toNat_of_count m usable2 count lt, BitVec.toNat_ofNat, Nat.mod_eq_of_lt big, regroup,
      Nat.add_mod_left, Nat.mod_eq_of_lt small]
  have bit : (m3.get false s4).getLsbD 0 = (m.get dyn.rexw s1).getLsbD ((w - cnt) % w) := by
    rw [getLsbD_get_set m2 v apart.usable4 false (opSize_pos false), ← amount, getLsbD_ushiftRight, Nat.add_zero]
  have first : Computes [s4] m.flags m m1 := computes_set m apart.usable4 List.mem_cons_self _
  have second : Computes [s4] m1.flags m1 m2 := computes_set m1 apart.usable4 List.mem_cons_self back
  have made := (first.trans second).trans (computes_set m2 apart.usable4 List.mem_cons_self v)
  rw [second.flags, first.flags] at made
  have put : Computes [s4] _ m3 _ := computes_BFI_CF host m3 false bit
  rw [made.flags] at put
  rw [code]
  exact made.trans put

/-- The code of `OF` in `emit_shl32`. -/
def overflowLeftTested (s1 s2 s4 : Reg) : List Inst :=
  [CMPS_U12 dyn.rexw s2 1] ++ dyn.signBit s1 s4 ++
    [EOR_REG dyn.rexw s4 s4 xFlags, .CSELw s4 s4 xZR .cEQ, BFI false xFlags s4 F_OF]

/-- The code of `emit_shl32` after the test of the count. -/
def afterGuardLeft (s1 s2 s3 s4 : Reg) : List Inst :=
  dyn.carryLeft s1 s2 s4 ++ ([LSL_REG dyn.rexw s1 s1 s2] ++ (dyn.pendRes s1 ++ (dyn.setZF dyn.rexw s1 s4 ++
    (dyn.setSF s1 s4 ++ (dyn.IFX X_OF (dyn.overflowLeftTested s1 s2 s4) ++ dyn.setPF host s1 s3 s4)))))

theorem closed_overflowLeftTested : Closed host (dyn.IFX X_OF (dyn.overflowLeftTested s1 s2 s4)) := by
  refine dyn.closed_IFX ?_
  exact Closed.append (Closed.append (Straight.closed rfl) (Straight.closed dyn.straight_signBit)) (Straight.closed rfl)

theorem ofNat_beq_one (sf : Bool) {x : BitVec (opSize sf)} {cnt : Nat} (count : x.toNat = cnt) :
    (x == 1) = decide (cnt = 1) := by
  have one : (1 : BitVec (opSize sf)).toNat = 1 := by cases sf <;> rfl
  rw [Bool.eq_iff_iff, beq_iff_eq, decide_eq_true_eq, ← BitVec.toNat_inj, count, one]

theorem ends_afterGuardLeft (m mc : Cpu) (apart : Apart s1 s3 s4) (usable2 : Usable s2) (ne12 : s1 ≠ s2) (ne24 : s2 ≠ s4)
    {cnt : Nat} (count : (m.regs s2).toNat = cnt) (lt : cnt < opSize dyn.rexw) (keeps : Keeps [s4] m mc) :
    let d := m.get dyn.rexw s1
    let f := dyn.carryFlags (X_CF ||| X_OF) m.flags (d.getLsbD ((opSize dyn.rexw - cnt) % opSize dyn.rexw))
    dyn.Ends s1 (d <<< cnt)
      (dyn.finishFlags f (d <<< cnt) (d <<< cnt == 0) (if cnt = 1 then (d <<< cnt).msb ^^ f.CF else false))
      mc (exec host (dyn.afterGuardLeft host s1 s2 s3 s4) mc) := by
  intro d f
  have out1 : s1 ∉ [s4] := by simpa using apart.ne14
  have out2 : s2 ∉ [s4] := by simpa using ne24
  have keeps' : Keeps [s3, s4] m mc := ⟨keeps.flags, fun r ne out => keeps.regs r ne (by simp_all)⟩
  have operand : mc.get dyn.rexw s1 = d := get_of_regs dyn.rexw (keeps.regs s1 apart.usable1.not_flags out1)
  have counted : (mc.regs s2).toNat = cnt := by rw [keeps.regs s2 usable2.not_flags out2, count]
  have carries := dyn.computes_carryLeft host mc apart usable2 ne24 counted lt
  rw [operand, keeps.flags] at carries
  have counted2 : ((exec host (dyn.carryLeft s1 s2 s4) mc).regs s2).toNat = cnt := by
    rw [carries.regs s2 usable2.not_flags out2, counted]
  refine dyn.ends_of_whole_parts host apart keeps' (dyn.closed_IFX (Straight.closed rfl)) rfl
    (dyn.closed_overflowLeftTested host) (carries.mono (by simp)) ?_ ?_
  · intro m2 regs
    have operand2 : m2.get dyn.rexw s1 = d := get_of_regs dyn.rexw (regs s1 apart.usable1.not_flags apart.not_mem)
    have code : exec host [LSL_REG dyn.rexw s1 s1 s2] m2 =
        m2.set s1 (m2.get dyn.rexw s1 <<< ((m2.get dyn.rexw s2).toNat % opSize dyn.rexw)) := rfl
    rw [code, operand2, dyn.toNat_of_count m2 usable2 counted2 lt, Nat.mod_eq_of_lt lt]
    exact dyn.results_set m2 apart.usable1 [s3, s4] (d <<< cnt)
  · intro m3 value flags
    have regs3 : m3.regs s2 = (exec host (dyn.carryLeft s1 s2 s4) mc).regs s2 := Cpu.set_regs_of_ne _ _ ne12.symm
    have counted3 : (m3.regs s2).toNat = cnt := by rw [regs3, counted2]
    have overflow := overflow_msb_xor_carry_of_one host dyn m3 apart usable2 ne24
    rw [ofNat_beq_one dyn.rexw (dyn.toNat_of_count m3 usable2 counted3 lt), value, flags] at overflow
    simp only [decide_eq_true_eq] at overflow
    exact overflow

/-- The carry of a right shift by a count in a register. -/
def carryRight (s1 s2 s3 : Reg) : List Inst :=
  dyn.IFX X_CF [SUB_U12 dyn.rexw s3 s2 1, LSR_REG dyn.rexw s3 s1 s3, BFI false xFlags s3 0]

/-- The count after it: replaced if it is in the scratch register. -/
def countAfterCarry (s2 s3 : Reg) (d x : BitVec (opSize dyn.rexw)) : BitVec (opSize dyn.rexw) :=
  if s2 = s3 ∧ dyn.needs X_CF = true then d >>> (x.toNat - 1) else x

theorem computes_carryRight (m : Cpu) (apart : Apart s1 s3 s4) (usable2 : Usable s2) {cnt : Nat}
    (count : (m.regs s2).toNat = cnt) (lt : cnt < opSize dyn.rexw) (pos : dyn.needs X_CF = true → cnt ≠ 0) :
    Computes [s3] (dyn.carryFlags X_CF m.flags ((m.get dyn.rexw s1).getLsbD (cnt - 1))) m
        (exec host (dyn.carryRight s1 s2 s3) m) ∧
      (exec host (dyn.carryRight s1 s2 s3) m).get dyn.rexw s2 =
        dyn.countAfterCarry s2 s3 (m.get dyn.rexw s1) (m.get dyn.rexw s2) := by
  let w := opSize dyn.rexw
  let x := m.get dyn.rexw s2
  have counted : x.toNat = cnt := dyn.toNat_of_count m usable2 count lt
  by_cases needed : dyn.needs X_CF = true
  · have nonzero := pos needed
    let m1 := m.set s3 (x - 1)
    let v := m.get dyn.rexw s1 >>> (cnt - 1)
    let m2 := m1.set s3 v
    have e1 : (SUB_U12 dyn.rexw s3 s2 1).effect host m = m1 := by
      show m.set s3 (AluOp.SUB.eval m.nzcv.C x (low (opSize dyn.rexw) 1)).1 = m1
      rw [value_SUB, low_one]
    have amount : (x - 1).toNat % w = cnt - 1 := by
      have one : (1 : BitVec (opSize dyn.rexw)).toNat = 1 := by cases dyn.rexw <;> rfl
      have le : (1 : BitVec (opSize dyn.rexw)) ≤ x := by
        rw [BitVec.le_def, one, counted]
        omega
      have inside : cnt - 1 < w := by omega
      rw [BitVec.toNat_sub_of_le le, counted, one, Nat.mod_eq_of_lt inside]
    have e2 : (LSR_REG dyn.rexw s3 s1 s3).effect host m1 = m2 := by
      show m1.set s3 (m1.get dyn.rexw s1 >>> ((m1.get dyn.rexw s3).toNat % opSize dyn.rexw)) = m2
      rw [get_set_of_ne m _ apart.ne13, get_set_same m apart.usable3 dyn.rexw, amount]
    have code : exec host (dyn.carryRight s1 s2 s3) m = exec host [BFI false xFlags s3 F_CF] m2 := by
      rw [carryRight, IFX, if_pos needed, exec_cons _ _ _ rfl, exec_cons _ _ _ rfl, e1, e2]
      rfl
    have first : Computes [s3] m.flags m m1 := computes_set m apart.usable3 List.mem_cons_self _
    have made := first.trans (computes_set m1 apart.usable3 List.mem_cons_self v)
    rw [first.flags] at made
    have bit : (m2.get false s3).getLsbD 0 = (m.get dyn.rexw s1).getLsbD (cnt - 1) := by
      rw [getLsbD_get_set m1 v apart.usable3 false (opSize_pos false), getLsbD_ushiftRight, Nat.add_zero]
    have put : Computes [s3] _ m2 _ := computes_BFI_CF host m2 false bit
    rw [made.flags] at put
    rw [code, carryFlags, if_pos needed, countAfterCarry]
    refine ⟨made.trans put, ?_⟩
    have kept : (exec host [BFI false xFlags s3 F_CF] m2).get dyn.rexw s2 = m2.get dyn.rexw s2 :=
      get_of_regs dyn.rexw (putFlag_regs m2 false _ F_CF usable2.not_flags)
    rw [kept]
    by_cases same : s2 = s3
    · have read : m2.get dyn.rexw s3 = v := get_set_same m1 apart.usable3 dyn.rexw v
      rw [if_pos ⟨same, needed⟩, counted, same, read]
    · rw [if_neg fun both => same both.1, get_set_of_ne m1 _ same, get_set_of_ne m _ same]
  · have code : exec host (dyn.carryRight s1 s2 s3) m = m := by
      rw [carryRight, exec_IFX, if_neg needed]
    rw [code, carryFlags, if_neg needed, countAfterCarry, if_neg fun both => needed both.2]
    exact ⟨Computes.refl [s3] m, rfl⟩

/-- The code of `emit_shr32` after the test of the count. -/
def afterGuardRight (s1 s2 s3 s4 : Reg) : List Inst :=
  dyn.carryRight s1 s2 s3 ++ ([LSR_REG dyn.rexw s1 s1 s2] ++ (dyn.pendRes s1 ++ (dyn.setZF dyn.rexw s1 s4 ++
    (dyn.setSF s1 s4 ++ (dyn.IFX X_OF ([CMPS_U12 dyn.rexw s2 1, .Bcond .cNE (4 + 3 * 4)] ++ dyn.topTwoDiffer s1 s4) ++
      dyn.setPF host s1 s3 s4)))))

theorem straight_topTwoDiffer : Straight (dyn.topTwoDiffer s1 s4) := rfl

theorem closed_overflowRightTested :
    Closed host (dyn.IFX X_OF ([CMPS_U12 dyn.rexw s2 1, .Bcond .cNE (4 + 3 * 4)] ++ dyn.topTwoDiffer s1 s4)) := by
  refine dyn.closed_IFX ?_
  intro m rest
  show run host (if (compared m dyn.rexw s2 1).nzcv.holds .cNE then 3 else 0) (dyn.topTwoDiffer s1 s4 ++ rest) _ =
    exec host rest (run host (if (compared m dyn.rexw s2 1).nzcv.holds .cNE then 3 else 0) (dyn.topTwoDiffer s1 s4) _)
  split
  case isTrue => rfl
  case isFalse => exact exec_append host _ dyn.straight_topTwoDiffer rest

theorem ends_afterGuardRight (m mc : Cpu) (apart : Apart s1 s3 s4) (usable2 : Usable s2) (ne12 : s1 ≠ s2) (ne24 : s2 ≠ s4)
    {cnt : Nat} (count : (m.regs s2).toNat = cnt) (lt : cnt < opSize dyn.rexw) (pos : dyn.needs X_CF = true → cnt ≠ 0)
    (keeps : Keeps [s4] m mc) :
    let d := m.get dyn.rexw s1
    let x := dyn.countAfterCarry s2 s3 d (m.get dyn.rexw s2)
    let v := d >>> (x.toNat % opSize dyn.rexw)
    dyn.Ends s1 v
      (dyn.finishFlags (dyn.carryFlags X_CF m.flags (d.getLsbD (cnt - 1))) v (v == 0)
        (if x == 1 then XOR2 (v >>> (dyn.sign - 1)) else m.flags.OF))
      mc (exec host (dyn.afterGuardRight host s1 s2 s3 s4) mc) := by
  intro d x v
  have out1 : s1 ∉ [s4] := by simpa using apart.ne14
  have out2 : s2 ∉ [s4] := by simpa using ne24
  have keeps' : Keeps [s3, s4] m mc := ⟨keeps.flags, fun r ne out => keeps.regs r ne (by simp_all)⟩
  have operand : mc.get dyn.rexw s1 = d := get_of_regs dyn.rexw (keeps.regs s1 apart.usable1.not_flags out1)
  have regs2 := keeps.regs s2 usable2.not_flags out2
  have counted : (mc.regs s2).toNat = cnt := by rw [regs2, count]
  obtain ⟨carries, after⟩ := dyn.computes_carryRight host mc apart usable2 counted lt pos
  rw [operand, keeps.flags] at carries
  rw [operand, get_of_regs dyn.rexw regs2] at after
  refine dyn.ends_of_whole_parts host apart keeps' (dyn.closed_IFX (Straight.closed rfl)) rfl
    (dyn.closed_overflowRightTested host) (carries.mono (by simp)) ?_ ?_
  · intro m2 regs
    have operand2 : m2.get dyn.rexw s1 = d := get_of_regs dyn.rexw (regs s1 apart.usable1.not_flags apart.not_mem)
    have code : exec host [LSR_REG dyn.rexw s1 s1 s2] m2 =
        m2.set s1 (m2.get dyn.rexw s1 >>> ((m2.get dyn.rexw s2).toNat % opSize dyn.rexw)) := rfl
    rw [code, operand2, after]
    exact dyn.results_set m2 apart.usable1 [s3, s4] v
  · intro m3 value flags
    have after3 : m3.get dyn.rexw s2 = x := (get_set_of_ne _ _ ne12.symm dyn.rexw).trans after
    have kept : m3.flags.OF = m.flags.OF := by
      rw [flags, carryFlags]
      split <;> rfl
    have overflow := overflow_topTwoDiffer_of_one host dyn m3 apart usable2 ne24
    rw [after3, value, kept] at overflow
    exact overflow

/-! ### Rotates by a constant -/

/-- The flags after a rotate. -/
def rotateFlags (f : X64Flags) (c : Nat) (cf off : Bool) : X64Flags :=
  { f with
    CF := if dyn.needs X_CF then cf else f.CF
    OF := if dyn.needs X_OF ∧ c = 1 then off else f.OF }

/-- A rotate computes its result, stores it, and then makes the carry and the overflow of the result. -/
theorem ends_of_rotate (apart : Apart s1 s3 s4) {m m1 : Cpu} (keeps : Keeps [s3, s4] m m1) {c : Nat}
    {result carry overflow : List Inst} {v : BitVec (opSize dyn.rexw)} {cf off : Bool} (straight : Straight result)
    (straight_carry : Straight carry)
    (results : dyn.Results s1 [s3, s4] v m1 (exec host result m1))
    (carries : ∀ m2, m2.get dyn.rexw s1 = v → Computes [s3] { m2.flags with CF := cf } m2 (exec host carry m2))
    (overflows : c = 1 → ∀ m3, m3.get dyn.rexw s1 = v → m3.get false s4 = (exec host result m1).get false s4 →
      Computes [s3] { m3.flags with OF := off } m3 (exec host overflow m3)) :
    dyn.Ends s1 v (dyn.rotateFlags m.flags c cf off) m1
      (exec host (result ++ (dyn.pendRes s1 ++ (dyn.IFX X_CF carry ++ dyn.IFX X_OF (if c = 1 then overflow else [])))) m1) := by
  let m2 := exec host result m1
  let m3 := exec host (dyn.pendRes s1) m2
  let m4 := exec host (dyn.IFX X_CF carry) m3
  have stored : dyn.StoresRes s1 m2 m3 := dyn.storesRes_pendRes m2
  have value3 : m3.get dyn.rexw s1 = v := (get_of_regs dyn.rexw (congrFun stored.regs s1)).trans results.value
  have carry3 : Computes [s3] _ m3 m4 := dyn.computes_IFX m3 fun _ => carries m3 value3
  have out3 : s1 ∉ [s3] := by simpa using apart.ne13
  have value4 : m4.get dyn.rexw s1 = v :=
    (carry3.get apart.usable1.not_flags out3 dyn.rexw).trans value3
  have scratch4 : m4.get false s4 = m2.get false s4 :=
    (carry3.get apart.usable4.not_flags (by simpa using apart.ne34.symm) false).trans
      (get_of_regs false (congrFun stored.regs s4))
  have overflow4 : Computes [s3] (if dyn.needs X_OF ∧ c = 1 then { m4.flags with OF := off } else m4.flags) m4
      (exec host (dyn.IFX X_OF (if c = 1 then overflow else [])) m4) := by
    rw [exec_IFX]
    by_cases needed : dyn.needs X_OF = true
    · rw [if_pos needed]
      by_cases one : c = 1
      · rw [if_pos one, if_pos ⟨needed, one⟩]
        exact overflows one m4 value4 scratch4
      · rw [if_neg one, if_neg fun both => one both.2]
        exact Computes.refl _ m4
    · rw [if_neg needed, if_neg fun both => needed both.1]
      exact Computes.refl _ m4
  have flags3 : m3.flags = m.flags :=
    (congrArg (fun regs : Reg → BitVec 64 => flagsOf (regs xFlags)) stored.regs).trans
      (results.flags.trans keeps.flags)
  rw [exec_append host m1 straight, dyn.closed_pendRes, dyn.closed_IFX (Straight.closed straight_carry)]
  have fields := overflow4.fields.trans carry3.fields
  refine ⟨?_, ?_, fun field ne => ?_, fun needed => ?_⟩
  · exact (overflow4.get apart.usable1.not_flags out3 dyn.rexw).trans value4
  · rw [overflow4.flags, carry3.flags, flags3, rotateFlags]
    cases dyn.needs X_CF <;> cases dyn.needs X_OF <;> by_cases one : c = 1 <;> simp [one]
  · rw [fields, stored.same field ne, results.fields]
  · refine (congrArg (fun fields : EmuField → BitVec 64 => low (opSize dyn.rexw) (fields .res)) fields).trans ?_
    exact (stored.res needed).trans results.value

theorem straight_pendCount (N : DeferedFlags) (c : Nat) : Straight (dyn.pendCount c s3 s4 N) :=
  dyn.straight_pendOrNone rfl

theorem ends_rol32c (m : Cpu) (apart : Apart s1 s3 s4) {c : Nat} (nonzero : c ≠ 0) :
    let v := (m.get dyn.rexw s1).rotateRight (dyn.size - c)
    dyn.Ends s1 v (dyn.rotateFlags m.flags c (v.getLsbD 0) ((v + (v >>> dyn.sign)).getLsbD 0))
      (exec host (dyn.pendCount c s3 s4 (.d_rol .w32)) m) (exec host (dyn.emit_rol32c s1 c s3 s4) m) := by
  intro v
  let m1 := exec host (dyn.pendCount c s3 s4 (.d_rol .w32)) m
  have keeps : Keeps [s3, s4] m m1 := dyn.keeps_pendCount m (.d_rol .w32) c apart.usable3 apart.usable4
  have operand : m1.get dyn.rexw s1 = m.get dyn.rexw s1 :=
    get_of_regs dyn.rexw (keeps.regs s1 apart.usable1.not_flags apart.not_mem)
  have code : exec host (dyn.emit_rol32c s1 c s3 s4) m =
      exec host ([ROR dyn.rexw s1 s1 (dyn.size - c)] ++ (dyn.pendRes s1 ++ (dyn.IFX X_CF [BFI false xFlags s1 F_CF] ++
        dyn.IFX X_OF (if c = 1 then [ADD_REG_LSR dyn.rexw s3 s1 s1 dyn.sign, BFI false xFlags s3 F_OF] else [])))) m1 := by
    rw [emit_rol32c, if_neg nonzero, exec_append host m (dyn.straight_pendCount _ c)]
    simp only [List.append_assoc]
    rfl
  have results : dyn.Results s1 [s3, s4] v m1 (exec host [ROR dyn.rexw s1 s1 (dyn.size - c)] m1) := by
    have made : exec host [ROR dyn.rexw s1 s1 (dyn.size - c)] m1 =
        m1.set s1 ((m1.get dyn.rexw s1).rotateRight (dyn.size - c)) := rfl
    rw [made, operand]
    exact dyn.results_set m1 apart.usable1 [s3, s4] v
  rw [code]
  refine dyn.ends_of_rotate host apart keeps rfl rfl results ?_ ?_
  · intro m2 value
    refine computes_BFI_CF host m2 false ?_
    rw [bit_get_eq m2 apart.usable1.not_zero, ← bit_get_eq m2 apart.usable1.not_zero dyn.rexw, value]
  · intro _ m3 value _
    let sum := (AluOp.ADD.eval m3.nzcv.C (m3.get dyn.rexw s1) (m3.get dyn.rexw s1 >>> dyn.sign)).1
    have total : sum = v + (v >>> dyn.sign) := by
      rw [← value]
      exact CarryChain.addc_false _ _
    refine computes_putFlag m3 false sum F_OF apart.usable3 ?_
    intro y bit
    rw [putFlag_OF, set_flags _ _ apart.usable3, bit, total]

/-- The rotate's overflow is made in one scratch register and taken from the other. -/
theorem ends_ror32c (m : Cpu) (apart : Apart s1 s3 s4) {c : Nat} (nonzero : c ≠ 0) :
    let v := (m.get dyn.rexw s1).rotateRight c
    let m1 := exec host (dyn.pendCount c s3 s4 (.d_ror (opWidth dyn.rexw))) m
    dyn.Ends s1 v (dyn.rotateFlags m.flags c v.msb ((m1.get false s4).getLsbD 0)) m1
      (exec host (dyn.emit_ror32c s1 c s3 s4) m) := by
  intro v m1
  let N : DeferedFlags := .d_ror (opWidth dyn.rexw)
  have keeps : Keeps [s3, s4] m m1 := dyn.keeps_pendCount m N c apart.usable3 apart.usable4
  have operand : m1.get dyn.rexw s1 = m.get dyn.rexw s1 :=
    get_of_regs dyn.rexw (keeps.regs s1 apart.usable1.not_flags apart.not_mem)
  have code : exec host (dyn.emit_ror32c s1 c s3 s4) m =
      exec host ([ROR dyn.rexw s1 s1 c] ++ (dyn.pendRes s1 ++
        (dyn.IFX X_CF [LSR dyn.rexw s3 s1 dyn.sign, BFI false xFlags s3 F_CF] ++
          dyn.IFX X_OF (if c = 1 then [LSR dyn.rexw s3 s1 (dyn.sign - 1), EOR_REG_LSR dyn.rexw s3 s3 s3 1,
            BFI false xFlags s4 F_OF] else [])))) m1 := by
    rw [emit_ror32c, if_neg nonzero, exec_append host m (dyn.straight_pendCount _ c)]
    simp only [List.append_assoc]
    rfl
  have made : exec host [ROR dyn.rexw s1 s1 c] m1 = m1.set s1 v := by
    rw [show v = (m1.get dyn.rexw s1).rotateRight c by rw [operand]]
    rfl
  have results : dyn.Results s1 [s3, s4] v m1 (exec host [ROR dyn.rexw s1 s1 c] m1) := by
    rw [made]
    exact dyn.results_set m1 apart.usable1 [s3, s4] v
  rw [code]
  refine dyn.ends_of_rotate host apart keeps rfl rfl results ?_ ?_
  · intro m2 value
    refine computes_putFlag m2 false (m2.get dyn.rexw s1 >>> dyn.sign) F_CF apart.usable3 ?_
    intro y bit
    rw [putFlag_CF, set_flags _ _ apart.usable3, bit, bit_sign, value]
  · intro _ m3 _ scratch
    let x := m3.get dyn.rexw s1 >>> (dyn.sign - 1)
    let m4 := m3.set s3 x
    let y := m4.get dyn.rexw s3 ^^^ (m4.get dyn.rexw s3 >>> 1)
    let m5 := m4.set s3 y
    have first : Computes [s3] m3.flags m3 m4 := computes_set m3 apart.usable3 List.mem_cons_self x
    have second : Computes [s3] m4.flags m4 m5 := computes_set m4 apart.usable3 List.mem_cons_self y
    have stray : (m5.get false s4).getLsbD 0 = (m1.get false s4).getLsbD 0 := by
      rw [get_set_of_ne m4 y apart.ne34.symm, get_set_of_ne m3 x apart.ne34.symm, scratch, made,
        get_set_of_ne m1 v apart.ne14.symm]
    refine ⟨?_, fun r ne out => ?_, ?_⟩
    · have put := putFlag_OF m5 false (m5.get false s4)
      rw [stray, second.flags, first.flags] at put
      exact put
    · have ne3 : r ≠ s3 := List.ne_of_not_mem_cons out
      exact (putFlag_regs m5 false (m5.get false s4) F_OF ne).trans
        ((second.regs r ne out).trans (first.regs r ne out))
    · exact (putFlag_fields m5 false (m5.get false s4) F_OF).trans (second.fields.trans first.fields)

end Emit

end Box64.Arm64
