import Box64.Dynarec.LogicAgreement

/-!
# Test emitters against the interpreter

`emit_test8` and `emit_test16` agree with the interpreter. `emit_test32` does but for the parity, for which it takes the low
five bits of the first operand instead of those of the result.
-/

namespace Box64.Arm64

open BitVec Emu Dynarec

namespace Emit

variable (host : Host) (dyn : Emit) {s s1 s2 s3 s4 : Reg} {w : Width}

/-- The pending operation is stored, also where no flag is needed. -/
def pendOr0 : Bool := dyn.needs X_PEND || dyn.need_flags == 0

theorem exec_PENDOR0 (code other : List Inst) (m : Cpu) :
    exec host (dyn.IFX_PENDOR0 code other) m = if dyn.pendOr0 then exec host code m else exec host other m := by
  unfold IFX_PENDOR0 pendOr0
  split <;> rfl

theorem straight_PENDOR0 {code other : List Inst} (left : Straight code) (right : Straight other) :
    Straight (dyn.IFX_PENDOR0 code other) := by
  unfold IFX_PENDOR0
  split
  · exact left
  · exact right

theorem straight_SET_DFNONE : Straight (dyn.SET_DFNONE s4) := by
  unfold SET_DFNONE
  split <;> rfl

/-- The operation is stored, or that there is none. -/
structure TestHead (s3 s4 : Reg) (N : DeferedFlags) (m m' : Cpu) : Prop where
  keeps : Keeps [s3, s4] m m'
  df : dyn.pendOr0 = true → m'.emu.df = N
  none : dyn.pendOr0 = false → (dyn.dfnone = true → m.emu.df = .d_none) → m'.emu.df = .d_none

theorem testHead (m : Cpu) (N : DeferedFlags) (u3 : Usable s3) (u4 : Usable s4) :
    dyn.TestHead s3 s4 N m (exec host (dyn.IFX_PENDOR0 (SET_DF s3 N) (dyn.SET_DFNONE s4)) m) := by
  rw [exec_PENDOR0]
  split
  case isTrue is => exact ⟨keeps_SET_DF m N (by simp) u3, fun _ => SET_DF_df m N u3, fun no => absurd is (by simp [no])⟩
  case isFalse no =>
    refine ⟨dyn.keeps_SET_DFNONE m (by simp) u4, fun is => absurd is no, fun _ known => ?_⟩
    unfold SET_DFNONE
    split
    case isTrue is => exact known is
    case isFalse => exact SET_DF_df m .d_none u4

/-- The result of the test is made in `s`. -/
structure TestStep (s : Reg) (w : Width) (v : BitVec w.bits) (m m' : Cpu) : Prop where
  value : low w.bits (m'.regs s) = v
  zero : m'.nzcv.Z = (v == 0)
  flags : m'.flags = m.flags
  regs : ∀ r, r ≠ s → m'.regs r = m.regs r
  df : m'.emu.df = m.emu.df
  res : dyn.pendOr0 = true → low w.bits m'.emu.res = v

theorem testStep (m : Cpu) {sf : Bool} (le : w.bits ≤ opSize sf) (u : Usable s) (real1 : s1 ≠ xZR) (real2 : s2 ≠ xZR)
    (small : (AluOp.AND.bits (m.get sf s1) (m.get sf s2)).toNat < 2 ^ w.bits) :
    dyn.TestStep s w (low w.bits (m.regs s1) &&& low w.bits (m.regs s2)) m
      (exec host ([ANDS_REG sf s s1 s2] ++ dyn.IFX_PENDOR0 [.STR w s .res] []) m) := by
  let x := m.get sf s1 &&& m.get sf s2
  let m1 : Cpu := { m.set s x with nzcv := (logic x).2 }
  have code : exec host ([ANDS_REG sf s s1 s2] ++ dyn.IFX_PENDOR0 [.STR w s .res] []) m =
      exec host (dyn.IFX_PENDOR0 [.STR w s .res] []) m1 := rfl
  have cut : x.setWidth w.bits = low w.bits (m.regs s1) &&& low w.bits (m.regs s2) := by
    show (m.get sf s1 &&& m.get sf s2).setWidth w.bits = _
    rw [setWidth_and, setWidth_get real1 le, setWidth_get real2 le]
  have value : low w.bits (m1.regs s) = low w.bits (m.regs s1) &&& low w.bits (m.regs s2) := by
    show low w.bits ((m.set s x).regs s) = _
    rw [m.set_regs s x u.not_zero, low, setWidth_setWidth_of_le _ w.bits_le, cut]
  have zero : m1.nzcv.Z = (low w.bits (m.regs s1) &&& low w.bits (m.regs s2) == 0) := by
    rw [← cut]
    exact beq_zero_low small
  have flags : m1.flags = m.flags := set_flags m x u
  have regs : ∀ r, r ≠ s → m1.regs r = m.regs r := fun r ne => m.set_regs_of_ne x ne
  have fields : m1.fields = m.fields := m.set_fields s x
  rw [code, exec_PENDOR0]
  generalize m1 = m1 at value zero flags regs fields ⊢
  have df : m1.emu.df = m.emu.df := by
    show dfOfCode (low 32 (m1.fields .df)) = dfOfCode (low 32 (m.fields .df))
    rw [fields]
  split
  case isTrue =>
    refine ⟨value, zero, flags, regs, ?_, fun _ => ?_⟩
    · rw [← df]
      exact congrArg (fun cell => dfOfCode (low 32 cell)) (store_of_ne m1 w .res .df (by decide) _)
    · rw [← value, ← get_true m1 u.not_zero]
      exact low_store m1 w .res _
  case isFalse no => exact ⟨value, zero, flags, regs, df, fun is => absurd is no⟩

/-- `ZF` from the condition flags. -/
theorem computes_zero (m : Cpu) (u4 : Usable s4) :
    Computes [s4] (if dyn.needs X_ZF then { m.flags with ZF := m.nzcv.Z } else m.flags) m (exec host (dyn.zeroFlag [] s4) m) := by
  refine dyn.computes_IFX m ?_
  intro _
  refine computes_putFlag m false (ofBool m.nzcv.Z) F_ZF u4 ?_
  intro y bit
  rw [putFlag_ZF, set_flags _ _ u4, bit, bit_ofBool]

/-- The parity code of `emit_test32`. -/
def testParity (s1 s3 s4 : Reg) : List Inst :=
  [ AND_mask false s3 s3 0xE0,
    LSR false s3 s3 5,
    .MOV s4 host.GetParityTab,
    .LDRw_REG_LSL2 s4 s4 s3,
    AND_mask false s3 s1 0x1F,
    LSR_REG false s4 s4 s3,
    MVN_REG true s4 s4,
    BFI false xFlags s4 F_PF ]

/-- The high three bits of `x` and the low five of `y`. -/
def mixed (x y : BitVec 8) : BitVec 8 := (x &&& 0xE0) ||| (y &&& 0x1F)

theorem mixed_parts (x y : BitVec 32) : let z := (x &&& 0xE0) ||| (y &&& 0x1F)
    z &&& 0xE0 = x &&& 0xE0 ∧ z &&& 0x1F = y &&& 0x1F ∧ z.setWidth 8 = mixed (x.setWidth 8) (y.setWidth 8) := by
  intro z
  have high : z &&& 0xE0 = x &&& 0xE0 := by
    show ((x &&& 0xE0) ||| (y &&& 0x1F)) &&& 0xE0 = _
    rw [BitVec.and_or_distrib_right, BitVec.and_assoc, BitVec.and_assoc, show (0xE0 : BitVec 32) &&& 0xE0 = 0xE0 by decide,
      show (0x1F : BitVec 32) &&& 0xE0 = 0#32 by decide, BitVec.and_zero, BitVec.or_zero]
  have low5 : z &&& 0x1F = y &&& 0x1F := by
    show ((x &&& 0xE0) ||| (y &&& 0x1F)) &&& 0x1F = _
    rw [BitVec.and_or_distrib_right, BitVec.and_assoc, BitVec.and_assoc, show (0xE0 : BitVec 32) &&& 0x1F = 0#32 by decide,
      show (0x1F : BitVec 32) &&& 0x1F = 0x1F by decide, BitVec.and_zero, BitVec.zero_or]
  refine ⟨high, low5, ?_⟩
  unfold mixed
  rw [setWidth_or, setWidth_and, setWidth_and]
  rfl

theorem computes_testParity (m : Cpu) (u3 : Usable s3) (u4 : Usable s4) (real1 : s1 ≠ xZR) (ne13 : s1 ≠ s3) (ne14 : s1 ≠ s4)
    (ne34 : s3 ≠ s4) :
    Computes [s3, s4] { m.flags with PF := PARITY (mixed (low 8 (m.regs s3)) (low 8 (m.regs s1))) } m
      (exec host (testParity host s1 s3 s4) m) := by
  let x : BitVec 32 := m.get false s3
  let y : BitVec 32 := m.get false s1
  let z : BitVec 32 := (x &&& 0xE0) ||| (y &&& 0x1F)
  obtain ⟨eq_high, eq_low, byte⟩ := mixed_parts x y
  let masked : BitVec 32 := x &&& 0xE0
  let high : BitVec 32 := (x &&& 0xE0) >>> 5
  let low5 : BitVec 32 := y &&& 0x1F
  let word := host.word (host.GetParityTab + (high.setWidth 64 <<< 2))
  let shifted := word >>> (low5.toNat % 32)
  let m1 := m.set s3 masked
  let m2 := m1.set s3 high
  let m3 := m2.set s4 host.GetParityTab
  let m4 := m3.set s4 word
  let m5 := m4.set s3 low5
  let m6 := m5.set s4 shifted
  let last : BitVec 64 := 0#64 ||| ~~~ shifted.setWidth 64
  let m7 := m6.set s4 last
  have same : ∀ (m : Cpu) {r : Reg} (_ : Usable r) (v : BitVec 32), (m.set r v).get false r = v :=
    fun m r u v => get_set_same m u false v
  have e1 : (AND_mask false s3 s3 0xE0).effect host m = m1 := rfl
  have e2 : (LSR false s3 s3 5).effect host m1 = m2 :=
    congrArg (fun v : BitVec 32 => m1.set s3 (v >>> 5)) (same m u3 masked)
  have e3 : (Inst.MOV s4 host.GetParityTab).effect host m2 = m3 := rfl
  have e4 : (Inst.LDRw_REG_LSL2 s4 s4 s3).effect host m3 = m4 := by
    have base : m3.get true s4 = host.GetParityTab := get_set_same m2 u4 true host.GetParityTab
    have index : m3.get true s3 = high.setWidth 64 :=
      (get_set_of_ne m2 _ ne34 true).trans ((get_set m1 high u3 true).trans (setWidth_eq _))
    show m3.set s4 (host.word (m3.get true s4 + (m3.get true s3 <<< 2))) = m4
    rw [base, index]
    rfl
  have e5 : (AND_mask false s3 s1 0x1F).effect host m4 = m5 := by
    have operand : m4.get false s1 = y := by
      rw [get_set_of_ne m3 _ ne14, get_set_of_ne m2 _ ne14, get_set_of_ne m1 _ ne13, get_set_of_ne m _ ne13]
    exact congrArg (fun v : BitVec 32 => m4.set (n := 32) s3 (v &&& 0x1F)) operand
  have e6 : (LSR_REG false s4 s4 s3).effect host m5 = m6 := by
    have row : m5.get false s4 = word := (get_set_of_ne m4 _ ne34.symm false).trans (same m3 u4 word)
    have column : m5.get false s3 = low5 := same m4 u3 low5
    show m5.set s4 (m5.get false s4 >>> ((m5.get false s3).toNat % 32)) = m6
    rw [row, column]
    rfl
  have e7 : (MVN_REG true s4 s4).effect host m6 = m7 :=
    congrArg (fun v : BitVec 64 => m6.set s4 (0#64 ||| ~~~v)) ((get_set m5 shifted u4 true).trans (setWidth_eq _))
  have e8 : (BFI false xFlags s4 F_PF).effect host m7 = m7.putFlag false (m7.get false s4) F_PF := rfl
  have code : exec host (testParity host s1 s3 s4) m = m7.putFlag false (m7.get false s4) F_PF := by
    rw [testParity, exec_cons _ _ _ rfl, e1, exec_cons _ _ _ rfl, e2, exec_cons _ _ _ rfl, e3, exec_cons _ _ _ rfl, e4,
      exec_cons _ _ _ rfl, e5, exec_cons _ _ _ rfl, e6, exec_cons _ _ _ rfl, e7, exec_cons _ _ _ rfl, e8, exec_nil]
  have flags : m7.flags = m.flags := by
    rw [set_flags _ _ u4, set_flags _ _ u4, set_flags _ _ u3, set_flags _ _ u4, set_flags _ _ u4, set_flags _ _ u3,
      set_flags _ _ u3]
  have bit : (m7.get false s4).getLsbD 0 = PARITY (mixed (low 8 (m.regs s3)) (low 8 (m.regs s1))) := by
    have result : x.setWidth 8 = low 8 (m.regs s3) := setWidth_get u3.not_zero (by decide)
    have operand : y.setWidth 8 = low 8 (m.regs s1) := setWidth_get real1 (by decide)
    have parity : (parityWord host z).getLsbD 0 = PARITY (z.setWidth 8) := bit_parityWord z
    rw [byte, result, operand, parityWord, eq_high, eq_low] at parity
    rw [← parity, getLsbD_get_set m6 last u4 false (opSize_pos false)]
    show (0#64 ||| ~~~ shifted.setWidth 64).getLsbD 0 = (0#32 ||| ~~~ shifted).getLsbD 0
    simp
  rw [code]
  refine ⟨?_, ?_, ?_⟩
  · rw [putFlag_PF, flags, bit]
  · intro r ne out
    obtain ⟨ne3, ne4⟩ : r ≠ s3 ∧ r ≠ s4 := by simpa using out
    rw [putFlag_regs _ _ _ _ ne, m6.set_regs_of_ne _ ne4, m5.set_regs_of_ne _ ne4, m4.set_regs_of_ne _ ne3,
      m3.set_regs_of_ne _ ne4, m2.set_regs_of_ne _ ne4, m1.set_regs_of_ne _ ne3, m.set_regs_of_ne _ ne3]
  · rw [putFlag_fields, Cpu.set_fields, Cpu.set_fields, Cpu.set_fields, Cpu.set_fields, Cpu.set_fields, Cpu.set_fields,
      Cpu.set_fields]

/-! ### The whole code -/

/-- `CF` and `OF` are cleared if they are asked for. -/
structure ClearsCO (scratch : List Reg) (m m' : Cpu) : Prop where
  CF : dyn.needs X_CF = true → m'.flags.CF = false
  OF : dyn.needs X_OF = true → m'.flags.OF = false
  regs : ∀ r, r ≠ xFlags → r ∉ scratch → m'.regs r = m.regs r
  fields : m'.fields = m.fields

theorem clearsCO_clearCAO (m : Cpu) (u3 : Usable s3) : dyn.ClearsCO [s3, s4] m (exec host (dyn.clearCAO s3) m) := by
  have computes := dyn.computes_clearCAO host m u3
  have three : dyn.needs (X_CF ||| X_AF ||| X_OF) = (dyn.needs X_CF || dyn.needs X_AF || dyn.needs X_OF) := by
    rw [dyn.needs_or, dyn.needs_or]
  refine ⟨?_, ?_, fun r ne out => computes.regs r ne (by simp_all), computes.fields⟩
  · intro needed
    rw [computes.flags, clearedCAO, three, needed]
    rfl
  · intro needed
    rw [computes.flags, clearedCAO, three, needed, Bool.or_true]
    rfl

theorem clearsCO_BFC (scratch : List Reg) (m : Cpu) : dyn.ClearsCO scratch m
    (exec host (dyn.IFX X_OF [BFC false xFlags F_OF] ++ dyn.IFX X_CF [BFC false xFlags F_CF]) m) := by
  have closed : Closed host (dyn.IFX X_OF [BFC false xFlags F_OF]) := dyn.closed_IFX (Straight.closed rfl)
  have clear : ∀ (m : Cpu) (lsb : Nat), exec host [BFC false xFlags lsb] m = m.putFlag false 0 lsb := fun m lsb => by
    show m.set xFlags (bitfieldInsert (m.get false xFlags) (m.get false xZR) lsb 1) = m.putFlag false 0 lsb
    rw [Cpu.get_xZR]
    rfl
  rw [closed, exec_IFX, exec_IFX, clear, clear]
  cases off : dyn.needs X_OF <;> cases carry : dyn.needs X_CF <;>
    refine ⟨by simp [carry], by simp [off], fun r ne _ => ?_, by simp⟩ <;> simp [putFlag_regs _ _ _ _ ne]

/-- What the code of a test leaves, with its parity. -/
structure TestLeaves (w : Width) (scratch : List Reg) (N : DeferedFlags) (v : BitVec w.bits) (pf : Bool) (m m' : Cpu) :
    Prop where
  CF : dyn.needs X_CF = true → m'.flags.CF = false
  PF : dyn.needs X_PF = true → m'.flags.PF = pf
  ZF : dyn.needs X_ZF = true → m'.flags.ZF = (v == 0)
  SF : dyn.needs X_SF = true → m'.flags.SF = v.msb
  OF : dyn.needs X_OF = true → m'.flags.OF = false
  regs : ∀ r, r ≠ xFlags → r ∉ scratch → m'.regs r = m.regs r
  df : dyn.pendOr0 = true → m'.emu.df = N
  res : dyn.pendOr0 = true → low w.bits m'.emu.res = v
  none : dyn.pendOr0 = false → (dyn.dfnone = true → m.emu.df = .d_none) → m'.emu.df = .d_none

/-- The head, the cleared flags, the test in `s`, and then the flags of the result. -/
theorem testLeaves (m : Cpu) (N : DeferedFlags) (sf sl : Bool) (k : Nat) (clear parity : List Inst) (pf : BitVec 64 → Bool)
    (u : Usable s) (u3 : Usable s3) (u4 : Usable s4) (apart4 : s ≠ s4) (real1 : Usable s1) (real2 : Usable s2)
    (out1 : s1 ∉ [s3, s4]) (out2 : s2 ∉ [s3, s4]) (le : w.bits ≤ opSize sf) (last : k + 1 = w.bits) (le' : w.bits ≤ opSize sl)
    (closed : Closed host clear) (cleared : ∀ m, dyn.ClearsCO [s3, s4] m (exec host clear m))
    (small : (AluOp.AND.bits (m.get sf s1) (m.get sf s2)).toNat < 2 ^ w.bits)
    (computes : ∀ m', (s ≠ s1 → m'.regs s1 = m.regs s1) →
      Computes [s, s3, s4] (if dyn.needs X_PF then { m'.flags with PF := pf (m'.regs s) } else m'.flags) m' (exec host parity m'))
    (byte : ∀ x y : BitVec 64, low w.bits x = low w.bits y → pf x = pf y) :
    let v := low w.bits (m.regs s1) &&& low w.bits (m.regs s2)
    dyn.TestLeaves w [s, s3, s4] N v (pf (v.setWidth 64)) m
      (exec host (dyn.IFX_PENDOR0 (SET_DF s3 N) (dyn.SET_DFNONE s4) ++ (clear ++
        (([ANDS_REG sf s s1 s2] ++ dyn.IFX_PENDOR0 [.STR w s .res] []) ++ (dyn.zeroFlag [] s4 ++
          (dyn.IFX X_SF [LSR sl s4 s k, BFI false xFlags s4 F_SF] ++ parity))))) m) := by
  intro v
  have straight_head : Straight (dyn.IFX_PENDOR0 (SET_DF s3 N) (dyn.SET_DFNONE s4)) :=
    dyn.straight_PENDOR0 rfl dyn.straight_SET_DFNONE
  have straight_step : Straight ([ANDS_REG sf s s1 s2] ++ dyn.IFX_PENDOR0 [.STR w s .res] []) :=
    straight_append rfl (dyn.straight_PENDOR0 rfl rfl)
  have closed_zero : Closed host (dyn.zeroFlag [] s4) := dyn.closed_IFX (Straight.closed rfl)
  have closed_sign : Closed host (dyn.IFX X_SF [LSR sl s4 s k, BFI false xFlags s4 F_SF]) := dyn.closed_IFX (Straight.closed rfl)
  rw [exec_append host m straight_head]
  obtain ⟨keeps, df, none⟩ := dyn.testHead host m N u3 u4
  generalize exec host (dyn.IFX_PENDOR0 (SET_DF s3 N) (dyn.SET_DFNONE s4)) m = m1 at keeps df none ⊢
  rw [closed]
  have clears := cleared m1
  generalize exec host clear m1 = m2 at clears ⊢
  have kept : ∀ r, r ≠ xFlags → r ∉ [s3, s4] → m2.regs r = m.regs r := fun r ne out =>
    (clears.regs r ne out).trans (keeps.regs r ne out)
  have first := kept s1 real1.not_flags out1
  have second := kept s2 real2.not_flags out2
  rw [exec_append host m2 straight_step]
  have step := dyn.testStep host m2 le u real1.not_zero real2.not_zero
    (by rwa [Cpu.get, Cpu.get, first, second, ← Cpu.get, ← Cpu.get])
  rw [first, second] at step
  generalize exec host ([ANDS_REG sf s s1 s2] ++ dyn.IFX_PENDOR0 [.STR w s .res] []) m2 = m3 at step ⊢
  rw [closed_zero]
  have zero := dyn.computes_zero host m3 u4
  generalize exec host (dyn.zeroFlag [] s4) m3 = m4 at zero ⊢
  rw [closed_sign]
  have sign := dyn.computes_topBit host m4 u.not_zero u4 false last le'
  generalize exec host (dyn.IFX X_SF [LSR sl s4 s k, BFI false xFlags s4 F_SF]) m4 = m5 at sign ⊢
  have made4 : m4.regs s = m3.regs s := zero.regs s u.not_flags (by simpa using apart4)
  have made5 : m5.regs s = m3.regs s := (sign.regs s u.not_flags (by simpa using apart4)).trans made4
  have value : low w.bits (m5.regs s) = v := by rw [made5, step.value]
  have ne14 : s1 ∉ [s4] := fun mem => out1 (List.mem_cons_of_mem s3 mem)
  have whole := computes m5 fun ne => by
    rw [sign.regs s1 real1.not_flags ne14, zero.regs s1 real1.not_flags ne14, step.regs s1 ne.symm, first]
  have parity_eq : pf (m5.regs s) = pf (v.setWidth 64) := by
    refine byte _ _ (value.trans ?_)
    rw [low, setWidth_setWidth_of_le _ w.bits_le, setWidth_eq]
  rw [parity_eq, sign.flags, zero.flags, step.flags, made4, step.value, step.zero] at whole
  have fields : (exec host parity m5).fields = m3.fields := whole.fields.trans (sign.fields.trans zero.fields)
  have emu_df : (exec host parity m5).emu.df = m1.emu.df := by
    have here : (exec host parity m5).emu.df = m3.emu.df := congrArg (fun f : EmuField → BitVec 64 => dfOfCode (low 32 (f .df))) fields
    have there : m2.emu.df = m1.emu.df := congrArg (fun f : EmuField → BitVec 64 => dfOfCode (low 32 (f .df))) clears.fields
    rw [here, step.df, there]
  refine ⟨?_, ?_, ?_, ?_, ?_, ?_, fun is => emu_df.trans (df is), fun is => ?_, fun no known => emu_df.trans (none no known)⟩
  · intro needed
    have cf := clears.CF needed
    rw [whole.flags]
    cases dyn.needs X_PF <;> cases dyn.needs X_SF <;> cases dyn.needs X_ZF <;> exact cf
  · intro needed
    rw [whole.flags, needed]
    rfl
  · intro needed
    rw [whole.flags, needed]
    cases dyn.needs X_PF <;> cases dyn.needs X_SF <;> rfl
  · intro needed
    rw [whole.flags, needed]
    cases dyn.needs X_PF <;> cases dyn.needs X_ZF <;> rfl
  · intro needed
    have off := clears.OF needed
    rw [whole.flags]
    cases dyn.needs X_PF <;> cases dyn.needs X_SF <;> cases dyn.needs X_ZF <;> exact off
  · intro r ne out
    obtain ⟨ne_s, ne3, ne4⟩ : r ≠ s ∧ r ≠ s3 ∧ r ≠ s4 := by simpa using out
    rw [whole.regs r ne out, sign.regs r ne (by simpa using ne4), zero.regs r ne (by simpa using ne4), step.regs r ne_s,
      kept r ne (by simp [ne3, ne4])]
  · have here : (exec host parity m5).emu.res = m3.emu.res := congrFun fields .res
    rw [here, step.res is]

end Emit

/-! ### The emitters -/

inductive TestEmitter
  | test8
  | test16
  | test32
  deriving DecidableEq

/-- The registers a test is called with; `s5` only where there is one. -/
structure TestRegisters where
  s1 : Reg
  s2 : Reg
  s3 : Reg
  s4 : Reg
  s5 : Reg
  usable1 : Usable s1
  usable2 : Usable s2
  usable5 : Usable s5
  apart : Emit.Apart s5 s3 s4
  ne13 : s1 ≠ s3
  ne14 : s1 ≠ s4
  ne23 : s2 ≠ s3
  ne24 : s2 ≠ s4

namespace TestEmitter

variable (host : Host) (dyn : Emit)

def size (rexw : Bool) : TestEmitter → Width
  | test8 => .w8
  | test16 => .w16
  | test32 => opWidth rexw

def code (e : TestEmitter) (r : TestRegisters) : List Inst :=
  match e with
  | test8 => dyn.emit_test8 host r.s1 r.s2 r.s3 r.s4 r.s5
  | test16 => dyn.emit_test16 host r.s1 r.s2 r.s3 r.s4 r.s5
  | test32 => dyn.emit_test32 host r.s1 r.s2 r.s3 r.s4

variable (e : TestEmitter) (r : TestRegisters) (m : Cpu)

def result : BitVec (e.size dyn.rexw).bits := low _ (m.regs r.s1) &&& low _ (m.regs r.s2)

/-- The interpreter from the same state, its flags up to date. -/
def interpreted : X64Emu :=
  test (e.size dyn.rexw) { m.emu with df := .d_none } (low _ (m.regs r.s1)) (low _ (m.regs r.s2))

/-- One of the operands of a narrow test comes without bits above it. -/
def Narrow : Prop :=
  match e with
  | test8 => (m.get false r.s1).toNat < 2 ^ 8 ∨ (m.get false r.s2).toNat < 2 ^ 8
  | test16 => (m.get false r.s1).toNat < 2 ^ 16 ∨ (m.get false r.s2).toNat < 2 ^ 16
  | test32 => True

/-- The code agrees with the interpreter in all flags but `AF`, which the processor leaves open. -/
structure Agrees : Prop where
  direct : (only (fun A => dyn.needs A && A != X_AF) (e.interpreted dyn r m).eflags.toEager).Agrees
    (exec host (e.code host dyn r) m).flags
  pending : dyn.pendOr0 = true → (only (fun A => A != X_AF) (e.interpreted dyn r m).eflags.toEager).Agrees
    (updateFlags (exec host (e.code host dyn r) m).emu).eflags
  settled : dyn.pendOr0 = false → (dyn.dfnone = true → m.emu.df = .d_none) → (exec host (e.code host dyn r) m).emu.df = .d_none
  others : ∀ q, q ≠ xFlags → q ≠ r.s3 → q ≠ r.s4 → q ≠ r.s5 → (exec host (e.code host dyn r) m).regs q = m.regs q

/-- The parity the code computes. -/
def parity : Bool :=
  match e with
  | test32 => PARITY (Emit.mixed (low 8 ((test32.result dyn r m).setWidth 64)) (low 8 (m.regs r.s1)))
  | _ => PARITY (low 8 ((e.result dyn r m).setWidth 64))

/-- `emit_test8` and `emit_test16` share their code. -/
theorem leaves_testw (w : Width) (narrow : w.bits ≤ 32)
    (small : (m.get false r.s1).toNat < 2 ^ w.bits ∨ (m.get false r.s2).toNat < 2 ^ w.bits) :
    dyn.TestLeaves w [r.s5, r.s3, r.s4] (.d_tst w) (low w.bits (m.regs r.s1) &&& low w.bits (m.regs r.s2))
      (PARITY (low 8 ((low w.bits (m.regs r.s1) &&& low w.bits (m.regs r.s2)).setWidth 64))) m
      (exec host (dyn.emit_testw host w r.s1 r.s2 r.s3 r.s4 r.s5) m) := by
  have pos := w.bits_pos
  have closed_OF : Closed host (dyn.IFX X_OF [BFC false xFlags F_OF]) := dyn.closed_IFX (Straight.closed rfl)
  have closed_CF : Closed host (dyn.IFX X_CF [BFC false xFlags F_CF]) := dyn.closed_IFX (Straight.closed rfl)
  have leaves := dyn.testLeaves host m (.d_tst w) false false (w.bits - 1)
    (dyn.IFX X_OF [BFC false xFlags F_OF] ++ dyn.IFX X_CF [BFC false xFlags F_CF]) (dyn.setPF host r.s5 r.s3 r.s4)
    (fun x => PARITY (low 8 x)) r.usable5 r.apart.usable3 r.apart.usable4 r.apart.ne14 r.usable1 r.usable2
    (by simp [r.ne13, r.ne14]) (by simp [r.ne23, r.ne24]) narrow (by omega) narrow (closed_OF.append closed_CF)
    (dyn.clearsCO_BFC host _) (and_lt small) ?_ ?_
  · unfold Emit.emit_testw
    simpa only [List.append_assoc] using leaves
  · intro m' _
    exact (dyn.computes_setPF m' r.apart.usable3 r.apart.usable4 r.apart.usable1.not_zero r.apart.ne13 r.apart.ne14
      r.apart.ne34).mono (List.subset_cons_self _ _)
  · intro x y same
    have cut : ∀ x : BitVec 64, low 8 x = (low w.bits x).setWidth 8 := fun x => (setWidth_setWidth_of_le x w.le_bits).symm
    rw [cut, cut y, same]

theorem leaves_test32 :
    dyn.TestLeaves (opWidth dyn.rexw) [r.s3, r.s3, r.s4] (.d_tst (opWidth dyn.rexw)) (test32.result dyn r m)
      (test32.parity dyn r m) m (exec host (dyn.emit_test32 host r.s1 r.s2 r.s3 r.s4) m) := by
  have closed : Closed host (dyn.clearCAO r.s3) := dyn.closed_IFX (Straight.closed rfl)
  have leaves := dyn.testLeaves host m (.d_tst (opWidth dyn.rexw)) dyn.rexw dyn.rexw dyn.sign (dyn.clearCAO r.s3)
    (dyn.IFX X_PF (Emit.testParity host r.s1 r.s3 r.s4)) (fun x => PARITY (Emit.mixed (low 8 x) (low 8 (m.regs r.s1))))
    r.apart.usable3 r.apart.usable3 r.apart.usable4 r.apart.ne34 r.usable1 r.usable2 (by simp [r.ne13, r.ne14])
    (by simp [r.ne23, r.ne24]) le_rfl dyn.sign_last le_rfl closed
    (fun m => dyn.clearsCO_clearCAO host m r.apart.usable3) (AluOp.AND.bits _ _).isLt ?_ ?_
  · unfold Emit.emit_test32
    simp only [List.append_assoc] at leaves ⊢
    exact leaves
  · intro m' same
    rw [← same r.ne13.symm]
    exact dyn.computes_IFX m' fun _ => (Emit.computes_testParity host m' r.apart.usable3 r.apart.usable4 r.usable1.not_zero r.ne13
      r.ne14 r.apart.ne34).mono (List.subset_cons_self _ _)
  · intro x y same
    have cut : ∀ x : BitVec 64, low 8 x = (low (opWidth dyn.rexw).bits x).setWidth 8 := fun x =>
      (setWidth_setWidth_of_le x (opWidth dyn.rexw).le_bits).symm
    rw [cut, cut y, same]

theorem leaves (narrow : e.Narrow r m) :
    dyn.TestLeaves (e.size dyn.rexw) [r.s5, r.s3, r.s4] (.d_tst (e.size dyn.rexw)) (e.result dyn r m) (e.parity dyn r m) m
      (exec host (e.code host dyn r) m) := by
  cases e with
  | test8 => exact leaves_testw host dyn r m .w8 (by decide) narrow
  | test16 => exact leaves_testw host dyn r m .w16 (by decide) narrow
  | test32 =>
    obtain ⟨cf, pf, zf, sf, off, regs, df, res, none⟩ := leaves_test32 host dyn r m
    exact ⟨cf, pf, zf, sf, off, fun q ne out => regs q ne (by simp_all), df, res, none⟩

theorem parity_low (w : Width) (x y : BitVec 64) :
    (low w.bits x &&& low w.bits y).setWidth 8 = low 8 (x &&& y) ∧
      low 8 ((low w.bits x &&& low w.bits y).setWidth 64) = low 8 (x &&& y) := by
  have cut : (low w.bits x &&& low w.bits y).setWidth 8 = low 8 (x &&& y) := by
    rw [low, low, ← setWidth_and, setWidth_setWidth_of_le _ w.le_bits]
    rfl
  exact ⟨cut, (setWidth_setWidth_of_le _ (by decide)).trans cut⟩

/-- The flags asked for agree where the parity is that of the result. -/
theorem direct_iff {v : BitVec (e.size dyn.rexw).bits} {scratch : List Reg} {N : DeferedFlags} {pf : Bool} {m' : Cpu}
    (leaves : dyn.TestLeaves (e.size dyn.rexw) scratch N v pf m m') (f : X64Flags) :
    (only (fun A => dyn.needs A && A != X_AF) (setZSP { f with OF := false, CF := false } v).toEager).Agrees m'.flags ↔
      (dyn.needs X_PF = true → pf = PARITY (v.setWidth 8)) := by
  obtain ⟨cf, pf_eq, zf, sf, off, _, _, _, _⟩ := leaves
  constructor
  · rintro ⟨_, agrees, _, _, _, _⟩ needed
    rw [← pf_eq needed]
    simpa [only, X64Flags.toEager, setZSP, needed, show (X_PF != X_AF) = true by decide] using agrees
  · intro parity
    have different : (X_CF != X_AF) = true ∧ (X_PF != X_AF) = true ∧ (X_ZF != X_AF) = true ∧ (X_SF != X_AF) = true ∧
        (X_OF != X_AF) = true ∧ (X_AF != X_AF) = false := by decide
    obtain ⟨c, p, z, s, o, a⟩ := different
    constructor <;> unfold only X64Flags.toEager setZSP <;> dsimp only <;> simp only [c, p, z, s, o, a, Bool.and_true, Bool.and_false]
    · split
      · exact cf ‹_›
      · trivial
    · split
      · exact (pf_eq ‹_›).trans (parity ‹_›)
      · trivial
    · simp
    · split
      · exact zf ‹_›
      · trivial
    · split
      · exact sf ‹_›
      · trivial
    · split
      · exact off ‹_›
      · trivial

/-- The pending operation has the flags of the interpreter, but for `AF`. -/
theorem pending_agrees {w : Width} {v : BitVec w.bits} (emu : X64Emu) (df : emu.df = .d_tst w) (res : low w.bits emu.res = v)
    (f : X64Flags) :
    (only (fun A => A != X_AF) (setZSP { f with OF := false, CF := false } v).toEager).Agrees (updateFlags emu).eflags := by
  have flags : (updateFlags emu).eflags = setZSP { emu.eflags with OF := false, CF := false } v := by
    unfold updateFlags deferedFlags
    rw [df, ← res]
    rfl
  rw [flags]
  exact ⟨rfl, rfl, trivial, rfl, rfl, rfl⟩

/-- A test agrees with the interpreter, but for the parity of `emit_test32`, which is right where the low five bits of the
first operand make no difference. -/
theorem emitters_agree_iff (narrow : e.Narrow r m) : e.Agrees host dyn r m ↔
    (e = test32 → dyn.needs X_PF = true →
      PARITY (Emit.mixed (low 8 (m.regs r.s1 &&& m.regs r.s2)) (low 8 (m.regs r.s1))) =
        PARITY (low 8 (m.regs r.s1 &&& m.regs r.s2))) := by
  have left := leaves host dyn e r m narrow
  obtain ⟨low8, low64⟩ := parity_low (e.size dyn.rexw) (m.regs r.s1) (m.regs r.s2)
  have direct := direct_iff dyn e m left m.flags
  have right : PARITY ((e.result dyn r m).setWidth 8) = PARITY (low 8 (m.regs r.s1 &&& m.regs r.s2)) := congrArg PARITY low8
  rw [right] at direct
  have condition : (dyn.needs X_PF = true → e.parity dyn r m = PARITY (low 8 (m.regs r.s1 &&& m.regs r.s2))) ↔
      (e = test32 → dyn.needs X_PF = true →
        PARITY (Emit.mixed (low 8 (m.regs r.s1 &&& m.regs r.s2)) (low 8 (m.regs r.s1))) =
          PARITY (low 8 (m.regs r.s1 &&& m.regs r.s2))) := by
    cases e with
    | test8 => exact iff_of_true (fun _ => congrArg PARITY low64) (fun is => TestEmitter.noConfusion is)
    | test16 => exact iff_of_true (fun _ => congrArg PARITY low64) (fun is => TestEmitter.noConfusion is)
    | test32 =>
      have mixed : test32.parity dyn r m =
          PARITY (Emit.mixed (low 8 (m.regs r.s1 &&& m.regs r.s2)) (low 8 (m.regs r.s1))) :=
        congrArg (fun x => PARITY (Emit.mixed x (low 8 (m.regs r.s1)))) low64
      rw [mixed]
      exact ⟨fun parity _ => parity, fun parity => parity rfl⟩
  rw [← condition, ← direct]
  constructor
  · rintro ⟨asked, _, _, _⟩
    exact asked
  · intro asked
    refine ⟨asked, fun is => pending_agrees _ (left.df is) (left.res is) m.flags, left.none, ?_⟩
    intro q ne ne3 ne4 ne5
    exact left.regs q ne (by simp [ne3, ne4, ne5])

theorem usable_xRAX : Usable xRAX := ⟨by decide, by decide, by decide⟩
theorem usable_xRCX : Usable xRCX := ⟨by decide, by decide, by decide⟩

theorem apart_accumulator : Emit.Apart x4 x3 x5 :=
  ⟨⟨by decide, by decide, by decide⟩, ⟨by decide, by decide, by decide⟩, ⟨by decide, by decide, by decide⟩, by decide, by decide,
    by decide⟩

theorem accumulator_kept : (xRAX ≠ x3 ∧ xRAX ≠ x5) ∧ xRCX ≠ x3 ∧ xRCX ≠ x5 := by decide

/-- `emit_test32(dyn, ninst, rex, xRAX, xRCX, x3, x5)` -/
def accumulator : TestRegisters where
  s1 := xRAX
  s2 := xRCX
  s3 := x3
  s4 := x5
  s5 := x4
  usable1 := usable_xRAX
  usable2 := usable_xRCX
  usable5 := apart_accumulator.usable1
  apart := apart_accumulator
  ne13 := accumulator_kept.1.1
  ne14 := accumulator_kept.1.2
  ne23 := accumulator_kept.2.1
  ne24 := accumulator_kept.2.2

/-- `RAX` is 1, and everything else 0. -/
def oneAndZero : Cpu :=
  { regs := fun r => if r = xRAX then 1 else 0, nzcv := ⟨false, false, false, false⟩, fields := fun _ => 0 }

/-- The result of 1 and 0 is 0, which has even parity; the code finds that of 1. -/
theorem emitters_agree_iff_test32 : ¬ test32.Agrees tableHost ⟨X_PF, false, false⟩ accumulator oneAndZero := by
  intro agrees
  have parity := (emitters_agree_iff tableHost ⟨X_PF, false, false⟩ test32 accumulator oneAndZero trivial).mp agrees rfl (by decide)
  revert parity
  decide

end TestEmitter

end Box64.Arm64
