import Box64.Dynarec.ShiftAgreement

/-!
# Shifts by a count of 0

A count of 0 must change no flag. The code that stores the operands may clear `OF` all the same, and the pending
operation does not always know that a count of 0 changes nothing.
-/

namespace Box64.Arm64

open BitVec Emu Dynarec

namespace ShiftEmitter

variable (host : Host) (dyn : Emit)

section Zero

variable {dyn} {m m1 : Cpu} {s1 : Reg}

theorem ends_pendRes {scratch : List Reg} (keeps : Emit.Keeps scratch m m1) (usable : Usable s1) (out : s1 ∉ scratch) :
    dyn.Ends s1 (m.get dyn.rexw s1) m.flags m1 (exec host (dyn.pendRes s1) m1) := by
  have stored : dyn.StoresRes s1 m1 (exec host (dyn.pendRes s1) m1) := dyn.storesRes_pendRes m1
  have operand : m1.get dyn.rexw s1 = m.get dyn.rexw s1 := Emit.get_of_regs dyn.rexw (keeps.regs s1 usable.not_flags out)
  have flags : (exec host (dyn.pendRes s1) m1).flags = m1.flags :=
    congrArg (fun regs : Reg → BitVec 64 => flagsOf (regs xFlags)) stored.regs
  refine ⟨?_, flags.trans keeps.flags, stored.same, fun needed => (stored.res needed).trans operand⟩
  rw [← operand]
  exact Emit.get_of_regs dyn.rexw (congrFun stored.regs s1)

/-- `OF` cleared, and then the operand stored for the result. -/
theorem ends_clear {scratch : List Reg} (keeps : Emit.Keeps scratch m m1) (usable : Usable s1) (out : s1 ∉ scratch) :
    dyn.Ends s1 (m.get dyn.rexw s1) { m.flags with OF := false } m1
      (exec host ([BFC true xFlags F_OF] ++ dyn.pendRes s1) m1) := by
  let m2 := exec host [BFC true xFlags F_OF] m1
  have cleared : Computes [] { m1.flags with OF := false } m1 m2 := Emit.computes_BFC host m1 true
  have ends : dyn.Ends s1 (m2.get dyn.rexw s1) m2.flags m2 (exec host (dyn.pendRes s1) m2) :=
    ends_pendRes host (Emit.Keeps.refl [] m2) usable List.not_mem_nil
  have operand : m2.get dyn.rexw s1 = m.get dyn.rexw s1 :=
    (cleared.get usable.not_flags List.not_mem_nil dyn.rexw).trans
      (Emit.get_of_regs dyn.rexw (keeps.regs s1 usable.not_flags out))
  have straight : Straight [BFC true xFlags F_OF] := rfl
  rw [exec_append host m1 straight]
  rw [operand, cleared.flags, keeps.flags] at ends
  exact ⟨ends.result, ends.flags, fun field ne => (ends.same field ne).trans (congrFun cleared.fields field), ends.res⟩

theorem ends_keepLeft {scratch : List Reg} (keeps : Emit.Keeps scratch m m1) (usable : Usable s1) (out : s1 ∉ scratch) :
    dyn.Ends s1 (m.get dyn.rexw s1) (if testsOF dyn then { m.flags with OF := false } else m.flags) m1
      (exec host (dyn.keepLeft s1) m1) := by
  rw [Emit.keepLeft, Emit.IFX, ← testsOF]
  by_cases tests : testsOF dyn = true
  · rw [if_pos tests, if_pos tests]
    exact ends_clear host keeps usable out
  · rw [if_neg tests, if_neg tests]
    exact ends_pendRes host keeps usable out

theorem interpreted_zero {e : ShiftEmitter} (r : e.Registers) : (e.interpreted dyn r m 0).1 = m.get dyn.rexw r.s1 := by
  have large := opWidth_large dyn.rexw
  have pos := (opWidth dyn.rexw).bits_pos
  have count := toNat_maskedCount large pos
  cases e with
  | shl32 | shl32c => exact (shl_result _ _ large pos).trans (shiftLeft_zero _)
  | shr32 | shr32c => exact (shr_result _ _ large pos).trans (ushiftRight_zero _)
  | sar32c => exact (sar_result _ _ large pos).trans sshiftRight_zero
  | rol32c => simp only [interpreted, primop, rol, count, if_true, operand]
  | ror32c => simp only [interpreted, primop, ror, count, if_true, operand]
  | shrd32c => simp only [interpreted, primop, shrd, count, Nat.zero_mod, if_pos pos, Nat.lt_irrefl, reduceIte, operand]
  | shld32c => simp only [interpreted, primop, shld, count, Nat.zero_mod, if_pos pos, Nat.lt_irrefl, reduceIte, operand]

theorem agrees_zero_iff {e : ShiftEmitter} {r : e.Registers} {f : X64Flags}
    (ends : dyn.Ends r.s1 (m.get dyn.rexw r.s1) f m1 (exec host (e.code host dyn r 0) m)) :
    e.Agrees host dyn r m 0 ↔
      (only (fun A => dyn.needs A || !e.writes A) m.flags.toEager).Agrees f ∧
        (dyn.needs X_PEND = true → deferedFlags (exec host (e.code host dyn r 0) m).emu = m.flags) := by
  have expected : e.expected dyn r m 0 = m.flags.toEager := if_pos rfl
  rw [agrees_iff, interpreted_zero, expected, ends.result, ends.flags]
  simp only [true_and]
  refine and_congr_right fun _ => forall_congr' fun _ => ?_
  exact toEager_agrees_iff _ _

theorem agrees_zero_of_kept {e : ShiftEmitter} {r : e.Registers}
    (ends : dyn.Ends r.s1 (m.get dyn.rexw r.s1) m.flags m1 (exec host (e.code host dyn r 0) m)) :
    e.Agrees host dyn r m 0 ↔
      (dyn.needs X_PEND = true → deferedFlags (exec host (e.code host dyn r 0) m).emu = m.flags) := by
  rw [agrees_zero_iff host ends]
  refine and_iff_right ?_
  rw [only_agrees_iff]
  exact ⟨fun _ => rfl, fun _ => rfl, fun _ => rfl, fun _ => rfl, fun _ => rfl, fun _ => rfl⟩

theorem clear_eq_iff (f : X64Flags) : { f with OF := false } = f ↔ f.OF = false :=
  ⟨fun eq => (congrArg X64Flags.OF eq).symm, fun eq => by rw [← eq]⟩

theorem agrees_zero_of_cleared {e : ShiftEmitter} {r : e.Registers} (writes : ∀ A, e.writes A = true)
    (ends : dyn.Ends r.s1 (m.get dyn.rexw r.s1) { m.flags with OF := false } m1 (exec host (e.code host dyn r 0) m)) :
    e.Agrees host dyn r m 0 ↔
      (dyn.needs X_OF = true → m.flags.OF = false) ∧
        (dyn.needs X_PEND = true → deferedFlags (exec host (e.code host dyn r 0) m).emu = m.flags) := by
  rw [agrees_zero_iff host ends]
  simp only [writes, Bool.not_true, Bool.or_false]
  refine and_congr_left fun _ => ?_
  rw [only_agrees_iff]
  exact ⟨fun ⟨_, _, _, _, _, overflow⟩ needed => (overflow needed).symm,
    fun overflow => ⟨fun _ => rfl, fun _ => rfl, fun _ => rfl, fun _ => rfl, fun _ => rfl, fun needed => (overflow needed).symm⟩⟩

theorem pending_shl_zero {f : X64Flags} {v d : BitVec (opSize dyn.rexw)} {m' : Cpu} (ends : dyn.Ends s1 v f m1 m')
    (needed : dyn.needs X_PEND = true)
    (records : Emit.Records (.d_shl (opWidth dyn.rexw)) dyn.rexw d (BitVec.ofNat _ 0) m1) :
    deferedFlags m'.emu = { f with OF := false } := by
  have flags := deferedFlags_shl (recorded_of_ends ends needed records) (opSize_pos dyn.rexw)
  have stored : m'.emu.eflags = f := ends.flags
  rw [if_pos rfl, stored] at flags
  exact flags

theorem keepLeft_agrees_iff {e : ShiftEmitter} {r : e.Registers} (writes : ∀ A, e.writes A = true)
    (code : e.code host dyn r 0 = dyn.pendOpc r.s1 0 r.s3 r.s4 (.d_shl (opWidth dyn.rexw)) ++ dyn.keepLeft r.s1) :
    e.Agrees host dyn r m 0 ↔
      ((dyn.needs X_OF && testsOF dyn || dyn.needs X_PEND) = true → m.flags.OF = false) := by
  let m1 := exec host (dyn.pendOpc r.s1 0 r.s3 r.s4 (.d_shl (opWidth dyn.rexw))) m
  have keeps : Emit.Keeps [r.s3, r.s4] m m1 := dyn.keeps_pendOpc m (.d_shl (opWidth dyn.rexw)) 0 r.usable3 r.usable4
  have ends : dyn.Ends r.s1 (m.get dyn.rexw r.s1) (if testsOF dyn then { m.flags with OF := false } else m.flags) m1
      (exec host (dyn.keepLeft r.s1) m1) := ends_keepLeft host keeps r.usable1 r.apart.not_mem
  have run : exec host (e.code host dyn r 0) m = exec host (dyn.keepLeft r.s1) m1 := by
    rw [code, exec_append host m (dyn.straight_pendOpc _ 0)]
  rw [← run] at ends
  have pending := fun needed => pending_shl_zero ends needed
    (dyn.records_pendOpc m _ 0 needed r.usable3 r.usable4 r.ne13)
  cases tests : testsOF dyn with
  | true =>
    rw [if_pos tests] at ends pending
    rw [agrees_zero_of_cleared host writes ends, Bool.and_true, Bool.or_eq_true]
    refine Iff.trans (and_congr_right fun _ => forall_congr' fun needed => ?_) or_imp.symm
    rw [pending needed]
    exact clear_eq_iff m.flags
  | false =>
    rw [if_neg (by rw [tests]; exact Bool.false_ne_true)] at ends pending
    rw [agrees_zero_of_kept host ends, Bool.and_false, Bool.false_or]
    refine forall_congr' fun needed => ?_
    rw [pending needed]
    exact clear_eq_iff m.flags

theorem ends_of_pendRes {e : ShiftEmitter} {r : e.Registers} {pend : List Inst}
    (code : e.code host dyn r 0 = pend ++ dyn.pendRes r.s1) (straight : Straight pend)
    (keeps : Emit.Keeps [r.s3, r.s4] m (exec host pend m)) :
    dyn.Ends r.s1 (m.get dyn.rexw r.s1) m.flags (exec host pend m) (exec host (e.code host dyn r 0) m) := by
  rw [code, exec_append host m straight]
  exact ends_pendRes host keeps r.usable1 r.apart.not_mem

theorem shr32c_agrees_zero (r : shr32c.Registers) : shr32c.Agrees host dyn r m 0 := by
  have ends := ends_of_pendRes host (e := shr32c) (r := r) (m := m) rfl (dyn.straight_pendOpc _ 0)
    (dyn.keeps_pendOpc m _ 0 r.usable3 r.usable4)
  refine (agrees_zero_of_kept host ends).mpr fun needed => ?_
  have recorded := recorded_of_ends ends needed (dyn.records_pendOpc m _ 0 needed r.usable3 r.usable4 r.ne13)
  exact ((deferedFlags_shr recorded (opSize_pos dyn.rexw)).trans (if_pos rfl)).trans ends.flags

theorem sar32c_agrees_zero (r : sar32c.Registers) : sar32c.Agrees host dyn r m 0 := by
  have ends := ends_of_pendRes host (e := sar32c) (r := r) (m := m) rfl (dyn.straight_pendOpc _ 0)
    (dyn.keeps_pendOpc m _ 0 r.usable3 r.usable4)
  refine (agrees_zero_of_kept host ends).mpr fun needed => ?_
  have recorded := recorded_of_ends ends needed (dyn.records_pendOpc m _ 0 needed r.usable3 r.usable4 r.ne13)
  exact ((deferedFlags_sar recorded (opSize_pos dyn.rexw)).trans (if_pos rfl)).trans ends.flags

theorem shrd32c_agrees_zero_iff (r : shrd32c.Registers) :
    shrd32c.Agrees host dyn r m 0 ↔ (dyn.needs X_PEND = true → m.flags.OF = false) := by
  have code : shrd32c.code host dyn r 0 =
      dyn.pendOpc r.s1 0 r.s3 r.s4 (.d_shl (opWidth dyn.rexw)) ++ dyn.pendRes r.s1 := by
    rw [ShiftEmitter.code, Emit.emit_shrd32c, Nat.zero_and, if_pos rfl]
  have ends := ends_of_pendRes host (m := m) code (dyn.straight_pendOpc _ 0)
    (dyn.keeps_pendOpc m _ 0 r.usable3 r.usable4)
  rw [agrees_zero_of_kept host ends]
  refine forall_congr' fun needed => ?_
  rw [pending_shl_zero ends needed (dyn.records_pendOpc m _ 0 needed r.usable3 r.usable4 r.ne13)]
  exact clear_eq_iff m.flags

theorem rotated_zero_eq_iff (f : X64Flags) (cf off : Bool) : rotatedFlags f 0 cf off = f ↔ f.CF = cf :=
  ⟨fun eq => (congrArg X64Flags.CF eq).symm, fun eq => by rw [← eq]; rfl⟩

theorem rol32c_agrees_zero_iff (r : rol32c.Registers) :
    rol32c.Agrees host dyn r m 0 ↔ (dyn.needs X_PEND = true → m.flags.CF = (m.get dyn.rexw r.s1).getLsbD 0) := by
  let m' := exec host (rol32c.code host dyn r 0) m
  have ends : dyn.Ends r.s1 (m.get dyn.rexw r.s1) m.flags (exec host (dyn.pendCount 0 r.s3 r.s4 (.d_rol .w32)) m) m' :=
    ends_of_pendRes host rfl (dyn.straight_pendCount _ 0) (dyn.keeps_pendCount m _ 0 r.usable3 r.usable4)
  have le : Width.w32.bits ≤ opSize dyn.rexw := by cases dyn.rexw <;> decide
  rw [agrees_zero_of_kept host ends]
  refine forall_congr' fun needed => ?_
  have records : Emit.RecordsCount (.d_rol .w32) dyn.rexw (BitVec.ofNat _ 0) m' :=
    (dyn.records_pendCount m (.d_rol .w32) 0 needed r.usable3 r.usable4).of_same _ ends.same
  have recorded : RecordedRotate .w32 (.d_rol .w32) 0 ((m.get dyn.rexw r.s1).setWidth Width.w32.bits) m'.emu :=
    ⟨records.df, (low_of_low le records.op2).trans (setWidth_ofNat_of_le le 0), low_of_low le (ends.res needed)⟩
  have stored : m'.emu.eflags = m.flags := ends.flags
  have flags := deferedFlags_rol recorded (by decide)
  rw [stored, getLsbD_setWidth] at flags
  rw [flags]
  exact rotated_zero_eq_iff m.flags _ _

theorem ror32c_agrees_zero_iff (r : ror32c.Registers) :
    ror32c.Agrees host dyn r m 0 ↔ (dyn.needs X_PEND = true → m.flags.CF = (m.get dyn.rexw r.s1).msb) := by
  let N : DeferedFlags := .d_ror (opWidth dyn.rexw)
  let m' := exec host (ror32c.code host dyn r 0) m
  have ends : dyn.Ends r.s1 (m.get dyn.rexw r.s1) m.flags (exec host (dyn.pendCount 0 r.s3 r.s4 N) m) m' :=
    ends_of_pendRes host rfl (dyn.straight_pendCount _ 0) (dyn.keeps_pendCount m _ 0 r.usable3 r.usable4)
  rw [agrees_zero_of_kept host ends]
  refine forall_congr' fun needed => ?_
  have records : Emit.RecordsCount N dyn.rexw (BitVec.ofNat _ 0) m' :=
    (dyn.records_pendCount m N 0 needed r.usable3 r.usable4).of_same _ ends.same
  have recorded : RecordedRotate (opWidth dyn.rexw) N 0 (m.get dyn.rexw r.s1) m'.emu :=
    ⟨records.df, records.op2, ends.res needed⟩
  have stored : m'.emu.eflags = m.flags := ends.flags
  have flags := deferedFlags_ror recorded (Nat.two_pow_pos _)
  rw [stored] at flags
  rw [flags]
  exact rotated_zero_eq_iff m.flags _ _

theorem shr32_agrees_zero (r : shr32.Registers) (count : (m.regs r.s2).toNat = 0) : shr32.Agrees host dyn r m 0 := by
  let d := m.get dyn.rexw r.s1
  let m1 := exec host (dyn.pendOp r.s1 r.s2 r.s4 (.d_shr (opWidth dyn.rexw))) m
  have lt := opSize_pos dyn.rexw
  have keeps : Emit.Keeps [r.s4] m m1 := dyn.keeps_pendOp m (.d_shr (opWidth dyn.rexw)) r.usable4
  have ends : dyn.Ends r.s1 d m.flags m1 (exec host (shr32.code host dyn r 0) m) := by
    cases asked : dyn.needs X_ALL with
    | true =>
      rw [exec_shr32 host r count lt, if_pos asked, if_pos rfl]
      exact ends_of_compared (ends_pendRes host (dyn.keeps_compared keeps r.s2 0) r.usable1 (by simpa using r.ne14))
    | false =>
      have none : ∀ {A : BitVec 8}, X_ALL = A ||| (X_ALL ^^^ A) → dyn.needs A = false :=
        fun part => needs_eq_false part asked
      have ends := ends_shr32 host r count lt (.inr asked)
      have kept : dyn.countAfterCarry r.s2 r.s3 d (m.get dyn.rexw r.s2) = m.get dyn.rexw r.s2 :=
        if_neg fun both => by
          have carry := both.2
          rw [none (by decide)] at carry
          exact Bool.noConfusion carry
      have value : d >>> ((dyn.countAfterCarry r.s2 r.s3 d (m.get dyn.rexw r.s2)).toNat % opSize dyn.rexw) = d := by
        rw [kept, dyn.toNat_of_count m r.usable2 count lt, Nat.zero_mod, ushiftRight_zero]
      refine ⟨ends.result.trans value, ends.flags.trans ?_, ends.same, fun needed => (ends.res needed).trans value⟩
      simp only [Emit.finishFlags, Emit.carryFlags, none (A := X_CF) (by decide), none (A := X_PF) (by decide),
        none (A := X_ZF) (by decide), none (A := X_SF) (by decide), none (A := X_OF) (by decide), Bool.false_eq_true,
        if_false]
  refine (agrees_zero_of_kept host ends).mpr fun needed => ?_
  have recorded := recorded_of_ends ends needed (records_pendOp_of_count host r.usable2 r.usable4 count lt needed)
  exact ((deferedFlags_shr recorded lt).trans (if_pos rfl)).trans ends.flags

theorem shl32_agrees_zero_iff (r : shl32.Registers) (count : (m.regs r.s2).toNat = 0) :
    let d := m.get dyn.rexw r.s1
    shl32.Agrees host dyn r m 0 ↔
      ((dyn.needs X_OF || dyn.needs X_PEND) = true → m.flags.OF = false) ∧
        (testsOF dyn = false → (dyn.needs X_SF = true → m.flags.SF = d.msb) ∧
          ((dyn.needs X_OF && dyn.needs X_PEND) = true → m.flags.CF = d.getLsbD 0)) := by
  intro d
  let m1 := exec host (dyn.pendOp r.s1 r.s2 r.s4 (.d_shl (opWidth dyn.rexw))) m
  have lt := opSize_pos dyn.rexw
  have keeps : Emit.Keeps [r.s4] m m1 := dyn.keeps_pendOp m (.d_shl (opWidth dyn.rexw)) r.usable4
  have records : dyn.needs X_PEND = true → Emit.Records (.d_shl (opWidth dyn.rexw)) dyn.rexw d (BitVec.ofNat _ 0) m1 :=
    fun needed => records_pendOp_of_count host r.usable2 r.usable4 count lt needed
  cases tests : testsOF dyn with
  | true =>
    have ends : dyn.Ends r.s1 d { m.flags with OF := false } m1 (exec host (shl32.code host dyn r 0) m) := by
      rw [exec_shl32 host r count lt, if_pos tests, if_pos rfl]
      exact ends_of_compared (ends_clear host (dyn.keeps_compared keeps r.s2 0) r.usable1 (by simpa using r.ne14))
    rw [agrees_zero_of_cleared host (fun _ => rfl) ends, Bool.or_eq_true]
    refine Iff.trans (and_congr_right fun _ => forall_congr' fun needed => ?_) (or_imp.symm.trans (and_iff_left ?_).symm)
    · rw [pending_shl_zero ends needed (records needed)]
      exact clear_eq_iff m.flags
    · exact fun absent => Bool.noConfusion absent
  | false =>
    have none : ∀ {A : BitVec 8}, BitVec.ofNat 8 F_OF = A ||| (BitVec.ofNat 8 F_OF ^^^ A) → dyn.needs A = false :=
      fun part => needs_eq_false part tests
    have value : d <<< 0 = d := shiftLeft_zero d
    let f : X64Flags :=
      { m.flags with
        CF := if dyn.needs X_OF then d.getLsbD 0 else m.flags.CF
        SF := if dyn.needs X_SF then d.msb else m.flags.SF
        OF := if dyn.needs X_OF then false else m.flags.OF }
    have ends : dyn.Ends r.s1 d f m1 (exec host (shl32.code host dyn r 0) m) := by
      have ends := ends_shl32 host r count lt (.inr tests)
      refine ⟨ends.result.trans value, ends.flags.trans ?_, ends.same, fun needed => (ends.res needed).trans value⟩
      simp only [Emit.finishFlags, Emit.carryFlags, dyn.needs_or, none (A := X_CF) (by decide),
        none (A := X_PF) (by decide), none (A := X_ZF) (by decide), Bool.false_or, Bool.false_eq_true, if_false,
        shiftLeft_zero, Nat.sub_zero, Nat.mod_self, Nat.zero_ne_one, f]
      cases dyn.needs X_OF <;> rfl
    rw [agrees_zero_iff host ends, only_agrees_iff]
    simp only [fun A => show shl32.writes A = true from rfl, Bool.not_true, Bool.or_false]
    have pended : dyn.needs X_PEND = true → deferedFlags (exec host (shl32.code host dyn r 0) m).emu =
        { f with OF := false } := fun needed => pending_shl_zero ends needed (records needed)
    constructor
    · rintro ⟨⟨-, -, -, -, sign, overflow⟩, pending⟩
      have same := fun needed => (pended needed).symm.trans (pending needed)
      refine ⟨fun asked => ?_, fun _ => ⟨fun needed => ?_, fun both => ?_⟩⟩
      · rcases Bool.or_eq_true_iff.mp asked with needed | needed
        · exact (overflow needed).symm.trans (if_pos needed)
        · exact (congrArg X64Flags.OF (same needed)).symm
      · exact (sign needed).symm.trans (if_pos needed)
      · obtain ⟨first, second⟩ := Bool.and_eq_true_iff.mp both
        exact (congrArg X64Flags.CF (same second)).symm.trans (if_pos first)
    · rintro ⟨overflow, other⟩
      obtain ⟨sign, carry⟩ := other trivial
      have cleared : dyn.needs X_OF = true ∨ dyn.needs X_PEND = true → m.flags.OF = false :=
        fun either => overflow (Bool.or_eq_true_iff.mpr either)
      have signs : f.SF = m.flags.SF := by
        show (if dyn.needs X_SF = true then d.msb else m.flags.SF) = m.flags.SF
        split
        case isTrue needed => exact (sign needed).symm
        case isFalse => rfl
      refine ⟨⟨fun asked => ?_, fun _ => rfl, fun _ => rfl, fun _ => rfl, fun _ => signs, fun needed => ?_⟩,
        fun needed => (pended needed).trans ?_⟩
      · rw [none (A := X_CF) (by decide)] at asked
        exact Bool.noConfusion asked
      · exact (if_pos needed).trans (cleared (.inl needed)).symm
      · have carries : f.CF = m.flags.CF := by
          show (if dyn.needs X_OF = true then d.getLsbD 0 else m.flags.CF) = m.flags.CF
          split
          case isTrue asked => exact (carry (Bool.and_eq_true_iff.mpr ⟨asked, needed⟩)).symm
          case isFalse => rfl
        have kept : { f with OF := false } = { m.flags with OF := false } := by rw [carries, signs]
        rw [kept]
        exact (clear_eq_iff m.flags).mpr (cleared (.inr needed))

end Zero

/-! ### When the emitters agree with the interpreter -/

theorem agrees_zero_iff_holdsWhen (e : ShiftEmitter) (r : e.Registers) (m : Cpu) (count : e.CountIn r m 0) :
    e.Agrees host dyn r m 0 ↔ e.HoldsWhen dyn r m 0 := by
  cases e with
  | shl32 =>
    refine (shl32_agrees_zero_iff host r (count (.inl rfl))).trans ?_
    simp only [HoldsWhen, operand, forall_const]
  | shl32c =>
    refine (keepLeft_agrees_iff host (fun _ => rfl) rfl).trans ?_
    simp only [HoldsWhen, forall_const]
  | shr32 => exact iff_of_true (shr32_agrees_zero host r (count (.inr rfl))) fun _ _ nonzero => absurd rfl nonzero
  | shr32c => exact iff_of_true (shr32c_agrees_zero host r) trivial
  | sar32c => exact iff_of_true (sar32c_agrees_zero host r) fun _ nonzero => absurd rfl nonzero
  | rol32c =>
    refine (rol32c_agrees_zero_iff host r).trans ?_
    simp only [HoldsWhen, operand, forall_const, Nat.zero_ne_one, false_imp_iff, and_true]
  | ror32c =>
    refine (ror32c_agrees_zero_iff host r).trans ?_
    simp only [HoldsWhen, operand, forall_const, Nat.zero_ne_one, false_imp_iff, implies_true, and_true]
  | shrd32c =>
    refine (shrd32c_agrees_zero_iff host r).trans ?_
    simp only [HoldsWhen, operand, forall_const, ne_eq, not_true_eq_false, false_imp_iff, and_true]
  | shld32c =>
    have code : shld32c.code host dyn r 0 =
        dyn.pendOpc r.s1 0 r.s3 r.s4 (.d_shl (opWidth dyn.rexw)) ++ dyn.keepLeft r.s1 := by
      rw [ShiftEmitter.code, Emit.emit_shld32c, Nat.zero_and, if_pos rfl]
    refine (keepLeft_agrees_iff host (fun _ => rfl) code).trans ?_
    simp only [HoldsWhen, forall_const]

theorem agrees_nonzero_iff_holdsWhen (e : ShiftEmitter) (r : e.Registers) (m : Cpu) (cnt : Nat) (nonzero : cnt ≠ 0)
    (lt : cnt < opSize dyn.rexw) (count : e.CountIn r m cnt) : e.Agrees host dyn r m cnt ↔ e.HoldsWhen dyn r m cnt := by
  cases e with
  | shl32 => exact iff_of_true (shl32_agrees host nonzero lt r (count (.inl rfl))) fun zero => absurd zero nonzero
  | shl32c => exact iff_of_true (shl32c_agrees host nonzero lt r) fun zero => absurd zero nonzero
  | shr32 =>
    refine (shr32_agrees_iff host nonzero lt r (count (.inr rfl))).trans ?_
    simp only [HoldsWhen, operand, ne_eq, nonzero, not_false_eq_true, forall_const]
  | shr32c => exact iff_of_true (shr32c_agrees host nonzero lt r) trivial
  | sar32c =>
    refine (sar32c_agrees_iff host nonzero lt r).trans ?_
    simp only [HoldsWhen, operand, ne_eq, nonzero, not_false_eq_true, forall_const, Bool.and_eq_true, and_imp]
  | rol32c =>
    refine (rol32c_agrees_iff host nonzero lt r).trans ?_
    simp only [HoldsWhen, operand, nonzero, false_imp_iff, true_and]
  | ror32c =>
    refine (ror32c_agrees_iff host nonzero lt r).trans ?_
    simp only [HoldsWhen, operand, nonzero, false_imp_iff, implies_true, true_and]
  | shrd32c =>
    refine (shrd32c_agrees_iff host nonzero lt r).trans ?_
    simp only [HoldsWhen, operand, ne_eq, nonzero, false_imp_iff, not_false_eq_true, forall_const, true_and]
  | shld32c => exact iff_of_true (shld32c_agrees host nonzero lt r) fun zero => absurd zero nonzero

/-- For every emitter, set of needed flags, operand, count, flags and scratch contents. -/
theorem agrees_iff_holdsWhen (e : ShiftEmitter) (r : e.Registers) (m : Cpu) (cnt : Nat) (lt : cnt < opSize dyn.rexw)
    (count : e.CountIn r m cnt) : e.Agrees host dyn r m cnt ↔ e.HoldsWhen dyn r m cnt := by
  by_cases zero : cnt = 0
  · subst zero
    exact agrees_zero_iff_holdsWhen host dyn e r m count
  · exact agrees_nonzero_iff_holdsWhen host dyn e r m cnt zero lt count

/-! ### A rotate that disagrees -/

def apartRegisters (e : ShiftEmitter) : e.Registers where
  s1 := 10
  s2 := 11
  s3 := 1
  s4 := 2
  usable1 := ⟨by decide, by decide, by decide⟩
  usable2 := ⟨by decide, by decide, by decide⟩
  usable3 := ⟨by decide, by decide, by decide⟩
  usable4 := ⟨by decide, by decide, by decide⟩
  ne13 := by decide
  ne14 := by decide
  ne24 := by decide
  ne34 := by decide
  count_apart _ := by decide
  fill_apart _ := by decide

/-- Every register is 1. -/
def onesCpu : Cpu := { regs := fun _ => 1, nzcv := ⟨false, false, false, false⟩, fields := fun _ => 0 }

/-- `OF` asked for by a rotate of 2 and more is not written. -/
theorem agrees_iff_holdsWhen_ror32c : ror32c.Agrees tableHost ⟨X_OF, false, false⟩ (apartRegisters ror32c) onesCpu 2 :=
  (agrees_iff_holdsWhen tableHost ⟨X_OF, false, false⟩ ror32c (apartRegisters ror32c) onesCpu 2 (by decide)
    (fun kind => by simp at kind)).mpr ⟨fun pending => absurd pending (by decide), fun _ single => absurd single (by decide)⟩

/-- 1 rotated right by 1 changes its sign, but the bit put in `OF` is one of the code for `d_none`. -/
theorem ror32c_not_agrees : ¬ ror32c.Agrees tableHost ⟨X_OF, false, false⟩ (apartRegisters ror32c) onesCpu 1 := by
  intro agrees
  have overflow := agrees.direct.OF
  revert overflow
  decide

end ShiftEmitter

end Box64.Arm64
