import Box64.Dynarec.ShiftRuns
import Box64.Dynarec.ShiftEmitters
import Box64.Emu.PendingShift

/-!
# Agreement of the shift emitters

For each emitter, exactly when its code agrees with the interpreter. The result always does for a count in a register
of its own; what can go wrong are the flags of a count of 0, single bits, and the pending operation.
-/

namespace Box64.Arm64

open BitVec Emu Dynarec

/-! ### Agreement flag by flag -/

theorem toEager_agrees_iff (f g : X64Flags) : f.toEager.Agrees g ↔ g = f := by
  constructor
  · rintro ⟨cf, pf, af, zf, sf, off⟩
    obtain ⟨CF, PF, AF, ZF, SF, OF⟩ := g
    obtain ⟨CF', PF', AF', ZF', SF', OF'⟩ := f
    simp_all [X64Flags.toEager, Allows]
  · rintro rfl
    exact g.toEager_agrees

theorem allows_if {p : Bool} {o : Option Bool} {b : Bool} : Allows (if p then o else none) b ↔ (p = true → Allows o b) := by
  cases p with
  | false => exact iff_of_true trivial fun h => absurd h Bool.false_ne_true
  | true => exact ⟨fun h _ => h, fun h => h rfl⟩

theorem only_agrees_iff (asked : BitVec 8 → Bool) (ref : EagerFlags) (g : X64Flags) :
    (only asked ref).Agrees g ↔
      (asked X_CF = true → Allows ref.CF g.CF) ∧ (asked X_PF = true → Allows ref.PF g.PF) ∧
        (asked X_AF = true → Allows ref.AF g.AF) ∧ (asked X_ZF = true → Allows ref.ZF g.ZF) ∧
          (asked X_SF = true → Allows ref.SF g.SF) ∧ (asked X_OF = true → Allows ref.OF g.OF) := by
  rw [EagerFlags.agrees_iff, only, allows_if, allows_if, allows_if, allows_if, allows_if, allows_if]

/-- The flags a shift by `cnt` gives a value to, with the values of `f`. -/
def shiftShown (f : X64Flags) (cnt : Nat) : EagerFlags where
  CF := some f.CF
  PF := some f.PF
  AF := none
  ZF := some f.ZF
  SF := some f.SF
  OF := if cnt = 1 then some f.OF else none

theorem allows_single {cnt : Nat} {v b : Bool} : Allows (if cnt = 1 then some v else none) b ↔ (cnt = 1 → b = v) := by
  by_cases one : cnt = 1
  · rw [if_pos one]
    exact ⟨fun h _ => h, fun h => h one⟩
  · rw [if_neg one]
    exact iff_of_true trivial fun h => absurd h one

/-- What makes a shift's flags right: the carry, the zero flag where it is tested apart, and the overflow. -/
theorem direct_shift_iff (dyn : Emit) {f f0 : X64Flags} {v : BitVec (opSize dyn.rexw)} {zf off cf offI : Bool} {cnt : Nat} :
    (only (fun A => dyn.needs A || !true) (shiftShown (shiftFlags (w := opWidth dyn.rexw) f0 v cf offI) cnt)).Agrees
        (dyn.finishFlags f v zf off) ↔
      (dyn.needs X_CF = true → f.CF = cf) ∧ (dyn.needs X_ZF = true → zf = (v == 0)) ∧
        (dyn.needs X_OF = true → cnt = 1 → off = offI) := by
  have parity : dyn.needs X_PF = true → (dyn.finishFlags f v zf off).PF = PARITY (v.setWidth 8) := fun asked => if_pos asked
  have zero : dyn.needs X_ZF = true → (dyn.finishFlags f v zf off).ZF = zf := fun asked => if_pos asked
  have sign : dyn.needs X_SF = true → (dyn.finishFlags f v zf off).SF = v.msb := fun asked => if_pos asked
  have overflow : dyn.needs X_OF = true → (dyn.finishFlags f v zf off).OF = off := fun asked => if_pos asked
  simp only [only_agrees_iff, Bool.not_true, Bool.or_false]
  constructor
  · rintro ⟨cf_ok, -, -, zf_ok, -, of_ok⟩
    exact ⟨cf_ok, fun asked => (zero asked).symm.trans (zf_ok asked),
      fun asked one => (overflow asked).symm.trans (allows_single.mp (of_ok asked) one)⟩
  · rintro ⟨cf_ok, zf_ok, of_ok⟩
    refine ⟨cf_ok, parity, fun _ => trivial, fun asked => (zero asked).trans (zf_ok asked), sign, fun asked => ?_⟩
    exact allows_single.mpr fun one => (overflow asked).trans (of_ok asked one)

theorem pending_shift_iff {w : Width} {f f0 : X64Flags} {v : BitVec w.bits} {cf cf' off off' : Bool} {cnt : Nat} :
    (shiftShown (shiftFlags f0 v cf off) cnt).Agrees (shiftFlags f v cf' off') ↔ cf' = cf ∧ (cnt = 1 → off' = off) := by
  rw [EagerFlags.agrees_iff]
  constructor
  · rintro ⟨carry, -, -, -, -, overflow⟩
    exact ⟨carry, allows_single.mp overflow⟩
  · rintro ⟨carry, overflow⟩
    exact ⟨carry, rfl, trivial, rfl, rfl, allows_single.mpr overflow⟩

/-! ### What the instructions show -/

section Shown

variable {n cnt : Nat} (ref f : X64Flags) (d fill : BitVec n)

theorem map_overflow (v : Bool) (b : Bool) :
    (if cnt = 1 then some v else none).map (fun _ => b) = if cnt = 1 then some b else none := by
  split <;> rfl

theorem shownBy_eagerShl (nonzero : cnt ≠ 0) (lt : cnt < n) : shownBy (eagerShl ref.toEager d cnt) f = shiftShown f cnt := by
  rw [eagerShl, if_neg nonzero, if_pos lt]
  simp only [shownBy, map_overflow]
  rfl

theorem shownBy_eagerShr (nonzero : cnt ≠ 0) (lt : cnt < n) : shownBy (eagerShr ref.toEager d cnt) f = shiftShown f cnt := by
  rw [eagerShr, if_neg nonzero, if_pos lt]
  simp only [shownBy, map_overflow]
  rfl

theorem shownBy_eagerSar (nonzero : cnt ≠ 0) : shownBy (eagerSar ref.toEager d cnt) f = shiftShown f cnt := by
  rw [eagerSar, if_neg nonzero]
  simp only [shownBy, map_overflow]
  rfl

theorem shownBy_eagerShld (nonzero : cnt ≠ 0) (lt : cnt < n) :
    shownBy (eagerShld ref.toEager d fill cnt) f = shiftShown f cnt := by
  rw [eagerShld, if_neg nonzero, if_neg (Nat.not_lt_of_le lt.le)]
  simp only [shownBy, map_overflow]
  rfl

theorem shownBy_eagerShrd (nonzero : cnt ≠ 0) (lt : cnt < n) :
    shownBy (eagerShrd ref.toEager d fill cnt) f = shiftShown f cnt := by
  rw [eagerShrd, if_neg nonzero, if_neg (Nat.not_lt_of_le lt.le)]
  simp only [shownBy, map_overflow]
  rfl

/-- The flags after a rotate by `cnt`, `OF` only of a single one. -/
def rotateShown (f : X64Flags) (cnt : Nat) : EagerFlags :=
  { f.toEager with OF := if cnt = 1 then some f.OF else none }

theorem shownBy_eagerRol (nonzero : cnt ≠ 0) : shownBy (eagerRol ref.toEager d cnt) f = rotateShown f cnt := by
  rw [eagerRol, if_neg nonzero]
  simp only [shownBy, map_overflow]
  rfl

theorem shownBy_eagerRor (nonzero : cnt ≠ 0) : shownBy (eagerRor ref.toEager d cnt) f = rotateShown f cnt := by
  rw [eagerRor, if_neg nonzero]
  simp only [shownBy, map_overflow]
  rfl

end Shown

namespace ShiftEmitter

variable (host : Host) (dyn : Emit)

theorem agrees_iff {e : ShiftEmitter} (r : e.Registers) (m : Cpu) (cnt : Nat) :
    e.Agrees host dyn r m cnt ↔
      (exec host (e.code host dyn r cnt) m).get dyn.rexw r.s1 = (e.interpreted dyn r m cnt).1 ∧
        (only (fun A => dyn.needs A || !e.writes A) (e.expected dyn r m cnt)).Agrees
          (exec host (e.code host dyn r cnt) m).flags ∧
          (dyn.needs X_PEND = true →
            (e.expected dyn r m cnt).Agrees (updateFlags (exec host (e.code host dyn r cnt) m).emu).eflags) :=
  ⟨fun ⟨result, direct, pending⟩ => ⟨result, direct, pending⟩, fun ⟨result, direct, pending⟩ => ⟨result, direct, pending⟩⟩

/-! ### Shifts -/

/-- What the interpreter's shift by a count that is not 0 leaves. -/
structure Shifts (e : ShiftEmitter) (r : e.Registers) (m : Cpu) (cnt : Nat) (v : BitVec (opSize dyn.rexw))
    (cf off : Bool) : Prop where
  result : (e.interpreted dyn r m cnt).1 = v
  flags : e.expected dyn r m cnt = shiftShown (shiftFlags (w := opWidth dyn.rexw) m.flags v cf off) cnt
  writes : ∀ A, e.writes A = true

theorem agrees_shift_iff {e : ShiftEmitter} {r : e.Registers} {m m1 : Cpu} {cnt : Nat}
    {v v' : BitVec (opSize dyn.rexw)} {f : X64Flags} {cf off zf off' cfP offP : Bool} (shifts : e.Shifts dyn r m cnt v cf off)
    (ends : dyn.Ends r.s1 v' (dyn.finishFlags f v' zf off') m1 (exec host (e.code host dyn r cnt) m))
    (pending : dyn.needs X_PEND = true →
      deferedFlags (exec host (e.code host dyn r cnt) m).emu =
        shiftFlags (w := opWidth dyn.rexw) (dyn.finishFlags f v' zf off') v' cfP offP) :
    e.Agrees host dyn r m cnt ↔
      v' = v ∧
        ((dyn.needs X_CF = true → f.CF = cf) ∧ (dyn.needs X_ZF = true → zf = (v == 0)) ∧
          (dyn.needs X_OF = true → cnt = 1 → off' = off)) ∧
        (dyn.needs X_PEND = true → cfP = cf ∧ (cnt = 1 → offP = off)) := by
  rw [agrees_iff, shifts.result, shifts.flags, ends.result, ends.flags]
  simp only [shifts.writes]
  refine and_congr_right fun same => ?_
  subst same
  rw [direct_shift_iff]
  refine and_congr_right fun _ => forall_congr' fun needed => ?_
  have flags : (updateFlags (exec host (e.code host dyn r cnt) m).emu).eflags = _ := pending needed
  rw [flags]
  exact pending_shift_iff (w := opWidth dyn.rexw)

theorem opWidth_large (sf : Bool) : opWidth sf = .w32 ∨ opWidth sf = .w64 := by
  cases sf
  · exact .inl rfl
  · exact .inr rfl

section Interpreted

variable {dyn} {m : Cpu} {cnt : Nat} (nonzero : cnt ≠ 0) (lt : cnt < opSize dyn.rexw)

include nonzero lt

theorem shifts_shl {e : ShiftEmitter} (r : e.Registers) (kind : e = shl32 ∨ e = shl32c) :
    let d := m.get dyn.rexw r.s1
    e.Shifts dyn r m cnt (d <<< cnt) (d.getLsbD (opSize dyn.rexw - cnt))
      (if cnt = 1 then (d <<< cnt).msb ^^ d.getLsbD (opSize dyn.rexw - cnt) else false) := by
  intro d
  let emu : X64Emu := { m.emu with df := .d_none }
  have recorded := shl_recorded (w := opWidth dyn.rexw) emu d (opWidth_large dyn.rexw) lt
  have flags := deferedFlags_shl recorded lt
  rw [if_neg nonzero] at flags
  have shown := (shownBy_eagerShl m.flags (deferedFlags (shl (opWidth dyn.rexw) emu d (BitVec.ofNat 8 cnt)).2) d nonzero
    lt).trans (congrArg (shiftShown · cnt) flags)
  have result := shl_result (w := opWidth dyn.rexw) emu d (opWidth_large dyn.rexw) lt
  obtain rfl | rfl := kind
  · exact ⟨result, (if_neg nonzero).trans shown, fun _ => rfl⟩
  · exact ⟨result, (if_neg nonzero).trans shown, fun _ => rfl⟩

theorem shifts_shr {e : ShiftEmitter} (r : e.Registers) (kind : e = shr32 ∨ e = shr32c) :
    let d := m.get dyn.rexw r.s1
    e.Shifts dyn r m cnt (d >>> cnt) (d.getLsbD (cnt - 1))
      (if cnt = 1 then XOR2 (d >>> cnt >>> (opSize dyn.rexw - 2)) else m.flags.OF) := by
  intro d
  let emu : X64Emu := { m.emu with df := .d_none }
  have recorded := shr_recorded (w := opWidth dyn.rexw) emu d (opWidth_large dyn.rexw) lt
  have flags := deferedFlags_shr recorded lt
  rw [if_neg nonzero] at flags
  have shown := (shownBy_eagerShr m.flags (deferedFlags (shr (opWidth dyn.rexw) emu d (BitVec.ofNat 8 cnt)).2) d nonzero
    lt).trans (congrArg (shiftShown · cnt) flags)
  have result := shr_result (w := opWidth dyn.rexw) emu d (opWidth_large dyn.rexw) lt
  obtain rfl | rfl := kind
  · exact ⟨result, (if_neg nonzero).trans shown, fun _ => rfl⟩
  · exact ⟨result, (if_neg nonzero).trans shown, fun _ => rfl⟩

theorem shifts_sar (r : sar32c.Registers) :
    let d := m.get dyn.rexw r.s1
    sar32c.Shifts dyn r m cnt (d.sshiftRight cnt) (d.getLsbD (cnt - 1)) m.flags.OF := by
  intro d
  let emu : X64Emu := { m.emu with df := .d_none }
  have recorded := sar_recorded (w := opWidth dyn.rexw) emu d (opWidth_large dyn.rexw) lt
  have flags := deferedFlags_sar recorded lt
  rw [if_neg nonzero] at flags
  have shown := (shownBy_eagerSar m.flags (deferedFlags (sar (opWidth dyn.rexw) emu d (BitVec.ofNat 8 cnt)).2) d
    nonzero).trans (congrArg (shiftShown · cnt) flags)
  exact ⟨sar_result (w := opWidth dyn.rexw) emu d (opWidth_large dyn.rexw) lt, (if_neg nonzero).trans shown, fun _ => rfl⟩

theorem shifts_shld (r : shld32c.Registers) :
    let d := m.get dyn.rexw r.s1
    let v := (d <<< cnt) ||| (m.get dyn.rexw r.s2 >>> (opSize dyn.rexw - cnt))
    shld32c.Shifts dyn r m cnt v (d.getLsbD (opSize dyn.rexw - cnt))
      (if cnt = 1 then v.msb ^^ d.getLsbD (opSize dyn.rexw - cnt) else false) := by
  intro d v
  let emu : X64Emu := { m.emu with df := .d_none }
  let fill := m.get dyn.rexw r.s2
  obtain ⟨result, flags⟩ := shld_eq (w := opWidth dyn.rexw) emu d fill (opWidth_large dyn.rexw) lt nonzero
  have shown := (shownBy_eagerShld m.flags
    (deferedFlags (shld (opWidth dyn.rexw) emu d fill (BitVec.ofNat 8 cnt)).2) d fill nonzero lt).trans
      (congrArg (shiftShown · cnt) flags)
  exact ⟨result, (if_neg nonzero).trans shown, fun _ => rfl⟩

theorem shifts_shrd (r : shrd32c.Registers) :
    let d := m.get dyn.rexw r.s1
    let v := (d >>> cnt) ||| (m.get dyn.rexw r.s2 <<< (opSize dyn.rexw - cnt))
    shrd32c.Shifts dyn r m cnt v (d.getLsbD (cnt - 1)) (if cnt = 1 then XOR2 (v >>> (opSize dyn.rexw - 2)) else false) := by
  intro d v
  let emu : X64Emu := { m.emu with df := .d_none }
  let fill := m.get dyn.rexw r.s2
  obtain ⟨result, flags⟩ := shrd_eq (w := opWidth dyn.rexw) emu d fill (opWidth_large dyn.rexw) lt nonzero
  have shown := (shownBy_eagerShrd m.flags
    (deferedFlags (shrd (opWidth dyn.rexw) emu d fill (BitVec.ofNat 8 cnt)).2) d fill nonzero lt).trans
      (congrArg (shiftShown · cnt) flags)
  exact ⟨result, (if_neg nonzero).trans shown, fun _ => rfl⟩

end Interpreted

/-! ### Shifts by a constant that is not 0 -/

theorem Registers.apart {e : ShiftEmitter} (r : e.Registers) : Emit.Apart r.s1 r.s3 r.s4 :=
  ⟨r.usable1, r.usable3, r.usable4, r.ne13, r.ne14, r.ne34⟩

section Constant

variable {dyn} {m : Cpu} {cnt : Nat} {s1 : Reg} {v : BitVec (opSize dyn.rexw)} {f : X64Flags} {m1 m' : Cpu}

theorem recorded_of_ends {N : DeferedFlags} {d : BitVec (opSize dyn.rexw)} (ends : dyn.Ends s1 v f m1 m')
    (needed : dyn.needs X_PEND = true) (records : Emit.Records N dyn.rexw d (BitVec.ofNat _ cnt) m1) :
    Recorded (opWidth dyn.rexw) N d cnt v m'.emu :=
  have kept := records.of_same N ends.same
  ⟨kept.df, kept.op1, kept.op2, ends.res needed⟩

variable (nonzero : cnt ≠ 0) (lt : cnt < opSize dyn.rexw) {d : BitVec (opSize dyn.rexw)}
  (ends : dyn.Ends s1 v f m1 m') (needed : dyn.needs X_PEND = true)

include nonzero lt ends needed

theorem pending_shl (records : Emit.Records (.d_shl (opWidth dyn.rexw)) dyn.rexw d (BitVec.ofNat _ cnt) m1) :
    deferedFlags m'.emu =
      shiftFlags (w := opWidth dyn.rexw) f v (d.getLsbD (opSize dyn.rexw - cnt))
        (if cnt = 1 then v.msb ^^ d.getLsbD (opSize dyn.rexw - cnt) else false) := by
  have flags := deferedFlags_shl (recorded_of_ends ends needed records) lt
  have stored : m'.emu.eflags = f := ends.flags
  rw [if_neg nonzero, stored] at flags
  exact flags

theorem pending_shr (records : Emit.Records (.d_shr (opWidth dyn.rexw)) dyn.rexw d (BitVec.ofNat _ cnt) m1) :
    deferedFlags m'.emu =
      shiftFlags (w := opWidth dyn.rexw) f v (d.getLsbD (cnt - 1))
        (if cnt = 1 then XOR2 (v >>> (opSize dyn.rexw - 2)) else f.OF) := by
  have flags := deferedFlags_shr (recorded_of_ends ends needed records) lt
  have stored : m'.emu.eflags = f := ends.flags
  rw [if_neg nonzero, stored] at flags
  exact flags

theorem pending_sar (records : Emit.Records (.d_sar (opWidth dyn.rexw)) dyn.rexw d (BitVec.ofNat _ cnt) m1) :
    deferedFlags m'.emu = shiftFlags (w := opWidth dyn.rexw) f v (d.getLsbD (cnt - 1)) f.OF := by
  have flags := deferedFlags_sar (recorded_of_ends ends needed records) lt
  have stored : m'.emu.eflags = f := ends.flags
  rw [if_neg nonzero, stored] at flags
  exact flags

end Constant

theorem carryFlags_CF {dyn : Emit} {A : BitVec 8} {f : X64Flags} {cf : Bool} (needed : dyn.needs A = true) :
    (dyn.carryFlags A f cf).CF = cf := by
  rw [Emit.carryFlags, if_pos needed]

theorem carryFlags_OF {dyn : Emit} {A : BitVec 8} {f : X64Flags} {cf : Bool} : (dyn.carryFlags A f cf).OF = f.OF := by
  rw [Emit.carryFlags]
  split <;> rfl

theorem needs_mono {dyn : Emit} {A B : BitVec 8} (part : B = A ||| (B ^^^ A)) (needed : dyn.needs A = true) : dyn.needs B = true := by
  rw [part, dyn.needs_or, needed, Bool.true_or]

theorem needs_eq_false {dyn : Emit} {A B : BitVec 8} (part : B = A ||| (B ^^^ A)) (absent : dyn.needs B = false) :
    dyn.needs A = false := by
  refine Bool.eq_false_iff.mpr fun needed => ?_
  rw [needs_mono part needed] at absent
  exact Bool.noConfusion absent

theorem needs_CF_or_OF {dyn : Emit} (needed : dyn.needs X_CF = true ∨ dyn.needs X_OF = true) :
    dyn.needs (X_CF ||| X_OF) = true := by
  rw [dyn.needs_or, Bool.or_eq_true]
  exact needed

/-- The test of the low half, for a 32-bit operand the whole. -/
theorem low_half_zero_iff (sf : Bool) (v : BitVec (opSize sf)) :
    (v.setWidth (opSize false) == 0) = (v == 0) ↔ (sf = true → low 32 (v.setWidth 64) = 0 → v = 0) := by
  rw [Bool.eq_iff_iff, beq_iff_eq, beq_iff_eq]
  cases sf with
  | false =>
    rw [setWidth_eq]
    exact iff_of_true Iff.rfl fun narrow => absurd narrow Bool.false_ne_true
  | true =>
    have whole : v.setWidth 64 = v := setWidth_eq v
    rw [whole]
    constructor
    · intro same _
      exact same.mp
    · intro enough
      refine ⟨enough rfl, ?_⟩
      rintro rfl
      exact setWidth_zero _ _

/-- After a double shift right by 1 the bit below the top is the one that was on top. -/
theorem getLsbD_double_below_top {n i : Nat} (d fill : BitVec n) (wide : 2 ≤ n) (below : i = n - 2) :
    ((d >>> 1) ||| (fill <<< (n - 1))).getLsbD i = d.getLsbD (n - 1) := by
  have last : 1 + i = n - 1 := by omega
  have low : i < n - 1 := by omega
  rw [getLsbD_or, getLsbD_ushiftRight, getLsbD_shiftLeft, last]
  simp only [low, decide_true, Bool.not_true, Bool.and_false, Bool.false_and, Bool.or_false]

/-- The top two bits after a shift right by 1 differ in the one that was on top. -/
theorem XOR2_of_shifted {n : Nat} (wide : 2 ≤ n) (d : BitVec n) : XOR2 (d >>> 1 >>> (n - 2)) = d.msb := by
  have last : 1 + (n - 2) = n - 1 := by omega
  have out : (d >>> 1).msb = false := by
    rw [msb_eq_getLsbD_last, getLsbD_ushiftRight]
    exact getLsbD_of_ge d _ (by omega)
  rw [XOR2_top wide, out, Bool.xor_false, getLsbD_ushiftRight, last, msb_eq_getLsbD_last]

section Nonzero

variable {dyn} {m : Cpu} {cnt : Nat} (nonzero : cnt ≠ 0) (lt : cnt < opSize dyn.rexw)

include nonzero lt

theorem shl32c_agrees (r : shl32c.Registers) : shl32c.Agrees host dyn r m cnt := by
  let d := m.get dyn.rexw r.s1
  have ends := dyn.ends_shl32c host m r.apart nonzero
  rw [dyn.size_eq] at ends
  refine (agrees_shift_iff host dyn (shifts_shl nonzero lt r (.inr rfl)) ends fun needed =>
    pending_shl nonzero lt ends needed (dyn.records_pendOpc m _ cnt needed r.usable3 r.usable4 r.ne13)).mpr ?_
  refine ⟨rfl, ⟨fun carry => ?_, fun _ => rfl, fun overflow single => ?_⟩, fun _ => ⟨rfl, fun _ => rfl⟩⟩
  · exact carryFlags_CF (needs_CF_or_OF (.inl carry))
  · rw [if_pos single, if_pos single, carryFlags_CF (needs_CF_or_OF (.inr overflow))]

theorem shld32c_agrees (r : shld32c.Registers) : shld32c.Agrees host dyn r m cnt := by
  let d := m.get dyn.rexw r.s1
  have ends := dyn.ends_shld32c host m r.apart r.usable2 (r.fill_apart (.inr rfl)) r.ne24 nonzero lt
  rw [dyn.size_eq] at ends
  refine (agrees_shift_iff host dyn (shifts_shld nonzero lt r) ends fun needed =>
    pending_shl nonzero lt ends needed (dyn.records_pendOpc m _ cnt needed r.usable3 r.usable4 r.ne13)).mpr ?_
  refine ⟨rfl, ⟨fun carry => ?_, fun _ => rfl, fun overflow single => ?_⟩, fun _ => ⟨rfl, fun _ => rfl⟩⟩
  · exact carryFlags_CF (needs_CF_or_OF (.inl carry))
  · rw [if_pos single, if_pos single, carryFlags_CF (needs_CF_or_OF (.inr overflow))]

theorem shr32c_agrees (r : shr32c.Registers) : shr32c.Agrees host dyn r m cnt := by
  have ends := dyn.ends_shr32c host m r.apart nonzero
  have top : dyn.sign - 1 = opSize dyn.rexw - 2 := by rw [dyn.sign_eq, Nat.sub_sub]
  rw [top] at ends
  refine (agrees_shift_iff host dyn (shifts_shr nonzero lt r (.inr rfl)) ends fun needed =>
    pending_shr nonzero lt ends needed (dyn.records_pendOpc m _ cnt needed r.usable3 r.usable4 r.ne13)).mpr ?_
  refine ⟨rfl, ⟨fun carry => carryFlags_CF carry, fun _ => rfl, fun _ _ => rfl⟩, fun _ => ⟨rfl, fun single => ?_⟩⟩
  rw [if_pos single, if_pos single]

/-- `ZF` is that of the low half, which is the whole only of a 32-bit operand. -/
theorem sar32c_agrees_iff (r : sar32c.Registers) :
    sar32c.Agrees host dyn r m cnt ↔
      (dyn.needs X_ZF = true → dyn.rexw = true →
        let v := (m.get dyn.rexw r.s1).sshiftRight cnt
        low 32 (v.setWidth 64) = 0 → v = 0) := by
  let d := m.get dyn.rexw r.s1
  have ends := dyn.ends_sar32c host m r.apart nonzero lt
  rw [agrees_shift_iff host dyn (shifts_sar nonzero lt r) ends fun needed =>
    pending_sar nonzero lt ends needed (dyn.records_pendOpc m _ cnt needed r.usable3 r.usable4 r.ne13)]
  constructor
  · rintro ⟨-, ⟨-, zero, -⟩, -⟩ needed
    exact (low_half_zero_iff dyn.rexw _).mp (zero needed)
  · intro zero
    refine ⟨rfl, ⟨fun carry => carryFlags_CF carry, fun needed => (low_half_zero_iff dyn.rexw _).mpr (zero needed),
      fun _ _ => rfl⟩, fun _ => ⟨rfl, fun _ => ?_⟩⟩
    rw [Emit.finishFlags, carryFlags_OF, ite_self]

/-- The pending operation shifts left, so its carry is the bit on the other side. -/
theorem shrd32c_agrees_iff (r : shrd32c.Registers) :
    let d := m.get dyn.rexw r.s1
    shrd32c.Agrees host dyn r m cnt ↔
      (dyn.needs X_PEND = true → d.getLsbD (opSize dyn.rexw - cnt) = d.getLsbD (cnt - 1)) := by
  intro d
  have ends := dyn.ends_shrd32c host m r.apart r.usable2 (r.fill_apart (.inl rfl)) r.ne24 nonzero lt
  have top : dyn.sign - 1 = opSize dyn.rexw - 2 := by rw [dyn.sign_eq, Nat.sub_sub]
  rw [top, dyn.size_eq] at ends
  rw [agrees_shift_iff host dyn (shifts_shrd nonzero lt r) ends fun needed =>
    pending_shl nonzero lt ends needed (dyn.records_pendOpc m _ cnt needed r.usable3 r.usable4 r.ne13)]
  constructor
  · rintro ⟨-, -, pending⟩ needed
    exact (pending needed).1
  · intro same
    refine ⟨rfl, ⟨fun carry => carryFlags_CF carry, fun _ => rfl, fun _ single => ?_⟩, fun needed => ⟨same needed, ?_⟩⟩
    · rw [if_pos single, if_pos single]
    · intro single
      subst single
      have wide : 2 ≤ opSize dyn.rexw := by cases dyn.rexw <;> decide
      rw [if_pos rfl, if_pos rfl, XOR2_top wide, getLsbD_double_below_top _ _ wide rfl, Bool.xor_comm]

end Nonzero

/-! ### Shifts by a count in a register -/

section Register

variable {dyn} {m : Cpu} {cnt : Nat}

theorem zero_iff_of_count {q : Reg} (usable : Usable q) (count : (m.regs q).toNat = cnt) (lt : cnt < opSize dyn.rexw) :
    m.get dyn.rexw q = 0 ↔ cnt = 0 := by
  rw [← BitVec.toNat_inj, dyn.toNat_of_count m usable count lt]
  cases dyn.rexw <;> rfl

theorem ofNat_of_count {q : Reg} (usable : Usable q) (count : (m.regs q).toNat = cnt) (lt : cnt < opSize dyn.rexw) :
    m.get dyn.rexw q = BitVec.ofNat _ cnt := by
  have small : cnt < 2 ^ opSize dyn.rexw := lt_trans lt Nat.lt_two_pow_self
  apply BitVec.eq_of_toNat_eq
  rw [dyn.toNat_of_count m usable count lt, BitVec.toNat_ofNat, Nat.mod_eq_of_lt small]

theorem exec_shl32 (r : shl32.Registers) (count : (m.regs r.s2).toNat = cnt) (lt : cnt < opSize dyn.rexw) :
    let m1 := exec host (dyn.pendOp r.s1 r.s2 r.s4 (.d_shl (opWidth dyn.rexw))) m
    exec host (shl32.code host dyn r cnt) m =
      if testsOF dyn then
        if cnt = 0 then exec host ([BFC true xFlags F_OF] ++ dyn.pendRes r.s1) (Emit.compared m1 dyn.rexw r.s2 0)
        else exec host (dyn.afterGuardLeft host r.s1 r.s2 r.s3 r.s4) (Emit.compared m1 dyn.rexw r.s2 0)
      else exec host (dyn.afterGuardLeft host r.s1 r.s2 r.s3 r.s4) m1 := by
  intro m1
  have keeps : Emit.Keeps [r.s4] m m1 := dyn.keeps_pendOp m (.d_shl (opWidth dyn.rexw)) r.usable4
  have counted : (m1.regs r.s2).toNat = cnt := by
    rw [keeps.regs r.s2 r.usable2.not_flags (by simpa using r.ne24), count]
  have code : shl32.code host dyn r cnt =
      dyn.pendOp r.s1 r.s2 r.s4 (.d_shl (opWidth dyn.rexw)) ++
        (dyn.guardLeft r.s1 r.s2 ++ dyn.afterGuardLeft host r.s1 r.s2 r.s3 r.s4) := by
    simp only [ShiftEmitter.code, Emit.emit_shl32, Emit.guardLeft, Emit.afterGuardLeft, Emit.carryLeft,
      Emit.overflowLeftTested, Emit.signBit, List.append_assoc]
  rw [code, exec_append host m (dyn.straight_pendOp _), dyn.exec_guardLeft]
  have zero : (exec host (dyn.pendOp r.s1 r.s2 r.s4 (.d_shl (opWidth dyn.rexw))) m).get dyn.rexw r.s2 = 0 ↔ cnt = 0 :=
    zero_iff_of_count r.usable2 counted lt
  simp only [zero]
  rfl

theorem exec_shr32 (r : shr32.Registers) (count : (m.regs r.s2).toNat = cnt) (lt : cnt < opSize dyn.rexw) :
    let m1 := exec host (dyn.pendOp r.s1 r.s2 r.s4 (.d_shr (opWidth dyn.rexw))) m
    exec host (shr32.code host dyn r cnt) m =
      if dyn.needs X_ALL then
        if cnt = 0 then exec host (dyn.pendRes r.s1) (Emit.compared m1 dyn.rexw r.s2 0)
        else exec host (dyn.afterGuardRight host r.s1 r.s2 r.s3 r.s4) (Emit.compared m1 dyn.rexw r.s2 0)
      else exec host (dyn.afterGuardRight host r.s1 r.s2 r.s3 r.s4) m1 := by
  intro m1
  have keeps : Emit.Keeps [r.s4] m m1 := dyn.keeps_pendOp m (.d_shr (opWidth dyn.rexw)) r.usable4
  have counted : (m1.regs r.s2).toNat = cnt := by
    rw [keeps.regs r.s2 r.usable2.not_flags (by simpa using r.ne24), count]
  have code : shr32.code host dyn r cnt =
      dyn.pendOp r.s1 r.s2 r.s4 (.d_shr (opWidth dyn.rexw)) ++
        (dyn.guardRight r.s1 r.s2 ++ dyn.afterGuardRight host r.s1 r.s2 r.s3 r.s4) := by
    simp only [ShiftEmitter.code, Emit.emit_shr32, Emit.guardRight, Emit.afterGuardRight, Emit.carryRight,
      List.append_assoc]
  rw [code, exec_append host m (dyn.straight_pendOp _), dyn.exec_guardRight]
  have zero : (exec host (dyn.pendOp r.s1 r.s2 r.s4 (.d_shr (opWidth dyn.rexw))) m).get dyn.rexw r.s2 = 0 ↔ cnt = 0 :=
    zero_iff_of_count r.usable2 counted lt
  simp only [zero]
  rfl

theorem ends_of_compared {s1 q : Reg} {v : BitVec (opSize dyn.rexw)} {f : X64Flags} {m1 m' : Cpu} {imm : BitVec 64}
    (ends : dyn.Ends s1 v f (Emit.compared m1 dyn.rexw q imm) m') : dyn.Ends s1 v f m1 m' :=
  ⟨ends.result, ends.flags, ends.same, ends.res⟩

theorem ends_shl32 (r : shl32.Registers) (count : (m.regs r.s2).toNat = cnt) (lt : cnt < opSize dyn.rexw)
    (passes : cnt ≠ 0 ∨ testsOF dyn = false) :
    let d := m.get dyn.rexw r.s1
    let f := dyn.carryFlags (X_CF ||| X_OF) m.flags (d.getLsbD ((opSize dyn.rexw - cnt) % opSize dyn.rexw))
    dyn.Ends r.s1 (d <<< cnt)
      (dyn.finishFlags f (d <<< cnt) (d <<< cnt == 0) (if cnt = 1 then (d <<< cnt).msb ^^ f.CF else false))
      (exec host (dyn.pendOp r.s1 r.s2 r.s4 (.d_shl (opWidth dyn.rexw))) m)
      (exec host (shl32.code host dyn r cnt) m) := by
  intro d f
  let m1 := exec host (dyn.pendOp r.s1 r.s2 r.s4 (.d_shl (opWidth dyn.rexw))) m
  have keeps : Emit.Keeps [r.s4] m m1 := dyn.keeps_pendOp m (.d_shl (opWidth dyn.rexw)) r.usable4
  have after := fun mc (kept : Emit.Keeps [r.s4] m mc) =>
    dyn.ends_afterGuardLeft host m mc r.apart r.usable2 (r.count_apart (.inl rfl)) r.ne24 count lt kept
  rw [exec_shl32 host r count lt]
  by_cases tests : testsOF dyn = true
  · have nonzero : cnt ≠ 0 := passes.resolve_right fun absent => by simp [tests] at absent
    rw [if_pos tests, if_neg nonzero]
    exact ends_of_compared (after _ (dyn.keeps_compared keeps r.s2 0))
  · rw [if_neg tests]
    exact after _ keeps

theorem ends_shr32 (r : shr32.Registers) (count : (m.regs r.s2).toNat = cnt) (lt : cnt < opSize dyn.rexw)
    (passes : cnt ≠ 0 ∨ dyn.needs X_ALL = false) :
    let d := m.get dyn.rexw r.s1
    let x := dyn.countAfterCarry r.s2 r.s3 d (m.get dyn.rexw r.s2)
    let v := d >>> (x.toNat % opSize dyn.rexw)
    dyn.Ends r.s1 v
      (dyn.finishFlags (dyn.carryFlags X_CF m.flags (d.getLsbD (cnt - 1))) v (v == 0)
        (if x == 1 then XOR2 (v >>> (dyn.sign - 1)) else m.flags.OF))
      (exec host (dyn.pendOp r.s1 r.s2 r.s4 (.d_shr (opWidth dyn.rexw))) m)
      (exec host (shr32.code host dyn r cnt) m) := by
  intro d x v
  let m1 := exec host (dyn.pendOp r.s1 r.s2 r.s4 (.d_shr (opWidth dyn.rexw))) m
  have keeps : Emit.Keeps [r.s4] m m1 := dyn.keeps_pendOp m (.d_shr (opWidth dyn.rexw)) r.usable4
  have pos : dyn.needs X_CF = true → cnt ≠ 0 := by
    intro carry
    refine passes.resolve_right fun absent => ?_
    rw [needs_mono (by decide) carry] at absent
    exact Bool.noConfusion absent
  have after := fun mc (kept : Emit.Keeps [r.s4] m mc) =>
    dyn.ends_afterGuardRight host m mc r.apart r.usable2 (r.count_apart (.inr rfl)) r.ne24 count lt pos kept
  rw [exec_shr32 host r count lt]
  by_cases asked : dyn.needs X_ALL = true
  · have nonzero : cnt ≠ 0 := passes.resolve_right fun absent => by simp [asked] at absent
    rw [if_pos asked, if_neg nonzero]
    exact ends_of_compared (after _ (dyn.keeps_compared keeps r.s2 0))
  · rw [if_neg asked]
    exact after _ keeps

theorem records_pendOp_of_count {s1 q s4 : Reg} {N : DeferedFlags} (usable : Usable q) (usable4 : Usable s4)
    (count : (m.regs q).toNat = cnt) (lt : cnt < opSize dyn.rexw) (needed : dyn.needs X_PEND = true) :
    Emit.Records N dyn.rexw (m.get dyn.rexw s1) (BitVec.ofNat _ cnt) (exec host (dyn.pendOp s1 q s4 N) m) := by
  rw [← ofNat_of_count usable count lt]
  exact dyn.records_pendOp m N needed usable4

variable (nonzero : cnt ≠ 0) (lt : cnt < opSize dyn.rexw)

include nonzero lt

theorem shl32_agrees (r : shl32.Registers) (count : (m.regs r.s2).toNat = cnt) : shl32.Agrees host dyn r m cnt := by
  have ends := ends_shl32 host r count lt (.inl nonzero)
  have inside : opSize dyn.rexw - cnt < opSize dyn.rexw := by omega
  rw [Nat.mod_eq_of_lt inside] at ends
  refine (agrees_shift_iff host dyn (shifts_shl nonzero lt r (.inl rfl)) ends fun needed =>
    pending_shl nonzero lt ends needed (records_pendOp_of_count host r.usable2 r.usable4 count lt needed)).mpr ?_
  refine ⟨rfl, ⟨fun carry => ?_, fun _ => rfl, fun overflow single => ?_⟩, fun _ => ⟨rfl, fun _ => rfl⟩⟩
  · exact carryFlags_CF (needs_CF_or_OF (.inl carry))
  · rw [if_pos single, if_pos single, carryFlags_CF (needs_CF_or_OF (.inr overflow))]

theorem shr32_agrees_iff_count (r : shr32.Registers) (count : (m.regs r.s2).toNat = cnt) :
    let d := m.get dyn.rexw r.s1
    let x := dyn.countAfterCarry r.s2 r.s3 d (m.get dyn.rexw r.s2)
    shr32.Agrees host dyn r m cnt ↔
      d >>> (x.toNat % opSize dyn.rexw) = d >>> cnt ∧
        (dyn.needs X_OF = true → cnt = 1 → x ≠ 1 → m.flags.OF = d.msb) := by
  intro d x
  let v := d >>> (x.toNat % opSize dyn.rexw)
  let f := dyn.carryFlags X_CF m.flags (d.getLsbD (cnt - 1))
  let off := if x == 1 then XOR2 (v >>> (dyn.sign - 1)) else m.flags.OF
  let m1 := exec host (dyn.pendOp r.s1 r.s2 r.s4 (.d_shr (opWidth dyn.rexw))) m
  have ends : dyn.Ends r.s1 v (dyn.finishFlags f v (v == 0) off) m1 (exec host (shr32.code host dyn r cnt) m) :=
    ends_shr32 host r count lt (.inl nonzero)
  have wide : 2 ≤ opSize dyn.rexw := by cases dyn.rexw <;> decide
  have top : dyn.sign - 1 = opSize dyn.rexw - 2 := by rw [dyn.sign_eq, Nat.sub_sub]
  have overflow : v = d >>> cnt → cnt = 1 → (off = XOR2 (d >>> cnt >>> (opSize dyn.rexw - 2)) ↔
      (x ≠ 1 → m.flags.OF = d.msb)) := by
    intro same single
    show (if x == 1 then XOR2 (v >>> (dyn.sign - 1)) else m.flags.OF) = _ ↔ _
    rw [same, top, single, XOR2_of_shifted wide]
    by_cases one : x = 1
    · rw [if_pos (beq_iff_eq.mpr one)]
      exact iff_of_true rfl fun ne => absurd one ne
    · rw [if_neg fun eq => one (beq_iff_eq.mp eq)]
      exact ⟨fun eq _ => eq, fun eq => eq one⟩
  rw [agrees_shift_iff host dyn (shifts_shr nonzero lt r (.inl rfl)) ends fun needed =>
    pending_shr nonzero lt ends needed (records_pendOp_of_count host r.usable2 r.usable4 count lt needed)]
  refine and_congr_right fun (same : v = d >>> cnt) => ?_
  rw [same]
  constructor
  · rintro ⟨⟨-, -, eq⟩, -⟩ needed single
    refine (overflow same single).mp ((eq needed single).trans ?_)
    rw [if_pos single]
  · intro eq
    refine ⟨⟨fun carry => carryFlags_CF carry, fun _ => rfl, fun needed single => ?_⟩, fun _ => ⟨rfl, fun single => ?_⟩⟩
    · rw [if_pos single]
      exact (overflow same single).mpr (eq needed single)
    · rw [if_pos single, if_pos single]

/-- If the count is in the scratch register of the carry, what shifts is what is left there. -/
theorem shr32_agrees_iff (r : shr32.Registers) (count : (m.regs r.s2).toNat = cnt) :
    let d := m.get dyn.rexw r.s1
    shr32.Agrees host dyn r m cnt ↔
      (r.s2 = r.s3 → dyn.needs X_CF = true →
        d >>> ((d >>> (cnt - 1)).toNat % opSize dyn.rexw) = d >>> cnt ∧
          (dyn.needs X_OF = true → cnt = 1 → d ≠ 1 → m.flags.OF = d.msb)) := by
  intro d
  let x := dyn.countAfterCarry r.s2 r.s3 d (m.get dyn.rexw r.s2)
  have counted := dyn.toNat_of_count m r.usable2 count lt
  refine (shr32_agrees_iff_count host nonzero lt r count).trans ?_
  show d >>> (x.toNat % opSize dyn.rexw) = d >>> cnt ∧ (_ → _ → x ≠ 1 → _) ↔ _
  by_cases both : r.s2 = r.s3 ∧ dyn.needs X_CF = true
  · have clobbered : x = d >>> (cnt - 1) := by
      show (if _ then d >>> ((m.get dyn.rexw r.s2).toNat - 1) else _) = _
      rw [if_pos both, counted]
    have first : cnt = 1 → x = d := by
      intro single
      rw [clobbered, single]
      exact ushiftRight_zero d
    rw [← clobbered]
    constructor
    · rintro ⟨same, off⟩ - -
      exact ⟨same, fun needed single ne => off needed single (by rwa [first single])⟩
    · intro agrees
      obtain ⟨same, off⟩ := agrees both.1 both.2
      exact ⟨same, fun needed single ne => off needed single (by rwa [← first single])⟩
  · have kept : x = m.get dyn.rexw r.s2 := if_neg both
    refine iff_of_true ⟨?_, fun _ single ne => absurd ?_ ne⟩ fun same carry => absurd ⟨same, carry⟩ both
    · rw [kept, counted, Nat.mod_eq_of_lt lt]
    · have one : (1 : BitVec (opSize dyn.rexw)).toNat = 1 := by cases dyn.rexw <;> rfl
      rw [kept, ← BitVec.toNat_inj, counted, single, one]

end Register

/-! ### Rotates -/

/-- What the interpreter's rotate by a count that is not 0 leaves. -/
structure Rotates (e : ShiftEmitter) (r : e.Registers) (m : Cpu) (cnt : Nat) (v : BitVec (opSize dyn.rexw))
    (cf off : Bool) : Prop where
  result : (e.interpreted dyn r m cnt).1 = v
  flags : e.expected dyn r m cnt = rotateShown (rotatedFlags m.flags cnt cf off) cnt
  writes : ∀ A, e.writes A = (A == X_CF || A == X_OF)

theorem direct_rotate_iff {f : X64Flags} {cnt : Nat} {cf off off' : Bool} :
    (only (fun A => dyn.needs A || !(A == X_CF || A == X_OF)) (rotateShown (rotatedFlags f cnt cf off) cnt)).Agrees
        (dyn.rotateFlags f cnt cf off') ↔
      (dyn.needs X_OF = true → cnt = 1 → off' = off) := by
  have ne : (X_OF == X_CF || X_OF == X_OF) = true := rfl
  have carry : (X_CF == X_CF || X_CF == X_OF) = true := rfl
  have shown : cnt = 1 → (rotatedFlags f cnt cf off).OF = off := fun single => if_pos single
  rw [only_agrees_iff]
  constructor
  · rintro ⟨-, -, -, -, -, overflow⟩ needed single
    have eq := allows_single.mp (overflow (by rw [needed, Bool.true_or])) single
    rw [shown single] at eq
    exact (if_pos ⟨needed, single⟩).symm.trans eq
  · intro overflow
    refine ⟨fun asked => ?_, fun _ => rfl, fun _ => rfl, fun _ => rfl, fun _ => rfl, fun asked => ?_⟩
    · rw [carry, Bool.not_true, Bool.or_false] at asked
      exact if_pos asked
    · rw [ne, Bool.not_true, Bool.or_false] at asked
      refine allows_single.mpr fun single => ?_
      rw [shown single]
      exact (if_pos ⟨asked, single⟩).trans (overflow asked single)

theorem pending_rotate_iff {f : X64Flags} {cnt : Nat} {cf cf' off off' : Bool} {g : X64Flags}
    (others : g.PF = f.PF ∧ g.AF = f.AF ∧ g.ZF = f.ZF ∧ g.SF = f.SF) :
    (rotateShown (rotatedFlags f cnt cf off) cnt).Agrees (rotatedFlags g cnt cf' off') ↔
      cf' = cf ∧ (cnt = 1 → off' = off) := by
  obtain ⟨pf, af, zf, sf⟩ := others
  have shown : ∀ (f : X64Flags) (cf off : Bool), cnt = 1 → (rotatedFlags f cnt cf off).OF = off :=
    fun f cf off single => if_pos single
  rw [EagerFlags.agrees_iff]
  constructor
  · rintro ⟨carry, -, -, -, -, overflow⟩
    refine ⟨carry, fun single => ?_⟩
    have eq := allows_single.mp overflow single
    rwa [shown _ _ _ single, shown _ _ _ single] at eq
  · rintro ⟨carry, overflow⟩
    refine ⟨carry, pf, af, zf, sf, allows_single.mpr fun single => ?_⟩
    rw [shown _ _ _ single, shown _ _ _ single, overflow single]

theorem agrees_rotate_iff {e : ShiftEmitter} {r : e.Registers} {m m1 : Cpu} {cnt : Nat} {v : BitVec (opSize dyn.rexw)}
    {cf off off' cfP offP : Bool} (rotates : e.Rotates dyn r m cnt v cf off)
    (ends : dyn.Ends r.s1 v (dyn.rotateFlags m.flags cnt cf off') m1 (exec host (e.code host dyn r cnt) m))
    (pending : dyn.needs X_PEND = true →
      deferedFlags (exec host (e.code host dyn r cnt) m).emu =
        rotatedFlags (dyn.rotateFlags m.flags cnt cf off') cnt cfP offP) :
    e.Agrees host dyn r m cnt ↔
      (dyn.needs X_OF = true → cnt = 1 → off' = off) ∧
        (dyn.needs X_PEND = true → cfP = cf ∧ (cnt = 1 → offP = off)) := by
  rw [agrees_iff, rotates.result, rotates.flags, ends.result, ends.flags]
  simp only [rotates.writes, true_and]
  refine and_congr (direct_rotate_iff dyn) (forall_congr' fun needed => ?_)
  have flags : (updateFlags (exec host (e.code host dyn r cnt) m).emu).eflags = _ := pending needed
  rw [flags]
  exact pending_rotate_iff ⟨rfl, rfl, rfl, rfl⟩

theorem rotateRight_back {n cnt : Nat} (d : BitVec n) (nonzero : cnt ≠ 0) (lt : cnt < n) :
    d.rotateRight (n - cnt) = d.rotateLeft cnt := by
  have inside : n - cnt < n := by omega
  have back : n - (n - cnt) = cnt := by omega
  rw [rotateRight_def, rotateLeft_def, Nat.mod_eq_of_lt inside, Nat.mod_eq_of_lt lt, back, BitVec.or_comm]

theorem getLsbD_add_shifted {n : Nat} (x : BitVec n) (pos : 0 < n) (i : Nat) :
    (x + (x >>> i)).getLsbD 0 = (x.getLsbD 0 ^^ x.getLsbD i) := by
  rw [getLsbD_add pos, carry_zero, Bool.xor_false, getLsbD_ushiftRight, Nat.add_zero]

theorem getLsbD_rotateLeft_one {n i : Nat} (d : BitVec n) (nonzero : i ≠ 0) (lt : i < n) :
    (d.rotateLeft 1).getLsbD i = d.getLsbD (i - 1) := by
  have one : 1 % n = 1 := Nat.mod_eq_of_lt (by omega)
  have not_low : ¬ i < 1 := by omega
  rw [getLsbD_rotateLeft, one]
  simp only [not_low, lt, decide_false, decide_true, cond_false, Bool.true_and]

theorem sign_of_rolled_iff (sf : Bool) (d : BitVec (opSize sf)) :
    ((d.rotateLeft 1).getLsbD 0 ^^ (d.rotateLeft 1).getLsbD 31) =
        ((d.rotateLeft 1).getLsbD 0 ^^ (d.rotateLeft 1).getLsbD (opSize sf - 1)) ↔
      (sf = true → d.getLsbD 30 = d.getLsbD 62) := by
  cases sf with
  | false => exact iff_of_true rfl fun wide => absurd wide Bool.false_ne_true
  | true =>
    have size : opSize true - 1 = 63 := rfl
    rw [Bool.xor_right_inj, size, getLsbD_rotateLeft_one d (by decide) (by decide),
      getLsbD_rotateLeft_one d (by decide) (by decide)]
    exact ⟨fun eq _ => eq, fun eq => eq rfl⟩

/-- After a rotate right by 1 the top two bits are the ones that were lowest and highest. -/
theorem XOR2_of_rolled {n : Nat} (wide : 2 ≤ n) (d : BitVec n) :
    XOR2 (d.rotateRight 1 >>> (n - 2)) = (d.getLsbD 0 ^^ d.msb) := by
  have one : 1 % n = 1 := Nat.mod_eq_of_lt (by omega)
  have last : 1 + (n - 2) = n - 1 := by omega
  have low : n - 2 < n - 1 := by omega
  have inside : n - 1 < n := by omega
  rw [XOR2_top wide, msb_eq_getLsbD_last, msb_eq_getLsbD_last, getLsbD_rotateRight, getLsbD_rotateRight, one, last]
  simp only [low, inside, Nat.lt_irrefl, Nat.sub_self, decide_true, decide_false, cond_true, cond_false, Bool.true_and]
  exact Bool.xor_comm _ _

theorem strayBit_eq (r : ror32c.Registers) (m : Cpu) (cnt : Nat) (needed : dyn.needs X_OF = true) :
    ((exec host (dyn.pendCount cnt r.s3 r.s4 (.d_ror (opWidth dyn.rexw))) m).get false r.s4).getLsbD 0 =
      strayBit dyn ror32c r m := by
  have asked : dyn.needs X_ALL = true := needs_mono (by decide) needed
  have code : ∀ (N : DeferedFlags) (m : Cpu),
      ((exec host (Emit.SET_DF r.s4 N) m).get false r.s4).getLsbD 0 = (dfCode N).getLsbD 0 := by
    intro N m
    rw [Emit.exec_SET_DF m N r.usable4]
    exact getLsbD_get_set m (dfCode N) r.usable4 false (opSize_pos false)
  rw [strayBit, Emit.pendCount, Emit.pendOrNone]
  split
  case isTrue pending =>
    refine (code _ _).trans ?_
    cases dyn.rexw <;> decide
  case isFalse none =>
    rw [Emit.exec_IFX, if_pos asked, Emit.SET_DFNONE]
    split
    case isTrue => rfl
    case isFalse =>
      refine (code _ _).trans ?_
      decide

section Rotate

variable {dyn} {m : Cpu} {cnt : Nat} (nonzero : cnt ≠ 0) (lt : cnt < opSize dyn.rexw)

include nonzero lt

theorem rotates_rol (r : rol32c.Registers) :
    let v := (m.get dyn.rexw r.s1).rotateLeft cnt
    rol32c.Rotates dyn r m cnt v (v.getLsbD 0) ((v + (v >>> (opSize dyn.rexw - 1))).getLsbD 0) := by
  intro v
  let d := m.get dyn.rexw r.s1
  let emu : X64Emu := { m.emu with df := .d_none }
  obtain ⟨result, flags⟩ := rol_eq (w := opWidth dyn.rexw) emu d (opWidth_large dyn.rexw) lt rfl nonzero
  have shown := (shownBy_eagerRol m.flags (deferedFlags (rol (opWidth dyn.rexw) emu d (BitVec.ofNat 8 cnt)).2) d
    nonzero).trans (congrArg (rotateShown · cnt) flags)
  exact ⟨result, (if_neg nonzero).trans shown, fun _ => rfl⟩

theorem rotates_ror (r : ror32c.Registers) :
    let v := (m.get dyn.rexw r.s1).rotateRight cnt
    ror32c.Rotates dyn r m cnt v v.msb (XOR2 (v >>> (opSize dyn.rexw - 2))) := by
  intro v
  let d := m.get dyn.rexw r.s1
  let emu : X64Emu := { m.emu with df := .d_none }
  obtain ⟨result, flags⟩ := ror_eq (w := opWidth dyn.rexw) emu d (opWidth_large dyn.rexw) lt rfl nonzero
  have shown := (shownBy_eagerRor m.flags (deferedFlags (ror (opWidth dyn.rexw) emu d (BitVec.ofNat 8 cnt)).2) d
    nonzero).trans (congrArg (rotateShown · cnt) flags)
  exact ⟨result, (if_neg nonzero).trans shown, fun _ => rfl⟩

/-- A 64-bit rotate is left pending as a 32-bit one, whose `OF` has bit 31 for the sign. -/
theorem rol32c_agrees_iff (r : rol32c.Registers) :
    let d := m.get dyn.rexw r.s1
    rol32c.Agrees host dyn r m cnt ↔
      (dyn.needs X_PEND = true → cnt = 1 → dyn.rexw = true → d.getLsbD 30 = d.getLsbD 62) := by
  intro d
  let v := d.rotateLeft cnt
  let m1 := exec host (dyn.pendCount cnt r.s3 r.s4 (.d_rol .w32)) m
  let m' := exec host (rol32c.code host dyn r cnt) m
  let off := (v + (v >>> (opSize dyn.rexw - 1))).getLsbD 0
  have ends : dyn.Ends r.s1 v (dyn.rotateFlags m.flags cnt (v.getLsbD 0) off) m1 m' := by
    have ends := dyn.ends_rol32c host m r.apart nonzero
    rw [dyn.size_eq, dyn.sign_eq, rotateRight_back d nonzero lt] at ends
    exact ends
  have le : Width.w32.bits ≤ opSize dyn.rexw := by cases dyn.rexw <;> decide
  have small : cnt < 2 ^ Width.w32.bits := lt_trans (lt_of_lt_of_le lt (opSize_le dyn.rexw)) (by decide)
  have pending : dyn.needs X_PEND = true →
      deferedFlags m'.emu = rotatedFlags m'.flags cnt (v.getLsbD 0) (v.getLsbD 0 ^^ v.getLsbD 31) := by
    intro needed
    have records : Emit.RecordsCount (.d_rol .w32) dyn.rexw (BitVec.ofNat _ cnt) m' :=
      (dyn.records_pendCount m (.d_rol .w32) cnt needed r.usable3 r.usable4).of_same _ ends.same
    have recorded : RecordedRotate .w32 (.d_rol .w32) cnt (v.setWidth Width.w32.bits) m'.emu :=
      ⟨records.df, (low_of_low le records.op2).trans (setWidth_ofNat_of_le le cnt), low_of_low le (ends.res needed)⟩
    rw [deferedFlags_rol recorded small, getLsbD_add_shifted _ (by decide)]
    simp only [getLsbD_setWidth]
    rfl
  have sum : off = (v.getLsbD 0 ^^ v.getLsbD (opSize dyn.rexw - 1)) := getLsbD_add_shifted v (opSize_pos dyn.rexw) _
  rw [ends.flags] at pending
  rw [agrees_rotate_iff host dyn (rotates_rol nonzero lt r) ends pending]
  have bits : cnt = 1 → ((v.getLsbD 0 ^^ v.getLsbD 31) = off ↔ (dyn.rexw = true → d.getLsbD 30 = d.getLsbD 62)) := by
    intro single
    rw [sum, show v = d.rotateLeft 1 from congrArg d.rotateLeft single]
    exact sign_of_rolled_iff dyn.rexw d
  constructor
  · rintro ⟨-, eq⟩ needed single
    exact (bits single).mp ((eq needed).2 single)
  · intro eq
    exact ⟨fun _ _ => rfl, fun needed => ⟨rfl, fun single => (bits single).mpr (eq needed single)⟩⟩

/-- `OF` is a bit of the other scratch register. -/
theorem ror32c_agrees_iff (r : ror32c.Registers) :
    let d := m.get dyn.rexw r.s1
    ror32c.Agrees host dyn r m cnt ↔
      (dyn.needs X_OF = true → cnt = 1 → strayBit dyn ror32c r m = (d.getLsbD 0 ^^ d.msb)) := by
  intro d
  let v := d.rotateRight cnt
  let m1 := exec host (dyn.pendCount cnt r.s3 r.s4 (.d_ror (opWidth dyn.rexw))) m
  let m' := exec host (ror32c.code host dyn r cnt) m
  have ends : dyn.Ends r.s1 v (dyn.rotateFlags m.flags cnt v.msb ((m1.get false r.s4).getLsbD 0)) m1 m' :=
    dyn.ends_ror32c host m r.apart nonzero
  have small : cnt < 2 ^ (opWidth dyn.rexw).bits := lt_trans lt Nat.lt_two_pow_self
  have pending : dyn.needs X_PEND = true →
      deferedFlags m'.emu = rotatedFlags m'.flags cnt v.msb (XOR2 (v >>> (opSize dyn.rexw - 2))) := by
    intro needed
    have records : Emit.RecordsCount (.d_ror (opWidth dyn.rexw)) dyn.rexw (BitVec.ofNat _ cnt) m' :=
      (dyn.records_pendCount m _ cnt needed r.usable3 r.usable4).of_same _ ends.same
    have recorded : RecordedRotate (opWidth dyn.rexw) (.d_ror (opWidth dyn.rexw)) cnt v m'.emu :=
      ⟨records.df, records.op2, ends.res needed⟩
    exact deferedFlags_ror recorded small
  have wide : 2 ≤ opSize dyn.rexw := by cases dyn.rexw <;> decide
  rw [ends.flags] at pending
  rw [agrees_rotate_iff host dyn (rotates_ror nonzero lt r) ends pending]
  have bits : cnt = 1 → XOR2 (v >>> (opSize dyn.rexw - 2)) = (d.getLsbD 0 ^^ d.msb) := by
    intro single
    rw [show v = d.rotateRight 1 from congrArg d.rotateRight single]
    exact XOR2_of_rolled wide d
  constructor
  · rintro ⟨eq, -⟩ needed single
    rw [← strayBit_eq host dyn r m cnt needed, ← bits single]
    exact eq needed single
  · intro eq
    refine ⟨fun needed single => ?_, fun _ => ⟨rfl, fun _ => rfl⟩⟩
    rw [bits single, ← eq needed single]
    exact strayBit_eq host dyn r m cnt needed

end Rotate

end ShiftEmitter

end Box64.Arm64
