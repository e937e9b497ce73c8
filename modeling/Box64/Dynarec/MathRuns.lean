import Box64.Dynarec.MathEmitters
import Box64.Dynarec.ShiftRuns
import Box64.Emu.CarryFlags

/-!
# From the head of an arithmetic emitter to its end

The head stores the operands and the pending operation, the blocks around the store of the result compute the flags.
-/

namespace Box64.Arm64

open BitVec Emu Dynarec CarryChain

/-! ### The flags of a sum and of a difference -/

def sumFlags {n : Nat} (d s : BitVec n) (c : Bool) : X64Flags where
  CF := decide (2 ^ n ≤ d.toNat + s.toNat + c.toNat)
  PF := PARITY ((addc d s c).setWidth 8)
  AF := (carryChain d s (addc d s c)).getLsbD 3
  ZF := addc d s c == 0
  SF := (addc d s c).msb
  OF := XOR2 (carryChain d s (addc d s c) >>> (n - 2))

def diffFlags {n : Nat} (d s : BitVec n) (c : Bool) : X64Flags where
  CF := (borrowChain d s (subb d s c)).msb
  PF := PARITY ((subb d s c).setWidth 8)
  AF := (borrowChain d s (subb d s c)).getLsbD 3
  ZF := subb d s c == 0
  SF := (subb d s c).msb
  OF := XOR2 (borrowChain d s (subb d s c) >>> (n - 2))

section Nzcv
variable {n : Nat} (wide : 8 ≤ n) (d s : BitVec n) (c : Bool)
include wide

theorem addWithCarry_sum : (addWithCarry d s c).1 = addc d s c ∧ (addWithCarry d s c).2.Z = (sumFlags d s c).ZF ∧
    (addWithCarry d s c).2.C = (sumFlags d s c).CF ∧ (addWithCarry d s c).2.V = (sumFlags d s c).OF :=
  ⟨rfl, rfl, rfl, (carryChain_OF wide d s c).symm⟩

/-- The carry of a difference is that there is no borrow. -/
theorem addWithCarry_diff : (addWithCarry d (~~~s) (!c)).1 = subb d s c ∧
    (addWithCarry d (~~~s) (!c)).2.Z = (diffFlags d s c).ZF ∧ (!(addWithCarry d (~~~s) (!c)).2.C) = (diffFlags d s c).CF ∧
    (addWithCarry d (~~~s) (!c)).2.V = (diffFlags d s c).OF := by
  have value : addc d (~~~s) (!c) = subb d s c := (subb_eq_addc d s c).symm
  refine ⟨value, ?_, ?_, ?_⟩
  · show (addc d (~~~s) (!c) == 0) = (subb d s c == 0)
    rw [value]
  · show (!decide (2 ^ n ≤ d.toNat + (~~~s).toNat + (!c).toNat)) = (borrowChain d s (subb d s c)).msb
    have small := d.isLt
    have small' := s.isLt
    rw [borrowChain_CF wide d s c, BitVec.toNat_not, ← decide_not]
    apply decide_eq_decide.mpr
    cases c <;> simp only [Bool.not_false, Bool.not_true, Bool.toNat_true, Bool.toNat_false] <;> omega
  · show decide (SignedOverflow n (d.toInt + (~~~s).toInt + (!c).toNat)) = XOR2 (borrowChain d s (subb d s c) >>> (n - 2))
    rw [borrowChain_OF wide d s c, ← borrow_xor_borrow (by omega), ← carry_xor_carry (by omega)]
    cases carry (n - 1) d (~~~s) (!c) <;> cases carry n d (~~~s) (!c) <;> rfl

end Nzcv

/-- The borrows of a negation are the bits of its operand and result. -/
theorem borrowChain_neg {w : Width} (x res : BitVec w.bits) : x ||| res = borrowChain 0 x res := by
  ext i lt
  simp [borrowChain, Bool.or_comm]

theorem borrow_neg {w : Width} (x : BitVec w.bits) : (x != 0) = (diffFlags 0 x false).CF := by
  have wide := w.le_bits
  show (x != 0) = (borrowChain 0 x (subb 0 x false)).msb
  rw [borrowChain_CF wide 0 x false]
  by_cases null : x = 0
  · subst null
    simp
  · have pos : 0 < x.toNat := Nat.pos_of_ne_zero fun eq => null (BitVec.eq_of_toNat_eq eq)
    rw [bne_iff_ne.mpr null]
    simp [pos]

namespace Emit

variable {host : Host} (dyn : Emit) {scratch : List Reg} {w : Width} {N : DeferedFlags} {o1 o2 : BitVec w.bits} {S : Reg}

/-! ### Heads -/

/-- The operation and its operands are stored; nothing else changes but scratch registers. -/
structure Recorded (scratch : List Reg) (N : DeferedFlags) (o1 o2 : BitVec w.bits) (m m' : Cpu) : Prop where
  keeps : Keeps scratch m m'
  df : m'.emu.df = N
  op1 : low w.bits m'.emu.op1 = o1
  op2 : low w.bits m'.emu.op2 = o2

/-- The operation is stored, or else, where that matters, that there is none. -/
structure Headed (scratch : List Reg) (pends covers : Bool) (N : DeferedFlags) (o1 o2 : BitVec w.bits) (m m' : Cpu) : Prop where
  keeps : Keeps scratch m m'
  pending : pends = true → m'.emu.df = N ∧ low w.bits m'.emu.op1 = o1 ∧ low w.bits m'.emu.op2 = o2
  none : pends = false → covers = true → (dyn.dfnone = true → m.emu.df = .d_none) → m'.emu.df = .d_none

/-- The operation comes after its operands. -/
theorem recorded_SET_DF {m m1 : Cpu} (usable : Usable S) (mem : S ∈ scratch) (keeps : Keeps scratch m m1)
    (op1 : low w.bits (m1.fields .op1) = o1) (op2 : low w.bits (m1.fields .op2) = o2) :
    Recorded scratch N o1 o2 m (exec host (SET_DF S N) m1) where
  keeps := keeps.trans (keeps_SET_DF m1 N mem usable)
  df := SET_DF_df m1 N usable
  op1 := (congrArg (low w.bits) (SET_DF_fields m1 N usable .op1 (by decide))).trans op1
  op2 := (congrArg (low w.bits) (SET_DF_fields m1 N usable .op2 (by decide))).trans op2

theorem SET_DFNONE_spec (host : Host) (m : Cpu) (usable : Usable S) (mem : S ∈ scratch) :
    Keeps scratch m (exec host (dyn.SET_DFNONE S) m) ∧
      ((dyn.dfnone = true → m.emu.df = .d_none) → (exec host (dyn.SET_DFNONE S) m).emu.df = .d_none) := by
  refine ⟨dyn.keeps_SET_DFNONE m mem usable, ?_⟩
  intro known
  unfold SET_DFNONE
  split
  case isTrue is => exact known is
  case isFalse => exact SET_DF_df m .d_none usable

section Wrap
variable {pend : List Inst} {m : Cpu} (usable : Usable S) (mem : S ∈ scratch)
  (recorded : Recorded scratch N o1 o2 m (exec host pend m))
include usable mem recorded

/-- `else IFX(A) {SET_DFNONE(S);}` -/
theorem headed_ifx (A : BitVec 8) :
    dyn.Headed scratch (dyn.needs X_PEND) (dyn.needs A) N o1 o2 m
      (exec host (if dyn.needs X_PEND then pend else dyn.IFX A (dyn.SET_DFNONE S)) m) := by
  obtain ⟨keeps, df, op1, op2⟩ := recorded
  split
  case isTrue needed => exact ⟨keeps, fun _ => ⟨df, op1, op2⟩, fun absent => absurd needed (by simp [absent])⟩
  case isFalse absent =>
    obtain ⟨keeps, none⟩ := dyn.SET_DFNONE_spec host m usable mem
    rw [exec_IFX]
    split
    case isTrue => exact ⟨keeps, fun needed => absurd needed absent, fun _ _ => none⟩
    case isFalse off =>
      exact ⟨Keeps.refl scratch m, fun needed => absurd needed absent, fun _ needed => absurd needed off⟩

theorem headed_PENDOR0 :
    dyn.Headed scratch dyn.pendOr0 true N o1 o2 m (exec host (dyn.IFX_PENDOR0 pend (dyn.SET_DFNONE S)) m) := by
  obtain ⟨keeps, df, op1, op2⟩ := recorded
  rw [exec_PENDOR0]
  split
  case isTrue either => exact ⟨keeps, fun _ => ⟨df, op1, op2⟩, fun neither => absurd either (by simp [neither])⟩
  case isFalse neither =>
    obtain ⟨keeps, none⟩ := dyn.SET_DFNONE_spec host m usable mem
    exact ⟨keeps, fun either => absurd either neither, fun _ _ => none⟩

end Wrap

/-- Two operands stored. -/
theorem recorded_two (m : Cpu) {s1 s2 : Reg} (u1 : Usable s1) (u2 : Usable s2) (usable : Usable S) (mem : S ∈ scratch) :
    Recorded scratch N (low w.bits (m.regs s1)) (low w.bits (m.regs s2)) m
      (exec host ([.STR w s1 .op1, .STR w s2 .op2] ++ SET_DF S N) m) := by
  let m1 := store m w .op1 (m.get true s1)
  let m2 := store m1 w .op2 (m.get true s2)
  show Recorded scratch N _ _ m (exec host (SET_DF S N) m2)
  have kept := store_of_ne m1 w .op2 .op1 (by decide) (m.get true s2)
  refine recorded_SET_DF usable mem ((keeps_store m scratch w .op1 _).trans (keeps_store m1 scratch w .op2 _)) ?_ ?_
  · exact (congrArg (low w.bits) kept).trans ((low_store m w .op1 _).trans (congrArg (low w.bits) (get_true m u1.not_zero)))
  · exact (low_store m1 w .op2 _).trans (congrArg (low w.bits) (get_true m u2.not_zero))

/-- One operand stored. -/
theorem recorded_one (m : Cpu) {s1 : Reg} (u1 : Usable s1) (usable : Usable S) (mem : S ∈ scratch) :
    Recorded scratch N (low w.bits (m.regs s1)) (low w.bits (m.fields .op2)) m (exec host (.STR w s1 .op1 :: SET_DF S N) m) := by
  show Recorded scratch N _ _ m (exec host (SET_DF S N) (store m w .op1 (m.get true s1)))
  refine recorded_SET_DF usable mem (keeps_store m scratch w .op1 _) ?_ ?_
  · exact (low_store m w .op1 _).trans (congrArg (low w.bits) (get_true m u1.not_zero))
  · exact congrArg (low w.bits) (store_of_ne m w .op1 .op2 (by decide) _)

/-! ### The whole of an emitter -/

/-- What the code of an arithmetic emitter leaves. -/
structure Outcome (scratch : List Reg) (pends covers : Bool) (N : DeferedFlags) (o1 o2 x : BitVec w.bits) (F : Flag → Bool)
    (T : X64Flags) (K : Before) (m m' : Cpu) : Prop where
  flags : m'.flags = dyn.updated F T m.flags
  regs : ∀ r, r ≠ xFlags → r ∉ scratch → m'.regs r = m.regs r
  holds : K m'.regs m'.nzcv
  pending : pends = true → m'.emu.df = N ∧ low w.bits m'.emu.op1 = o1 ∧ low w.bits m'.emu.op2 = o2 ∧ low w.bits m'.emu.res = x
  none : pends = false → covers = true → (dyn.dfnone = true → m.emu.df = .d_none) → m'.emu.df = .d_none

/-- The result is stored where the operation is. -/
structure StoresAt (w : Width) (pends : Bool) (d : Reg) (m m' : Cpu) : Prop where
  regs : m'.regs = m.regs
  nzcv : m'.nzcv = m.nzcv
  same : SameOperation m m'
  res : pends = true → low w.bits (m'.fields .res) = low w.bits (m.regs d)

theorem storesAt_STR (w : Width) {d : Reg} (m : Cpu) (real : d ≠ xZR) : StoresAt w true d m (exec host [.STR w d .res] m) := by
  refine ⟨rfl, rfl, fun field ne => store_of_ne m _ _ _ ne _, fun _ => ?_⟩
  rw [← get_true m real]
  exact low_store m w .res (m.get true d)

theorem storesAt_skip (w : Width) {d : Reg} (m : Cpu) : StoresAt w false d m m :=
  ⟨rfl, rfl, fun _ _ => rfl, fun is => Bool.noConfusion is⟩

theorem storesAt_PEND (w : Width) {d : Reg} (m : Cpu) (real : d ≠ xZR) :
    StoresAt w (dyn.needs X_PEND) d m (exec host (dyn.IFX X_PEND [.STR w d .res]) m) := by
  rw [exec_IFX]
  cases dyn.needs X_PEND with
  | true => exact storesAt_STR w m real
  | false => exact storesAt_skip w m

theorem storesAt_PENDOR0 (w : Width) {d : Reg} (m : Cpu) (real : d ≠ xZR) :
    StoresAt w dyn.pendOr0 d m (exec host (dyn.IFX_PENDOR0 [.STR w d .res] []) m) := by
  rw [exec_PENDOR0]
  cases dyn.pendOr0 with
  | true => exact storesAt_STR w m real
  | false => exact storesAt_skip w m

/-- The head, the operation, the store of its result and the flags behind it. -/
theorem outcome {pends covers : Bool} {m : Cpu} {head A store B : List Inst} {x : BitVec w.bits} {d : Reg} {F G H : Flag → Bool}
    {T : X64Flags} {K K' K'' : Before} {within : List Reg} (straight : Straight head) (closed : Closed host store)
    (sub : within ⊆ scratch)
    (headed : dyn.Headed within pends covers N o1 o2 m (exec host head m))
    (starts : K (exec host head m).regs (exec host head m).nzcv) (first : Yields host dyn scratch T K F A K')
    (stores : ∀ m, StoresAt w pends d m (exec host store m)) (result : ∀ regs z, K' regs z → low w.bits (regs d) = x)
    (second : Yields host dyn scratch T K' G B K'') (union : ∀ k, (F k || G k) = H k) :
    dyn.Outcome scratch pends covers N o1 o2 x H T K'' m (exec host (head ++ (A ++ (store ++ B))) m) := by
  obtain rfl : (fun k => F k || G k) = H := funext union
  rw [exec_append host m straight, exec_append host _ first.straight, closed]
  obtain ⟨keeps, pending, none⟩ := headed
  generalize exec host head m = m1 at keeps pending none starts ⊢
  obtain ⟨computes, middle⟩ := first.run m1 starts
  generalize exec host A m1 = m2 at computes middle ⊢
  obtain ⟨regs, nzcv, same, stored⟩ := stores m2
  generalize exec host store m2 = m3 at regs nzcv same stored ⊢
  have middle3 : K' m3.regs m3.nzcv := by
    rw [regs, nzcv]
    exact middle
  obtain ⟨computes', last⟩ := second.run m3 middle3
  generalize exec host B m3 = m4 at computes' last ⊢
  have flags3 : m3.flags = m2.flags := by
    unfold Cpu.flags
    rw [regs]
  have fields : ∀ f, f ≠ EmuField.res → m4.fields f = m1.fields f := by
    intro f ne
    rw [computes'.fields, same f ne, computes.fields]
  have df : m4.emu.df = m1.emu.df := congrArg (fun cell => dfOfCode (low 32 cell)) (fields .df (by decide))
  refine ⟨?_, ?_, last, ?_, ?_⟩
  · rw [computes'.flags, flags3, computes.flags, updated_updated, keeps.flags]
  · intro r ne out
    rw [computes'.regs r ne out, regs, computes.regs r ne out, keeps.regs r ne fun mem => out (sub mem)]
  · intro is
    obtain ⟨op, op1, op2⟩ := pending is
    refine ⟨df.trans op, ?_, ?_, ?_⟩
    · exact (congrArg (low w.bits) (fields .op1 (by decide))).trans op1
    · exact (congrArg (low w.bits) (fields .op2 (by decide))).trans op2
    · have here : m4.emu.res = m3.fields .res := congrFun computes'.fields .res
      rw [here, stored is, result _ _ middle]
  · intro absent needed known
    rw [df]
    exact none absent needed known

end Emit

end Box64.Arm64
