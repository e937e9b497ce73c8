import Box64.Dynarec.EmitMath
import Box64.Dynarec.TestEmitters

/-!
# The blocks of an arithmetic emitter

What a block of code does is stated from a condition on the registers and the condition flags to another: it puts some flags
as in a given set of flags, where they are asked for, and changes scratch registers only. Blocks are put together by their
conditions.
-/

namespace Box64.Arm64

open BitVec Emu Dynarec

/-! ### Flags one by one -/

inductive Flag
  | CF
  | PF
  | AF
  | ZF
  | SF
  | OF
  deriving DecidableEq

namespace Flag

def mask : Flag → BitVec 8
  | CF => X_CF
  | PF => X_PF
  | AF => X_AF
  | ZF => X_ZF
  | SF => X_SF
  | OF => X_OF

def place : Flag → Nat
  | CF => F_CF
  | PF => F_PF
  | AF => F_AF
  | ZF => F_ZF
  | SF => F_SF
  | OF => F_OF

def get (f : X64Flags) : Flag → Bool
  | CF => f.CF
  | PF => f.PF
  | AF => f.AF
  | ZF => f.ZF
  | SF => f.SF
  | OF => f.OF

def put (b : Bool) (f : X64Flags) : Flag → X64Flags
  | CF => { f with CF := b }
  | PF => { f with PF := b }
  | AF => { f with AF := b }
  | ZF => { f with ZF := b }
  | SF => { f with SF := b }
  | OF => { f with OF := b }

theorem ext {f f' : X64Flags} (same : ∀ k, get f k = get f' k) : f = f' := by
  obtain ⟨cf, pf, af, zf, sf, off⟩ := f
  obtain ⟨cf', pf', af', zf', sf', off'⟩ := f'
  obtain rfl : cf = cf' := same CF
  obtain rfl : pf = pf' := same PF
  obtain rfl : af = af' := same AF
  obtain rfl : zf = zf' := same ZF
  obtain rfl : sf = sf' := same SF
  obtain rfl : off = off' := same OF
  rfl

theorem get_put (k j : Flag) (b : Bool) (f : X64Flags) : get (put b f k) j = if j = k then b else get f j := by
  cases k <;> cases j <;> rfl

theorem putFlag_put (m : Cpu) (sf : Bool) (y : BitVec (opSize sf)) (k : Flag) :
    (m.putFlag sf y k.place).flags = put (y.getLsbD 0) m.flags k := by
  cases k
  · exact putFlag_CF m sf y
  · exact putFlag_PF m sf y
  · exact putFlag_AF m sf y
  · exact putFlag_ZF m sf y
  · exact putFlag_SF m sf y
  · exact putFlag_OF m sf y

/-- The set of one flag. -/
def only (k : Flag) : Flag → Bool := fun j => decide (j = k)

def none : Flag → Bool := fun _ => false

end Flag

namespace Emit

variable (host : Host) (dyn : Emit) {scratch : List Reg} {T : X64Flags}

/-- The flags of `F` that are asked for are those of `T`. -/
def updated (F : Flag → Bool) (T f : X64Flags) : X64Flags where
  CF := if F .CF && dyn.needs X_CF then T.CF else f.CF
  PF := if F .PF && dyn.needs X_PF then T.PF else f.PF
  AF := if F .AF && dyn.needs X_AF then T.AF else f.AF
  ZF := if F .ZF && dyn.needs X_ZF then T.ZF else f.ZF
  SF := if F .SF && dyn.needs X_SF then T.SF else f.SF
  OF := if F .OF && dyn.needs X_OF then T.OF else f.OF

theorem get_updated (F : Flag → Bool) (T f : X64Flags) (k : Flag) :
    Flag.get (dyn.updated F T f) k = if F k && dyn.needs k.mask then Flag.get T k else Flag.get f k := by
  cases k <;> rfl

theorem updated_updated (F G : Flag → Bool) (T f : X64Flags) :
    dyn.updated G T (dyn.updated F T f) = dyn.updated (fun k => F k || G k) T f := by
  apply Flag.ext
  intro k
  rw [get_updated, get_updated, get_updated]
  cases F k <;> cases G k <;> cases dyn.needs k.mask <;> rfl

/-- Nothing is asked for. -/
theorem updated_of_idle {F : Flag → Bool} (idle : ∀ k, F k = true → dyn.needs k.mask = false) (T f : X64Flags) :
    dyn.updated F T f = f := by
  apply Flag.ext
  intro k
  rw [get_updated]
  cases inside : F k
  · rfl
  · rw [idle k inside]
    rfl

theorem updated_only {k : Flag} {b : Bool} (f : X64Flags) (needed : dyn.needs k.mask = true) (is : b = Flag.get T k) :
    Flag.put b f k = dyn.updated (Flag.only k) T f := by
  apply Flag.ext
  intro j
  rw [get_updated, Flag.get_put, Flag.only]
  by_cases same : j = k
  · subst same
    simp [needed, is]
  · simp [same]

/-! ### Conditions on the host state -/

/-- A condition on the registers and the condition flags. -/
abbrev Before := (Reg → BitVec 64) → Nzcv → Prop

/-- Changing scratch registers keeps the condition. -/
def Stable (changed : List Reg) (K : Before) : Prop :=
  ∀ regs regs' z, (∀ q, q ≠ xFlags → q ∉ changed → regs' q = regs q) → K regs z → K regs' z

/-- The code leads from `K` to `K'`, and puts the flags of `F` that are asked for as in `T`. -/
structure Yields (scratch : List Reg) (T : X64Flags) (K : Before) (F : Flag → Bool) (code : List Inst) (K' : Before) : Prop where
  straight : Straight code
  run : ∀ m, K m.regs m.nzcv →
    Computes scratch (dyn.updated F T m.flags) m (exec host code m) ∧ K' (exec host code m).regs (exec host code m).nzcv

variable {host dyn}
variable {K K' K'' : Before} {F G : Flag → Bool} {code code' : List Inst}

theorem Yields.append (first : Yields host dyn scratch T K F code K') (second : Yields host dyn scratch T K' G code' K'') :
    Yields host dyn scratch T K (fun k => F k || G k) (code ++ code') K'' where
  straight := by
    unfold Straight
    rw [List.all_append, first.straight, second.straight, Bool.true_and]
  run m holds := by
    obtain ⟨computes, middle⟩ := first.run m holds
    obtain ⟨computes', last⟩ := second.run _ middle
    rw [exec_append host m first.straight]
    refine ⟨?_, last⟩
    have both := computes.trans computes'
    rwa [computes.flags, updated_updated] at both

theorem Yields.weaken (yields : Yields host dyn scratch T K F code K') (after : ∀ regs z, K' regs z → K'' regs z) :
    Yields host dyn scratch T K F code K'' :=
  ⟨yields.straight, fun m holds => ⟨(yields.run m holds).1, after _ _ (yields.run m holds).2⟩⟩

theorem Yields.strengthen (yields : Yields host dyn scratch T K' F code K'') (before : ∀ regs z, K regs z → K' regs z) :
    Yields host dyn scratch T K F code K'' :=
  ⟨yields.straight, fun m holds => yields.run m (before _ _ holds)⟩

theorem straight_IFX {A : BitVec 8} (straight : Straight code) : Straight (dyn.IFX A code) := by
  unfold IFX
  split
  · exact straight
  · rfl

/-- Code that is only there where something is asked for. -/
theorem Yields.ifx {A : BitVec 8} (straight : Straight code)
    (yields : dyn.needs A = true → Yields host dyn scratch T K F code K')
    (idle : dyn.needs A = false → (∀ k, F k = true → dyn.needs k.mask = false) ∧ ∀ regs z, K regs z → K' regs z) :
    Yields host dyn scratch T K F (dyn.IFX A code) K' := by
  refine ⟨straight_IFX straight, fun m holds => ?_⟩
  rw [exec_IFX]
  split
  case isTrue needed => exact (yields needed).run m holds
  case isFalse absent =>
    obtain ⟨none, same⟩ := idle (by simpa using absent)
    rw [updated_of_idle dyn none]
    exact ⟨Computes.refl scratch m, same _ _ holds⟩

/-! ### Single flags -/

section Single
variable {S s1 s3 s4 : Reg} {k : Flag}

theorem idle_only {k : Flag} (absent : dyn.needs k.mask = false) (K : Before) :
    (∀ j, Flag.only k j = true → dyn.needs j.mask = false) ∧ ∀ regs z, K regs z → K regs z := by
  refine ⟨fun j is => ?_, fun _ _ holds => holds⟩
  obtain rfl : j = k := of_decide_eq_true is
  exact absent

/-- A value made in a scratch register, whose lowest bit is a flag. -/
theorem yields_put (first : List Inst) (sb : Bool) (val : Cpu → BitVec 64) (straight : Straight first) (usable : Usable S)
    (mem : S ∈ scratch) (stable : Stable [S] K) (makes : ∀ m, exec host first m = m.set S (val m))
    (needed : dyn.needs k.mask = true) (bit : ∀ m, K m.regs m.nzcv → (val m).getLsbD 0 = Flag.get T k) :
    Yields host dyn scratch T K (Flag.only k) (first ++ [BFI sb xFlags S k.place]) K := by
  refine ⟨?_, fun m holds => ?_⟩
  · unfold Straight at straight ⊢
    rw [List.all_append, straight]
    rfl
  · have code : exec host (first ++ [BFI sb xFlags S k.place]) m =
        (m.set S (val m)).putFlag sb ((m.set S (val m)).get sb S) k.place := by
      rw [exec_append host m straight, makes]
      rfl
    have put := computes_putFlag m sb (val m) k.place (f := Flag.put ((val m).getLsbD 0) m.flags k) usable ?_
    · rw [code, ← dyn.updated_only m.flags needed (bit m holds)]
      have within : [S] ⊆ scratch := by simpa using mem
      refine ⟨put.mono within, stable _ _ _ put.regs ?_⟩
      rw [putFlag_nzcv, Cpu.set_nzcv]
      exact holds
    · intro y same
      rw [Flag.putFlag_put, set_flags _ _ usable, same]

theorem yields_condFlag {cond : Cond} (usable : Usable S) (mem : S ∈ scratch) (stable : Stable [S] K)
    (bit : dyn.needs k.mask = true → ∀ regs z, K regs z → z.holds cond = Flag.get T k) :
    Yields host dyn scratch T K (Flag.only k) (dyn.condFlag k.mask S cond k.place) K := by
  refine Yields.ifx rfl (fun needed => ?_) fun absent => idle_only absent K
  refine yields_put [.CSETw S cond] false (fun m => (ofBool (m.nzcv.holds cond)).setWidth 64) rfl usable mem stable ?_ needed ?_
  · intro m
    show m.set S (ofBool (m.nzcv.holds cond)) = m.set S ((ofBool (m.nzcv.holds cond)).setWidth 64)
    unfold Cpu.set
    simp
  · intro m holds
    rw [← bit needed _ _ holds, getLsbD_setWidth]
    simp

theorem set_setWidth (m : Cpu) {n : Nat} (r : Reg) (v : BitVec n) : m.set r v = m.set r (v.setWidth 64) := by
  unfold Cpu.set
  simp

theorem yields_bitFlag {sf sb : Bool} {src : Reg} {i : Nat} (usable : Usable S) (mem : S ∈ scratch) (stable : Stable [S] K)
    (real : src ≠ xZR) (lt : i < opSize sf)
    (bit : dyn.needs k.mask = true → ∀ regs z, K regs z → (regs src).getLsbD i = Flag.get T k) :
    Yields host dyn scratch T K (Flag.only k) (dyn.bitFlag k.mask sf S src i sb k.place) K := by
  refine Yields.ifx rfl (fun needed => ?_) fun absent => idle_only absent K
  refine yields_put [LSR sf S src i] sb (fun m => (m.get sf src >>> i).setWidth 64) rfl usable mem stable ?_ needed ?_
  · exact fun m => set_setWidth m S (m.get sf src >>> i)
  · intro m holds
    rw [← bit needed _ _ holds, getLsbD_setWidth, getLsbD_ushiftRight, m.get_of_ne src sf real, low, getLsbD_setWidth]
    simp [lt]

/-- The parity of the result. -/
theorem yields_setPF {P : BitVec 64 → Prop} (apart : Apart s1 s3 s4) (in3 : s3 ∈ scratch) (in4 : s4 ∈ scratch)
    (bit : dyn.needs X_PF = true → ∀ regs z, K regs z → PARITY (low 8 (regs s1)) = T.PF)
    (keeps : ∀ regs z, K regs z → P (regs s1)) :
    Yields host dyn scratch T K (Flag.only .PF) (dyn.setPF host s1 s3 s4) (fun regs _ => P (regs s1)) := by
  refine ⟨straight_IFX rfl, fun m holds => ?_⟩
  have computes : Computes [s3, s4] _ m (exec host (dyn.setPF host s1 s3 s4) m) :=
    dyn.computes_setPF m apart.usable3 apart.usable4 apart.usable1.not_zero apart.ne13 apart.ne14 apart.ne34
  have out : s1 ∉ [s3, s4] := by simp [apart.ne13, apart.ne14]
  refine ⟨?_, ?_⟩
  · have within : [s3, s4] ⊆ scratch := by simp [in3, in4]
    have whole := computes.mono within
    have flags : dyn.updated (Flag.only .PF) T m.flags =
        if dyn.needs X_PF then { m.flags with PF := PARITY (low 8 (m.regs s1)) } else m.flags := by
      split
      case isTrue needed => exact (dyn.updated_only (k := .PF) m.flags needed (bit needed _ _ holds)).symm
      case isFalse absent =>
        have off : dyn.needs (Flag.mask .PF) = false := Bool.eq_false_iff.mpr absent
        exact updated_of_idle dyn (idle_only off K).1 T m.flags
    rwa [flags]
  · rw [computes.regs s1 apart.usable1.not_flags out]
    exact keeps _ _ holds

end Single

end Emit

/-! ### Bitwise operations -/

/-- The operations on each bit alone, with those that invert their second operand. -/
inductive AluOp.Logical : AluOp → Prop
  | and : Logical .AND
  | bic : Logical .BIC
  | orr : Logical .ORR
  | orn : Logical .ORN
  | eor : Logical .EOR

section Logical
variable {op : AluOp} (logical : op.Logical) {n : Nat}
include logical

theorem AluOp.Logical.eval (c : Bool) (x y : BitVec n) : op.eval c x y = logic (op.bits x y) := by
  cases logical <;> rfl

theorem AluOp.Logical.low (x y : BitVec n) {k : Nat} (le : k ≤ n) :
    (op.bits x y).setWidth k = op.bits (x.setWidth k) (y.setWidth k) := by
  have flip : (~~~y).setWidth k = ~~~ y.setWidth k := by
    ext i lt
    simp [show i < n by omega]
  cases logical
  · exact setWidth_and
  · exact setWidth_and.trans (congrArg (x.setWidth k &&& ·) flip)
  · exact setWidth_or
  · exact setWidth_or.trans (congrArg (x.setWidth k ||| ·) flip)
  · exact setWidth_xor

end Logical

/-- What an instruction reads of a register. -/
def readReg (n : Nat) (regs : Reg → BitVec 64) (r : Reg) : BitVec n := if r = xZR then 0 else low n (regs r)

def Operand2.read (n : Nat) (regs : Reg → BitVec 64) : Operand2 → BitVec n
  | reg rm => readReg n regs rm
  | shifted rm kind k => kind.eval (readReg n regs rm) k
  | imm v => low n v

/-- A register or a constant. -/
def Operand2.Whole : Operand2 → Prop
  | shifted _ _ _ => False
  | _ => True

theorem readReg_cut {n k : Nat} (le : k ≤ n) (regs : Reg → BitVec 64) (r : Reg) :
    (readReg n regs r).setWidth k = readReg k regs r := by
  unfold readReg
  split
  · exact setWidth_zero k n
  · exact setWidth_setWidth_of_le _ le

theorem Operand2.read_cut {src : Operand2} (whole : src.Whole) {n k : Nat} (le : k ≤ n) (regs : Reg → BitVec 64) :
    (src.read n regs).setWidth k = src.read k regs := by
  cases src with
  | reg rm => exact readReg_cut le regs rm
  | imm v => exact setWidth_setWidth_of_le _ le
  | shifted => exact whole.elim

theorem Operand2.eval_eq_read (m : Cpu) (sf : Bool) (src : Operand2) : src.eval m sf = src.read (opSize sf) m.regs := by
  cases src <;> rfl

namespace Emit

variable {host : Host} {dyn : Emit} {scratch : List Reg} {T : X64Flags} {K K' Kb : Before} {S d s1 s2 s3 s4 : Reg} {w : Width}

/-- A bitwise operation into a scratch register. -/
theorem yields_logic {op : AluOp} (logical : op.Logical) {sf : Bool} {rn : Reg} {src : Operand2} {p q : BitVec w.bits}
    (usable : Usable S) (mem : S ∈ scratch) (le : w.bits ≤ opSize sf) (whole : src.Whole) (base : ∀ regs z, K regs z → Kb regs z)
    (stable : Stable [S] Kb) (left : ∀ regs z, K regs z → readReg w.bits regs rn = p)
    (right : ∀ regs z, K regs z → src.read w.bits regs = q) :
    Yields host dyn scratch T K Flag.none [.alu op false sf S rn src] (fun regs z => Kb regs z ∧ low w.bits (regs S) = op.bits p q) := by
  refine ⟨rfl, fun m holds => ?_⟩
  let x := op.bits (readReg (opSize sf) m.regs rn) (src.read (opSize sf) m.regs)
  have code : exec host [.alu op false sf S rn src] m = m.set S x := by
    show m.set S (op.eval m.nzcv.C (m.get sf rn) (src.eval m sf)).1 = m.set S x
    rw [logical.eval, src.eval_eq_read]
    rfl
  have value : x.setWidth w.bits = op.bits p q := by
    show (op.bits _ _).setWidth w.bits = _
    rw [logical.low _ _ le, readReg_cut le, src.read_cut whole le, left _ _ holds, right _ _ holds]
  have computes := computes_set m usable mem x
  rw [code]
  refine ⟨computes, stable _ _ _ (fun q _ out => m.set_regs_of_ne x (by simpa using out)) ?_, ?_⟩
  · rw [Cpu.set_nzcv]
    exact base _ _ holds
  · rw [m.set_regs S x usable.not_zero, low, setWidth_setWidth_of_le _ w.bits_le, value]

/-- The operation itself. -/
theorem yields_alu {op : AluOp} {set sf : Bool} {rn : Reg} {src : Operand2} {r : BitVec (opSize sf)} {f : Nzcv} (usable : Usable d)
    (mem : d ∈ scratch) (base : ∀ regs z z', K regs z → Kb regs z') (stable : Stable [d] Kb)
    (result : ∀ regs z, K regs z → op.eval z.C (readReg (opSize sf) regs rn) (src.read (opSize sf) regs) = (r, f)) :
    Yields host dyn scratch T K Flag.none [.alu op set sf d rn src]
      (fun regs z => Kb regs z ∧ regs d = r.setWidth 64 ∧ (set = true → z = f)) := by
  refine ⟨rfl, fun m holds => ?_⟩
  have code : exec host [.alu op set sf d rn src] m = if set then { m.set d r with nzcv := f } else m.set d r := by
    have is := result _ _ holds
    show m.alu op set sf d rn src = _
    unfold Cpu.alu
    rw [src.eval_eq_read, show m.get sf rn = readReg (opSize sf) m.regs rn from rfl, is]
  have computes := computes_set m usable mem r
  have kept := stable _ _ f (fun q _ out => m.set_regs_of_ne (n := opSize sf) r (by simpa using out)) (base _ _ f holds)
  rw [code]
  cases set with
  | false =>
    refine ⟨computes, ?_, m.set_regs d r usable.not_zero, fun absurd => Bool.noConfusion absurd⟩
    exact stable _ _ _ (fun q _ out => m.set_regs_of_ne (n := opSize sf) r (by simpa using out)) (base _ _ _ holds)
  | true => exact ⟨⟨computes.flags, computes.regs, computes.fields⟩, kept, m.set_regs d r usable.not_zero, fun _ => rfl⟩

/-- A bit of the register that has the chain. -/
theorem bit_of_low {x : BitVec 64} {c : BitVec w.bits} (is : low w.bits x = c) {i : Nat} (lt : i < w.bits) :
    x.getLsbD i = c.getLsbD i := by
  rw [← is, low, getLsbD_setWidth]
  simp [lt]

end Emit

end Box64.Arm64
