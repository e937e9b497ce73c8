import Box64.Dynarec.MathChains

/-!
# Arithmetic emitters against the interpreter

Each emitter agrees with the interpreter's primitive, directly and through the operation it leaves pending.
-/

namespace Box64.Arm64

open BitVec Emu Dynarec CarryChain

/-! ### The emitters -/

inductive MathEmitter
  | add32
  | sub32
  | inc32
  | dec32
  | neg32
  | cmp32
  deriving DecidableEq

/-- The registers an emitter is called with; `s2` only where there is a second operand, `s5` only in a comparison. -/
structure MathRegisters where
  s1 : Reg
  s2 : Reg
  s3 : Reg
  s4 : Reg
  s5 : Reg
  apart : Emit.Apart s1 s3 s4
  apart5 : Emit.Apart s5 s3 s4
  usable2 : Usable s2
  ne23 : s2 ≠ s3
  ne24 : s2 ≠ s4

namespace MathEmitter

variable (host : Host) (dyn : Emit)

def code (e : MathEmitter) (r : MathRegisters) : List Inst :=
  match e with
  | add32 => dyn.emit_add32 host r.s1 r.s2 r.s3 r.s4
  | sub32 => dyn.emit_sub32 host r.s1 r.s2 r.s3 r.s4
  | inc32 => dyn.emit_inc32 host r.s1 r.s3 r.s4
  | dec32 => dyn.emit_dec32 host r.s1 r.s3 r.s4
  | neg32 => dyn.emit_neg32 host r.s1 r.s3 r.s4
  | cmp32 => dyn.emit_cmp32 host r.s1 r.s2 r.s3 r.s4 r.s5

/-- Where the result is made. -/
def destination (r : MathRegisters) : MathEmitter → Reg
  | cmp32 => r.s5
  | _ => r.s1

/-- The interpreter's primitive. -/
def primop (w : Width) (emu : X64Emu) (d s : BitVec w.bits) : MathEmitter → BitVec w.bits × X64Emu
  | add32 => add w emu d s
  | sub32 => sub w emu d s
  | inc32 => inc w emu d
  | dec32 => dec w emu d
  | neg32 => neg w emu d
  | cmp32 => cmp w emu d s

/-- The operation is stored. -/
def pends : MathEmitter → Bool
  | cmp32 => dyn.pendOr0
  | _ => dyn.needs X_PEND

/-- Where it is not, it is stored that there is none. -/
def settles : MathEmitter → Bool
  | add32 | sub32 | neg32 => dyn.needs X_ALL
  | inc32 | dec32 => dyn.needs X_INC
  | cmp32 => true

section Agreement
variable (e : MathEmitter) (r : MathRegisters) (m : Cpu)

def operand1 : BitVec (opWidth dyn.rexw).bits := low _ (m.regs r.s1)

def operand2 : BitVec (opWidth dyn.rexw).bits :=
  match e with
  | inc32 | dec32 => 1
  | _ => low _ (m.regs r.s2)

/-- The interpreter from the same state, its flags up to date. -/
def interpreted : BitVec (opWidth dyn.rexw).bits × X64Emu :=
  e.primop (opWidth dyn.rexw) { m.emu with df := .d_none } (operand1 dyn r m) (e.operand2 dyn r m)

/-- The code agrees with the interpreter, and leaves the other registers alone. -/
structure Agrees : Prop where
  result : e ≠ cmp32 → (exec host (e.code host dyn r) m).regs r.s1 = (e.interpreted dyn r m).1.setWidth 64
  direct : (only dyn.needs (updateFlags (e.interpreted dyn r m).2).eflags.toEager).Agrees (exec host (e.code host dyn r) m).flags
  pending : e.pends dyn = true →
    (updateFlags (exec host (e.code host dyn r) m).emu).eflags = (updateFlags (e.interpreted dyn r m).2).eflags
  settled : e.pends dyn = false → e.settles dyn = true → (dyn.dfnone = true → m.emu.df = .d_none) →
    (exec host (e.code host dyn r) m).emu.df = .d_none
  others : ∀ q, q ≠ xFlags → q ≠ e.destination r → q ≠ r.s3 → q ≠ r.s4 →
    (exec host (e.code host dyn r) m).regs q = m.regs q

end Agreement

/-! ### The interpreter -/

def value {n : Nat} (d s : BitVec n) : MathEmitter → BitVec n
  | add32 | inc32 => addc d s false
  | sub32 | dec32 | cmp32 => subb d s false
  | neg32 => subb 0 d false

def flags {n : Nat} (d s : BitVec n) : MathEmitter → X64Flags
  | add32 | inc32 => sumFlags d s false
  | sub32 | dec32 | cmp32 => diffFlags d s false
  | neg32 => diffFlags 0 d false

/-- `inc` and `dec` keep `CF`. -/
def puts : MathEmitter → Flag → Bool
  | inc32 | dec32 => Flag.butCF
  | _ => Flag.all

def final (f T : X64Flags) : MathEmitter → X64Flags
  | inc32 | dec32 => { T with CF := f.CF }
  | _ => T

def operation (rexw : Bool) : MathEmitter → DeferedFlags
  | add32 => if rexw then .d_add .w64 else .d_add32b
  | sub32 => .d_sub (opWidth rexw)
  | inc32 => .d_inc (opWidth rexw)
  | dec32 => .d_dec (opWidth rexw)
  | neg32 => .d_neg (opWidth rexw)
  | cmp32 => .d_cmp (opWidth rexw)

section Pending
variable {w : Width} {emu : X64Emu} {x y : BitVec w.bits} (op1 : low w.bits emu.op1 = x)
include op1

theorem sub_flags (df : emu.df = .d_sub w ∨ emu.df = .d_cmp w) (op2 : low w.bits emu.op2 = y)
    (res : low w.bits emu.res = subb x y false) : (updateFlags emu).eflags = diffFlags x y false := by
  have flags : (updateFlags emu).eflags = subFlags emu emu.eflags w := by
    unfold updateFlags deferedFlags
    rcases df with is | is <;> rw [is]
  rw [flags, subFlags, op1, op2, res]
  rfl

theorem inc_flags (df : emu.df = .d_inc w) (wide : w ≠ .w8) (res : low w.bits emu.res = addc x 1 false) :
    (updateFlags emu).eflags = { sumFlags x 1 false with CF := emu.eflags.CF } := by
  have flags : (updateFlags emu).eflags = incFlags emu emu.eflags w := by
    unfold updateFlags deferedFlags
    rw [df]
  have chain : (1 &&& x) ||| (~~~addc x 1 false &&& (1 ||| x)) = carryChain x 1 (addc x 1 false) := by
    rw [carryChain, BitVec.and_comm 1, BitVec.or_comm 1]
  rw [flags, incFlags, op1, res]
  dsimp only
  rw [if_neg wide, chain]
  rfl

theorem dec_flags (df : emu.df = .d_dec w) (res : low w.bits emu.res = subb x 1 false) :
    (updateFlags emu).eflags = { diffFlags x 1 false with CF := emu.eflags.CF } := by
  have flags : (updateFlags emu).eflags = decFlags emu emu.eflags w := by
    unfold updateFlags deferedFlags
    rw [df]
  rw [flags, decFlags, op1, res]
  rfl

theorem neg_flags (df : emu.df = .d_neg w) (res : low w.bits emu.res = subb 0 x false) :
    (updateFlags emu).eflags = diffFlags 0 x false := by
  have flags : (updateFlags emu).eflags = negFlags emu emu.eflags w := by
    unfold updateFlags deferedFlags
    rw [df]
  have chain : subb 0 x false ||| x = borrowChain 0 x (subb 0 x false) := (BitVec.or_comm _ x).trans (borrowChain_neg x _)
  rw [flags, negFlags, op1, res, chain, borrow_neg]
  rfl

end Pending

/-- A sum pending without its carry. -/
theorem add_flags (rexw : Bool) {emu : X64Emu} {x y : BitVec (opWidth rexw).bits} (df : emu.df = add32.operation rexw)
    (op1 : low (opWidth rexw).bits emu.op1 = x) (op2 : low (opWidth rexw).bits emu.op2 = y)
    (res : low (opWidth rexw).bits emu.res = addc x y false) : (updateFlags emu).eflags = sumFlags x y false := by
  unfold updateFlags deferedFlags
  rw [df]
  have swap : ∀ N : Nat, decide (N ≤ y.toNat + x.toNat + false.toNat) = decide (N ≤ x.toNat + y.toNat + false.toNat) := fun N => by
    rw [Nat.add_comm y.toNat]
  cases rexw with
  | false =>
    have carry := (hiSum_carry (k := 16) (by decide) y x false).trans (swap _)
    show setChain (setZSP { emu.eflags with
      CF := (hiSum 16 (loSum 16 false (low 32 emu.op2) (low 32 emu.op1)) (low 32 emu.op2) (low 32 emu.op1)).getLsbD 16 }
        (low 32 emu.res)) (carryChain (low 32 emu.op1) (low 32 emu.op2) (low 32 emu.res)) = sumFlags x y false
    rw [show low 32 emu.op1 = x from op1, show low 32 emu.op2 = y from op2, show low 32 emu.res = addc x y false from res]
    exact congrArg (fun c => setChain (setZSP { emu.eflags with CF := c } (addc x y false)) (carryChain x y (addc x y false))) carry
  | true =>
    have carry := (hiSum_carry (k := 32) (by decide) y x false).trans (swap _)
    have whole : ∀ v : BitVec 64, low 64 v = v := setWidth_eq
    show setChain (setZSP { emu.eflags with CF := (hiSum 32 (loSum 32 false emu.op2 emu.op1) emu.op2 emu.op1).getLsbD 32 }
        (low 64 emu.res)) (carryChain (low 64 emu.op1) (low 64 emu.op2) (low 64 emu.res)) = sumFlags x y false
    rw [show low 64 emu.res = addc x y false from res, whole, whole, show emu.op1 = x from (whole _).symm.trans op1,
      show emu.op2 = y from (whole _).symm.trans op2]
    exact congrArg (fun c => setChain (setZSP { emu.eflags with CF := c } (addc x y false)) (carryChain x y (addc x y false))) carry

theorem eq_of_allows {o : Option Bool} {v b b' : Bool} (is : o = some v) (left : Allows o b) (right : Allows o b') : b = b' := by
  subst is
  exact left.trans right.symm

/-- The interpreter's sum has its carry in the stored result. -/
theorem add_eflags (w : Width) (emu : X64Emu) (d s : BitVec w.bits) : (updateFlags (add w emu d s).2).eflags = sumFlags d s false := by
  obtain ⟨cf, pf, af, zf, sf, off⟩ := add_agrees w emu (sumFlags d s false).toEager d s
  obtain ⟨cf', pf', af', zf', sf', off'⟩ : (eagerAdd (sumFlags d s false).toEager d s false).Agrees (sumFlags d s false) :=
    sum_agrees w.le_bits (sumFlags d s false).toEager (sumFlags d s false) d s false rfl
  apply Flag.ext
  intro k
  cases k
  · exact eq_of_allows rfl cf cf'
  · exact eq_of_allows rfl pf pf'
  · exact eq_of_allows rfl af af'
  · exact eq_of_allows rfl zf zf'
  · exact eq_of_allows rfl sf sf'
  · exact eq_of_allows rfl off off'

section Agreement
variable (e : MathEmitter) (r : MathRegisters) (m : Cpu)

/-- The primitive computes the value and the flags. -/
theorem interpreted_eq : (e ≠ cmp32 → (e.interpreted dyn r m).1 = e.value (operand1 dyn r m) (e.operand2 dyn r m)) ∧
    (updateFlags (e.interpreted dyn r m).2).eflags = e.final m.flags (e.flags (operand1 dyn r m) (e.operand2 dyn r m)) := by
  have fits := (opWidth dyn.rexw).bits_le
  have wide : opWidth dyn.rexw ≠ .w8 := by cases dyn.rexw <;> decide
  have stored : ∀ (cell : BitVec 64) (v : BitVec (opWidth dyn.rexw).bits), low _ (setLow cell v) = v := fun cell v =>
    low_setLow fits cell v
  cases e with
  | add32 =>
    refine ⟨fun _ => ?_, add_eflags _ _ _ _⟩
    show low _ (setLow _ (_ + _)) = _
    rw [low_setLow_of_le (opWidth dyn.rexw).le_sum (opWidth dyn.rexw).sum.bits_le, value, addc_false]
    exact setWidth_sum (opWidth dyn.rexw).le_sum _ _
  | sub32 =>
    refine ⟨fun _ => (stored _ _).trans (subb_false _ _).symm, ?_⟩
    exact sub_flags (stored _ _) (.inl rfl) (stored _ _) ((stored _ _).trans (subb_false _ _).symm)
  | inc32 =>
    have idle : shrWorkaround (opWidth dyn.rexw) { m.emu with df := .d_none } = { m.emu with df := .d_none } :=
      if_neg fun both => DeferedFlags.noConfusion both.2
    unfold interpreted primop inc
    rw [idle]
    refine ⟨fun _ => (stored _ _).trans (addc_false _ _).symm, ?_⟩
    exact inc_flags (stored _ _) rfl wide ((stored _ _).trans (addc_false _ _).symm)
  | dec32 =>
    refine ⟨fun _ => (stored _ _).trans (subb_false _ _).symm, ?_⟩
    exact dec_flags (stored _ _) rfl ((stored _ _).trans (subb_false _ _).symm)
  | neg32 =>
    have minus : ∀ v : BitVec (opWidth dyn.rexw).bits, -v = subb 0 v false := fun v =>
      (BitVec.zero_sub v).symm.trans (subb_false 0 v).symm
    refine ⟨fun _ => (stored _ _).trans (minus _), ?_⟩
    exact neg_flags (stored _ _) rfl ((stored _ _).trans (minus _))
  | cmp32 =>
    refine ⟨fun ne => absurd rfl ne, ?_⟩
    show setChain (setZSP _ (_ - _)) (borrowChain _ _ (_ - _)) = _
    rw [← subb_false]
    rfl

/-! ### The code -/

/-- What is left in `op2`: where there is one operand it is not written. -/
def stored2 : BitVec (opWidth dyn.rexw).bits :=
  match e with
  | inc32 | dec32 | neg32 => low _ (m.fields .op2)
  | _ => low _ (m.regs r.s2)

theorem ADDS_or_ADD (b sf : Bool) (rd rn rm : Reg) :
    (if b then ADDS_REG sf rd rn rm else ADD_REG sf rd rn rm) = .alu .ADD b sf rd rn (.reg rm) := by
  cases b <;> rfl

theorem SUBS_or_SUB (b sf : Bool) (rd rn rm : Reg) :
    (if b then SUBS_REG sf rd rn rm else SUB_REG sf rd rn rm) = .alu .SUB b sf rd rn (.reg rm) := by
  cases b <;> rfl

theorem ADDS_or_ADD_one (b sf : Bool) (rd rn : Reg) :
    (if b then ADDS_U12 sf rd rn 1 else ADD_U12 sf rd rn 1) = .alu .ADD b sf rd rn (.imm 1) := by
  cases b <;> rfl

theorem SUBS_or_SUB_one (b sf : Bool) (rd rn : Reg) :
    (if b then SUBS_imm sf rd rn 1 else SUB_imm sf rd rn 1) = .alu .SUB b sf rd rn (.imm 1) := by
  cases b <;> rfl

theorem NEGS_or_NEG (b sf : Bool) (rd rm : Reg) :
    (if b then NEGS_REG sf rd rm else NEG_REG sf rd rm) = .alu .SUB b sf rd xZR (.reg rm) := by
  cases b <;> rfl

theorem low_one (rexw : Bool) : low (opWidth rexw).bits 1 = 1 := by
  cases rexw <;> rfl

theorem needs_all {A : BitVec 8} (within : X_ALL = A ||| X_ALL) (needed : dyn.needs A = true) : dyn.needs X_ALL = true := by
  rw [within, dyn.needs_or, needed, Bool.true_or]

theorem sets_all (either : dyn.needs X_ZF = true ∨ dyn.needs X_OF = true) : dyn.needs X_ALL = true :=
  either.elim (needs_all dyn (by decide)) (needs_all dyn (by decide))

theorem sets_either (either : dyn.needs X_ZF = true ∨ dyn.needs X_OF = true) : dyn.needs (X_ZF ||| X_OF) = true := by
  rw [dyn.needs_or, Bool.or_eq_true]
  exact either

theorem leaves : dyn.Outcome [e.destination r, r.s3, r.s4] (e.pends dyn) (e.settles dyn) (e.operation dyn.rexw) (operand1 dyn r m)
    (e.stored2 dyn r m) (e.value (operand1 dyn r m) (e.operand2 dyn r m)) e.puts (e.flags (operand1 dyn r m) (e.operand2 dyn r m))
    (fun regs _ => regs (e.destination r) = (e.value (operand1 dyn r m) (e.operand2 dyn r m)).setWidth 64) m
    (exec host (e.code host dyn r) m) := by
  obtain ⟨s1, s2, s3, s4, s5, apart, apart5, u2, ne23, ne24⟩ := r
  have le : (opWidth dyn.rexw).bits ≤ opSize dyn.rexw := le_rfl
  have in3 : s3 ∈ [s3, s4] := by simp
  have in4 : s4 ∈ [s3, s4] := by simp
  have within : ∀ d : Reg, [s3, s4] ⊆ [d, s3, s4] := fun d => List.subset_cons_self d _
  have avoids : (Operand2.reg s2).Avoids s3 s4 := ⟨u2.not_flags, ne23, ne24⟩
  have one : (Operand2.imm 1).Avoids s3 s4 := trivial
  have starts : ∀ {m' : Cpu}, Emit.Keeps [s3, s4] m m' →
      Emit.Operands (opWidth dyn.rexw) s1 (.reg s2) (low _ (m.regs s1)) (low _ (m.regs s2)) m'.regs m'.nzcv := fun keeps =>
    Emit.stable_operands apart.usable1.not_flags apart.ne13 apart.ne14 avoids m.regs _ _ keeps.regs
      ⟨if_neg apart.usable1.not_zero, if_neg u2.not_zero⟩
  have starts1 : ∀ {m' : Cpu}, Emit.Keeps [s3, s4] m m' →
      Emit.Operands (opWidth dyn.rexw) s1 (.imm 1) (low _ (m.regs s1)) 1 m'.regs m'.nzcv := fun keeps =>
    Emit.stable_operands apart.usable1.not_flags apart.ne13 apart.ne14 one m.regs _ _ keeps.regs
      ⟨if_neg apart.usable1.not_zero, low_one dyn.rexw⟩
  have two : ∀ {S : Reg} {N : DeferedFlags} (_ : Usable S) (_ : S ∈ [s3, s4]), Emit.Recorded [s3, s4] N (low _ (m.regs s1))
      (low _ (m.regs s2)) m (exec host ([.STR (opWidth dyn.rexw) s1 .op1, .STR (opWidth dyn.rexw) s2 .op2] ++ Emit.SET_DF S N) m) :=
    fun usable mem => Emit.recorded_two m apart.usable1 u2 usable mem
  have sum := addWithCarry_sum (opWidth dyn.rexw).le_bits (low _ (m.regs s1)) (low _ (m.regs s2)) false
  have diff := addWithCarry_diff (opWidth dyn.rexw).le_bits (low _ (m.regs s1)) (low _ (m.regs s2)) false
  have stores : ∀ m, Emit.StoresAt (opWidth dyn.rexw) (dyn.needs X_PEND) s1 m (exec host (dyn.pendRes s1) m) := fun m =>
    dyn.storesAt_PEND (opWidth dyn.rexw) m apart.usable1.not_zero
  cases e with
  | add32 =>
    have headed : dyn.Headed [s3, s4] _ _ (add32.operation dyn.rexw) _ _ m (exec host (dyn.pendOp s1 s2 s3 _) m) :=
      dyn.headed_ifx apart.usable3 in3 (two apart.usable3 in3) X_ALL
    have out := Emit.outcome_sum dyn.rexw true apart (by simp) (by simp) (within s1) (dyn.straight_pendOp _) dyn.closed_pendRes headed
      (starts headed.keeps) stores (sets_all dyn) Emit.union_all
      (Emit.front_sum (.reg s2) apart (by simp) (by simp) (by simp) apart.usable1 apart.ne13 apart.ne14 avoids)
      (Emit.yields_carry .cCS apart (by simp) (needs_all dyn (by decide)) sum.2.2.1)
    show dyn.Outcome _ _ _ _ _ _ _ _ _ _ m (exec host (dyn.emit_add32 host s1 s2 s3 s4) m)
    unfold Emit.emit_add32
    rw [ADDS_or_ADD]
    simp only [List.append_assoc] at out ⊢
    exact out
  | sub32 =>
    have headed : dyn.Headed [s3, s4] _ _ (sub32.operation dyn.rexw) _ _ m (exec host (dyn.pendOp s1 s2 s3 _) m) :=
      dyn.headed_ifx apart.usable3 in3 (two apart.usable3 in3) X_ALL
    have out := Emit.outcome_diff true true apart (by simp) (by simp) (within s1) (dyn.straight_pendOp _) dyn.closed_pendRes headed
      (starts headed.keeps) stores (sets_all dyn) Emit.union_all
      (Emit.front_diff (.reg s2) apart (by simp)
        (Emit.yields_borrows_sub apart (by simp) (by simp) le apart.usable1 apart.ne13 apart.ne14 avoids))
      (Emit.yields_carry .cCC apart (by simp) (needs_all dyn (by decide)) diff.2.2.1)
    show dyn.Outcome _ _ _ _ _ _ _ _ _ _ m (exec host (dyn.emit_sub32 host s1 s2 s3 s4) m)
    unfold Emit.emit_sub32
    rw [SUBS_or_SUB]
    simp only [List.append_assoc] at out ⊢
    exact out
  | inc32 =>
    have headed : dyn.Headed [s3, s4] _ _ (inc32.operation dyn.rexw) _ _ m (exec host (dyn.pendInc s1 s4 _) m) :=
      dyn.headed_ifx apart.usable4 in4 (Emit.recorded_one m apart.usable1 apart.usable4 in4) X_INC
    have out := Emit.outcome_sum dyn.rexw dyn.rexw apart (by simp) (by simp) (within s1) (dyn.straight_pendInc _ _ _) dyn.closed_pendRes
      headed (starts1 headed.keeps) stores (sets_either dyn) Emit.union_butCF
      (Emit.front_sum (.imm 1) apart (by simp) (by simp) (by simp) apart.usable1 apart.ne13 apart.ne14 one) Emit.yields_nil
    show dyn.Outcome _ _ _ _ _ _ _ _ _ _ m (exec host (dyn.emit_inc32 host s1 s3 s4) m)
    unfold Emit.emit_inc32
    rw [ADDS_or_ADD_one]
    simp only [List.append_assoc, List.nil_append] at out ⊢
    exact out
  | dec32 =>
    have headed : dyn.Headed [s3, s4] _ _ (dec32.operation dyn.rexw) _ _ m (exec host (dyn.pendInc s1 s4 _) m) :=
      dyn.headed_ifx apart.usable4 in4 (Emit.recorded_one m apart.usable1 apart.usable4 in4) X_INC
    have out := Emit.outcome_diff false dyn.rexw apart (by simp) (by simp) (within s1) (dyn.straight_pendInc _ _ _) dyn.closed_pendRes
      headed (starts1 headed.keeps) stores (sets_either dyn) Emit.union_butCF
      (Emit.front_diff (.imm 1) apart (by simp)
        (Emit.yields_borrows_dec apart (by simp) (by simp) le apart.usable1 apart.ne13 apart.ne14)) Emit.yields_nil
    show dyn.Outcome _ _ _ _ _ _ _ _ _ _ m (exec host (dyn.emit_dec32 host s1 s3 s4) m)
    unfold Emit.emit_dec32
    rw [SUBS_or_SUB_one]
    simp only [List.append_assoc, List.nil_append] at out ⊢
    exact out
  | neg32 =>
    have headed : dyn.Headed [s3, s4] _ _ (neg32.operation dyn.rexw) _ _ m (exec host (dyn.pendOne s1 s3 _) m) :=
      dyn.headed_ifx apart.usable3 in3 (Emit.recorded_one m apart.usable1 apart.usable3 in3) X_ALL
    have out := Emit.outcome_neg apart (by simp) (by simp) (by simp) (within s1) (dyn.straight_pendOne _ _ _) dyn.closed_pendRes headed
      (by simp [apart.ne13, apart.ne14]) rfl stores (sets_either dyn)
    show dyn.Outcome _ _ _ _ _ _ _ _ _ _ m (exec host (dyn.emit_neg32 host s1 s3 s4) m)
    unfold Emit.emit_neg32
    rw [NEGS_or_NEG]
    simp only [List.append_assoc] at out ⊢
    exact out
  | cmp32 =>
    have headed : dyn.Headed [s3, s4] _ _ (cmp32.operation dyn.rexw) _ _ m (exec host (dyn.pendCmp s1 s2 s4) m) :=
      dyn.headed_PENDOR0 apart.usable4 in4 (two apart.usable4 in4)
    have straight : Straight (dyn.IFX_PENDOR0 [STRxw_U12 dyn.rexw s5 .res] []) := dyn.straight_PENDOR0 rfl rfl
    have out := Emit.outcome_diff true false apart5 (by simp) (by simp) (within s5) (dyn.straight_pendCmp s1 s2 s4) straight.closed headed
      (starts headed.keeps) (fun m => dyn.storesAt_PENDOR0 (opWidth dyn.rexw) m apart5.usable1.not_zero) (fun _ => rfl) Emit.union_all
      (Emit.front_diff (.reg s2) apart5 (by simp)
        (Emit.yields_borrows_cmp apart5 (by simp) (by simp) le apart.usable1 apart.ne13 apart.ne14 avoids))
      (Emit.yields_carry .cCC apart5 (by simp) (fun _ => rfl) diff.2.2.1)
    show dyn.Outcome _ _ _ _ _ _ _ _ _ _ m (exec host (dyn.emit_cmp32 host s1 s2 s3 s4 s5) m)
    unfold Emit.emit_cmp32
    simp only [List.append_assoc] at out ⊢
    exact out

/-- The stored operation stands for the flags of the primitive. -/
theorem pending_flags {emu : X64Emu} (df : emu.df = e.operation dyn.rexw) (op1 : low _ emu.op1 = operand1 dyn r m)
    (op2 : low _ emu.op2 = e.stored2 dyn r m) (res : low _ emu.res = e.value (operand1 dyn r m) (e.operand2 dyn r m)) :
    (updateFlags emu).eflags = e.final emu.eflags (e.flags (operand1 dyn r m) (e.operand2 dyn r m)) := by
  have wide : opWidth dyn.rexw ≠ .w8 := by cases dyn.rexw <;> decide
  cases e with
  | add32 => exact add_flags dyn.rexw df op1 op2 res
  | sub32 => exact sub_flags op1 (.inl df) op2 res
  | inc32 => exact inc_flags op1 df wide res
  | dec32 => exact dec_flags op1 df res
  | neg32 => exact neg_flags op1 df res
  | cmp32 => exact sub_flags op1 (.inr df) op2 res

/-- The flags asked for are those of the primitive. -/
theorem asked_updated (f T : X64Flags) : (only dyn.needs (e.final f T).toEager).Agrees (dyn.updated e.puts T f) := by
  cases e <;> constructor <;> unfold only X64Flags.toEager Emit.updated puts final Flag.butCF Flag.all <;> dsimp only <;> split <;>
    simp_all

theorem final_updated (f T : X64Flags) : e.final (dyn.updated e.puts T f) T = e.final f T := by
  cases e <;> rfl

end Agreement

/-- An emitter agrees with the interpreter: in the result, in every flag asked for, and in every flag of the operation it leaves
pending. -/
theorem arithmetic_agrees (host : Host) (dyn : Emit) (e : MathEmitter) (r : MathRegisters) (m : Cpu) : e.Agrees host dyn r m := by
  obtain ⟨flags, regs, holds, pending, none⟩ := leaves host dyn e r m
  obtain ⟨value, eflags⟩ := interpreted_eq dyn e r m
  refine ⟨?_, ?_, ?_, none, ?_⟩
  · intro ne
    rw [value ne]
    cases e with
    | cmp32 => exact absurd rfl ne
    | add32 | sub32 | inc32 | dec32 | neg32 => exact holds
  · rw [eflags, flags]
    exact asked_updated dyn e m.flags _
  · intro is
    obtain ⟨df, op1, op2, res⟩ := pending is
    rw [pending_flags dyn e r m df op1 op2 res, eflags]
    show e.final (exec host (e.code host dyn r) m).flags _ = _
    rw [flags, final_updated]
  · intro q ne out out3 out4
    exact regs q ne (by simp [out, out3, out4])

end MathEmitter

end Box64.Arm64
