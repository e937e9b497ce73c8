import Box64.Emu.MemOperand
import Box64.Lib.RepeatScan

/-!
# String instructions

The cases `0xA4` to `0xA7` and `0xAA` to `0xAF` of `Run`, with and without a `REP` prefix, and what they should be: the
single instruction as often as `RCX` says.
-/

namespace Box64.Emu

open BitVec RepeatScan

def _RSI : Fin 16 := 6
def _RDI : Fin 16 := 7

/-- `rep`: no prefix, `F2` or `F3`. -/
inductive Rep
  | none
  | repne
  | repe
  deriving DecidableEq

/-- The registers and flags, the direction flag, and the memory. -/
structure StringState where
  emu : X64Emu
  DF : Bool
  mem : Memory

namespace StringState

variable (s : StringState)

def reg (r : Fin 16) : BitVec 64 := s.emu.regs r

def put (r : Fin 16) (v : BitVec 64) : StringState :=
  { s with emu := { s.emu with regs := Function.update s.emu.regs r v } }

/-- `R_RDI += tmp8s` -/
def add (r : Fin 16) (tmp8s : BitVec 8) : StringState := s.put r (s.reg r + tmp8s.signExtend 64)

/-- `R_EDI += tmp8s` -/
def addLow (r : Fin 16) (tmp8s : BitVec 8) : StringState :=
  s.put r (setLow (s.reg r) (low 32 (s.reg r) + tmp8s.signExtend 32))

def read (w : Width) (r : Fin 16) : BitVec w.bits := s.mem.load w.bits (s.reg r)

def write {n : Nat} (r : Fin 16) (v : BitVec n) : StringState := { s with mem := s.mem.store (s.reg r) v }

/-- `R_AL`, `R_EAX` or `R_RAX`. -/
def acc (w : Width) : BitVec w.bits := low w.bits (s.reg _RAX)

/-- `R_AL = v`, or `R_RAX = v` for the wider ones. -/
def setAcc : (w : Width) → BitVec w.bits → StringState
  | .w8, v => s.put _RAX (setLow (s.reg _RAX) v)
  | w, v => s.put _RAX (v.setWidth 64)

/-- `cmp8` to `cmp64` on the state. -/
def compare (w : Width) (t : BitVec w.bits × BitVec w.bits) : StringState := { s with emu := (cmp w s.emu t.1 t.2).2 }

end StringState

open StringState

/-! ### The cases of `Run` -/

section Run

variable (rep : Rep) (w : Width) (s : StringState)

/-- `ACCESS_FLAG(F_DF)?-1:+1`, times the width. -/
def tmp8s : BitVec 8 := if s.DF then -BitVec.ofNat 8 (w.bits / 8) else BitVec.ofNat 8 (w.bits / 8)

/-- `tmp64u = (rep)?R_RCX:1L`, `while(tmp64u)`, and `if(rep) R_RCX = tmp64u`. -/
def whileLeft (body : StringState → StringState) : StringState :=
  let tmp64u := if rep ≠ .none then s.reg _RCX else 1
  let s := body^[tmp64u.toNat] s
  if rep ≠ .none then s.put _RCX 0 else s

def movs : StringState :=
  let tmp8s := tmp8s w s
  whileLeft rep s fun s => ((s.write _RDI (s.read w _RSI)).add _RDI tmp8s).add _RSI tmp8s

def stos : StringState :=
  let tmp8s := tmp8s w s
  whileLeft rep s fun s => (s.write _RDI (s.acc w)).add _RDI tmp8s

def lods : StringState :=
  let tmp8s := tmp8s w s
  whileLeft rep s fun s => (s.setAcc w (s.read w _RSI)).add _RSI tmp8s

/-- What leaves the loop of a comparison. -/
def leaves (t : BitVec w.bits × BitVec w.bits) : Bool :=
  match rep with
  | .none => false
  | .repne => t.1 == t.2
  | .repe => t.1 != t.2

/-- The loop of a comparison, the comparison behind it (`tmp` is set there) and the new `RCX`. -/
def scanLeft (fetch : StringState → BitVec w.bits × BitVec w.bits) (advance : StringState → StringState) : StringState :=
  let (tmp64u, tmp, t) := scan fetch advance (leaves rep w) (s.reg _RCX).toNat (0, 0) s
  let t := if t.reg _RCX ≠ 0 then t.compare w tmp else t
  t.put _RCX (BitVec.ofNat 64 tmp64u)

/-- The operands of `cmp` in `CMPS`. -/
def cmpsOperands : BitVec w.bits × BitVec w.bits := (s.read w _RSI, s.read w _RDI)

/-- The operands of `cmp` in `SCAS`. -/
def scasOperands : BitVec w.bits × BitVec w.bits := (s.acc w, s.read w _RDI)

def cmps : StringState :=
  let tmp8s := tmp8s w s
  match rep with
  | .none => ((s.add _RDI tmp8s).add _RSI tmp8s).compare w (cmpsOperands w s)
  | _ => scanLeft rep w s (cmpsOperands w) fun s => (s.add _RDI tmp8s).add _RSI tmp8s

def scas : StringState :=
  let tmp8s := tmp8s w s
  match rep with
  | .none => (s.compare w (scasOperands w s)).add _RDI tmp8s
  | _ => scanLeft rep w s (scasOperands w) fun s => s.add _RDI tmp8s

/-- `SCASB`, whose loop for `F3` adds to `EDI`. -/
def scasb : StringState :=
  let tmp8s := tmp8s .w8 s
  match rep with
  | .repe => scanLeft .repe .w8 s (scasOperands .w8) fun s => s.addLow _RDI tmp8s
  | _ => scas rep .w8 s

end Run

inductive StringOpcode
  | xA4 | xA5 | xA6 | xA7 | xAA | xAB | xAC | xAD | xAE | xAF
  deriving DecidableEq

/-- `rex.w` -/
def rexWidth (w : Bool) : Width := if w then .w64 else .w32

def runString (opcode : StringOpcode) (rep : Rep) (w : Bool) (s : StringState) : StringState :=
  match opcode with
  | .xA4 => movs rep .w8 s
  | .xA5 => movs rep (rexWidth w) s
  | .xA6 => cmps rep .w8 s
  | .xA7 => cmps rep (rexWidth w) s
  | .xAA => stos rep .w8 s
  | .xAB => stos rep (rexWidth w) s
  | .xAC => lods rep .w8 s
  | .xAD => lods rep (rexWidth w) s
  | .xAE => scasb rep s
  | .xAF => scas rep (rexWidth w) s

/-! ### The single instructions -/

inductive StringOp
  | movs
  | cmps
  | stos
  | lods
  | scas
  deriving DecidableEq

/-- The pointer moves by the width of the operand, down if the direction flag is set. -/
def StringState.move (s : StringState) (w : Width) (r : Fin 16) : StringState :=
  s.put r (if s.DF then s.reg r - BitVec.ofNat 64 (w.bits / 8) else s.reg r + BitVec.ofNat 64 (w.bits / 8))

/-- One instruction without a prefix. -/
def single (op : StringOp) (w : Width) (s : StringState) : StringState :=
  match op with
  | .movs => ((s.write _RDI (s.read w _RSI)).move w _RDI).move w _RSI
  | .cmps => ((s.compare w (s.read w _RSI, s.read w _RDI)).move w _RDI).move w _RSI
  | .stos => (s.write _RDI (s.acc w)).move w _RDI
  | .lods => (s.setAcc w (s.read w _RSI)).move w _RSI
  | .scas => (s.compare w (s.acc w, s.read w _RDI)).move w _RDI

def countDown (s : StringState) : StringState := s.put _RCX (s.reg _RCX - 1)

/-- `REPNE` ends a comparison on equality, `REPE` on inequality, as the zero flag says. -/
def endsEarly (op : StringOp) (rep : Rep) (s : StringState) : Bool :=
  (op = .cmps || op = .scas) && (rep = .repne && s.emu.eflags.ZF || rep = .repe && !s.emu.eflags.ZF)

def iterated (op : StringOp) (rep : Rep) (w : Width) : Nat → StringState → StringState
  | 0, s => s
  | n + 1, s =>
    let s := countDown (single op w s)
    if endsEarly op rep s then s else iterated op rep w n s

def stringInsn (op : StringOp) (rep : Rep) (w : Width) (s : StringState) : StringState :=
  if rep = .none then single op w s else iterated op rep w (s.reg _RCX).toNat s

/-- The instruction of an opcode. -/
def StringOpcode.op : StringOpcode → StringOp
  | .xA4 | .xA5 => .movs
  | .xA6 | .xA7 => .cmps
  | .xAA | .xAB => .stos
  | .xAC | .xAD => .lods
  | .xAE | .xAF => .scas

def StringOpcode.width (w : Bool) : StringOpcode → Width
  | .xA4 | .xA6 | .xAA | .xAC | .xAE => .w8
  | .xA5 | .xA7 | .xAB | .xAD | .xAF => rexWidth w

/-! ### Loops without an early end -/

section Moves

variable {s : StringState} {rep : Rep} {w : Width}

theorem add_tmp8s (t : StringState) (same : t.DF = s.DF) (r : Fin 16) : t.add r (tmp8s w s) = t.move w r := by
  have down : (-BitVec.ofNat 8 (w.bits / 8)).signExtend 64 = -BitVec.ofNat 64 (w.bits / 8) := by
    cases w <;> decide
  have up : (BitVec.ofNat 8 (w.bits / 8)).signExtend 64 = BitVec.ofNat 64 (w.bits / 8) := by
    cases w <;> decide
  rw [StringState.add, StringState.move, tmp8s, same]
  split
  · rw [down, BitVec.sub_eq_add_neg]
  · rw [up]

/-! The count is apart from what an instruction does. -/

section Count

variable (s : StringState) {r : Fin 16} (v : BitVec 64)

theorem reg_put : (s.put r v).reg r = v := by
  simp [StringState.reg, put]

theorem reg_put_of_ne {r r' : Fin 16} (ne : r' ≠ r) : (s.put r v).reg r' = s.reg r' := by
  simp [StringState.reg, put, ne]

theorem put_put (u : BitVec 64) : (s.put r u).put r v = s.put r v := by
  simp only [put, Function.update_idem]

theorem put_comm {r r' : Fin 16} (ne : r ≠ r') (u : BitVec 64) : (s.put r u).put r' v = (s.put r' v).put r u := by
  simp only [put, Function.update_comm ne]

theorem put_reg : s.put r (s.reg r) = s := by
  simp only [put, StringState.reg, Function.update_eq_self]

theorem read_put {r : Fin 16} (ne : r ≠ _RCX) : (s.put _RCX v).read w r = s.read w r := by
  rw [StringState.read, reg_put_of_ne s v ne]
  rfl

theorem acc_put : (s.put _RCX v).acc w = s.acc w := by
  rw [acc, reg_put_of_ne s v (by decide)]
  rfl

theorem write_put {n : Nat} {r : Fin 16} (ne : r ≠ _RCX) (x : BitVec n) :
    (s.put _RCX v).write r x = (s.write r x).put _RCX v := by
  rw [StringState.write, reg_put_of_ne s v ne]
  rfl

theorem setAcc_put (x : BitVec w.bits) : (s.put _RCX v).setAcc w x = (s.setAcc w x).put _RCX v := by
  cases w
  case w8 =>
    rw [setAcc, reg_put_of_ne s v (by decide)]
    exact put_comm s _ (by decide) v
  all_goals exact put_comm s _ (by decide) v

theorem move_put {r : Fin 16} (ne : r ≠ _RCX) : (s.put _RCX v).move w r = (s.move w r).put _RCX v := by
  rw [StringState.move, reg_put_of_ne s v ne]
  exact put_comm s _ ne.symm v

theorem compare_put (t : BitVec w.bits × BitVec w.bits) : (s.put r v).compare w t = (s.compare w t).put r v := rfl

theorem single_put (op : StringOp) : single op w (s.put _RCX v) = (single op w s).put _RCX v := by
  have rdi : _RDI ≠ _RCX := by decide
  have rsi : _RSI ≠ _RCX := by decide
  cases op <;>
    simp only [single, read_put _ _ rdi, read_put _ _ rsi, acc_put, write_put _ _ rdi, setAcc_put, compare_put, move_put _ _ rdi,
      move_put _ _ rsi]

theorem reg_single (op : StringOp) : (single op w s).reg _RCX = s.reg _RCX := by
  have same := single_put (w := w) s (s.reg _RCX) op
  rw [put_reg] at same
  rw [same, reg_put]

end Count

theorem countDown_iterate (n : Nat) (s : StringState) : countDown^[n] s = s.put _RCX (s.reg _RCX - BitVec.ofNat 64 n) := by
  induction n generalizing s with
  | zero =>
    have zero : s.reg _RCX - BitVec.ofNat 64 0 = s.reg _RCX := BitVec.sub_zero _
    rw [zero, put_reg]
    rfl
  | succ n ih =>
    rw [Function.iterate_succ_apply, ih, countDown, reg_put, put_put, BitVec.ofNat_add, add_comm, ← sub_sub]
    rfl

theorem iterated_eq {op : StringOp} (goes : ∀ t, endsEarly op rep t = false) (n : Nat) :
    iterated op rep w n s = countDown^[n] ((single op w)^[n] s) := by
  induction n generalizing s with
  | zero => rfl
  | succ n ih =>
    have commutes : Function.Commute (single op w) countDown := fun t => by
      rw [countDown, single_put, countDown, reg_single]
    rw [iterated, goes, if_neg Bool.false_ne_true, ih, Function.iterate_succ_apply, Function.iterate_succ_apply,
      (commutes.iterate_left n)]

theorem reg_iterate (op : StringOp) (n : Nat) : ((single op w)^[n] s).reg _RCX = s.reg _RCX := by
  induction n generalizing s with
  | zero => rfl
  | succ n ih => rw [Function.iterate_succ_apply, ih, reg_single]

theorem single_DF (op : StringOp) : (single op w s).DF = s.DF := by
  cases op <;> cases w <;> rfl

theorem iterate_body {op : StringOp} {body : StringState → StringState}
    (body_eq : ∀ t, t.DF = s.DF → body t = single op w t) (n : Nat) : body^[n] s = (single op w)^[n] s := by
  induction n generalizing s with
  | zero => rfl
  | succ n ih =>
    rw [Function.iterate_succ_apply, Function.iterate_succ_apply, body_eq s rfl]
    exact ih fun t same => body_eq t (same.trans (single_DF op))

theorem whileLeft_eq {op : StringOp} {body : StringState → StringState}
    (goes : ∀ t, endsEarly op rep t = false) (body_eq : ∀ t, t.DF = s.DF → body t = single op w t) :
    whileLeft rep s body = stringInsn op rep w s := by
  simp only [whileLeft, stringInsn]
  by_cases unprefixed : rep = .none
  · rw [if_pos unprefixed, if_neg (not_not.mpr unprefixed), if_neg (not_not.mpr unprefixed)]
    exact body_eq s rfl
  · rw [if_neg unprefixed, if_pos unprefixed, if_pos unprefixed, iterated_eq goes, countDown_iterate, reg_iterate,
      iterate_body body_eq, BitVec.ofNat_toNat, BitVec.setWidth_eq, BitVec.sub_self]
    rfl

theorem movs_eq : movs rep w s = stringInsn .movs rep w s := by
  refine whileLeft_eq (fun t => rfl) fun t same => ?_
  rw [add_tmp8s _ (by exact same), add_tmp8s _ (by exact same)]
  rfl

theorem stos_eq : stos rep w s = stringInsn .stos rep w s := by
  refine whileLeft_eq (fun t => rfl) fun t same => ?_
  rw [add_tmp8s _ (by exact same)]
  rfl

theorem lods_eq : lods rep w s = stringInsn .lods rep w s := by
  refine whileLeft_eq (fun t => rfl) fun t same => ?_
  have kept (x : BitVec w.bits) : (t.setAcc w x).DF = s.DF := by
    rw [← same]
    cases w <;> rfl
  rw [add_tmp8s _ (kept _)]
  rfl

end Moves

/-! ### Comparisons -/

section Comparisons

variable {s : StringState} {rep : Rep} {w : Width}

/-- The comparison of a round, and the count. -/
abbrev Compares (w : Width) (fetch : StringState → BitVec w.bits × BitVec w.bits) (advance : StringState → StringState) :
    Prop := Independent fetch advance (fun t s => s.compare w t) countDown

theorem scanLeft_eq {fetch : StringState → BitVec w.bits × BitVec w.bits} {advance : StringState → StringState}
    (apart : Compares w fetch advance) (kept : ∀ t, (advance t).reg _RCX = t.reg _RCX) :
    scanLeft rep w s fetch advance =
      rounds fetch advance (leaves rep w) (fun t s => s.compare w t) countDown (s.reg _RCX).toNat s := by
  have kept (k : Nat) : (advance^[k] s).reg _RCX = s.reg _RCX := by
    induction k with
    | zero => rfl
    | succ k ih => rw [Function.iterate_succ_apply', kept, ih]
  have le := @taken_le _ _ fetch advance (leaves rep w) (s.reg _RCX).toNat s
  rw [scanLeft, scan_eq, rounds_eq apart, countDown_iterate]
  dsimp only
  rw [kept]
  by_cases zero : s.reg _RCX = 0
  · have none : (s.reg _RCX).toNat = 0 := congrArg BitVec.toNat zero
    rw [none] at le ⊢
    rw [Nat.le_zero.mp le, if_neg (not_not.mpr zero), if_pos rfl, zero]
    rfl
  · have some : (s.reg _RCX).toNat ≠ 0 := fun none => zero (BitVec.eq_of_toNat_eq none)
    have left : BitVec.ofNat 64 ((s.reg _RCX).toNat - taken fetch advance (leaves rep w) (s.reg _RCX).toNat s) =
        s.reg _RCX - BitVec.ofNat 64 (taken fetch advance (leaves rep w) (s.reg _RCX).toNat s) := by
      have lt := (s.reg _RCX).isLt
      apply BitVec.eq_of_toNat_eq
      rw [BitVec.toNat_sub, BitVec.toNat_ofNat, BitVec.toNat_ofNat]
      omega
    rw [if_pos zero, if_neg some, if_neg some, left]
    congr 1
    exact congrArg (· - _) (kept _).symm

theorem ZF_compare (t : BitVec w.bits × BitVec w.bits) : (s.compare w t).emu.eflags.ZF = (t.1 == t.2) := by
  change (t.1 - t.2 == 0) = (t.1 == t.2)
  rw [Bool.eq_iff_iff, beq_iff_eq, beq_iff_eq]
  exact sub_eq_zero

theorem endsEarly_compare {op : StringOp} (compares : op = .cmps ∨ op = .scas) {t : BitVec w.bits × BitVec w.bits}
    {s' : StringState} (flags : s'.emu.eflags = (s.compare w t).emu.eflags) : endsEarly op rep s' = leaves rep w t := by
  have is_compare : (decide (op = .cmps) || decide (op = .scas)) = true := by
    obtain rfl | rfl := compares <;> rfl
  rw [endsEarly, is_compare, flags, ZF_compare]
  cases rep <;> simp [leaves, bne]

def cmpsAdvance (w : Width) (s : StringState) : StringState := (s.move w _RDI).move w _RSI

def scasAdvance (w : Width) (s : StringState) : StringState := s.move w _RDI

theorem cmpsAdvance_put (s : StringState) (v : BitVec 64) : cmpsAdvance w (s.put _RCX v) = (cmpsAdvance w s).put _RCX v := by
  rw [cmpsAdvance, move_put s v (by decide), move_put _ v (by decide)]
  rfl

theorem scasAdvance_put (s : StringState) (v : BitVec 64) : scasAdvance w (s.put _RCX v) = (scasAdvance w s).put _RCX v :=
  move_put s v (by decide)

theorem kept_of_put {f : StringState → StringState} (off : ∀ s v, f (s.put _RCX v) = (f s).put _RCX v) (s : StringState) :
    (f s).reg _RCX = s.reg _RCX := by
  have same := off s (s.reg _RCX)
  rw [put_reg] at same
  rw [same, reg_put]

theorem scasOperands_put (s : StringState) (v : BitVec 64) : scasOperands w (s.put _RCX v) = scasOperands w s := by
  rw [scasOperands, acc_put, read_put s v (by decide)]
  rfl

theorem cmps_compares : Compares w (cmpsOperands w) (cmpsAdvance w) where
  fetch_note _ _ := rfl
  fetch_tick s := by
    rw [countDown, cmpsOperands, read_put _ _ (by decide), read_put _ _ (by decide)]
    rfl
  advance_note _ _ := rfl
  advance_tick s := by rw [countDown, cmpsAdvance_put, countDown, kept_of_put cmpsAdvance_put]
  note_note _ _ _ := rfl
  note_tick _ _ := rfl

theorem scas_compares {advance : StringState → StringState} (off : ∀ s v, advance (s.put _RCX v) = (advance s).put _RCX v)
    (note : ∀ t s, advance (s.compare w t) = (advance s).compare w t) : Compares w (scasOperands w) advance where
  fetch_note _ _ := rfl
  fetch_tick s := scasOperands_put s _
  advance_note := note
  advance_tick s := by rw [countDown, off, countDown, kept_of_put off]
  note_note _ _ _ := rfl
  note_tick _ _ := rfl

theorem iterated_cmps (n : Nat) : iterated .cmps rep w n s =
    rounds (cmpsOperands w) (cmpsAdvance w) (leaves rep w) (fun t s => s.compare w t) countDown n s := by
  induction n generalizing s with
  | zero => rfl
  | succ n ih =>
    have ends : endsEarly .cmps rep (countDown (single .cmps w s)) = leaves rep w (cmpsOperands w s) :=
      endsEarly_compare (s := s) (Or.inl rfl) rfl
    rw [iterated, rounds, ends, ih]
    rfl

theorem iterated_scas (n : Nat) : iterated .scas rep w n s =
    rounds (scasOperands w) (scasAdvance w) (leaves rep w) (fun t s => s.compare w t) countDown n s := by
  induction n generalizing s with
  | zero => rfl
  | succ n ih =>
    have ends : endsEarly .scas rep (countDown (single .scas w s)) = leaves rep w (scasOperands w s) :=
      endsEarly_compare (s := s) (Or.inr rfl) rfl
    rw [iterated, rounds, ends, ih]
    rfl

theorem cmps_eq : cmps rep w s = stringInsn .cmps rep w s := by
  have advances (t : StringState) (same : t.DF = s.DF) : (t.add _RDI (tmp8s w s)).add _RSI (tmp8s w s) = cmpsAdvance w t := by
    rw [add_tmp8s t same, add_tmp8s _ (by exact same)]
    rfl
  have prefixed (loops : rep ≠ .none) : scanLeft rep w s (cmpsOperands w) (fun t => (t.add _RDI (tmp8s w s)).add _RSI (tmp8s w s)) =
      stringInsn .cmps rep w s := by
    rw [stringInsn, if_neg loops, iterated_cmps, ← scanLeft_eq cmps_compares (kept_of_put cmpsAdvance_put), scanLeft, scanLeft,
      scan_congr advances (fun t same => same) rfl]
  cases rep with
  | none =>
    dsimp only [cmps]
    rw [advances s rfl]
    rfl
  | repne => exact prefixed (by decide)
  | repe => exact prefixed (by decide)

theorem scas_eq : scas rep w s = stringInsn .scas rep w s := by
  have advances (t : StringState) (same : t.DF = s.DF) : t.add _RDI (tmp8s w s) = scasAdvance w t := add_tmp8s t same _
  have compares : Compares w (scasOperands w) (scasAdvance w) := scas_compares scasAdvance_put fun _ _ => rfl
  have prefixed (loops : rep ≠ .none) : scanLeft rep w s (scasOperands w) (fun t => t.add _RDI (tmp8s w s)) =
      stringInsn .scas rep w s := by
    rw [stringInsn, if_neg loops, iterated_scas, ← scanLeft_eq compares (kept_of_put scasAdvance_put), scanLeft, scanLeft,
      scan_congr advances (fun t same => same) rfl]
  cases rep with
  | none =>
    exact advances (s.compare w (scasOperands w s)) rfl
  | repne => exact prefixed (by decide)
  | repe => exact prefixed (by decide)

end Comparisons

/-! ### `REPE SCASB` -/

section Scasb

variable (s : StringState)

/-- `k` bytes on from `RDI`. -/
def pointer (k : Nat) : BitVec 64 := if s.DF then s.reg _RDI - BitVec.ofNat 64 k else s.reg _RDI + BitVec.ofNat 64 k

def StringState.byteAt (a : BitVec 64) : BitVec Width.w8.bits := s.mem a

/-- How many bytes the instruction compares. -/
def compared : Nat := taken (scasOperands .w8) (scasAdvance .w8) (leaves .repe .w8) (s.reg _RCX).toNat s

/-- The 4 GiB that an address lies in. -/
def block (a : BitVec 64) : BitVec 64 := a >>> 32

/-- The pointer ends in the 4 GiB where it started; if it went round the address space on the way, there is nothing but
`AL` in them and in the byte compared last. -/
def StaysInBlock : Prop :=
  block (pointer s (compared s)) = block (s.reg _RDI) ∧
    (2 ^ 32 ≤ compared s → s.byteAt (pointer s (compared s - 1)) = s.acc .w8 ∧
      ∀ a, block a = block (s.reg _RDI) → s.byteAt a = s.acc .w8)

variable {s : StringState}

/-- The pointer whose low half alone moves. -/
def lowPointer (s : StringState) (k : Nat) : BitVec 64 := setLow (s.reg _RDI) (low 32 (pointer s k))

theorem low_setLow_32 (x : BitVec 64) (v : BitVec 32) : low 32 (setLow x v) = v := low_setLow (by decide) x v

theorem block_setLow (x : BitVec 64) (v : BitVec 32) : block (setLow x v) = block x := by
  ext i lt
  have below : x.getLsbD (32 + i) = true → 32 + i < 64 := BitVec.lt_of_getLsbD
  simpa [block, setLow] using below

theorem toNat_block (a : BitVec 64) : (block a).toNat = a.toNat / 2 ^ 32 := by
  rw [block, BitVec.toNat_ushiftRight, Nat.shiftRight_eq_div_pow]

theorem eq_of_halves {x y : BitVec 64} (upper : block x = block y) (lower : low 32 x = low 32 y) : x = y := by
  have upper := congrArg BitVec.toNat upper
  have lower := congrArg BitVec.toNat lower
  rw [toNat_block, toNat_block] at upper
  rw [low, low, BitVec.toNat_setWidth, BitVec.toNat_setWidth] at lower
  apply BitVec.eq_of_toNat_eq
  omega

theorem lowPointer_eq_iff {k : Nat} : lowPointer s k = pointer s k ↔ block (pointer s k) = block (s.reg _RDI) := by
  constructor
  · intro same
    rw [← same, lowPointer, block_setLow]
  · intro same
    refine eq_of_halves ?_ (low_setLow_32 _ _)
    rw [lowPointer, block_setLow, same]

theorem pointer_add_one (k : Nat) : pointer s (k + 1) = pointer s k + (tmp8s .w8 s).signExtend 64 := by
  have down : (-BitVec.ofNat 8 (Width.w8.bits / 8)).signExtend 64 = -BitVec.ofNat 64 1 := by decide
  have up : (BitVec.ofNat 8 (Width.w8.bits / 8)).signExtend 64 = BitVec.ofNat 64 1 := by decide
  rw [pointer, pointer, tmp8s, BitVec.ofNat_add]
  split
  · rw [down, ← sub_eq_add_neg, sub_sub]
  · rw [up, add_assoc]

theorem low_pointer_add_one (k : Nat) :
    low 32 (pointer s (k + 1)) = low 32 (pointer s k) + (tmp8s .w8 s).signExtend 32 := by
  have step : ((tmp8s .w8 s).signExtend 64).setWidth 32 = (tmp8s .w8 s).signExtend 32 := by
    rw [tmp8s]
    split <;> decide
  rw [low, pointer_add_one, BitVec.setWidth_add _ _ (by decide), step]
  rfl

theorem pointer_zero : pointer s 0 = s.reg _RDI := by
  simp [pointer]

theorem scasAdvance_iterate (k : Nat) : (scasAdvance .w8)^[k] s = s.put _RDI (pointer s k) := by
  induction k with
  | zero =>
    rw [pointer_zero, put_reg]
    rfl
  | succ k ih =>
    have added : (s.put _RDI (pointer s k)).add _RDI (tmp8s .w8 s) = scasAdvance .w8 (s.put _RDI (pointer s k)) :=
      add_tmp8s _ rfl _
    rw [Function.iterate_succ_apply', ih, ← added, StringState.add, reg_put, put_put, pointer_add_one]

theorem addLow_iterate (k : Nat) :
    (fun t => StringState.addLow t _RDI (tmp8s .w8 s))^[k] s = s.put _RDI (lowPointer s k) := by
  induction k with
  | zero =>
    have whole : setLow (s.reg _RDI) (low 32 (s.reg _RDI)) = s.reg _RDI :=
      eq_of_halves (block_setLow _ _) (low_setLow_32 _ _)
    rw [lowPointer, pointer_zero, whole, put_reg]
    rfl
  | succ k ih =>
    rw [Function.iterate_succ_apply', ih, StringState.addLow, reg_put, put_put, lowPointer, low_setLow_32, setLow_setLow,
      lowPointer, low_pointer_add_one]

theorem operands_at (a : BitVec 64) : scasOperands .w8 (s.put _RDI a) = (s.acc .w8, s.byteAt a) := by
  have byte : s.mem.load Width.w8.bits a = s.byteAt a := by
    apply BitVec.eq_of_getLsbD_eq
    intro i (lt : i < 8)
    have here : Memory.byteOf a i = a := by
      rw [Memory.byteOf, Nat.div_eq_of_lt lt]
      exact add_zero a
    have bit := Memory.getLsbD_load s.mem a lt
    rw [here, Nat.mod_eq_of_lt lt] at bit
    exact bit
  rw [scasOperands, StringState.read, reg_put, acc, reg_put_of_ne _ _ (by decide), ← byte]
  rfl

theorem toNat_pointer {k : Nat} (small : k < 2 ^ 64) : (pointer s k).toNat =
    (if s.DF then 2 ^ 64 - k + (s.reg _RDI).toNat else (s.reg _RDI).toNat + k) % 2 ^ 64 := by
  rw [pointer]
  split
  · rw [BitVec.toNat_sub, BitVec.toNat_ofNat, Nat.mod_eq_of_lt small]
  · rw [BitVec.toNat_add, BitVec.toNat_ofNat, Nat.mod_eq_of_lt small]

/-- On the way to a place in the same 4 GiB that is less than that far, every pointer is in them. -/
theorem block_before {k : Nat} (near : k < 2 ^ 32) (same : block (pointer s k) = block (s.reg _RDI)) {j : Nat} (le : j ≤ k) :
    block (pointer s j) = block (s.reg _RDI) := by
  have lt := (s.reg _RDI).isLt
  rw [← BitVec.toNat_inj, toNat_block, toNat_block, toNat_pointer (by omega)] at same ⊢
  split at same
  case isTrue down =>
    rw [if_pos down]
    omega
  case isFalse up =>
    rw [if_neg up]
    omega

theorem block_far : block (pointer s (2 ^ 32)) ≠ block (s.reg _RDI) := by
  have lt := (s.reg _RDI).isLt
  rw [ne_eq, ← BitVec.toNat_inj, toNat_block, toNat_block, toNat_pointer (by decide)]
  split <;> omega

/-- The low half alone reaches every address of its 4 GiB. -/
theorem lowPointer_covers {a : BitVec 64} (same : block a = block (s.reg _RDI)) : ∃ j < 2 ^ 32, lowPointer s j = a := by
  have reaches {j : Nat} (low_eq : low 32 (pointer s j) = low 32 a) : lowPointer s j = a := by
    refine eq_of_halves ?_ ?_
    · rw [lowPointer, block_setLow, same]
    · rw [lowPointer, low_setLow_32, low_eq]
  have lt := (s.reg _RDI).isLt
  have lt' := a.isLt
  by_cases down : s.DF
  · refine ⟨((s.reg _RDI).toNat + 2 ^ 32 - a.toNat % 2 ^ 32) % 2 ^ 32, Nat.mod_lt _ (by decide), reaches ?_⟩
    apply BitVec.eq_of_toNat_eq
    rw [low, low, BitVec.toNat_setWidth, BitVec.toNat_setWidth, toNat_pointer (by omega), if_pos down]
    omega
  · refine ⟨(a.toNat + 2 ^ 32 - (s.reg _RDI).toNat % 2 ^ 32) % 2 ^ 32, Nat.mod_lt _ (by decide), reaches ?_⟩
    apply BitVec.eq_of_toNat_eq
    rw [low, low, BitVec.toNat_setWidth, BitVec.toNat_setWidth, toNat_pointer (by omega), if_neg down]
    omega

theorem leaves_eq_false {t : BitVec Width.w8.bits × BitVec Width.w8.bits} : leaves .repe .w8 t = false ↔ t.1 = t.2 := by
  rw [leaves, bne_eq_false_iff_eq]

/-- The state when `k` bytes have been compared, the last at `last`, and the pointer is at `next`. -/
def scanned (s : StringState) (k : Nat) (last next : BitVec 64) : StringState :=
  countDown^[k] ((s.put _RDI next).compare .w8 (s.acc .w8, s.byteAt last))

theorem scanned_eq (s : StringState) (k : Nat) (last next : BitVec 64) : scanned s k last next =
    ((s.put _RDI next).compare .w8 (s.acc .w8, s.byteAt last)).put _RCX (s.reg _RCX - BitVec.ofNat 64 k) := by
  rw [scanned, countDown_iterate]
  have kept : (s.put _RDI next).reg _RCX = s.reg _RCX := reg_put_of_ne s next (by decide)
  exact congrArg (fun v => StringState.put _ _RCX (v - BitVec.ofNat 64 k)) kept

theorem scanned_inj {k k' : Nat} {last last' next next' : BitVec 64} (small : k < 2 ^ 64) (small' : k' < 2 ^ 64)
    (same : scanned s k last next = scanned s k' last' next') :
    k = k' ∧ next = next' ∧ (s.acc .w8 = s.byteAt last ↔ s.acc .w8 = s.byteAt last') := by
  rw [scanned_eq, scanned_eq] at same
  refine ⟨?_, ?_, ?_⟩
  · have count := congrArg (·.reg _RCX) same
    simp only [reg_put] at count
    have count := congrArg BitVec.toNat (sub_right_injective count)
    rwa [BitVec.toNat_ofNat, BitVec.toNat_ofNat, Nat.mod_eq_of_lt small, Nat.mod_eq_of_lt small'] at count
  · have pointer (k : Nat) (last next : BitVec 64) :
        (((s.put _RDI next).compare .w8 (s.acc .w8, s.byteAt last)).put _RCX (s.reg _RCX - BitVec.ofNat 64 k)).reg _RDI = next :=
      (reg_put_of_ne _ _ (by decide)).trans (reg_put s (r := _RDI) next)
    rw [← pointer k last next, same, pointer]
  · have zero : ((s.put _RDI next).compare .w8 (s.acc .w8, s.byteAt last)).emu.eflags.ZF =
        ((s.put _RDI next').compare .w8 (s.acc .w8, s.byteAt last')).emu.eflags.ZF := congrArg (·.emu.eflags.ZF) same
    rw [ZF_compare, ZF_compare, Bool.eq_iff_iff, beq_iff_eq, beq_iff_eq] at zero
    exact zero

theorem addLow_put (tmp8s : BitVec 8) (t : StringState) (v : BitVec 64) :
    (t.put _RCX v).addLow _RDI tmp8s = (t.addLow _RDI tmp8s).put _RCX v := by
  rw [StringState.addLow, reg_put_of_ne _ _ (by decide)]
  exact put_comm t _ (by decide) v

section Rounds

variable {advance : StringState → StringState} {along : Nat → BitVec 64}

theorem rounds_scas (compares : Compares .w8 (scasOperands .w8) advance) (path : ∀ k, advance^[k] s = s.put _RDI (along k))
    {n : Nat} (some : n ≠ 0) :
    rounds (scasOperands .w8) advance (leaves .repe .w8) (fun t s => s.compare .w8 t) countDown n s =
      scanned s (taken (scasOperands .w8) advance (leaves .repe .w8) n s)
        (along (taken (scasOperands .w8) advance (leaves .repe .w8) n s - 1))
        (along (taken (scasOperands .w8) advance (leaves .repe .w8) n s)) := by
  rw [rounds_eq compares, if_neg some, path, path, operands_at, scanned]

theorem ends_iff (path : ∀ k, advance^[k] s = s.put _RDI (along k)) {n k : Nat} :
    Ends (scasOperands .w8) advance (leaves .repe .w8) n s k ↔
      k ≤ n ∧ (0 < n → 0 < k) ∧ (∀ j, j + 1 < k → s.acc .w8 = s.byteAt (along j)) ∧
        (k < n → s.acc .w8 ≠ s.byteAt (along (k - 1))) := by
  have goes (j : Nat) : leaves .repe .w8 (scasOperands .w8 (advance^[j] s)) = false ↔ s.acc .w8 = s.byteAt (along j) := by
    rw [path, operands_at, leaves_eq_false]
  have stops (j : Nat) : leaves .repe .w8 (scasOperands .w8 (advance^[j] s)) = true ↔ s.acc .w8 ≠ s.byteAt (along j) := by
    rw [← Bool.not_eq_false, goes]
  constructor
  · rintro ⟨le, pos, before, last⟩
    exact ⟨le, pos, fun j lt => (goes j).mp (before j lt), fun lt => (stops _).mp (last lt)⟩
  · rintro ⟨le, pos, before, last⟩
    exact ⟨le, pos, fun j lt => (goes j).mpr (before j lt), fun lt => (stops _).mpr (last lt)⟩

end Rounds

/-- Where the pointers agree the loop of the source takes as many rounds, and where they do not it must have met nothing but
`AL` before it came back. -/
theorem repe_scasb_iff : scasb .repe s = stringInsn .scas .repe .w8 s ↔ StaysInBlock s := by
  have compares : Compares .w8 (scasOperands .w8) (scasAdvance .w8) := scas_compares scasAdvance_put fun _ _ => rfl
  have comparesLow : Compares .w8 (scasOperands .w8) fun t => t.addLow _RDI (tmp8s .w8 s) :=
    scas_compares (addLow_put _) fun _ _ => rfl
  have code : scasb .repe s = _ := @scanLeft_eq s .repe .w8 _ _ comparesLow (kept_of_put (addLow_put _))
  have insn : stringInsn .scas .repe .w8 s = _ := iterated_scas (s.reg _RCX).toNat
  have lt := (s.reg _RCX).isLt
  have ends := @taken_ends _ _ (scasOperands .w8) (scasAdvance .w8) (leaves .repe .w8) (s.reg _RCX).toNat s
  have endsLow := @taken_ends _ _ (scasOperands .w8) (fun t => t.addLow _RDI (tmp8s .w8 s)) (leaves .repe .w8)
    (s.reg _RCX).toNat s
  have unique (k : Nat) := @Ends.taken_eq _ _ (scasOperands .w8) (fun t => t.addLow _RDI (tmp8s .w8 s)) (leaves .repe .w8)
    (s.reg _RCX).toNat k s
  rw [code, insn, StaysInBlock, compared]
  generalize (s.reg _RCX).toNat = n at *
  obtain rfl | some := Nat.eq_zero_or_pos n
  · rw [taken, pointer_zero]
    exact iff_of_true rfl ⟨rfl, fun far => absurd far (by decide)⟩
  rw [rounds_scas compares scasAdvance_iterate some.ne', rounds_scas comparesLow addLow_iterate some.ne']
  rw [ends_iff scasAdvance_iterate] at ends
  rw [ends_iff addLow_iterate] at endsLow
  simp only [ends_iff addLow_iterate] at unique
  generalize taken (scasOperands .w8) (scasAdvance .w8) (leaves .repe .w8) n s = a at *
  generalize taken (scasOperands .w8) (fun t => StringState.addLow t _RDI (tmp8s .w8 s)) (leaves .repe .w8) n s = c at *
  obtain ⟨le, pos, goes, stops⟩ := ends
  obtain ⟨leLow, posLow, goesLow, stopsLow⟩ := endsLow
  have pos := pos some
  constructor
  · intro same
    obtain ⟨rfl, pointers, flags⟩ := scanned_inj (by omega) (by omega) same
    have near := lowPointer_eq_iff.mp pointers
    refine ⟨near, fun far => ?_⟩
    have all (x : BitVec 64) (inside : block x = block (s.reg _RDI)) : s.byteAt x = s.acc .w8 := by
      obtain ⟨j, small, rfl⟩ := lowPointer_covers inside
      refine (goesLow j ?_).symm
      by_contra last
      obtain rfl : c = 2 ^ 32 := by omega
      exact block_far near
    exact ⟨(flags.mp (all _ (block_setLow _ _)).symm).symm, all⟩
  · rintro ⟨near, far⟩
    obtain short | long := Nat.lt_or_ge a (2 ^ 32)
    · have agree {j : Nat} (before : j ≤ a) : lowPointer s j = pointer s j :=
        lowPointer_eq_iff.mpr (block_before short near before)
      have count : c = a := by
        refine unique a ⟨le, fun _ => pos, ?_, ?_⟩
        · intro j before
          rw [agree (by omega)]
          exact goes j before
        · rw [agree (by omega)]
          exact stops
      rw [count, agree (Nat.sub_le a 1), agree (Nat.le_refl a)]
    · obtain ⟨last, all⟩ := far long
      have full : a = n := by
        by_contra ne
        exact stops (by omega) last.symm
      have count : c = a := by
        refine unique a ⟨le, fun _ => pos, ?_, fun lt => absurd full lt.ne⟩
        exact fun j _ => (all _ (block_setLow _ _)).symm
      rw [count, scanned, scanned, lowPointer_eq_iff.mpr near, last,
        all (lowPointer s (a - 1)) (block_setLow _ _)]

end Scasb

theorem runString_eq_iff (opcode : StringOpcode) (rep : Rep) (w : Bool) (s : StringState) :
    runString opcode rep w s = stringInsn opcode.op rep (opcode.width w) s ↔
      (opcode = .xAE → rep = .repe → StaysInBlock s) := by
  by_cases byte : opcode = .xAE
  · rw [forall_prop_of_true byte]
    subst byte
    cases rep with
    | none => exact iff_of_true (@scas_eq s .none .w8) (fun wrong => by cases wrong)
    | repne => exact iff_of_true (@scas_eq s .repne .w8) (fun wrong => by cases wrong)
    | repe =>
      constructor
      · exact fun same _ => repe_scasb_iff.mp same
      · exact fun stays => repe_scasb_iff.mpr (stays rfl)
  · refine iff_of_true ?_ (fun wrong => absurd wrong byte)
    cases opcode with
    | xA4 | xA5 => exact movs_eq
    | xA6 | xA7 => exact cmps_eq
    | xAA | xAB => exact stos_eq
    | xAC | xAD => exact lods_eq
    | xAE => exact absurd rfl byte
    | xAF => exact scas_eq

/-- A scan from the last byte of the first 4 GiB comes out at 0. -/
theorem repe_scasb_wraps : ¬ ∀ opcode rep w s,
    runString opcode rep w s = stringInsn opcode.op rep (opcode.width w) s := by
  intro same
  have wrapped := congrArg (·.reg _RDI) (same .xAE .repe false
    ⟨⟨Function.update (Function.update (fun _ => 0) _RDI 0xffffffff) _RCX 1, ⟨false, false, false, false, false, false⟩,
      .d_none, 0, 0, 0⟩, false, fun _ => 0⟩)
  exact absurd wrapped (by decide)

end Box64.Emu
