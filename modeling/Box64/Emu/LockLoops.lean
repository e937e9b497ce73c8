import Box64.Emu.BitTests
import Box64.Emu.CarryFlags
import Box64.Emu.CompareExchange

/-!
# The loops of locked instructions

What each loop of `RunF0` and `Run66F0` leaves, for any number of failed attempts: most forget them, and `ADC` and `SBB`
go on with the carry of the one before.
-/

namespace Box64.Emu

open BitVec RetryLoop CarryChain

/-! ### Operations that read no carry -/

section Operations

variable {w : Width}

/-- An operation over the state another call of it left does what it does over the state before. -/
def Forgets (op : X64Emu → BitVec w.bits → BitVec w.bits × X64Emu) : Prop :=
  ∀ emu d d', op (op emu d).2 d' = op emu d'

theorem forgets_dec : Forgets (dec w) := by
  intro emu d d'
  simp only [dec, setLow_setLow]

/-- What `inc` makes of a pending shift is made by its first call. -/
theorem forgets_inc : Forgets (inc w) := by
  intro emu d d'
  have settled : shrWorkaround w (inc w emu d).2 = (inc w emu d).2 := by
    unfold shrWorkaround
    refine if_neg fun both => ?_
    exact DeferedFlags.noConfusion both.2
  unfold inc at settled ⊢
  dsimp only at settled ⊢
  rw [settled]
  simp only [setLow_setLow]

end Operations

/-! ### Operations that may read one -/

namespace BinOp

variable (op : BinOp) {w : Width} (emu : X64Emu)

/-- `ADC` and `SBB`. -/
def readsCarry : BinOp → Bool
  | adc | sbb => true
  | _ => false

/-- The carry into the operation, if it reads one. -/
def carryIn : Bool := op.readsCarry && (CHECK_FLAGS emu).eflags.CF

/-- The carry out of it, if it reads one. -/
def carryOut (d s : BitVec w.bits) (c : Bool) : BinOp → Bool
  | adc => decide (2 ^ w.bits ≤ d.toNat + s.toNat + c.toNat)
  | sbb => decide (d.toNat < s.toNat + c.toNat)
  | _ => false

/-- The state with another carry into the operation. -/
def enter (c : Bool) : X64Emu := if op.readsCarry then (CHECK_FLAGS emu).setCF c else emu

theorem enter_regs (c : Bool) : (op.enter emu c).regs = emu.regs := by
  rw [enter]
  split
  · rw [setCF_regs, CHECK_FLAGS_regs]
  · rfl

theorem CHECK_FLAGS_of_none {emu : X64Emu} (none : emu.df = .d_none) : CHECK_FLAGS emu = emu := by
  rw [CHECK_FLAGS_eq, updateFlags_of_none none]

theorem CHECK_FLAGS_df : (CHECK_FLAGS emu).df = .d_none := by
  rw [CHECK_FLAGS_eq]
  rfl

theorem CHECK_FLAGS_setCF (c : Bool) : CHECK_FLAGS ((CHECK_FLAGS emu).setCF c) = (CHECK_FLAGS emu).setCF c :=
  CHECK_FLAGS_of_none (CHECK_FLAGS_df emu)

/-- Nothing but the carry is read of the flags. -/
theorem eval_enter (d s : BitVec w.bits) : op.eval w (op.enter emu (op.carryIn emu)) d s = op.eval w emu d s := by
  have same : (CHECK_FLAGS emu).setCF (CHECK_FLAGS emu).eflags.CF = CHECK_FLAGS emu := rfl
  have checked : CHECK_FLAGS (CHECK_FLAGS emu) = CHECK_FLAGS emu := CHECK_FLAGS_of_none (CHECK_FLAGS_df emu)
  cases op with
  | adc =>
    have start : adc.enter emu (adc.carryIn emu) = CHECK_FLAGS emu := same
    rw [start]
    unfold eval Emu.adc
    rw [checked]
  | sbb =>
    have start : sbb.enter emu (sbb.carryIn emu) = CHECK_FLAGS emu := same
    rw [start]
    unfold eval Emu.sbb
    rw [checked]
  | _ => rfl

theorem eval_regs (d s : BitVec w.bits) : (op.eval w emu d s).2.regs = emu.regs := by
  cases op with
  | adc | sbb => exact CHECK_FLAGS_regs emu
  | _ => rfl

/-- The result of `ADC` and of `SBB`. -/
def carried (d s : BitVec w.bits) (c : Bool) : BinOp → BitVec w.bits
  | sbb => subb d s c
  | _ => addc d s c

/-- The flags they leave. -/
def carriedFlags (d s : BitVec w.bits) (c : Bool) : X64Flags :=
  (op.eval w ⟨fun _ => 0, ⟨c, false, false, false, false, false⟩, .d_none, 0, 0, 0⟩ d s).2.eflags

/-- An operation that reads the carry leaves flags, and nothing else. -/
theorem eval_carried (reads : op.readsCarry = true) (c : Bool) (d s : BitVec w.bits) :
    op.eval w (op.enter emu c) d s =
      (op.carried d s c, { CHECK_FLAGS emu with eflags := op.carriedFlags d s c }) := by
  have checked := CHECK_FLAGS_setCF emu c
  rw [enter, if_pos reads]
  cases op with
  | adc =>
    refine Eq.trans ?_ (congrArg (·, _) (adc_sum d s c))
    unfold eval Emu.adc
    rw [checked]
    rfl
  | sbb =>
    refine Eq.trans ?_ (congrArg (·, _) (sbb_difference d s c))
    unfold eval Emu.sbb
    rw [checked]
    rfl
  | _ => exact Bool.noConfusion reads

theorem carriedFlags_CF (reads : op.readsCarry = true) (c : Bool) (d s : BitVec w.bits) :
    (op.carriedFlags d s c).CF = op.carryOut d s c := by
  cases op with
  | adc => exact adcCarry_eq w d s c
  | sbb =>
    rw [carryOut, ← borrowChain_CF w.le_bits, ← sbb_difference]
    rfl
  | _ => exact Bool.noConfusion reads

theorem carryIn_eval (c : Bool) (d s : BitVec w.bits) :
    op.carryIn (op.eval w (op.enter emu c) d s).2 = op.carryOut d s c := by
  by_cases reads : op.readsCarry = true
  · have none : (op.eval w (op.enter emu c) d s).2.df = .d_none := by
      rw [eval_carried op emu reads]
      exact CHECK_FLAGS_df emu
    rw [carryIn, reads, Bool.true_and, CHECK_FLAGS_of_none none, eval_carried op emu reads]
    exact carriedFlags_CF op reads c d s
  · cases op with
    | adc | sbb => exact absurd rfl reads
    | _ => rfl

/-- The carry is all that an operation learns from the one before. -/
theorem eval_again (c : Bool) (d s d' s' : BitVec w.bits) :
    op.eval w (op.eval w (op.enter emu c) d s).2 d' s' = op.eval w (op.enter emu (op.carryOut d s c)) d' s' := by
  by_cases reads : op.readsCarry = true
  · have known := carryIn_eval op emu c d s
    rw [← eval_enter op (op.eval w (op.enter emu c) d s).2, known, eval_carried op emu reads, eval_carried op emu reads,
      eval_carried op _ reads]
    have none : ({ CHECK_FLAGS emu with eflags := op.carriedFlags d s c } : X64Emu).df = .d_none := CHECK_FLAGS_df emu
    rw [CHECK_FLAGS_of_none none]
  · rw [enter, enter, if_neg reads, if_neg reads]
    cases op with
    | adc | sbb => exact absurd rfl reads
    | add | sub => simp only [eval, Emu.add, Emu.sub, setLow_setLow]
    | or | and | xor => simp only [eval, Emu.or, Emu.and, Emu.xor, setLow_setLow]

/-- What is stored tells the carry. -/
theorem eval_inj (reads : op.readsCarry = true) {c c' : Bool} (d s : BitVec w.bits)
    (same : (op.eval w (op.enter emu c) d s).1 = (op.eval w (op.enter emu c') d s).1) : c = c' := by
  rw [eval_carried op emu reads, eval_carried op emu reads] at same
  have told (x : BitVec w.bits) {b b' : Bool} (same : addc d x b = addc d x b') : b = b' := by
    rw [← CarryOp.addc_ne_sum w.bits_pos d x b, same, CarryOp.addc_ne_sum w.bits_pos]
  cases op with
  | adc => exact told s same
  | sbb =>
    dsimp only [carried] at same
    rw [subb_eq_addc, subb_eq_addc] at same
    exact Bool.not_inj (told (~~~s) same)
  | _ => exact Bool.noConfusion reads

end BinOp

/-! ### Loops around an operation -/

namespace MemInsn

variable (i : MemInsn) {w : Width}

section Carrying

variable (op : BinOp) (stored : Nat) {src : X64Emu → BitVec w.bits}
  (reads : ∀ emu emu' : X64Emu, emu.regs = emu'.regs → src emu = src emu') (emu : X64Emu)

/-- The carry out of an attempt. -/
def carryNext (s : BitVec w.bits) (c : Bool) (mem : Memory) : Bool := op.carryOut (mem.load w.bits i.ed) s c

include reads in
theorem opPass_remembers :
    Remembers (i.opPass w stored fun emu d => op.eval w emu d (src emu))
      (fun s => s.regs = emu.regs ∧
        ∀ d x : BitVec w.bits, op.eval w s d x = op.eval w (op.enter emu (op.carryIn s)) d x)
      op.carryIn (i.carryNext op (src emu)) (op.enter emu) where
  stores _ _ := rfl
  same s mem holds := by
    have source : src s = src (op.enter emu (op.carryIn s)) := reads _ _ (holds.1.trans (op.enter_regs emu _).symm)
    simp only [opPass]
    rw [holds.2, source]
  keep s mem holds := by
    have source : src s = src emu := reads _ _ holds.1
    refine ⟨(op.eval_regs s _ _).trans holds.1, fun d x => ?_⟩
    have state : (i.opPass w stored (fun emu d => op.eval w emu d (src emu)) s mem).state =
        (op.eval w (op.enter emu (op.carryIn s)) (mem.load w.bits i.ed) (src s)).2 := congrArg Prod.snd (holds.2 _ _)
    rw [state, op.eval_again, op.carryIn_eval]
  known_next s mem holds := by
    have source : src s = src emu := reads _ _ holds.1
    have state : (i.opPass w stored (fun emu d => op.eval w emu d (src emu)) s mem).state =
        (op.eval w (op.enter emu (op.carryIn s)) (mem.load w.bits i.ed) (src s)).2 := congrArg Prod.snd (holds.2 _ _)
    rw [state, op.carryIn_eval, source]
    rfl

include reads in
/-- The last attempt goes on with the carry of the failed ones. -/
theorem run_opPass (mem : Memory) (others : List Memory) :
    let c := remember (i.carryNext op (src emu)) (op.carryIn emu) (failed mem others)
    let seen := lastSeen (fun _ => false) mem others
    let out := op.eval w (op.enter emu c) (seen.load w.bits i.ed) (src emu)
    run (i.opPass w stored fun emu d => op.eval w emu d (src emu)) emu mem others =
      ⟨out.2, seen, seen.store i.ed (out.1.setWidth stored)⟩ := by
  have remembers := i.opPass_remembers op stored reads emu
  have last := run_of_remembers remembers ⟨rfl, fun d x => (op.eval_enter emu d x).symm⟩ mem others
  have seen := seen_of_stores remembers.stores emu mem others
  have source (c : Bool) : src (op.enter emu c) = src emu := reads _ _ (op.enter_regs emu c)
  rw [seen] at last
  refine last.trans ?_
  simp only [run, opPass, source, Option.getD_some]

end Carrying

end MemInsn

/-! ### Locked and plain -/

/-- How a locked instruction ends, against what the plain one makes of the memory seen last: alike if `cond` holds, and
with other registers or another memory if not. The plain one writes no byte but the `n` at `a`. -/
structure Alike (a : BitVec 64) (n : Nat) (cond : Prop) (final : Final X64Emu Memory) (out : X64Emu × Memory) : Prop where
  state : cond → final.state = out.1
  object : cond → final.object = out.2
  needed : final.state.regs = out.1.regs → final.object = out.2 → cond
  frame : ∀ b, ¬ (b - a).toNat < n → out.2 b = final.seen b

/-- Alike in any case. -/
theorem Alike.always {a : BitVec 64} {n : Nat} {final : Final X64Emu Memory} {out : X64Emu × Memory}
    (state : final.state = out.1) (object : final.object = out.2)
    (frame : ∀ b, ¬ (b - a).toNat < n → out.2 b = final.seen b) : Alike a n True final out :=
  ⟨fun _ => state, fun _ => object, fun _ _ => trivial, frame⟩

/-- A loop that forgets its failed passes, of which one does what the plain instruction does. -/
theorem Alike.of_absorbs {a : BitVec 64} {n : Nat} {body : X64Emu → Memory → Pass X64Emu Memory} (absorbs : Absorbs body)
    (emu : X64Emu) (mem : Memory) (others : List Memory) (plain : Memory → X64Emu × Memory)
    (same : ∀ mem, plain mem = ((body emu mem).state, (body emu mem).stored.getD mem))
    (frame : ∀ mem b, ¬ (b - a).toNat < n → (plain mem).2 b = mem b) :
    Alike a n True (run body emu mem others) (plain (run body emu mem others).seen) := by
  obtain ⟨state, object⟩ := final_of_absorbs absorbs emu mem others
  refine .always ?_ ?_ (frame _)
  · rw [same, state]
  · rw [same, object]

namespace MemInsn

variable (i : MemInsn) {w : Width} (emu : X64Emu) (mem : Memory) (others : List Memory)

section Carrying

variable (op : BinOp)

/-- The carry that reaches the last attempt is the one that reached the first. -/
def CarryKept (s : BitVec w.bits) : Prop :=
  remember (i.carryNext op s) (op.carryIn emu) (failed mem others) = op.carryIn emu

theorem carryKept_of_not_reads (plain : ¬ op.readsCarry = true) (s : BitVec w.bits) : i.CarryKept emu mem others op s := by
  have none (s : X64Emu) : op.carryIn s = false := by rw [BinOp.carryIn, Bool.eq_false_of_not_eq_true plain, Bool.false_and]
  have out (c : Bool) (m : Memory) : i.carryNext op s c m = false := by
    rw [carryNext]
    cases op with
    | adc | sbb => exact absurd rfl plain
    | _ => rfl
  rw [CarryKept, none]
  generalize failed mem others = seen
  induction seen with
  | nil => rfl
  | cons m rest ih =>
    rw [remember, List.foldl_cons, out]
    exact ih

/-- What the last attempt computes is what the plain instruction computes, exactly if the carry is kept. -/
theorem eval_kept_iff (d s : BitVec w.bits) :
    (op.eval w (op.enter emu (remember (i.carryNext op s) (op.carryIn emu) (failed mem others))) d s).1 =
      (op.eval w emu d s).1 ↔ i.CarryKept emu mem others op s := by
  constructor
  · intro same
    rw [← op.eval_enter emu] at same
    by_cases carry : op.readsCarry = true
    · exact op.eval_inj emu carry d _ same
    · exact i.carryKept_of_not_reads emu mem others op carry _
  · intro kept
    rw [kept, op.eval_enter]

variable (src : X64Emu → BitVec w.bits) (reads : ∀ emu emu' : X64Emu, emu.regs = emu'.regs → src emu = src emu')
include reads in
theorem alike_binary :
    let op' := fun emu d => op.eval w emu d (src emu)
    let final := i.lockOp emu mem others w op'
    Alike i.ed (w.bits / 8) (i.CarryKept emu mem others op (src emu)) final (i.modify emu final.seen w op') := by
  intro op' final
  have last : final = _ := i.run_opPass op w.bits reads emu mem others
  have kept := i.eval_kept_iff emu mem others op (final.seen.load w.bits i.ed) (src emu)
  rw [last] at kept ⊢
  dsimp only at kept ⊢
  refine ⟨fun cond => ?_, fun cond => ?_, fun _ same => ?_, fun b out => Memory.store_outside _ _ _ out⟩
  · rw [cond, op.eval_enter]
    rfl
  · rw [setWidth_eq, kept.mpr cond]
    rfl
  · rw [setWidth_eq] at same
    exact kept.mp ((Memory.store_inj _ i.ed w.dvd_bits w.bits_le).mp same)

/-- Half a word stored as a word. -/
theorem alike_binary16 (src : X64Emu → BitVec Width.w16.bits)
    (reads : ∀ emu emu' : X64Emu, emu.regs = emu'.regs → src emu = src emu') :
    let op' := fun emu d => op.eval .w16 emu d (src emu)
    let final := run (i.opPass .w16 32 op') emu mem others
    let seen := lastSeen (fun _ => false) mem others
    Alike i.ed 2 (i.CarryKept emu mem others op (src emu) ∧ seen (i.ed + 2#64) = 0 ∧ seen (i.ed + 3#64) = 0) final
      (i.modify emu final.seen .w16 op') := by
  intro op' final seen
  have last : final = _ := i.run_opPass op 32 reads emu mem others
  have kept := i.eval_kept_iff emu mem others op (seen.load Width.w16.bits i.ed) (src emu)
  rw [last]
  dsimp only
  refine ⟨fun cond => ?_, fun cond => ?_, fun _ same => ?_, fun b out => Memory.store_outside _ _ _ out⟩
  · rw [cond.1, op.eval_enter]
    rfl
  · exact (Memory.store_wide_iff seen i.ed _ _).mpr ⟨kept.mpr cond.1, cond.2⟩
  · obtain ⟨value, rest⟩ := (Memory.store_wide_iff seen i.ed _ _).mp same
    exact ⟨kept.mp value, rest⟩

theorem alike_group (s : BitVec w.bits) :
    let final := i.lockGroup emu mem others w s
    Alike i.ed (w.bits / 8) (∀ op ∈ BinOp.ofIndex i.ext, i.CarryKept emu mem others op s) final
      (i.group emu final.seen w s) := by
  intro final
  simp only [final, lockGroup, group]
  cases BinOp.ofIndex i.ext with
  | some op =>
    have alike := i.alike_binary emu mem others op (fun _ => s) fun _ _ _ => rfl
    simp only [Option.mem_some_iff, forall_eq']
    exact alike
  | none =>
    have vacuous : ∀ op ∈ (none : Option BinOp), i.CarryKept emu mem others op s := fun op member =>
      absurd member (Option.not_mem_none op)
    exact ⟨fun _ => rfl, fun _ => rfl, fun _ _ => vacuous, fun _ _ => rfl⟩

end Carrying

/-! ### Loops that forget -/

section Forgetting

variable {op : X64Emu → BitVec w.bits → BitVec w.bits × X64Emu} (forgets : Forgets op)
include forgets

theorem alike_lockOp :
    let final := i.lockOp emu mem others w op
    Alike i.ed (w.bits / 8) True final (i.modify emu final.seen w op) := by
  have absorbs : Absorbs (i.opPass w w.bits op) := by
    intro s m m' _
    simp only [opPass]
    rw [forgets]
  refine .of_absorbs absorbs emu mem others (fun m => i.modify emu m w op) (fun m => ?_)
    fun m b out => Memory.store_outside _ _ _ out
  simp only [modify, opPass, Option.getD_some, setWidth_eq]

/-- The low byte stored by the loop is stored again behind it. -/
theorem alike_lockUnaligned :
    let final := i.lockUnaligned emu mem others w op
    Alike i.ed (w.bits / 8) True final (i.modify emu final.seen w op) := by
  intro final
  have absorbs : Absorbs (i.unalignedPass w op) := by
    intro s m m' _
    simp only [unalignedPass]
    rw [forgets]
  obtain ⟨state, object⟩ := final_of_absorbs absorbs (emu, 0) mem others
  have read (m : Memory) : i.readUnaligned w.bits m = m.load w.bits i.ed := readUnaligned_eq i w.le_bits m
  simp only [unalignedPass, read, Option.getD_some] at state object
  refine .always (congrArg Prod.fst state) ?_ fun b out => Memory.store_outside _ _ _ out
  simp only [final, lockUnaligned]
  rw [object, state]
  exact Memory.store_store _ i.ed _ _ w.le_bits

end Forgetting

theorem alike_INC :
    let final := i.lockINC emu mem others
    Alike i.ed (i.width.bits / 8) True final (i.modify emu final.seen i.width (inc i.width)) := by
  intro final
  by_cases wide : i.rex.w = true
  · have width : i.width = .w64 := if_pos wide
    simp only [final, lockINC, wide, if_true]
    rw [width]
    split
    · exact i.alike_lockUnaligned emu mem others forgets_inc
    · exact i.alike_lockOp emu mem others forgets_inc
  · have width : i.width = .w32 := if_neg wide
    simp only [final, lockINC, wide, if_false, Bool.false_eq_true]
    rw [width]
    split
    · exact i.alike_lockUnaligned emu mem others forgets_inc
    · exact i.alike_lockOp emu mem others forgets_inc

theorem alike_DEC :
    let final := i.lockDEC emu mem others
    Alike i.ed (i.width.bits / 8) True final (i.modify emu final.seen i.width (dec i.width)) := by
  intro final
  by_cases wide : i.rex.w = true
  · have width : i.width = .w64 := if_pos wide
    simp only [final, lockDEC, wide, if_true]
    rw [width]
    split
    · exact i.alike_lockUnaligned emu mem others forgets_dec
    · exact i.alike_lockOp emu mem others forgets_dec
  · have width : i.width = .w32 := if_neg wide
    simp only [final, lockDEC, wide, if_false, Bool.false_eq_true]
    rw [width]
    exact i.alike_lockOp emu mem others forgets_dec

/-! ### Bits -/

section Bits

variable {k : Nat}

/-- The word with its bit turned over, unless the bit is `v`. -/
def turnBit (w : Width) (v : Bool) (ed : BitVec 64) (k : Nat) (mem : Memory) : Option Memory :=
  if (mem.load w.bits ed).getLsbD k = v then none else some (Memory.flip mem (Memory.byteOf ed k) (k % 8))

theorem btsPass_eq (ed : BitVec 64) (lt : k < w.bits) (set : BitVec w.bits → BitVec w.bits)
    (sets : ∀ x, x.getLsbD k = false → set x = x ^^^ twoPow w.bits k) :
    btsPass w ed k set emu mem = ⟨emu.setCF ((mem.load w.bits ed).getLsbD k), turnBit w true ed k mem⟩ := by
  have test := BitString.and_twoPow_ne_iff (mem.load w.bits ed) lt
  unfold btsPass turnBit
  simp only [test]
  by_cases bit : (mem.load w.bits ed).getLsbD k = true
  · rw [if_pos bit, if_pos bit, bit]
  · have clear := Bool.eq_false_of_not_eq_true bit
    rw [if_neg bit, if_neg bit, clear, sets _ clear, Memory.store_flipped mem ed lt w.dvd_bits w.bits_le]

theorem btrPass_eq (ed : BitVec 64) (lt : k < w.bits) :
    btrPass w ed k emu mem = ⟨emu.setCF ((mem.load w.bits ed).getLsbD k), turnBit w false ed k mem⟩ := by
  have test := BitString.and_twoPow_ne_iff (mem.load w.bits ed) lt
  unfold btrPass turnBit
  simp only [test]
  by_cases bit : (mem.load w.bits ed).getLsbD k = true
  · have set : ¬ (mem.load w.bits ed).getLsbD k = false := by rw [bit]; decide
    rw [if_pos bit, if_neg set, bit, Memory.store_flipped mem ed lt w.dvd_bits w.bits_le]
  · have clear := Bool.eq_false_of_not_eq_true bit
    rw [if_neg bit, if_pos clear, clear]

theorem or_twoPow_of_clear (x : BitVec w.bits) (lt : k < w.bits) (clear : x.getLsbD k = false) :
    x ||| twoPow w.bits k = x ^^^ twoPow w.bits k := by
  have turned := BitString.withBit_not x lt
  rw [clear] at turned
  exact turned

/-- What the pass would leave is what the plain instruction leaves. -/
theorem BTS_eq (ed : BitVec 64) (k : Nat) :
    BTS emu mem w ed k =
      let pass := btsPass w ed k (· ||| twoPow _ k) emu mem
      (pass.state, pass.stored.getD mem) := by
  unfold BTS btsPass
  dsimp only
  split <;> rfl

theorem BTS_Ib_eq (k : Nat) :
    i.BTS_Ib emu mem w k =
      let pass := btsPass w i.ed k (· ^^^ twoPow _ k) emu mem
      (pass.state, pass.stored.getD mem) := by
  unfold BTS_Ib btsPass
  dsimp only
  split <;> rfl

theorem BTR_eq (ed : BitVec 64) (k : Nat) :
    BTR emu mem w ed k =
      let pass := btrPass w ed k emu mem
      (pass.state, pass.stored.getD mem) := by
  unfold BTR btrPass
  dsimp only
  split <;> rfl

/-- A bit at one place turned over by the locked instruction, and at another by the plain one. -/
theorem alike_turnBit (v : Bool) (ed ed' : BitVec 64) (lt : k < w.bits) {body : X64Emu → Memory → Pass X64Emu Memory}
    (pass : ∀ emu mem, body emu mem = ⟨emu.setCF ((mem.load w.bits ed).getLsbD k), turnBit w v ed k mem⟩)
    (plain : Memory → X64Emu × Memory)
    (out : ∀ mem, plain mem = (emu.setCF ((mem.load w.bits ed').getLsbD k), (turnBit w v ed' k mem).getD mem)) :
    let final := run body emu mem others
    let seen := lastSeen (fun mem => (mem.load w.bits ed).getLsbD k == v) mem others
    Alike ed' (w.bits / 8)
      (ed = ed' ∨ (seen.load w.bits ed).getLsbD k = v ∧ (seen.load w.bits ed').getLsbD k = v) final
      (plain final.seen) := by
  intro final seen
  have absorbs : Absorbs body := absorbs_of_carry
    (fun s b m => by rw [pass, pass]; rfl) fun s m => ⟨_, congrArg Pass.state (pass s m)⟩
  obtain ⟨state, object⟩ := final_of_absorbs absorbs emu mem others
  have last : final.seen = seen := by
    refine (seen_of_absorbs absorbs emu mem others).trans ?_
    refine congrArg (lastSeen · mem others) (funext fun m => ?_)
    rw [pass, turnBit, Bool.eq_iff_iff, Option.isNone_iff_eq_none, beq_iff_eq]
    simp
  rw [pass] at state object
  change final.state = emu.setCF ((final.seen.load w.bits ed).getLsbD k) at state
  change final.object = (turnBit w v ed k final.seen).getD final.seen at object
  rw [last] at state object
  rw [out, last]
  refine ⟨fun cond => ?_, fun cond => ?_, fun _ same => ?_, fun b outside => ?_⟩
  · rw [state]
    obtain rfl | ⟨done, done'⟩ := cond
    · rfl
    · rw [done, done']
  · rw [object]
    obtain rfl | ⟨done, done'⟩ := cond
    · rfl
    · rw [turnBit, turnBit, if_pos done, if_pos done']
  · rw [object] at same
    have below : k % 8 < 8 := Nat.mod_lt k (by decide)
    unfold turnBit at same
    split at same <;> split at same
    next done done' => exact .inr ⟨done, done'⟩
    next => exact absurd same.symm (Memory.flip_ne below)
    next => exact absurd same (Memory.flip_ne below)
    next => exact .inl (add_right_cancel ((Memory.flip_inj below).mp same))
  · rw [last]
    unfold turnBit
    split
    · rfl
    · change Memory.flip seen _ _ b = seen b
      rw [← Memory.store_flipped seen ed' lt w.dvd_bits w.bits_le]
      exact Memory.store_outside _ _ _ outside

variable (ed ed' : BitVec 64) (lt : k < w.bits)
include lt

theorem alike_bts :
    let final := run (btsPass w ed k (· ||| twoPow _ k)) emu mem others
    let seen := lastSeen (fun mem => (mem.load w.bits ed).getLsbD k == true) mem others
    Alike ed' (w.bits / 8)
      (ed = ed' ∨ (seen.load w.bits ed).getLsbD k = true ∧ (seen.load w.bits ed').getLsbD k = true) final
      (BTS emu final.seen w ed' k) := by
  have sets (x : BitVec w.bits) (clear : x.getLsbD k = false) := or_twoPow_of_clear x lt clear
  refine alike_turnBit emu mem others true ed ed' lt (fun s m => btsPass_eq s m ed lt _ sets)
    (fun m => BTS emu m w ed' k) fun m => ?_
  rw [BTS_eq, btsPass_eq emu m ed' lt _ sets]

theorem alike_btr :
    let final := run (btrPass w ed k) emu mem others
    let seen := lastSeen (fun mem => (mem.load w.bits ed).getLsbD k == false) mem others
    Alike ed' (w.bits / 8)
      (ed = ed' ∨ (seen.load w.bits ed).getLsbD k = false ∧ (seen.load w.bits ed').getLsbD k = false) final
      (BTR emu final.seen w ed' k) := by
  refine alike_turnBit emu mem others false ed ed' lt (fun s m => btrPass_eq s m ed lt)
    (fun m => BTR emu m w ed' k) fun m => ?_
  rw [BTR_eq, btrPass_eq emu m ed' lt]

theorem alike_bts_Ib :
    let final := run (btsPass w i.ed k (· ^^^ twoPow _ k)) emu mem others
    Alike i.ed (w.bits / 8) True final (i.BTS_Ib emu final.seen w k) := by
  have pass (s : X64Emu) (m : Memory) := btsPass_eq s m i.ed lt (· ^^^ twoPow _ k) fun _ _ => rfl
  have alike := alike_turnBit emu mem others true i.ed i.ed lt pass (fun m => i.BTS_Ib emu m w k) fun m => by
    rw [BTS_Ib_eq, pass]
  exact .always (alike.state (.inl rfl)) (alike.object (.inl rfl)) alike.frame

theorem alike_btr_Ib :
    let final := run (btrPass w i.ed k) emu mem others
    Alike i.ed (w.bits / 8) True final (BTR emu final.seen w i.ed k) := by
  have alike := alike_btr emu mem others i.ed i.ed lt
  exact .always (alike.state (.inl rfl)) (alike.object (.inl rfl)) alike.frame

omit lt

theorem alike_btc :
    let final := run (btcPass w i.ed k) emu mem others
    Alike i.ed (w.bits / 8) True final (i.BTC_Ib emu final.seen w k) := by
  have absorbs : Absorbs (btcPass w i.ed k) :=
    absorbs_of_carry (fun _ _ _ => rfl) fun s m => ⟨m.load w.bits i.ed &&& twoPow w.bits k != 0, rfl⟩
  exact .of_absorbs absorbs emu mem others (fun m => i.BTC_Ib emu m w k) (fun _ => rfl)
    fun m b out => Memory.store_outside _ _ _ out

end Bits

/-! ### Exchanges -/

theorem alike_xchg :
    let final := i.lockXCHG_Ed_Gd emu mem others w
    Alike i.ed (w.bits / 8) True final (i.XCHG_Ed_Gd emu final.seen w) := by
  intro final
  have absorbs : Absorbs (i.xchgPass w) := fun _ _ _ _ => rfl
  obtain ⟨state, object⟩ := final_of_absorbs absorbs (emu, 0) mem others
  refine .always ?_ object fun b out => Memory.store_outside _ _ _ out
  simp only [final, lockXCHG_Ed_Gd]
  rw [state]
  rfl

/-! ### Exchange and add -/

theorem getByte_regs (g : ByteReg) {emu emu' : X64Emu} (same : emu.regs = emu'.regs) : emu.getByte g = emu'.getByte g := by
  rw [X64Emu.getByte, same, X64Emu.getByte]

theorem reg_regs (w : Width) (r : Fin 16) {emu emu' : X64Emu} (same : emu.regs = emu'.regs) :
    emu.reg w r = emu'.reg w r := by
  rw [X64Emu.reg, same, X64Emu.reg]

theorem setByte_getByte (g : ByteReg) : emu.setByte g (emu.getByte g) = emu := by
  rw [X64Emu.setByte, putByte_getByte, Function.update_eq_self]

theorem forgets_add (src : X64Emu → BitVec w.bits)
    (reads : ∀ emu emu' : X64Emu, emu.regs = emu'.regs → src emu = src emu') :
    Forgets fun emu d => add w emu d (src emu) := by
  intro emu d d'
  have source : src (add w emu d (src emu)).2 = src emu := reads _ _ rfl
  dsimp only
  rw [source]
  simp only [add, setLow_setLow]

theorem absorbs_xadd (src : X64Emu → BitVec w.bits)
    (reads : ∀ emu emu' : X64Emu, emu.regs = emu'.regs → src emu = src emu') : Absorbs (i.xaddPass w src) := by
  intro s m m' _
  have again := forgets_add src reads s.1 (m.load w.bits i.ed) (m'.load w.bits i.ed)
  dsimp only at again
  simp only [xaddPass]
  rw [again]

theorem absorbs_xaddUnaligned : Absorbs i.xaddUnalignedPass := by
  intro s m m' _
  have again := forgets_add (w := .w32) (·.reg .w32 i.GD) (fun _ _ same => reg_regs .w32 i.GD same) s.1
    (i.readUnaligned 32 m) (i.readUnaligned 32 m')
  dsimp only at again
  simp only [xaddUnalignedPass]
  rw [again]

/-- The register keeps what the plain instruction replaces. -/
theorem alike_xadd_Gb :
    let final := i.lockXADD_Gb_Eb emu mem others
    Alike i.ed 1 (emu.getByte i.GB = (lastSeen (fun _ => false) mem others).load 8 i.ed) final
      (i.XADD_Gb_Eb emu final.seen) := by
  intro final
  have absorbs := i.absorbs_xadd (w := .w8) (·.getByte i.GB) fun _ _ same => getByte_regs i.GB same
  obtain ⟨state, object⟩ := final_of_absorbs absorbs (emu, 0) mem others
  have last : final.seen = lastSeen (fun _ => false) mem others := seen_of_absorbs absorbs (emu, 0) mem others
  let sum := add .w8 emu (final.seen.load 8 i.ed) (emu.getByte i.GB)
  have left : final.state = sum.2 := congrArg Prod.fst state
  have byte : sum.2.getByte i.GB = emu.getByte i.GB := getByte_regs i.GB rfl
  rw [← last]
  refine ⟨fun cond => ?_, fun _ => object, fun same _ => ?_, fun b out => Memory.store_outside _ _ _ out⟩
  · change final.state = sum.2.setByte i.GB (final.seen.load 8 i.ed)
    rw [left, ← cond, ← byte, setByte_getByte]
  · have read := getByte_regs i.GB same
    change final.state.getByte i.GB = (sum.2.setByte i.GB (final.seen.load 8 i.ed)).getByte i.GB at read
    rw [left, byte, getByte_setByte] at read
    exact read

theorem alike_xadd_Gd :
    let final := i.lockXADD_Gd_Ed emu mem others
    Alike i.ed (i.width.bits / 8) True final (i.XADD_Gd_Ed emu final.seen i.width) := by
  intro final
  have frame (w : Width) (b : BitVec 64) (out : ¬ (b - i.ed).toNat < w.bits / 8) :
      (i.XADD_Gd_Ed emu final.seen w).2 b = final.seen b := Memory.store_outside _ _ _ out
  have absorbs (w : Width) := i.absorbs_xadd (w := w) (·.reg w i.GD) fun _ _ same => reg_regs w i.GD same
  by_cases wide : i.rex.w = true
  · have width : i.width = .w64 := if_pos wide
    obtain ⟨state, object⟩ := final_of_absorbs (absorbs .w64) (emu, 0) mem others
    have locked : final = _ := if_pos wide
    rw [width]
    refine .always ?_ ?_ (frame .w64)
    · rw [locked]
      dsimp only
      rw [state]
      exact congrArg _ (setWidth_eq _).symm
    · rw [locked]
      exact object
  · have width : i.width = .w32 := if_neg wide
    have locked : final = _ := if_neg wide
    rw [width]
    by_cases unaligned : i.ed &&& 3 ≠ 0
    · obtain ⟨state, object⟩ := final_of_absorbs i.absorbs_xaddUnaligned (emu, 0, 0) mem others
      have read (m : Memory) : i.readUnaligned 32 m = m.load 32 i.ed := readUnaligned_eq i (by decide) m
      simp only [xaddUnalignedPass, read, Option.getD_some] at state object
      rw [if_pos unaligned] at locked
      refine .always ?_ ?_ (frame .w32)
      · rw [locked]
        dsimp only
        rw [state]
        rfl
      · rw [locked]
        dsimp only
        rw [object, state]
        exact Memory.store_store _ i.ed _ _ (by decide)
    · obtain ⟨state, object⟩ := final_of_absorbs (absorbs .w32) (emu, 0) mem others
      rw [if_neg unaligned] at locked
      refine .always ?_ ?_ (frame .w32)
      · rw [locked]
        dsimp only
        rw [state]
        rfl
      · rw [locked]
        exact object

/-! ### Compare and exchange -/

theorem CMPXCHG_eq (src : BitVec w.bits) :
    i.CMPXCHG emu mem w src =
      let pass := cmpxchgPass w (·.load w.bits i.ed) (·.store i.ed src) emu mem
      (pass.state, pass.stored.getD mem) := by
  unfold CMPXCHG cmpxchgPass
  dsimp only
  split <;> rfl

theorem CMPXCHG_outside (src : BitVec w.bits) {b : BitVec 64} (out : ¬ (b - i.ed).toNat < w.bits / 8) :
    (i.CMPXCHG emu mem w src).2 b = mem b := by
  unfold CMPXCHG
  dsimp only
  split
  · exact Memory.store_outside _ _ _ out
  · rfl

theorem alike_lockCMPXCHG (src : BitVec w.bits) :
    let final := i.lockCMPXCHG emu mem others w src
    Alike i.ed (w.bits / 8) True final (i.CMPXCHG emu final.seen w src) :=
  .of_absorbs (cmpxchgPass_absorbs w (·.load w.bits i.ed) (·.store i.ed src)) emu mem others
    (fun m => i.CMPXCHG emu m w src) (fun m => i.CMPXCHG_eq emu m src)
    fun m _ out => i.CMPXCHG_outside emu m src out

/-- Flags that are overwritten need not be computed. -/
theorem CMPXCHG_CHECK_FLAGS (src : BitVec w.bits) : i.CMPXCHG (CHECK_FLAGS emu) mem w src = i.CMPXCHG emu mem w src := by
  rw [CHECK_FLAGS_eq]
  rfl

/-- The upper half of the accumulator is cleared in any case. -/
theorem CMPXCHG_Ed_Gd_narrow (narrow : ¬ i.rex.w = true) :
    i.CMPXCHG_Ed_Gd emu mem =
      ((i.CMPXCHG emu mem .w32 (emu.reg .w32 i.GD)).1.clearHigh _RAX, (i.CMPXCHG emu mem .w32 (emu.reg .w32 i.GD)).2) := by
  let e : X64Emu := (cmp .w32 emu (emu.reg .w32 _RAX) (mem.load 32 i.ed)).2
  have hit : e.eflags.ZF = true ↔ emu.reg .w32 _RAX = mem.load 32 i.ed :=
    cmpFlags_hit (w := .w32) (emu.reg .w32 _RAX) (mem.load 32 i.ed)
  have plain : i.CMPXCHG_Ed_Gd emu mem =
      if e.eflags.ZF then
        (e.setWhole _RAX (mem.load 32 i.ed), mem.store i.ed ((e.setWhole _RAX (mem.load 32 i.ed)).reg .w32 i.GD))
      else (e.setWhole _RAX (mem.load 32 i.ed), mem) := if_neg narrow
  have whole : i.CMPXCHG emu mem .w32 (emu.reg .w32 i.GD) =
      if e.eflags.ZF then (e, mem.store i.ed (emu.reg .w32 i.GD)) else (e.setReg _RAX (mem.load 32 i.ed), mem) := rfl
  rw [plain, whole]
  by_cases equal : emu.reg .w32 _RAX = mem.load 32 i.ed
  · have high : e.setWhole _RAX (mem.load 32 i.ed) = e.clearHigh _RAX := congrArg (e.setWhole _RAX) equal.symm
    rw [if_pos (hit.mpr equal), if_pos (hit.mpr equal), high, reg_clearHigh]
    rfl
  · have high : e.setWhole _RAX (mem.load 32 i.ed) = (e.setReg _RAX (mem.load 32 i.ed)).clearHigh _RAX := by
      rw [clearHigh_setReg, X64Emu.setWhole, X64Emu.setReg, setLow_full]
    rw [if_neg (mt hit.mp equal), if_neg (mt hit.mp equal), high]

theorem alike_cmpxchg_Ed :
    let final := i.lockCMPXCHG_Ed_Gd emu mem others
    Alike i.ed (i.width.bits / 8) True final (i.CMPXCHG_Ed_Gd emu final.seen) := by
  intro final
  by_cases wide : i.rex.w = true
  · have width : i.width = .w64 := if_pos wide
    have locked : final = i.lockCMPXCHG emu mem others .w64 (emu.reg .w64 i.GD) := by
      refine (if_pos wide).trans ?_
      dsimp only
      split
      · exact congrArg (run · emu mem others) (unaligned_pass i _)
      · rfl
    have plain : i.CMPXCHG_Ed_Gd emu final.seen = i.CMPXCHG emu final.seen .w64 (emu.reg .w64 i.GD) := if_pos wide
    rw [plain, width, locked]
    exact i.alike_lockCMPXCHG emu mem others (w := .w64) _
  · have width : i.width = .w32 := if_neg wide
    have locked : final = _ := if_neg wide
    have alike := i.alike_lockCMPXCHG emu mem others (w := .w32) (emu.reg .w32 i.GD)
    rw [width, CMPXCHG_Ed_Gd_narrow i emu _ wide, locked]
    refine .always ?_ (alike.object trivial) alike.frame
    dsimp only
    rw [alike.state trivial]
    rfl

theorem CMPXCHG8B_eq (narrow : ¬ i.rex.w = true) :
    i.CMPXCHG8B emu mem =
      let pass := i.cmpxchg8Pass (CHECK_FLAGS emu) mem
      (pass.state, pass.stored.getD mem) := by
  obtain ⟨first, second⟩ := read_dd mem i.ed
  let c := CHECK_FLAGS emu
  have plain : i.CMPXCHG8B emu mem = _ := if_neg narrow
  have words : i.cmpxchg8Pass c mem =
      if low 32 (c.regs _RAX) = mem.load 32 i.ed ∧ low 32 (c.regs _RDX) = mem.load 32 (i.ed + 4) then
        ⟨c.setZF true, some ((mem.store i.ed (low 32 (c.regs _RBX))).store (i.ed + 4) (low 32 (c.regs _RCX)))⟩
      else
        ⟨((c.setZF false).setReg _RAX ((mem.load 32 i.ed).setWidth 64)).setReg _RDX ((mem.load 32 (i.ed + 4)).setWidth 64),
          none⟩ := by
    unfold cmpxchg8Pass
    dsimp only
    rw [Memory.load_low (show 32 ≤ 64 by decide), Memory.load_high, first, second, write_dd]
    rfl
  rw [plain, words]
  dsimp only
  split <;> rfl

theorem CMPXCHG8B_outside (narrow : ¬ i.rex.w = true) {b : BitVec 64} (out : ¬ (b - i.ed).toNat < 8) :
    (i.CMPXCHG8B emu mem).2 b = mem b := by
  rw [CMPXCHG8B_eq i emu mem narrow]
  unfold cmpxchg8Pass
  dsimp only
  split
  · exact Memory.store_outside _ _ _ out
  · rfl

theorem alike_cmpxchg8 (narrow : ¬ i.rex.w = true) :
    let final := run i.cmpxchg8Pass (CHECK_FLAGS emu) mem others
    Alike i.ed 8 True final (i.CMPXCHG8B emu final.seen) :=
  .of_absorbs (cmpxchg8Pass_absorbs i) (CHECK_FLAGS emu) mem others (fun m => i.CMPXCHG8B emu m)
    (fun m => i.CMPXCHG8B_eq emu m narrow) fun m _ out => i.CMPXCHG8B_outside emu m narrow out

/-- The plain instruction stores the low halves of the registers. -/
theorem alike_cmpxchg16 (wide : i.rex.w = true) :
    let final := run i.cmpxchg16Pass (CHECK_FLAGS emu) mem others
    let equal := fun mem : Memory => emu.regs _RAX = mem.load 64 i.ed ∧ emu.regs _RDX = mem.load 64 (i.ed + 8)
    let seen := lastSeen (fun mem => !decide (equal mem)) mem others
    Alike i.ed 16 (equal seen → Extended (emu.regs _RBX) ∧ Extended (emu.regs _RCX)) final
      (i.CMPXCHG8B emu final.seen) := by
  intro final equal seen
  obtain ⟨state, object⟩ := final_of_absorbs (cmpxchg16Pass_absorbs i) (CHECK_FLAGS emu) mem others
  have regs := CHECK_FLAGS_regs emu
  have last : final.seen = seen := by
    refine (seen_of_absorbs (cmpxchg16Pass_absorbs i) (CHECK_FLAGS emu) mem others).trans ?_
    refine congrArg (lastSeen · mem others) (funext fun m => ?_)
    unfold cmpxchg16Pass
    dsimp only
    rw [regs]
    by_cases same : equal m
    · rw [if_pos same, decide_eq_true same]
      rfl
    · rw [if_neg same, decide_eq_false same]
      rfl
  let c := CHECK_FLAGS emu
  let low (r : Fin 16) : BitVec 64 := (c.reg .w32 r).setWidth 64
  have plain (m : Memory) : i.CMPXCHG8B emu m =
      if c.regs _RAX = m.load 64 i.ed ∧ c.regs _RDX = m.load 64 (i.ed + 8) then
        (c.setZF true, (m.store i.ed (low _RBX)).store (i.ed + 8) (low _RCX))
      else (((c.setZF false).setReg _RAX (m.load 64 i.ed)).setReg _RDX (m.load 64 (i.ed + 8)), m) := if_pos wide
  have whole (r : Fin 16) : low r = c.regs r ↔ Extended (emu.regs r) := by
    rw [← reg_whole c r, ← regs]
    exact low_whole_iff c r
  have pair (x y x' y' : BitVec 64) : (final.seen.store i.ed x).store (i.ed + 8) y =
      (final.seen.store i.ed x').store (i.ed + 8) y' ↔ x = x' ∧ y = y' :=
    Memory.store_pair_inj (n := 64) final.seen i.ed (by decide) (by decide)
  rw [plain, ← last]
  by_cases same : c.regs _RAX = final.seen.load 64 i.ed ∧ c.regs _RDX = final.seen.load 64 (i.ed + 8)
  · have hit : i.cmpxchg16Pass c final.seen = ⟨_, some _⟩ := if_pos same
    have met : equal final.seen := by
      rw [regs] at same
      exact same
    change final.state = (i.cmpxchg16Pass c final.seen).state at state
    change final.object = (i.cmpxchg16Pass c final.seen).stored.getD final.seen at object
    rw [hit] at state object
    rw [if_pos same]
    refine ⟨fun _ => state, fun cond => ?_, fun _ stored _ => ?_, fun b out => ?_⟩
    · obtain ⟨rbx, rcx⟩ := cond met
      rw [(whole _RBX).mpr rbx, (whole _RCX).mpr rcx]
      exact object
    · obtain ⟨rbx, rcx⟩ := (pair _ _ _ _).mp (object.symm.trans stored)
      exact ⟨(whole _RBX).mp rbx.symm, (whole _RCX).mp rcx.symm⟩
    · refine (Memory.store_outside _ _ _ ?_).trans (Memory.store_outside _ _ _ ?_)
      · bv_omega
      · bv_omega
  · have miss : i.cmpxchg16Pass c final.seen = ⟨_, none⟩ := if_neg same
    have differs : ¬ equal final.seen := by
      rw [regs] at same
      exact same
    change final.state = (i.cmpxchg16Pass c final.seen).state at state
    change final.object = (i.cmpxchg16Pass c final.seen).stored.getD final.seen at object
    rw [miss] at state object
    rw [if_neg same]
    exact ⟨fun _ => state, fun _ => object, fun _ _ met => absurd met differs, fun _ _ => rfl⟩

end MemInsn

end Box64.Emu
