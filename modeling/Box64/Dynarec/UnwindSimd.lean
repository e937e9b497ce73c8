import Box64.Dynarec.UnwindPurge

/-!
# Unwinding recovers the entry cache

An instruction that gets MMX and SSE registers writes to their homes, whatever these hold. With the x87 instructions this tells
exactly which entry caches come back.
-/

namespace Box64.Dynarec

open Function (update)
open NeonCache

namespace NeonCache

theorem emmReg_val (a : Fin 8) : (emmReg a : Nat) = 8 + a := rfl

theorem xmmReg_val (a : Fin 16) : (xmmReg a : Nat) = if 7 < (a : Nat) then 8 + (a : Nat) else (a : Nat) := by
  unfold xmmReg
  split_ifs
  · simp only
    omega
  · rfl

theorem emmReg_ne_xmmReg (a : Fin 8) (b : Fin 16) : xmmReg b ≠ emmReg a := by
  intro same
  have := congrArg Fin.val same
  rw [emmReg_val, xmmReg_val] at this
  split_ifs at this <;> omega

theorem xmmReg_inj {a b : Fin 16} (same : xmmReg a = xmmReg b) : a = b := by
  have := congrArg Fin.val same
  rw [xmmReg_val, xmmReg_val] at this
  apply Fin.ext
  split_ifs at this <;> omega

theorem emmReg_inj {a b : Fin 8} (same : emmReg a = emmReg b) : a = b := by
  have := congrArg Fin.val same
  rw [emmReg_val, emmReg_val] at this
  exact Fin.ext (Nat.add_left_cancel this)

variable {c e : NeonCache}

/-- The purge is asked for where there is nothing to purge. -/
theorem mmxGetReg_eq (a : Fin 8) : c.mmxGetReg a = some (if c.mmxcache a ≠ none then c else
    { { c with mmxcount := c.mmxcount + 1 }.fpuGetRegEmm a with mmxcache := update c.mmxcache a (some (emmReg a)) }) := by
  have purged : (if c.x87stack = 0 ∧ c.isx87Empty then c.x87Purgecache else some c) = some c := by
    split_ifs with empty
    · exact if_pos ⟨empty.2, empty.1⟩
    · rfl
  unfold mmxGetReg
  rw [purged]
  rfl

/-- A plain exit whose SSE registers are in their homes. -/
structure SimdExit (e c : NeonCache) : Prop extends Plain e c where
  home : ∀ a i write, c.ssecache a = some (i, write) →
    i = xmmReg a ∧ ((c.neoncache i).t = .XMMR ∨ (c.neoncache i).t = .XMMW)

theorem SimdExit.of_entry (entry : e.Entry) : SimdExit e e where
  toPlain := .of_entry entry
  home := by
    intro a i write cached
    have slot := (entry.sse a i write).mp cached
    have type : (e.neoncache i).t = .XMMR ∨ (e.neoncache i).t = .XMMW := by
      rw [slot]
      cases write
      · exact .inl rfl
      · exact .inr rfl
    obtain ⟨b, number, home⟩ := entry.xmm i type
    have same : BitVec.ofNat 4 a = BitVec.ofNat 4 b := by rw [← number, slot]
    have value := congrArg BitVec.toNat same
    rw [BitVec.toNat_ofNat, BitVec.toNat_ofNat, Nat.mod_eq_of_lt a.isLt, Nat.mod_eq_of_lt b.isLt] at value
    rw [Fin.ext value]
    exact ⟨home, type⟩

/-- A register that is got in a home of its own does not concern the others. -/
theorem Plain.getReg (plain : Plain e c) {c' : NeonCache} {reg : Fin 24} {t : CacheType} {n : BitVec 4}
    (slots : c'.neoncache = (c.getReg reg t n).neoncache) (news : c'.news = (c.getReg reg t n).news)
    (swapped : c'.swapped = c.swapped) (push : c'.stack_push = c.stack_push) (pop : c'.stack_pop = c.stack_pop)
    (x87stack : c'.x87stack = c.x87stack) (stack : c'.stack = c.stack) : Plain e c' where
  swapped := swapped.trans plain.swapped
  stack_push := push.trans plain.stack_push
  stack_pop := pop.trans plain.stack_pop
  x87stack := x87stack.trans plain.x87stack
  stack := stack.trans plain.stack
  kept := by
    intro i old
    have other : i ≠ reg := by
      rintro rfl
      rw [news] at old
      exact absurd old (by simp [NeonCache.getReg])
    have slot : c'.neoncache i = c.neoncache i := by
      rw [slots]
      exact Function.update_of_ne other ..
    rw [slot]
    refine plain.kept i ?_
    rw [news] at old
    exact (Function.update_of_ne other ..).symm.trans old

end NeonCache

namespace SimdOp

variable {c c' e : NeonCache} {op op' : SimdOp}

/-- Registers have homes of their own. -/
theorem cached_congr (same : op.reg = op'.reg) : op.Cached c ↔ op'.Cached c := by
  cases op with
  | mmx a =>
    cases op' with
    | mmx b => rw [emmReg_inj same]
    | sse b => exact absurd same.symm (emmReg_ne_xmmReg a b)
  | sse a =>
    cases op' with
    | mmx b => exact absurd same (emmReg_ne_xmmReg b a)
    | sse b =>
      obtain rfl := xmmReg_inj same
      rfl

/-- Getting a register that is cached adds none. -/
theorem cached_or_reg (cached : op.Cached c) (op' : SimdOp) : op'.Cached c ↔ op'.Cached c ∨ op'.reg = op.reg := by
  refine (or_iff_left_of_imp ?_).symm
  intro same
  exact (cached_congr same).mpr cached

theorem news_getReg {reg i : Fin 24} : update c.news reg true i = true ↔ c.news i = true ∨ reg = i := by
  by_cases same : i = reg
  · subst same
    simp
  · rw [Function.update_of_ne same]
    exact (or_iff_left (Ne.symm same)).symm

theorem update_cached {α β : Type} [DecidableEq α] {table : α → Option β} {a b : α} {entry : β} :
    update table a (some entry) b ≠ none ↔ table b ≠ none ∨ b = a := by
  by_cases same : b = a
  · subst same
    simp
  · rw [Function.update_of_ne same]
    exact (or_iff_left same).symm

/-- What is asked of an operation: the exit stays one, and a register that is not cached is new, in its home. -/
def Gets (op : SimdOp) (e c c' : NeonCache) : Prop :=
  SimdExit e c' ∧ (∀ i, c'.news i = true ↔ c.news i = true ∨ ¬ op.Cached c ∧ op.reg = i) ∧
    ∀ op' : SimdOp, op'.Cached c' ↔ op'.Cached c ∨ op'.reg = op.reg

theorem mmxGetReg_gets {a : Fin 8} (exit : SimdExit e c) (stepped : c.mmxGetReg a = some c') : (mmx a).Gets e c c' := by
  rw [mmxGetReg_eq] at stepped
  split_ifs at stepped with cached
  · cases stepped
    exact ⟨exit, by simp [Cached, cached], cached_or_reg cached⟩
  · obtain rfl := Option.some.inj stepped
    refine ⟨⟨exit.toPlain.getReg rfl rfl rfl rfl rfl rfl rfl, ?_⟩, ?_, ?_⟩
    · intro b i write listed
      obtain ⟨rfl, type⟩ := exit.home b i write listed
      have slot : update c.neoncache (emmReg a) ⟨.MM, BitVec.ofNat 4 a⟩ (xmmReg b) = c.neoncache (xmmReg b) :=
        Function.update_of_ne (emmReg_ne_xmmReg a b) ..
      rw [← slot] at type
      exact ⟨rfl, type⟩
    · intro i
      have uncached : ¬ (mmx a).Cached c := cached
      rw [and_iff_right uncached]
      exact news_getReg
    · intro op'
      cases op' with
      | mmx b => exact update_cached.trans (or_congr_right ⟨congrArg emmReg, emmReg_inj⟩)
      | sse b => exact (or_iff_left (emmReg_ne_xmmReg a b)).symm

/-- An SSE register that is got is in its home, and the others stay where they are. -/
theorem home_update (exit : SimdExit e c) {a : Fin 16} {forwrite : Bool}
    (others : ∀ {i}, i ≠ xmmReg a → c'.neoncache i = c.neoncache i)
    (listed : c'.ssecache = update c.ssecache a (some (xmmReg a, forwrite)))
    (type : (c'.neoncache (xmmReg a)).t = .XMMR ∨ (c'.neoncache (xmmReg a)).t = .XMMW) :
    ∀ b i write, c'.ssecache b = some (i, write) →
      i = xmmReg b ∧ ((c'.neoncache i).t = .XMMR ∨ (c'.neoncache i).t = .XMMW) := by
  intro b i write cached
  rw [listed] at cached
  by_cases same : b = a
  · subst same
    rw [Function.update_self] at cached
    cases cached
    exact ⟨rfl, type⟩
  · rw [Function.update_of_ne same] at cached
    obtain ⟨rfl, type⟩ := exit.home b i write cached
    rw [others fun equal => same (xmmReg_inj equal)]
    exact ⟨rfl, type⟩

theorem sseGetReg_gets {a : Fin 16} {forwrite : Bool} (exit : SimdExit e c) :
    (sse a forwrite).Gets e c (c.sseGetReg a forwrite) := by
  unfold sseGetReg
  split
  · rename_i reg write found
    have cached : (sse a forwrite).Cached c := by simp [Cached, found]
    obtain ⟨rfl, type⟩ := exit.home a reg write found
    split_ifs with forwrite
    · have others : ∀ i, i ≠ xmmReg a →
          update c.neoncache (xmmReg a) { c.neoncache (xmmReg a) with t := .XMMW } i = c.neoncache i :=
        fun i other => Function.update_of_ne other ..
      have here : update c.neoncache (xmmReg a) { c.neoncache (xmmReg a) with t := .XMMW } (xmmReg a) = _ :=
        Function.update_self ..
      refine ⟨⟨{ exit.toPlain with kept := ?_ }, ?_⟩, by simp [cached], ?_⟩
      · intro i old
        refine (exit.kept i old).trans ?_
        by_cases same : i = xmmReg a
        · subst same
          dsimp only
          rw [here]
          obtain read | write := type
          · exact ⟨rfl, .inr (.inr ⟨read, rfl⟩)⟩
          · exact ⟨rfl, .inl write.symm⟩
        · dsimp only
          rw [others i same]
          exact .refl _
      · exact home_update exit (others _) rfl (.inr (congrArg NeonSlot.t here))
      · intro op'
        cases op' with
        | mmx b => exact cached_or_reg cached (mmx b)
        | sse b => exact update_cached.trans (or_congr_right ⟨congrArg xmmReg, xmmReg_inj⟩)
    · exact ⟨exit, by simp [cached], cached_or_reg cached⟩
  · rename_i found
    have uncached : ¬ (sse a forwrite).Cached c := by simp [Cached, found]
    refine ⟨⟨exit.toPlain.getReg rfl rfl rfl rfl rfl rfl rfl, ?_⟩, ?_, ?_⟩
    · refine home_update exit (fun other => Function.update_of_ne other ..) rfl ?_
      have here : update c.neoncache (xmmReg a) ⟨if forwrite then .XMMW else .XMMR, BitVec.ofNat 4 a⟩ (xmmReg a) = _ :=
        Function.update_self ..
      cases forwrite
      · exact .inl (congrArg NeonSlot.t here)
      · exact .inr (congrArg NeonSlot.t here)
    · intro i
      rw [and_iff_right uncached]
      exact news_getReg
    · intro op'
      cases op' with
      | mmx b => exact (or_iff_left (Ne.symm (emmReg_ne_xmmReg b a))).symm
      | sse b => exact update_cached.trans (or_congr_right ⟨congrArg xmmReg, xmmReg_inj⟩)

theorem step_gets {op : SimdOp} (exit : SimdExit e c) (stepped : op.step c = some c') : op.Gets e c c' := by
  cases op with
  | mmx a => exact mmxGetReg_gets exit stepped
  | sse a forwrite =>
    obtain rfl := Option.some.inj stepped
    exact sseGetReg_gets exit

/-- The new registers behind a run are the homes of those that were not cached before it. -/
theorem exec_exit {ops : List SimdOp} (exit : SimdExit e c) (ran : Runs.exec step c ops = some c') : SimdExit e c' ∧
    ∀ i, c'.news i = true ↔ c.news i = true ∨ ∃ op ∈ ops, ¬ op.Cached c ∧ op.reg = i := by
  induction ops generalizing c with
  | nil =>
    cases ran
    exact ⟨exit, by simp⟩
  | cons op ops ih =>
    obtain ⟨c₁, stepped, ran⟩ := Option.bind_eq_some_iff.mp ran
    obtain ⟨exit, news, cached⟩ := step_gets exit stepped
    obtain ⟨exit, rest⟩ := ih exit ran
    refine ⟨exit, ?_⟩
    intro i
    rw [rest, news]
    constructor
    · rintro ((before | now) | ⟨op', member, uncached, home⟩)
      · exact .inl before
      · exact .inr ⟨op, List.mem_cons_self, now⟩
      · rw [cached, not_or] at uncached
        exact .inr ⟨op', List.mem_cons_of_mem _ member, uncached.1, home⟩
    · rintro (before | ⟨op', member, uncached, home⟩)
      · exact .inl (.inl before)
      · by_cases same : op'.reg = op.reg
        · rw [cached_congr same] at uncached
          exact .inl (.inr ⟨uncached, same.symm.trans home⟩)
        · obtain rfl | member := List.mem_cons.mp member
          · exact absurd rfl same
          · refine .inr ⟨op', member, ?_, home⟩
            rw [cached, not_or]
            exact ⟨uncached, same⟩

end SimdOp

/-- The MMX and SSE registers that an instruction gets are unwound exactly if their homes were free. -/
theorem SimdOp.unwind {ops : List SimdOp} {e c : NeonCache} (entry : e.Entry) (ran : Runs.exec step e ops = some c) :
    ∃ u, c.neoncacheUnwind = some u ∧ u.Describes ∧
      (Recovers e u ↔ ∀ op ∈ ops, ¬ op.Cached e → e.neoncache op.reg = .empty) := by
  obtain ⟨exit, news⟩ := exec_exit (.of_entry entry) ran
  obtain ⟨u, unwound, describes, recovers⟩ := exit.toPlain.unwind entry
  refine ⟨u, unwound, describes, ?_⟩
  rw [recovers]
  constructor
  · intro free op member uncached
    exact free op.reg ((news _).mpr (.inr ⟨op, member, uncached, rfl⟩))
  · intro free i new
    obtain before | ⟨op, member, uncached, rfl⟩ := (news i).mp new
    · rw [entry.news i] at before
      cases before
    · exact free op member uncached

/-- Nothing of the entry is lost: an x87 instruction finds no MMX register to purge and no count to set to 0, and the MMX or SSE
registers that others add to the cache find their homes free. -/
def Instruction.Restorable (e : NeonCache) : Instruction → Prop
  | x87 ins => ((∃ op ∈ ins.ops, op.touches) → ∀ i, (e.neoncache i).t ≠ .MM) ∧
      X87Op.SynchedAtZero e.x87stack e.stack ins.pushes
  | simd ops => ∀ op ∈ ops, ¬ op.Cached e → e.neoncache op.reg = .empty

/-- From the exit cache that an instruction leaves, unwinding builds tables that describe their slots, and it recovers the entry
cache exactly if the instruction is restorable. -/
theorem neoncacheUnwind_recovers {ins : Instruction} {pass : Pass} {e c : NeonCache} (entry : e.Entry)
    (ran : ins.run pass e = some c) :
    ∃ u, c.neoncacheUnwind = some u ∧ u.Describes ∧ (Recovers e u ↔ ins.Restorable e) := by
  cases ins with
  | x87 ins => exact ins.unwind entry ran
  | simd ops => exact SimdOp.unwind entry ran

/-- Nothing cached. -/
def noCache : NeonCache where
  neoncache := fun _ => .empty
  stack := 0
  stack_next := 0
  stack_pop := 0
  stack_push := 0
  combined1 := 0
  combined2 := 0
  swapped := false
  barrier := false
  news := fun _ => false
  x87cache := fun _ => -1
  x87reg := fun _ => none
  mmxcache := fun _ => none
  ssecache := fun _ => none
  fpuused := fun _ => false
  x87stack := 0
  mmxcount := 0

/-- MM0 cached. -/
def oneMmx : NeonCache :=
  { noCache with
    neoncache := update noCache.neoncache EMM0 ⟨.MM, 0⟩
    mmxcache := fun a => if (a : Nat) = 0 then some EMM0 else none
    fpuused := update noCache.fpuused EMM0 true
    mmxcount := 1 }

/-- ST0 cached as a float in the first of its registers, and XMM0 for reading. -/
def twoRegisters : NeonCache :=
  { noCache with
    neoncache := update (update noCache.neoncache EMM0 ⟨.ST_F, 0⟩) XMM0 ⟨.XMMR, 0⟩
    x87cache := fun k => if (k : Nat) = 0 then 0 else -1
    x87reg := fun k => if (k : Nat) = 0 then some EMM0 else none
    ssecache := fun a => if (a : Nat) = 0 then some (XMM0, false) else none
    fpuused := update (update noCache.fpuused EMM0 true) XMM0 true }

theorem twoRegisters_entry : twoRegisters.Entry := by
  have st : ∀ i, (twoRegisters.neoncache i).isST ↔ i = EMM0 := by decide
  exact {
    used := by decide
    mmx := by
      refine fun a i => iff_of_false nofun ?_
      intro here
      have kind : ∀ i, (twoRegisters.neoncache i).t ≠ .MM := by decide
      exact kind i (congrArg NeonSlot.t here)
    mmxcount := by decide
    sse := by decide +kernel
    x87entry := by decide
    x87slot := by
      intro i isST
      obtain rfl := (st i).mp isST
      refine ⟨0, by decide, ?_⟩
      decide
    none := by decide
    scr := by decide
    mm := by decide
    xmm := by decide
    st := by decide
    distinct := by
      intro i j st₁ st₂ _
      exact ((st i).mp st₁).trans ((st j).mp st₂).symm
    stack_next := rfl
    stack_push := rfl
    stack_pop := rfl
    news := fun _ => rfl
    swapped := rfl }

theorem oneMmx_entry : oneMmx.Entry := by
  have kind : ∀ i, (oneMmx.neoncache i).t ≠ .XMMR ∧ (oneMmx.neoncache i).t ≠ .XMMW ∧ ¬ (oneMmx.neoncache i).isST := by decide
  exact {
    used := by decide
    mmx := by decide
    mmxcount := by decide
    sse := by
      intro a i write
      refine iff_of_false nofun ?_
      intro here
      have type := congrArg NeonSlot.t here
      cases write
      · exact (kind i).1 type
      · exact (kind i).2.1 type
    x87entry := fun _ cached => absurd rfl cached
    x87slot := fun i st => absurd st (kind i).2.2
    none := by decide
    scr := by decide
    mm := by decide
    xmm := by
      rintro i (t | t)
      · exact absurd t (kind i).1
      · exact absurd t (kind i).2.1
    st := fun i st => absurd st (kind i).2.2
    distinct := fun i _ st => absurd st (kind i).2.2
    stack_next := rfl
    stack_push := rfl
    stack_pop := rfl
    news := fun _ => rfl
    swapped := rfl }

/-- `FLD1`, a push of a float. -/
def fld1 : Instruction :=
  .x87 {
    pushes := [.push false]
    before := []
    swap := none
    after := []
    pops := 0
    pushes_push := by simp [X87Op.isPush]
    few := by decide
    before_use := by simp
    after_use := by simp }

theorem neoncacheUnwind_recovers_fld1 : ∃ c u, fld1.run .one twoRegisters = some c ∧ c.neoncacheUnwind = some u ∧
    u.Describes ∧ Recovers twoRegisters u := by
  have ran : (fld1.run .one twoRegisters).isSome := by decide
  obtain ⟨c, ran⟩ := Option.isSome_iff_exists.mp ran
  obtain ⟨u, unwound, describes, recovers⟩ := neoncacheUnwind_recovers twoRegisters_entry ran
  refine ⟨c, u, ran, unwound, describes, recovers.mpr ⟨fun _ => by decide, ?_⟩⟩
  have silent : ¬ X87Op.syncs (.push false) := id
  exact (X87Op.synchedAtZero_snoc_of_not silent).mpr X87Op.synchedAtZero_nil

/-- `FLD tbyte`, a push that synchs the stack. -/
def fldTbyte : Instruction :=
  .x87 {
    pushes := [.pushEmpty true]
    before := []
    swap := none
    after := []
    pops := 0
    pushes_push := by simp [X87Op.isPush]
    few := by decide
    before_use := by simp
    after_use := by simp }

/-- The count of the push is taken off once more. -/
example : ((fldTbyte.run .one noCache).bind neoncacheUnwind).map (fun u => (u.x87stack, u.stack)) = some (-1, -1) := by decide

/-- `FLD1` with MM0 cached purges it, and unwinding does not bring it back. -/
theorem neoncacheUnwind_purged : ¬ ∀ (ins : Instruction) (pass : Pass) (e c : NeonCache), e.Entry → ins.run pass e = some c →
    ∃ u, c.neoncacheUnwind = some u ∧ u.Describes ∧ Recovers e u := by
  intro every
  have ran : (fld1.run .one oneMmx).isSome := by decide
  obtain ⟨c, ran⟩ := Option.isSome_iff_exists.mp ran
  obtain ⟨u, unwound, -, recovers⟩ := every fld1 .one oneMmx c oneMmx_entry ran
  obtain ⟨u', unwound', -, restorable⟩ := X87Instruction.unwind _ oneMmx_entry ran
  cases unwound.symm.trans unwound'
  exact (restorable.mp recovers).1 ⟨_, List.mem_cons_self, trivial⟩ EMM0 rfl

end Box64.Dynarec
