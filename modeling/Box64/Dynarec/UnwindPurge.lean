import Box64.Dynarec.UnwindX87
import Mathlib.Data.List.Induction

/-!
# The purge of the MMX registers

Every x87 operation begins with a purge of the MMX registers, so that an x87 instruction runs as one that starts from a cache
without them. What it starts with otherwise is recovered.
-/

namespace Box64.Dynarec

open Function (update)

namespace NeonCache

variable {c c' e : NeonCache}

/-- What a purge of the MMX registers in `l` leaves of `e`. -/
structure Purged (e : NeonCache) (l : List (Fin 8)) (c : NeonCache) : Prop where
  rest : c = { e with mmxcount := 0, mmxcache := c.mmxcache, neoncache := c.neoncache, fpuused := c.fpuused }
  mmxcache : ∀ a, c.mmxcache a = if a ∈ l then none else e.mmxcache a
  freed : ∀ i, (∃ a ∈ l, e.mmxcache a = some i) → c.neoncache i = .empty ∧ c.fpuused i = false
  others : ∀ i, (¬ ∃ a ∈ l, e.mmxcache a = some i) → c.neoncache i = e.neoncache i ∧ c.fpuused i = e.fpuused i

theorem Purged.free {l : List (Fin 8)} (purged : Purged e l c) (entry : e.Entry) (a : Fin 8) :
    Purged e (l ++ [a]) (c.mmxFree a) := by
  have snoc : ∀ i, (∃ b ∈ l ++ [a], e.mmxcache b = some i) ↔ (∃ b ∈ l, e.mmxcache b = some i) ∨ e.mmxcache a = some i := by
    intro i
    simp [or_and_right, exists_or]
  cases found : c.mmxcache a with
  | none =>
    have same : c.mmxFree a = c := by rw [mmxFree, found]
    have known : a ∈ l ∨ e.mmxcache a = none := by
      have here := purged.mmxcache a
      rw [found] at here
      by_cases before : a ∈ l
      · exact .inl before
      · rw [if_neg before] at here
        exact .inr here.symm
    have covered : ∀ i, (∃ b ∈ l ++ [a], e.mmxcache b = some i) ↔ ∃ b ∈ l, e.mmxcache b = some i := by
      intro i
      rw [snoc]
      refine or_iff_left_of_imp ?_
      intro here
      obtain before | none := known
      · exact ⟨a, before, here⟩
      · cases none.symm.trans here
    rw [same]
    refine ⟨purged.rest, ?_, ?_, ?_⟩
    · intro b
      rw [purged.mmxcache b]
      by_cases last : b = a
      · subst last
        obtain before | none := known
        · rw [if_pos before, if_pos (List.mem_append_left _ before)]
        · rw [none, ite_self, ite_self]
      · simp [last]
    · exact fun i freed => purged.freed i ((covered i).mp freed)
    · exact fun i other => purged.others i (fun freed => other ((covered i).mpr freed))
  | some reg =>
    have here : e.mmxcache a = some reg := by
      have here := purged.mmxcache a
      rw [found] at here
      by_cases before : a ∈ l
      · rw [if_pos before] at here
        cases here
      · rw [if_neg before] at here
        exact here.symm
    have mm : e.neoncache reg = ⟨.MM, BitVec.ofNat 4 a⟩ := (entry.mmx a reg).mp here
    have no_st : ¬ (c.neoncache reg).isST := by
      by_cases freed : ∃ b ∈ l, e.mmxcache b = some reg
      · rw [(purged.freed reg freed).1]
        exact NeonSlot.empty_isST
      · rw [(purged.others reg freed).1, mm]
        simp [NeonSlot.isST]
    have same : c.mmxFree a = { c with
        fpuused := update c.fpuused reg false
        neoncache := update c.neoncache reg .empty
        mmxcache := update c.mmxcache a none } := by
      rw [mmxFree, found]
      simp only [fpuFreeReg, if_neg no_st]
    rw [same]
    refine ⟨?_, ?_, ?_, ?_⟩
    · rw [purged.rest]
    · intro b
      by_cases last : b = a
      · subst last
        rw [if_pos (by simp)]
        exact Function.update_self ..
      · refine (Function.update_of_ne last ..).trans ?_
        rw [purged.mmxcache b]
        simp [last]
    · intro i freed
      by_cases last : i = reg
      · subst last
        exact ⟨Function.update_self .., Function.update_self ..⟩
      · obtain before | now := (snoc i).mp freed
        · obtain ⟨slot, used⟩ := purged.freed i before
          exact ⟨(Function.update_of_ne last ..).trans slot, (Function.update_of_ne last ..).trans used⟩
        · cases here.symm.trans now
          exact absurd rfl last
    · intro i other
      rw [snoc, not_or] at other
      have last : i ≠ reg := by
        rintro rfl
        exact other.2 here
      obtain ⟨slot, used⟩ := purged.others i other.1
      exact ⟨(Function.update_of_ne last ..).trans slot, (Function.update_of_ne last ..).trans used⟩

theorem Purged.all (entry : e.Entry) (l : List (Fin 8)) : Purged e l (l.foldl mmxFree { e with mmxcount := 0 }) := by
  induction l using List.reverseRecOn with
  | nil => exact ⟨rfl, by simp, by simp, by simp⟩
  | append_singleton l a ih =>
    rw [List.foldl_append]
    exact ih.free entry a

theorem Entry.mmxcount_zero (entry : e.Entry) : e.mmxcount = 0 ↔ ∀ i, (e.neoncache i).t ≠ .MM := by
  rw [entry.mmxcount, List.countP_eq_zero]
  simp

/-- A cache without its MMX registers. -/
def withoutMmx (e : NeonCache) : NeonCache :=
  { e with
    mmxcount := 0
    mmxcache := fun _ => none
    neoncache := fun i => if (e.neoncache i).t = .MM then .empty else e.neoncache i
    fpuused := fun i => if (e.neoncache i).t = .MM then false else e.fpuused i }

theorem Entry.mmxPurgecache_eq (entry : e.Entry) : e.mmxPurgecache = e.withoutMmx := by
  have cached : ∀ i, (∃ a ∈ List.finRange 8, e.mmxcache a = some i) ↔ (e.neoncache i).t = .MM := by
    intro i
    constructor
    · rintro ⟨a, -, here⟩
      rw [(entry.mmx a i).mp here]
    · intro t
      obtain ⟨a, number, -⟩ := entry.mm i t
      refine ⟨a, List.mem_finRange a, (entry.mmx a i).mpr ?_⟩
      exact congrArg₂ NeonSlot.mk t number
  unfold mmxPurgecache
  split_ifs with none
  · have no_mm := entry.mmxcount_zero.mp none
    have empty : e.mmxcache = fun _ => Option.none := by
      funext a
      rw [Option.eq_none_iff_forall_ne_some]
      intro i here
      exact no_mm i (congrArg NeonSlot.t ((entry.mmx a i).mp here))
    have slots : e.neoncache = fun i => if (e.neoncache i).t = .MM then .empty else e.neoncache i :=
      funext fun i => (if_neg (no_mm i)).symm
    have used : e.fpuused = fun i => if (e.neoncache i).t = .MM then false else e.fpuused i :=
      funext fun i => (if_neg (no_mm i)).symm
    unfold withoutMmx
    rw [← slots, ← used, ← empty, ← none]
  · have purged := Purged.all entry (List.finRange 8)
    generalize (List.finRange 8).foldl mmxFree { e with mmxcount := 0 } = c at purged
    have empty : c.mmxcache = fun _ => Option.none :=
      funext fun a => (purged.mmxcache a).trans (if_pos (List.mem_finRange a))
    have slots : c.neoncache = fun i => if (e.neoncache i).t = .MM then .empty else e.neoncache i := by
      funext i
      split_ifs with t
      · exact (purged.freed i ((cached i).mpr t)).1
      · exact (purged.others i (fun freed => t ((cached i).mp freed))).1
    have used : c.fpuused = fun i => if (e.neoncache i).t = .MM then false else e.fpuused i := by
      funext i
      split_ifs with t
      · exact (purged.freed i ((cached i).mpr t)).2
      · exact (purged.others i (fun freed => t ((cached i).mp freed))).2
    rw [purged.rest, empty, slots, used]
    rfl

/-- The slots that a purge leaves are the others. -/
theorem withoutMmx_slot {s : NeonSlot} (other : s.t ≠ .MM) (held : s ≠ .empty) (i : Fin 24) :
    e.withoutMmx.neoncache i = s ↔ e.neoncache i = s := by
  by_cases t : (e.neoncache i).t = .MM
  · have gone : e.withoutMmx.neoncache i = .empty := if_pos t
    rw [gone]
    refine iff_of_false held.symm ?_
    rintro rfl
    exact other t
  · have kept : e.withoutMmx.neoncache i = e.neoncache i := if_neg t
    rw [kept]

theorem withoutMmx_st (i : Fin 24) : (e.withoutMmx.neoncache i).isST ↔ (e.neoncache i).isST := by
  by_cases t : (e.neoncache i).t = .MM
  · have gone : e.withoutMmx.neoncache i = .empty := if_pos t
    rw [gone]
    exact iff_of_false NeonSlot.empty_isST (by simp [NeonSlot.isST, t])
  · have kept : e.withoutMmx.neoncache i = e.neoncache i := if_neg t
    rw [kept]

theorem Entry.withoutMmx (entry : e.Entry) : e.withoutMmx.Entry := by
  have each : ∀ i, e.withoutMmx.neoncache i = .empty ∨ (e.neoncache i).Upgrades (e.withoutMmx.neoncache i) := by
    intro i
    by_cases t : (e.neoncache i).t = .MM
    · exact .inl (if_pos t)
    · have kept : e.withoutMmx.neoncache i = e.neoncache i := if_neg t
      rw [kept]
      exact .inr (.refl _)
  have same : ∀ i, (e.neoncache i).isST → e.withoutMmx.neoncache i = e.neoncache i := by
    rintro i (t | t) <;> exact if_neg (by simp [t])
  have placed : Placed e.withoutMmx.neoncache := entry.toPlaced.of_upgrades each
  have describes : e.withoutMmx.Describes := {
    used := by
      intro i
      by_cases t : (e.neoncache i).t = .MM
      · have gone : e.withoutMmx.neoncache i = .empty := if_pos t
        have unused : e.withoutMmx.fpuused i = false := if_pos t
        simp [gone, unused]
      · have kept : e.withoutMmx.neoncache i = e.neoncache i := if_neg t
        have used : e.withoutMmx.fpuused i = e.fpuused i := if_neg t
        rw [kept, used]
        exact entry.used i
    mmx := by
      intro a i
      refine iff_of_false nofun ?_
      intro here
      by_cases t : (e.neoncache i).t = .MM
      · have gone : e.withoutMmx.neoncache i = .empty := if_pos t
        cases gone.symm.trans here
      · have kept : e.withoutMmx.neoncache i = e.neoncache i := if_neg t
        exact t (congrArg NeonSlot.t (kept.symm.trans here))
    mmxcount := by
      refine (List.countP_eq_zero.mpr ?_).symm
      rintro i -
      by_cases t : (e.neoncache i).t = .MM
      · simp [NeonCache.withoutMmx, t, NeonSlot.empty]
      · simp [NeonCache.withoutMmx, t]
    sse := by
      intro a i write
      rw [withoutMmx_slot (by cases write <;> simp) (by cases write <;> simp [NeonSlot.empty])]
      exact entry.sse a i write
    x87entry := by
      intro k cached
      obtain ⟨i, reg, st, number⟩ := entry.x87entry k cached
      exact ⟨i, reg, (withoutMmx_st i).mpr st, by rw [same i st]; exact number⟩
    x87slot := fun i st => entry.x87slot i ((withoutMmx_st i).mp st) }
  exact {
    toDescribes := describes
    toPlaced := placed
    stack_next := entry.stack_next
    stack_push := entry.stack_push
    stack_pop := entry.stack_pop
    news := entry.news
    swapped := entry.swapped }

end NeonCache

namespace NeonCache

variable {c c' e : NeonCache} {pass : Pass}

theorem mmxPurgecache_mmxcount : c.mmxPurgecache.mmxcount = 0 := by
  have folded : ∀ (l : List (Fin 8)) (c : NeonCache), (l.foldl mmxFree c).mmxcount = c.mmxcount := by
    intro l
    induction l with
    | nil => exact fun _ => rfl
    | cons a l ih =>
      intro c
      rw [List.foldl_cons, ih]
      unfold mmxFree
      split <;> rfl
  unfold mmxPurgecache
  split_ifs with none
  · exact none
  · exact folded _ _

theorem mmxPurgecache_idem : c.mmxPurgecache.mmxPurgecache = c.mmxPurgecache := mmxPurgecache_of_none mmxPurgecache_mmxcount

theorem upgrade_fpuFreeReg (i reg : Fin 24) : (c.upgrade i).fpuFreeReg reg = (c.fpuFreeReg reg).upgrade i := by
  by_cases single : (c.neoncache i).t = .ST_F
  · have up : c.upgrade i = c.promote i := if_pos single
    rw [up]
    by_cases st : (c.neoncache reg).isST
    · have st' : ((c.promote i).neoncache reg).isST := by
        by_cases same : reg = i
        · subst same
          have here : (c.promote reg).neoncache reg = { c.neoncache reg with t := .ST_D } := Function.update_self ..
          rw [here]
          exact .inl rfl
        · have kept : (c.promote i).neoncache reg = c.neoncache reg := Function.update_of_ne same ..
          rwa [kept]
      rw [fpuFreeReg_of_st st, fpuFreeReg_of_st st']
      exact (if_pos single).symm
    · have other : reg ≠ i := by
        rintro rfl
        exact st (.inr single)
      have here : (c.fpuFreeReg reg).neoncache i = c.neoncache i := by
        simp only [fpuFreeReg, if_neg st]
        exact Function.update_of_ne other.symm ..
      have up' : (c.fpuFreeReg reg).upgrade i = (c.fpuFreeReg reg).promote i := if_pos (by rw [here]; exact single)
      rw [up']
      unfold promote
      rw [here]
      simp only [fpuFreeReg, Function.update_of_ne other, if_neg st, Function.update_comm other]
  · have up : c.upgrade i = c := if_neg single
    have still : ((c.fpuFreeReg reg).neoncache i).t ≠ .ST_F := by
      unfold fpuFreeReg
      dsimp only
      split_ifs
      · exact single
      · by_cases same : i = reg
        · subst same
          rw [Function.update_self]
          decide
        · rw [Function.update_of_ne same]
          exact single
    rw [up]
    exact (if_neg still).symm

theorem upgrade_mmxFree (i : Fin 24) (a : Fin 8) : (c.upgrade i).mmxFree a = (c.mmxFree a).upgrade i := by
  have same : (c.upgrade i).mmxcache = c.mmxcache := by
    unfold upgrade
    split_ifs <;> rfl
  unfold mmxFree
  rw [same]
  cases c.mmxcache a with
  | none => rfl
  | some reg =>
    simp only
    rw [upgrade_fpuFreeReg]
    unfold upgrade
    split_ifs <;> rfl

/-- Upgrades do not see a purge. -/
theorem upgrade_mmxPurgecache (i : Fin 24) : (c.upgrade i).mmxPurgecache = c.mmxPurgecache.upgrade i := by
  have count : (c.upgrade i).mmxcount = c.mmxcount := by
    unfold upgrade
    split_ifs <;> rfl
  have cleared : { c.upgrade i with mmxcount := 0 } = { c with mmxcount := 0 }.upgrade i := by
    unfold upgrade
    split_ifs <;> rfl
  have folded : ∀ (l : List (Fin 8)) (c : NeonCache), l.foldl mmxFree (c.upgrade i) = (l.foldl mmxFree c).upgrade i := by
    intro l
    induction l with
    | nil => exact fun _ => rfl
    | cons a l ih =>
      intro c
      rw [List.foldl_cons, List.foldl_cons, upgrade_mmxFree, ih]
  unfold mmxPurgecache
  rw [count]
  split_ifs
  · rfl
  · rw [cleared, folded]

end NeonCache

open NeonCache

variable {c e : NeonCache} {pass : Pass}

/-- Every operation but an upgrade purges the MMX registers first. -/
theorem X87Op.step_purged {op : X87Op} (touches : op.touches) : op.step pass c.mmxPurgecache = op.step pass c := by
  cases op with
  | push double => simp only [step, x87DoPush, mmxPurgecache_idem]
  | pushEmpty => simp only [step, x87DoPushEmpty, mmxPurgecache_idem]
  | get st double => simp only [step, x87GetCache, mmxPurgecache_idem]
  | upgrade i => exact touches.elim
  | swap a double_a b double_b =>
    have first : c.mmxPurgecache.x87GetCache pass b double_b = c.x87GetCache pass b double_b := by
      simp only [x87GetCache, mmxPurgecache_idem]
    simp only [step, x87Swapreg, first]
  | pop => simp only [step, x87DoPop, mmxPurgecache_idem]

/-- A run that purges the MMX registers is one of a cache without them. -/
theorem X87Op.exec_purged {ops : List X87Op} (touched : ∃ op ∈ ops, op.touches) (ran : Runs.exec (step pass) e ops = some c) :
    Runs.exec (step pass) e.mmxPurgecache ops = some c := by
  induction ops generalizing e with
  | nil =>
    obtain ⟨op, member, -⟩ := touched
    cases member
  | cons op ops ih =>
    by_cases touches : op.touches
    · rw [Runs.exec, step_purged touches]
      exact ran
    · obtain ⟨other, member, other_touches⟩ := touched
      obtain rfl | later := List.mem_cons.mp member
      · exact absurd other_touches touches
      · cases op with
        | upgrade i =>
          have rest := ih ⟨other, later, other_touches⟩ ran
          rw [upgrade_mmxPurgecache] at rest
          exact rest
        | push | pushEmpty | get | swap | pop => exact absurd trivial touches

namespace NeonCache

variable {c c' e : NeonCache} {pass : Pass}

/-- What an instruction leaves behind that has neither moved nor swapped registers of the x87 stack. -/
structure Plain (e c : NeonCache) : Prop where
  swapped : c.swapped = false
  stack_push : c.stack_push = 0
  stack_pop : c.stack_pop = 0
  x87stack : c.x87stack = e.x87stack
  stack : c.stack = e.stack
  kept : ∀ i, c.news i = false → (e.neoncache i).Upgrades (c.neoncache i)

theorem Plain.of_entry (entry : e.Entry) : Plain e e :=
  ⟨entry.swapped, entry.stack_push, entry.stack_pop, rfl, rfl, fun _ _ => .refl _⟩

/-- Unwinding empties the new slots, so those must have been empty before. -/
theorem Plain.unwind (plain : Plain e c) (entry : e.Entry) : ∃ u, c.neoncacheUnwind = some u ∧ u.Describes ∧
    (Recovers e u ↔ ∀ i, c.news i = true → e.neoncache i = .empty) := by
  have unswapped : c.unwindSwap = c := if_neg (by simp [plain.swapped])
  have slot : ∀ i, c.unwindSwap.unwindNews.unwindPush.neoncache i = if c.news i then .empty else c.neoncache i := by
    intro i
    have unpushed : c.unwindNews.unwindPush = c.unwindNews := if_neg (Classical.not_not.mpr plain.stack_push)
    rw [unswapped, unpushed]
    rfl
  have each : ∀ i, c.unwindSwap.unwindNews.unwindPush.neoncache i = .empty ∨
      (e.neoncache i).Upgrades (c.unwindSwap.unwindNews.unwindPush.neoncache i) := by
    intro i
    rw [slot]
    split_ifs with new
    · exact .inl rfl
    · exact .inr (plain.kept i (by simpa using new))
  obtain ⟨u, unwound, describes, same, x87stack, stack, stack_next⟩ :=
    neoncacheUnwind_describes (entry.toPlaced.of_upgrades each)
  refine ⟨u, unwound, describes, ?_, ?_⟩
  · intro recovers i new
    have up := recovers.slots i
    rw [same, slot, if_pos new] at up
    exact up.empty
  · intro free
    have kept_stack : u.stack = e.stack := by
      have := plain.stack
      have := plain.stack_push
      omega
    exact {
      slots := by
        intro i
        rw [same, slot]
        split_ifs with new
        · rw [free i new]
          exact .refl _
        · exact plain.kept i (by simpa using new)
      x87stack := by
        have := plain.x87stack
        have := plain.stack_push
        have := plain.stack_pop
        omega
      stack := kept_stack
      stack_next := by rw [stack_next, kept_stack, entry.stack_next] }

theorem Plain.upgrade (plain : Plain e c) (i : Fin 24) : Plain e (c.upgrade i) ∧ (c.upgrade i).news = c.news := by
  unfold NeonCache.upgrade
  split_ifs with single
  · refine ⟨{ plain with kept := ?_ }, rfl⟩
    intro j old
    refine (plain.kept j old).trans ?_
    by_cases same : j = i
    · subst same
      have here : (c.promote j).neoncache j = { c.neoncache j with t := .ST_D } := Function.update_self ..
      rw [here]
      exact ⟨rfl, .inr (.inl ⟨single, rfl⟩)⟩
    · have here : (c.promote i).neoncache j = c.neoncache j := Function.update_of_ne same ..
      rw [here]
      exact .refl _
  · exact ⟨plain, rfl⟩

end NeonCache

/-- What is recovered with the counters of the entry cache is the entry cache. -/
theorem NeonCache.Recovers.recount_iff {e u : NeonCache} {x87stack stack : Int} (entry : e.Entry)
    (recovers : Recovers (e.recount x87stack stack) u) : Recovers e u ↔ x87stack = e.x87stack ∧ stack = e.stack := by
  have count : u.x87stack = x87stack := recovers.x87stack
  have depth : u.stack = stack := recovers.stack
  have next : u.stack_next = stack := recovers.stack_next
  constructor
  · intro whole
    exact ⟨count.symm.trans whole.x87stack, depth.symm.trans whole.stack⟩
  · rintro ⟨rfl, rfl⟩
    exact ⟨recovers.slots, count, depth, next.trans entry.stack_next.symm⟩

/-- What is recovered without the MMX registers is the whole cache exactly if there were none. -/
theorem NeonCache.Recovers.withoutMmx_iff {e u : NeonCache} (recovers : ∀ i, (e.withoutMmx.neoncache i).Upgrades (u.neoncache i)) :
    (∀ i, (e.neoncache i).Upgrades (u.neoncache i)) ↔ ∀ i, (e.neoncache i).t ≠ .MM := by
  constructor
  · intro whole i mm
    have gone : e.withoutMmx.neoncache i = .empty := if_pos mm
    have lost := (recovers i).empty_iff.mpr gone
    have empty := (whole i).empty_iff.mp lost
    rw [empty] at mm
    cases mm
  · intro none i
    have kept : e.withoutMmx.neoncache i = e.neoncache i := if_neg (none i)
    rw [← kept]
    exact recovers i

/-- An instruction on the x87 stack is unwound to what it started with exactly if it does not purge MMX registers and its
pushes are counted. -/
theorem X87Instruction.unwind (ins : X87Instruction) {e c : NeonCache} {pass : Pass} (entry : e.Entry)
    (ran : Runs.exec (X87Op.step pass) e ins.ops = some c) : ∃ u, c.neoncacheUnwind = some u ∧ u.Describes ∧
      (Recovers e u ↔ ((∃ op ∈ ins.ops, op.touches) → ∀ i, (e.neoncache i).t ≠ .MM) ∧
        X87Op.SynchedAtZero e.x87stack e.stack ins.pushes) := by
  by_cases touched : ∃ op ∈ ins.ops, op.touches
  · have purged := X87Op.exec_purged touched ran
    rw [entry.mmxPurgecache_eq] at purged
    obtain ⟨x87stack, stack, swap, exit, counts⟩ := ins.exit entry.withoutMmx rfl purged
    obtain ⟨u, unwound, describes, recovers⟩ := exit.recovers (entry.withoutMmx.recount _ _) ins.few
    refine ⟨u, unwound, describes, ?_⟩
    have counted : x87stack = e.x87stack ∧ stack = e.stack ↔ X87Op.SynchedAtZero e.x87stack e.stack ins.pushes := by
      rw [← X87Op.counted_eq_iff, ← show (x87stack + ins.pushes.length, stack + ins.pushes.length) =
        ins.pushes.foldl X87Op.counted (e.x87stack, e.stack) from counts, Prod.mk.injEq]
      omega
    have slots := Recovers.withoutMmx_iff recovers.slots
    have counters := recovers.recount_iff entry.withoutMmx
    rw [imp_iff_right touched, ← counted]
    constructor
    · intro whole
      refine ⟨slots.mp whole.slots, counters.mp ⟨recovers.slots, whole.x87stack, whole.stack, whole.stack_next⟩⟩
    · rintro ⟨none, same⟩
      have whole := counters.mpr same
      exact ⟨slots.mpr none, whole.x87stack, whole.stack, whole.stack_next⟩
  · have plain : Plain e c ∧ c.news = e.news := by
      refine Runs.exec_keeps (P := fun c => Plain e c ∧ c.news = e.news) ?_ ⟨.of_entry entry, rfl⟩ ran
      rintro c c' op member ⟨plain, news⟩ stepped
      cases op with
      | upgrade i =>
        obtain rfl : c.upgrade i = c' := Option.some.inj stepped
        exact ⟨(plain.upgrade i).1, (plain.upgrade i).2.trans news⟩
      | push | pushEmpty | get | swap | pop => exact absurd ⟨_, member, trivial⟩ touched
    have no_pushes : ins.pushes = [] := by
      cases pushes : ins.pushes with
      | nil => rfl
      | cons op rest =>
        have isPush := ins.pushes_push op (by simp [pushes])
        refine absurd ⟨op, by simp [X87Instruction.ops, pushes], ?_⟩ touched
        cases op with
        | push | pushEmpty => trivial
        | get | upgrade | swap | pop => exact isPush.elim
    obtain ⟨u, unwound, describes, recovers⟩ := plain.1.unwind entry
    refine ⟨u, unwound, describes, ?_⟩
    rw [recovers, no_pushes]
    refine iff_of_true ?_ ⟨fun touched' => absurd touched' touched, X87Op.synchedAtZero_nil⟩
    intro i new
    rw [plain.2, entry.news i] at new
    cases new

end Box64.Dynarec
