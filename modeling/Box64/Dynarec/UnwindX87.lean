import Box64.Dynarec.UnwindExit
import Mathlib.Data.List.Induction

/-!
# The x87 operations on the cache

What pushes, gets, the swap and pops make of a cache without MMX registers, step by step: up to the pops the entries keep listing
the slots of the x87 stack, and the slots keep what unwinding needs of them.
-/

namespace Box64.Dynarec

open Function (update)

/-! ### The counters -/

namespace X87Op

/-- What a push makes of `x87stack` and `stack`. -/
def counted (counts : Int × Int) (op : X87Op) : Int × Int :=
  if op.syncs ∧ counts.1 + 1 ≠ 0 then (0, 0) else (counts.1 + 1, counts.2 + 1)

/-- The last push that synchs the stack finds its count at 0, and so it did before if another one has set it to 0. -/
def SynchedAtZero (x87stack stack : Int) (pushes : List X87Op) : Prop :=
  ∀ earlier op later, pushes = earlier ++ op :: later → op.syncs → (∀ op ∈ later, ¬ op.syncs) →
    x87stack + (earlier.length + 1) = 0 ∧ ((∃ op ∈ earlier, op.syncs) → stack + (earlier.length + 1) = 0)

variable {x87stack stack : Int} {pushes : List X87Op} {op : X87Op}

theorem synchedAtZero_nil : SynchedAtZero x87stack stack [] := by
  intro earlier op later split
  exact absurd split.symm (by simp)

theorem synchedAtZero_snoc (syncs : op.syncs) : SynchedAtZero x87stack stack (pushes ++ [op]) ↔
    x87stack + (pushes.length + 1) = 0 ∧ ((∃ op ∈ pushes, op.syncs) → stack + (pushes.length + 1) = 0) := by
  constructor
  · intro synched
    exact synched pushes op [] rfl syncs (by simp)
  · rintro last earlier other later split - unsynched
    obtain rfl | ⟨later, final, rfl⟩ := List.eq_nil_or_concat later
    · obtain ⟨rfl, -⟩ := List.append_inj' split rfl
      exact last
    · have split : pushes ++ [op] = (earlier ++ other :: later) ++ [final] := by simp [split]
      obtain ⟨-, same⟩ := List.append_inj' split rfl
      cases same
      exact absurd syncs (unsynched op (by simp))

theorem synchedAtZero_snoc_of_not (silent : ¬ op.syncs) :
    SynchedAtZero x87stack stack (pushes ++ [op]) ↔ SynchedAtZero x87stack stack pushes := by
  constructor
  · intro synched earlier other later split syncs unsynched
    refine synched earlier other (later ++ [op]) (by simp [split]) syncs ?_
    simp only [List.mem_append, List.mem_singleton]
    rintro o (member | rfl)
    · exact unsynched o member
    · exact silent
  · intro synched earlier other later split syncs unsynched
    obtain rfl | ⟨later, final, rfl⟩ := List.eq_nil_or_concat later
    · obtain ⟨-, same⟩ := List.append_inj' split rfl
      cases same
      exact absurd syncs silent
    · have split : pushes ++ [op] = (earlier ++ other :: later) ++ [final] := by simp [split]
      obtain ⟨rfl, -⟩ := List.append_inj' split rfl
      exact synched earlier other later rfl syncs fun o member => unsynched o (by simp [member])

/-- The counters have counted all the pushes, or those behind a synch. -/
theorem counted_cases (pushes : List X87Op) (x87stack stack : Int) :
    ∃ x s, pushes.foldl counted (x87stack, stack) = (x, s) ∧ ((∃ op ∈ pushes, op.syncs) → 0 ≤ x) ∧
      ((¬ ∃ op ∈ pushes, op.syncs) → x = x87stack + pushes.length ∧ s = stack + pushes.length) := by
  induction pushes using List.reverseRecOn with
  | nil => exact ⟨x87stack, stack, rfl, by simp, by simp⟩
  | append_singleton pushes op ih =>
    obtain ⟨x, s, counts, some_sync, no_sync⟩ := ih
    have snoc : (∃ o ∈ pushes ++ [op], o.syncs) ↔ (∃ o ∈ pushes, o.syncs) ∨ op.syncs := by
      simp [or_and_right, exists_or]
    rw [List.foldl_append, counts, snoc]
    by_cases synched : op.syncs ∧ x + 1 ≠ 0
    · exact ⟨0, 0, if_pos synched, by simp, fun none => absurd (.inr synched.1) none⟩
    · refine ⟨x + 1, s + 1, if_neg synched, ?_, ?_⟩
      · rintro (before | syncs)
        · have := some_sync before
          omega
        · have zero : x + 1 = 0 := Classical.not_not.mp fun nonzero => synched ⟨syncs, nonzero⟩
          omega
      · intro none
        obtain ⟨x_eq, s_eq⟩ := no_sync fun before => none (.inl before)
        rw [List.length_append, List.length_singleton]
        omega

/-- The counters tell the number of the pushes exactly if no synch has set them to 0 for good. -/
theorem counted_eq_iff (pushes : List X87Op) (x87stack stack : Int) :
    pushes.foldl counted (x87stack, stack) = (x87stack + pushes.length, stack + pushes.length) ↔
      SynchedAtZero x87stack stack pushes := by
  induction pushes using List.reverseRecOn with
  | nil => exact iff_of_true (by simp) synchedAtZero_nil
  | append_singleton pushes op ih =>
    obtain ⟨x, s, counts, some_sync, no_sync⟩ := counted_cases pushes x87stack stack
    rw [counts, Prod.mk.injEq] at ih
    rw [List.foldl_append, counts, List.length_append, List.length_singleton]
    by_cases syncs : op.syncs
    · rw [synchedAtZero_snoc syncs]
      by_cases before : ∃ op ∈ pushes, op.syncs
      · have positive := some_sync before
        have final : counted (x, s) op = (0, 0) := if_pos ⟨syncs, by omega⟩
        rw [List.foldl_cons, List.foldl_nil, final, Prod.mk.injEq, imp_iff_right before]
        omega
      · obtain ⟨rfl, rfl⟩ := no_sync before
        rw [List.foldl_cons, List.foldl_nil, and_iff_left (fun sync => absurd sync before)]
        by_cases zero : x87stack + pushes.length + 1 = 0
        · have final : counted (x87stack + pushes.length, stack + pushes.length) op =
              (x87stack + pushes.length + 1, stack + pushes.length + 1) := if_neg fun both => both.2 zero
          rw [final, Prod.mk.injEq]
          omega
        · have final : counted (x87stack + pushes.length, stack + pushes.length) op = (0, 0) := if_pos ⟨syncs, zero⟩
          rw [final, Prod.mk.injEq]
          omega
    · have final : counted (x, s) op = (x + 1, s + 1) := if_neg fun both => syncs both.1
      rw [synchedAtZero_snoc_of_not syncs, ← ih, List.foldl_cons, List.foldl_nil, final, Prod.mk.injEq]
      omega

end X87Op

namespace NeonCache

variable {c : NeonCache}

/-- The numbers that `P` pushes can have made. -/
def Bounded (P : Nat) (c : NeonCache) : Prop := ∀ i, (c.neoncache i).isST → (c.neoncache i).n.toNat < 8 + P

/-- The register `st` of the x87 stack is cached in the NEON register `i` and listed in the entry `k`. -/
def cacheST (c : NeonCache) (k : Fin 8) (i : Fin 24) (t : CacheType) (st : BitVec 4) : NeonCache :=
  { c.getReg i t st with x87cache := update c.x87cache k st.toNat, x87reg := update c.x87reg k (some i) }

theorem mmxPurgecache_of_none (none : c.mmxcount = 0) : c.mmxPurgecache = c := if_pos none

theorem stType_cases (double : Bool) : stType double = .ST_D ∨ stType double = .ST_F := by cases double <;> simp [stType]

/-- What a register that is got is: a free one. -/
theorem fpuGetRegX87_cases {t : CacheType} {n : BitVec 4} {c' : NeonCache} {i : Fin 24}
    (got : c.fpuGetRegX87 t n = some (c', i)) : c.fpuused i = false ∧ c' = c.getReg i t n := by
  obtain ⟨j, found, same⟩ := Option.map_eq_some_iff.mp got
  cases same
  have free := List.find?_some found
  simp only [decide_eq_true_eq, Bool.not_eq_true] at free
  exact ⟨free.2, rfl⟩

theorem freeEntry_cases {k : Fin 8} (free : c.freeEntry = some k) : c.x87cache k = -1 := by
  have found := List.find?_some free
  simpa using found

theorem x87DoPush_cases {pass : Pass} {double : Bool} {c' : NeonCache} (none : c.mmxcount = 0)
    (pushed : c.x87DoPush pass double = some c') :
    c' = c.pushAll ∨ ∃ k i double', c.x87cache k = -1 ∧ c.fpuused i = false ∧
      c' = c.pushAll.cacheST k i (stType double') 0 := by
  simp only [x87DoPush, mmxPurgecache_of_none none] at pushed
  cases found : c.freeEntry with
  | none =>
    simp only [found, Option.some.injEq] at pushed
    exact .inl pushed.symm
  | some k =>
    simp only [found] at pushed
    obtain ⟨⟨c₁, i⟩, got, rfl⟩ := Option.map_eq_some_iff.mp pushed
    obtain ⟨free, rfl⟩ := fpuGetRegX87_cases got
    have cached : ∀ t, { c.pushAll.getReg i (stType double) 0 with
        x87cache := update c.pushAll.x87cache k 0
        x87reg := update c.pushAll.x87reg k (some i)
        neoncache := update (c.pushAll.getReg i (stType double) 0).neoncache i
          { (c.pushAll.getReg i (stType double) 0).neoncache i with t := t } } = c.pushAll.cacheST k i t 0 := by
      intro t
      simp only [cacheST, getReg, Function.update_self, Function.update_idem]
      rfl
    cases pass with
    | one =>
      by_cases high : (i : Nat) > 15
      · refine .inr ⟨k, i, true, freeEntry_cases found, free, ?_⟩
        simp only [if_pos high]
        exact cached _
      · refine .inr ⟨k, i, double, freeEntry_cases found, free, ?_⟩
        simp only [if_neg high]
        exact cached _
    | other x87_st0 => exact .inr ⟨k, i, x87_st0, freeEntry_cases found, free, cached _⟩

theorem x87GetCurrentCache_cases {pass : Pass} {st : BitVec 4} {double : Bool} {k : Fin 8} {c' : NeonCache}
    (got : c.x87GetCurrentCache pass st double k = some c') :
    c' = c ∨ ∃ i, (c.neoncache i).t = .ST_F ∧ c' = c.promote i := by
  unfold x87GetCurrentCache at got
  split_ifs at got
  · obtain ⟨reg, -, rfl⟩ := Option.map_eq_some_iff.mp got
    split_ifs
    · unfold promoteST
      split
      · exact .inl rfl
      · rename_i i found
        have single := List.find?_some found
        simp only [decide_eq_true_eq] at single
        exact .inr ⟨i, single.1, rfl⟩
    · exact .inl rfl
  · exact .inl (Option.some.inj got).symm

theorem x87GetCache_cases {pass : Pass} {st : BitVec 4} {double : Bool} {k : Fin 8} {c' : NeonCache}
    (none : c.mmxcount = 0) (got : c.x87GetCache pass st double = some (c', k)) :
    c.x87cache k = st.toNat ∧ (c' = c ∨ ∃ i, (c.neoncache i).t = .ST_F ∧ c' = c.promote i) ∨
    (∀ j, c.x87cache j ≠ st.toNat) ∧ c.x87cache k = -1 ∧
      ∃ i, c.fpuused i = false ∧ c' = c.cacheST k i (stType double) st := by
  simp only [x87GetCache, mmxPurgecache_of_none none] at got
  split at got
  · rename_i j found
    obtain ⟨c₁, got, same⟩ := Option.map_eq_some_iff.mp got
    cases same
    have listed := List.find?_some found
    exact .inl ⟨by simpa using listed, x87GetCurrentCache_cases got⟩
  · rename_i absent
    obtain ⟨ret, free, got⟩ := Option.bind_eq_some_iff.mp got
    obtain ⟨⟨c₁, i⟩, taken, same⟩ := Option.map_eq_some_iff.mp got
    cases same
    obtain ⟨unused, rfl⟩ := fpuGetRegX87_cases taken
    refine .inr ⟨?_, freeEntry_cases free, i, unused, rfl⟩
    intro j
    simpa using List.find?_eq_none.mp absent j (List.mem_finRange j)

end NeonCache

namespace NeonCache

variable {c c' e : NeonCache} {swap : Option (BitVec 4 × BitVec 4)} {P : Nat}

/-- An exit before the pops, where the tables still describe the slots. -/
structure Tracks (e : NeonCache) (swap : Option (BitVec 4 × BitVec 4)) (P : Nat) (c : NeonCache) : Prop
    extends Exit e swap P c where
  stack_pop : c.stack_pop = 0
  used : ∀ i, c.fpuused i = true ↔ c.neoncache i ≠ .empty
  listed : ∀ i, (c.neoncache i).isST → ∃ k, c.x87cache k = (c.neoncache i).n.toNat

theorem Tracks.of_entry (entry : e.Entry) (noMmx : e.mmxcount = 0) : Tracks e none 0 e where
  mmxcount := noMmx
  created := fun i new => absurd new (by simp [entry.news i])
  kept := fun i _ => by rw [NeonSlot.shift_zero]; exact .refl _
  distinct := entry.distinct
  registers := by
    intro k reg cached here
    obtain ⟨i, same, st, -⟩ := entry.x87entry k cached
    cases here.symm.trans same
    exact st
  stack_push := entry.stack_push
  x87stack := by rw [entry.stack_pop, Int.add_zero, Int.natCast_zero, Int.add_zero]
  stack := by rw [Int.natCast_zero, Int.add_zero]
  swapped := entry.swapped
  stack_pop := entry.stack_pop
  used := entry.used
  listed := by
    intro i st
    obtain ⟨k, ⟨cached, reg⟩, -⟩ := entry.x87slot i st
    obtain ⟨j, same, -, number⟩ := entry.x87entry k cached
    cases reg.symm.trans same
    exact ⟨k, number⟩

/-- A swap stays recorded while its two registers are held. -/
theorem Swapped.mono (swapped : c.Swapped swap) (flag : c'.swapped = c.swapped) (combined1 : c'.combined1 = c.combined1)
    (combined2 : c'.combined2 = c.combined2) (holds : ∀ n, c.Holds n → c'.Holds n) : c'.Swapped swap := by
  cases swap with
  | none => exact flag.trans swapped
  | some ab =>
    obtain ⟨swapped, first, second, holds₁, holds₂⟩ := swapped
    exact ⟨flag.trans swapped, combined1.trans first, combined2.trans second, holds _ holds₁, holds _ holds₂⟩

namespace Tracks

variable (tracks : Tracks e swap P c)

include tracks

theorem unused {i : Fin 24} (free : c.fpuused i = false) : c.neoncache i = .empty := by
  by_contra kept
  exact absurd ((tracks.used i).mpr kept) (by simp [free])

/-- A register of the x87 stack that no entry lists is in no slot. -/
theorem absent {st : BitVec 4} (unlisted : ∀ j, c.x87cache j ≠ st.toNat) : ¬ c.Holds st := by
  rintro ⟨i, isST, rfl⟩
  obtain ⟨k, listed⟩ := tracks.listed i isST
  exact unlisted k listed

/-- A free register of the cache takes a register of the x87 stack that the cache does not hold. -/
theorem cacheST {k : Fin 8} {i : Fin 24} {t : CacheType} {st : BitVec 4} (free : c.fpuused i = false)
    (entry : c.x87cache k = -1) (type : t = .ST_D ∨ t = .ST_F) (absent : ¬ c.Holds st) :
    Tracks e swap P (c.cacheST k i t st) := by
  have empty := tracks.unused free
  have here : (c.cacheST k i t st).neoncache i = ⟨t, st⟩ := Function.update_self ..
  have others : ∀ j, j ≠ i → (c.cacheST k i t st).neoncache j = c.neoncache j := fun j other => Function.update_of_ne other ..
  have apart : ∀ j, (c.neoncache j).isST → j ≠ i := by
    rintro j st rfl
    rw [empty] at st
    exact NeonSlot.empty_isST st
  have news : ∀ j, j ≠ i → (c.cacheST k i t st).news j = c.news j := fun j other => Function.update_of_ne other ..
  exact {
    mmxcount := tracks.mmxcount
    created := by
      intro j new
      by_cases same : j = i
      · subst same
        by_cases before : c.news j = true
        · exact tracks.created j before
        · have kept := tracks.kept j (by simpa using before)
          rw [empty, NeonSlot.unswap_empty] at kept
          exact NeonSlot.shift_eq_empty.mp kept.empty
      · exact tracks.created j ((news j same).symm.trans new)
    kept := by
      intro j old
      have other : j ≠ i := by
        rintro rfl
        exact absurd old (by simp [NeonCache.cacheST, getReg])
      rw [others j other]
      exact tracks.kept j ((news j other).symm.trans old)
    distinct := by
      have fresh : ∀ j, j ≠ i → (c.neoncache j).isST → (c.neoncache j).n ≠ st :=
        fun j _ isST same => absent ⟨j, isST, same⟩
      intro j₁ j₂ st₁ st₂ same
      by_cases first : j₁ = i <;> by_cases second : j₂ = i
      · exact first.trans second.symm
      · rw [others j₂ second] at st₂ same
        rw [first, here] at same
        exact absurd same.symm (fresh j₂ second st₂)
      · rw [others j₁ first] at st₁ same
        rw [second, here] at same
        exact absurd same (fresh j₁ first st₁)
      · rw [others j₁ first] at st₁ same
        rw [others j₂ second] at st₂ same
        exact tracks.distinct j₁ j₂ st₁ st₂ same
    registers := by
      intro j reg cached taken
      by_cases same : j = k
      · subst same
        have own : (c.cacheST j i t st).x87reg j = some i := Function.update_self ..
        cases own.symm.trans taken
        rw [here]
        exact type
      · have taken : c.x87reg j = some reg := (Function.update_of_ne same ..).symm.trans taken
        have cached : c.x87cache j ≠ -1 := fun none => cached ((Function.update_of_ne same ..).trans none)
        have isST := tracks.registers j reg cached taken
        rw [others reg (apart reg isST)]
        exact isST
    stack_push := tracks.stack_push
    x87stack := tracks.x87stack
    stack := tracks.stack
    stack_pop := tracks.stack_pop
    swapped := by
      refine tracks.swapped.mono rfl rfl rfl ?_
      rintro n ⟨j, isST, number⟩
      refine ⟨j, ?_⟩
      rw [others j (apart j isST)]
      exact ⟨isST, number⟩
    used := by
      intro j
      by_cases same : j = i
      · subst same
        rw [here]
        refine iff_of_true (Function.update_self ..) ?_
        intro same
        have none : t = .NONE := congrArg NeonSlot.t same
        obtain rfl | rfl := type <;> cases none
      · rw [others j same, ← tracks.used j]
        exact Eq.congr_left (Function.update_of_ne same ..)
    listed := by
      intro j isST
      by_cases same : j = i
      · subst same
        rw [here]
        exact ⟨k, Function.update_self ..⟩
      · rw [others j same] at isST ⊢
        obtain ⟨k', listed⟩ := tracks.listed j isST
        have other : k' ≠ k := by
          rintro rfl
          omega
        exact ⟨k', (Function.update_of_ne other ..).trans listed⟩ }

end Tracks

end NeonCache

namespace NeonCache

namespace Tracks

variable {c c' e : NeonCache} {swap : Option (BitVec 4 × BitVec 4)} {P : Nat} (tracks : Tracks e swap P c)

include tracks

theorem promote {i : Fin 24} (single : (c.neoncache i).t = .ST_F) : Tracks e swap P (c.promote i) := by
  have up : ∀ j, (c.neoncache j).Upgrades ((c.promote i).neoncache j) := by
    intro j
    by_cases same : j = i
    · subst same
      have here : (c.promote j).neoncache j = { c.neoncache j with t := .ST_D } := Function.update_self ..
      rw [here]
      exact ⟨rfl, .inr (.inl ⟨single, rfl⟩)⟩
    · have here : (c.promote i).neoncache j = c.neoncache j := Function.update_of_ne same ..
      rw [here]
      exact .refl _
  have isST : ∀ j, ((c.promote i).neoncache j).isST ↔ (c.neoncache j).isST := fun j => (up j).isST_iff
  exact {
    mmxcount := tracks.mmxcount
    created := tracks.created
    kept := fun j old => (tracks.kept j old).trans (up j).unswap
    distinct := by
      intro j₁ j₂ st₁ st₂ same
      rw [(up j₁).1, (up j₂).1] at same
      exact tracks.distinct j₁ j₂ ((isST j₁).mp st₁) ((isST j₂).mp st₂) same
    registers := fun k reg cached taken => (isST reg).mpr (tracks.registers k reg cached taken)
    stack_push := tracks.stack_push
    x87stack := tracks.x87stack
    stack := tracks.stack
    stack_pop := tracks.stack_pop
    swapped := by
      refine tracks.swapped.mono rfl rfl rfl ?_
      rintro n ⟨j, st, number⟩
      exact ⟨j, (isST j).mpr st, (up j).1.trans number⟩
    used := by
      intro j
      exact (tracks.used j).trans (up j).empty_iff.not.symm
    listed := by
      intro j st
      rw [(up j).1]
      exact tracks.listed j ((isST j).mp st) }

end Tracks

/-- Every register moves one up at a push. -/
theorem Tracks.pushAll {c e : NeonCache} {P : Nat} (tracks : Tracks e none P c) (bounded : c.Bounded P) (room : P < 8) :
    Tracks e none (P + 1) c.pushAll ∧ c.pushAll.Bounded (P + 1) ∧ ¬ c.pushAll.Holds 0 := by
  have slot : ∀ j, c.pushAll.neoncache j = (c.neoncache j).shift 1 := fun j => rfl
  have isST : ∀ j, (c.pushAll.neoncache j).isST ↔ (c.neoncache j).isST := fun j => by rw [slot, NeonSlot.shift_isST]
  have number : ∀ j, (c.neoncache j).isST → (c.pushAll.neoncache j).n = (c.neoncache j).n + 1 := by
    intro j st
    rw [slot, NeonSlot.shift, if_pos st]
    rfl
  have value : ∀ j, (c.neoncache j).isST → (c.pushAll.neoncache j).n.toNat = (c.neoncache j).n.toNat + 1 := by
    intro j st
    have := bounded j st
    rw [number j st, BitVec.toNat_add]
    exact Nat.mod_eq_of_lt (by simp; omega)
  refine ⟨?_, ?_, ?_⟩
  · exact {
      mmxcount := tracks.mmxcount
      created := tracks.created
      kept := by
        intro j old
        have kept := (tracks.kept j old).shift (P := 1)
        rwa [NeonSlot.shift_shift] at kept
      distinct := by
        intro j₁ j₂ st₁ st₂ same
        rw [isST] at st₁ st₂
        rw [number j₁ st₁, number j₂ st₂] at same
        exact tracks.distinct j₁ j₂ st₁ st₂ ((BitVec.add_left_inj _).mp same)
      registers := by
        intro k reg cached taken
        have cached : c.x87cache k ≠ -1 := by
          intro none
          exact cached (if_neg (Classical.not_not.mpr none))
        exact (isST reg).mpr (tracks.registers k reg cached taken)
      stack_push := by
        have := tracks.stack_push
        simp only [NeonCache.pushAll]
        omega
      x87stack := by
        have := tracks.x87stack
        simp only [NeonCache.pushAll]
        omega
      stack := by
        have := tracks.stack
        simp only [NeonCache.pushAll]
        omega
      stack_pop := tracks.stack_pop
      swapped := tracks.swapped
      used := by
        intro j
        rw [slot, Ne, NeonSlot.shift_eq_empty]
        exact tracks.used j
      listed := by
        intro j st
        rw [isST] at st
        obtain ⟨k, listed⟩ := tracks.listed j st
        refine ⟨k, ?_⟩
        have cached : c.pushAll.x87cache k = c.x87cache k + 1 := if_pos (by omega)
        rw [cached, listed, value j st]
        rfl }
  · intro j st
    rw [isST] at st
    have := bounded j st
    rw [value j st]
    omega
  · rintro ⟨j, st, zero⟩
    rw [isST] at st
    have := value j st
    rw [zero] at this
    simp at this

end NeonCache

namespace NeonCache

variable {c c' e : NeonCache} {swap : Option (BitVec 4 × BitVec 4)} {P : Nat} {pass : Pass}

theorem Bounded.cacheST (bounded : c.Bounded P) {k : Fin 8} {i : Fin 24} {t : CacheType} {st : BitVec 4}
    (small : st.toNat < 8 + P) : (c.cacheST k i t st).Bounded P := by
  intro j isST
  by_cases same : j = i
  · subst same
    have here : (c.cacheST k j t st).neoncache j = ⟨t, st⟩ := Function.update_self ..
    rw [here]
    exact small
  · have here : (c.cacheST k i t st).neoncache j = c.neoncache j := Function.update_of_ne same ..
    rw [here] at isST ⊢
    exact bounded j isST

/-- The entry cache with other counters. -/
def recount (e : NeonCache) (x87stack stack : Int) : NeonCache := { e with x87stack, stack, stack_next := stack }

theorem Entry.recount (entry : e.Entry) (x87stack stack : Int) : (e.recount x87stack stack).Entry :=
  ⟨⟨entry.used, entry.mmx, entry.mmxcount, entry.sse, entry.x87entry, entry.x87slot⟩,
    ⟨entry.none, entry.scr, entry.mm, entry.xmm, entry.st, entry.distinct⟩, rfl, entry.stack_push, entry.stack_pop,
    entry.news, entry.swapped⟩

/-- With its counters set, the cache tracks an entry that has counted from others. -/
theorem Tracks.recount (tracks : Tracks e swap P c) (x87stack stack stack_next : Int) :
    Tracks (e.recount (x87stack - P) (stack - P)) swap P { c with x87stack, stack, stack_next } where
  mmxcount := tracks.mmxcount
  created := tracks.created
  kept := tracks.kept
  distinct := tracks.distinct
  registers := tracks.registers
  stack_push := tracks.stack_push
  x87stack := by
    have none := tracks.stack_pop
    simp only [NeonCache.recount]
    omega
  stack := by
    simp only [NeonCache.recount]
    omega
  swapped := by
    have swapped := tracks.swapped
    cases swap with
    | none => exact swapped
    | some ab => exact swapped
  stack_pop := tracks.stack_pop
  used := tracks.used
  listed := tracks.listed

/-- A push, with a register for it or without, and the counters it leaves. -/
theorem Tracks.push (tracks : Tracks e none P c) (bounded : c.Bounded P) (room : P < 8) {op : X87Op} (isPush : op.isPush)
    (stepped : op.step pass c = some c') :
    Tracks (e.recount (c'.x87stack - (P + 1 : Nat)) (c'.stack - (P + 1 : Nat))) none (P + 1) c' ∧ c'.Bounded (P + 1) ∧
      (c'.x87stack, c'.stack) = op.counted (c.x87stack, c.stack) := by
  obtain ⟨pushed, bounded, absent⟩ := tracks.pushAll bounded room
  cases op with
  | push double =>
    have counted : X87Op.counted (c.x87stack, c.stack) (.push double) = (c.x87stack + 1, c.stack + 1) := if_neg (·.1)
    rw [counted]
    obtain rfl | ⟨k, i, double', entry, free, rfl⟩ := x87DoPush_cases tracks.mmxcount stepped
    · exact ⟨pushed.recount _ _ _, bounded, rfl⟩
    · have entry : c.pushAll.x87cache k = -1 := if_neg (Classical.not_not.mpr entry)
      refine ⟨(pushed.cacheST free entry (stType_cases double') absent).recount _ _ _, bounded.cacheST ?_, rfl⟩
      exact Nat.succ_pos _
  | pushEmpty s1 =>
    have same : c.x87DoPushEmpty s1 = c' := Option.some.inj stepped
    rw [x87DoPushEmpty, mmxPurgecache_of_none tracks.mmxcount] at same
    by_cases synched : s1 = true ∧ c.x87stack + 1 ≠ 0
    · obtain ⟨rfl, some_count⟩ := synched
      have counted : X87Op.counted (c.x87stack, c.stack) (.pushEmpty true) = (0, 0) := if_pos ⟨rfl, some_count⟩
      have nonzero : ¬ c.pushAll.x87stack = 0 := some_count
      rw [if_pos rfl, x87Stackcount, if_neg nonzero, mmxPurgecache_of_none pushed.mmxcount] at same
      subst same
      exact ⟨pushed.recount _ _ _, bounded, counted.symm⟩
    · have counted : X87Op.counted (c.x87stack, c.stack) (.pushEmpty s1) = (c.x87stack + 1, c.stack + 1) := if_neg synched
      have unsynched : (if s1 then c.pushAll.x87Stackcount else c.pushAll) = c.pushAll := by
        split_ifs with scratch
        · exact if_pos (Classical.not_not.mp fun some_count => synched ⟨scratch, some_count⟩)
        · rfl
      rw [unsynched] at same
      subst same
      exact ⟨pushed.recount _ _ _, bounded, counted.symm⟩
  | get | upgrade | swap | pop => exact isPush.elim

/-- A get keeps what the cache tracks, and ends at an entry with the number that was asked for. -/
theorem Tracks.get (tracks : Tracks e swap P c) {st : BitVec 4} {double : Bool} {k : Fin 8}
    (got : c.x87GetCache pass st double = some (c', k)) :
    Tracks e swap P c' ∧ c'.x87cache k = st.toNat ∧ ∀ j, c.x87cache j ≠ -1 → c'.x87cache j = c.x87cache j := by
  obtain ⟨listed, rfl | ⟨i, single, rfl⟩⟩ | ⟨unlisted, entry, i, free, rfl⟩ := x87GetCache_cases tracks.mmxcount got
  · exact ⟨tracks, listed, fun _ _ => rfl⟩
  · exact ⟨tracks.promote single, listed, fun _ _ => rfl⟩
  · refine ⟨tracks.cacheST free entry (stType_cases double) (tracks.absent unlisted), Function.update_self .., ?_⟩
    intro j cached
    have other : j ≠ k := by
      rintro rfl
      exact cached entry
    exact Function.update_of_ne other ..

theorem Tracks.use (tracks : Tracks e swap P c) {op : X87Op} (isUse : op.isUse) (stepped : op.step pass c = some c') :
    Tracks e swap P c' := by
  cases op with
  | get st double =>
    obtain ⟨⟨c₁, k⟩, got, rfl⟩ := Option.map_eq_some_iff.mp stepped
    exact (tracks.get got).1
  | upgrade i =>
    obtain rfl : c.upgrade i = c' := Option.some.inj stepped
    unfold upgrade
    split_ifs with single
    · exact tracks.promote single
    · exact tracks
  | push | pushEmpty | swap | pop => exact isUse.elim

theorem exchange_listed {entries : Fin 8 → Int} {a b n : BitVec 4} {i₁ i₂ : Fin 8} (first : entries i₁ = b.toNat)
    (second : entries i₂ = a.toNat) (listed : ∃ k, entries k = n.toNat) :
    ∃ k, update (update entries i₁ (entries i₂)) i₂ (entries i₁) k = (Equiv.swap a b n).toNat := by
  by_cases is_a : n = a
  · refine ⟨i₂, ?_⟩
    rw [Function.update_self, first, is_a, Equiv.swap_apply_left]
  · by_cases is_b : n = b
    · have apart : i₁ ≠ i₂ := by
        rintro rfl
        have same := Int.ofNat_inj.mp (first.symm.trans second)
        exact is_a (is_b.trans (BitVec.eq_of_toNat_eq same))
      refine ⟨i₁, ?_⟩
      rw [Function.update_of_ne apart, Function.update_self, second, is_b, Equiv.swap_apply_right]
    · obtain ⟨k, listed⟩ := listed
      have differs₁ : k ≠ i₁ := by
        rintro rfl
        exact is_b (BitVec.eq_of_toNat_eq (Int.ofNat_inj.mp (listed.symm.trans first)))
      have differs₂ : k ≠ i₂ := by
        rintro rfl
        exact is_a (BitVec.eq_of_toNat_eq (Int.ofNat_inj.mp (listed.symm.trans second)))
      refine ⟨k, ?_⟩
      rw [Function.update_of_ne differs₂, Function.update_of_ne differs₁, Equiv.swap_apply_of_ne_of_ne is_a is_b, listed]

/-- The entries of `a` and `b` exchanged, and their slots renumbered, list each other again. -/
theorem Tracks.swapreg (tracks : Tracks e none P c) {a b : BitVec 4} {double_a double_b : Bool}
    (swapped : c.x87Swapreg pass a double_a b double_b = some c') : Tracks e (some (a, b)) P c' := by
  obtain ⟨⟨c₁, i₁⟩, got_b, swapped⟩ := Option.bind_eq_some_iff.mp swapped
  obtain ⟨⟨c₂, i₂⟩, got_a, swapped⟩ := Option.bind_eq_some_iff.mp swapped
  obtain ⟨j₁, found_b, swapped⟩ := Option.bind_eq_some_iff.mp swapped
  obtain ⟨j₂, found_a, rfl⟩ := Option.map_eq_some_iff.mp swapped
  obtain ⟨tracks, entry_b, -⟩ := tracks.get got_b
  obtain ⟨tracks, entry_a, others⟩ := tracks.get got_a
  have entry_b : c₂.x87cache i₁ = b.toNat := (others i₁ (by omega)).trans entry_b
  have slot_b := List.find?_some found_b
  have slot_a := List.find?_some found_a
  simp only [decide_eq_true_eq] at slot_b slot_a
  obtain ⟨st_b, n_b⟩ := slot_b
  obtain ⟨st_a, n_a⟩ := slot_a
  have renumbered : (c₂.exchangeSlots j₁ j₂).neoncache = fun i => (c₂.neoncache i).renumber a b := by
    rw [exchangeSlots_eq tracks.distinct st_b st_a, show (c₂.neoncache j₁).n = b from n_b,
      show (c₂.neoncache j₂).n = a from n_a]
    exact funext fun _ => NeonSlot.renumber_comm
  have slot : ∀ i, (c₂.exchangeSlots j₁ j₂).neoncache i = (c₂.neoncache i).renumber a b := congrFun renumbered
  have isST : ∀ i, ((c₂.exchangeSlots j₁ j₂).neoncache i).isST ↔ (c₂.neoncache i).isST := by
    intro i
    rw [slot, NeonSlot.renumber_isST]
  have number : ∀ i, (c₂.neoncache i).isST → ((c₂.exchangeSlots j₁ j₂).neoncache i).n = Equiv.swap a b (c₂.neoncache i).n := by
    intro i st
    rw [slot, NeonSlot.renumber_n st]
  exact {
    mmxcount := tracks.mmxcount
    created := tracks.created
    kept := by
      intro i old
      have same : (((c₂.exchangeSlots j₁ j₂).neoncache i).unswap (some (a, b))) = c₂.neoncache i := by
        rw [slot]
        exact NeonSlot.renumber_renumber
      have kept := tracks.kept i old
      rw [← same] at kept
      exact kept
    distinct := by
      intro i j st₁ st₂ same
      have st₁ := (isST i).mp st₁
      have st₂ := (isST j).mp st₂
      have same : ((c₂.exchangeSlots j₁ j₂).neoncache i).n = ((c₂.exchangeSlots j₁ j₂).neoncache j).n := same
      rw [number i st₁, number j st₂] at same
      exact tracks.distinct i j st₁ st₂ ((Equiv.swap a b).injective same)
    registers := by
      intro k reg cached taken
      have cached : c₂.x87cache k ≠ -1 := by
        intro none
        have first : k ≠ i₁ := by
          rintro rfl
          omega
        have second : k ≠ i₂ := by
          rintro rfl
          omega
        exact cached ((Function.update_of_ne second ..).trans ((Function.update_of_ne first ..).trans none))
      exact (isST reg).mpr (tracks.registers k reg cached taken)
    stack_push := tracks.stack_push
    x87stack := tracks.x87stack
    stack := tracks.stack
    stack_pop := tracks.stack_pop
    swapped := by
      refine ⟨rfl, rfl, rfl, ⟨j₁, (isST j₁).mpr st_b, ?_⟩, ⟨j₂, (isST j₂).mpr st_a, ?_⟩⟩
      · refine (number j₁ st_b).trans ?_
        rw [show (c₂.neoncache j₁).n = b from n_b, Equiv.swap_apply_right]
      · refine (number j₂ st_a).trans ?_
        rw [show (c₂.neoncache j₂).n = a from n_a, Equiv.swap_apply_left]
    used := by
      intro i
      refine (tracks.used i).trans (not_congr ?_)
      have same := slot i
      rw [← NeonSlot.renumber_empty, ← same]
      rfl
    listed := by
      intro i st
      have st := (isST i).mp st
      have listed := exchange_listed entry_b entry_a (tracks.listed i st)
      rw [← number i st] at listed
      exact listed }

theorem fpuFreeReg_of_st {reg : Fin 24} (st : (c.neoncache reg).isST) :
    c.fpuFreeReg reg = { c with fpuused := update c.fpuused reg false } := by rw [fpuFreeReg, if_pos st]

theorem Exit.popEntry (exit : Exit e swap P c) {k : Fin 8} (popped : c.popEntry k = some c') : Exit e swap P c' := by
  unfold NeonCache.popEntry at popped
  dsimp only at popped
  split_ifs at popped with cached last
  · obtain ⟨reg, taken, rfl⟩ := Option.map_eq_some_iff.mp popped
    have st := exit.registers k reg cached taken
    rw [fpuFreeReg_of_st (c := { c with x87cache := update c.x87cache k (c.x87cache k - 1) }) st]
    exact { exit with
      registers := by
        intro j reg cached taken
        have other : j ≠ k := by
          rintro rfl
          exact cached last
        have taken : c.x87reg j = some reg := (Function.update_of_ne other ..).symm.trans taken
        have cached : c.x87cache j ≠ -1 := fun none => cached ((Function.update_of_ne other ..).trans none)
        exact exit.registers j reg cached taken }
  · cases popped
    exact { exit with
      registers := by
        intro j reg cached' taken
        by_cases same : j = k
        · subst same
          exact exit.registers j reg cached taken
        · have cached' : c.x87cache j ≠ -1 := fun none => cached' ((Function.update_of_ne same ..).trans none)
          exact exit.registers j reg cached' taken }
  · cases popped
    exact exit

/-- A pop frees registers, but leaves the slots to those who come after the instruction. -/
theorem Exit.pop (exit : Exit e swap P c) (popped : c.x87DoPop = some c') : Exit e swap P c' := by
  unfold x87DoPop at popped
  rw [mmxPurgecache_of_none exit.mmxcount] at popped
  refine Runs.exec_keeps (P := Exit e swap P) (fun _ _ _ _ exit popped => exit.popEntry popped) ?_ popped
  exact { exit with
    x87stack := by
      have := exit.x87stack
      simp only
      omega }

theorem Tracks.pushes {ops : List X87Op} (isPush : ∀ op ∈ ops, op.isPush) (tracks : Tracks e none P c) (bounded : c.Bounded P)
    (room : P + ops.length ≤ 8) (ran : Runs.exec (X87Op.step pass) c ops = some c') :
    Tracks (e.recount (c'.x87stack - (P + ops.length : Nat)) (c'.stack - (P + ops.length : Nat))) none (P + ops.length) c' ∧
      (c'.x87stack, c'.stack) = ops.foldl X87Op.counted (c.x87stack, c.stack) := by
  induction ops generalizing P c e with
  | nil =>
    cases ran
    exact ⟨tracks.recount _ _ _, rfl⟩
  | cons op ops ih =>
    rw [List.length_cons] at room
    obtain ⟨c₁, stepped, ran⟩ := Option.bind_eq_some_iff.mp ran
    obtain ⟨isPush, rest⟩ := List.forall_mem_cons.mp isPush
    obtain ⟨tracks, bounded, counted⟩ := tracks.push bounded (by omega) isPush stepped
    obtain ⟨tracks, counts⟩ := ih rest tracks bounded (by omega) ran
    have length : P + 1 + ops.length = P + (op :: ops).length := by
      rw [List.length_cons]
      omega
    rw [length] at tracks
    refine ⟨tracks, ?_⟩
    rw [List.foldl_cons, ← counted]
    exact counts

theorem Tracks.uses {ops : List X87Op} (isUse : ∀ op ∈ ops, op.isUse) (tracks : Tracks e swap P c)
    (ran : Runs.exec (X87Op.step pass) c ops = some c') : Tracks e swap P c' :=
  Runs.exec_keeps (P := Tracks e swap P) (fun _ _ op member tracks stepped => tracks.use (isUse op member) stepped) tracks ran

end NeonCache

open NeonCache

/-- An instruction that starts without MMX registers leaves an exit that its swap and its pushes are known of, and its pushes
have made of the counters what they make of them. -/
theorem X87Instruction.exit {e c : NeonCache} {pass : Pass} (ins : X87Instruction) (entry : e.Entry) (noMmx : e.mmxcount = 0)
    (ran : Runs.exec (X87Op.step pass) e ins.ops = some c) :
    ∃ x87stack stack swap, Exit (e.recount x87stack stack) swap ins.pushes.length c ∧
      (x87stack + ins.pushes.length, stack + ins.pushes.length) = ins.pushes.foldl X87Op.counted (e.x87stack, e.stack) := by
  rw [ops, Runs.exec_append, Runs.exec_append, Runs.exec_append, Runs.exec_append] at ran
  obtain ⟨c₄, ran, pops⟩ := Option.bind_eq_some_iff.mp ran
  obtain ⟨c₃, ran, after⟩ := Option.bind_eq_some_iff.mp ran
  obtain ⟨c₂, ran, swaps⟩ := Option.bind_eq_some_iff.mp ran
  obtain ⟨c₁, pushes, before⟩ := Option.bind_eq_some_iff.mp ran
  have bounded : e.Bounded 0 := fun i st => entry.st i st
  obtain ⟨tracks, counts⟩ := (Tracks.of_entry entry noMmx).pushes ins.pushes_push bounded (by simpa using ins.few) pushes
  rw [Nat.zero_add] at tracks
  refine ⟨c₁.x87stack - ins.pushes.length, c₁.stack - ins.pushes.length, ?_⟩
  generalize e.recount (c₁.x87stack - ins.pushes.length) (c₁.stack - ins.pushes.length) = e' at tracks ⊢
  have tracks := tracks.uses ins.before_use before
  have swapped : ∃ swap, Tracks e' swap ins.pushes.length c₃ := by
    cases found : ins.swap with
    | none =>
      rw [found] at swaps
      cases swaps
      exact ⟨none, tracks⟩
    | some s =>
      rw [found] at swaps
      obtain ⟨c', stepped, same⟩ := Option.bind_eq_some_iff.mp swaps
      cases same
      exact ⟨some (s.a, s.b), tracks.swapreg stepped⟩
  obtain ⟨swap, tracks⟩ := swapped
  have tracks := tracks.uses ins.after_use after
  refine ⟨swap, Runs.exec_keeps ?_ tracks.toExit pops, ?_⟩
  · intro c c' op member exit stepped
    obtain rfl := List.eq_of_mem_replicate member
    exact exit.pop stepped
  · rw [← counts, Int.sub_add_cancel, Int.sub_add_cancel]

end Box64.Dynarec
