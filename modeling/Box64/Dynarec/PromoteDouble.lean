import Box64.Dynarec.NeonCache
import Mathlib.Algebra.BigOperators.Group.Finset.Basic
import Mathlib.Algebra.Order.BigOperators.Group.Finset
import Mathlib.Data.List.FinRange

/-!
# Promoting cached floats to doubles

`neoncache_promote_double` makes a register of the x87 stack that is cached as a float one that is cached as a double, and
with it those of the instructions before and after that hold the same value.
-/

namespace Box64.Dynarec

open Function (update)

namespace NeonCache

variable (c : NeonCache)

/-- `neoncache_get_st_f` and its siblings, in one cache. -/
def getStF (a : Int) : Option (Fin 24) :=
  (List.finRange 24).find? fun i => (c.neoncache i).t = .ST_F ∧ ((c.neoncache i).n.toNat : Int) = a

/-- The registers that an instruction combines, of which there are two unless both are 0. -/
def Combines : Prop := c.combined1 ≠ 0 ∨ c.combined2 ≠ 0

instance : Decidable c.Combines := inferInstanceAs (Decidable (_ ∨ _))

/-- The other one of the registers combined. -/
def other (a : Int) : Int :=
  if a = c.combined1 then c.combined2 else if a = c.combined2 then c.combined1 else a

end NeonCache

namespace Promote

/-- What the walks use of `instruction_native_t`. -/
structure Inst where
  n : NeonCache
  has_next : Bool

/-- `dyn->insts`, of which there are `size`, and `dyn->n`. -/
structure Dyn where
  size : Nat
  insts : Nat → Inst
  n : NeonCache

namespace Dyn

variable (d : Dyn)

/-- `dyn->insts[ninst]`, within the array. -/
def inst (ninst : Int) : Option Inst := if 0 ≤ ninst ∧ ninst < d.size then some (d.insts ninst.toNat) else none

/-- `dyn->insts[ninst].n.neoncache[i].t = NEON_CACHE_ST_D`. -/
def promoteInst (ninst : Int) (i : Fin 24) : Dyn :=
  { d with insts := update d.insts ninst.toNat { d.insts ninst.toNat with n := (d.insts ninst.toNat).n.promote i } }

/-- The same in `dyn->n` and in `dyn->insts[ninst].n`. -/
def promoteCurrent (ninst : Int) (i : Fin 24) : Dyn := { d.promoteInst ninst i with n := d.n.promote i }

end Dyn

mutual

/-- `neoncache_promote_double_combined`; the result is `none` where an instruction outside the array is read, or where the calls
and loops do not end within `fuel` steps. Nothing but types is written, so the other fields of an instruction are read once. -/
def promoteDoubleCombined : Nat → Dyn → Int → Int → Int → Option Dyn
  | 0, _, _, _, _ => none
  | fuel + 1, d, ninst, maxinst, a =>
    (d.inst ninst).bind fun inst =>
      if a = inst.n.combined1 ∨ a = inst.n.combined2 then
        let a : Int := if a = inst.n.combined1 then inst.n.combined2 else inst.n.combined1
        match inst.n.getStF a with
        | none => some d
        | some i =>
          let d := d.promoteInst ninst i
          (if inst.n.barrier then some d
            else promoteDoubleInternal fuel d (ninst - 1) maxinst (a - inst.n.stack_push)).bind fun d =>
              -- go forward is combined is not pop'd
              if a - inst.n.stack_pop ≥ 0 then
                (d.inst (ninst + 1)).bind fun next =>
                  if next.n.barrier then some d
                  else promoteDoubleForward fuel d (ninst + 1) maxinst (a - inst.n.stack_pop)
              else some d
      else some d

/-- `neoncache_promote_double_internal`. -/
def promoteDoubleInternal : Nat → Dyn → Int → Int → Int → Option Dyn
  | 0, _, _, _, _ => none
  | fuel + 1, d, ninst, maxinst, a =>
    (d.inst (ninst + 1)).bind fun next =>
      if next.n.barrier then some d
      else internalLoop fuel d ninst maxinst a

def internalLoop : Nat → Dyn → Int → Int → Int → Option Dyn
  | 0, _, _, _, _ => none
  | fuel + 1, d, ninst, maxinst, a =>
    if ninst < 0 then some d
    else
      (d.inst ninst).bind fun inst =>
        -- adjust Stack depth: add pop'd ST (going backward)
        let a := a + inst.n.stack_pop
        match inst.n.getStF a with
        | none => some d
        | some i =>
          let d := d.promoteInst ninst i
          -- check combined propagation too
          (if inst.n.Combines then
            if inst.n.swapped then some (d, inst.n.other a)
            else (promoteDoubleCombined fuel d ninst maxinst a).map fun d => (d, a)
          else some (d, a)).bind fun (d, a) =>
            let a := a - inst.n.stack_push
            let ninst := ninst - 1
            if ninst < 0 ∨ a < 0 then some d
            else
              (d.inst ninst).bind fun previous =>
                if previous.n.barrier then some d
                else internalLoop fuel d ninst maxinst a

/-- `neoncache_promote_double_forward`. -/
def promoteDoubleForward : Nat → Dyn → Int → Int → Int → Option Dyn
  | 0, _, _, _, _ => none
  | fuel + 1, d, ninst, maxinst, a =>
    if ninst ≠ -1 ∧ ninst < maxinst ∧ a ≥ 0 then
      (d.inst ninst).bind fun inst =>
        -- adjust Stack depth: add push'd ST (going forward)
        let a := a + inst.n.stack_push
        let a := if inst.n.Combines ∧ inst.n.swapped then inst.n.other a else a
        match inst.n.getStF a with
        | none => some d
        | some i =>
          let d := d.promoteInst ninst i
          (if inst.n.Combines ∧ ¬ inst.n.swapped then promoteDoubleCombined fuel d ninst maxinst a else some d).bind fun d =>
            let a := a - inst.n.stack_pop
            promoteDoubleForward fuel d (if inst.has_next ∧ ¬ inst.n.barrier then ninst + 1 else -1) maxinst a
    else if ninst = maxinst then promoteDouble fuel d ninst a
    else some d

/-- `neoncache_promote_double`. -/
def promoteDouble : Nat → Dyn → Int → Int → Option Dyn
  | 0, _, _, _ => none
  | fuel + 1, d, ninst, a =>
    match d.n.getStF a with
    | none => some d
    | some i =>
      (d.inst ninst).bind fun inst =>
        let c := d.n
        let d := d.promoteCurrent ninst i
        -- check combined propagation too
        (if c.Combines then
          if c.swapped then some (d, c.other a)
          else
            (if c.combined1 = a then promoteDouble fuel d ninst c.combined2
              else if c.combined2 = a then promoteDouble fuel d ninst c.combined1
              else some d).map fun d => (d, a)
        else some (d, a)).bind fun (d, a) =>
          let a := a - inst.n.stack_push
          if ninst = 0 ∨ a < 0 then some d
          else promoteDoubleInternal fuel d (ninst - 1) ninst a

end

/-! ### What a walk may change -/

section Caches

variable {c c' c'' : NeonCache}

/-- The types of some floats have become double, and nothing else has changed. -/
structure Promoted (c c' : NeonCache) : Prop where
  frame : c'.frame = c.frame
  types : ∀ i, (c'.neoncache i).t = (c.neoncache i).t ∨ (c.neoncache i).t = .ST_F ∧ (c'.neoncache i).t = .ST_D

theorem Promoted.refl (c : NeonCache) : Promoted c c := ⟨rfl, fun _ => .inl rfl⟩

theorem Promoted.trans (first : Promoted c c') (second : Promoted c' c'') : Promoted c c'' := by
  refine ⟨second.frame.trans first.frame, ?_⟩
  intro i
  rcases second.types i with same | ⟨float, double⟩
  · rw [same]
    exact first.types i
  · rcases first.types i with same | ⟨float', double'⟩
    · exact .inr ⟨same ▸ float, double⟩
    · rw [float] at double'
      cases double'

theorem Promoted.number (promoted : Promoted c c') (i : Fin 24) : (c'.neoncache i).n = (c.neoncache i).n :=
  congrArg (fun c => (c.neoncache i).n) promoted.frame

theorem Promoted.float (promoted : Promoted c c') {i : Fin 24} (float : (c'.neoncache i).t = .ST_F) :
    (c.neoncache i).t = .ST_F := by
  rcases promoted.types i with same | ⟨float', -⟩
  · rw [← same]
    exact float
  · exact float'

@[simp] theorem promote_self (i : Fin 24) : ((c.promote i).neoncache i) = { c.neoncache i with t := .ST_D } :=
  Function.update_self ..

theorem promote_of_ne {i j : Fin 24} (other : j ≠ i) : (c.promote i).neoncache j = c.neoncache j :=
  Function.update_of_ne other ..

/-- A slot that holds a double already may be written again. -/
theorem Promoted.promote {i : Fin 24} (single : (c.neoncache i).t = .ST_F ∨ (c.neoncache i).t = .ST_D) :
    Promoted c (c.promote i) := by
  refine ⟨c.frame_promote i, ?_⟩
  intro j
  by_cases same : j = i
  · subst same
    rw [promote_self]
    rcases single with float | double
    · exact .inr ⟨float, rfl⟩
    · exact .inl double.symm
  · rw [promote_of_ne same]
    exact .inl rfl

theorem getStF_some {a : Int} {i : Fin 24} (found : c.getStF a = some i) :
    (c.neoncache i).t = .ST_F ∧ ((c.neoncache i).n.toNat : Int) = a := by
  have := List.find?_some found
  exact of_decide_eq_true this

theorem getStF_none {a : Int} (missing : c.getStF a = none) {i : Fin 24} (float : (c.neoncache i).t = .ST_F) :
    ((c.neoncache i).n.toNat : Int) ≠ a := by
  have := List.find?_eq_none.mp missing i (List.mem_finRange i)
  simp only [decide_eq_true_eq, not_and] at this
  exact this float

/-- How many floats are cached. -/
def floats (c : NeonCache) : Nat := (Finset.univ.filter fun i => (c.neoncache i).t = .ST_F).card

theorem Promoted.floats_le (promoted : Promoted c c') : floats c' ≤ floats c := by
  refine Finset.card_le_card ?_
  intro i mem
  rw [Finset.mem_filter] at mem ⊢
  exact ⟨mem.1, promoted.float mem.2⟩

theorem floats_promote {i : Fin 24} (float : (c.neoncache i).t = .ST_F) : floats (c.promote i) < floats c := by
  refine Finset.card_lt_card (Finset.ssubset_iff_subset_ne.mpr ⟨?_, ?_⟩)
  · intro j mem
    rw [Finset.mem_filter] at mem ⊢
    exact ⟨mem.1, (Promoted.promote (.inl float)).float mem.2⟩
  · intro eq
    have mem : i ∈ Finset.univ.filter fun i => (c.neoncache i).t = .ST_F := by simp [float]
    rw [← eq, Finset.mem_filter, promote_self] at mem
    cases mem.2

end Caches

section Progress

variable {m : Nat} {d d' d'' : Dyn}

/-- Only types have changed, in the instructions before `m` and in the current one from float to double. What is written to
`dyn->insts[m]` is written at the slots of `dyn->n`. -/
structure Progress (m : Nat) (d d' : Dyn) : Prop where
  size : d'.size = d.size
  has_next : ∀ k, (d'.insts k).has_next = (d.insts k).has_next
  frame : ∀ k, (d'.insts k).n.frame = (d.insts k).n.frame
  current : Promoted d.n d'.n
  insts : ∀ k, k ≠ m → Promoted (d.insts k).n (d'.insts k).n
  mirror : ∀ i, ((d'.insts m).n.neoncache i).t = ((d.insts m).n.neoncache i).t ∨ ((d'.insts m).n.neoncache i).t = .ST_D

theorem Progress.refl : Progress m d d :=
  ⟨rfl, fun _ => rfl, fun _ => rfl, .refl _, fun _ _ => .refl _, fun _ => .inl rfl⟩

theorem Progress.isST (progress : Progress m d d') {i : Fin 24} (isST : ((d.insts m).n.neoncache i).isST) :
    ((d'.insts m).n.neoncache i).isST := by
  rcases progress.mirror i with same | double
  · rw [NeonSlot.isST, same]
    exact isST
  · exact .inl double

theorem Progress.trans (first : Progress m d d') (second : Progress m d' d'') : Progress m d d'' where
  size := second.size.trans first.size
  has_next k := (second.has_next k).trans (first.has_next k)
  frame k := (second.frame k).trans (first.frame k)
  current := first.current.trans second.current
  insts k other := (first.insts k other).trans (second.insts k other)
  mirror i := by
    rcases second.mirror i with same | double
    · rw [same]
      exact first.mirror i
    · exact .inr double

theorem promoteInst_insts (k : Nat) (i : Fin 24) :
    (d.promoteInst k i).insts k = { d.insts k with n := (d.insts k).n.promote i } := by
  simp [Dyn.promoteInst]

theorem promoteInst_other {k j : Nat} (other : j ≠ k) (i : Fin 24) : (d.promoteInst k i).insts j = d.insts j := by
  simp [Dyn.promoteInst, other]

theorem Progress.promoteInst {k : Nat} (before : k ≠ m) {i : Fin 24} (float : ((d.insts k).n.neoncache i).t = .ST_F) :
    Progress m d (d.promoteInst k i) := by
  refine ⟨rfl, ?_, ?_, .refl _, ?_, ?_⟩
  · intro j
    by_cases same : j = k
    · rw [same, promoteInst_insts]
    · rw [promoteInst_other same]
  · intro j
    by_cases same : j = k
    · rw [same, promoteInst_insts]
      exact NeonCache.frame_promote ..
    · rw [promoteInst_other same]
  · intro j _
    by_cases same : j = k
    · rw [same, promoteInst_insts]
      exact .promote (.inl float)
    · rw [promoteInst_other same]
      exact .refl _
  · intro j
    rw [promoteInst_other before.symm]
    exact .inl rfl

theorem promoteCurrent_insts (i : Fin 24) : (d.promoteCurrent m i).insts = (d.promoteInst m i).insts := rfl

theorem Progress.promoteCurrent {i : Fin 24} (float : (d.n.neoncache i).t = .ST_F) :
    Progress m d (d.promoteCurrent m i) := by
  refine ⟨rfl, ?_, ?_, .promote (.inl float), ?_, ?_⟩
  · intro j
    rw [promoteCurrent_insts]
    by_cases same : j = m
    · rw [same, promoteInst_insts]
    · rw [promoteInst_other same]
  · intro j
    rw [promoteCurrent_insts]
    by_cases same : j = m
    · rw [same, promoteInst_insts]
      exact NeonCache.frame_promote ..
    · rw [promoteInst_other same]
  · intro j other
    rw [promoteCurrent_insts, promoteInst_other other]
    exact .refl _
  · intro j
    rw [promoteCurrent_insts, promoteInst_insts]
    by_cases same : j = i
    · rw [same, promote_self]
      exact .inr rfl
    · rw [promote_of_ne same]
      exact .inl rfl

/-- How many floats the walks can still meet. -/
def Dyn.floats (m : Nat) (d : Dyn) : Nat := Promote.floats d.n + ∑ k ∈ Finset.range m, Promote.floats (d.insts k).n

theorem Progress.floats_le (progress : Progress m d d') : d'.floats m ≤ d.floats m := by
  refine Nat.add_le_add progress.current.floats_le (Finset.sum_le_sum ?_)
  intro k mem
  exact (progress.insts k (Finset.mem_range.mp mem).ne).floats_le

theorem floats_promoteInst {k : Nat} (before : k < m) {i : Fin 24} (float : ((d.insts k).n.neoncache i).t = .ST_F) :
    (d.promoteInst k i).floats m < d.floats m := by
  refine Nat.add_lt_add_left (Finset.sum_lt_sum ?_ ⟨k, Finset.mem_range.mpr before, ?_⟩) _
  · intro j mem
    exact ((Progress.promoteInst before.ne float).insts j (Finset.mem_range.mp mem).ne).floats_le
  · rw [promoteInst_insts]
    exact floats_promote float

theorem floats_promoteCurrent {i : Fin 24} (float : (d.n.neoncache i).t = .ST_F) :
    (d.promoteCurrent m i).floats m < d.floats m := by
  refine Nat.add_lt_add_of_lt_of_le (floats_promote float) (Finset.sum_le_sum ?_)
  intro k mem
  exact ((Progress.promoteCurrent float).insts k (Finset.mem_range.mp mem).ne).floats_le

end Progress

/-! ### The values of the stack -/

section Values

/-- A register of the x87 stack, as an instruction numbers it between its pushes and its pops. -/
abbrev Value := Nat × Int

variable (m : Nat) (d : Dyn)

/-- What an instruction has cached, the current one included. -/
def Dyn.cache (k : Nat) : NeonCache := if k = m then d.n else (d.insts k).n

/-- A cache holds a register of the stack with the type `t`. -/
def Holds (c : NeonCache) (t : CacheType) (a : Int) : Prop :=
  ∃ i, (c.neoncache i).t = t ∧ ((c.neoncache i).n.toNat : Int) = a

def Dyn.Cached (t : CacheType) (u : Value) : Prop := u.1 ≤ m ∧ Holds (d.cache m u.1) t u.2

def Dyn.Float (u : Value) : Prop := d.Cached m .ST_F u

/-- The exchange of two registers by a swap. -/
def exchange (c : NeonCache) (a : Int) : Int := if c.Combines ∧ c.swapped then c.other a else a

/-- The value `u` that an instruction leaves is the value `v` of the next one, with no barrier in between. -/
def Link (u v : Value) : Prop :=
  u.1 + 1 = v.1 ∧ v.1 ≤ m ∧ (d.insts u.1).has_next ∧ (d.insts u.1).n.barrier = false ∧
    0 ≤ u.2 - (d.insts u.1).n.stack_pop ∧
    v.2 = exchange (d.cache m v.1) (u.2 - (d.insts u.1).n.stack_pop + (d.cache m v.1).stack_push)

/-- An instruction combines the two values without a swap. -/
def Pair (u v : Value) : Prop :=
  u.1 = v.1 ∧ u.1 ≤ m ∧ (d.cache m u.1).Combines ∧ (d.cache m u.1).swapped = false ∧
    (u.2 = (d.cache m u.1).combined1 ∧ v.2 = (d.cache m u.1).combined2 ∨
      u.2 = (d.cache m u.1).combined2 ∧ v.2 = (d.cache m u.1).combined1)

/-- The two must have one type. -/
def Near (u v : Value) : Prop := Link m d u v ∨ Link m d v u ∨ Pair m d u v

/-- The four functions, each at a value that it has found. -/
inductive Walker where
  | promote
  | internal
  | combined
  | forward

/-- What is left of the number before the instruction, without what it pushes. -/
def left (u : Value) : Int := exchange (d.cache m u.1) u.2 - (d.cache m u.1).stack_push

/-- What is left of the number behind the instruction, without what it pops. -/
def kept (u : Value) : Int := u.2 - (d.insts u.1).n.stack_pop

def Back (u v : Value) : Prop := v.1 + 1 = u.1 ∧ v.2 = left m d u + (d.insts v.1).n.stack_pop

def Forth (u v : Value) : Prop :=
  u.1 + 1 = v.1 ∧ v.1 < m ∧ 0 ≤ kept d u ∧ v.2 = exchange (d.cache m v.1) (kept d u + (d.cache m v.1).stack_push)

/-- The current instruction is entered with the number as it is. -/
def Arrives (u v : Value) : Prop := u.1 + 1 = m ∧ 0 ≤ kept d u ∧ v = (m, kept d u)

/-- Where the code goes on to from a float, by the tests that it makes. -/
def Walks : Walker → Value → Walker → Value → Prop
  | .promote, u, .promote, v => Pair m d u v
  | .internal, u, .combined, v => Pair m d u v
  | .forward, u, .combined, v => Pair m d u v
  | .promote, u, .internal, v => Back m d u v ∧ 0 ≤ left m d u ∧ (d.insts u.1).n.barrier = false
  | .internal, u, .internal, v => Back m d u v ∧ 0 ≤ left m d u ∧ (d.insts v.1).n.barrier = false
  | .combined, u, .internal, v => Back m d u v ∧ (d.insts u.1).n.barrier = false
  | .combined, u, .forward, v => Forth m d u v ∧ (d.insts v.1).n.barrier = false
  | .forward, u, .forward, v => Forth m d u v ∧ (d.insts u.1).has_next ∧ (d.insts u.1).n.barrier = false
  | .combined, u, .promote, v => Arrives m d u v ∧ (d.insts m).n.barrier = false
  | .forward, u, .promote, v => Arrives m d u v ∧ (d.insts u.1).has_next ∧ (d.insts u.1).n.barrier = false
  | _, _, _, _ => False

/-- What the walk from the register `start` of the current instruction may meet. -/
inductive Met (start : Int) : Walker → Value → Prop
  | start : Met start .promote (m, start)
  | walk {w w' : Walker} {u v : Value} (met : Met start w u) (float : d.Float m u) (walks : Walks m d w u w' v) :
    Met start w' v

end Values

section Relations

variable {m : Nat} {d d' : Dyn} {u v : Value}

theorem cache_of_lt {k : Nat} (before : k < m) : d.cache m k = (d.insts k).n := if_neg before.ne

theorem cache_self : d.cache m m = d.n := if_pos rfl

theorem exchange_exchange (c : NeonCache) (a : Int) : exchange c (exchange c a) = a := by
  unfold exchange
  split_ifs with swaps
  · unfold NeonCache.other
    split_ifs <;> omega
  · rfl

/-- A field that is not a type is the same in caches with one frame. -/
theorem frame_field {β : Type*} (field : NeonCache → β) (kept : ∀ c : NeonCache, field c.frame = field c)
    {c c' : NeonCache} (frame : c'.frame = c.frame) : field c' = field c := by
  rw [← kept c', frame, kept c]

theorem exchange_congr {c c' : NeonCache} (frame : c'.frame = c.frame) : exchange c' = exchange c := by
  funext a
  have one : c'.combined1 = c.combined1 := frame_field NeonCache.combined1 (fun _ => rfl) frame
  have two : c'.combined2 = c.combined2 := frame_field NeonCache.combined2 (fun _ => rfl) frame
  have swapped : c'.swapped = c.swapped := frame_field NeonCache.swapped (fun _ => rfl) frame
  have combines : c'.Combines ∧ c'.swapped ↔ c.Combines ∧ c.swapped := by
    rw [NeonCache.Combines, NeonCache.Combines, one, two, swapped]
  have other : c'.other a = c.other a := by
    rw [NeonCache.other, NeonCache.other, one, two]
  exact if_congr combines other rfl

theorem Progress.cache (progress : Progress m d d') (k : Nat) : (d'.cache m k).frame = (d.cache m k).frame := by
  unfold Dyn.cache
  split_ifs
  · exact progress.current.frame
  · exact progress.frame k

theorem Progress.cache_promoted (progress : Progress m d d') (k : Nat) : Promoted (d.cache m k) (d'.cache m k) := by
  unfold Dyn.cache
  split_ifs with current
  · exact progress.current
  · exact progress.insts k current

theorem Progress.link (progress : Progress m d d') : Link m d' u v ↔ Link m d u v := by
  have frame := progress.frame u.1
  have barrier : (d'.insts u.1).n.barrier = (d.insts u.1).n.barrier := frame_field NeonCache.barrier (fun _ => rfl) frame
  have pop : (d'.insts u.1).n.stack_pop = (d.insts u.1).n.stack_pop := frame_field NeonCache.stack_pop (fun _ => rfl) frame
  have push : (d'.cache m v.1).stack_push = (d.cache m v.1).stack_push :=
    frame_field NeonCache.stack_push (fun _ => rfl) (progress.cache v.1)
  rw [Link, Link, progress.has_next, barrier, pop, push, exchange_congr (progress.cache v.1)]

theorem Progress.pair (progress : Progress m d d') : Pair m d' u v ↔ Pair m d u v := by
  have frame := progress.cache u.1
  have one : (d'.cache m u.1).combined1 = (d.cache m u.1).combined1 := frame_field NeonCache.combined1 (fun _ => rfl) frame
  have two : (d'.cache m u.1).combined2 = (d.cache m u.1).combined2 := frame_field NeonCache.combined2 (fun _ => rfl) frame
  have swapped : (d'.cache m u.1).swapped = (d.cache m u.1).swapped := frame_field NeonCache.swapped (fun _ => rfl) frame
  rw [Pair, Pair, NeonCache.Combines, NeonCache.Combines, one, two, swapped]

theorem Progress.near (progress : Progress m d d') : Near m d' = Near m d := by
  funext u v
  rw [Near, Near, progress.link, progress.link, progress.pair]

theorem Progress.walks (progress : Progress m d d') {w w' : Walker} : Walks m d' w u w' v ↔ Walks m d w u w' v := by
  have pop : ∀ k, (d'.insts k).n.stack_pop = (d.insts k).n.stack_pop := fun k =>
    frame_field NeonCache.stack_pop (fun _ => rfl) (progress.frame k)
  have push : ∀ k, (d'.cache m k).stack_push = (d.cache m k).stack_push := fun k =>
    frame_field NeonCache.stack_push (fun _ => rfl) (progress.cache k)
  have barrier : ∀ k, (d'.insts k).n.barrier = (d.insts k).n.barrier := fun k =>
    frame_field NeonCache.barrier (fun _ => rfl) (progress.frame k)
  have left : left m d' u = left m d u := by rw [Promote.left, Promote.left, push, exchange_congr (progress.cache _)]
  have kept : kept d' u = kept d u := by rw [Promote.kept, Promote.kept, pop]
  cases w <;> cases w' <;>
    simp only [Walks, Back, Forth, Arrives, progress.pair, left, kept, pop, push, barrier, progress.has_next,
      exchange_congr (progress.cache _)]

theorem Progress.float (progress : Progress m d d') (float : d'.Float m u) : d.Float m u := by
  obtain ⟨inside, i, type, number⟩ := float
  have promoted := progress.cache_promoted u.1
  rw [promoted.number] at number
  exact ⟨inside, i, promoted.float type, number⟩

theorem Progress.double (progress : Progress m d d') (double : d.Cached m .ST_D u) : d'.Cached m .ST_D u := by
  obtain ⟨inside, i, type, number⟩ := double
  have promoted := progress.cache_promoted u.1
  refine ⟨inside, i, ?_, by rwa [promoted.number]⟩
  rcases promoted.types i with same | ⟨-, double⟩
  · exact same.trans type
  · exact double

theorem Pair.symm (pair : Pair m d u v) : Pair m d v u := by
  obtain ⟨same, inside, combines, swapped, which⟩ := pair
  rw [same] at inside combines swapped which
  exact ⟨same.symm, inside, combines, swapped, which.symm.imp And.symm And.symm⟩

theorem Near.symm (near : Near m d u v) : Near m d v u := by
  rcases near with link | link | pair
  · exact .inr (.inl link)
  · exact .inl link
  · exact .inr (.inr pair.symm)

/-- The only value of the instruction before that `u` may be linked to. -/
theorem Link.back (link : Link m d v u) :
    v = (v.1, left m d u + (d.insts v.1).n.stack_pop) ∧ 0 ≤ left m d u := by
  obtain ⟨_, _, _, _, nonneg, number⟩ := link
  have back := congrArg (exchange (d.cache m u.1)) number
  rw [exchange_exchange] at back
  rw [left, back]
  refine ⟨Prod.ext rfl ?_, ?_⟩
  · dsimp only
    omega
  · omega

/-- The only value of the same instruction that `u` is paired with. -/
theorem Pair.unique {w : Value} (pair : Pair m d u v) (pair' : Pair m d u w) : v = w := by
  obtain ⟨same, -, -, -, which⟩ := pair
  obtain ⟨same', -, -, -, which'⟩ := pair'
  refine Prod.ext (same.symm.trans same') ?_
  omega

end Relations

end Promote

end Box64.Dynarec
