import Box64.Lib.Propagate
import Mathlib.Data.BitVec
import Mathlib.Tactic.Tauto
import Mathlib.Data.List.FinRange

/-!
# Which flags an instruction has to compute

`updateNeed` works out, for every instruction of a block, the flags that some later instruction may
read. It goes from an instruction to its predecessors by recursion, over a control flow that may be
cyclic, and stops where nothing changes. `X_PEND` stands for all the flags, to be computed later from
the pending operation.
-/

namespace Box64.Dynarec

open Propagation

/-! ### The sets and states of `dynarec_private.h` -/

def BARRIER_FLAGS : BitVec 8 := 1

def X_CF : BitVec 8 := 1 <<< 0
def X_PF : BitVec 8 := 1 <<< 1
def X_AF : BitVec 8 := 1 <<< 2
def X_ZF : BitVec 8 := 1 <<< 3
def X_SF : BitVec 8 := 1 <<< 4
def X_OF : BitVec 8 := 1 <<< 5
def X_ALL : BitVec 8 := (1 <<< 6) - 1
def X_PEND : BitVec 8 := 0x80

/-- The `SF_` states. -/
inductive StateFlags where
  | unknown | set | pending | setPending | sub | subset | subsetPending | mayset
  deriving DecidableEq, Repr

def StateFlags.bits : StateFlags → BitVec 8
  | unknown => 0
  | set => 1
  | pending => 2
  | setPending => 3
  | sub => 4
  | subset => 5
  | subsetPending => 7
  | mayset => 8

def StateFlags.setsFlags (state : StateFlags) : Prop := state.bits &&& StateFlags.set.bits ≠ 0

def StateFlags.isPending (state : StateFlags) : Prop := state.bits &&& StateFlags.pending.bits ≠ 0

instance (state : StateFlags) : Decidable state.setsFlags := inferInstanceAs (Decidable (_ ≠ _))

instance (state : StateFlags) : Decidable state.isPending := inferInstanceAs (Decidable (_ ≠ _))

theorem no_default_need : (0 : BitVec 8) = 0 ∨ (0 : BitVec 8) = X_PEND := .inl rfl

/-- The part of `instruction_x64_t` that the analysis reads. -/
structure InstructionX64 where
  jmp : Nat
  jmp_insts : Int
  has_next : Bool
  barrier : BitVec 8
  state_flags : StateFlags
  use_flags : BitVec 8
  set_flags : BitVec 8
  default_need : BitVec 8
  default_need_eq : default_need = 0 ∨ default_need = X_PEND

/-- The part that it calculates. -/
structure Calculated where
  need_flags : BitVec 8
  old_use : BitVec 8
  deriving DecidableEq, Repr

/-- Control may go from `p` to `s`. -/
def Edge {size : Nat} (insts : Fin size → InstructionX64) (p s : Fin size) : Prop :=
  ((insts p).has_next = true ∧ s.val = p.val + 1) ∨ ((insts p).jmp ≠ 0 ∧ (insts p).jmp_insts = s.val)

instance {size : Nat} (insts : Fin size → InstructionX64) (p s : Fin size) : Decidable (Edge insts p s) :=
  inferInstanceAs (Decidable (_ ∨ _))

/-- An instruction array, its predecessor lists filled. -/
structure DynarecNative where
  size : Nat
  insts : Fin size → InstructionX64
  pred : Fin size → List (Fin size)
  pred_exact : ∀ p s, p ∈ pred s ↔ Edge insts p s

/-! ### `updateNeed` -/

namespace InstructionX64

/-- The first part of `updateNeed`: `X_PEND` is no help to an instruction that cannot defer its flags. -/
def rewriteNeed (inst : InstructionX64) (new_need : BitVec 8) : BitVec 8 :=
  let new_need :=
    if new_need &&& X_PEND ≠ 0 ∧ inst.state_flags = .subset then new_need &&& ~~~X_PEND ||| X_ALL else new_need
  if new_need &&& X_PEND ≠ 0 ∧ (inst.state_flags = .set ∨ inst.state_flags = .subset) then
    new_need &&& ~~~X_PEND ||| X_ALL
  else new_need

def newSet (inst : InstructionX64) : BitVec 8 :=
  let new_set := if inst.state_flags.setsFlags then inst.set_flags else 0
  if inst.state_flags.isPending then new_set ||| X_PEND else new_set

def exitNeed (inst : InstructionX64) (new_need : BitVec 8) : BitVec 8 :=
  if inst.jmp_insts = -1 then new_need ||| X_PEND else new_need

/-- The last part: what is asked of the predecessors. -/
def handOver (inst : InstructionX64) (new_need : BitVec 8) : BitVec 8 :=
  let new_need := new_need &&& ~~~inst.newSet    -- clean needed flag that were suplied
  let new_need := new_need ||| inst.use_flags    -- new need
  let new_need := if new_need ≠ 0 ∧ inst.barrier &&& BARRIER_FLAGS ≠ 0 then X_PEND else new_need
  if new_need = X_ALL ||| X_PEND ∧ inst.state_flags.setsFlags then X_ALL else new_need

end InstructionX64

abbrev DynarecNative.Needs (dyn : DynarecNative) := Fin dyn.size → Calculated

def updateNeed (dyn : DynarecNative) : Nat → dyn.Needs → Fin dyn.size → BitVec 8 → Option dyn.Needs
  | 0, _, _, _ => none
  | fuel + 1, calculated, ninst, need =>
    let inst := dyn.insts ninst
    let old_need := (calculated ninst).need_flags
    let new_need := inst.rewriteNeed (old_need ||| need)
    let new_use := inst.use_flags
    let old_use := (calculated ninst).old_use
    let calculated := Function.update calculated ninst { need_flags := new_need, old_use := new_use }
    let new_need := inst.exitNeed new_need
    if new_need = old_need ∧ new_use = old_use then some calculated    -- no changes, bye
    else
      let new_need := inst.handOver new_need
      (dyn.pred ninst).foldlM (fun calculated p => updateNeed dyn fuel calculated p new_need) calculated

def resetNeed (dyn : DynarecNative) : dyn.Needs :=
  fun i => { need_flags := (dyn.insts i).default_need, old_use := 0 }

/-- `resetNeed`, then `updateNeed` from the last instruction to the first. -/
def calculateNeed (dyn : DynarecNative) (fuel : Nat) : Option dyn.Needs :=
  (List.finRange dyn.size).reverse.foldlM (fun calculated i => updateNeed dyn fuel calculated i 0) (resetNeed dyn)

/-! ### As a propagation -/

namespace InstructionX64

def reset (inst : InstructionX64) : Calculated := { need_flags := inst.default_need, old_use := 0 }

def visit (inst : InstructionX64) (c : Calculated) (need : BitVec 8) : Calculated :=
  { need_flags := inst.rewriteNeed (c.need_flags ||| need), old_use := inst.use_flags }

/-- What `updateNeed` asks of the predecessors, unless it returns early. -/
def announce (inst : InstructionX64) (c : Calculated) (need : BitVec 8) : Option (BitVec 8) :=
  let new_need := inst.exitNeed (inst.rewriteNeed (c.need_flags ||| need))
  if new_need = c.need_flags ∧ inst.use_flags = c.old_use then none else some (inst.handOver new_need)

end InstructionX64

def needFlow (dyn : DynarecNative) : Flow (Fin dyn.size) Calculated (BitVec 8) where
  pred := dyn.pred
  visit i := (dyn.insts i).visit
  send i := (dyn.insts i).announce

theorem updateNeed_eq_propagate (dyn : DynarecNative) (fuel : Nat) :
    updateNeed dyn fuel = (needFlow dyn).propagate fuel := by
  induction fuel with
  | zero => rfl
  | succ fuel ih =>
    funext calculated ninst need
    rw [updateNeed, Flow.propagate, ih]
    dsimp only [needFlow, InstructionX64.announce, InstructionX64.visit]
    split
    · rfl
    · rfl

theorem calculateNeed_eq_propagateAll (dyn : DynarecNative) (fuel : Nat) :
    calculateNeed dyn fuel =
      (needFlow dyn).propagateAll fuel 0 (List.finRange dyn.size).reverse (resetNeed dyn) := by
  rw [calculateNeed, updateNeed_eq_propagate]
  rfl

/-! ### Bits of the sets -/

theorem getLsbD_X_ALL (x : Nat) : X_ALL.getLsbD x = true ↔ x < 6 := by
  by_cases small : x < 8
  · revert x
    decide
  · rw [BitVec.getLsbD_of_ge _ _ (Nat.le_of_not_lt small)]
    simp
    omega

theorem getLsbD_X_PEND (x : Nat) : X_PEND.getLsbD x = true ↔ x = 7 := by
  by_cases small : x < 8
  · revert x
    decide
  · rw [BitVec.getLsbD_of_ge _ _ (Nat.le_of_not_lt small)]
    simp
    omega

theorem and_X_PEND_ne_zero (v : BitVec 8) : v &&& X_PEND ≠ 0 ↔ v.getLsbD 7 = true := by
  revert v
  decide +kernel

theorem getLsbD_or_iff (v w : BitVec 8) (x : Nat) :
    (v ||| w).getLsbD x = true ↔ v.getLsbD x = true ∨ w.getLsbD x = true := by
  rw [BitVec.getLsbD_or, Bool.or_eq_true]

theorem getLsbD_clear_iff (v w : BitVec 8) (x : Nat) :
    (v &&& ~~~w).getLsbD x = true ↔ v.getLsbD x = true ∧ w.getLsbD x = false := by
  rw [BitVec.getLsbD_and, BitVec.getLsbD_not, Bool.and_eq_true, Bool.and_eq_true, Bool.not_eq_true',
    decide_eq_true_eq]
  constructor
  · rintro ⟨has, -, clear⟩
    exact ⟨has, clear⟩
  · rintro ⟨has, clear⟩
    exact ⟨has, BitVec.lt_of_getLsbD has, clear⟩

theorem exists_bit_of_ne_zero {v : BitVec 8} (nonzero : v ≠ 0) : ∃ x, v.getLsbD x = true := by
  by_contra none
  apply nonzero
  apply BitVec.eq_of_getLsbD_eq
  intro x _
  have := not_exists.mp none x
  simpa using this

theorem ne_zero_of_bit {v : BitVec 8} {x : Nat} (has : v.getLsbD x = true) : v ≠ 0 := by
  rintro rfl
  simp at has

/-! ### `rewriteNeed` closes a set -/

namespace InstructionX64

/-- Where `X_PEND` is rewritten into `X_ALL`. -/
def cannotDefer (inst : InstructionX64) : Prop := inst.state_flags = .set ∨ inst.state_flags = .subset

instance (inst : InstructionX64) : Decidable inst.cannotDefer := inferInstanceAs (Decidable (_ ∨ _))

theorem rewriteNeed_eq (inst : InstructionX64) (v : BitVec 8) :
    inst.rewriteNeed v =
      if inst.cannotDefer ∧ v.getLsbD 7 = true then v &&& ~~~X_PEND ||| X_ALL else v := by
  have pend_gone : (v &&& ~~~X_PEND ||| X_ALL).getLsbD 7 = false := by
    revert v
    decide +kernel
  simp only [rewriteNeed, cannotDefer, and_X_PEND_ne_zero]
  by_cases pend : v.getLsbD 7 = true
  · by_cases subset : inst.state_flags = .subset
    · simp only [pend, subset, pend_gone, and_self, or_true, if_true, Bool.false_eq_true, false_and, if_false]
    · simp only [pend, subset, and_false, or_false, if_false, true_and, and_true]
  · simp only [pend, Bool.false_eq_true, false_and, and_false, if_false]

theorem rewriteNeed_of_defer {inst : InstructionX64} (defers : ¬inst.cannotDefer) (v : BitVec 8) :
    inst.rewriteNeed v = v := by
  rw [rewriteNeed_eq, if_neg (fun h => defers h.1)]

/-- `rewriteNeed` bit by bit. -/
theorem getLsbD_rewriteNeed (inst : InstructionX64) (v : BitVec 8) (x : Nat) :
    (inst.rewriteNeed v).getLsbD x = true ↔
      if inst.cannotDefer then (x ≠ 7 ∧ v.getLsbD x = true) ∨ (x < 6 ∧ v.getLsbD 7 = true)
      else v.getLsbD x = true := by
  have not_pend : X_PEND.getLsbD x = false ↔ x ≠ 7 := by rw [← Bool.not_eq_true, getLsbD_X_PEND]
  rw [rewriteNeed_eq]
  by_cases defers : inst.cannotDefer
  · by_cases pend : v.getLsbD 7 = true
    · rw [if_pos ⟨defers, pend⟩, if_pos defers, getLsbD_or_iff, getLsbD_clear_iff, getLsbD_X_ALL, not_pend]
      tauto
    · rw [if_neg (fun h => pend h.2), if_pos defers]
      constructor
      · intro has
        exact .inl ⟨(fun eq => pend (eq ▸ has)), has⟩
      · rintro (⟨-, has⟩ | ⟨-, has⟩)
        · exact has
        · exact absurd has pend
  · rw [if_neg (fun h => defers h.1), if_neg defers]

theorem rewriteNeed_mono (inst : InstructionX64) {v w : BitVec 8}
    (sub : ∀ x, v.getLsbD x = true → w.getLsbD x = true) {x : Nat}
    (has : (inst.rewriteNeed v).getLsbD x = true) : (inst.rewriteNeed w).getLsbD x = true := by
  have here := sub x
  have pend := sub 7
  rw [getLsbD_rewriteNeed] at has ⊢
  by_cases defers : inst.cannotDefer
  · rw [if_pos defers] at has ⊢
    tauto
  · rw [if_neg defers] at has ⊢
    exact here has

theorem rewriteNeed_or (inst : InstructionX64) (v w : BitVec 8) :
    inst.rewriteNeed (inst.rewriteNeed v ||| w) = inst.rewriteNeed (v ||| w) := by
  apply BitVec.eq_of_getLsbD_eq
  intro x _
  rw [Bool.eq_iff_iff]
  simp only [getLsbD_rewriteNeed, getLsbD_or_iff]
  by_cases defers : inst.cannotDefer
  · have no_pend : ¬(7 < 6) := by decide
    have flag : x < 6 → ¬x = 7 := by omega
    simp only [if_pos defers, ne_eq, not_true_eq_false, false_and, no_pend, or_self, false_or]
    tauto
  · simp only [if_neg defers]

theorem rewriteNeed_idem (inst : InstructionX64) (v : BitVec 8) :
    inst.rewriteNeed (inst.rewriteNeed v) = inst.rewriteNeed v := by
  have := inst.rewriteNeed_or v 0
  rwa [show inst.rewriteNeed v ||| 0 = _ from BitVec.or_zero, show v ||| 0 = _ from BitVec.or_zero] at this

/-- The need of an instruction already takes account of `need`. -/
def Heard (inst : InstructionX64) (c : Calculated) (need : BitVec 8) : Prop :=
  inst.rewriteNeed (c.need_flags ||| need) = c.need_flags

theorem heard_visit (inst : InstructionX64) (c : Calculated) (need : BitVec 8) :
    inst.Heard (inst.visit c need) need := by
  show inst.rewriteNeed (inst.rewriteNeed _ ||| need) = _
  rw [rewriteNeed_or, BitVec.or_assoc, BitVec.or_self]
  rfl

theorem heard_mono (inst : InstructionX64) (c : Calculated) (need need' : BitVec 8)
    (heard : inst.Heard c need) : inst.Heard (inst.visit c need') need := by
  show inst.rewriteNeed (inst.rewriteNeed _ ||| need) = inst.rewriteNeed (c.need_flags ||| need')
  rw [rewriteNeed_or, BitVec.or_assoc, BitVec.or_comm need', ← BitVec.or_assoc, ← rewriteNeed_or, heard]

theorem heard_of_sub {inst : InstructionX64} {c : Calculated} {need part : BitVec 8} (heard : inst.Heard c need)
    (sub : need ||| part = need) : inst.Heard c part := by
  have := heard
  unfold Heard at this ⊢
  rw [← heard, rewriteNeed_or, BitVec.or_assoc, sub]

theorem sub_of_heard {inst : InstructionX64} {c : Calculated} {need : BitVec 8} (heard : inst.Heard c need)
    {x : Nat} (has : (inst.rewriteNeed need).getLsbD x = true) : c.need_flags.getLsbD x = true := by
  rw [← show inst.rewriteNeed (c.need_flags ||| need) = c.need_flags from heard]
  apply inst.rewriteNeed_mono _ has
  exact fun x has => (getLsbD_or_iff _ _ x).mpr (.inr has)

end InstructionX64

/-! ### The recursion ends -/

namespace InstructionX64

/-- How often the need of an instruction can still change. -/
def height (inst : InstructionX64) (c : Calculated) : Nat :=
  (if inst.cannotDefer ∧ c.need_flags.getLsbD 7 = true then 256 else 255 - c.need_flags.toNat) +
    if c.old_use = inst.use_flags then 0 else 1

theorem toNat_lt_of_grows {v w : BitVec 8} (sub : v ||| w = w) (differs : w ≠ v) : v.toNat < w.toNat := by
  have le : v.toNat ≤ w.toNat := by
    rw [← sub, BitVec.toNat_or]
    exact Nat.left_le_or
  exact Nat.lt_of_le_of_ne le (fun eq => differs (BitVec.eq_of_toNat_eq eq.symm))

theorem height_visit_lt {inst : InstructionX64} {c : Calculated} {need : BitVec 8}
    (changes : inst.visit c need ≠ c) : inst.height (inst.visit c need) < inst.height c := by
  have closed : ¬(inst.cannotDefer ∧ (inst.visit c need).need_flags.getLsbD 7 = true) := by
    rintro ⟨defers, pend⟩
    have := (inst.getLsbD_rewriteNeed _ 7).mp pend
    rw [if_pos defers] at this
    tauto
  have size : (inst.visit c need).need_flags.toNat < 256 := (inst.visit c need).need_flags.isLt
  have use : (inst.visit c need).old_use = inst.use_flags := rfl
  unfold height
  rw [if_neg closed, if_pos use]
  by_cases open_before : inst.cannotDefer ∧ c.need_flags.getLsbD 7 = true
  · rw [if_pos open_before]
    omega
  · rw [if_neg open_before]
    have sub : c.need_flags ||| (inst.visit c need).need_flags = (inst.visit c need).need_flags := by
      apply BitVec.eq_of_getLsbD_eq
      intro x _
      rw [Bool.eq_iff_iff, getLsbD_or_iff]
      refine or_iff_right_of_imp fun has => (inst.getLsbD_rewriteNeed _ x).mpr ?_
      have has_or := (getLsbD_or_iff c.need_flags need x).mpr (.inl has)
      by_cases defers : inst.cannotDefer
      · rw [if_pos defers]
        exact .inl ⟨(fun eq => open_before ⟨defers, eq ▸ has⟩), has_or⟩
      · rwa [if_neg defers]
    by_cases same : (inst.visit c need).need_flags = c.need_flags
    · have other : c.old_use ≠ inst.use_flags := by
        intro eq
        apply changes
        show Calculated.mk _ _ = _
        rw [← eq, show inst.rewriteNeed (c.need_flags ||| need) = c.need_flags from same]
      rw [if_neg other, same]
      omega
    · have := toNat_lt_of_grows sub same
      omega

theorem announce_of_unchanged {inst : InstructionX64} {c : Calculated} {need out : BitVec 8}
    (same : inst.visit c need = c) (announced : inst.announce c need = some out) : inst.jmp_insts = -1 := by
  by_contra inside
  have need_same : inst.rewriteNeed (c.need_flags ||| need) = c.need_flags := congrArg Calculated.need_flags same
  have use_same : inst.use_flags = c.old_use := congrArg Calculated.old_use same
  simp [announce, exitNeed, inside, need_same, use_same] at announced

end InstructionX64

/-- An instruction that always passes its need on is entered from the one in front of it, or by a jump inside the block,
which passes nothing on unless something changes. -/
theorem exits_lt_of_edge {size : Nat} {insts : Fin size → InstructionX64} {p i : Fin size} (edge : Edge insts p i)
    (exits : (insts p).jmp_insts = -1) : p.val < i.val := by
  obtain ⟨-, next⟩ | ⟨-, target⟩ := edge
  · omega
  · omega

/-- Where an instruction that always passes its need on stands among the others. -/
def exitOrder {size : Nat} (insts : Fin size → InstructionX64) (i : Fin size) : Nat :=
  if (insts i).jmp_insts = -1 then i.val + 1 else 0

theorem exitOrder_lt {size : Nat} {insts : Fin size → InstructionX64} {p i : Fin size} (edge : Edge insts p i)
    (exits : (insts i).jmp_insts = -1) : exitOrder insts p < exitOrder insts i := by
  unfold exitOrder
  rw [if_pos exits]
  by_cases exits_p : (insts p).jmp_insts = -1
  · rw [if_pos exits_p]
    exact Nat.succ_lt_succ (exits_lt_of_edge edge exits_p)
  · rw [if_neg exits_p]
    exact Nat.succ_pos _

theorem exitOrder_le {size : Nat} (insts : Fin size → InstructionX64) (i : Fin size) : exitOrder insts i ≤ size := by
  unfold exitOrder
  split
  · exact i.isLt
  · exact Nat.zero_le _

theorem InstructionX64.height_visit_le (inst : InstructionX64) (c : Calculated) (need : BitVec 8) :
    inst.height (inst.visit c need) ≤ inst.height c := by
  by_cases same : inst.visit c need = c
  · exact (congrArg inst.height same).le
  · exact (height_visit_lt same).le

/-- What is passed on comes with a change, or goes to instructions of a lower order. -/
theorem InstructionX64.announce_drops {size : Nat} {insts : Fin size → InstructionX64} {i : Fin size} {c : Calculated}
    {need out : BitVec 8} (announced : (insts i).announce c need = some out) :
    (insts i).height ((insts i).visit c need) < (insts i).height c ∨
      ∀ p, Edge insts p i → exitOrder insts p < exitOrder insts i := by
  by_cases same : (insts i).visit c need = c
  · exact .inr fun p edge => exitOrder_lt edge (announce_of_unchanged same announced)
  · exact .inl (height_visit_lt same)

/-- With enough fuel the analysis returns, whatever the control flow. -/
theorem calculateNeed_terminates (dyn : DynarecNative) :
    ∃ enough, ∀ fuel, enough ≤ fuel → ∃ calculated, calculateNeed dyn fuel = some calculated := by
  let height := fun i c => (dyn.insts i).height c
  refine ⟨Flow.totalHeight height (resetNeed dyn) * (dyn.size + 1) + dyn.size + 1, fun fuel enough => ?_⟩
  rw [calculateNeed_eq_propagateAll]
  apply (needFlow dyn).propagateAll_terminates height (exitOrder dyn.insts)
  · exact exitOrder_le dyn.insts
  · exact fun i => (dyn.insts i).height_visit_le
  · intro i c need out announced
    refine (InstructionX64.announce_drops announced).imp_right ?_
    exact fun drops p pred => drops p ((dyn.pred_exact p i).mp pred)
  · exact enough

end Box64.Dynarec
