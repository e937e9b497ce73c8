import Box64.Dynarec.FlagNeed
import Box64.Dynarec.Predecessors

/-!
# Every call of `updateNeed` returns

`updateNeed` on the lists that `fillPredecessors` leaves, which may lack an edge of the control flow but hold no other.
The recursion ends whatever the needs are when it starts.
-/

namespace Box64.Dynarec

open Propagation

/-- An instruction array with lists of predecessors. -/
structure NativeBlock where
  size : Nat
  insts : Fin size → InstructionX64
  pred : Fin size → List (Fin size)
  pred_edge : ∀ p s, p ∈ pred s → Edge insts p s

namespace NativeBlock

abbrev Needs (dyn : NativeBlock) := Fin dyn.size → Calculated

def updateNeed (dyn : NativeBlock) : Nat → dyn.Needs → Fin dyn.size → BitVec 8 → Option dyn.Needs
  | 0, _, _, _ => none
  | fuel + 1, calculated, ninst, need =>
    let inst := dyn.insts ninst
    let old_need := (calculated ninst).need_flags
    let new_need := inst.rewriteNeed (old_need ||| need)
    let new_use := inst.use_flags
    let old_use := (calculated ninst).old_use
    let calculated := Function.update calculated ninst { need_flags := new_need, old_use := new_use }
    let new_need := inst.exitNeed new_need
    if new_need = old_need ∧ new_use = old_use then some calculated    -- no changes, bye
    else
      let new_need := inst.handOver new_need
      (dyn.pred ninst).foldlM (fun calculated p => updateNeed dyn fuel calculated p new_need) calculated

def needFlow (dyn : NativeBlock) : Flow (Fin dyn.size) Calculated (BitVec 8) where
  pred := dyn.pred
  visit i := (dyn.insts i).visit
  send i := (dyn.insts i).announce

theorem updateNeed_eq_flow (dyn : NativeBlock) (fuel : Nat) : dyn.updateNeed fuel = dyn.needFlow.propagate fuel := by
  induction fuel with
  | zero => rfl
  | succ fuel ih =>
    funext calculated ninst need
    rw [updateNeed, Flow.propagate, ih]
    dsimp only [needFlow, InstructionX64.announce, InstructionX64.visit]
    split
    · rfl
    · rfl

/-- With enough fuel each call returns, from any needs and for any need. -/
theorem updateNeed_returns (dyn : NativeBlock) (calculated : dyn.Needs) (ninst : Fin dyn.size) (need : BitVec 8) :
    ∃ enough, ∀ fuel, enough ≤ fuel → ∃ after, dyn.updateNeed fuel calculated ninst need = some after := by
  let height := fun i c => (dyn.insts i).height c
  refine ⟨Flow.totalHeight height calculated * (dyn.size + 1) + exitOrder dyn.insts ninst + 1, fun fuel enough => ?_⟩
  have drop (i : Fin dyn.size) (c : Calculated) (need out : BitVec 8)
      (announced : (dyn.insts i).announce c need = some out) :
      height i ((dyn.insts i).visit c need) < height i c ∨
        ∀ p ∈ dyn.pred i, exitOrder dyn.insts p < exitOrder dyn.insts i := by
    refine (InstructionX64.announce_drops announced).imp_right ?_
    exact fun drops p pred => drops p (dyn.pred_edge p i pred)
  obtain ⟨after, run, -⟩ := dyn.needFlow.propagate_terminates (exitOrder_le dyn.insts)
    (fun i => (dyn.insts i).height_visit_le) drop calculated ninst need enough
  refine ⟨after, ?_⟩
  rw [updateNeed_eq_flow]
  exact run

end NativeBlock

namespace JumpBlock

open Rows

variable (dyn : JumpBlock) (malloced : Nat → Nat)

/-- What `fillPredecessors` leaves in a list are edges of the control flow. -/
theorem edge_of_mem_row {k : Fin dyn.size} {v : Nat} (mem : v ∈ (dyn.fillPredecessors malloced).row k) :
    ∃ p : Fin dyn.size, p.val = v ∧ Edge dyn.insts p k := by
  rw [fillPredecessors_row] at mem
  obtain ⟨⟨k', v'⟩, entry, rfl⟩ := List.mem_map.mp mem
  obtain ⟨filled, here⟩ := List.mem_filter.mp entry
  obtain rfl : k' = k := of_decide_eq_true here
  obtain ⟨i, -, made⟩ := List.mem_flatMap.mp filled
  obtain next | jump := List.mem_append.mp made
  · obtain ⟨-, next, same⟩ := mem_nextEdge.mp next
    obtain ⟨after, more⟩ := next_eq_some.mp next
    exact ⟨i, same.symm, Or.inl ⟨more, after⟩⟩
  · obtain ⟨jump, same⟩ := mem_jumpEdge.mp jump
    exact ⟨i, same.symm, Or.inr (jump_eq_some.mp jump)⟩

/-- The block as `updateNeed` finds it: each instruction with its list in `predecessor`. -/
def filled : NativeBlock where
  size := dyn.size
  insts := dyn.insts
  pred k := ((dyn.fillPredecessors malloced).row k).filterMap fun v =>
    if inside : v < dyn.size then some ⟨v, inside⟩ else none
  pred_edge p s mem := by
    obtain ⟨v, listed, found⟩ := List.mem_filterMap.mp mem
    obtain ⟨p', rfl, edge⟩ := dyn.edge_of_mem_row malloced listed
    rw [dif_pos p'.isLt] at found
    cases found
    exact edge

end JumpBlock

end Box64.Dynarec
