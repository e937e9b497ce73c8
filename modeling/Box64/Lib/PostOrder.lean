import Mathlib.Logic.Relation

/-!
# Post-orders

A list in which every element comes after all it has an edge to.
-/

namespace PostOrder

variable {ν : Type*}

/-- `v` stands in the list before `u`. -/
def Precedes (order : List ν) (v u : ν) : Prop := ∃ before after, order = before ++ u :: after ∧ v ∈ before

/-- Every element comes after all it has an edge to. -/
def IsPostOrder (edge : ν → ν → Prop) (order : List ν) : Prop :=
  ∀ before u after, order = before ++ u :: after → ∀ v, edge u v → v ∈ before

variable {edge : ν → ν → Prop} {order : List ν}

theorem IsPostOrder.nil : IsPostOrder edge ([] : List ν) := by
  intro before u after eq
  simp at eq

theorem IsPostOrder.snoc {u : ν} (post : IsPostOrder edge order) (all : ∀ v, edge u v → v ∈ order) :
    IsPostOrder edge (order ++ [u]) := by
  intro before w after eq v step
  rcases List.append_eq_append_iff.mp eq with ⟨rest, rfl, tail⟩ | ⟨rest, rfl, tail⟩
  · cases rest with
    | nil =>
      obtain ⟨rfl, -⟩ := List.cons.inj tail
      rw [List.append_nil]
      exact all v step
    | cons x rest =>
      have := congrArg List.length tail
      simp at this
  · cases rest with
    | nil =>
      obtain ⟨rfl, -⟩ := List.cons.inj tail
      rw [List.append_nil] at all
      exact all v step
    | cons x rest =>
      obtain ⟨rfl, -⟩ := List.cons.inj tail
      exact post before w rest rfl v step

/-- And so does all that a path leads to. -/
theorem IsPostOrder.path {u v : ν} (post : IsPostOrder edge order) (mem : u ∈ order)
    (path : Relation.TransGen edge u v) : Precedes order v u := by
  obtain ⟨before, after, rfl⟩ := List.append_of_mem mem
  refine ⟨before, after, rfl, ?_⟩
  induction path with
  | single step => exact post before u after rfl _ step
  | tail _ step ih =>
    obtain ⟨first, last, rfl⟩ := List.append_of_mem ih
    have earlier := post first _ (last ++ u :: after) (by simp) _ step
    exact List.mem_append_left _ earlier

end PostOrder
