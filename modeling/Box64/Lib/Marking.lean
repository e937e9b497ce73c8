import Mathlib.Data.Set.Basic

/-!
# Marking along edges

A walk takes nodes out of a set, and for each one it takes out it sees to the neighbours. What is left of the set then has
no edge to what was taken.
-/

namespace Marking

variable {ν : Type*} (near : ν → ν → Prop)

/-- No node taken from `before` has a neighbour in `after`. -/
def Settled (before after : ν → Prop) : Prop := ∀ u v, before u → ¬ after u → near u v → ¬ after v

variable {near} {before mid after : ν → Prop}

theorem Settled.refl : Settled near before before := fun _ _ inside out => absurd inside out

theorem Settled.trans (first : Settled near before mid) (second : Settled near mid after) (less : ∀ u, after u → mid u) :
    Settled near before after := by
  intro u v inside out edge left
  by_cases still : mid u
  · exact second u v still out edge left
  · exact first u v inside still edge (less v left)

/-- One node taken out, then others, its neighbours among them. -/
theorem Settled.take {u : ν} (only : ∀ v, before v → v ≠ u → mid v) (neighbours : ∀ v, near u v → ¬ after v)
    (rest : Settled near mid after) : Settled near before after := by
  intro w v inside out edge
  by_cases same : w = u
  · subst same
    exact neighbours v edge
  · exact rest w v (only w inside same) out edge

end Marking
