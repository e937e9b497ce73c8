import Box64.Dynarec.PromoteWalks

/-!
# Consistent types

What a promotion makes of types that were consistent along the instructions.
-/

namespace Box64.Dynarec.Promote

section Runs

variable {m : Nat} {start : Int} {T : Walker → Value → Prop}

theorem specs (fuel : Nat) : Specs m start T fuel := by
  induction fuel with
  | zero =>
    constructor
    · exact fun _ _ _ _ _ enough => absurd enough (Nat.not_succ_le_zero _)
    · exact fun _ _ _ _ _ enough => absurd enough (Nat.not_succ_le_zero _)
    · exact fun _ _ _ _ _ enough => absurd enough (Nat.not_succ_le_zero _)
    · exact fun _ _ _ _ _ enough => absurd enough (Nat.not_succ_le_zero _)
    · exact fun _ _ _ enough => absurd enough (Nat.not_succ_le_zero _)
  | succ fuel ih =>
    exact ⟨ih.combined_succ, ih.internal_succ, ih.loop_succ, ih.forward_succ, ih.promote_succ⟩

end Runs

/-! ### Promotion -/

section Promotion

variable (m : Nat) (start : Int) (d : Dyn)

/-- No value is cached as a float by one instruction and as a double by a neighbour that has it too, nor two of a pair. -/
def Consistent : Prop := ∀ u v, Near m d u v → d.Float m u → ¬ d.Cached m .ST_D v

/-- The walk from the register `start` of the current instruction meets no float where it goes wrong. -/
def Sound : Prop := Safe m start (Met m d start) d

/-- The walk looks at no barrier but the one behind the current instruction, or meets no pair of floats. -/
def Plain : Prop := (d.insts m).n.barrier ∨ ∀ w u v, Met m d start w u → d.Float m u → ¬ Pair m d u v

/-- Types have changed from float to double and nothing else. -/
def OnlyPromotes (d d' : Dyn) : Prop :=
  d'.size = d.size ∧ (∀ k, (d'.insts k).has_next = (d.insts k).has_next) ∧ Promoted d.n d'.n ∧
    ∀ k, Promoted (d.insts k).n (d'.insts k).n

variable {m start d} {d' : Dyn} {T : Walker → Value → Prop}

theorem Progress.only (progress : Progress m d d') (settles : Settles m T d d') : OnlyPromotes d d' := by
  refine ⟨progress.size, progress.has_next, progress.current, ?_⟩
  intro k
  by_cases current : k = m
  · rw [current]
    exact settles.last
  · exact progress.insts k current

/-- Registers that were floats and are doubles are floats no more. -/
theorem Consistent.keep (consistent : Consistent m d) (progress : Progress m d d') (settles : Settles m T d d')
    (recorded : Recorded m T d) : Consistent m d' := by
  intro u v near float double
  rw [progress.near] at near
  have before := progress.float float
  obtain ⟨inside, i, type, number⟩ := double
  have promoted := progress.cache_promoted v.1
  rw [promoted.number] at number
  rcases promoted.types i with same | ⟨type', -⟩
  · exact consistent u v near before ⟨inside, i, same ▸ type, number⟩
  · obtain ⟨w, touched⟩ := settles.met v.1 inside i type' (by rw [type]; decide)
    rw [number] at touched
    have taken : ¬ d'.Float m v := by
      rintro ⟨-, j, float', number'⟩
      rw [promoted.number] at number'
      rw [recorded.numbers w v touched i j type' (promoted.float float') number number', float'] at type
      cases type
    exact settles.settled v u ⟨inside, i, type', number⟩ taken near.symm float

/-! #### Where the condition is exact -/

/-- The walk from a register that the current instruction has pushed ends there. -/
theorem sound_of_pushed (recorded : Recorded m (Met m d start) d) (pushed : left m d (m, start) < 0)
    (alone : ∀ v, ¬ Pair m d (m, start) v) : Sound m start d := by
  have here : ∀ {w v}, Met m d start w v → w = .promote ∧ v = (m, start) := by
    intro w v met
    induction met with
    | start => exact ⟨rfl, rfl⟩
    | @walk w w' u v met float walks ih =>
      obtain ⟨rfl, rfl⟩ := ih
      cases w' with
      | promote => exact absurd walks (alone v)
      | internal => exact absurd walks.2.1 (Int.not_le.mpr pushed)
      | combined => exact walks.elim
      | forward => exact walks.elim
  refine ⟨recorded, ?_, ?_, ?_⟩
  · intro w u v _ met link
    obtain ⟨-, rfl⟩ := here met
    exact absurd link.back.2 (Int.not_le.mpr pushed)
  · intro u v met
    cases (here met).1
  · intro w u v which met
    obtain ⟨rfl, -⟩ := here met
    rcases which with same | same <;> cases same

end Promotion

end Box64.Dynarec.Promote
