import Box64.Custommem.Arena

/-!
# Walks over an arena

The loops that follow `next.size` or `prev.size` from mark to mark. On well-formed marks each
ends, and computes its result from the list of sub-blocks.
-/

namespace Box64.Custommem

open Tiling ByteMemory

/-- The sub-blocks reached by following `next.size`, up to the terminal mark. -/
def followNext (mem : ByteMemory) : Nat → Nat → Option (List (Nat × Mark))
  | 0, _ => none
  | fuel + 1, m =>
    if next mem m = Mark.zero then some []
    else (followNext mem fuel (nextBlock mem m)).map ((m, next mem m) :: ·)

/-- The sub-blocks reached by following `prev.size`, down to the first mark. -/
def followPrev (mem : ByteMemory) : Nat → Nat → Option (List (Nat × Mark))
  | 0, _ => none
  | fuel + 1, m =>
    if prev mem m = Mark.zero then some []
    else (followPrev mem fuel (prevBlock mem m)).map ((prevBlock mem m, prev mem m) :: ·)

section

variable {mem : ByteMemory} {block size : Nat}

theorem Laid.length_lt {ts : List Mark} (laid : Laid mem block size ts) : ts.length < size := by
  have bound : ∀ us : List Mark, us.length ≤ extent 8 us := by
    intro us
    induction us with
    | nil => exact Nat.le_refl _
    | cons u us ih =>
      rw [List.length_cons, extent_cons]
      omega
  have whole := laid.whole
  have fits := bound ts
  omega

/-- One step along `next.size`. -/
theorem Laid.nextBlock_at {xs ys : List Mark} {t : Mark} (laid : Laid mem block size (xs ++ t :: ys)) :
    nextBlock mem (block + extent 8 xs) = block + extent 8 (xs ++ [t]) := by
  rw [nextBlock, laid.spells_at.1, extent_append, extent_cons, extent_nil]
  omega

/-- One step along `prev.size`. -/
theorem Laid.prevBlock_at {left right : List Mark} {t : Mark}
    (laid : Laid mem block size ((t :: left).reverse ++ right)) :
    prevBlock mem (block + extent 8 (t :: left)) = block + extent 8 left := by
  rw [prevBlock, laid.prev_at, extent_cons]
  simp only [List.head?_cons, Option.getD_some]
  omega

theorem Laid.next_ne_zero {xs ys : List Mark} {t : Mark} (laid : Laid mem block size (xs ++ t :: ys)) :
    next mem (block + extent 8 xs) ≠ Mark.zero := by
  rw [laid.spells_at.1]
  exact mark_ne_zero laid.size_pos

theorem Laid.prev_ne_zero {left right : List Mark} {t : Mark}
    (laid : Laid mem block size ((t :: left).reverse ++ right)) :
    prev mem (block + extent 8 (t :: left)) ≠ Mark.zero := by
  rw [laid.prev_at]
  exact mark_ne_zero (laid.sized t (by simp))

/-! ### The sub-blocks visited -/

theorem followNext_spec {fuel : Nat} {xs ys : List Mark} (laid : Laid mem block size (xs ++ ys))
    (enough : ys.length < fuel) :
    followNext mem fuel (block + extent 8 xs) = some (place 8 (block + extent 8 xs) ys) := by
  induction ys generalizing xs fuel with
  | nil =>
    obtain ⟨fuel, rfl⟩ := Nat.exists_eq_succ_of_ne_zero (Nat.ne_of_gt enough)
    have stop : next mem (block + extent 8 xs) = Mark.zero := laid.next_at
    rw [followNext, if_pos stop]
    rfl
  | cons t ts ih =>
    obtain ⟨fuel, rfl⟩ := Nat.exists_eq_succ_of_ne_zero (Nat.ne_of_gt (Nat.zero_lt_of_lt enough))
    have rest : Laid mem block size ((xs ++ [t]) ++ ts) := by simpa using laid
    have behind : block + extent 8 (xs ++ [t]) = block + extent 8 xs + 8 + t.size := by
      rw [extent_append, extent_cons, extent_nil]
      omega
    rw [followNext, if_neg laid.next_ne_zero, laid.nextBlock_at, laid.spells_at.1,
      ih rest (by simpa using enough), place_cons, behind]
    rfl

theorem followPrev_spec {fuel : Nat} {left right : List Mark}
    (laid : Laid mem block size (left.reverse ++ right)) (enough : left.length < fuel) :
    followPrev mem fuel (block + extent 8 left) = some (place 8 block left.reverse).reverse := by
  induction left generalizing right fuel with
  | nil =>
    obtain ⟨fuel, rfl⟩ := Nat.exists_eq_succ_of_ne_zero (Nat.ne_of_gt enough)
    have stop : prev mem (block + extent 8 []) = Mark.zero := laid.prev_at
    rw [followPrev, if_pos stop]
    rfl
  | cons t ts ih =>
    obtain ⟨fuel, rfl⟩ := Nat.exists_eq_succ_of_ne_zero (Nat.ne_of_gt (Nat.zero_lt_of_lt enough))
    have rest : Laid mem block size (ts.reverse ++ t :: right) := by simpa using laid
    rw [followPrev, if_neg laid.prev_ne_zero, laid.prevBlock_at, laid.prev_at,
      ih rest (by simpa using enough), List.reverse_cons, place_append, List.reverse_append, extent_reverse]
    rfl

/-! ### Searching for free space -/

/-- What `getFirstBlock` looks for. -/
def Suits (want : Nat) (p : Nat × Mark) : Bool := !p.2.fill && decide (want ≤ p.2.size)

theorem firstFree_spec {fuel : Nat} (want : Nat) {xs ys : List Mark} (laid : Laid mem block size (xs ++ ys))
    (enough : ys.length < fuel) :
    firstFree mem want fuel (block + extent 8 xs) =
      some (((place 8 (block + extent 8 xs) ys).find? (Suits want)).map fun p => (p.1, p.2.size)) := by
  induction ys generalizing xs fuel with
  | nil =>
    obtain ⟨fuel, rfl⟩ := Nat.exists_eq_succ_of_ne_zero (Nat.ne_of_gt enough)
    have stop : next mem (block + extent 8 xs) = Mark.zero := laid.next_at
    rw [firstFree, if_pos stop]
    rfl
  | cons t ts ih =>
    obtain ⟨fuel, rfl⟩ := Nat.exists_eq_succ_of_ne_zero (Nat.ne_of_gt (Nat.zero_lt_of_lt enough))
    have rest : Laid mem block size ((xs ++ [t]) ++ ts) := by simpa using laid
    have behind : block + extent 8 (xs ++ [t]) = block + extent 8 xs + 8 + t.size := by
      rw [extent_append, extent_cons, extent_nil]
      omega
    rw [firstFree, if_neg laid.next_ne_zero, laid.nextBlock_at, laid.spells_at.1, place_cons, List.find?_cons]
    split
    case isTrue suits => simp [Suits, suits]
    case isFalse unsuitable =>
      have skip : Suits want (block + extent 8 xs, t) = false := by
        rw [← Bool.not_eq_true]
        simpa [Suits] using unsuitable
      rw [ih rest (by simpa using enough), behind, skip]

theorem maxForward_spec {fuel acc : Nat} {xs ys : List Mark} (laid : Laid mem block size (xs ++ ys))
    (enough : ys.length < fuel) :
    maxForward mem fuel (block + extent 8 xs) acc = some (max acc (maxFree ys)) := by
  induction ys generalizing xs fuel acc with
  | nil =>
    obtain ⟨fuel, rfl⟩ := Nat.exists_eq_succ_of_ne_zero (Nat.ne_of_gt enough)
    have stop : next mem (block + extent 8 xs) = Mark.zero := laid.next_at
    rw [maxForward, if_pos stop]
    simp [maxFree]
  | cons t ts ih =>
    obtain ⟨fuel, rfl⟩ := Nat.exists_eq_succ_of_ne_zero (Nat.ne_of_gt (Nat.zero_lt_of_lt enough))
    have rest : Laid mem block size ((xs ++ [t]) ++ ts) := by simpa using laid
    rw [maxForward, if_neg laid.next_ne_zero, laid.nextBlock_at, laid.spells_at.1]
    split
    case isTrue larger => rw [ih rest (by simpa using enough), ← max_maxFree_cons, if_pos larger]
    case isFalse smaller => rw [ih rest (by simpa using enough), ← max_maxFree_cons, if_neg smaller]

/-- Its early exit is never taken: a sub-block is no longer than what lies before its end. -/
theorem maxBackward_spec {fuel acc : Nat} {left right : List Mark}
    (laid : Laid mem block size (left.reverse ++ right)) (enough : left.length < fuel) :
    maxBackward mem block fuel (block + extent 8 left) acc = some (max acc (maxFree left)) := by
  induction left generalizing right fuel acc with
  | nil =>
    obtain ⟨fuel, rfl⟩ := Nat.exists_eq_succ_of_ne_zero (Nat.ne_of_gt enough)
    have stop : prev mem (block + extent 8 []) = Mark.zero := laid.prev_at
    rw [maxBackward, if_pos stop]
    simp [maxFree]
  | cons t ts ih =>
    obtain ⟨fuel, rfl⟩ := Nat.exists_eq_succ_of_ne_zero (Nat.ne_of_gt (Nat.zero_lt_of_lt enough))
    have rest : Laid mem block size (ts.reverse ++ t :: right) := by simpa using laid
    have behind : prev mem (block + extent 8 (t :: ts)) = t := laid.prev_at
    rw [maxBackward, if_neg laid.prev_ne_zero, laid.prevBlock_at, behind, ← max_maxFree_cons]
    by_cases larger : t.fill = false ∧ acc < t.size
    · rw [if_pos larger, if_pos larger, if_neg (by rw [extent_cons]; omega), ih rest (by simpa using enough)]
    · rw [if_neg larger, if_neg larger, ih rest (by simpa using enough)]

/-- `getMaxFreeBlock` leaves out a largest size that is below a mark's. -/
def atLeastMark (maxsize : Nat) : Nat := if 8 ≤ maxsize then maxsize else 0

theorem getMaxFreeBlock_all {ts : List Mark} (laid : Laid mem block size ts) :
    getMaxFreeBlock mem block size none size = some (atLeastMark (maxFree ts)) := by
  have reversed : Laid mem block size (ts.reverse.reverse ++ []) := by simpa using laid
  have enough := laid.length_lt
  have last : lastBlock block size = block + extent 8 ts.reverse := by
    rw [lastBlock, laid.whole, extent_reverse]
    omega
  rw [getMaxFreeBlock, last, maxBackward_spec reversed (by simpa using enough), maxFree_reverse, Nat.zero_max]
  rfl

theorem getMaxFreeBlock_from {xs ys : List Mark} (laid : Laid mem block size (xs ++ ys)) :
    getMaxFreeBlock mem block size (some (block + extent 8 xs)) size = some (atLeastMark (maxFree ys)) := by
  have enough : (xs ++ ys).length < size := laid.length_lt
  rw [List.length_append] at enough
  rw [getMaxFreeBlock, maxForward_spec laid (by omega), Nat.zero_max]
  rfl

theorem skipFilled_spec {fuel : Nat} {xs ys : List Mark} (laid : Laid mem block size (xs ++ ys))
    (enough : ys.length < fuel) :
    skipFilled mem fuel (block + extent 8 xs) =
      some (block + extent 8 (xs ++ ys.takeWhile (·.fill))) := by
  induction ys generalizing xs fuel with
  | nil =>
    obtain ⟨fuel, rfl⟩ := Nat.exists_eq_succ_of_ne_zero (Nat.ne_of_gt enough)
    rw [skipFilled, laid.next_at]
    simp [Mark.zero]
  | cons t ts ih =>
    obtain ⟨fuel, rfl⟩ := Nat.exists_eq_succ_of_ne_zero (Nat.ne_of_gt (Nat.zero_lt_of_lt enough))
    have rest : Laid mem block size ((xs ++ [t]) ++ ts) := by simpa using laid
    rw [skipFilled, laid.nextBlock_at, laid.spells_at.1, List.takeWhile_cons]
    split
    · rw [ih rest (by simpa using enough), List.append_assoc]
      rfl
    · rw [List.append_nil]

end

/-! ### A fresh arena -/

theorem setupMarks_spec (mem : ByteMemory) (p : Nat) {allocsize : Nat} (room : 16 < allocsize)
    (small : allocsize < 2 ^ 31 + 16) :
    Arena (setupMarks mem p allocsize) p allocsize [⟨allocsize - 16, false⟩] ∧
      ChangedIn p (p + allocsize) mem (setupMarks mem p allocsize) := by
  have writes : ∃ a b, setupMarks mem p allocsize =
      setMark (setMark (setMark (setMark (setMark (setMark mem p Mark.zero) (p + 4) ⟨a, false⟩)
        (p + 4) ⟨allocsize - 16, false⟩) (p + allocsize - 8 + 4) Mark.zero)
        (p + allocsize - 8) ⟨b, false⟩) (p + allocsize - 8) ⟨allocsize - 16, false⟩ := by
    have m := mark_size_lt mem (p + 4)
    have n := mark_size_lt mem (p + allocsize - 8)
    have place : p + (allocsize - 16) + 8 = p + allocsize - 8 := by omega
    refine ⟨(mark mem (p + 4)).size, (mark mem (p + allocsize - 8)).size, ?_⟩
    unfold setupMarks
    simp (disch := omega) only [Mark.zero, setNextFill, setNextSize, setPrevFill, setPrevSize, nextBlock, next,
      prev, mark_setMark_same, mark_setMark_other, Nat.reduceMul, place]
  obtain ⟨a, b, writes⟩ := writes
  rw [writes]
  have place : p + 8 + (allocsize - 16) = p + allocsize - 8 := by omega
  refine ⟨⟨⟨?_, ⟨?_, ?_, trivial⟩, ?_, ?_, small, ?_⟩, .singleton _⟩, ?_⟩
  · simp (disch := omega) only [Mark.zero, prev, mark_setMark_same, mark_setMark_other]
  · simp (disch := omega) only [Mark.zero, next, mark_setMark_same, mark_setMark_other]
  · simp (disch := omega) only [Mark.zero, prev, place, mark_setMark_same]
  · simp only [extent_cons, extent_nil, Nat.add_zero, ← Nat.add_assoc, place]
    simp (disch := omega) only [Mark.zero, next, mark_setMark_same, mark_setMark_other]
  · simp only [extent_cons, extent_nil]
    omega
  · intro t mem
    obtain rfl := List.mem_singleton.mp mem
    dsimp only
    omega
  · iterate 6 refine ChangedIn.trans ?_ (changedIn_setMark (by omega) (by omega))
    exact ChangedIn.refl _ _ mem

end Box64.Custommem
