import Box64.Custommem.Marks

/-!
# Arenas as tilings

The marks of an arena spell a tiling of it: `Spells` relates the bytes to a list of tiles, and
each function over the marks is the operation of the same name on that list.
-/

namespace Box64.Custommem

open Tiling ByteMemory

/-- The marks from `a` on are those of the sub-blocks `ts`: each mark's `next` is its sub-block's,
and so is the `prev` of the mark behind. -/
def Spells (mem : ByteMemory) : Nat → List Mark → Prop
  | _, [] => True
  | a, t :: ts => next mem a = t ∧ prev mem (a + 8 + t.size) = t ∧ Spells mem (a + 8 + t.size) ts

/-- The marks of `[block, block + size)` are laid out for the sub-blocks `ts`. -/
structure Laid (mem : ByteMemory) (block size : Nat) (ts : List Mark) : Prop where
  first : prev mem block = Mark.zero
  spells : Spells mem block ts
  last : next mem (block + extent 8 ts) = Mark.zero
  whole : size = extent 8 ts + 8
  small : size < 2 ^ 31 + 16
  sized : ∀ t ∈ ts, 0 < t.size

/-- Well-formed marks: of two neighbouring sub-blocks one is in use. -/
structure Arena (mem : ByteMemory) (block size : Nat) (ts : List Mark) : Prop extends
  Laid mem block size ts where
  separated : Tiling.Separated ts

/-! ### Frames and joins -/

theorem spells_append {mem : ByteMemory} {a : Nat} {xs ys : List Mark} :
    Spells mem a (xs ++ ys) ↔ Spells mem a xs ∧ Spells mem (a + extent 8 xs) ys := by
  induction xs generalizing a with
  | nil => simp [Spells]
  | cons t ts ih =>
    have joint : a + 8 + t.size + extent 8 ts = a + extent 8 (t :: ts) := by
      rw [extent_cons]
      omega
    simp only [List.cons_append, Spells, ih, joint, and_assoc]

theorem spells_frame {mem mem' : ByteMemory} {lo hi a : Nat} {ts : List Mark}
    (same : ChangedIn lo hi mem mem') (apart : a + extent 8 ts + 4 ≤ lo ∨ hi ≤ a + 4)
    (spells : Spells mem a ts) : Spells mem' a ts := by
  induction ts generalizing a with
  | nil => trivial
  | cons t ts ih =>
    rw [extent_cons] at apart
    obtain ⟨here, behind, rest⟩ := spells
    refine ⟨?_, ?_, ih (by omega) rest⟩
    · rw [next, mark_frame same (by omega)]
      exact here
    · rw [prev, mark_frame same (by omega)]
      exact behind

theorem spells_size_lt {mem : ByteMemory} {a : Nat} {ts : List Mark} (spells : Spells mem a ts) :
    ∀ t ∈ ts, t.size < 2 ^ 31 := by
  induction ts generalizing a with
  | nil => simp
  | cons t ts ih =>
    obtain ⟨here, -, rest⟩ := spells
    intro u mem
    rcases List.mem_cons.mp mem with rfl | later
    · rw [← here]
      exact mark_size_lt ..
    · exact ih rest u later

/-- A stretch of sub-blocks rewritten in place, by writes between its first and last mark. -/
theorem Laid.rewrite {mem mem' : ByteMemory} {block size : Nat} {xs zs : List Mark}
    (ys ys' : List Mark) (laid : Laid mem block size (xs ++ (ys ++ zs)))
    (same : ChangedIn (block + extent 8 xs + 4) (block + extent 8 xs + extent 8 ys + 4) mem mem')
    (spells : Spells mem' (block + extent 8 xs) ys') (extents : extent 8 ys' = extent 8 ys)
    (sized : ∀ t ∈ ys', 0 < t.size) : Laid mem' block size (xs ++ (ys' ++ zs)) := by
  obtain ⟨before, after⟩ := spells_append.mp laid.spells
  obtain ⟨-, after⟩ := spells_append.mp after
  have total : extent 8 (xs ++ (ys' ++ zs)) = extent 8 (xs ++ (ys ++ zs)) := by
    simp only [extent_append, extents]
  refine ⟨?_, ?_, ?_, ?_, laid.small, ?_⟩
  · rw [prev, mark_frame same (by omega)]
    exact laid.first
  · refine spells_append.mpr ⟨spells_frame same (by omega) before, spells_append.mpr ⟨spells, ?_⟩⟩
    rw [extents]
    exact spells_frame same (by omega) after
  · rw [total, next, mark_frame same (by simp only [extent_append]; omega)]
    exact laid.last
  · rw [total]
    exact laid.whole
  · intro t mem
    rcases List.mem_append.mp mem with first | rest
    · exact laid.sized t (List.mem_append_left _ first)
    · rcases List.mem_append.mp rest with here | last
      · exact sized t here
      · exact laid.sized t (by simp [last])

/-- Writes outside an arena leave its marks alone. -/
theorem Laid.frame {mem mem' : ByteMemory} {block size lo hi : Nat} {ts : List Mark}
    (laid : Laid mem block size ts) (same : ChangedIn lo hi mem mem')
    (apart : block + size ≤ lo ∨ hi ≤ block) : Laid mem' block size ts := by
  have whole := laid.whole
  refine ⟨?_, spells_frame same (by omega) laid.spells, ?_, laid.whole, laid.small, laid.sized⟩
  · rw [prev, mark_frame same (by omega)]
    exact laid.first
  · rw [next, mark_frame same (by omega)]
    exact laid.last

theorem Laid.size_pos {mem : ByteMemory} {block size : Nat} {xs ys : List Mark} {t : Mark}
    (laid : Laid mem block size (xs ++ t :: ys)) : 0 < t.size :=
  laid.sized t (List.mem_append_right _ List.mem_cons_self)

theorem Laid.spells_at {mem : ByteMemory} {block size : Nat} {xs ys : List Mark} {t : Mark}
    (laid : Laid mem block size (xs ++ t :: ys)) : Spells mem (block + extent 8 xs) [t] := by
  obtain ⟨-, here, behind, -⟩ := spells_append.mp laid.spells
  exact ⟨here, behind, trivial⟩

theorem Laid.next_at {mem : ByteMemory} {block size : Nat} {xs ys : List Mark}
    (laid : Laid mem block size (xs ++ ys)) :
    next mem (block + extent 8 xs) = ys.head?.getD Mark.zero := by
  cases ys with
  | nil =>
    have last := laid.last
    rwa [List.append_nil] at last
  | cons t ts => exact laid.spells_at.1

theorem Laid.prev_at {mem : ByteMemory} {block size : Nat} {left right : List Mark}
    (laid : Laid mem block size (left.reverse ++ right)) :
    prev mem (block + extent 8 left) = left.head?.getD Mark.zero := by
  cases left with
  | nil => exact laid.first
  | cons l ls =>
    rw [List.reverse_cons, List.append_assoc] at laid
    have behind := laid.spells_at.2.1
    rw [extent_reverse] at behind
    have place : block + extent 8 (l :: ls) = block + extent 8 ls + 8 + l.size := by
      rw [extent_cons]
      omega
    rw [place]
    exact behind

/-! ### Allocating -/

/-- The marks after `allocBlock` when the rest of the sub-block is worth a mark. -/
theorem allocMarks_splits {mem : ByteMemory} {s n size : Nat} (here : next mem s = ⟨n, false⟩)
    (behind : prev mem (s + n + 8) = ⟨n, false⟩) (room : size + 16 < n) :
    ∃ a b, allocMarks mem s size =
      setMark (setMark (setMark (setMark (setMark (setMark (setMark (setMark mem
        (s + 4) ⟨n, true⟩) (s + 4) ⟨size, true⟩)
        (s + size + 8) ⟨a, true⟩) (s + size + 8) ⟨size, true⟩)
        (s + size + 8 + 4) ⟨b, false⟩) (s + size + 8 + 4) ⟨n - size - 8, false⟩)
        (s + n + 8) ⟨n, false⟩) (s + n + 8) ⟨n - size - 8, false⟩ := by
  have small : n < 2 ^ 31 := by
    have := mark_size_lt mem (s + 4)
    rwa [← next, here] at this
  simp only [next, prev] at here behind
  have m := mark_size_lt mem (s + size + 8)
  have m' := mark_size_lt mem (s + size + 8 + 4)
  refine ⟨(mark mem (s + size + 8)).size, (mark mem (s + size + 8 + 4)).size, ?_⟩
  have apart : s + n + 8 ≠ s + size + 8 := by omega
  have rest : s + n + 8 - (s + size + 8) - 8 = n - size - 8 := by omega
  have sum : (size + 16) % 2 ^ 64 = size + 16 := Nat.mod_eq_of_lt (by omega)
  unfold allocMarks
  simp (disch := omega) only [nextBlock, next, prev, setNextFill, setNextSize, setPrevFill, setPrevSize,
    here, behind, mark_setMark_same, mark_setMark_other, gt_iff_lt, Nat.reduceMul, sum, ↓reduceIte, room, apart, rest,
    ne_eq, not_false_eq_true]

/-- The marks after `allocBlock` when the whole sub-block is given away. -/
theorem allocMarks_whole {mem : ByteMemory} {s n size : Nat} (here : next mem s = ⟨n, false⟩)
    (behind : prev mem (s + n + 8) = ⟨n, false⟩) (fits : size ≤ n) (tight : ¬size + 16 < n) :
    allocMarks mem s size = setMark (setMark mem (s + 4) ⟨n, true⟩) (s + n + 8) ⟨n, true⟩ := by
  have small : n < 2 ^ 31 := by
    have := mark_size_lt mem (s + 4)
    rwa [← next, here] at this
  simp only [next, prev] at here behind
  have sum : (size + 16) % 2 ^ 64 = size + 16 := Nat.mod_eq_of_lt (by omega)
  unfold allocMarks
  simp (disch := omega) only [nextBlock, next, prev, setNextFill, setPrevFill, here, behind,
    mark_setMark_same, mark_setMark_other, gt_iff_lt, Nat.reduceMul, sum, ↓reduceIte, tight, ne_eq,
    not_true_eq_false]

theorem allocMarks_spec {mem : ByteMemory} {s n size : Nat} (fits : size ≤ n) (spells : Spells mem s [⟨n, false⟩]) :
    Spells (allocMarks mem s size) s (split 8 16 n size) ∧
      ChangedIn (s + 4) (s + 8 + n + 4) mem (allocMarks mem s size) := by
  have small : n < 2 ^ 31 := spells_size_lt spells _ (List.mem_singleton.mpr rfl)
  obtain ⟨here, behind, -⟩ := spells
  dsimp only at behind
  rw [Nat.add_right_comm] at behind
  by_cases room : size + 16 < n
  · obtain ⟨a, b, writes⟩ := allocMarks_splits here behind room
    rw [writes, split, if_pos room]
    constructor
    · have far : s + size + 8 + 8 + (n - size - 8) = s + n + 8 := by omega
      have near : s + 8 + size = s + size + 8 := by omega
      refine ⟨?_, ?_, ?_, ?_, trivial⟩ <;>
        simp (disch := omega) only [next, prev, far, near, mark_setMark_same, mark_setMark_other]
    · iterate 8 refine ChangedIn.trans ?_ (changedIn_setMark (by omega) (by omega))
      exact ChangedIn.refl _ _ mem
  · rw [allocMarks_whole here behind fits room, split, if_neg room]
    constructor
    · have near : s + 8 + n = s + n + 8 := by omega
      refine ⟨?_, ?_, trivial⟩ <;>
        simp (disch := omega) only [next, prev, near, mark_setMark_same, mark_setMark_other]
    · exact (changedIn_setMark (by omega) (by omega)).trans (changedIn_setMark (by omega) (by omega))

theorem Arena.alloc {mem : ByteMemory} {block size n want : Nat} {left right : List Mark}
    (arena : Arena mem block size (left.reverse ++ ⟨n, false⟩ :: right)) (pos : 0 < want)
    (fits : want ≤ n) :
    Arena (allocMarks mem (block + extent 8 left) want) block size
        (left.reverse ++ split 8 16 n want ++ right) ∧
      ChangedIn block (block + size) mem (allocMarks mem (block + extent 8 left) want) := by
  have here := arena.spells_at
  have whole := arena.whole
  rw [extent_reverse] at here
  obtain ⟨spells, same⟩ := allocMarks_spec fits here
  have extents : extent 8 (split 8 16 n want) = extent 8 [⟨n, false⟩] := extent_split (by decide)
  refine ⟨⟨?_, separated_split arena.separated⟩, ?_⟩
  · rw [List.append_assoc]
    refine Laid.rewrite [⟨n, false⟩] _ arena.toLaid ?_ (by rwa [extent_reverse]) extents
      (split_pos (by decide) pos fits)
    rw [extent_reverse]
    exact same.mono (Nat.le_refl _) (by simp; omega)
  · simp only [extent_append, extent_reverse, extent_cons] at whole
    exact same.mono (by omega) (by omega)

/-! ### Freeing -/

theorem mark_ne_zero {t : Mark} (pos : 0 < t.size) : t ≠ Mark.zero := by
  rintro rfl
  exact absurd pos (by decide)

/-- The first two writes of `freeBlock`. -/
theorem Laid.unfill {mem : ByteMemory} {block size n : Nat} {left right : List Mark}
    (laid : Laid mem block size (left.reverse ++ ⟨n, true⟩ :: right)) :
    Laid (setPrevFill (setNextFill mem (block + extent 8 left) false) (block + extent 8 left + n + 8) false)
        block size (left.reverse ++ ⟨n, false⟩ :: right) ∧
      ChangedIn (block + extent 8 left + 4) (block + extent 8 left + n + 12) mem
        (setPrevFill (setNextFill mem (block + extent 8 left) false) (block + extent 8 left + n + 8) false) := by
  have spells := laid.spells_at
  have pos := laid.size_pos
  rw [extent_reverse] at spells
  have small := spells_size_lt spells _ (List.mem_singleton.mpr rfl)
  dsimp only at small
  obtain ⟨here, behind, -⟩ := spells
  generalize hs : block + extent 8 left = s at here behind ⊢
  dsimp only at behind
  rw [Nat.add_right_comm] at behind
  simp only [next, prev] at here behind
  have writes : setPrevFill (setNextFill mem s false) (s + n + 8) false =
      setMark (setMark mem (s + 4) ⟨n, false⟩) (s + n + 8) ⟨n, false⟩ := by
    simp (disch := omega) only [setPrevFill, setNextFill, next, prev, here, behind, mark_setMark_other]
  have same : ChangedIn (s + 4) (s + n + 12) mem (setMark (setMark mem (s + 4) ⟨n, false⟩) (s + n + 8) ⟨n, false⟩) :=
    (changedIn_setMark (by omega) (by omega)).trans (changedIn_setMark (by omega) (by omega))
  rw [writes]
  refine ⟨Laid.rewrite [⟨n, true⟩] [⟨n, false⟩] laid ?_ ?_ rfl ?_, same⟩
  · rw [extent_reverse, hs]
    simp only [extent_cons, extent_nil]
    exact same.mono (by omega) (by omega)
  · rw [extent_reverse, hs]
    have place : s + 8 + n = s + n + 8 := by omega
    refine ⟨?_, ?_, trivial⟩ <;>
      simp (disch := omega) only [next, prev, place, mark_setMark_same, mark_setMark_other]
  · intro t mem
    obtain rfl := List.mem_singleton.mp mem
    exact pos

/-- Two neighbouring free sub-blocks become one of `w` bytes. -/
theorem Laid.join {mem : ByteMemory} {block size k n w : Nat} {xs zs : List Mark}
    (laid : Laid mem block size (xs ++ ⟨k, false⟩ :: ⟨n, false⟩ :: zs)) (total : w = k + n + 8) :
    Laid (setMark (setMark mem (block + extent 8 xs + 4) ⟨w, false⟩)
      (block + extent 8 xs + w + 8) ⟨w, false⟩) block size (xs ++ ⟨w, false⟩ :: zs) := by
  have pos := laid.size_pos
  have whole := laid.whole
  have small := laid.small
  simp only [extent_append, extent_cons] at whole
  dsimp only at pos
  generalize hs : block + extent 8 xs = s
  refine Laid.rewrite [⟨k, false⟩, ⟨n, false⟩] [⟨w, false⟩] laid ?_ ?_ ?_ ?_
  · rw [hs]
    simp only [extent_cons, extent_nil]
    exact (changedIn_setMark (by omega) (by omega)).trans (changedIn_setMark (by omega) (by omega))
  · rw [hs]
    have place : s + 8 + w = s + w + 8 := by omega
    refine ⟨?_, ?_, trivial⟩ <;>
      simp (disch := omega) only [next, prev, place, mark_setMark_same, mark_setMark_other]
  · simp only [extent_cons, extent_nil]
    omega
  · intro t mem
    obtain rfl := List.mem_singleton.mp mem
    dsimp only
    omega

/-- The writes of a merge, once the two sizes are read. -/
theorem mergeWrites {mem : ByteMemory} {m n k w : Nat} (here : next mem m = ⟨k, false⟩)
    (unused : (prev mem n).fill = false) (small : k + w < 2 ^ 31) (apart : m + 8 ≤ n) :
    setPrevSize (setNextSize mem m ((next mem m).size + w)) n
        (next (setNextSize mem m ((next mem m).size + w)) m).size =
      setMark (setMark mem (m + 4) ⟨k + w, false⟩) n ⟨k + w, false⟩ := by
  simp only [next, prev] at here unused
  simp (disch := omega) only [setPrevSize, setNextSize, next, prev, here, unused, mark_setMark_same,
    mark_setMark_other]

theorem mergePrevious_spec {mem : ByteMemory} {block size n m : Nat} {left right : List Mark}
    (laid : Laid mem block size (left.reverse ++ ⟨n, false⟩ :: right))
    (before : ∀ l ls, left = l :: ls → m = block + extent 8 ls) :
    ∃ mem', mergePrevious mem m (block + extent 8 left) (block + extent 8 left + n + 8) =
        (mem', block + extent 8 (absorb 8 left n).1) ∧
      Laid mem' block size ((absorb 8 left n).1.reverse ++ ⟨(absorb 8 left n).2, false⟩ :: right) ∧
      ChangedIn (block + extent 8 (absorb 8 left n).1 + 4) (block + extent 8 left + n + 12) mem mem' := by
  have behind := laid.prev_at
  rcases absorb_cases (h := 8) left n with ⟨same, used⟩ | ⟨l, ls, rfl, free, taken⟩
  · refine ⟨mem, ?_, by rwa [same], ChangedIn.refl _ _ mem⟩
    rw [same, mergePrevious, if_neg]
    rw [behind]
    cases left with
    | nil => simp
    | cons l ls => simpa using fun _ => used l rfl
  · obtain ⟨k, fill⟩ := l
    obtain rfl : fill = false := free
    have whole := laid.whole
    have small := laid.small
    have now := laid.spells_at.1
    have after := laid.spells_at.2.1
    rw [extent_reverse] at now after
    rw [List.reverse_cons, List.append_assoc] at laid
    have here := laid.spells_at.1
    have pos := laid.size_pos
    have joined := laid.join (w := n + k + 8) (by omega)
    rw [extent_reverse] at here joined
    simp only [List.head?_cons, Option.getD_some] at behind
    simp only [extent_append, extent_reverse, extent_cons] at whole
    have place : block + extent 8 (⟨k, false⟩ :: ls) = block + extent 8 ls + k + 8 := by
      rw [extent_cons]
      dsimp only
      omega
    rw [place] at behind now after ⊢
    have start : m = block + extent 8 ls := before _ _ rfl
    have total : k + (n + 8) = n + k + 8 := by omega
    have far : block + extent 8 ls + k + 8 + n + 8 = block + extent 8 ls + (n + k + 8) + 8 := by omega
    rw [taken]
    refine ⟨_, ?_, joined, (changedIn_setMark (by dsimp only; omega) (by omega)).trans
      (changedIn_setMark (by dsimp only; omega) (by omega))⟩
    rw [mergePrevious, behind, if_pos ⟨mark_ne_zero pos, rfl⟩, now, start]
    dsimp only
    rw [mergeWrites here (by rw [Nat.add_right_comm, after]) (by omega) (by omega), total, far]

theorem mergeNext_spec {mem : ByteMemory} {block size k : Nat} {xs right : List Mark}
    (laid : Laid mem block size (xs ++ ⟨k, false⟩ :: right)) :
    Laid (mergeNext mem (block + extent 8 xs) (block + extent 8 xs + k + 8)) block size
        (xs ++ ⟨(absorb 8 right k).2, false⟩ :: (absorb 8 right k).1) ∧
      ChangedIn (block + extent 8 xs + 4) (block + extent 8 xs + (absorb 8 right k).2 + 12) mem
        (mergeNext mem (block + extent 8 xs) (block + extent 8 xs + k + 8)) := by
  have here := laid.spells_at.1
  have behind : next mem (block + extent 8 xs + k + 8) = right.head?.getD Mark.zero := by
    have split : xs ++ ⟨k, false⟩ :: right = xs ++ [⟨k, false⟩] ++ right := by simp
    rw [split] at laid
    rw [← laid.next_at, extent_append, extent_cons, extent_nil]
    congr 1
    dsimp only
    omega
  rcases absorb_cases (h := 8) right k with ⟨same, used⟩ | ⟨r, rs, rfl, free, taken⟩
  · rw [same, mergeNext, if_neg]
    · exact ⟨laid, ChangedIn.refl _ _ mem⟩
    · rw [behind]
      cases right with
      | nil => simp
      | cons r rs => simpa using fun _ => used r rfl
  · obtain ⟨n, fill⟩ := r
    obtain rfl : fill = false := free
    have whole := laid.whole
    have small := laid.small
    have joined := laid.join (w := k + (n + 8)) (by omega)
    have pos : 0 < n := laid.sized ⟨n, false⟩ (by simp)
    have after : prev mem (block + extent 8 xs + k + 8 + n + 8) = ⟨n, false⟩ := by
      have spells := laid.spells
      rw [spells_append] at spells
      have last := spells.2.2.2.2.1
      dsimp only at last
      rw [← last]
      congr 1
      omega
    simp only [List.head?_cons, Option.getD_some] at behind
    simp only [extent_append, extent_cons] at whole
    have far : block + extent 8 xs + k + 8 + n + 8 = block + extent 8 xs + (k + (n + 8)) + 8 := by omega
    rw [taken, mergeNext, behind, if_pos ⟨mark_ne_zero pos, rfl⟩, nextBlock, behind]
    dsimp only
    rw [mergeWrites here (by rw [after]) (by omega) (by omega), far]
    rw [Nat.add_assoc k n 8]
    exact ⟨joined, (changedIn_setMark (by omega) (by omega)).trans (changedIn_setMark (by omega) (by omega))⟩

/-- `freeBlock` on the marks is `release` on the sub-blocks. -/
theorem freeMarks_spec {mem : ByteMemory} {block size n : Nat} {left right : List Mark}
    (arena : Arena mem block size (left.reverse ++ ⟨n, true⟩ :: right)) :
    ∃ mem', freeMarks mem block (block + extent 8 left) = (mem', block + extent 8 (absorb 8 left n).1) ∧
      Arena mem' block size (release 8 left right n) ∧
      (next mem' (block + extent 8 (absorb 8 left n).1)).size = releasedSize 8 left right n ∧
      ChangedIn (block + extent 8 (absorb 8 left n).1 + 4)
        (block + extent 8 (absorb 8 left n).1 + releasedSize 8 left right n + 12) mem mem' := by
  have here := arena.spells_at.1
  have behind := arena.prev_at
  rw [extent_reverse] at here
  have after : nextBlock mem (block + extent 8 left) = block + extent 8 left + n + 8 := by
    rw [nextBlock, here]
  have before : ∀ l ls, left = l :: ls →
      (if block ≠ block + extent 8 left then prevBlock mem (block + extent 8 left) else block) =
        block + extent 8 ls := by
    rintro l ls rfl
    rw [if_pos (by rw [extent_cons]; omega), prevBlock, behind]
    simp only [extent_cons, List.head?_cons, Option.getD_some]
    omega
  obtain ⟨laid, same⟩ := arena.toLaid.unfill
  obtain ⟨mem', merged, laid', same'⟩ := mergePrevious_spec laid before
  obtain ⟨laid'', same''⟩ := mergeNext_spec laid'
  have total := extent_absorb (h := 8) left n
  have wider := le_absorb (h := 8) left n
  have grows := le_absorb (h := 8) right (absorb 8 left n).2
  have far : block + extent 8 (absorb 8 left n).1 + (absorb 8 left n).2 + 8 =
      block + extent 8 left + n + 8 := by omega
  rw [extent_reverse, far] at laid'' same''
  refine ⟨_, ?_, ⟨laid'', separated_release arena.separated⟩, ?_, ?_⟩
  · simp only [freeMarks, after, merged]
  · have released := laid''.spells_at.1
    rw [extent_reverse] at released
    rw [released]
    rfl
  · unfold releasedSize
    refine ChangedIn.trans ?_ same''
    exact (same.mono (by omega) (by omega)).trans (same'.mono (Nat.le_refl _) (by omega))

end Box64.Custommem
