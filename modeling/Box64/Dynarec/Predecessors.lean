import Box64.Dynarec.FlagNeed
import Box64.Lib.Rows

/-!
# Predecessor lists

`fillPredecessors` counts the control-flow edges of a block, lays out one array for the lists of all its instructions,
and fills them. An edge to the next instruction counts only if its origin has a predecessor itself, and the second pass
asks this of the lists it is filling.
-/

namespace Box64.Dynarec

open Rows

/-- An instruction array, each jump leading out of the block or to one of its instructions. -/
structure JumpBlock where
  size : Nat
  insts : Fin size → InstructionX64
  jmp_insts_inside : ∀ i, (insts i).jmp ≠ 0 → (insts i).jmp_insts ≠ -1 →
    0 ≤ (insts i).jmp_insts ∧ (insts i).jmp_insts < size

namespace JumpBlock

variable (dyn : JumpBlock)

def jump (i : Fin dyn.size) : Option (Fin dyn.size) :=
  if inside : (dyn.insts i).jmp ≠ 0 ∧ (dyn.insts i).jmp_insts ≠ -1 then
    have bounds := dyn.jmp_insts_inside i inside.1 inside.2
    some ⟨(dyn.insts i).jmp_insts.toNat, by omega⟩
  else none

def next (i : Fin dyn.size) : Option (Fin dyn.size) :=
  if more : i.val + 1 < dyn.size ∧ (dyn.insts i).has_next = true then some ⟨i.val + 1, more.1⟩ else none

/-! ### `fillPredecessors` -/

/-- What is counted: all the edges, and the edges into each instruction. -/
structure Counts (size : Nat) where
  total : Nat
  pred_sz : Fin size → Nat

def Counts.add {size : Nat} (c : Counts size) (k : Fin size) : Counts size where
  total := c.total + 1
  pred_sz := Function.update c.pred_sz k (c.pred_sz k + 1)

def countJump (c : Counts dyn.size) (i : Fin dyn.size) : Counts dyn.size := (dyn.jump i).elim c c.add

def countNext (c : Counts dyn.size) (i : Fin dyn.size) : Counts dyn.size :=
  if i.val = 0 ∨ c.pred_sz i ≠ 0 then (dyn.next i).elim c c.add else c

/-- First the jumps, then the "has_next". -/
def countEdges : Counts dyn.size :=
  (List.finRange dyn.size).foldl dyn.countNext ((List.finRange dyn.size).foldl dyn.countJump ⟨0, fun _ => 0⟩)

def fillNext (r : Rows dyn.size Nat) (i : Fin dyn.size) : Rows dyn.size Nat :=
  if i.val = 0 ∨ r.size i ≠ 0 then (dyn.next i).elim r (r.push · i.val) else r

def fillJump (r : Rows dyn.size Nat) (i : Fin dyn.size) : Rows dyn.size Nat :=
  (dyn.jump i).elim r (r.push · i.val)

/-- The pointers `pred`, each past the slice of the one before. -/
def place (pred_sz : Fin dyn.size → Nat) : Nat × (Fin dyn.size → Nat) :=
  (List.finRange dyn.size).foldl (fun p i => (p.1 + pred_sz i, Function.update p.2 i p.1)) (0, fun _ => 0)

/-- The lists: `pred` is where they start, `pred_sz` their size, in the array `predecessor`, whose content is not known
at first. -/
def fillPredecessors (malloced : Nat → Nat) : Rows dyn.size Nat :=
  (List.finRange dyn.size).foldl (fun r i => dyn.fillJump (dyn.fillNext r i) i)
    ⟨(dyn.place dyn.countEdges.pred_sz).2, fun _ => 0, malloced⟩

/-! ### What the lists are for -/

/-- Each list holds the jumps to its instruction, and the instruction before if control can get there; the lists share
out the array. -/
structure Exact (r : Rows dyn.size Nat) (total : Nat) : Prop where
  listed : ∀ k j, (r.row k).count j.val =
    (if (dyn.insts j).jmp ≠ 0 ∧ (dyn.insts j).jmp_insts = k.val then 1 else 0) +
      (if k.val = j.val + 1 ∧ (dyn.insts j).has_next = true ∧ (j.val = 0 ∨ r.size j > 0) then 1 else 0)
  disjoint : ∀ k k', k < k' → r.start k + r.size k ≤ r.start k'
  allocated : ∀ k, r.start k + r.size k ≤ total
  whole : ∑ k, r.size k = total

/-- Reached from the first instruction or from a jump, going on to the next; `via` tells which jumps are followed. -/
inductive Reached (via : Fin dyn.size → Fin dyn.size → Prop) : Fin dyn.size → Prop
  | first {i} (zero : i.val = 0) : Reached via i
  | jump {i k} (jump : dyn.jump i = some k) (followed : via i k) : Reached via k
  | next {i k} (reached : Reached via i) (next : dyn.next i = some k) : Reached via k

/-- Reached by forward jumps alone. -/
abbrev Forward : Fin dyn.size → Prop := dyn.Reached fun i k => i < k

/-- No instruction with a next one is reached by jumps from behind it only. -/
def BackwardSafe : Prop :=
  ∀ i k, dyn.jump i = some k → k ≤ i → (dyn.next k).isSome → dyn.Forward k

/-! ### Edges -/

variable {dyn}

theorem Reached.mono {via via' : Fin dyn.size → Fin dyn.size → Prop} (more : ∀ i k, via i k → via' i k)
    {k : Fin dyn.size} (reached : dyn.Reached via k) : dyn.Reached via' k := by
  induction reached with
  | first zero => exact .first zero
  | jump jumps followed => exact .jump jumps (more _ _ followed)
  | next _ follows ih => exact .next ih follows

theorem jump_eq_some {i k : Fin dyn.size} :
    dyn.jump i = some k ↔ (dyn.insts i).jmp ≠ 0 ∧ (dyn.insts i).jmp_insts = k.val := by
  unfold jump
  constructor
  · intro found
    split at found
    case isTrue inside =>
      have bounds := dyn.jmp_insts_inside i inside.1 inside.2
      obtain rfl := Option.some.inj found
      exact ⟨inside.1, (Int.toNat_of_nonneg bounds.1).symm⟩
    case isFalse => nomatch found
  · rintro ⟨jumps, target⟩
    rw [dif_pos ⟨jumps, by omega⟩]
    refine congrArg some (Fin.ext ?_)
    exact (congrArg Int.toNat target).trans (Int.toNat_natCast _)

theorem next_eq_some {i k : Fin dyn.size} :
    dyn.next i = some k ↔ k.val = i.val + 1 ∧ (dyn.insts i).has_next = true := by
  unfold next
  constructor
  · intro found
    split at found
    case isTrue more =>
      obtain rfl := Option.some.inj found
      exact ⟨rfl, more.2⟩
    case isFalse => nomatch found
  · rintro ⟨target, more⟩
    have inside := k.isLt
    rw [dif_pos ⟨by omega, more⟩]
    congr 1
    exact Fin.ext target.symm

/-- An edge is an entry of its target's list. -/
def jumpEdge (i : Fin dyn.size) : List (Fin dyn.size × Nat) := (dyn.jump i).toList.map (·, i.val)

open Classical in
noncomputable def nextEdge (live : Fin dyn.size → Prop) (i : Fin dyn.size) : List (Fin dyn.size × Nat) :=
  if live i then (dyn.next i).toList.map (·, i.val) else []

theorem mem_jumpEdge {i k : Fin dyn.size} {v : Nat} : (k, v) ∈ jumpEdge i ↔ dyn.jump i = some k ∧ v = i.val := by
  unfold jumpEdge
  rw [List.mem_map]
  constructor
  · rintro ⟨target, member, same⟩
    obtain ⟨rfl, rfl⟩ := Prod.mk.inj same
    exact ⟨Option.mem_toList.mp member, rfl⟩
  · rintro ⟨jumps, rfl⟩
    exact ⟨k, Option.mem_toList.mpr jumps, rfl⟩

theorem mem_nextEdge {live : Fin dyn.size → Prop} {i k : Fin dyn.size} {v : Nat} :
    (k, v) ∈ nextEdge live i ↔ live i ∧ dyn.next i = some k ∧ v = i.val := by
  unfold nextEdge
  by_cases alive : live i
  · rw [if_pos alive, List.mem_map]
    constructor
    · rintro ⟨target, member, same⟩
      obtain ⟨rfl, rfl⟩ := Prod.mk.inj same
      exact ⟨alive, Option.mem_toList.mp member, rfl⟩
    · rintro ⟨-, follows, rfl⟩
      exact ⟨k, Option.mem_toList.mpr follows, rfl⟩
  · rw [if_neg alive]
    exact iff_of_false List.not_mem_nil fun found => alive found.1

/-! ### The passes follow the edges -/

variable (dyn) in
/-- All the edges of `live` instructions, those of one instruction together. -/
noncomputable def edges (live : Fin dyn.size → Prop) : List (Fin dyn.size × Nat) :=
  (List.finRange dyn.size).flatMap fun i => nextEdge live i ++ jumpEdge i

theorem mem_take_finRange {n m : Nat} {i : Fin n} : i ∈ (List.finRange n).take m ↔ i.val < m := by
  rw [List.mem_take_iff_getElem]
  constructor
  · rintro ⟨p, lt, found⟩
    rw [List.getElem_finRange] at found
    obtain rfl := found
    exact lt_of_lt_of_le lt (Nat.min_le_left _ _)
  · intro lt
    refine ⟨i.val, ?_, ?_⟩
    · rw [List.length_finRange]
      exact lt_min lt i.isLt
    · rw [List.getElem_finRange]
      rfl

theorem mem_edges_prefix {live : Fin dyn.size → Prop} {m : Nat} {k : Fin dyn.size} :
    (∃ v, (k, v) ∈ ((List.finRange dyn.size).take m).flatMap fun i => nextEdge live i ++ jumpEdge i) ↔
      ∃ i : Fin dyn.size, i.val < m ∧ (live i ∧ dyn.next i = some k ∨ dyn.jump i = some k) := by
  simp only [List.mem_flatMap, List.mem_append, mem_nextEdge, mem_jumpEdge, mem_take_finRange]
  constructor
  · rintro ⟨v, i, lt, ⟨alive, follows, -⟩ | ⟨jumps, -⟩⟩
    · exact ⟨i, lt, .inl ⟨alive, follows⟩⟩
    · exact ⟨i, lt, .inr jumps⟩
  · rintro ⟨i, lt, ⟨alive, follows⟩ | jumps⟩
    · exact ⟨i.val, i, lt, .inl ⟨alive, follows, rfl⟩⟩
    · exact ⟨i.val, i, lt, .inr ⟨jumps, rfl⟩⟩

/-- What the lists of an instruction tell when the fill pass comes to it. -/
theorem forward_iff {k : Fin dyn.size} : dyn.Forward k ↔ k.val = 0 ∨
    ∃ i : Fin dyn.size, i.val < k.val ∧ (dyn.Forward i ∧ dyn.next i = some k ∨ dyn.jump i = some k) := by
  constructor
  · intro reached
    cases reached with
    | first zero => exact .inl zero
    | jump jumps before => exact .inr ⟨_, before, .inr jumps⟩
    | next reached follows =>
      have target := (next_eq_some.mp follows).1
      exact .inr ⟨_, by omega, .inl ⟨reached, follows⟩⟩
  · rintro (zero | ⟨i, before, ⟨reached, follows⟩ | jumps⟩)
    · exact .first zero
    · exact .next reached follows
    · exact .jump jumps before

theorem fillNext_eq {r : Rows dyn.size Nat} {i : Fin dyn.size} {live : Fin dyn.size → Prop}
    (test : i.val = 0 ∨ r.size i ≠ 0 ↔ live i) : dyn.fillNext r i = r.pushAll (nextEdge live i) := by
  unfold fillNext nextEdge
  by_cases alive : live i
  · rw [if_pos (test.mpr alive), if_pos alive]
    cases dyn.next i <;> rfl
  · rw [if_neg (fun counted => alive (test.mp counted)), if_neg alive]
    rfl

theorem fillJump_eq (r : Rows dyn.size Nat) (i : Fin dyn.size) : dyn.fillJump r i = r.pushAll (jumpEdge i) := by
  unfold fillJump jumpEdge
  cases dyn.jump i <;> rfl

theorem take_succ_finRange {n m : Nat} (lt : m < n) :
    (List.finRange n).take (m + 1) = (List.finRange n).take m ++ [⟨m, lt⟩] := by
  rw [List.take_succ_eq_append_getElem (by rw [List.length_finRange]; exact lt), List.getElem_finRange]
  rfl

theorem take_all (n : Nat) : (List.finRange n).take n = List.finRange n :=
  List.take_of_length_le (by rw [List.length_finRange])

/-- After `m` instructions the edges that go forward from them are in their lists, and the backward jumps. -/
theorem fill_prefix {r : Rows dyn.size Nat} (fresh : r.size = fun _ => 0) {m : Nat} (le : m ≤ dyn.size) :
    ((List.finRange dyn.size).take m).foldl (fun r i => dyn.fillJump (dyn.fillNext r i) i) r =
      r.pushAll (((List.finRange dyn.size).take m).flatMap fun i => nextEdge dyn.Forward i ++ jumpEdge i) := by
  induction m with
  | zero => rfl
  | succ m ih =>
    have test : ∀ es : List (Fin dyn.size × Nat), (r.pushAll es).size ⟨m, le⟩ ≠ 0 ↔ ∃ v, (⟨m, le⟩, v) ∈ es := by
      intro es
      rw [pushAll_size, fresh, Nat.zero_add, load_pos]
    rw [take_succ_finRange le, List.foldl_append, ih (Nat.le_of_succ_le le), List.flatMap_append, pushAll_append,
      List.foldl_cons, List.foldl_nil, List.flatMap_singleton, pushAll_append, fillJump_eq]
    congr 1
    apply fillNext_eq
    rw [test, mem_edges_prefix]
    exact forward_iff.symm

/-! ### Counting -/

def Counts.addAll {size : Nat} (c : Counts size) (es : List (Fin size × Nat)) : Counts size :=
  es.foldl (fun c e => c.add e.1) c

theorem Counts.addAll_append {size : Nat} (c : Counts size) (es fs : List (Fin size × Nat)) :
    c.addAll (es ++ fs) = (c.addAll es).addAll fs := List.foldl_append

theorem Counts.addAll_total {size : Nat} (c : Counts size) (es : List (Fin size × Nat)) :
    (c.addAll es).total = c.total + es.length := by
  induction es generalizing c with
  | nil => rfl
  | cons e es ih =>
    have step : (c.addAll (e :: es)).total = (c.add e.1).total + es.length := ih (c.add e.1)
    rw [step, List.length_cons]
    change c.total + 1 + es.length = _
    omega

theorem Counts.addAll_pred_sz {size : Nat} (c : Counts size) (es : List (Fin size × Nat)) (k : Fin size) :
    (c.addAll es).pred_sz k = c.pred_sz k + load es k := by
  induction es generalizing c with
  | nil => rfl
  | cons e es ih =>
    have step : (c.addAll (e :: es)).pred_sz k = (c.add e.1).pred_sz k + load es k := ih (c.add e.1)
    have one : (c.add e.1).pred_sz = Function.update c.pred_sz e.1 (c.pred_sz e.1 + 1) := rfl
    rw [step, one, load, load, List.countP_cons]
    by_cases same : e.1 = k
    · subst same
      rw [Function.update_self, if_pos (decide_eq_true rfl)]
      omega
    · rw [Function.update_of_ne (Ne.symm same), if_neg (fun eq => same (of_decide_eq_true eq))]
      omega

/-- Reached at all. -/
abbrev Live : Fin dyn.size → Prop := dyn.Reached fun _ _ => True

theorem live_iff {k : Fin dyn.size} : Live k ↔ k.val = 0 ∨ (∃ i, dyn.jump i = some k) ∨
    ∃ i : Fin dyn.size, i.val < k.val ∧ Live i ∧ dyn.next i = some k := by
  constructor
  · intro reached
    cases reached with
    | first zero => exact .inl zero
    | jump jumps => exact .inr (.inl ⟨_, jumps⟩)
    | next reached follows =>
      have target := (next_eq_some.mp follows).1
      exact .inr (.inr ⟨_, by omega, reached, follows⟩)
  · rintro (zero | ⟨i, jumps⟩ | ⟨i, -, reached, follows⟩)
    · exact .first zero
    · exact .jump jumps trivial
    · exact .next reached follows

theorem countNext_eq {c : Counts dyn.size} {i : Fin dyn.size} {live : Fin dyn.size → Prop}
    (test : i.val = 0 ∨ c.pred_sz i ≠ 0 ↔ live i) : dyn.countNext c i = c.addAll (nextEdge live i) := by
  unfold countNext nextEdge
  by_cases alive : live i
  · rw [if_pos (test.mpr alive), if_pos alive]
    cases dyn.next i <;> rfl
  · rw [if_neg (fun counted => alive (test.mp counted)), if_neg alive]
    rfl

theorem countJump_eq (c : Counts dyn.size) (is : List (Fin dyn.size)) :
    is.foldl dyn.countJump c = c.addAll (is.flatMap jumpEdge) := by
  induction is generalizing c with
  | nil => rfl
  | cons i is ih =>
    rw [List.foldl_cons, ih, List.flatMap_cons, Counts.addAll_append]
    congr 1
    unfold countJump jumpEdge
    cases dyn.jump i <;> rfl

/-- The edges in the order they are counted in. -/
noncomputable def counted (m : Nat) : List (Fin dyn.size × Nat) :=
  (List.finRange dyn.size).flatMap jumpEdge ++ ((List.finRange dyn.size).take m).flatMap (nextEdge Live)

theorem mem_counted {m : Nat} {k : Fin dyn.size} : (∃ v, (k, v) ∈ counted m) ↔
    (∃ i, dyn.jump i = some k) ∨ ∃ i : Fin dyn.size, i.val < m ∧ Live i ∧ dyn.next i = some k := by
  simp only [counted, List.mem_append, List.mem_flatMap, mem_nextEdge, mem_jumpEdge, mem_take_finRange]
  constructor
  · rintro ⟨v, ⟨i, -, jumps, -⟩ | ⟨i, lt, alive, follows, -⟩⟩
    · exact .inl ⟨i, jumps⟩
    · exact .inr ⟨i, lt, alive, follows⟩
  · rintro (⟨i, jumps⟩ | ⟨i, lt, alive, follows⟩)
    · exact ⟨i.val, .inl ⟨i, List.mem_finRange i, jumps, rfl⟩⟩
    · exact ⟨i.val, .inr ⟨i, lt, alive, follows, rfl⟩⟩

theorem count_prefix {m : Nat} (le : m ≤ dyn.size) :
    ((List.finRange dyn.size).take m).foldl dyn.countNext
        ((List.finRange dyn.size).foldl dyn.countJump ⟨0, fun _ => 0⟩) =
      Counts.addAll ⟨0, fun _ => 0⟩ (counted m) := by
  induction m with
  | zero => rw [countJump_eq, counted, List.take_zero, List.flatMap_nil, List.append_nil, List.foldl_nil]
  | succ m ih =>
    rw [take_succ_finRange le, List.foldl_append, ih (Nat.le_of_succ_le le)]
    have more : counted (m + 1) = counted m ++ nextEdge Live (⟨m, le⟩ : Fin dyn.size) := by
      rw [counted, take_succ_finRange le, List.flatMap_append, List.flatMap_singleton, ← List.append_assoc, counted]
    rw [more, Counts.addAll_append, List.foldl_cons, List.foldl_nil]
    apply countNext_eq
    rw [Counts.addAll_pred_sz, Nat.zero_add, load_pos, mem_counted]
    exact live_iff.symm

theorem countEdges_eq : dyn.countEdges = Counts.addAll ⟨0, fun _ => 0⟩ (counted dyn.size) := by
  have run := count_prefix (Nat.le_refl dyn.size)
  rw [take_all] at run
  exact run

/-- Counted together or apart, the edges are the same. -/
theorem edges_perm : (dyn.edges Live).Perm (counted dyn.size) := by
  unfold edges counted
  rw [take_all]
  exact (List.flatMap_append_perm _ _ _).symm.trans List.perm_append_comm

theorem pred_sz_eq (k : Fin dyn.size) : dyn.countEdges.pred_sz k = load (dyn.edges Live) k := by
  rw [countEdges_eq, Counts.addAll_pred_sz, Nat.zero_add]
  exact (edges_perm.countP_eq _).symm

theorem total_eq : dyn.countEdges.total = (dyn.edges Live).length := by
  rw [countEdges_eq, Counts.addAll_total, Nat.zero_add]
  exact edges_perm.length_eq.symm

/-! ### The result -/

theorem place_prefix (pred_sz : Fin dyn.size → Nat) {m : Nat} (le : m ≤ dyn.size) :
    ((List.finRange dyn.size).take m).foldl (fun p i => (p.1 + pred_sz i, Function.update p.2 i p.1)) (0, fun _ => 0) =
      (offset pred_sz m, fun k : Fin dyn.size => if k.val < m then offset pred_sz k.val else 0) := by
  induction m with
  | zero => rfl
  | succ m ih =>
    rw [take_succ_finRange le, List.foldl_append, ih (Nat.le_of_succ_le le), List.foldl_cons, List.foldl_nil]
    refine Prod.ext (offset_succ pred_sz ⟨m, le⟩).symm (funext fun k => ?_)
    by_cases here : k = ⟨m, le⟩
    · subst here
      exact (Function.update_self _ _ _).trans (if_pos (Nat.lt_succ_self m)).symm
    · have apart : k.val ≠ m := fun same => here (Fin.ext same)
      refine (Function.update_of_ne here _ _).trans ?_
      change (if k.val < m then _ else _) = if k.val < m + 1 then _ else _
      split <;> split <;> first | rfl | omega

/-- The pointers add up to the array: `p==dyn->predecessor+pred_sz`. -/
theorem place_eq (pred_sz : Fin dyn.size → Nat) :
    dyn.place pred_sz = (∑ k, pred_sz k, fun k => offset pred_sz k.val) := by
  have run := place_prefix pred_sz (Nat.le_refl dyn.size)
  rw [take_all] at run
  refine run.trans (Prod.ext (offset_full pred_sz) (funext fun k => ?_))
  exact if_pos k.isLt

/-- What is filled in is part of what was counted. -/
theorem edges_sublist : (dyn.edges dyn.Forward).Sublist (dyn.edges Live) := by
  have live : ∀ i, dyn.Forward i → Live i := fun _ => Reached.mono fun _ _ _ => trivial
  refine List.Sublist.flatMap_right _ fun i _ => List.Sublist.append ?_ (List.Sublist.refl _)
  unfold nextEdge
  by_cases reached : dyn.Forward i
  · rw [if_pos reached, if_pos (live i reached)]
  · rw [if_neg reached]
    exact List.nil_sublist _

section Result

variable (dyn) (malloced : Nat → Nat)

theorem fillPredecessors_eq : dyn.fillPredecessors malloced =
    Rows.pushAll ⟨fun k => offset dyn.countEdges.pred_sz k.val, fun _ => 0, malloced⟩ (dyn.edges dyn.Forward) := by
  unfold fillPredecessors
  rw [place_eq]
  have run := fill_prefix (r := ⟨fun k => offset dyn.countEdges.pred_sz k.val, fun _ => 0, malloced⟩) rfl
    (Nat.le_refl dyn.size)
  rw [take_all] at run
  exact run

theorem fillPredecessors_size (k : Fin dyn.size) :
    (dyn.fillPredecessors malloced).size k = load (dyn.edges dyn.Forward) k := by
  rw [fillPredecessors_eq, pushAll_size, Nat.zero_add]

theorem fillPredecessors_start (k : Fin dyn.size) :
    (dyn.fillPredecessors malloced).start k = offset dyn.countEdges.pred_sz k.val := by
  rw [fillPredecessors_eq, pushAll_start]

/-- Each list has the room that was counted for it. -/
theorem size_le_pred_sz (k : Fin dyn.size) : (dyn.fillPredecessors malloced).size k ≤ dyn.countEdges.pred_sz k := by
  rw [fillPredecessors_size, pred_sz_eq]
  exact edges_sublist.countP_le

theorem fillPredecessors_row (k : Fin dyn.size) :
    (dyn.fillPredecessors malloced).row k = share (dyn.edges dyn.Forward) k := by
  have fits : ∀ k, 0 + load (dyn.edges dyn.Forward) k ≤ dyn.countEdges.pred_sz k := by
    intro k
    rw [Nat.zero_add, pred_sz_eq]
    exact edges_sublist.countP_le
  rw [fillPredecessors_eq, pushAll_row (offset_apart dyn.countEdges.pred_sz) fits]
  rfl

end Result

/-! ### The lists -/

open Classical in
theorem count_entry {n : Nat} (target : Option (Fin n)) (i j k : Fin n) :
    (target.toList.map (·, i.val)).count (k, j.val) = if i = j ∧ target = some k then 1 else 0 := by
  cases target with
  | none => exact (if_neg fun found => nomatch found.2).symm
  | some t =>
    rw [Option.toList_some, List.map_singleton, List.count_singleton]
    by_cases same : i = j ∧ some t = some k
    · obtain ⟨rfl, found⟩ := same
      obtain rfl := Option.some.inj found
      rw [if_pos (beq_self_eq_true _), if_pos ⟨rfl, rfl⟩]
    · rw [if_neg same, if_neg]
      intro equal
      obtain ⟨rfl, value⟩ := Prod.mk.inj (beq_iff_eq.mp equal)
      exact same ⟨Fin.ext value, rfl⟩

open Classical in
/-- How often an instruction is in a list. -/
theorem count_edges (live : Fin dyn.size → Prop) (j k : Fin dyn.size) :
    (dyn.edges live).count (k, j.val) =
      (if dyn.jump j = some k then 1 else 0) + (if live j ∧ dyn.next j = some k then 1 else 0) := by
  have one : ∀ i, (nextEdge live i ++ jumpEdge i).count (k, j.val) =
      if i = j then (if dyn.jump j = some k then 1 else 0) + (if live j ∧ dyn.next j = some k then 1 else 0) else 0 := by
    intro i
    rw [List.count_append, jumpEdge, count_entry, nextEdge]
    by_cases same : i = j
    · subst same
      by_cases alive : live i
      · rw [if_pos alive, count_entry, if_pos rfl, Nat.add_comm]
        simp only [true_and, alive]
      · simp [alive]
    · have apart : ∀ target : Option (Fin dyn.size), ¬ (i = j ∧ target = some k) := fun _ both => same both.1
      rw [if_neg same]
      by_cases alive : live i
      · rw [if_pos alive, count_entry, if_neg (apart _), if_neg (apart _)]
      · rw [if_neg alive, List.count_nil, if_neg (apart _)]
  unfold edges
  rw [List.count_flatMap, ← Fin.sum_univ_def]
  simp only [Function.comp_def, one]
  rw [Finset.sum_ite_eq' Finset.univ j, if_pos (Finset.mem_univ j)]

/-- A list is not empty if its instruction is reached, the first apart. -/
theorem size_pos_iff (malloced : Nat → Nat) (k : Fin dyn.size) : (dyn.fillPredecessors malloced).size k > 0 ↔
    (∃ i, dyn.jump i = some k) ∨ ∃ i, dyn.Forward i ∧ dyn.next i = some k := by
  rw [fillPredecessors_size, gt_iff_lt, Nat.pos_iff_ne_zero, load_pos]
  unfold edges
  simp only [List.mem_flatMap, List.mem_append, mem_nextEdge, mem_jumpEdge]
  constructor
  · rintro ⟨v, i, -, ⟨reached, follows, -⟩ | ⟨jumps, -⟩⟩
    · exact .inr ⟨i, reached, follows⟩
    · exact .inl ⟨i, jumps⟩
  · rintro (⟨i, jumps⟩ | ⟨i, reached, follows⟩)
    · exact ⟨i.val, i, List.mem_finRange i, .inr ⟨jumps, rfl⟩⟩
    · exact ⟨i.val, i, List.mem_finRange i, .inl ⟨reached, follows, rfl⟩⟩

/-- Where no jump from behind is the only way, the instructions with a list are those reached going forward. -/
theorem forward_of_size (safe : dyn.BackwardSafe) (malloced : Nat → Nat) {j : Fin dyn.size} (more : (dyn.next j).isSome) :
    dyn.Forward j ↔ j.val = 0 ∨ (dyn.fillPredecessors malloced).size j > 0 := by
  rw [size_pos_iff]
  constructor
  · intro reached
    obtain zero | ⟨i, -, live | jumps⟩ := forward_iff.mp reached
    · exact .inl zero
    · exact .inr (.inr ⟨i, live⟩)
    · exact .inr (.inl ⟨i, jumps⟩)
  · rintro (zero | ⟨i, jumps⟩ | ⟨i, reached, follows⟩)
    · exact .first zero
    · obtain before | behind := Nat.lt_or_ge i.val j.val
      · exact .jump jumps before
      · exact safe i j jumps behind more
    · exact .next reached follows

theorem forward_of_live (safe : dyn.BackwardSafe) {k : Fin dyn.size} (live : Live k) (more : (dyn.next k).isSome) :
    dyn.Forward k := by
  induction live with
  | first zero => exact .first zero
  | @jump i k jumps =>
    obtain before | behind := Nat.lt_or_ge i.val k.val
    · exact .jump jumps before
    · exact safe i k jumps behind more
  | @next i k _ follows ih => exact .next (ih (by rw [follows]; rfl)) follows

theorem edges_eq (safe : dyn.BackwardSafe) : dyn.edges dyn.Forward = dyn.edges Live := by
  have live : ∀ i, nextEdge dyn.Forward i = nextEdge Live i := by
    intro i
    unfold nextEdge
    cases follows : dyn.next i with
    | none => rw [Option.toList_none, List.map_nil, ite_self, ite_self]
    | some k =>
      have same : dyn.Forward i ↔ Live i :=
        ⟨Reached.mono fun _ _ _ => trivial, fun live => forward_of_live safe live (by rw [follows]; rfl)⟩
      by_cases reached : dyn.Forward i
      · rw [if_pos reached, if_pos (same.mp reached)]
      · rw [if_neg reached, if_neg (fun live => reached (same.mpr live))]
  unfold edges
  simp only [live]

open Classical in
theorem listed_iff (malloced : Nat → Nat) (j k : Fin dyn.size) :
    ((dyn.fillPredecessors malloced).row k).count j.val =
      (if dyn.jump j = some k then 1 else 0) + (if dyn.Forward j ∧ dyn.next j = some k then 1 else 0) := by
  rw [fillPredecessors_row, count_share, count_edges]

/-- The lists are exact if and only if no instruction with a next one is reached by jumps from behind it only. -/
theorem fillPredecessors_exact_iff (dyn : JumpBlock) (malloced : Nat → Nat) :
    dyn.Exact (dyn.fillPredecessors malloced) dyn.countEdges.total ↔ dyn.BackwardSafe := by
  classical
  constructor
  · intro exact i k jumps behind more
    obtain ⟨n, follows⟩ := Option.isSome_iff_exists.mp more
    obtain ⟨target, has⟩ := next_eq_some.mp follows
    have nonempty := (size_pos_iff malloced k).mpr (.inl ⟨i, jumps⟩)
    have listed := exact.listed n k
    rw [listed_iff, if_pos (c := n.val = k.val + 1 ∧ _) ⟨target, has, .inr nonempty⟩] at listed
    simp only [jump_eq_some] at listed
    by_contra unreached
    rw [if_neg (c := dyn.Forward k ∧ _) (fun both => unreached both.1)] at listed
    omega
  · intro safe
    have room : ∀ k, (dyn.fillPredecessors malloced).start k + (dyn.fillPredecessors malloced).size k ≤
        offset dyn.countEdges.pred_sz (k.val + 1) := by
      intro k
      have bound := size_le_pred_sz dyn malloced k
      rw [fillPredecessors_start, offset_succ]
      omega
    refine ⟨fun k j => ?_, fun k k' before => ?_, fun k => ?_, ?_⟩
    · rw [listed_iff]
      congr 1
      · simp only [jump_eq_some]
      · refine if_congr ?_ rfl rfl
        rw [and_comm, next_eq_some, and_assoc]
        refine and_congr_right fun target => and_congr_right fun has => forward_of_size safe malloced ?_
        rw [next_eq_some.mpr ⟨target, has⟩]
        rfl
    · rw [fillPredecessors_start dyn malloced k']
      exact (room k).trans (offset_mono _ before)
    · have all : offset dyn.countEdges.pred_sz dyn.size = dyn.countEdges.total := by
        rw [offset_full, total_eq, ← sum_load]
        exact Finset.sum_congr rfl fun k _ => pred_sz_eq k
      exact (room k).trans ((offset_mono _ k.isLt).trans all.le)
    · rw [total_eq, ← edges_eq safe, ← sum_load]
      exact Finset.sum_congr rfl fun k _ => fillPredecessors_size dyn malloced k

/-! ### A loop entered at its end -/

/-- `jmp` over a `nop` that the last instruction jumps back to. -/
def nopLoop : JumpBlock where
  size := 3
  insts := fun i => match i with
    | 0 => ⟨0x1003, 2, false, 0, .unknown, 0, 0, 0, no_default_need⟩
    | 1 => ⟨0, 0, true, 0, .unknown, 0, 0, 0, no_default_need⟩
    | 2 => ⟨0x1002, 1, false, 0, .unknown, 0, 0, 0, no_default_need⟩
  jmp_insts_inside := by decide

/-- The `nop` has a predecessor and goes on to the last instruction, whose list lacks it; one of the three cells that
were counted stays empty. -/
theorem nopLoop_not_exact : ¬ nopLoop.Exact (nopLoop.fillPredecessors fun _ => 0) nopLoop.countEdges.total := by
  intro exact
  have listed := exact.listed (2 : Fin 3) (1 : Fin 3)
  revert listed
  decide

end JumpBlock

end Box64.Dynarec
