import Box64.Lib.DoublyLinked
import Box64.Lib.Runs

/-!
# The link map

The list of libraries that debuggers and `dl_iterate_phdr` walk.
-/

namespace Box64.Librarian.LinkMap

open Function (update)
open DoublyLinked

/-- `my_context->linkmap` and the nodes in memory, with their `l_lib`, and how many were ever allocated, which bounds the walks. -/
structure Context (Addr Lib : Type*) where
  linkmap : Option Addr
  node : Addr → Option (Node Addr Lib)
  allocated : Nat

variable {Addr Lib : Type*}

namespace Context

/-- The loop of `addLinkMapLib`, to the last node; `none` where the walk meets a node that is not in memory, or does not end. -/
def lastFrom (node : Addr → Option (Node Addr Lib)) : Nat → Addr → Option Addr
  | 0, _ => none
  | fuel + 1, lm =>
    (node lm).bind fun n =>
      match n.next with
      | none => some lm
      | some next => lastFrom node fuel next

variable [DecidableEq Lib]

/-- The loop of `getLinkMapLib`. -/
def findFrom (node : Addr → Option (Node Addr Lib)) (lib : Lib) : Nat → Option Addr → Option (Option Addr)
  | 0, _ => none
  | _ + 1, none => some none
  | fuel + 1, some lm => (node lm).bind fun n => if n.value = lib then some (some lm) else findFrom node lib fuel n.next

def getLinkMapLib (c : Context Addr Lib) (lib : Lib) : Option (Option Addr) :=
  findFrom c.node lib (c.allocated + 1) c.linkmap

variable [DecidableEq Addr]

/-- `addLinkMapLib`, with the node that `calloc` returns. -/
def addLinkMapLib (c : Context Addr Lib) (lib : Lib) (calloc : Addr) : Option (Context Addr Lib) :=
  match c.linkmap with
  | none => some ⟨some calloc, update c.node calloc (some ⟨lib, none, none⟩), c.allocated + 1⟩
  | some linkmap =>
    (lastFrom c.node (c.allocated + 1) linkmap).bind fun lm =>
      (setNext c.node lm (some calloc)).bind fun node =>
        some ⟨some linkmap, update node calloc (some ⟨lib, none, some lm⟩), c.allocated + 1⟩

def removeLinkMapLib (c : Context Addr Lib) (lib : Lib) : Option (Context Addr Lib) :=
  (c.getLinkMapLib lib).bind fun
    | none => some c
    | some lm =>
      (c.node lm).bind fun n =>
        (match n.next with
          | none => some c.node
          | some next => setPrev c.node next n.prev).bind fun node =>
            (node lm).bind fun n =>
              (match n.prev with
                | none => some node
                | some prev => setNext node prev n.next).bind fun node =>
                  some { c with node := update node lm none }

end Context

/-! ### The walks -/

section Walks

variable {node : Addr → Option (Node Addr Lib)} {front head last : Option Addr} {cells : List (Addr × Lib)}

/-- The walk finds the first node of a library. -/
theorem findFrom_segment [DecidableEq Lib] (seg : Segment node front head cells last none) (lib : Lib) {fuel : Nat} (enough : cells.length < fuel) :
    Context.findFrom node lib fuel head = some ((cells.find? fun cell => cell.2 = lib).map Prod.fst) := by
  induction cells generalizing front head fuel with
  | nil =>
    obtain ⟨rfl, rfl⟩ := seg.nil_inv
    obtain ⟨fuel, rfl⟩ := Nat.exists_eq_add_one.mpr (Nat.zero_lt_of_lt enough)
    rfl
  | cons cell cells ih =>
    obtain ⟨p, a⟩ := cell
    obtain ⟨n, rfl, found, rfl, rfl, tail⟩ := seg.cons_inv
    obtain ⟨fuel, rfl⟩ := Nat.exists_eq_add_one.mpr (Nat.zero_lt_of_lt enough)
    rw [Context.findFrom, found, Option.bind_some]
    by_cases this : n.value = lib
    · rw [if_pos this, List.find?_cons_of_pos (by simpa using this)]
      rfl
    · rw [if_neg this, List.find?_cons_of_neg (by simpa using this)]
      exact ih tail (Nat.lt_of_succ_lt_succ enough)

theorem lastFrom_segment {p : Addr} (seg : Segment node front (some p) cells last none) {fuel : Nat}
    (enough : cells.length ≤ fuel) : ∃ before a lm, cells = before ++ [(lm, a)] ∧ Context.lastFrom node fuel p = some lm := by
  induction cells generalizing front p fuel with
  | nil => cases seg.nil_inv.2
  | cons cell cells ih =>
    obtain ⟨q, a⟩ := cell
    obtain ⟨n, same, found, rfl, rfl, tail⟩ := seg.cons_inv
    cases same
    obtain ⟨fuel, rfl⟩ := Nat.exists_eq_add_one.mpr (Nat.lt_of_lt_of_le (Nat.succ_pos _) enough)
    rw [Context.lastFrom, found, Option.bind_some]
    rcases next : n.next with _ | r
    · rw [next] at tail
      have ends : cells = [] := tail.eq_nil
      subst ends
      exact ⟨[], n.value, p, rfl, rfl⟩
    · rw [next] at tail
      obtain ⟨before, b, lm, rfl, walk⟩ := ih tail (Nat.le_of_succ_le_succ enough)
      exact ⟨(p, n.value) :: before, b, lm, rfl, walk⟩

/-- The search finds the first node of the library. -/
theorem getLinkMapLib_segment [DecidableEq Lib] {c : Context Addr Lib} {before after : List (Addr × Lib)} {p : Addr} {lib : Lib}
    (seg : Segment c.node none c.linkmap (before ++ (p, lib) :: after) last none)
    (few : (before ++ (p, lib) :: after).length ≤ c.allocated) (earlier : ∀ cell ∈ before, cell.2 ≠ lib) :
    c.getLinkMapLib lib = some (some p) := by
  have first : (before ++ (p, lib) :: after).find? (fun cell => cell.2 = lib) = some (p, lib) := by
    rw [List.find?_append, List.find?_eq_none.mpr (by simpa using earlier)]
    simp
  rw [Context.getLinkMapLib, findFrom_segment seg lib (Nat.lt_succ_of_le few), first]
  rfl

end Walks

/-! ### Runs -/

/-- A library added in the node that `calloc` returns, or removed. -/
inductive Op (Addr Lib : Type*)
  | add (lib : Lib) (calloc : Addr)
  | remove (lib : Lib)

/-- The context, unless a node has been used that was not in memory, the libraries added so far, and those not removed. -/
structure State (Addr Lib : Type*) where
  context : Option (Context Addr Lib)
  added : List Lib
  present : List Lib

def start : State Addr Lib := ⟨some ⟨none, fun _ => none, 0⟩, [], []⟩

/-- `calloc` returns no node that is in use, and only a library that was added is removed. -/
def step [DecidableEq Addr] [DecidableEq Lib] (s : State Addr Lib) : Op Addr Lib → Option (State Addr Lib)
  | .add lib calloc =>
    if s.context.bind (fun c => (c.node calloc).map Node.value) = none then
      some ⟨s.context.bind fun c => c.addLinkMapLib lib calloc, lib :: s.added, s.present ++ [lib]⟩
    else none
  | .remove lib =>
    if lib ∈ s.added then some ⟨s.context.bind fun c => c.removeLinkMapLib lib, s.added, s.present.erase lib⟩
    else none

/-- The link map is well linked and lists the libraries that are present. -/
def WellLinked (s : State Addr Lib) : Prop :=
  ∃ c cells last, s.context = some c ∧ Segment c.node none c.linkmap cells last none ∧ cells.map Prod.snd = s.present

/-- The library removed is not the first one. -/
def KeepsHead (s : State Addr Lib) : Op Addr Lib → Prop
  | .add _ _ => True
  | .remove lib => s.present.head? ≠ some lib


/-! ### The operations -/

section Operations

variable [DecidableEq Addr] {c : Context Addr Lib} {cells : List (Addr × Lib)} {last : Option Addr}

theorem addLinkMapLib_segment (seg : Segment c.node none c.linkmap cells last none) (few : cells.length ≤ c.allocated) (lib : Lib)
    {calloc : Addr} (fresh : c.node calloc = none) :
    ∃ c', c.addLinkMapLib lib calloc = some c' ∧ Segment c'.node none c'.linkmap (cells ++ [(calloc, lib)]) (some calloc) none ∧
      c'.allocated = c.allocated + 1 := by
  rw [Context.addLinkMapLib]
  rcases empty : c.linkmap with _ | linkmap
  · rw [empty] at seg
    obtain rfl := seg.eq_nil
    refine ⟨_, rfl, ?_, rfl⟩
    exact .cons_of (Function.update_self ..) rfl rfl (.nil ..)
  · rw [empty] at seg
    have other : ∀ cell ∈ cells, cell.1 ≠ calloc := by
      intro cell mem same
      obtain ⟨n, found, -⟩ := seg.mem_node mem
      rw [same, fresh] at found
      cases found
    obtain ⟨before, a, lm, rfl, walk⟩ := lastFrom_segment seg (Nat.le_succ_of_le few : cells.length ≤ c.allocated + 1)
    have apart : ∀ cell ∈ before, cell.1 ≠ lm := fun cell mem => seg.apart mem (List.mem_singleton_self _)
    obtain ⟨node, written, -, linked⟩ := seg.setNext_last apart (some calloc)
    dsimp only
    rw [walk, Option.bind_some, written, Option.bind_some]
    refine ⟨_, rfl, ?_, rfl⟩
    have kept := linked.update_other other (some ⟨lib, none, some lm⟩)
    exact kept.append (.cons_of (Function.update_self ..) rfl rfl (.nil ..))

/-- What follows a node is linked to what stands before it. -/
theorem unlink_next {after : List (Addr × Lib)} {p : Addr} {n : Node Addr Lib} {node : Addr → Option (Node Addr Lib)}
    (tail : Segment node (some p) n.next after last none) :
    ∃ node' last', (match n.next with | none => some node | some next => setPrev node next n.prev) = some node' ∧
      (∀ q, (∀ cell ∈ after, cell.1 ≠ q) → node' q = node q) ∧ Segment node' n.prev n.next after last' none := by
  cases after with
  | nil =>
    rw [← tail.nil_inv.2]
    exact ⟨node, n.prev, rfl, fun _ _ => rfl, .nil ..⟩
  | cons cell after =>
    obtain ⟨r, b⟩ := cell
    obtain ⟨_, next, -⟩ := tail.cons_inv
    rw [next] at tail ⊢
    obtain ⟨node', written, kept, linked⟩ := tail.setPrev_head n.prev
    exact ⟨node', last, written, fun q other => kept q (other (r, b) List.mem_cons_self).symm, linked⟩

variable [DecidableEq Lib]

/-- A node after the first is unlinked and freed. -/
theorem removeLinkMapLib_segment {before after : List (Addr × Lib)} {p : Addr} {lib : Lib}
    (seg : Segment c.node none c.linkmap (before ++ (p, lib) :: after) last none)
    (few : (before ++ (p, lib) :: after).length ≤ c.allocated) (earlier : ∀ cell ∈ before, cell.2 ≠ lib) (behind : before ≠ []) :
    ∃ node last', c.removeLinkMapLib lib = some { c with node := node } ∧
      Segment node none c.linkmap (before ++ after) last' none := by
  have apart_after : ∀ cell ∈ before, ∀ cell' ∈ after, cell'.1 ≠ cell.1 := fun cell mem cell' mem' =>
    (seg.apart mem (List.mem_cons_of_mem _ mem')).symm
  have apart_p : ∀ cell ∈ before, cell.1 ≠ p := fun cell mem => seg.apart mem List.mem_cons_self
  obtain ⟨mid, _, first, second⟩ := seg.split
  obtain ⟨n, rfl, found, value, rfl, tail⟩ := second.cons_inv
  have whole : Segment c.node n.prev (some p) ([(p, lib)] ++ after) last none := second
  have after_p : ∀ cell ∈ after, cell.1 ≠ p := fun cell mem => (whole.apart (List.mem_singleton_self _) mem).symm
  rw [Context.removeLinkMapLib, getLinkMapLib_segment seg few earlier, Option.bind_some]
  dsimp only
  rw [found, Option.bind_some]
  obtain ⟨node₁, last', written₁, kept₁, linked₁⟩ := unlink_next tail
  rw [written₁, Option.bind_some, kept₁ p after_p, found, Option.bind_some]
  have first₁ := first.congr fun cell mem => kept₁ cell.1 (apart_after cell mem)
  -- the node before it, which there is, is linked to what follows
  obtain ⟨earliest, ⟨l, b⟩, rfl⟩ := List.eq_nil_or_concat before |>.resolve_left behind
  rw [List.concat_eq_append] at *
  obtain ⟨_, _, _, _, previous, _⟩ := first₁.snoc_inv
  have last_mem : (l, b) ∈ earliest ++ [(l, b)] := List.mem_append_right _ (List.mem_singleton_self _)
  have whole' : Segment c.node none c.linkmap (earliest ++ ((l, b) :: (p, lib) :: after)) last none := by
    simpa using seg
  obtain ⟨node₂, written₂, kept₂, linked₂⟩ := first₁.setNext_last (fun cell mem => whole'.apart mem List.mem_cons_self) n.next
  rw [previous] at linked₁ ⊢
  dsimp only
  rw [written₂, Option.bind_some]
  have linked := linked₂.append (linked₁.congr fun cell mem => kept₂ cell.1 (apart_after (l, b) last_mem cell mem))
  refine ⟨_, last', rfl, linked.update_other ?_ none⟩
  intro cell mem
  rcases List.mem_append.mp mem with mem | mem
  · exact apart_p cell mem
  · exact after_p cell mem

/-- The first node is freed, and `my_context->linkmap` still leads to it. -/
theorem removeLinkMapLib_head {after : List (Addr × Lib)} {p : Addr} {lib : Lib}
    (seg : Segment c.node none c.linkmap ((p, lib) :: after) last none) (few : ((p, lib) :: after).length ≤ c.allocated) :
    ∃ c', c.removeLinkMapLib lib = some c' ∧ c'.linkmap = some p ∧ c'.node p = none := by
  have whole₀ : Segment c.node none c.linkmap ([] ++ (p, lib) :: after) last none := seg
  rw [Context.removeLinkMapLib, getLinkMapLib_segment whole₀ few (by simp), Option.bind_some]
  have whole : Segment c.node none c.linkmap ([(p, lib)] ++ after) last none := seg
  have after_p : ∀ cell ∈ after, cell.1 ≠ p := fun cell mem => (whole.apart (List.mem_singleton_self _) mem).symm
  obtain ⟨n, head, found, value, prev, tail⟩ := seg.cons_inv
  obtain ⟨node₁, last', written₁, kept₁, linked₁⟩ := unlink_next tail
  dsimp only
  rw [found, Option.bind_some, written₁, Option.bind_some, kept₁ p after_p, found, Option.bind_some, prev]
  exact ⟨_, rfl, head, Function.update_self ..⟩

end Operations

/-! ### Whole runs -/

section RunsOf

/-- `WellLinked`, when the bound of the walks is large enough. -/
structure Inv (s : State Addr Lib) : Prop where
  linked : WellLinked s
  few : ∀ c, s.context = some c → s.present.length ≤ c.allocated

theorem inv_start : Inv (start : State Addr Lib) := by
  refine ⟨⟨_, [], none, rfl, .nil .., rfl⟩, ?_⟩
  intro c same
  cases same
  exact le_rfl

variable [DecidableEq Lib]

/-- The libraries present, up to the first node of one of them. -/
theorem Inv.first {s : State Addr Lib} (inv : Inv s) {lib : Lib} (mem : lib ∈ s.present) :
    ∃ c before p after last, s.context = some c ∧ Segment c.node none c.linkmap (before ++ (p, lib) :: after) last none ∧
      (before ++ (p, lib) :: after).length ≤ c.allocated ∧ (∀ cell ∈ before, cell.2 ≠ lib) ∧
      s.present = before.map Prod.snd ++ lib :: after.map Prod.snd := by
  obtain ⟨c, cells, last, there, seg, present⟩ := inv.linked
  have few := inv.few c there
  rw [← present, List.length_map] at few
  rw [← present] at mem ⊢
  obtain ⟨cell, listed, same⟩ := List.mem_map.mp mem
  have found : (cells.find? fun cell => cell.2 = lib).isSome := List.find?_isSome.mpr ⟨cell, listed, by simpa using same⟩
  obtain ⟨⟨p, a⟩, found⟩ := Option.isSome_iff_exists.mp found
  obtain ⟨this, before, after, rfl, earlier⟩ := List.find?_eq_some_iff_append.mp found
  obtain rfl : a = lib := by simpa using this
  exact ⟨c, before, p, after, last, there, seg, few, by simpa using earlier, by simp⟩

variable [DecidableEq Addr]

theorem Inv.add {s s' : State Addr Lib} {lib : Lib} {calloc : Addr} (inv : Inv s) (next : step s (.add lib calloc) = some s') :
    Inv s' := by
  obtain ⟨c, cells, last, there, seg, present⟩ := inv.linked
  have few : cells.length ≤ c.allocated := by
    have := inv.few c there
    rwa [← present, List.length_map] at this
  rw [step, there, Option.bind_some] at next
  split_ifs at next with fresh
  cases next
  obtain ⟨c', run, linked, allocated⟩ := addLinkMapLib_segment seg few lib (Option.map_eq_none_iff.mp fresh)
  refine ⟨⟨c', _, _, run, linked, by rw [List.map_append, present]; rfl⟩, ?_⟩
  intro c'' same
  obtain rfl := Option.some.inj (run.symm.trans same)
  rw [List.length_append, allocated]
  exact Nat.succ_le_succ (inv.few c there)

theorem Inv.remove {s s' : State Addr Lib} {lib : Lib} (inv : Inv s) (keeps : s.present.head? ≠ some lib)
    (next : step s (.remove lib) = some s') : Inv s' := by
  rw [step] at next
  split_ifs at next with added
  cases next
  by_cases mem : lib ∈ s.present
  · obtain ⟨c, before, p, after, last, there, seg, few, earlier, present⟩ := inv.first mem
    have behind : before ≠ [] := by
      rintro rfl
      rw [present] at keeps
      exact keeps rfl
    obtain ⟨node, last', run, linked⟩ := removeLinkMapLib_segment seg few earlier behind
    have kept : lib ∉ before.map Prod.snd := by
      intro listed
      obtain ⟨cell, listed, same⟩ := List.mem_map.mp listed
      exact earlier cell listed same
    have erased : s.present.erase lib = (before ++ after).map Prod.snd := by
      rw [present, List.erase_append_right _ kept, List.erase_cons_head, List.map_append]
    rw [there, Option.bind_some, run]
    refine ⟨⟨_, _, _, rfl, linked, erased.symm⟩, ?_⟩
    intro c' same
    cases same
    exact (List.length_erase_le ..).trans (inv.few c there)
  · obtain ⟨c, cells, last, there, seg, present⟩ := inv.linked
    have few := inv.few c there
    rw [← present, List.length_map] at few
    have missing : cells.find? (fun cell => cell.2 = lib) = none := by
      refine List.find?_eq_none.mpr fun cell listed same => mem ?_
      rw [← present]
      exact List.mem_map.mpr ⟨cell, listed, of_decide_eq_true same⟩
    have run : c.removeLinkMapLib lib = some c := by
      rw [Context.removeLinkMapLib, Context.getLinkMapLib, findFrom_segment seg lib (Nat.lt_succ_of_le few), missing]
      rfl
    rw [there, Option.bind_some, run, List.erase_of_not_mem mem]
    refine ⟨⟨c, cells, last, rfl, seg, present⟩, ?_⟩
    intro c' same
    cases same
    exact inv.few c there

/-- After the first library is removed the list starts in memory that was freed. -/
theorem Inv.remove_head {s s' : State Addr Lib} {lib : Lib} (inv : Inv s) (head : s.present.head? = some lib)
    (next : step s (.remove lib) = some s') : ¬ WellLinked s' := by
  rw [step] at next
  split_ifs at next with added
  cases next
  obtain ⟨c, before, p, after, last, there, seg, few, earlier, present⟩ := inv.first (List.mem_of_mem_head? head)
  have foremost : before = [] := by
    cases before with
    | nil => rfl
    | cons cell before =>
      rw [present] at head
      exact absurd (Option.some.inj head) (earlier cell List.mem_cons_self)
  subst foremost
  obtain ⟨c', run, linkmap, gone⟩ := removeLinkMapLib_head seg few
  rw [there, Option.bind_some, run]
  rintro ⟨c'', cells, last', same, seg', -⟩
  obtain rfl := Option.some.inj same
  rw [linkmap] at seg'
  cases cells with
  | nil => cases seg'.nil_inv.2
  | cons cell cells =>
    obtain ⟨q, a⟩ := cell
    obtain ⟨n, same, found, -⟩ := seg'.cons_inv
    cases same
    rw [gone] at found
    cases found

/-- In a run the link map is well linked and lists what is present as long as no removal is of the first library, and only then. -/
theorem linkMap_always_iff (ops : List (Op Addr Lib)) :
    Runs.Always step WellLinked start ops ↔ Runs.AllSteps step KeepsHead start ops := by
  have keep : ∀ (s : State Addr Lib) op s', Inv s → KeepsHead s op → step s op = some s' → Inv s' := by
    intro s op s' inv keeps next
    cases op with
    | add lib calloc => exact inv.add next
    | remove lib => exact inv.remove keeps next
  have leave : ∀ (s : State Addr Lib) op s', Inv s → ¬ KeepsHead s op → step s op = some s' → ¬ WellLinked s' := by
    intro s op s' inv bad next
    cases op with
    | add lib calloc => exact absurd trivial bad
    | remove lib => exact inv.remove_head (Classical.not_not.mp bad) next
  exact Runs.always_iff_allSteps (fun s inv => inv.linked) keep leave inv_start ops

/-- One library added and removed. -/
theorem linkMap_removed_head : ¬ ∀ ops : List (Op Nat Nat), Runs.Always step WellLinked start ops := by
  intro always
  have first : step start (.add 5 0) = some ⟨some ⟨some 0, update (fun _ => none) 0 (some ⟨5, none, none⟩), 1⟩, [5], [5]⟩ := rfl
  exact (inv_start.add first).remove_head rfl rfl (always [.add 5 0, .remove 5] _ (List.prefix_refl _) _ rfl)

end RunsOf

end Box64.Librarian.LinkMap
