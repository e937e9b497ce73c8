import Mathlib.Data.List.Infix
import Mathlib.Logic.Function.Basic

/-!
# Doubly linked lists in a memory

A segment leads from a first node to a last one by the links of its nodes, forwards and backwards.
-/

namespace DoublyLinked

open Function (update)

variable {Addr α : Type*}

structure Node (Addr α : Type*) where
  value : α
  next : Option Addr
  prev : Option Addr

/-- From `head` with `front` before it the nodes of `cells` follow each other, `last` is the last of them, or `front`, and `rest`
follows it. -/
inductive Segment (node : Addr → Option (Node Addr α)) :
    Option Addr → Option Addr → List (Addr × α) → Option Addr → Option Addr → Prop
  | nil (front head : Option Addr) : Segment node front head [] front head
  | cons {p : Addr} {n : Node Addr α} {cells : List (Addr × α)} {last rest : Option Addr} (found : node p = some n)
      (tail : Segment node (some p) n.next cells last rest) : Segment node n.prev (some p) ((p, n.value) :: cells) last rest

namespace Segment

variable {node node' : Addr → Option (Node Addr α)} {front head mid mid' last rest : Option Addr}
  {cells cells' : List (Addr × α)} {p : Addr} {a : α}

theorem nil_inv (seg : Segment node front head [] last rest) : last = front ∧ rest = head := by
  cases seg
  exact ⟨rfl, rfl⟩

theorem cons_inv (seg : Segment node front head ((p, a) :: cells) last rest) :
    ∃ n, head = some p ∧ node p = some n ∧ n.value = a ∧ n.prev = front ∧ Segment node (some p) n.next cells last rest := by
  cases seg with
  | cons found tail => exact ⟨_, rfl, found, rfl, rfl, tail⟩

theorem eq_nil (seg : Segment node front none cells last rest) : cells = [] := by
  cases seg
  rfl

theorem cons_of {n : Node Addr α} (found : node p = some n) (value : n.value = a) (prev : n.prev = front)
    (tail : Segment node (some p) n.next cells last rest) : Segment node front (some p) ((p, a) :: cells) last rest := by
  subst value prev
  exact .cons found tail

theorem append (first : Segment node front head cells mid mid') (second : Segment node mid mid' cells' last rest) :
    Segment node front head (cells ++ cells') last rest := by
  induction first with
  | nil => exact second
  | cons found _ ih => exact .cons found (ih second)

theorem split (seg : Segment node front head (cells ++ cells') last rest) :
    ∃ mid mid', Segment node front head cells mid mid' ∧ Segment node mid mid' cells' last rest := by
  induction cells generalizing front head with
  | nil => exact ⟨front, head, .nil .., seg⟩
  | cons cell cells ih =>
    obtain ⟨n, rfl, found, value, prev, tail⟩ := cons_inv seg
    obtain ⟨mid, mid', first, second⟩ := ih tail
    exact ⟨mid, mid', cons_of found value prev first, second⟩

/-- Other memory does not matter. -/
theorem congr (seg : Segment node front head cells last rest) (same : ∀ cell ∈ cells, node' cell.1 = node cell.1) :
    Segment node' front head cells last rest := by
  induction seg with
  | nil => exact .nil ..
  | cons found _ ih =>
    have kept := same _ List.mem_cons_self
    exact .cons (kept.trans found) (ih fun cell mem => same cell (List.mem_cons_of_mem _ mem))

theorem mem_node (seg : Segment node front head cells last rest) {cell : Addr × α} (mem : cell ∈ cells) :
    ∃ n, node cell.1 = some n ∧ n.value = cell.2 := by
  induction seg with
  | nil => cases mem
  | cons found _ ih =>
    rcases List.mem_cons.mp mem with rfl | mem
    · exact ⟨_, found, rfl⟩
    · exact ih mem

/-- The links of the first node tell all that follows, up to the end. -/
theorem unique (seg : Segment node front head cells last none) {front' last' : Option Addr}
    (seg' : Segment node front' head cells' last' none) : cells = cells' := by
  generalize ending : (none : Option Addr) = rest at seg
  induction seg generalizing front' cells' with
  | nil =>
    subst ending
    cases seg'
    rfl
  | cons found _ ih =>
    cases seg' with
    | cons found' tail' =>
      cases found.symm.trans found'
      rw [ih tail' ending]

theorem nodup (seg : Segment node front head cells last none) : (cells.map Prod.fst).Nodup := by
  generalize ending : (none : Option Addr) = rest at seg
  induction seg with
  | nil => exact List.nodup_nil
  | @cons p n cells last rest found tail ih =>
    subst ending
    refine List.nodup_cons.mpr ⟨?_, ih rfl⟩
    intro mem
    -- a node that comes twice would be followed by itself and what follows it
    obtain ⟨⟨q, a⟩, again, same⟩ := List.mem_map.mp mem
    obtain ⟨before, after, rfl⟩ := List.append_of_mem again
    obtain ⟨mid, mid', _, second⟩ := split tail
    obtain ⟨n', rfl, _⟩ := cons_inv second
    subst same
    have whole : Segment node n.prev (some q) ((q, n.value) :: (before ++ (q, a) :: after)) last none := .cons found tail
    have := congrArg List.length (unique whole second)
    simp at this
    omega

theorem apart (seg : Segment node front head (cells ++ cells') last none) {cell cell' : Addr × α} (mem : cell ∈ cells)
    (mem' : cell' ∈ cells') : cell.1 ≠ cell'.1 := by
  have distinct := nodup seg
  rw [List.map_append, List.nodup_append] at distinct
  exact distinct.2.2 _ (List.mem_map_of_mem mem) _ (List.mem_map_of_mem mem')

/-- The last node of a segment. -/
theorem snoc_inv (seg : Segment node front head (cells ++ [(p, a)]) last rest) :
    ∃ n, node p = some n ∧ n.value = a ∧ n.next = rest ∧ last = some p ∧ Segment node front head cells n.prev (some p) := by
  obtain ⟨mid, mid', first, second⟩ := split seg
  obtain ⟨n, rfl, found, value, rfl, tail⟩ := cons_inv second
  obtain ⟨rfl, rfl⟩ := nil_inv tail
  exact ⟨n, found, value, rfl, rfl, first⟩

theorem snoc_of {n : Node Addr α} (first : Segment node front head cells n.prev (some p)) (found : node p = some n)
    (value : n.value = a) : Segment node front head (cells ++ [(p, a)]) (some p) n.next :=
  append first (cons_of found value rfl (.nil ..))

end Segment

section Links

variable [DecidableEq Addr]

/-- `p->next = next`, of a node that is in memory. -/
def setNext (node : Addr → Option (Node Addr α)) (p : Addr) (next : Option Addr) : Option (Addr → Option (Node Addr α)) :=
  (node p).map fun n => update node p (some { n with next := next })

/-- `p->prev = prev`. -/
def setPrev (node : Addr → Option (Node Addr α)) (p : Addr) (prev : Option Addr) : Option (Addr → Option (Node Addr α)) :=
  (node p).map fun n => update node p (some { n with prev := prev })

namespace Segment

variable {node node' : Addr → Option (Node Addr α)} {front head last rest : Option Addr} {cells : List (Addr × α)}
  {p : Addr} {a : α}

theorem update_other (seg : Segment node front head cells last rest) (other : ∀ cell ∈ cells, cell.1 ≠ p)
    (n : Option (Node Addr α)) : Segment (update node p n) front head cells last rest :=
  seg.congr fun cell mem => Function.update_of_ne (other cell mem) ..

/-- A segment linked to what stands before it. -/
theorem setPrev_head (seg : Segment node front (some p) ((p, a) :: cells) last none) (front' : Option Addr) :
    ∃ node', setPrev node p front' = some node' ∧ (∀ q ≠ p, node' q = node q) ∧
      Segment node' front' (some p) ((p, a) :: cells) last none := by
  have other : ∀ cell ∈ cells, cell.1 ≠ p := by
    intro cell mem
    have whole : Segment node front (some p) ([(p, a)] ++ cells) last none := seg
    exact (apart whole (List.mem_singleton_self _) mem).symm
  obtain ⟨n, -, found, value, -, tail⟩ := cons_inv seg
  refine ⟨_, by rw [setPrev, found, Option.map_some], fun q other => Function.update_of_ne other .., ?_⟩
  exact cons_of (Function.update_self ..) value rfl (tail.update_other other _)

/-- A segment linked to what stands behind it. -/
theorem setNext_last (seg : Segment node front head (cells ++ [(p, a)]) last rest) (other : ∀ cell ∈ cells, cell.1 ≠ p)
    (rest' : Option Addr) :
    ∃ node', setNext node p rest' = some node' ∧ (∀ q ≠ p, node' q = node q) ∧
      Segment node' front head (cells ++ [(p, a)]) (some p) rest' := by
  obtain ⟨n, found, value, -, -, first⟩ := snoc_inv seg
  refine ⟨_, by rw [setNext, found, Option.map_some], fun q other => Function.update_of_ne other .., ?_⟩
  have kept := first.update_other other (some { n with next := rest' })
  exact snoc_of (n := { n with next := rest' }) kept (Function.update_self ..) value

end Segment

end Links

end DoublyLinked
