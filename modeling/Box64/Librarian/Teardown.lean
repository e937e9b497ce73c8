import Box64.Lib.PostOrder
import Mathlib.Data.Fintype.Card
import Mathlib.Data.List.FinRange
import Mathlib.Data.List.Nodup

/-!
# Freeing the libraries of a map

`FreeLibrarian` frees the libraries that a map owns, those that depend on a library before the library. What the fini
functions of a library run is not modelled.
-/

namespace Box64.Librarian.Teardown

open Function (update)
open PostOrder

/-- `lib_t`; the owner may be null. -/
structure MapLib (Lib : Type*) where
  libraries : List Lib
  ownlibs : Bool
  owner : Option Lib

/-- `library_t`; the maplib of a library comes from `NewLibrarian(box64, 0)`. -/
structure Library (Lib : Type*) where
  depended : List Lib
  maplib : Option {m : MapLib Lib // m.ownlibs = false}

/-- The libraries in memory until they are freed, and what was passed to `Free1Library`. -/
structure Heap (Lib : Type*) where
  library : Lib → Option (Library Lib)
  passed : List Lib

/-- The values 0, 1 and 2 of `freed[idx]`. -/
inductive Mark
  | unseen
  | entered
  | freed
  deriving DecidableEq

variable {Lib : Type*}

/-- The memory and the array `freed`. -/
structure State (m : MapLib Lib) where
  heap : Heap Lib
  freed : Fin m.libraries.length → Mark

namespace State

variable {m : MapLib Lib}

def mark (s : State m) (idx : Fin m.libraries.length) (v : Mark) : State m := { s with freed := update s.freed idx v }

variable (s : State m) {idx j : Fin m.libraries.length} (v : Mark)

@[simp] theorem mark_self : (s.mark idx v).freed idx = v := Function.update_self ..

theorem mark_of_ne (other : j ≠ idx) : (s.mark idx v).freed j = s.freed j := Function.update_of_ne other ..

/-- How many libraries have not been seen. -/
def unseen : Nat := (Finset.univ.filter fun j => s.freed j = .unseen).card

theorem unseen_le : s.unseen ≤ m.libraries.length :=
  (Finset.card_le_univ _).trans_eq (Fintype.card_fin _)

theorem unseen_mark {s : State m} (mark : s.freed idx = .unseen) : (s.mark idx .entered).unseen < s.unseen := by
  refine Finset.card_lt_card ?_
  refine Finset.ssubset_iff_subset_ne.mpr ⟨?_, ?_⟩
  · intro j mem
    rw [Finset.mem_filter] at mem ⊢
    refine ⟨mem.1, ?_⟩
    by_cases same : j = idx
    · rw [same]
      exact mark
    · rw [mark_of_ne s _ same] at mem
      exact mem.2
  · intro eq
    have mem : idx ∈ Finset.univ.filter fun j => s.freed j = .unseen := by simp [mark]
    rw [← eq, Finset.mem_filter, mark_self] at mem
    cases mem.2

end State

section Functions

variable [DecidableEq Lib]

/-- The loop of `freeLibraryRecurse` over `lib->depended` below `i`; the result is `none` where a library is read that has been
freed, and tells whether the loop was left early. -/
def dependedLoop {m : MapLib Lib} (recurse : Fin m.libraries.length → State m → Option (State m))
    (idx : Fin m.libraries.length) : Nat → State m → Option (State m × Bool)
  | 0, s => some (s, false)
  | i + 1, s =>
    (s.heap.library m.libraries[idx]).bind fun lib =>
      lib.depended[i]?.bind fun dep =>
        match m.libraries.finIdxOf? dep with
        | none => dependedLoop recurse idx i s
        | some j =>
          if s.freed j = .entered then
            -- the message about the cycle names both libraries
            (s.heap.library dep).bind fun _ => dependedLoop recurse idx i s
          else
            (recurse j s).bind fun s =>
              if s.freed idx ≠ .entered then some (s, true)
              else dependedLoop recurse idx i s

def freeLibraryRecurse (free1Library : Lib → Heap Lib → Option (Heap Lib)) (m : MapLib Lib) (owner : Option Lib) :
    Nat → Fin m.libraries.length → State m → Option (State m)
  | 0, _, _ => none
  | fuel + 1, idx, s =>
    if s.freed idx ≠ .unseen then some s
    else if some m.libraries[idx] = owner then some s
    else
      let s := s.mark idx .entered
      (s.heap.library m.libraries[idx]).bind fun lib =>
        (dependedLoop (freeLibraryRecurse free1Library m owner fuel) idx lib.depended.length s).bind fun (s, early) =>
          if early then some s
          else if m.ownlibs then
            (free1Library m.libraries[idx] s.heap).bind fun heap => some ({ s with heap := heap }.mark idx .freed)
          else some (s.mark idx .freed)

/-- `FreeLibrarian`; `calloc` tells whether the array `freed` could be allocated. -/
def freeLibrarian (free1Library : Lib → Heap Lib → Option (Heap Lib)) (fuel : Nat) (calloc : Bool) :
    Option (MapLib Lib) → Heap Lib → Option (Heap Lib)
  | none, h => some h
  | some m, h =>
    if m.ownlibs ∧ m.libraries.length ≠ 0 then
      if calloc then
        ((List.finRange m.libraries.length).reverse.foldlM
          (fun s i => freeLibraryRecurse free1Library m m.owner fuel i s) ⟨h, fun _ => .unseen⟩).map State.heap
      else
        (List.finRange m.libraries.length).reverse.foldlM
          (fun h i =>
            if some m.libraries[i] ≠ m.owner then
              (h.library m.libraries[i]).bind fun _ => free1Library m.libraries[i] h
            else some h) h
    else some h

/-- `Free1Library`; the library is read again after its maplib is freed. -/
def free1Library (calloc : Bool) : Nat → Lib → Heap Lib → Option (Heap Lib)
  | 0, _, _ => none
  | fuel + 1, lib, h =>
    (h.library lib).bind fun l =>
      (freeLibrarian (free1Library calloc fuel) fuel calloc (l.maplib.map Subtype.val)
        { h with passed := h.passed ++ [lib] }).bind fun h =>
          (h.library lib).bind fun _ => some { h with library := update h.library lib none }

end Functions


/-! ### More steps change nothing -/

section Mono

variable [DecidableEq Lib] {m : MapLib Lib}

theorem dependedLoop_mono {recurse recurse' : Fin m.libraries.length → State m → Option (State m)}
    (less : ∀ j s t, recurse j s = some t → recurse' j s = some t) {idx : Fin m.libraries.length} {i : Nat} :
    ∀ {s r}, dependedLoop recurse idx i s = some r → dependedLoop recurse' idx i s = some r := by
  induction i with
  | zero => exact fun done => done
  | succ i ih =>
    intro s r done
    rw [dependedLoop] at done ⊢
    obtain ⟨lib, read, done⟩ := Option.bind_eq_some_iff.mp done
    obtain ⟨dep, entry, done⟩ := Option.bind_eq_some_iff.mp done
    rw [read, Option.bind_some, entry, Option.bind_some]
    cases search : m.libraries.finIdxOf? dep with
    | none =>
      rw [search] at done
      exact ih done
    | some j =>
      simp only [search] at done ⊢
      split_ifs at done ⊢ with cycle
      · obtain ⟨l, there, done⟩ := Option.bind_eq_some_iff.mp done
        rw [there, Option.bind_some]
        exact ih done
      · obtain ⟨t, call, done⟩ := Option.bind_eq_some_iff.mp done
        rw [less j s t call, Option.bind_some]
        split_ifs at done ⊢ with cleared
        · exact done
        · exact ih done

theorem freeLibraryRecurse_mono {free1 free1' : Lib → Heap Lib → Option (Heap Lib)}
    (less : ∀ lib h t, free1 lib h = some t → free1' lib h = some t) {owner : Option Lib} {fuel : Nat} :
    ∀ {fuel' idx s t}, fuel ≤ fuel' → freeLibraryRecurse free1 m owner fuel idx s = some t →
      freeLibraryRecurse free1' m owner fuel' idx s = some t := by
  induction fuel with
  | zero => exact fun _ done => nomatch done
  | succ fuel ih =>
    intro fuel' idx s t enough done
    obtain ⟨fuel', rfl⟩ := Nat.exists_eq_add_one.mpr (Nat.zero_lt_of_lt enough)
    rw [freeLibraryRecurse] at done ⊢
    by_cases before : s.freed idx ≠ .unseen
    · rwa [if_pos before] at done ⊢
    by_cases own : some m.libraries[idx] = owner
    · rwa [if_neg before, if_pos own] at done ⊢
    rw [if_neg before, if_neg own] at done ⊢
    dsimp only at done ⊢
    obtain ⟨lib, read, done⟩ := Option.bind_eq_some_iff.mp done
    obtain ⟨⟨s', early⟩, run, done⟩ := Option.bind_eq_some_iff.mp done
    have deeper := dependedLoop_mono (fun j s t call => ih (Nat.le_of_succ_le_succ enough) call) run
    rw [read, Option.bind_some, deeper, Option.bind_some]
    dsimp only at done ⊢
    split_ifs at done ⊢ with left owns
    · exact done
    · obtain ⟨heap, call, done⟩ := Option.bind_eq_some_iff.mp done
      rw [less _ _ _ call]
      exact done
    · exact done

theorem foldlM_mono {α β : Type*} {f g : β → α → Option β} (less : ∀ b a c, f b a = some c → g b a = some c) {l : List α} :
    ∀ {b c}, l.foldlM f b = some c → l.foldlM g b = some c := by
  induction l with
  | nil => exact fun done => done
  | cons a l ih =>
    intro b c done
    rw [List.foldlM_cons] at done ⊢
    obtain ⟨d, first, done⟩ := Option.bind_eq_some_iff.mp done
    exact Option.bind_eq_some_iff.mpr ⟨d, less b a d first, ih done⟩

theorem freeLibrarian_mono {free1 free1' : Lib → Heap Lib → Option (Heap Lib)}
    (less : ∀ lib h t, free1 lib h = some t → free1' lib h = some t) {calloc : Bool} {fuel fuel' : Nat} (enough : fuel ≤ fuel')
    {own : Option (MapLib Lib)} {h t : Heap Lib} (done : freeLibrarian free1 fuel calloc own h = some t) :
    freeLibrarian free1' fuel' calloc own h = some t := by
  cases own with
  | none => exact done
  | some m =>
    rw [freeLibrarian] at done ⊢
    split_ifs at done ⊢ with owns
    · obtain ⟨s, run, rfl⟩ := Option.map_eq_some_iff.mp done
      rw [foldlM_mono (fun s i t call => freeLibraryRecurse_mono less enough call) run, Option.map_some]
    · refine foldlM_mono ?_ done
      intro h i t call
      split_ifs at call ⊢ with free
      · obtain ⟨lib, read, call⟩ := Option.bind_eq_some_iff.mp call
        rw [read, Option.bind_some]
        exact less _ _ _ call
      · exact call
    · exact done

theorem free1Library_mono {calloc : Bool} {fuel : Nat} :
    ∀ {fuel' : Nat} {lib : Lib} {h t : Heap Lib}, fuel ≤ fuel' → free1Library calloc fuel lib h = some t →
      free1Library calloc fuel' lib h = some t := by
  induction fuel with
  | zero => exact fun _ done => nomatch done
  | succ fuel ih =>
    intro fuel' lib h t enough done
    obtain ⟨fuel', rfl⟩ := Nat.exists_eq_add_one.mpr (Nat.zero_lt_of_lt enough)
    have enough := Nat.le_of_succ_le_succ enough
    rw [free1Library] at done ⊢
    obtain ⟨l, read, done⟩ := Option.bind_eq_some_iff.mp done
    obtain ⟨h', nested, done⟩ := Option.bind_eq_some_iff.mp done
    have deeper := freeLibrarian_mono (fun lib h t call => ih enough call) enough nested
    rw [read, Option.bind_some, deeper]
    exact done

end Mono

/-! ### What is freed -/

namespace MapLib

variable (m : MapLib Lib) (h : Heap Lib)

/-- `v` is one of the libraries that depend on `u`, and the map lists both. -/
def Depended (u v : Lib) : Prop :=
  u ∈ m.libraries ∧ v ∈ m.libraries ∧ ∃ lib, h.library u = some lib ∧ v ∈ lib.depended

def Acyclic : Prop := ∀ u, ¬ Relation.TransGen (m.Depended h) u u

/-- One library depends on the owner, and the owner on another. -/
def ThroughOwner : Prop := ∃ u owner v, m.owner = some owner ∧ m.Depended h u owner ∧ m.Depended h owner v

/-- `Depended`, of libraries that are freed. -/
def Edge (u v : Lib) : Prop := m.Depended h u v ∧ some v ≠ m.owner

variable {m h}

/-- A path between libraries that are freed passes no owner, unless one goes through it. -/
theorem edge_path (apart : ¬ m.ThroughOwner h) {u v : Lib} (path : Relation.TransGen (m.Depended h) u v)
    (free : some v ≠ m.owner) : Relation.TransGen (m.Edge h) u v := by
  induction path with
  | single step => exact .single ⟨step, free⟩
  | @tail w v path step ih =>
    have free' : some w ≠ m.owner := by
      intro own
      have into : ∃ x, m.Depended h x w := by
        cases path with
        | single step => exact ⟨_, step⟩
        | tail _ step => exact ⟨_, step⟩
      obtain ⟨x, into⟩ := into
      exact apart ⟨x, w, v, own.symm, into, step⟩
    exact .tail (ih free') ⟨step, free⟩

end MapLib


section Spec

variable [DecidableEq Lib]

/-- The memory after the libraries of a list have been freed. -/
def Heap.after (h : Heap Lib) (order : List Lib) : Heap Lib where
  library lib := if lib ∈ order then none else h.library lib
  passed := h.passed ++ order


variable {m : MapLib Lib} {h : Heap Lib}

theorem Heap.after_library {order : List Lib} {lib : Lib} (kept : lib ∉ order) : (h.after order).library lib = h.library lib :=
  if_neg kept

theorem Heap.after_nil : h.after [] = h := by
  simp [Heap.after]

/-- A library that is not freed yet is freed, and its maplib, which owns none, frees no other. -/
theorem free1Library_after {order : List Lib} {lib : Lib} (kept : lib ∉ order) (live : h.library lib ≠ none) (calloc : Bool)
    (fuel : Nat) : free1Library calloc (fuel + 1) lib (h.after order) = some (h.after (order ++ [lib])) := by
  obtain ⟨l, found⟩ := Option.ne_none_iff_exists'.mp live
  have read : (h.after order).library lib = some l := (Heap.after_library kept).trans found
  have nested : ∀ h' : Heap Lib,
      freeLibrarian (free1Library calloc fuel) fuel calloc (l.maplib.map Subtype.val) h' = some h' := by
    intro h'
    cases l.maplib with
    | none => rfl
    | some own =>
      have owns := own.property
      simp [freeLibrarian, owns]
  rw [free1Library, read, Option.bind_some, nested, Option.bind_some]
  simp only [read, Option.bind_some, Option.some.injEq]
  rw [Heap.after, Heap.after, Heap.mk.injEq]
  refine ⟨?_, List.append_assoc ..⟩
  funext other
  by_cases same : other = lib
  · subst same
    simp
  · rw [Function.update_of_ne same]
    simp [same]

/-- The libraries of `order` have been freed, and the marks tell them. -/
structure Inv (m : MapLib Lib) (h : Heap Lib) (order : List Lib) (s : State m) : Prop where
  heap : s.heap = h.after order
  freed : ∀ j, s.freed j = .freed ↔ m.libraries[j] ∈ order
  listed : ∀ lib ∈ order, lib ∈ m.libraries ∧ some lib ≠ m.owner
  nodup : order.Nodup

/-- From one state to a later one more libraries are freed, and the recursion is as deep. -/
structure Grows (m : MapLib Lib) (h : Heap Lib) (order : List Lib) (s : State m) (order' : List Lib) (s' : State m) : Prop where
  inv : Inv m h order' s'
  more : order ⊆ order'
  entered : ∀ j, s'.freed j = .entered ↔ s.freed j = .entered

/-- Each library that has been entered is one that `lib` must be freed before. -/
def Above (m : MapLib Lib) (h : Heap Lib) (s : State m) (lib : Lib) : Prop :=
  ∀ j, s.freed j = .entered → Relation.TransGen (m.Depended h) m.libraries[j] lib

/-- `Grows`, when the library at `j` has been dealt with, and in an order that fits. -/
structure Visits (m : MapLib Lib) (h : Heap Lib) (j : Fin m.libraries.length) (order : List Lib) (s : State m)
    (order' : List Lib) (s' : State m) : Prop extends Grows m h order s order' s' where
  seen : some m.libraries[j] ≠ m.owner → s'.freed j ≠ .unseen
  post : m.Acyclic h → Above m h s m.libraries[j] → IsPostOrder (m.Edge h) order → IsPostOrder (m.Edge h) order'

variable {order order' order'' : List Lib} {s s' s'' : State m}

theorem Grows.refl (inv : Inv m h order s) : Grows m h order s order s := ⟨inv, List.Subset.refl _, fun _ => Iff.rfl⟩

theorem Grows.trans (first : Grows m h order s order' s') (second : Grows m h order' s' order'' s'') :
    Grows m h order s order'' s'' :=
  ⟨second.inv, List.Subset.trans first.more second.more, fun j => (second.entered j).trans (first.entered j)⟩

/-- What has been seen stays so. -/
theorem Grows.unseen (grows : Grows m h order s order' s') (inv : Inv m h order s) {j : Fin m.libraries.length}
    (unseen : s'.freed j = .unseen) : s.freed j = .unseen := by
  cases mark : s.freed j with
  | unseen => rfl
  | entered =>
    rw [(grows.entered j).mpr mark] at unseen
    cases unseen
  | freed =>
    rw [(grows.inv.freed j).mpr (grows.more ((inv.freed j).mp mark))] at unseen
    cases unseen

theorem Grows.unseen_le (grows : Grows m h order s order' s') (inv : Inv m h order s) : s'.unseen ≤ s.unseen := by
  refine Finset.card_le_card ?_
  intro j mem
  rw [Finset.mem_filter] at mem ⊢
  exact ⟨mem.1, grows.unseen inv mem.2⟩

theorem Inv.mark_entered (inv : Inv m h order s) {idx : Fin m.libraries.length} (mark : s.freed idx = .unseen) :
    Inv m h order (s.mark idx .entered) := by
  refine ⟨inv.heap, ?_, inv.listed, inv.nodup⟩
  intro j
  by_cases same : j = idx
  · subst same
    have kept := inv.freed j
    rw [mark] at kept
    simp only [State.mark_self, reduceCtorEq, false_iff] at kept ⊢
    exact kept
  · rw [State.mark_of_ne s _ same]
    exact inv.freed j

theorem Inv.mark_freed (inv : Inv m h order s) (distinct : m.libraries.Nodup) {idx : Fin m.libraries.length}
    (mark : s.freed idx = .entered) (free : some m.libraries[idx] ≠ m.owner) :
    Inv m h (order ++ [m.libraries[idx]]) ({ s with heap := h.after (order ++ [m.libraries[idx]]) }.mark idx .freed) := by
  have fresh : m.libraries[idx] ∉ order := by
    rw [← inv.freed, mark]
    exact nofun
  refine ⟨rfl, ?_, ?_, ?_⟩
  · intro j
    by_cases same : j = idx
    · subst same
      simp
    · have other : m.libraries[j] ≠ m.libraries[idx] := by
        intro eq
        exact same (Fin.ext ((distinct.getElem_inj_iff).mp eq))
      rw [State.mark_of_ne _ _ same]
      simp only [inv.freed j, List.mem_append, List.mem_singleton, other, or_false]
  · intro lib mem
    rcases List.mem_append.mp mem with mem | mem
    · exact inv.listed lib mem
    · rw [List.mem_singleton.mp mem]
      exact ⟨List.getElem_mem _, free⟩
  · exact List.nodup_append.mpr ⟨inv.nodup, List.nodup_singleton _, by
      intro a mem b last eq
      rw [List.mem_singleton] at last
      exact fresh (last ▸ eq ▸ mem)⟩



/-- The loop over the libraries that depend on the one at `idx`, where each call it makes visits its library. -/
theorem dependedLoop_visits {recurse : Fin m.libraries.length → State m → Option (State m)} {k : Nat}
    (visit : ∀ j order s, Inv m h order s → s.unseen ≤ k →
      ∃ order' s', recurse j s = some s' ∧ Visits m h j order s order' s')
    (distinct : m.libraries.Nodup) (live : ∀ lib ∈ m.libraries, h.library lib ≠ none)
    {idx : Fin m.libraries.length} {lib : Library Lib} (found : h.library m.libraries[idx] = some lib) (i : Nat) :
    ∀ order s, Inv m h order s → s.unseen ≤ k → s.freed idx = .entered → i ≤ lib.depended.length →
      ∃ order' s', dependedLoop recurse idx i s = some (s', false) ∧ Grows m h order s order' s' ∧
        (∀ j, m.libraries[j] ∈ lib.depended.take i → some m.libraries[j] ≠ m.owner → s'.freed j ≠ .unseen) ∧
        (m.Acyclic h → (∀ j, s.freed j = .entered → Relation.ReflTransGen (m.Depended h) m.libraries[j] m.libraries[idx]) →
          IsPostOrder (m.Edge h) order → IsPostOrder (m.Edge h) order') := by
  induction i with
  | zero =>
    intro order s inv _ _ _
    exact ⟨order, s, rfl, .refl inv, by simp, fun _ _ post => post⟩
  | succ i ih =>
    intro order s inv few entered short
    have kept : m.libraries[idx] ∉ order := by
      rw [← inv.freed, entered]
      exact nofun
    have read : s.heap.library m.libraries[idx] = some lib := by
      rw [inv.heap, Heap.after_library kept]
      exact found
    have entry : lib.depended[i]? = some lib.depended[i] := List.getElem?_eq_getElem short
    rw [dependedLoop, read, Option.bind_some, entry, Option.bind_some]
    have split : lib.depended.take (i + 1) = lib.depended.take i ++ [lib.depended[i]] := by simp
    -- the index of the entry, if the map lists it
    rcases search : m.libraries.finIdxOf? lib.depended[i] with _ | j
    · obtain ⟨order', s', run, grows, seen, post⟩ := ih order s inv few entered (by omega)
      refine ⟨order', s', run, grows, ?_, post⟩
      intro j mem free
      rw [split, List.mem_append, List.mem_singleton] at mem
      rcases mem with mem | mem
      · exact seen j mem free
      · rw [List.finIdxOf?_eq_none_iff, ← mem] at search
        exact absurd (List.getElem_mem _) search
    · have dep : m.libraries[j] = lib.depended[i] := (List.finIdxOf?_eq_some_iff.mp search).1
      have dep_of : ∀ j', m.libraries[j'] = lib.depended[i] → j' = j := fun j' eq =>
        Fin.ext (distinct.getElem_inj_iff.mp (eq.trans dep.symm))
      have seen_all : ∀ {s' : State m}, s'.freed j ≠ .unseen ∨ some m.libraries[j] = m.owner →
          (∀ j', m.libraries[j'] ∈ lib.depended.take i → some m.libraries[j'] ≠ m.owner → s'.freed j' ≠ .unseen) →
          ∀ j', m.libraries[j'] ∈ lib.depended.take (i + 1) → some m.libraries[j'] ≠ m.owner → s'.freed j' ≠ .unseen := by
        intro s' last seen j' mem free
        rw [split, List.mem_append, List.mem_singleton] at mem
        rcases mem with mem | mem
        · exact seen j' mem free
        · rw [dep_of j' mem] at free ⊢
          exact last.resolve_right free
      dsimp only
      split_ifs with cycle
      · have kept_dep : m.libraries[j] ∉ order := by
          rw [← inv.freed, cycle]
          exact nofun
        obtain ⟨l, there⟩ := Option.ne_none_iff_exists'.mp (live m.libraries[j] (List.getElem_mem _))
        have read_dep : s.heap.library lib.depended[i] = some l := by
          rw [inv.heap, ← dep, Heap.after_library kept_dep]
          exact there
        rw [read_dep, Option.bind_some]
        obtain ⟨order', s', run, grows, seen, post⟩ := ih order s inv few entered (by omega)
        refine ⟨order', s', run, grows, seen_all (.inl ?_) seen, post⟩
        rw [(grows.entered j).mpr cycle]
        exact nofun
      · obtain ⟨mid, t, call, visits⟩ := visit j order s inv few
        have still : t.freed idx = .entered := (visits.entered idx).mpr entered
        have fewer : t.unseen ≤ k := (visits.unseen_le inv).trans few
        rw [call, Option.bind_some, if_neg (not_not_intro still)]
        obtain ⟨order', s', run, grows, seen, post⟩ := ih mid t visits.inv fewer still (by omega)
        refine ⟨order', s', run, visits.toGrows.trans grows, seen_all ?_ seen, ?_⟩
        · by_cases free : some m.libraries[j] = m.owner
          · exact .inr free
          · exact .inl fun unseen => visits.seen free (grows.unseen visits.inv unseen)
        · intro acyclic above before
          have edge : m.Depended h m.libraries[idx] m.libraries[j] :=
            ⟨List.getElem_mem _, List.getElem_mem _, lib, found, dep ▸ List.getElem_mem _⟩
          have middle := visits.post acyclic (fun g mark => .tail' (above g mark) edge) before
          exact post acyclic (fun g mark => above g ((visits.entered g).mp mark)) middle

theorem freeLibraryRecurse_visits (distinct : m.libraries.Nodup) (live : ∀ lib ∈ m.libraries, h.library lib ≠ none)
    (owns : m.ownlibs) {free1 : Lib → Heap Lib → Option (Heap Lib)}
    (frees : ∀ order, ∀ lib ∈ m.libraries, lib ∉ order → free1 lib (h.after order) = some (h.after (order ++ [lib]))) (fuel : Nat) :
    ∀ idx order s, Inv m h order s → s.unseen < fuel →
      ∃ order' s', freeLibraryRecurse free1 m m.owner fuel idx s = some s' ∧ Visits m h idx order s order' s' := by
  induction fuel with
  | zero => exact fun _ _ _ _ few => absurd few (Nat.not_lt_zero _)
  | succ fuel ih =>
    intro idx order s inv few
    rw [freeLibraryRecurse]
    split_ifs with before own
    · exact ⟨order, s, rfl, .refl inv, fun _ => before, fun _ _ post => post⟩
    · exact ⟨order, s, rfl, .refl inv, fun free => absurd own free, fun _ _ post => post⟩
    · have unseen : s.freed idx = .unseen := Classical.not_not.mp before
      have fewer := State.unseen_mark unseen
      have entered := inv.mark_entered unseen
      obtain ⟨lib, found⟩ := Option.ne_none_iff_exists'.mp (live m.libraries[idx] (List.getElem_mem _))
      have kept : m.libraries[idx] ∉ order := by
        rw [← inv.freed, unseen]
        exact nofun
      have read : (s.mark idx .entered).heap.library m.libraries[idx] = some lib := by
        rw [entered.heap, Heap.after_library kept]
        exact found
      obtain ⟨order', s', run, grows, seen, post⟩ :=
        dependedLoop_visits (k := fuel - 1) (fun j order s inv few' => ih j order s inv (by omega)) distinct live found
          lib.depended.length order _ entered (by omega) (State.mark_self ..) le_rfl
      have still : s'.freed idx = .entered := (grows.entered idx).mpr (State.mark_self ..)
      have kept' : m.libraries[idx] ∉ order' := by
        rw [← grows.inv.freed, still]
        exact nofun
      dsimp only
      rw [read, Option.bind_some, run, Option.bind_some]
      simp only [Bool.false_eq_true, if_false]
      have freed := frees order' m.libraries[idx] (List.getElem_mem _) kept'
      rw [grows.inv.heap, freed, Option.bind_some]
      have last := grows.inv.mark_freed distinct still own
      refine ⟨_, _, rfl, ⟨last, ?_, ?_⟩, ?_, ?_⟩
      · exact List.Subset.trans grows.more (List.subset_append_left ..)
      · intro j
        by_cases same : j = idx
        · subst same
          rw [State.mark_self, unseen]
          exact ⟨nofun, nofun⟩
        · rw [State.mark_of_ne _ _ same]
          exact (grows.entered j).trans (by rw [State.mark_of_ne _ _ same])
      · intro _
        rw [State.mark_self]
        exact nofun
      · intro acyclic above before
        have above' : ∀ j, (s.mark idx .entered).freed j = .entered →
            Relation.ReflTransGen (m.Depended h) m.libraries[j] m.libraries[idx] := by
          intro j mark
          by_cases same : j = idx
          · rw [same]
          · rw [State.mark_of_ne _ _ same] at mark
            exact (above j mark).to_reflTransGen
        refine (post acyclic above' before).snoc ?_
        rintro v ⟨⟨_, listed, lib', found', mem⟩, free⟩
        cases found.symm.trans found'
        obtain ⟨i, short, rfl⟩ := List.getElem_of_mem listed
        have done := seen ⟨i, short⟩ (by rw [List.take_length]; exact mem) free
        cases mark : s'.freed ⟨i, short⟩ with
        | unseen => exact absurd mark done
        | freed => exact (grows.inv.freed _).mp mark
        | entered =>
          -- a library that has been entered and is still to be freed closes a cycle
          have edge : m.Depended h m.libraries[idx] m.libraries[i] := ⟨List.getElem_mem _, listed, lib, found, mem⟩
          have back := above' ⟨i, short⟩ ((grows.entered _).mp mark)
          exact absurd (.head' edge back) (acyclic m.libraries[idx])



/-- The loop of `FreeLibrarian` over some of the indices. -/
theorem recurse_each (distinct : m.libraries.Nodup) (live : ∀ lib ∈ m.libraries, h.library lib ≠ none) (owns : m.ownlibs)
    {free1 : Lib → Heap Lib → Option (Heap Lib)}
    (frees : ∀ order, ∀ lib ∈ m.libraries, lib ∉ order → free1 lib (h.after order) = some (h.after (order ++ [lib])))
    {fuel : Nat} (indices : List (Fin m.libraries.length)) :
    ∀ order s, Inv m h order s → s.unseen < fuel → (∀ j, s.freed j ≠ .entered) →
      ∃ order' s', indices.foldlM (fun s i => freeLibraryRecurse free1 m m.owner fuel i s) s = some s' ∧
        Grows m h order s order' s' ∧ (∀ j ∈ indices, some m.libraries[j] ≠ m.owner → m.libraries[j] ∈ order') ∧
        (m.Acyclic h → IsPostOrder (m.Edge h) order → IsPostOrder (m.Edge h) order') := by
  induction indices with
  | nil =>
    intro order s inv _ _
    exact ⟨order, s, rfl, .refl inv, by simp, fun _ post => post⟩
  | cons idx indices ih =>
    intro order s inv few flat
    obtain ⟨mid, t, call, visits⟩ := freeLibraryRecurse_visits distinct live owns frees fuel idx order s inv few
    have flat' : ∀ j, t.freed j ≠ .entered := fun j mark => flat j ((visits.entered j).mp mark)
    have fewer : t.unseen < fuel := (visits.unseen_le inv).trans_lt few
    obtain ⟨order', s', run, grows, all, post⟩ := ih mid t visits.inv fewer flat'
    refine ⟨order', s', ?_, visits.toGrows.trans grows, ?_, ?_⟩
    · rw [List.foldlM_cons, call]
      exact run
    · intro j mem free
      rcases List.mem_cons.mp mem with rfl | mem
      · refine grows.more ((visits.inv.freed j).mp ?_)
        cases mark : t.freed j with
        | unseen => exact absurd mark (visits.seen free)
        | entered => exact absurd mark (flat' j)
        | freed => rfl
      · exact all j mem free
    · intro acyclic before
      exact post acyclic (visits.post acyclic (fun j mark => absurd mark (flat j)) before)

/-- The loop without the array. -/
theorem old_each (distinct : m.libraries.Nodup) (live : ∀ lib ∈ m.libraries, h.library lib ≠ none)
    {free1 : Lib → Heap Lib → Option (Heap Lib)}
    (frees : ∀ order, ∀ lib ∈ m.libraries, lib ∉ order → free1 lib (h.after order) = some (h.after (order ++ [lib])))
    (indices : List (Fin m.libraries.length)) :
    ∀ order, (∀ j ∈ indices, m.libraries[j] ∉ order) → indices.Nodup →
      indices.foldlM (fun h i => if some m.libraries[i] ≠ m.owner then (h.library m.libraries[i]).bind fun _ => free1 m.libraries[i] h
        else some h) (h.after order) =
      some (h.after (order ++ (indices.map fun j => m.libraries[j]).filter fun lib => some lib ≠ m.owner)) := by
  induction indices with
  | nil =>
    intro order _ _
    rw [List.map_nil, List.filter_nil, List.append_nil]
    rfl
  | cons idx indices ih =>
    intro order fresh nodup
    obtain ⟨new, nodup⟩ := List.nodup_cons.mp nodup
    have fresh' : ∀ j ∈ indices, m.libraries[j] ∉ order := fun j mem => fresh j (List.mem_cons_of_mem _ mem)
    have kept := fresh idx List.mem_cons_self
    rw [List.foldlM_cons, List.map_cons]
    by_cases own : some m.libraries[idx] = m.owner
    · rw [if_neg (not_not_intro own), List.filter_cons_of_neg (by simpa using own)]
      exact ih order fresh' nodup
    · obtain ⟨lib, found⟩ := Option.ne_none_iff_exists'.mp (live m.libraries[idx] (List.getElem_mem _))
      have read : (h.after order).library m.libraries[idx] = some lib := (Heap.after_library kept).trans found
      rw [if_pos own, read, List.filter_cons_of_pos (by simpa using own)]
      have freed := frees order m.libraries[idx] (List.getElem_mem _) kept
      change (free1 m.libraries[idx] (h.after order)).bind _ = _
      rw [freed, Option.bind_some, ih _ _ nodup, List.append_assoc]
      · rfl
      · intro j mem same
        rcases List.mem_append.mp same with old | last
        · exact fresh' j mem old
        · rw [List.mem_singleton] at last
          have : j = idx := Fin.ext (distinct.getElem_inj_iff.mp last)
          exact new (this ▸ mem)

theorem freeLibrarian_owned (owns : m.ownlibs) (free1 : Lib → Heap Lib → Option (Heap Lib)) (fuel : Nat) (calloc : Bool) :
    freeLibrarian free1 fuel calloc (some m) h =
      if calloc then
        ((List.finRange m.libraries.length).reverse.foldlM (fun s i => freeLibraryRecurse free1 m m.owner fuel i s)
          ⟨h, fun _ => .unseen⟩).map State.heap
      else
        (List.finRange m.libraries.length).reverse.foldlM
          (fun h i =>
            if some m.libraries[i] ≠ m.owner then (h.library m.libraries[i]).bind fun _ => free1 m.libraries[i] h
            else some h) h := by
  rw [freeLibrarian]
  split_ifs with some_owned alloc alloc
  · rfl
  · rfl
  all_goals
    have empty : m.libraries = [] := List.length_eq_zero_iff.mp (by simpa [owns] using some_owned)
    obtain ⟨libraries, ownlibs, owner⟩ := m
    subst empty
    rfl

/-- With enough steps `FreeLibrarian` ends, has read no library after it was freed and has passed each but the owner to
`Free1Library` once; where the array could be allocated and no dependency is cyclic or goes through the owner, each after those
that depend on it. -/
theorem freeLibrarian_frees (m : MapLib Lib) (h : Heap Lib) (calloc : Bool) (owns : m.ownlibs) (distinct : m.libraries.Nodup)
    (live : ∀ lib ∈ m.libraries, h.library lib ≠ none) :
    ∃ order h', (∀ fuel > m.libraries.length, freeLibrarian (free1Library calloc fuel) fuel calloc (some m) h = some h') ∧
      h'.passed = h.passed ++ order ∧ order.Perm (m.libraries.filter fun lib => some lib ≠ m.owner) ∧
      (∀ lib, h'.library lib = if lib ∈ order then none else h.library lib) ∧
      (calloc → m.Acyclic h → ¬ m.ThroughOwner h → ∀ u v, Relation.TransGen (m.Depended h) u v →
        some u ≠ m.owner → some v ≠ m.owner → Precedes order v u) := by
  have frees : ∀ order, ∀ lib ∈ m.libraries, lib ∉ order →
      free1Library calloc (m.libraries.length + 1) lib (h.after order) = some (h.after (order ++ [lib])) :=
    fun order lib mem kept => free1Library_after kept (live lib mem) calloc _
  -- the steps that are enough are as many as there are libraries, and one
  suffices ∃ order, freeLibrarian (free1Library calloc (m.libraries.length + 1)) (m.libraries.length + 1) calloc (some m) h =
      some (h.after order) ∧ order.Nodup ∧ (∀ lib, lib ∈ order ↔ lib ∈ m.libraries ∧ some lib ≠ m.owner) ∧
      (calloc → m.Acyclic h → IsPostOrder (m.Edge h) order) by
    obtain ⟨order, run, nodup, all, post⟩ := this
    refine ⟨order, h.after order, ?_, rfl, ?_, fun _ => rfl, ?_⟩
    · intro fuel more
      exact freeLibrarian_mono (fun _ _ _ call => free1Library_mono more call) more run
    · refine (List.perm_ext_iff_of_nodup nodup (distinct.filter _)).mpr ?_
      intro lib
      rw [List.mem_filter, decide_eq_true_eq]
      exact all lib
    · intro alloc acyclic apart u v path free free'
      have listed : u ∈ m.libraries := by
        obtain ⟨_, ⟨mem, _⟩, _⟩ := Relation.TransGen.head'_iff.mp path
        exact mem
      exact (post alloc acyclic).path ((all u).mpr ⟨listed, free⟩) (MapLib.edge_path apart path free')
  rw [freeLibrarian_owned owns]
  cases calloc with
  | false =>
    have nodup : (List.finRange m.libraries.length).reverse.Nodup := List.nodup_reverse.mpr (List.nodup_finRange _)
    have run := old_each distinct live frees (List.finRange m.libraries.length).reverse [] (by simp) nodup
    rw [Heap.after_nil] at run
    refine ⟨_, run, ?_, ?_, nofun⟩
    · refine List.Nodup.filter _ (nodup.map ?_)
      intro i j eq
      exact Fin.ext (distinct.getElem_inj_iff.mp eq)
    · intro lib
      simp
  | true =>
    have start : Inv m h [] ⟨h, fun _ => .unseen⟩ := ⟨Heap.after_nil.symm, by simp, by simp, List.nodup_nil⟩
    obtain ⟨order, s, run, grows, all, post⟩ := recurse_each distinct live owns frees
      (List.finRange m.libraries.length).reverse [] _ start (Nat.lt_succ_of_le (State.unseen_le _)) (fun _ => nofun)
    refine ⟨order, ?_, grows.inv.nodup, ?_, fun _ acyclic => post acyclic .nil⟩
    · rw [if_pos rfl, run, Option.map_some, grows.inv.heap]
    · refine fun lib => ⟨grows.inv.listed lib, ?_⟩
      rintro ⟨mem, free⟩
      obtain ⟨i, short, rfl⟩ := List.getElem_of_mem mem
      exact all ⟨i, short⟩ (by simp) free

end Spec

/-! ### Two libraries -/

def twoLibs : MapLib (Fin 2) := ⟨List.finRange 2, true, none⟩

/-- The first depends on the second. -/
def twoHeap : Heap (Fin 2) := ⟨fun lib => if (lib : Nat) = 1 then some ⟨[lib.rev], none⟩ else some ⟨[], none⟩, []⟩

theorem twoLibs_depended {u v : Fin 2} (step : twoLibs.Depended twoHeap u v) : u = 1 ∧ v = 0 := by
  obtain ⟨-, -, lib, found, mem⟩ := step
  rw [twoHeap] at found
  dsimp only at found
  split_ifs at found with second
  · cases found
    obtain rfl : u = 1 := Fin.ext second
    exact ⟨rfl, List.mem_singleton.mp mem⟩
  · cases found
    cases mem

theorem twoLibs_acyclic : twoLibs.Acyclic twoHeap := by
  intro u path
  obtain ⟨_, first, _⟩ := Relation.TransGen.head'_iff.mp path
  obtain ⟨_, _, last⟩ := Relation.TransGen.tail'_iff.mp path
  exact absurd ((twoLibs_depended first).1.symm.trans (twoLibs_depended last).2) (by decide)

theorem twoLibs_apart : ¬ twoLibs.ThroughOwner twoHeap := by
  rintro ⟨_, _, _, own, _⟩
  cases own

theorem twoLibs_path : Relation.TransGen (twoLibs.Depended twoHeap) 1 0 := by
  refine .single ⟨by decide, by decide, _, rfl, ?_⟩
  exact List.mem_singleton_self _

theorem freeLibrarian_frees_two : ∃ order h',
    freeLibrarian (free1Library true 3) 3 true (some twoLibs) twoHeap = some h' ∧ h'.passed = order ∧
      order.Perm [0, 1] ∧ Precedes order 0 1 := by
  obtain ⟨order, h', run, passed, perm, -, post⟩ := freeLibrarian_frees twoLibs twoHeap true rfl (by decide) (by decide)
  refine ⟨order, h', run 3 (by decide), passed, perm, ?_⟩
  exact post rfl twoLibs_acyclic twoLibs_apart 1 0 twoLibs_path nofun nofun

/-- Without the array the libraries are freed from the last to the first, whatever depends on them. -/
theorem freeLibrarian_without_array : ¬ ∀ (m : MapLib (Fin 2)) (h : Heap (Fin 2)) (calloc : Bool), m.ownlibs →
    m.libraries.Nodup → (∀ lib ∈ m.libraries, h.library lib ≠ none) → m.Acyclic h → ¬ m.ThroughOwner h →
    ∀ fuel h', freeLibrarian (free1Library calloc fuel) fuel calloc (some m) h = some h' →
      ∀ u v, Relation.TransGen (m.Depended h) u v → some u ≠ m.owner → some v ≠ m.owner → Precedes h'.passed v u := by
  intro ordered
  have run : (freeLibrarian (free1Library false 1) 1 false (some twoLibs) twoHeap).map Heap.passed = some [1, 0] := by decide
  obtain ⟨h', done, passed⟩ := Option.map_eq_some_iff.mp run
  obtain ⟨before, after, eq, mem⟩ :=
    ordered twoLibs twoHeap false rfl (by decide) (by decide) twoLibs_acyclic twoLibs_apart 1 h' done 1 0 twoLibs_path nofun nofun
  rw [passed] at eq
  cases before with
  | nil => cases mem
  | cons lib before =>
    obtain ⟨rfl, rest⟩ := List.cons.inj eq
    cases before with
    | nil =>
      obtain ⟨two, -⟩ := List.cons.inj rest
      exact absurd two (by decide)
    | cons _ before =>
      have := congrArg List.length rest
      simp at this

end Box64.Librarian.Teardown
