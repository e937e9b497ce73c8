import Mathlib.Data.Fin.VecNotation
import Mathlib.Data.Fintype.Card
import Mathlib.Data.List.Nodup
import Mathlib.Logic.Function.Basic
import Mathlib.Tactic.FinCases

/-!
# Merging library maps

`MapLibAddMapLib` adds the libraries of one map to another, with the maps that the new ones own, which are freed on the
way. A library may be in any number of maps, and the maps may refer to each other.
-/

namespace Box64.Librarian

/-- What each `lib_t` lists, until it is freed, and the `maplib` of each `library_t`. -/
structure Heap (Lib MapLib : Type*) where
  libraries : MapLib → Option (List (Option Lib))
  maplib : Lib → Option MapLib

namespace Heap

variable {Lib MapLib : Type*}

section Functions

variable [DecidableEq Lib] [DecidableEq MapLib]

def libraryInMapLib (h : Heap Lib MapLib) (maplib : MapLib) (lib : Lib) : Option Bool :=
  (h.libraries maplib).map fun libraries => some lib ∈ libraries

def mapLibAddLib (h : Heap Lib MapLib) (maplib : MapLib) (lib : Lib) : Option (Heap Lib MapLib) :=
  (h.libraries maplib).map fun libraries =>
    if some lib ∈ libraries then h
    else { h with libraries := Function.update h.libraries maplib (some (libraries ++ [some lib])) }

/-- `free`, of a `lib_t` that has not been freed, or of a null pointer. -/
def free (h : Heap Lib MapLib) : Option MapLib → Option (Heap Lib MapLib)
  | none => some h
  | some maplib => (h.libraries maplib).map fun _ => { h with libraries := Function.update h.libraries maplib none }

def clearMapLib (h : Heap Lib MapLib) (lib : Lib) : Heap Lib MapLib :=
  { h with maplib := Function.update h.maplib lib none }

/-- The loop of `MapLibAddMapLib` from the index `i`, with a bound on its steps and calls. The result is `none` where the
bound is reached or a `lib_t` is used that has been freed. -/
def addMapLibFrom : Nat → Heap Lib MapLib → MapLib → MapLib → Nat → Option (Heap Lib MapLib)
  | 0, _, _, _, _ => none
  | fuel + 1, h, dest, src, i =>
    (h.libraries src).bind fun libraries =>
      match libraries[i]? with
      | none => some h
      | some none => addMapLibFrom fuel h dest src (i + 1)
      | some (some lib) =>
        (h.libraryInMapLib dest lib).bind fun known =>
          if known then addMapLibFrom fuel h dest src (i + 1)
          else
            (h.mapLibAddLib dest lib).bind fun h =>
              match h.maplib lib with
              | none => addMapLibFrom fuel h dest src (i + 1)
              | some maplib =>
                if src ≠ maplib then
                  (addMapLibFrom fuel h dest maplib 0).bind fun h =>
                    (h.free (h.maplib lib)).bind fun h => addMapLibFrom fuel (h.clearMapLib lib) dest src (i + 1)
                else addMapLibFrom fuel h dest src (i + 1)

def mapLibAddMapLib (fuel : Nat) (h : Heap Lib MapLib) (dest : MapLib) : Option MapLib → Option (Heap Lib MapLib)
  | none => some h
  | some src => addMapLibFrom fuel h dest src 0

end Functions

/-! ### What is merged -/

/-- What a map lists; a null pointer stands for an empty one. -/
def entries (h : Heap Lib MapLib) : Option MapLib → Option (List (Option Lib))
  | none => some []
  | some maplib => h.libraries maplib

/-- Each local library is the first entry of its own maplib. -/
def OwnFirst (h : Heap Lib MapLib) : Prop :=
  ∀ lib maplib, h.maplib lib = some maplib → ∃ rest, h.libraries maplib = some (some lib :: rest)

/-- The libraries reached from `start` by following the maplibs of those that `known` does not list. -/
inductive Absorbed (h : Heap Lib MapLib) (known start : List (Option Lib)) : Lib → Prop where
  | entry {lib : Lib} (mem : some lib ∈ start) : Absorbed h known start lib
  | follow {lib next : Lib} {maplib : MapLib} {libraries : List (Option Lib)} (reached : Absorbed h known start lib)
      (new : some lib ∉ known) (own : h.maplib lib = some maplib) (lists : h.libraries maplib = some libraries)
      (mem : some next ∈ libraries) : Absorbed h known start next

/-- A merge of the entries `start` of `src` into `dest`, which listed `known`, has added `added`. -/
structure Merged (h : Heap Lib MapLib) (dest src : MapLib) (known start : List (Option Lib)) (added : List Lib)
    (h' : Heap Lib MapLib) : Prop where
  listed : h'.libraries dest = some (known ++ added.map some)
  fresh : ∀ lib ∈ added, some lib ∉ known
  nodup : added.Nodup
  covers : ∀ lib, some lib ∈ start → some lib ∈ known ++ added.map some
  closed : ∀ lib ∈ added, ∀ maplib ≠ src, h.maplib lib = some maplib → ∀ libraries,
    h.libraries maplib = some libraries → ∀ next, some next ∈ libraries → some next ∈ known ++ added.map some
  reached : ∀ lib ∈ added, h.Absorbed known start lib
  same_maplib : ∀ lib ∉ added, h'.maplib lib = h.maplib lib
  same_libraries : ∀ maplib ≠ dest, (∀ lib ∈ added, h.maplib lib ≠ some maplib) → h'.libraries maplib = h.libraries maplib

/-- `OwnFirst`, of the libraries that `known` does not list. -/
def OwnFirstBut (h : Heap Lib MapLib) (known : List (Option Lib)) : Prop :=
  ∀ lib maplib, some lib ∉ known → h.maplib lib = some maplib → ∃ rest, h.libraries maplib = some (some lib :: rest)

variable {h h' : Heap Lib MapLib} {dest src : MapLib} {known start : List (Option Lib)} {added : List Lib}

theorem OwnFirstBut.ne_dest (own : h.OwnFirstBut known) (listed : h.libraries dest = some known) {lib : Lib}
    {maplib : MapLib} (new : some lib ∉ known) (owns : h.maplib lib = some maplib) : maplib ≠ dest := by
  rintro rfl
  obtain ⟨rest, first⟩ := own lib maplib new owns
  rw [listed] at first
  cases first
  exact new List.mem_cons_self

theorem OwnFirstBut.injective (own : h.OwnFirstBut known) {lib lib' : Lib} {maplib : MapLib} (new : some lib ∉ known)
    (new' : some lib' ∉ known) (owns : h.maplib lib = some maplib) (owns' : h.maplib lib' = some maplib) :
    lib = lib' := by
  obtain ⟨rest, first⟩ := own lib maplib new owns
  obtain ⟨rest', first'⟩ := own lib' maplib new' owns'
  rw [first] at first'
  cases first'
  rfl

theorem Absorbed.mono {start' : List (Option Lib)} {lib : Lib}
    (more : ∀ lib, some lib ∈ start → h.Absorbed known start' lib) (reached : h.Absorbed known start lib) :
    h.Absorbed known start' lib := by
  induction reached with
  | entry mem => exact more _ mem
  | follow _ new owns lists mem ih => exact .follow ih new owns lists mem

namespace Merged

/-- A library that has not been added keeps its maplib, and that is not freed. -/
theorem keeps (merged : Merged h dest src known start added h') (own : h.OwnFirstBut known)
    (listed : h.libraries dest = some known) {lib : Lib} (out : some lib ∉ known ++ added.map some) :
    h'.maplib lib = h.maplib lib ∧ ∀ maplib, h.maplib lib = some maplib → h'.libraries maplib = h.libraries maplib := by
  have new : some lib ∉ known := fun mem => out (List.mem_append_left _ mem)
  have notAdded : lib ∉ added := fun mem => out (List.mem_append_right _ (List.mem_map_of_mem mem))
  refine ⟨merged.same_maplib lib notAdded, ?_⟩
  intro maplib owns
  refine merged.same_libraries maplib (own.ne_dest listed new owns) ?_
  intro other mem owns'
  obtain rfl := own.injective new (merged.fresh other mem) owns owns'
  exact notAdded mem

theorem ownFirst (merged : Merged h dest src known start added h') (own : h.OwnFirstBut known)
    (listed : h.libraries dest = some known) : h'.OwnFirstBut (known ++ added.map some) := by
  intro lib maplib out owns
  obtain ⟨same, lists⟩ := merged.keeps own listed out
  rw [same] at owns
  rw [lists maplib owns]
  exact own lib maplib (fun mem => out (List.mem_append_left _ mem)) owns

theorem refl (listed : h.libraries dest = some known) (there : ∀ lib, some lib ∈ start → some lib ∈ known) :
    Merged h dest src known start [] h where
  listed := by rw [List.map_nil, List.append_nil, listed]
  fresh _ mem := (List.not_mem_nil mem).elim
  nodup := List.nodup_nil
  covers lib mem := List.mem_append_left _ (there lib mem)
  closed _ mem := (List.not_mem_nil mem).elim
  reached _ mem := (List.not_mem_nil mem).elim
  same_maplib _ _ := rfl
  same_libraries _ _ _ := rfl

/-- What is absorbed after a merge was so before it. -/
theorem absorbed {start' : List (Option Lib)} (merged : Merged h dest src known start added h')
    (own : h.OwnFirstBut known) (listed : h.libraries dest = some known) {lib : Lib}
    (reached : h'.Absorbed (known ++ added.map some) start' lib) : h.Absorbed known (start ++ start') lib := by
  induction reached with
  | entry mem => exact .entry (List.mem_append_right _ mem)
  | follow _ new owns lists mem ih =>
    obtain ⟨same, kept⟩ := merged.keeps own listed new
    rw [same] at owns
    rw [kept _ owns] at lists
    exact .follow ih (fun old => new (List.mem_append_left _ old)) owns lists mem

/-- One merge after another. -/
theorem trans {start' : List (Option Lib)} {added' : List Lib} {h'' : Heap Lib MapLib}
    (first : Merged h dest src known start added h') (own : h.OwnFirstBut known)
    (listed : h.libraries dest = some known)
    (second : Merged h' dest src (known ++ added.map some) start' added' h'') :
    Merged h dest src known (start ++ start') (added ++ added') h'' := by
  have both : known ++ (added ++ added').map some = known ++ added.map some ++ added'.map some := by
    rw [List.map_append, List.append_assoc]
  have later (lib : Lib) (mem : lib ∈ added') : some lib ∉ known ∧ lib ∉ added := by
    have out := second.fresh lib mem
    exact ⟨fun old => out (List.mem_append_left _ old),
      fun old => out (List.mem_append_right _ (List.mem_map_of_mem old))⟩
  constructor
  case listed => rw [both, second.listed]
  case fresh =>
    intro lib mem
    obtain mem | mem := List.mem_append.mp mem
    · exact first.fresh lib mem
    · exact (later lib mem).1
  case nodup =>
    refine List.nodup_append.mpr ⟨first.nodup, second.nodup, ?_⟩
    rintro lib mem other mem' rfl
    exact (later lib mem').2 mem
  case covers =>
    intro lib mem
    rw [both]
    obtain mem | mem := List.mem_append.mp mem
    · exact List.mem_append_left _ (first.covers lib mem)
    · exact second.covers lib mem
  case closed =>
    intro lib mem maplib ne owns libraries lists next inside
    rw [both]
    obtain mem | mem := List.mem_append.mp mem
    · exact List.mem_append_left _ (first.closed lib mem maplib ne owns libraries lists next inside)
    · obtain ⟨same, kept⟩ := first.keeps own listed (second.fresh lib mem)
      exact second.closed lib mem maplib ne (same.trans owns) libraries ((kept maplib owns).trans lists) next inside
  case reached =>
    intro lib mem
    obtain mem | mem := List.mem_append.mp mem
    · exact (first.reached lib mem).mono fun lib entry => .entry (List.mem_append_left _ entry)
    · exact first.absorbed own listed (second.reached lib mem)
  case same_maplib =>
    intro lib out
    rw [second.same_maplib lib fun mem => out (List.mem_append_right _ mem)]
    exact first.same_maplib lib fun mem => out (List.mem_append_left _ mem)
  case same_libraries =>
    intro maplib ne unowned
    rw [second.same_libraries maplib ne, first.same_libraries maplib ne]
    · exact fun lib mem => unowned lib (List.mem_append_left _ mem)
    · intro lib mem
      rw [first.same_maplib lib (later lib mem).2]
      exact unowned lib (List.mem_append_right _ mem)

/-- The destination lists what it did before, and what is absorbed. -/
theorem mem_iff (merged : Merged h dest src known start added h') (there : h.libraries src = some start) (lib : Lib) :
    some lib ∈ known ++ added.map some ↔ some lib ∈ known ∨ h.Absorbed known start lib := by
  constructor
  · intro mem
    refine (List.mem_append.mp mem).imp_right fun mem => ?_
    obtain ⟨other, mem, same⟩ := List.mem_map.mp mem
    cases same
    exact merged.reached lib mem
  · rintro (old | reached)
    · exact List.mem_append_left _ old
    induction reached with
    | entry mem => exact merged.covers _ mem
    | @follow lib next maplib libraries _ new owns lists mem ih =>
      obtain ⟨other, added, same⟩ := List.mem_map.mp ((List.mem_append.mp ih).resolve_left new)
      cases same
      by_cases read : maplib = src
      · subst read
        obtain rfl := Option.some.inj (lists.symm.trans there)
        exact merged.covers next mem
      · exact merged.closed lib added maplib read owns libraries lists next mem

theorem nodup_append (merged : Merged h dest src known start added h') (once : known.Nodup) :
    (known ++ added.map some).Nodup := by
  refine List.nodup_append.mpr ⟨once, merged.nodup.map (Option.some_injective _), ?_⟩
  rintro entry old _ mem rfl
  obtain ⟨lib, mem', rfl⟩ := List.mem_map.mp mem
  exact merged.fresh lib mem' old

section Steps

variable [DecidableEq MapLib] {lib : Lib} {maplib : MapLib}

/-- A library alone, without what its maplib lists unless that is the map being read. -/
theorem one (new : some lib ∉ known)
    (plain : ∀ maplib ≠ src, h.maplib lib ≠ some maplib) :
    Merged h dest src known [some lib] [lib]
      { h with libraries := Function.update h.libraries dest (some (known ++ [some lib])) } where
  listed := Function.update_self ..
  fresh := List.forall_mem_singleton.mpr new
  nodup := List.nodup_singleton lib
  covers _ mem := List.mem_append_right _ mem
  closed := List.forall_mem_singleton.mpr fun maplib ne owns => absurd owns (plain maplib ne)
  reached := List.forall_mem_singleton.mpr (.entry List.mem_cons_self)
  same_maplib _ _ := rfl
  same_libraries _ ne _ := Function.update_of_ne ne ..

/-- A library with what its maplib lists, which is freed afterwards. -/
theorem owner {entries : List (Option Lib)} (merged : Merged h dest maplib known (some lib :: entries) (lib :: added) h')
    (own : h.OwnFirstBut known) (dest_lists : h.libraries dest = some known) (owns : h.maplib lib = some maplib)
    (lists : h.libraries maplib = some entries) [DecidableEq Lib] :
    Merged h dest src known [some lib] (lib :: added)
      (clearMapLib { h' with libraries := Function.update h'.libraries maplib none } lib) := by
  have new : some lib ∉ known := merged.fresh lib List.mem_cons_self
  have ne_dest : maplib ≠ dest := own.ne_dest dest_lists new owns
  constructor
  case listed => exact (Function.update_of_ne ne_dest.symm ..).trans merged.listed
  case fresh => exact merged.fresh
  case nodup => exact merged.nodup
  case covers =>
    intro other mem
    exact merged.covers other (List.mem_cons.mpr (Or.inl (List.mem_singleton.mp mem)))
  case closed =>
    intro other mem maplib' _ owns' libraries lists' next inside
    by_cases same : maplib' = maplib
    · subst same
      obtain rfl := Option.some.inj (lists'.symm.trans lists)
      exact merged.covers next (List.mem_cons_of_mem _ inside)
    · exact merged.closed other mem maplib' same owns' libraries lists' next inside
  case reached =>
    intro other mem
    refine (merged.reached other mem).mono fun next entry => ?_
    have first : h.Absorbed known [some lib] lib := .entry List.mem_cons_self
    obtain same | inside := List.mem_cons.mp entry
    · cases same
      exact first
    · exact .follow first new owns lists inside
  case same_maplib =>
    intro other out
    have ne : other ≠ lib := fun same => out (same ▸ List.mem_cons_self)
    exact (Function.update_of_ne ne ..).trans (merged.same_maplib other out)
  case same_libraries =>
    intro maplib' ne unowned
    have other : maplib' ≠ maplib := by
      rintro rfl
      exact unowned lib List.mem_cons_self owns
    exact (Function.update_of_ne other ..).trans (merged.same_libraries maplib' ne unowned)

end Steps

end Merged

/-! ### The loop -/

/-- A library that is not yet listed owns the map being read only before its own entry has been. -/
def Busy (h : Heap Lib MapLib) (known : List (Option Lib)) (src : MapLib) (i : Nat) : Prop :=
  ∀ lib, some lib ∉ known → h.maplib lib = some src → i = 0

theorem Busy.first {entries : List (Option Lib)} {i : Nat} (busy : h.Busy known src i) (own : h.OwnFirstBut known)
    (there : h.libraries src = some entries) {lib : Lib} (new : some lib ∉ known) (owns : h.maplib lib = some src) :
    entries[i]? = some (some lib) := by
  obtain ⟨rest, lists⟩ := own lib src new owns
  rw [there] at lists
  cases lists
  rw [busy lib new owns]
  rfl

/-- After the merge of one entry, no library that is still missing owns the map being read. -/
theorem Busy.next {entries : List (Option Lib)} {entry : Option Lib} {i : Nat} (busy : h.Busy known src i)
    (own : h.OwnFirstBut known) (listed : h.libraries dest = some known) (there : h.libraries src = some entries)
    (here : entries[i]? = some entry) (merged : Merged h dest src known [entry] added h') :
    h'.Busy (known ++ added.map some) src (i + 1) := by
  intro lib out owns
  obtain ⟨same, -⟩ := merged.keeps own listed out
  rw [same] at owns
  have first := busy.first own there (fun old => out (List.mem_append_left _ old)) owns
  rw [here] at first
  cases first
  exact absurd (merged.covers lib List.mem_cons_self) out

section Loop

variable [DecidableEq Lib] [DecidableEq MapLib]

/-- How many libraries are not listed. -/
def missing [Fintype Lib] (known : List (Option Lib)) : Nat := (Finset.univ.filter fun lib => some lib ∉ known).card

theorem missing_le [Fintype Lib] (known : List (Option Lib)) (added : List Lib) :
    missing (known ++ added.map some) ≤ missing known := by
  refine Finset.card_le_card fun other out => ?_
  rw [Finset.mem_filter] at out ⊢
  exact ⟨out.1, fun old => out.2 (List.mem_append_left _ old)⟩

theorem missing_lt [Fintype Lib] {lib : Lib} (new : some lib ∉ known) : missing (known ++ [some lib]) < missing known := by
  refine Finset.card_lt_card (Finset.ssubset_iff_of_subset ?_ |>.mpr ⟨lib, ?_, ?_⟩)
  · intro other out
    rw [Finset.mem_filter] at out ⊢
    exact ⟨out.1, fun old => out.2 (List.mem_append_left _ old)⟩
  · exact Finset.mem_filter.mpr ⟨Finset.mem_univ lib, new⟩
  · rw [Finset.mem_filter]
    exact fun out => out.2 (List.mem_append_right _ List.mem_cons_self)

/-- What the loop comes to from some number of steps on. -/
def Ends (h : Heap Lib MapLib) (dest src : MapLib) (i : Nat) (h' : Heap Lib MapLib) : Prop :=
  ∃ enough, ∀ fuel, enough ≤ fuel → addMapLibFrom fuel h dest src i = some h'

/-- The loop comes from one index to the next, in the heap `h'`. -/
def Steps (h : Heap Lib MapLib) (dest src : MapLib) (i : Nat) (h' : Heap Lib MapLib) : Prop :=
  ∃ enough, ∀ fuel, enough ≤ fuel → addMapLibFrom (fuel + 1) h dest src i = addMapLibFrom fuel h' dest src (i + 1)

theorem Steps.ends {h'' : Heap Lib MapLib} {i : Nat} (steps : h.Steps dest src i h') (ends : h'.Ends dest src (i + 1) h'') :
    h.Ends dest src i h'' := by
  obtain ⟨enough, steps⟩ := steps
  obtain ⟨enough', ends⟩ := ends
  refine ⟨max enough enough' + 1, fun fuel le => ?_⟩
  obtain ⟨fuel, rfl⟩ := Nat.exists_eq_add_of_le' (Nat.le_of_add_left_le le)
  rw [steps fuel (by omega), ends fuel (by omega)]

theorem addMapLibFrom_merges [Fintype Lib] (h : Heap Lib MapLib) (known entries : List (Option Lib)) (src : MapLib)
    (i : Nat) (own : h.OwnFirstBut known) (listed : h.libraries dest = some known)
    (there : h.libraries src = some entries) (busy : h.Busy known src i) :
    ∃ added h', Merged h dest src known (entries.drop i) added h' ∧ h.Ends dest src i h' := by
  cases here : entries[i]? with
  | none =>
    refine ⟨[], h, .refl listed ?_, 1, ?_⟩
    · rw [List.drop_eq_nil_of_le (List.getElem?_eq_none_iff.mp here)]
      exact fun _ mem => (List.not_mem_nil mem).elim
    · intro fuel le
      obtain ⟨fuel, rfl⟩ := Nat.exists_eq_add_of_le' le
      rw [addMapLibFrom, there, Option.bind_some, here]
  | some entry =>
    have rest : entries.drop i = [entry] ++ entries.drop (i + 1) := by
      obtain ⟨lt, here⟩ := List.getElem?_eq_some_iff.mp here
      rw [List.drop_eq_getElem_cons lt, here, List.singleton_append]
    have lt : i < entries.length := (List.getElem?_eq_some_iff.mp here).1
    have go {added : List Lib} {h₁ : Heap Lib MapLib} (merged : Merged h dest src known [entry] added h₁)
        (there₁ : h₁.libraries src = some entries) (steps : h.Steps dest src i h₁) :
        ∃ added h', Merged h dest src known (entries.drop i) added h' ∧ h.Ends dest src i h' := by
      obtain ⟨added', h', merged', ends⟩ := addMapLibFrom_merges h₁ (known ++ added.map some) entries src (i + 1)
        (merged.ownFirst own listed) merged.listed there₁ (busy.next own listed there here merged)
      rw [rest]
      exact ⟨added ++ added', h', merged.trans own listed merged', steps.ends ends⟩
    cases entry with
    | none =>
      refine go (.refl listed fun lib mem => by simp at mem) there ⟨0, fun fuel _ => ?_⟩
      rw [addMapLibFrom, there, Option.bind_some, here]
    | some lib =>
      by_cases known_lib : some lib ∈ known
      · refine go (.refl listed ?_) there ⟨0, fun fuel _ => ?_⟩
        · intro other mem
          rwa [List.mem_singleton.mp mem]
        · rw [addMapLibFrom, there, Option.bind_some, here]
          simp only [libraryInMapLib, listed, Option.map_some, Option.bind_some, known_lib, decide_true, if_true]
      have ne_dest : src ≠ dest := by
        rintro rfl
        rw [listed] at there
        cases there
        exact known_lib (List.mem_of_getElem? here)
      let h₁ : Heap Lib MapLib :=
        { h with libraries := Function.update h.libraries dest (some (known ++ [some lib])) }
      have there₁ : h₁.libraries src = some entries := (Function.update_of_ne ne_dest ..).trans there
      cases owns : h.maplib lib with
      | none =>
        refine go (.one known_lib fun maplib _ own => ?_) there₁ ⟨0, fun fuel _ => ?_⟩
        · rw [owns] at own
          cases own
        · rw [addMapLibFrom, there, Option.bind_some, here]
          simp only [libraryInMapLib, mapLibAddLib, listed, Option.map_some, Option.bind_some, known_lib, decide_false,
            Bool.false_eq_true, if_false, owns]
      | some maplib =>
        by_cases own_map : src = maplib
        · refine go (.one known_lib fun maplib' ne own => ?_) there₁ ⟨0, fun fuel _ => ?_⟩
          · rw [owns] at own
            cases own
            exact ne own_map.symm
          · rw [addMapLibFrom, there, Option.bind_some, here]
            simp only [libraryInMapLib, mapLibAddLib, listed, Option.map_some, Option.bind_some, known_lib, decide_false,
              Bool.false_eq_true, if_false, owns, own_map, ne_eq, not_true_eq_false]
        · obtain ⟨others, lists⟩ := own lib maplib known_lib owns
          have first : Merged h dest maplib known [some lib] [lib] h₁ := by
            refine .one known_lib fun maplib' ne own => ?_
            rw [owns] at own
            cases own
            exact ne rfl
          have lists₁ : h₁.libraries maplib = some (some lib :: others) :=
            (Function.update_of_ne (own.ne_dest listed known_lib owns) ..).trans lists
          obtain ⟨added₂, h₂, second, enough, ends⟩ := addMapLibFrom_merges h₁ (known ++ [some lib])
            (some lib :: others) maplib 0 (first.ownFirst own listed) first.listed lists₁ fun _ _ _ => rfl
          have whole : Merged h dest maplib known (some lib :: some lib :: others) (lib :: added₂) h₂ :=
            first.trans own listed second
          have kept : h₂.maplib lib = some maplib := by
            rw [second.same_maplib lib fun mem => second.fresh lib mem (List.mem_append_right _ List.mem_cons_self)]
            exact owns
          have live : h₂.libraries maplib = some (some lib :: others) := by
            rw [second.same_libraries maplib (own.ne_dest listed known_lib owns), lists₁]
            intro other mem owns'
            obtain rfl := own.injective known_lib (fun old => second.fresh other mem (List.mem_append_left _ old)) owns owns'
            exact second.fresh lib mem (List.mem_append_right _ List.mem_cons_self)
          have there₂ : h₂.libraries src = some entries := by
            rw [whole.same_libraries src ne_dest, there]
            intro other mem owns'
            have entry := busy.first own there (whole.fresh other mem) owns'
            rw [here] at entry
            cases entry
            exact own_map (Option.some.inj (owns'.symm.trans owns))
          refine go (whole.owner own listed owns lists) ?_ ⟨enough, fun fuel le => ?_⟩
          · exact (Function.update_of_ne own_map ..).trans there₂
          · rw [addMapLibFrom, there, Option.bind_some, here]
            simp only [libraryInMapLib, mapLibAddLib, listed, Option.map_some, Option.bind_some, known_lib, decide_false,
              Bool.false_eq_true, if_false, owns]
            rw [if_pos own_map, ends fuel le, Option.bind_some, kept, free, live]
            rfl
termination_by (missing known, entries.length - i)
decreasing_by
  · exact Prod.Lex.right' _ (missing_le known added) (by omega)
  · exact Prod.Lex.left _ _ (missing_lt known_lib)

/-- The merge ends without using a maplib that has been freed. What the destination listed stays in front, nothing is
listed twice, and it lists what it did before and the libraries absorbed. -/
theorem mapLibAddMapLib_merges [Fintype Lib] {h : Heap Lib MapLib} {dest : MapLib} {src : Option MapLib}
    {known start : List (Option Lib)} (own : h.OwnFirst) (listed : h.libraries dest = some known)
    (lists : h.entries src = some start) :
    ∃ (added : List Lib) (h' : Heap Lib MapLib),
      (∃ enough, ∀ fuel, enough ≤ fuel → mapLibAddMapLib fuel h dest src = some h') ∧
      h'.libraries dest = some (known ++ added.map some) ∧ (known.Nodup → (known ++ added.map some).Nodup) ∧
      ∀ lib, some lib ∈ known ++ added.map some ↔ some lib ∈ known ∨ h.Absorbed known start lib := by
  cases src with
  | none =>
    cases lists
    refine ⟨[], h, ⟨0, fun _ _ => rfl⟩, by rw [listed, List.map_nil, List.append_nil], ?_, fun lib => ?_⟩
    · rw [List.map_nil, List.append_nil]
      exact id
    · rw [List.map_nil, List.append_nil]
      refine (or_iff_left fun reached => ?_).symm
      induction reached with
      | entry mem => cases mem
      | follow _ _ _ _ _ ih => exact ih
  | some src =>
    obtain ⟨added, h', merged, ends⟩ := addMapLibFrom_merges h known start src 0 (fun lib maplib _ => own lib maplib)
      listed lists fun _ _ _ => rfl
    exact ⟨added, h', ends, merged.listed, merged.nodup_append, merged.mem_iff lists⟩

/-- Two libraries that list each other, and an empty map. -/
def twoLibs : Heap (Fin 2) (Fin 3) where
  libraries := ![some [some 0, some 1], some [some 1, some 0], some []]
  maplib := ![some (Fin.castSucc 0), some (Fin.castSucc 1)]

theorem twoLibs_ownFirst : twoLibs.OwnFirst := by
  intro lib maplib owns
  fin_cases lib
  · cases owns
    exact ⟨_, rfl⟩
  · cases owns
    exact ⟨_, rfl⟩

theorem mapLibAddMapLib_twoLibs : ∃ (added : List (Fin 2)) (h' : Heap (Fin 2) (Fin 3)),
    (∃ enough, ∀ fuel, enough ≤ fuel → mapLibAddMapLib fuel twoLibs 2 (some 0) = some h') ∧
      h'.libraries 2 = some ([] ++ added.map some) ∧
      (([] : List (Option (Fin 2))).Nodup → ([] ++ added.map some).Nodup) ∧
      ∀ lib, some lib ∈ [] ++ added.map some ↔ some lib ∈ [] ∨ twoLibs.Absorbed [] [some 0, some 1] lib :=
  mapLibAddMapLib_merges twoLibs_ownFirst rfl rfl

end Loop

end Heap

end Box64.Librarian
