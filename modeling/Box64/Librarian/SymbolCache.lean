import Box64.Lib.Memo
import Box64.Librarian.Symbols

/-!
# The symbol cache of a library

The lookups of `library.c` through `bridgemap`, whose key is the versioned name alone. The result of a step is `none`
where `VersionnedName` reads a null pointer.
-/

namespace Box64.Librarian

/-- `VersionnedName`, which has a null `v` to measure for a version below -1 with a name. -/
def versionnedName (name : String) (ver : Int) (vername : Option String) : Option String :=
  if ver = -1 then some name
  else
    let v := if ver = 0 then some "" else if ver = 1 then some "*" else none
    if v = none ∧ vername = none then some name
    else (if ver > 1 then vername else v).map fun v => name ++ "@" ++ v

/-- The offset and the size that a lookup of the library finds. -/
abbrev Getter : Type := String → Int → Option String → Int → Option (BitVec 64 × BitVec 64)

structure Library where
  active : Bool
  get : Getter
  getnoweak : Getter
  getlocal : Getter

abbrev BridgeMap : Type := String → Option (BitVec 64 × BitVec 64)

inductive LookupKind where
  | symbol
  | noWeak
  | localSymbol
deriving DecidableEq

structure Lookup where
  kind : LookupKind
  name : String
  version : Int
  vername : Option String
  inLocal : Int

namespace Library

/-- The map and the answer after a lookup. -/
abbrev Result : Type := BridgeMap × Option (BitVec 64 × BitVec 64)

/-- `lib->get(...)` gives the size, not the end. -/
def range (found : BitVec 64 × BitVec 64) : BitVec 64 × BitVec 64 := (found.1, found.2 + found.1)

def put (bridgemap : BridgeMap) (name : String) (version : Int) (vername : Option String)
    (found : BitVec 64 × BitVec 64) : Option Result := do
  let symbol ← versionnedName name version vername
  some (Function.update bridgemap symbol (some found), some found)

/-- `GetLibSymbolStartEnd` and `GetLibLocalSymbolStartEnd`, which differ in the lookup they make. -/
def cachedFirst (lib : Library) (get : Getter) (bridgemap : BridgeMap) (name : String) (version : Int)
    (vername : Option String) (inLocal : Int) : Option Result :=
  if name = "" ∨ ¬ lib.active then some (bridgemap, none)
  else do
    let k ← versionnedName name version vername
    match bridgemap k with
    | some cached => some (bridgemap, some cached)
    | none =>
      match get name version vername inLocal with
      | some found => put bridgemap name version vername (range found)
      | none => some (bridgemap, none)

def getLibSymbolStartEnd (lib : Library) : BridgeMap → String → Int → Option String → Int → Option Result :=
  lib.cachedFirst lib.get

def getLibLocalSymbolStartEnd (lib : Library) : BridgeMap → String → Int → Option String → Int → Option Result :=
  lib.cachedFirst lib.getlocal

def getLibNoWeakSymbolStartEnd (lib : Library) (bridgemap : BridgeMap) (name : String) (version : Int)
    (vername : Option String) (inLocal : Int) : Option Result :=
  if name = "" ∨ ¬ lib.active then some (bridgemap, none)
  else
    match lib.getnoweak name version vername inLocal with
    | some found => do
      let k ← versionnedName name version vername
      match bridgemap k with
      | some cached => some (bridgemap, some cached)
      | none => put bridgemap name version vername (range found)
    | none => some (bridgemap, none)

def step (lib : Library) (bridgemap : BridgeMap) (q : Lookup) : Option Result :=
  match q.kind with
  | .symbol => lib.getLibSymbolStartEnd bridgemap q.name q.version q.vername q.inLocal
  | .noWeak => lib.getLibNoWeakSymbolStartEnd bridgemap q.name q.version q.vername q.inLocal
  | .localSymbol => lib.getLibLocalSymbolStartEnd bridgemap q.name q.version q.vername q.inLocal

def emptyMap : BridgeMap := fun _ => none

/-- Each lookup answers as it does with an empty cache, up to the first that reads a null pointer. -/
def Transparent (lib : Library) (bridgemap : BridgeMap) : List Lookup → Prop
  | [] => True
  | q :: rest => (lib.step bridgemap q).map Prod.snd = (lib.step emptyMap q).map Prod.snd ∧
      ∀ after, lib.step bridgemap q = some after → lib.Transparent after.1 rest

/-! ### What the lookups ask for -/

def getter (lib : Library) : LookupKind → Getter
  | .symbol => lib.get
  | .noWeak => lib.getnoweak
  | .localSymbol => lib.getlocal

/-- What the library has for a lookup. -/
def asks (lib : Library) (q : Lookup) : Option (BitVec 64 × BitVec 64) :=
  if q.name = "" ∨ ¬ lib.active then none
  else (lib.getter q.kind q.name q.version q.vername q.inLocal).map range

/-- The lookup does not come to the cache at all before it has asked. -/
def AsksFirst (lib : Library) (q : Lookup) : Prop := q.kind = .noWeak ∨ q.name = "" ∨ ¬ lib.active

instance (lib : Library) (q : Lookup) : Decidable (lib.AsksFirst q) := inferInstanceAs (Decidable (_ ∨ _))

/-- The versioned name is a null pointer where the lookup needs it. -/
def Faults (lib : Library) (q : Lookup) : Prop :=
  versionnedName q.name q.version q.vername = none ∧ ¬ (lib.AsksFirst q ∧ lib.asks q = none)

instance (lib : Library) (q : Lookup) : Decidable (lib.Faults q) := inferInstanceAs (Decidable (_ ∧ _))

def memo (lib : Library) : Memo (Option String) Lookup (BitVec 64 × BitVec 64) where
  key q := versionnedName q.name q.version q.vername
  real := lib.asks
  asksFirst := lib.AsksFirst

/-- Of the lookups up to the first that reads a null pointer, each finds what an earlier one under the same versioned
name has found, or it is a `NoWeak` lookup and finds nothing. -/
def Agree (lib : Library) (queries : List Lookup) : Prop :=
  (queries.takeWhile fun q => ¬ lib.Faults q).Pairwise lib.memo.Agrees

variable {lib : Library} {q : Lookup} {bridgemap : BridgeMap}

/-- The cache under the keys of the memo: there is nothing under a null pointer. -/
def cached (bridgemap : BridgeMap) : Option String → Option (BitVec 64 × BitVec 64) := fun k => k.bind bridgemap

theorem cached_empty : cached emptyMap = fun _ => none := by
  funext k
  cases k <;> rfl

theorem cached_update {symbol : String} {found : BitVec 64 × BitVec 64} :
    cached (Function.update bridgemap symbol (some found)) =
      Function.update (cached bridgemap) (some symbol) (some found) := by
  funext k
  cases k with
  | none => exact (Function.update_of_ne (Option.some_ne_none symbol).symm ..).symm
  | some k =>
    by_cases same : k = symbol
    · subst same
      rw [Function.update_self]
      exact Function.update_self ..
    · rw [Function.update_of_ne fun equal => same (Option.some.inj equal)]
      exact Function.update_of_ne same ..

theorem next_kept (kept : (cached bridgemap (lib.memo.key q) <|> lib.asks q) = cached bridgemap (lib.memo.key q)) :
    lib.memo.next (cached bridgemap) q = cached bridgemap := by
  unfold Memo.next
  exact (congrArg _ kept).trans (Function.update_eq_self ..)

theorem asks_active {kind : LookupKind} (same : q.kind = kind) (active : ¬ (q.name = "" ∨ ¬ lib.active)) :
    lib.asks q = (lib.getter kind q.name q.version q.vername q.inLocal).map range := by
  rw [asks, if_neg active, same]

theorem step_idle (idle : q.name = "" ∨ ¬ lib.active) : lib.step bridgemap q = some (bridgemap, none) := by
  unfold step getLibSymbolStartEnd getLibNoWeakSymbolStartEnd getLibLocalSymbolStartEnd cachedFirst
  cases q.kind <;> exact if_pos idle

theorem step_nothing (first : lib.AsksFirst q) (nothing : lib.asks q = none) :
    lib.step bridgemap q = some (bridgemap, none) := by
  by_cases idle : q.name = "" ∨ ¬ lib.active
  · exact step_idle idle
  obtain noWeak | off := first
  · rw [asks_active noWeak idle, Option.map_eq_none_iff] at nothing
    change lib.getnoweak q.name q.version q.vername q.inLocal = none at nothing
    simp only [step, noWeak, getLibNoWeakSymbolStartEnd, if_neg idle, nothing]
  · exact absurd off idle

/-- A lookup that comes to the cache. -/
theorem step_reached {k : String} (key : versionnedName q.name q.version q.vername = some k)
    (reaches : ¬ (lib.AsksFirst q ∧ lib.asks q = none)) :
    lib.step bridgemap q = some (match bridgemap k, lib.asks q with
      | some value, _ => (bridgemap, some value)
      | none, some found => (Function.update bridgemap k (some found), some found)
      | none, none => (bridgemap, none)) := by
  have active : ¬ (q.name = "" ∨ ¬ lib.active) := by
    intro idle
    exact reaches ⟨.inr idle, if_pos idle⟩
  cases kind : q.kind with
  | symbol =>
    rw [asks_active kind active]
    change _ = some (match bridgemap k, (lib.get q.name q.version q.vername q.inLocal).map range with
      | some value, _ => (bridgemap, some value)
      | none, some found => (Function.update bridgemap k (some found), some found)
      | none, none => (bridgemap, none))
    simp only [step, kind, getLibSymbolStartEnd, cachedFirst, if_neg active, key, put, Option.bind_eq_bind,
      Option.bind_some]
    cases bridgemap k with
    | some value => rfl
    | none => cases lib.get q.name q.version q.vername q.inLocal <;> rfl
  | localSymbol =>
    rw [asks_active kind active]
    change _ = some (match bridgemap k, (lib.getlocal q.name q.version q.vername q.inLocal).map range with
      | some value, _ => (bridgemap, some value)
      | none, some found => (Function.update bridgemap k (some found), some found)
      | none, none => (bridgemap, none))
    simp only [step, kind, getLibLocalSymbolStartEnd, cachedFirst, if_neg active, key, put, Option.bind_eq_bind,
      Option.bind_some]
    cases bridgemap k with
    | some value => rfl
    | none => cases lib.getlocal q.name q.version q.vername q.inLocal <;> rfl
  | noWeak =>
    have some_asks : lib.asks q ≠ none := fun nothing => reaches ⟨.inl kind, nothing⟩
    rw [asks_active kind active] at some_asks ⊢
    change (lib.getnoweak q.name q.version q.vername q.inLocal).map range ≠ none at some_asks
    change _ = some (match bridgemap k, (lib.getnoweak q.name q.version q.vername q.inLocal).map range with
      | some value, _ => (bridgemap, some value)
      | none, some found => (Function.update bridgemap k (some found), some found)
      | none, none => (bridgemap, none))
    simp only [step, kind, getLibNoWeakSymbolStartEnd, if_neg active, key, put, Option.bind_eq_bind, Option.bind_some]
    cases found : lib.getnoweak q.name q.version q.vername q.inLocal with
    | none => exact absurd (by rw [found]; rfl) some_asks
    | some value => cases bridgemap k <;> rfl

theorem step_faults (faults : lib.Faults q) : lib.step bridgemap q = none := by
  obtain ⟨key, reaches⟩ := faults
  have active : ¬ (q.name = "" ∨ ¬ lib.active) := by
    intro idle
    exact reaches ⟨.inr idle, if_pos idle⟩
  cases kind : q.kind with
  | symbol =>
    simp only [step, kind, getLibSymbolStartEnd, cachedFirst, if_neg active, key, Option.bind_eq_bind, Option.bind_none]
  | localSymbol =>
    simp only [step, kind, getLibLocalSymbolStartEnd, cachedFirst, if_neg active, key, Option.bind_eq_bind,
      Option.bind_none]
  | noWeak =>
    have some_asks : lib.asks q ≠ none := fun nothing => reaches ⟨.inl kind, nothing⟩
    rw [asks_active kind active] at some_asks
    change (lib.getnoweak q.name q.version q.vername q.inLocal).map range ≠ none at some_asks
    cases found : lib.getnoweak q.name q.version q.vername q.inLocal with
    | none => exact absurd (by rw [found]; rfl) some_asks
    | some value =>
      simp only [step, kind, getLibNoWeakSymbolStartEnd, if_neg active, found, key, Option.bind_eq_bind,
        Option.bind_none]

/-- The bridge map is the cache of the memo. -/
theorem step_memo (bridgemap : BridgeMap) (fine : ¬ lib.Faults q) : ∃ after, lib.step bridgemap q =
    some (after, lib.memo.answer (cached bridgemap) q) ∧ cached after = lib.memo.next (cached bridgemap) q := by
  by_cases nothing : lib.AsksFirst q ∧ lib.asks q = none
  · refine ⟨bridgemap, ?_, ?_⟩
    · rw [step_nothing nothing.1 nothing.2]
      exact congrArg (fun answer => some (bridgemap, answer)) (Memo.answer_nothing (m := lib.memo) nothing).symm
    · refine (next_kept ?_).symm
      rw [nothing.2]
      cases cached bridgemap (lib.memo.key q) <;> rfl
  cases key : versionnedName q.name q.version q.vername with
  | none => exact absurd ⟨key, nothing⟩ fine
  | some k =>
    have place : cached bridgemap (lib.memo.key q) = bridgemap k := by
      change cached bridgemap (versionnedName q.name q.version q.vername) = bridgemap k
      rw [key]
      rfl
    rw [step_reached key nothing, Memo.answer_reached (m := lib.memo) nothing, place]
    change ∃ after, some _ = some (after, (bridgemap k <|> lib.asks q)) ∧ _
    cases old : bridgemap k with
    | some value =>
      refine ⟨bridgemap, rfl, (next_kept ?_).symm⟩
      rw [place, old]
      rfl
    | none =>
      cases real : lib.asks q with
      | none =>
        refine ⟨bridgemap, rfl, (next_kept ?_).symm⟩
        rw [place, old, real]
        rfl
      | some found =>
        refine ⟨_, rfl, ?_⟩
        rw [cached_update, Memo.next, place, old]
        change Function.update (cached bridgemap) (some k) (some found) =
          Function.update (cached bridgemap) (versionnedName q.name q.version q.vername) (lib.asks q)
        rw [key, real]

theorem transparent_iff_memo (lib : Library) (bridgemap : BridgeMap) (queries : List Lookup) :
    lib.Transparent bridgemap queries ↔
      lib.memo.Transparent (cached bridgemap) (queries.takeWhile fun q => ¬ lib.Faults q) := by
  induction queries generalizing bridgemap with
  | nil => exact iff_of_true trivial trivial
  | cons q rest ih =>
    rw [Transparent]
    by_cases faults : lib.Faults q
    · simp [step_faults faults, faults, Memo.Transparent]
    · obtain ⟨after, here, next⟩ := step_memo bridgemap faults
      obtain ⟨_, empty, -⟩ := step_memo emptyMap faults
      rw [cached_empty, Memo.answer_empty] at empty
      rw [List.takeWhile_cons, if_pos (decide_eq_true faults), Memo.Transparent, here, empty, ← next, ← ih]
      simp

/-- The cache is transparent exactly if the lookups agree, whatever the library finds. -/
theorem cache_transparent_iff (lib : Library) (queries : List Lookup) :
    lib.Transparent emptyMap queries ↔ lib.Agree queries := by
  rw [transparent_iff_memo, cached_empty]
  exact Memo.transparent_iff_agrees

end Library

/-! ### Emulated libraries -/

/-- The symbol maps of a library that is an ELF. -/
structure EmuLib where
  mapsymbols : MapSymbols
  weaksymbols : MapSymbols
  localsymbols : MapSymbols

namespace EmuLib

/-- A lookup in one of the maps. One that reads a null name has no result. -/
def lookup (map : MapSymbols) : Getter := fun name version vername inLocal =>
  (map.getSymbolStartEnd name version vername (inLocal ≠ 0)).join.map fun found => (found.1, found.2 - found.1)

def EmuLib_Get (lib : EmuLib) : Getter := fun name version vername inLocal =>
  lookup lib.mapsymbols name version vername inLocal <|> lookup lib.weaksymbols name version vername inLocal

def EmuLib_GetNoWeak (lib : EmuLib) : Getter := lookup lib.mapsymbols

def EmuLib_GetLocal (lib : EmuLib) : Getter := lookup lib.localsymbols

def library (lib : EmuLib) : Library where
  active := true
  get := lib.EmuLib_Get
  getnoweak := lib.EmuLib_GetNoWeak
  getlocal := lib.EmuLib_GetLocal

end EmuLib

/-- A local lookup of `counter` makes the global one find the local symbol. -/
theorem local_answers_global : ¬ ∀ (lib : Library) (queries : List Lookup), lib.Transparent Library.emptyMap queries := by
  intro transparent
  let maps : EmuLib := {
    mapsymbols := MapSymbols.newMapSymbols
    weaksymbols := MapSymbols.newMapSymbols
    localsymbols := Function.update MapSymbols.newMapSymbols "counter" (some [⟨0, none, ⟨0x1000, 8⟩⟩]) }
  have run := transparent maps.library
    [⟨.localSymbol, "counter", -1, none, 1⟩, ⟨.symbol, "counter", -1, none, 0⟩]
  have second := (run.2 _ rfl).1
  exact absurd second (by decide)

end Box64.Librarian
