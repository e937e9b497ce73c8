import Box64.Lib.Runs
import Mathlib.Data.List.Count
import Mathlib.Data.List.Nodup
import Mathlib.Logic.Function.Basic

/-!
# Symbol maps

`AddSymbol`, `AddWeakSymbol` and the lookups of `symbols.c`. The result is `none` where `strcmp` reads a null pointer.
-/

namespace Box64.Librarian

open Runs

structure OneSymbol where
  offs : BitVec 64
  sz : BitVec 32
deriving DecidableEq

structure VerSymbol where
  /-- `-1` is no-version, `0` local, `1` global, and more a version with a name. -/
  version : Int
  vername : Option String
  sym : OneSymbol
deriving DecidableEq

abbrev VerSymbols : Type := List VerSymbol

abbrev MapSymbols : Type := String → Option VerSymbols

def sameVersion (s : VerSymbol) (ver : Int) (vername : Option String) : Option Bool :=
  if ver < 2 then some (s.version = ver)
  else
    match s.vername with
    | some name => vername.map fun wanted => name = wanted
    | none => some false

namespace VerSymbols

def findVersionLocal (s : VerSymbols) : Option VerSymbol := s.find? fun sym => sym.version = 0

def findNoVersion (s : VerSymbols) : Option VerSymbol := s.find? fun sym => sym.version = -1

def findVersionGlobal (s : VerSymbols) : Option VerSymbol := s.find? fun sym => sym.version = 1

def findFirstVersion (s : VerSymbols) : Option VerSymbol := s.find? fun sym => sym.version > 1

def findVersion : VerSymbols → Option String → Option (Option VerSymbol)
  | [], _ => some none
  | sym :: rest, vername =>
    match sym.vername with
    | some name => vername.bind fun wanted => if name = wanted then some (some sym) else findVersion rest vername
    | none => findVersion rest vername

def matchVersion (s : VerSymbols) (ver : Int) (vername : Option String) (inLocal : Bool) : Option (Option VerSymbol) :=
  let ret := if inLocal then s.findVersionLocal else none
  if ver = 0 then some (ret <|> s.findNoVersion <|> s.findVersionGlobal)
  else if ver = -1 then some (ret <|> s.findNoVersion <|> s.findVersionGlobal <|> s.findFirstVersion)
  else if ver = 1 then some (ret <|> s.findVersionGlobal <|> s.findNoVersion <|> s.findFirstVersion)
  else
    -- `if(local && !ret) FindVersionLocal(s);` assigns nothing
    (s.findVersion vername).map fun ret => ret <|> s.findVersionGlobal

/-- The loop over the records of a name: the record of the same version is updated, or a new one is added. -/
def add (update : VerSymbol → VerSymbol) (new : VerSymbol) : VerSymbols → Option VerSymbols
  | [] => some [new]
  | s :: rest =>
    (sameVersion s new.version new.vername).bind fun same =>
      if same then some (update s :: rest) else (add update new rest).map (s :: ·)

end VerSymbols

namespace MapSymbols

def newMapSymbols : MapSymbols := fun _ => none

/-- The records of a name; there are none before `kh_put` makes room for it. -/
def records (map : MapSymbols) (name : String) : VerSymbols := (map name).getD []

def addSymbol (map : MapSymbols) (name : String) (addr : BitVec 64) (sz : BitVec 32) (ver : Int)
    (vername : Option String) : Option MapSymbols :=
  ((map.records name).add (fun s => { s with sym := ⟨addr, sz⟩ }) ⟨ver, vername, ⟨addr, sz⟩⟩).map fun v =>
    Function.update map name (some v)

def addWeakSymbol (map : MapSymbols) (name : String) (addr : BitVec 64) (sz : BitVec 32) (ver : Int)
    (vername : Option String) : Option MapSymbols :=
  ((map.records name).add (fun s => s) ⟨ver, vername, ⟨addr, sz⟩⟩).map fun v => Function.update map name (some v)

def findSymbol (map : MapSymbols) (name : String) (ver : Int) (vername : Option String) (inLocal : Bool) :
    Option (BitVec 64) :=
  match map name with
  | none => some 0
  | some v => (v.matchVersion ver vername inLocal).map fun
    | some s => s.sym.offs
    | none => 0

/-- The start and the end, or `none` where the function returns 0. -/
def getSymbolStartEnd (map : MapSymbols) (name : String) (ver : Int) (vername : Option String) (inLocal : Bool) :
    Option (Option (BitVec 64 × BitVec 64)) :=
  match map name with
  | none => some none
  | some v => (v.matchVersion ver vername inLocal).map fun
    | some s => some (s.sym.offs, s.sym.offs + s.sym.sz.setWidth 64)
    | none => none

/-- A call of `AddSymbol` or, if `weak`, of `AddWeakSymbol`. -/
structure Call where
  weak : Bool
  name : String
  addr : BitVec 64
  sz : BitVec 32
  ver : Int
  vername : Option String

def step (map : MapSymbols) (call : Call) : Option MapSymbols :=
  if call.weak then map.addWeakSymbol call.name call.addr call.sz call.ver call.vername
  else map.addSymbol call.name call.addr call.sz call.ver call.vername

end MapSymbols

/-! ### What a lookup is for -/

/-- A query of one of the four kinds that `MatchVersion` tells apart. -/
structure Query where
  name : String
  ver : Int
  vername : Option String
  inLocal : Bool
  kind : -1 ≤ ver

inductive Kind where
  | named (vername : String)
  | localSymbol
  | noVersion
  | globalSymbol
  | firstVersion

def Kind.fits : Kind → VerSymbol → Bool
  | named vername, s => s.vername = some vername
  | localSymbol, s => s.version = 0
  | noVersion, s => s.version = -1
  | globalSymbol, s => s.version = 1
  | firstVersion, s => s.version > 1

/-- The kinds of records that answer a query, the best first. Below version 2 they are those that the comment over
`MatchVersion` lists. -/
def Query.kinds (q : Query) : List Kind :=
  if q.ver ≥ 2 then
    (q.vername.toList.map .named) ++ (if q.inLocal then [.localSymbol] else []) ++ [.globalSymbol]
  else if q.ver = 0 then [.localSymbol]
  else [.noVersion, .globalSymbol, .firstVersion]

def VerSymbols.best (s : VerSymbols) (kinds : List Kind) : Option VerSymbol :=
  kinds.findSome? fun kind => s.find? kind.fits

/-- What answers a query: any record if the version is `-1`, else the best one. -/
def Query.Right (q : Query) (s : VerSymbols) (ret : Option VerSymbol) : Prop :=
  if q.ver = -1 then
    match ret with
    | some sym => sym ∈ s
    | none => s = []
  else ret = s.best q.kinds

/-- Both functions return one record that answers the query. -/
def MapSymbols.Answers (map : MapSymbols) (q : Query) : Prop :=
  ∃ ret, q.Right (map.records q.name) ret ∧
    map.findSymbol q.name q.ver q.vername q.inLocal = some (ret.elim 0 fun s => s.sym.offs) ∧
    map.getSymbolStartEnd q.name q.ver q.vername q.inLocal =
      some (ret.map fun s => (s.sym.offs, s.sym.offs + s.sym.sz.setWidth 64))

inductive VersionKey where
  | number (ver : Int)
  | name (vername : String)
deriving DecidableEq

/-- What tells the records of a name apart: the number below 2, the name of a version, or the number of a version that
has no name. -/
def VerSymbol.versionKey (s : VerSymbol) : VersionKey :=
  match s.vername with
  | some vername => if s.version < 2 then .number s.version else .name vername
  | none => .number s.version

def VerSymbols.OneEach (s : VerSymbols) : Prop := (s.map VerSymbol.versionKey).Nodup

/-- Some record has this version name. -/
def VerSymbols.HasName (s : VerSymbols) (vername : Option String) : Prop :=
  ∃ wanted, vername = some wanted ∧ ∃ sym ∈ s, sym.vername = some wanted

/-- Version 0: the local record is found if `local` is set; the records that are found in its place have its symbol. -/
def VerSymbols.ReachedLocal (s : VerSymbols) (inLocal : Bool) : Prop :=
  inLocal = true ∧ s.findVersionLocal ≠ none ∨
    (s.findNoVersion <|> s.findVersionGlobal).map VerSymbol.sym = s.findVersionLocal.map VerSymbol.sym

/-- Version 1: a local record that is found first has the symbol of the best one, and so has a global one. -/
def VerSymbols.ReachedGlobal (s : VerSymbols) (inLocal : Bool) : Prop :=
  match if inLocal then s.findVersionLocal else none with
  | some found => ∃ best, (s.findNoVersion <|> s.findVersionGlobal <|> s.findFirstVersion) = some best ∧ best.sym = found.sym
  | none => ∀ first global, s.findNoVersion = some first → s.findVersionGlobal = some global → global.sym = first.sym

/-- Version -1: if there is a record, there is one of a kind that is looked for. -/
def VerSymbols.ReachedAny (s : VerSymbols) (inLocal : Bool) : Prop :=
  s ≠ [] → ∃ sym ∈ s, sym.version = -1 ∨ 1 ≤ sym.version ∨ inLocal = true ∧ sym.version = 0

/-- A versioned lookup has a name to compare with, and where only a local record could answer it, a global one says the
same. -/
def VerSymbols.ReachedVersion (s : VerSymbols) (vername : Option String) (inLocal : Bool) : Prop :=
  (vername = none → ∀ sym ∈ s, sym.vername = none) ∧
    (inLocal = true → ¬ s.HasName vername → ∀ found, s.findVersionLocal = some found →
      ∃ other, s.findVersionGlobal = some other ∧ other.sym = found.sym)

def VerSymbols.Reached (s : VerSymbols) (q : Query) : Prop :=
  if q.ver = 0 then s.ReachedLocal q.inLocal
  else if q.ver = -1 then s.ReachedAny q.inLocal
  else if q.ver = 1 then s.ReachedGlobal q.inLocal
  else s.ReachedVersion q.vername q.inLocal

/-- No version of a symbol is added twice without a name. -/
def MapSymbols.NamesOnce (calls : List MapSymbols.Call) : Prop :=
  ∀ name ver, 2 ≤ ver → calls.countP (fun call => call.name = name ∧ call.ver = ver ∧ call.vername = none) ≤ 1

/-! ### Lookups -/

namespace VerSymbols

variable {s : VerSymbols}

theorem findVersion_some (s : VerSymbols) (wanted : String) :
    s.findVersion (some wanted) = some (s.find? (Kind.named wanted).fits) := by
  induction s with
  | nil => rfl
  | cons sym rest ih =>
    rw [findVersion, List.find?_cons, Kind.fits]
    cases vername : sym.vername with
    | none => simpa using ih
    | some name =>
      by_cases same : name = wanted
      · simp [same]
      · simpa [same] using ih

theorem findVersion_nameless (nameless : ∀ sym ∈ s, sym.vername = none) : s.findVersion none = some none := by
  induction s with
  | nil => rfl
  | cons sym rest ih =>
    obtain ⟨here, later⟩ := List.forall_mem_cons.mp nameless
    rw [findVersion, here]
    exact ih later

theorem findVersion_faults {sym : VerSymbol} (mem : sym ∈ s) (named : sym.vername ≠ none) : s.findVersion none = none := by
  induction s with
  | nil => cases mem
  | cons first rest ih =>
    rw [findVersion]
    cases vername : first.vername with
    | some name => rfl
    | none =>
      obtain rfl | later := List.mem_cons.mp mem
      · exact absurd vername named
      · exact ih later

theorem best_nil : s.best [] = none := rfl

theorem best_cons (kind : Kind) (kinds : List Kind) : s.best (kind :: kinds) = (s.find? kind.fits <|> s.best kinds) := by
  rw [best, List.findSome?_cons]
  cases s.find? kind.fits with
  | none => rfl
  | some found => rfl

theorem best_local (inLocal : Bool) (kinds : List Kind) :
    s.best ((if inLocal then [.localSymbol] else []) ++ kinds) =
      ((if inLocal then s.findVersionLocal else none) <|> s.best kinds) := by
  cases inLocal with
  | false => rfl
  | true => exact best_cons _ _

theorem best_last (kind : Kind) : s.best [kind] = s.find? kind.fits := by
  rw [best_cons, best_nil]
  cases s.find? kind.fits with
  | none => rfl
  | some found => rfl

theorem orElse_eq_none {x y : Option VerSymbol} : (x <|> y) = none ↔ x = none ∧ y = none := by
  cases x <;> simp

theorem orElse_eq_some {x y : Option VerSymbol} {sym : VerSymbol} (found : (x <|> y) = some sym) :
    x = some sym ∨ y = some sym := by
  cases x with
  | none => exact Or.inr found
  | some _ => exact Or.inl found

theorem best_localSymbol : s.best [.localSymbol] = s.findVersionLocal := best_last _

theorem best_unversioned : s.best [.noVersion, .globalSymbol, .firstVersion] =
    (s.findNoVersion <|> s.findVersionGlobal <|> s.findFirstVersion) := by
  rw [best_cons, best_cons, best_last]
  rfl

theorem matchVersion_zero (vername : Option String) (inLocal : Bool) : s.matchVersion 0 vername inLocal =
    some ((if inLocal then s.findVersionLocal else none) <|> s.findNoVersion <|> s.findVersionGlobal) := rfl

theorem matchVersion_any (vername : Option String) (inLocal : Bool) : s.matchVersion (-1) vername inLocal =
    some ((if inLocal then s.findVersionLocal else none) <|> s.findNoVersion <|> s.findVersionGlobal <|>
      s.findFirstVersion) := rfl

theorem matchVersion_one (vername : Option String) (inLocal : Bool) : s.matchVersion 1 vername inLocal =
    some ((if inLocal then s.findVersionLocal else none) <|> s.findVersionGlobal <|> s.findNoVersion <|>
      s.findFirstVersion) := rfl

theorem matchVersion_versioned {q : Query} (versioned : 2 ≤ q.ver) :
    s.matchVersion q.ver q.vername q.inLocal = (s.findVersion q.vername).map fun ret => ret <|> s.findVersionGlobal := by
  rw [matchVersion, if_neg (by omega), if_neg (by omega), if_neg (by omega)]

theorem best_versioned {q : Query} (versioned : 2 ≤ q.ver) :
    s.best q.kinds = (q.vername.bind (fun wanted => s.find? (Kind.named wanted).fits) <|>
      (if q.inLocal then s.findVersionLocal else none) <|> s.findVersionGlobal) := by
  rw [Query.kinds, if_pos versioned, List.append_assoc]
  cases q.vername with
  | none =>
    refine (best_local q.inLocal _).trans ?_
    rw [best_last]
    rfl
  | some wanted =>
    refine (best_cons _ _).trans ?_
    have rest := best_local (s := s) q.inLocal [.globalSymbol]
    rw [best_last] at rest
    exact congrArg (fun ret => s.find? (Kind.named wanted).fits <|> ret) rest

theorem hasName_iff {wanted : String} : s.HasName (some wanted) ↔ ∃ found, s.find? (Kind.named wanted).fits = some found := by
  rw [← Option.isSome_iff_exists, List.find?_isSome, HasName]
  simp [Kind.fits]

/-- What a query of version -1 finds is a record, and it finds nothing only if there is none of the kinds it looks for. -/
theorem any_mem {inLocal : Bool} {sym : VerSymbol} (found : ((if inLocal then s.findVersionLocal else none) <|>
    s.findNoVersion <|> s.findVersionGlobal <|> s.findFirstVersion) = some sym) : sym ∈ s := by
  obtain here | found := orElse_eq_some found
  · cases inLocal with
    | false => cases here
    | true => exact List.mem_of_find?_eq_some here
  obtain here | found := orElse_eq_some found
  · exact List.mem_of_find?_eq_some here
  obtain here | found := orElse_eq_some found
  · exact List.mem_of_find?_eq_some here
  · exact List.mem_of_find?_eq_some found

theorem any_eq_none {inLocal : Bool} : ((if inLocal then s.findVersionLocal else none) <|>
    s.findNoVersion <|> s.findVersionGlobal <|> s.findFirstVersion) = none ↔
      ¬ ∃ sym ∈ s, sym.version = -1 ∨ 1 ≤ sym.version ∨ inLocal = true ∧ sym.version = 0 := by
  rw [orElse_eq_none, orElse_eq_none, orElse_eq_none, findNoVersion, findVersionGlobal, findFirstVersion, List.find?_eq_none,
    List.find?_eq_none, List.find?_eq_none]
  have skipped : (if inLocal then s.findVersionLocal else none) = none ↔ ∀ sym ∈ s, ¬ (inLocal = true ∧ sym.version = 0) := by
    cases inLocal with
    | false => simp
    | true => simp [findVersionLocal]
  rw [skipped]
  simp only [decide_eq_true_eq, not_exists, not_and]
  constructor
  · rintro ⟨others, none, one, more⟩ sym mem (is | is | ⟨asked, is⟩)
    · exact none sym mem is
    · have not_one := one sym mem
      have not_more := more sym mem
      omega
    · exact others sym mem asked is
  · intro absent
    refine ⟨fun sym mem asked is => absent sym mem (.inr (.inr ⟨asked, is⟩)), fun sym mem is => absent sym mem (.inl is),
      fun sym mem is => absent sym mem (.inr (.inl ?_)), fun sym mem more => absent sym mem (.inr (.inl ?_))⟩
    · omega
    · omega

end VerSymbols

namespace MapSymbols

variable {map : MapSymbols}

theorem extent_injective {s t : OneSymbol}
    (same : (s.offs, s.offs + s.sz.setWidth 64) = (t.offs, t.offs + t.sz.setWidth 64)) : s = t := by
  obtain ⟨start, stop⟩ := Prod.mk.inj same
  rw [start, BitVec.add_right_inj] at stop
  have size := congrArg (BitVec.setWidth 32) stop
  rw [BitVec.setWidth_setWidth_of_le _ (by decide), BitVec.setWidth_setWidth_of_le _ (by decide), BitVec.setWidth_eq,
    BitVec.setWidth_eq] at size
  cases s
  cases t
  exact OneSymbol.mk.injEq .. ▸ ⟨start, size⟩

theorem matchVersion_nil (ver : Int) (vername : Option String) (inLocal : Bool) :
    VerSymbols.matchVersion [] ver vername inLocal = some none := by
  have nothing : (if inLocal then VerSymbols.findVersionLocal [] else none) = none := by
    cases inLocal <;> rfl
  rw [VerSymbols.matchVersion, nothing]
  split
  · rfl
  · split
    · rfl
    · split <;> rfl

theorem findSymbol_eq (map : MapSymbols) (name : String) (ver : Int) (vername : Option String) (inLocal : Bool) :
    map.findSymbol name ver vername inLocal =
      ((map.records name).matchVersion ver vername inLocal).map fun ret => ret.elim 0 fun s => s.sym.offs := by
  rw [findSymbol, records]
  cases map name with
  | none =>
    rw [Option.getD_none, matchVersion_nil]
    rfl
  | some v =>
    refine congrArg (fun f => (v.matchVersion ver vername inLocal).map f) (funext fun ret => ?_)
    cases ret <;> rfl

theorem getSymbolStartEnd_eq (map : MapSymbols) (name : String) (ver : Int) (vername : Option String) (inLocal : Bool) :
    map.getSymbolStartEnd name ver vername inLocal = ((map.records name).matchVersion ver vername inLocal).map
      (Option.map fun s => (s.sym.offs, s.sym.offs + s.sym.sz.setWidth 64)) := by
  rw [getSymbolStartEnd, records]
  cases map name with
  | none =>
    rw [Option.getD_none, matchVersion_nil]
    rfl
  | some v =>
    refine congrArg (fun f => (v.matchVersion ver vername inLocal).map f) (funext fun ret => ?_)
    cases ret <;> rfl

/-- Both functions only look at the symbol of the record that `MatchVersion` finds. -/
theorem answers_iff (q : Query) : map.Answers q ↔
    ∃ found, (map.records q.name).matchVersion q.ver q.vername q.inLocal = some found ∧
      ∃ ret, q.Right (map.records q.name) ret ∧ found.map VerSymbol.sym = ret.map VerSymbol.sym := by
  constructor
  · rintro ⟨ret, right, -, extent⟩
    rw [getSymbolStartEnd_eq] at extent
    obtain ⟨found, matched, same⟩ := Option.map_eq_some_iff.mp extent
    refine ⟨found, matched, ret, right, ?_⟩
    cases found with
    | none =>
      cases ret with
      | none => rfl
      | some sym => cases same
    | some sym =>
      cases ret with
      | none => cases same
      | some other => exact congrArg some (extent_injective (Option.some.inj same))
  · rintro ⟨found, matched, ret, right, same⟩
    refine ⟨ret, right, ?_, ?_⟩
    · rw [findSymbol_eq, matched]
      have offs := congrArg (fun sym => sym.elim 0 OneSymbol.offs) same
      simp only [Option.elim_map] at offs
      exact congrArg some offs
    · rw [getSymbolStartEnd_eq, matched]
      have extent := congrArg (Option.map fun sym => (sym.offs, sym.offs + sym.sz.setWidth 64)) same
      simp only [Option.map_map] at extent
      exact congrArg some extent

/-- A query that one record alone answers. -/
theorem answers_best {q : Query} (one : q.ver ≠ -1) : map.Answers q ↔
    ∃ found, (map.records q.name).matchVersion q.ver q.vername q.inLocal = some found ∧
      found.map VerSymbol.sym = ((map.records q.name).best q.kinds).map VerSymbol.sym := by
  rw [answers_iff]
  simp only [Query.Right, if_neg one, exists_eq_left]

theorem answers_zero {q : Query} (zero : q.ver = 0) :
    map.Answers q ↔ (map.records q.name).ReachedLocal q.inLocal := by
  have kinds : q.kinds = [.localSymbol] := by
    rw [Query.kinds, if_neg (by omega), if_pos zero]
  rw [answers_best (by omega), zero, VerSymbols.matchVersion_zero, kinds, VerSymbols.best_localSymbol, VerSymbols.ReachedLocal]
  simp only [Option.some.injEq, exists_eq_left']
  cases q.inLocal with
  | false => simp
  | true =>
    cases (map.records q.name).findVersionLocal with
    | none => simp
    | some found => simp

theorem answers_one {q : Query} (one : q.ver = 1) : map.Answers q ↔ (map.records q.name).ReachedGlobal q.inLocal := by
  have kinds : q.kinds = [.noVersion, .globalSymbol, .firstVersion] := by
    rw [Query.kinds, if_neg (by omega), if_neg (by omega)]
  rw [answers_best (by omega), one, VerSymbols.matchVersion_one, kinds, VerSymbols.best_unversioned, VerSymbols.ReachedGlobal]
  simp only [Option.some.injEq, exists_eq_left']
  cases if q.inLocal then (map.records q.name).findVersionLocal else none with
  | some found =>
    have first (rest : Option VerSymbol) : (some found <|> rest) = some found := rfl
    rw [first, eq_comm, Option.map_some, Option.map_eq_some_iff]
  | none =>
    cases (map.records q.name).findNoVersion with
    | none => cases (map.records q.name).findVersionGlobal <;> simp
    | some first => cases (map.records q.name).findVersionGlobal <;> simp

theorem answers_any {q : Query} (any : q.ver = -1) : map.Answers q ↔ (map.records q.name).ReachedAny q.inLocal := by
  rw [answers_iff, any, VerSymbols.matchVersion_any, VerSymbols.ReachedAny]
  simp only [Option.some.injEq, exists_eq_left', Query.Right, if_pos any]
  cases searched : (if q.inLocal then (map.records q.name).findVersionLocal else none) <|>
    (map.records q.name).findNoVersion <|> (map.records q.name).findVersionGlobal <|> (map.records q.name).findFirstVersion with
  | some sym =>
    refine iff_of_true ⟨some sym, VerSymbols.any_mem searched, rfl⟩ fun _ => ?_
    by_contra absent
    rw [VerSymbols.any_eq_none.mpr absent] at searched
    cases searched
  | none =>
    have absent := VerSymbols.any_eq_none.mp searched
    constructor
    · rintro ⟨ret, right, same⟩ some_record
      cases ret with
      | none => exact absurd right some_record
      | some _ => cases same
    · intro reached
      refine ⟨none, ?_, rfl⟩
      by_contra some_record
      exact absent (reached some_record)

/-- The lookup of a version of the name it asks for. -/
theorem answers_versioned {q : Query} (versioned : 2 ≤ q.ver) {found : Option VerSymbol}
    (searched : (map.records q.name).findVersion q.vername = some found)
    (same : found = q.vername.bind fun wanted => (map.records q.name).find? (Kind.named wanted).fits) :
    map.Answers q ↔ (q.inLocal = true → found = none → ∀ sym, (map.records q.name).findVersionLocal = some sym →
      ∃ other, (map.records q.name).findVersionGlobal = some other ∧ other.sym = sym.sym) := by
  rw [answers_best (by omega), VerSymbols.matchVersion_versioned versioned, searched, VerSymbols.best_versioned versioned, ← same]
  cases found with
  | some sym =>
    refine iff_of_true ⟨_, rfl, rfl⟩ ?_
    intro _ absent
    cases absent
  | none =>
    cases q.inLocal with
    | false =>
      refine iff_of_true ⟨_, rfl, rfl⟩ ?_
      intro no
      cases no
    | true =>
      cases here : (map.records q.name).findVersionLocal with
      | none =>
        refine iff_of_true ⟨_, rfl, ?_⟩ ?_
        · rw [if_pos rfl]
          rfl
        · intro _ _ sym other
          cases other
      | some sym =>
        constructor
        · rintro ⟨ret, matched, same⟩ - - t eq
          cases eq
          cases matched
          obtain ⟨other, global, sym_eq⟩ := Option.map_eq_some_iff.mp same
          exact ⟨other, global, sym_eq⟩
        · intro reached
          obtain ⟨other, global, same⟩ := reached rfl rfl sym rfl
          refine ⟨_, rfl, ?_⟩
          rw [global]
          exact congrArg some same

theorem answers_version {q : Query} (versioned : 2 ≤ q.ver) :
    map.Answers q ↔ (map.records q.name).ReachedVersion q.vername q.inLocal := by
  rw [VerSymbols.ReachedVersion]
  cases vername : q.vername with
  | some wanted =>
    have searched := (map.records q.name).findVersion_some wanted
    rw [← vername] at searched
    have here := answers_versioned versioned searched (by rw [vername]; rfl)
    rw [here, and_iff_right (fun no => by cases no)]
    have absent : (map.records q.name).find? (Kind.named wanted).fits = none ↔
        ¬ (map.records q.name).HasName (some wanted) := by
      rw [VerSymbols.hasName_iff, ← Option.isSome_iff_exists, Option.not_isSome_iff_eq_none]
    rw [absent]
  | none =>
    have unnamed : ¬ (map.records q.name).HasName none := by
      rintro ⟨_, no, -⟩
      cases no
    rw [imp_iff_right rfl, imp_iff_right unnamed]
    by_cases nameless : ∀ sym ∈ map.records q.name, sym.vername = none
    · have searched := VerSymbols.findVersion_nameless nameless
      rw [← vername] at searched
      have here := answers_versioned versioned searched (by rw [vername]; rfl)
      rw [here, and_iff_right nameless, imp_iff_right rfl]
    · refine iff_of_false ?_ fun reached => nameless reached.1
      obtain ⟨sym, mem, named⟩ : ∃ sym ∈ map.records q.name, sym.vername ≠ none := by
        simpa using nameless
      rw [answers_best (by omega), VerSymbols.matchVersion_versioned versioned, vername, VerSymbols.findVersion_faults mem named]
      rintro ⟨ret, no, -⟩
      cases no

theorem answers_iff_reached {q : Query} : map.Answers q ↔ (map.records q.name).Reached q := by
  have kind := q.kind
  rw [VerSymbols.Reached]
  by_cases zero : q.ver = 0
  · rw [if_pos zero]
    exact answers_zero zero
  rw [if_neg zero]
  by_cases any : q.ver = -1
  · rw [if_pos any]
    exact answers_any any
  rw [if_neg any]
  by_cases one : q.ver = 1
  · rw [if_pos one]
    exact answers_one one
  rw [if_neg one]
  exact answers_version (by omega)

end MapSymbols

/-! ### One record for each version -/

def VerSymbols.keys (s : VerSymbols) : List VersionKey := s.map VerSymbol.versionKey

theorem VerSymbol.versionKey_number {s : VerSymbol} {ver : Int} (key : s.versionKey = .number ver) :
    s.version = ver ∧ (s.version < 2 ∨ s.vername = none) := by
  rw [versionKey] at key
  cases vername : s.vername with
  | none =>
    rw [vername] at key
    exact ⟨VersionKey.number.inj key, Or.inr rfl⟩
  | some name =>
    rw [vername] at key
    dsimp only at key
    split at key
    case isTrue low => exact ⟨VersionKey.number.inj key, Or.inl low⟩
    case isFalse => cases key

theorem VerSymbol.versionKey_name {s : VerSymbol} {vername : String} (key : s.versionKey = .name vername) :
    s.vername = some vername := by
  rw [versionKey] at key
  cases named : s.vername with
  | none =>
    rw [named] at key
    cases key
  | some name =>
    rw [named] at key
    dsimp only at key
    split at key
    case isTrue => cases key
    case isFalse => exact congrArg some (VersionKey.name.inj key)

theorem VerSymbol.versionKey_low {s : VerSymbol} (low : s.version < 2) : s.versionKey = .number s.version := by
  rw [versionKey]
  cases s.vername with
  | none => rfl
  | some name => exact if_pos low

theorem VerSymbol.versionKey_eq_number {s : VerSymbol} {ver : Int} (high : 2 ≤ ver) :
    s.versionKey = .number ver ↔ s.version = ver ∧ s.vername = none := by
  constructor
  · intro key
    obtain ⟨version, low | nameless⟩ := versionKey_number key
    · omega
    · exact ⟨version, nameless⟩
  · rintro ⟨version, nameless⟩
    rw [versionKey, nameless, version]

/-- A record whose version is not the same has another key, unless versions without a name are compared. -/
theorem versionKey_ne {s new : VerSymbol} (other : sameVersion s new.version new.vername = some false)
    (key : ∀ ver ≥ 2, new.versionKey ≠ .number ver) : s.versionKey ≠ new.versionKey := by
  intro same
  rw [sameVersion] at other
  split at other
  case isTrue low =>
    rw [VerSymbol.versionKey_low low] at same
    exact absurd (VerSymbol.versionKey_number same).1 (of_decide_eq_false (Option.some.inj other))
  case isFalse high =>
    cases named : new.vername with
    | none => exact absurd ((VerSymbol.versionKey_eq_number (by omega)).mpr ⟨rfl, named⟩) (key new.version (by omega))
    | some wanted =>
      have newKey : new.versionKey = .name wanted := by
        rw [VerSymbol.versionKey, named]
        exact if_neg high
      rw [VerSymbol.versionKey_name (same.trans newKey), named] at other
      exact absurd rfl (of_decide_eq_false (Option.some.inj other))

namespace VerSymbols

variable {s s' : VerSymbols} {update : VerSymbol → VerSymbol} {new : VerSymbol}

theorem add_cases (kept : ∀ sym, (update sym).versionKey = sym.versionKey) (added : s.add update new = some s') :
    ((∃ sym ∈ s, sameVersion sym new.version new.vername = some true) ∧ s'.keys = s.keys) ∨
      ((∀ sym ∈ s, sameVersion sym new.version new.vername = some false) ∧ s'.keys = s.keys ++ [new.versionKey]) := by
  induction s generalizing s' with
  | nil =>
    cases added
    exact Or.inr ⟨fun _ mem => (List.not_mem_nil mem).elim, rfl⟩
  | cons first rest ih =>
    obtain ⟨same, compared, added⟩ := Option.bind_eq_some_iff.mp added
    cases same with
    | true =>
      cases added
      exact Or.inl ⟨⟨first, List.mem_cons_self, compared⟩, congrArg (· :: keys rest) (kept first)⟩
    | false =>
      rw [if_neg Bool.false_ne_true] at added
      obtain ⟨rest', addedRest, rfl⟩ := Option.map_eq_some_iff.mp added
      obtain ⟨⟨sym, mem, same⟩, keys⟩ | ⟨others, keys⟩ := ih addedRest
      · exact Or.inl ⟨⟨sym, List.mem_cons_of_mem _ mem, same⟩, congrArg (first.versionKey :: ·) keys⟩
      · exact Or.inr ⟨List.forall_mem_cons.mpr ⟨compared, others⟩, congrArg (first.versionKey :: ·) keys⟩

end VerSymbols

namespace MapSymbols

def Call.record (call : Call) : VerSymbol := ⟨call.ver, call.vername, ⟨call.addr, call.sz⟩⟩

theorem records_update {map : MapSymbols} {name : String} {v : VerSymbols} :
    records (Function.update map name (some v)) name = v := by
  rw [records, Function.update_self, Option.getD_some]

theorem records_update_of_ne {map : MapSymbols} {name other : String} {v : VerSymbols} (ne : other ≠ name) :
    records (Function.update map name (some v)) other = map.records other := by
  rw [records, Function.update_of_ne ne, records]

theorem step_eq {map map' : MapSymbols} {call : Call} (next : map.step call = some map') :
    ∃ update v, (∀ sym, VerSymbol.versionKey (update sym) = sym.versionKey) ∧
      (∀ sym, (update sym).sym = sym.sym ∨ (update sym).sym = call.record.sym) ∧
      (map.records call.name).add update call.record = some v ∧ map' = Function.update map call.name (some v) := by
  rw [step] at next
  split at next
  case isTrue =>
    obtain ⟨v, added, rfl⟩ := Option.map_eq_some_iff.mp next
    exact ⟨fun s => s, v, fun _ => rfl, fun _ => Or.inl rfl, added, rfl⟩
  case isFalse =>
    obtain ⟨v, added, rfl⟩ := Option.map_eq_some_iff.mp next
    exact ⟨fun s => { s with sym := ⟨call.addr, call.sz⟩ }, v, fun _ => rfl, fun _ => Or.inr rfl, added, rfl⟩

/-- A call leaves the keys of a name as they are or adds its own. -/
theorem keys_step {map map' : MapSymbols} {call : Call} (next : map.step call = some map') (name : String) :
    ((map'.records name).keys = (map.records name).keys ∧
      (call.name = name → ∃ sym, sameVersion sym call.ver call.vername = some true)) ∨
    (call.name = name ∧ (map'.records name).keys = (map.records name).keys ++ [call.record.versionKey] ∧
      ∀ sym ∈ map.records name, sameVersion sym call.ver call.vername = some false) := by
  obtain ⟨update, v, kept, -, added, rfl⟩ := step_eq next
  by_cases same : call.name = name
  · subst same
    rw [records_update]
    obtain ⟨⟨sym, -, same⟩, keys⟩ | ⟨others, keys⟩ := VerSymbols.add_cases kept added
    · exact Or.inl ⟨keys, fun _ => ⟨sym, same⟩⟩
    · exact Or.inr ⟨rfl, keys, others⟩
  · rw [records_update_of_ne (Ne.symm same)]
    exact Or.inl ⟨rfl, fun eq => absurd eq same⟩

theorem count_step {map map' : MapSymbols} {call : Call} (next : map.step call = some map') (name : String) {ver : Int}
    (high : 2 ≤ ver) : (map'.records name).keys.count (.number ver) = (map.records name).keys.count (.number ver) +
      if call.name = name ∧ call.ver = ver ∧ call.vername = none then 1 else 0 := by
  obtain ⟨keys, same⟩ | ⟨here, keys, -⟩ := keys_step next name
  · have other : ¬ (call.name = name ∧ call.ver = ver ∧ call.vername = none) := by
      rintro ⟨here, version, nameless⟩
      obtain ⟨sym, same⟩ := same here
      rw [sameVersion, if_neg (by omega), nameless] at same
      cases vername : sym.vername <;> simp [vername] at same
    rw [keys, if_neg other, Nat.add_zero]
  · rw [keys, List.count_append, List.count_singleton]
    congr 1
    refine if_congr ?_ rfl rfl
    rw [beq_iff_eq, VerSymbol.versionKey_eq_number high]
    exact (and_iff_right here).symm

theorem count_exec {calls : List Call} {map map' : MapSymbols} (run : exec step map calls = some map') (name : String)
    {ver : Int} (high : 2 ≤ ver) : (map'.records name).keys.count (.number ver) =
      (map.records name).keys.count (.number ver) +
        calls.countP fun call => call.name = name ∧ call.ver = ver ∧ call.vername = none := by
  induction calls generalizing map with
  | nil =>
    cases run
    rfl
  | cons call rest ih =>
    obtain ⟨mid, next, run⟩ := Option.bind_eq_some_iff.mp run
    rw [ih run, count_step next name high, List.countP_cons]
    simp only [decide_eq_true_eq]
    omega

/-- Every key but the number of a version without a name occurs once at most. -/
def KeysOnce (map : MapSymbols) : Prop :=
  ∀ name key, (∀ ver ≥ 2, key ≠ .number ver) → (map.records name).keys.count key ≤ 1

theorem keysOnce_step {map map' : MapSymbols} {call : Call} (once : map.KeysOnce) (next : map.step call = some map') :
    map'.KeysOnce := by
  intro name key named
  have before := once name key named
  obtain ⟨keys, -⟩ | ⟨-, keys, others⟩ := keys_step next name
  · rwa [keys]
  · rw [keys, List.count_append, List.count_singleton]
    split
    case isFalse => exact before
    case isTrue same =>
      rw [beq_iff_eq] at same
      have absent : key ∉ (map.records name).keys := by
        intro mem
        obtain ⟨sym, here, eq⟩ := List.mem_map.mp mem
        exact versionKey_ne (others sym here) (same ▸ named) (eq.trans same.symm)
      rw [List.count_eq_zero_of_not_mem absent]

theorem keysOnce_exec {calls : List Call} {map map' : MapSymbols} (once : map.KeysOnce)
    (run : exec step map calls = some map') : map'.KeysOnce := by
  induction calls generalizing map with
  | nil =>
    cases run
    exact once
  | cons call rest ih =>
    obtain ⟨mid, next, run⟩ := Option.bind_eq_some_iff.mp run
    exact ih (keysOnce_step once next) run

theorem oneEach_iff {calls : List Call} {map : MapSymbols} (built : exec step newMapSymbols calls = some map) :
    (∀ name, (map.records name).OneEach) ↔ NamesOnce calls := by
  have once : map.KeysOnce := keysOnce_exec (fun _ _ _ => Nat.zero_le _) built
  have counted (name : String) {ver : Int} (high : 2 ≤ ver) := (count_exec built name high).trans (Nat.zero_add _)
  constructor
  · intro oneEach name ver high
    rw [← counted name high]
    exact List.nodup_iff_count_le_one.mp (oneEach name) _
  · intro names name
    refine List.nodup_iff_count_le_one.mpr fun key => ?_
    by_cases nameless : ∃ ver ≥ 2, key = .number ver
    · obtain ⟨ver, high, rfl⟩ := nameless
      exact (counted name high).trans_le (names name ver high)
    · exact once name key fun ver high same => nameless ⟨ver, high, same⟩

/-- Every lookup in a map that calls have built, with one record for each version in it, is right exactly if no version
was added twice without a name and the record it is for is reached. -/
theorem symbol_lookup_iff {calls : List Call} {map : MapSymbols} (built : exec step newMapSymbols calls = some map)
    (q : Query) : ((∀ name, (map.records name).OneEach) ∧ map.Answers q) ↔
      NamesOnce calls ∧ (map.records q.name).Reached q := by
  rw [oneEach_iff built, answers_iff_reached]

/-- The global record is found, though the comment has the one without a version first. -/
example : (exec step newMapSymbols [⟨false, "f", 0x1000, 8, -1, none⟩, ⟨false, "f", 0x2000, 8, 1, none⟩]).bind
    (fun map => map.findSymbol "f" 1 none false) = some 0x2000 := by decide

/-- A local symbol, and a lookup of a version that it has to answer. -/
def localCalls : List Call := [⟨false, "environ", 0x1000, 8, 0, none⟩]

def versionedQuery : Query := ⟨"environ", 2, some "GLIBC_2.2.5", true, by decide⟩

theorem symbol_lookup_iff_local : ∃ map, exec step newMapSymbols localCalls = some map ∧
    (((∀ name, (map.records name).OneEach) ∧ map.Answers versionedQuery) ↔
      NamesOnce localCalls ∧ (map.records versionedQuery.name).Reached versionedQuery) :=
  ⟨_, rfl, symbol_lookup_iff rfl versionedQuery⟩

theorem local_symbol_missed : ¬ ∀ calls map, exec step newMapSymbols calls = some map →
    ∀ q : Query, (∀ name, (map.records name).OneEach) ∧ map.Answers q := by
  intro answers
  obtain ⟨-, ret, right, found, -⟩ := answers localCalls _ rfl versionedQuery
  have is : ret = some ⟨0, none, ⟨0x1000, 8⟩⟩ := right
  subst is
  exact absurd found (by decide)

end MapSymbols

end Box64.Librarian
