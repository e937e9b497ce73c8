import Box64.Librarian.Symbols
import Mathlib.Data.BitVec

/-!
# The name of an address

`GetSymbolName`, over the records of every name.
-/

namespace Box64.Librarian

open Runs

def OneSymbol.Contains (sym : OneSymbol) (addr : BitVec 64) : Prop :=
  sym.offs.toNat ≤ addr.toNat ∧ addr.toNat < sym.offs.toNat + sym.sz.toNat

instance (sym : OneSymbol) (addr : BitVec 64) : Decidable (sym.Contains addr) := inferInstanceAs (Decidable (_ ∧ _))

/-- `offs+sz` does not wrap. -/
def OneSymbol.Fits (sym : OneSymbol) : Prop := sym.offs.toNat + sym.sz.toNat < 2 ^ 64

theorem VerSymbols.add_forall {P : OneSymbol → Prop} {s s' : VerSymbols} {update : VerSymbol → VerSymbol}
    {new : VerSymbol} (kept : ∀ sym : VerSymbol, P sym.sym → P (update sym).sym) (fresh : P new.sym)
    (all : ∀ sym ∈ s, P sym.sym) (added : s.add update new = some s') : ∀ sym ∈ s', P sym.sym := by
  induction s generalizing s' with
  | nil =>
    cases added
    exact List.forall_mem_singleton.mpr fresh
  | cons first rest ih =>
    obtain ⟨here, later⟩ := List.forall_mem_cons.mp all
    obtain ⟨same, -, added⟩ := Option.bind_eq_some_iff.mp added
    cases same with
    | true =>
      cases added
      exact List.forall_mem_cons.mpr ⟨kept first here, later⟩
    | false =>
      rw [if_neg Bool.false_ne_true] at added
      obtain ⟨rest', addedRest, rfl⟩ := Option.map_eq_some_iff.mp added
      exact List.forall_mem_cons.mpr ⟨here, ih later addedRest⟩

namespace MapSymbols

/-- What `GetSymbolName` returns, and what it stores. -/
structure SymbolName where
  name : String
  start : BitVec 64
  sz : BitVec 32
  vername : Option String

/-- The names are visited in the order of the buckets. -/
def getSymbolName (map : MapSymbols) (buckets : List String) (addr : BitVec 64) : Option SymbolName :=
  buckets.findSome? fun name =>
    ((map.records name).find? fun s => s.sym.offs ≥ addr ∧ s.sym.offs + s.sym.sz.setWidth 64 < addr).map fun s =>
      ⟨name, s.sym.offs, s.sym.sz, s.vername⟩

/-- Some record contains the address. -/
def Covered (map : MapSymbols) (addr : BitVec 64) : Prop := ∃ name, ∃ s ∈ map.records name, s.sym.Contains addr

/-- A name is returned exactly if a record contains the address, with the place of such a record of the name. -/
structure Names (map : MapSymbols) (buckets : List String) (addr : BitVec 64) : Prop where
  found : (map.getSymbolName buckets addr).isSome ↔ map.Covered addr
  place : ∀ ret, map.getSymbolName buckets addr = some ret →
    ∃ s ∈ map.records ret.name, s.sym.Contains addr ∧ s.sym = ⟨ret.start, ret.sz⟩

theorem fits_exec {calls : List Call} {map map' : MapSymbols} (fits : ∀ call ∈ calls, call.record.sym.Fits)
    (before : ∀ name, ∀ s ∈ map.records name, s.sym.Fits) (run : exec step map calls = some map') :
    ∀ name, ∀ s ∈ map'.records name, s.sym.Fits := by
  induction calls generalizing map with
  | nil =>
    cases run
    exact before
  | cons call rest ih =>
    obtain ⟨here, later⟩ := List.forall_mem_cons.mp fits
    obtain ⟨mid, next, run⟩ := Option.bind_eq_some_iff.mp run
    refine ih later ?_ run
    obtain ⟨update, v, -, place, added, rfl⟩ := step_eq next
    intro name
    by_cases same : name = call.name
    · rw [same, records_update]
      refine VerSymbols.add_forall ?_ here (before call.name) added
      intro sym fits
      obtain old | new := place sym
      · rwa [old]
      · rwa [new]
    · rw [records_update_of_ne same]
      exact before name

theorem getSymbolName_none {map : MapSymbols} (fits : ∀ name, ∀ s ∈ map.records name, s.sym.Fits)
    (buckets : List String) (addr : BitVec 64) : map.getSymbolName buckets addr = none := by
  refine List.findSome?_eq_none_iff.mpr fun name _ => ?_
  rw [Option.map_eq_none_iff, List.find?_eq_none]
  intro s mem
  have room := fits name s mem
  rw [OneSymbol.Fits] at room
  rw [decide_eq_true_iff, ge_iff_le, BitVec.le_def, BitVec.lt_def, BitVec.toNat_add, BitVec.toNat_setWidth]
  have small := s.sym.sz.isLt
  omega

/-- In a map that calls have built, the name of an address is right exactly if no record contains the address. -/
theorem symbol_name_iff {calls : List Call} {map : MapSymbols} (fits : ∀ call ∈ calls, call.record.sym.Fits)
    (built : exec step newMapSymbols calls = some map) (buckets : List String) (addr : BitVec 64) :
    map.Names buckets addr ↔ ¬ map.Covered addr := by
  have nothing := getSymbolName_none (fits_exec fits (fun _ _ mem => (List.not_mem_nil mem).elim) built) buckets addr
  constructor
  · rintro ⟨found, -⟩ covered
    rw [nothing] at found
    exact absurd (found.mpr covered) Bool.false_ne_true
  · intro uncovered
    refine ⟨?_, ?_⟩
    · rw [nothing]
      exact iff_of_false Bool.false_ne_true uncovered
    · intro ret some
      rw [nothing] at some
      cases some

theorem localCalls_fit : ∀ call ∈ localCalls, call.record.sym.Fits :=
  List.forall_mem_singleton.mpr (by simp [Call.record, OneSymbol.Fits])

theorem symbol_name_iff_local : ∃ map, exec step newMapSymbols localCalls = some map ∧
    (map.Names ["environ"] 0x1004 ↔ ¬ map.Covered 0x1004) :=
  ⟨_, rfl, symbol_name_iff localCalls_fit rfl ["environ"] 0x1004⟩

theorem symbol_unnamed : ¬ ∀ calls map, (∀ call ∈ calls, call.record.sym.Fits) →
    exec step newMapSymbols calls = some map → ∀ buckets, (∀ name, name ∈ buckets ↔ (map name).isSome) →
      ∀ addr, map.Names buckets addr := by
  intro names
  have buckets (name : String) : name ∈ ["environ"] ↔
      ((Function.update newMapSymbols "environ" (some [⟨0, none, ⟨0x1000, 8⟩⟩])) name).isSome := by
    rw [List.mem_singleton]
    by_cases same : name = "environ"
    · rw [same, Function.update_self]
      exact iff_of_true rfl rfl
    · rw [Function.update_of_ne same]
      exact iff_of_false same Bool.false_ne_true
  have found := (names localCalls _ localCalls_fit rfl ["environ"] buckets 0x1004).found
  have covered : Covered (Function.update newMapSymbols "environ" (some [⟨0, none, ⟨0x1000, 8⟩⟩])) 0x1004 :=
    ⟨"environ", _, List.mem_singleton.mpr rfl, by decide⟩
  exact absurd (found.mpr covered) (by decide)

end MapSymbols

end Box64.Librarian
