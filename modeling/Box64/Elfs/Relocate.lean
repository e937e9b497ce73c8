import Box64.Lib.WordMemory
import Box64.Librarian.Symbols

/-!
# REL and RELA relocations

`RelocateElfREL` and `RelocateElfRELA` on the types that both implement and that write a full 64-bit place. What
`librarian.c` finds in a map is a function of the symbol. The result is `none` where a null pointer is read.
-/

/-- The memory of the guest, which relocations are written to. -/
abbrev Box64.GuestMemory := Memory

namespace Box64.Elfs

open Librarian

structure Elf64_Sym where
  symname : String
  bind : BitVec 4
  st_value : BitVec 64
  st_size : BitVec 64

def STB_LOCAL : BitVec 4 := 0

inductive RelocType where
  | R_X86_64_64
  | R_X86_64_COPY
  | R_X86_64_GLOB_DAT
  | R_X86_64_RELATIVE
deriving DecidableEq

structure Elf64_Rel where
  r_offset : BitVec 64
  r_type : RelocType
  r_sym : Nat

structure Elf64_Rela extends Elf64_Rel where
  r_addend : BitVec 64

structure ElfHeader where
  delta : BitVec 64
  DynSym : Nat → Elf64_Sym
  VerSym : Option (Nat → BitVec 16)
  GetSymbolVersion : Int → Option String
  rela : Option (List Elf64_Rela)

/-- A symbol as the maps are asked for it. -/
structure SymbolRef where
  symname : String
  version : Int
  vername : Option String

namespace ElfHeader

def version (h : ElfHeader) (r_sym : Nat) : Int := h.VerSym.elim (-1) fun verSym => (verSym r_sym &&& 0x7fff).toNat

def symbolRef (h : ElfHeader) (r_sym : Nat) : SymbolRef :=
  ⟨(h.DynSym r_sym).symname, h.version r_sym, h.GetSymbolVersion (h.version r_sym)⟩

end ElfHeader

/-- What the lookups of a `lib_t` leave in `offs` and `end`, which are 0 before them. -/
structure LibT where
  globalSymbol : SymbolRef → (self : Nat) → BitVec 64 × BitVec 64
  globalNoWeakSymbol : SymbolRef → Option (BitVec 64 × BitVec 64)
  noSelfSymbol : SymbolRef → (self : Nat) → BitVec 64
  noWeakInNative : SymbolRef → Bool

def sameVersionnedSymbol (one : SymbolRef) (other : SymbolRef) : Option Bool :=
  if one.symname ≠ other.symname then some false
  else if one.version = -1 ∨ other.version = -1 then some true
  else if one.version = other.version ∧ one.version < 2 then some true
  else if one.version = 0 ∨ other.version = 0 then some false
  else if one.version = 1 ∨ other.version = 1 then some true
  else do
    let vername1 ← one.vername
    let vername2 ← other.vername
    some (vername1 = vername2)

/-- The loop of `FindR64COPYRel`. -/
def findCopy (h : ElfHeader) (ref : SymbolRef) : List Elf64_Rela → Option (Option (BitVec 64))
  | [] => some none
  | rela :: rest =>
    let sym := h.DynSym rela.r_sym
    if rela.r_type = .R_X86_64_COPY ∧ sym.symname = ref.symname then do
      let version2 := h.version rela.r_sym
      -- match a versionned symbol against a global "local" symbol
      let version2 := if ref.version ≠ 0 ∧ version2 = 0 then -1 else version2
      let same ← sameVersionnedSymbol ref ⟨sym.symname, version2, h.GetSymbolVersion version2⟩
      if same then some (some (sym.st_value + h.delta)) else findCopy h ref rest
    else findCopy h ref rest

def findR64COPYRel (h : ElfHeader) (ref : SymbolRef) : Option (Option (BitVec 64)) :=
  h.rela.elim (some none) (findCopy h ref)

/-- What relocating writes to: the memory and the symbols of `GetGlobalData(maplib)`. -/
structure Image where
  mem : GuestMemory
  globaldata : MapSymbols

structure Relocated extends Image where
  ret_ok : Bool
  /-- The address of the symbol that each entry is resolved to. -/
  chosen : List (BitVec 64)

namespace Relocated

def store (s : Relocated) (p value : BitVec 64) : Relocated := { s with mem := s.mem.store p value }

def choose (s : Relocated) (offs : BitVec 64) : Relocated := { s with chosen := s.chosen ++ [offs] }

end Relocated

section Functions

variable (elfs : Nat → ElfHeader) (maplib local_maplib : Option LibT) (head : Nat)

def getGlobalSymbolStartEnd (maplib : Option LibT) (ref : SymbolRef) : BitVec 64 × BitVec 64 :=
  maplib.elim (0, 0) fun map => map.globalSymbol ref head

/-- The offset of `R_X86_64_COPY` in the main ELF, for a library whose `GLOB_DAT` has to follow it. -/
def copiedTo (ref : SymbolRef) : Option (Option (BitVec 64)) :=
  if head = 0 then some none
  else do
    let map ← maplib
    if map.noWeakInNative ref then some none else findR64COPYRel (elfs 0) ref

/-- `GetSymbolStartEnd(GetGlobalData(maplib), ..)` -/
def globalDataSymbol (s : Relocated) (ref : SymbolRef) : Option (BitVec 64) :=
  (s.globaldata.getSymbolStartEnd ref.symname ref.version ref.vername true).map fun found => found.elim 0 Prod.fst

def addWeakSymbol (s : Relocated) (ref : SymbolRef) (offs st_size : BitVec 64) : Option Relocated :=
  (s.globaldata.addWeakSymbol ref.symname offs (st_size.setWidth 32) ref.version ref.vername).map fun globaldata =>
    { s with globaldata }

/-- The last part of `R_X86_64_GLOB_DAT`, for the same symbol already loaded but not in self. -/
def globDat (s : Relocated) (ref : SymbolRef) (p offs : BitVec 64) : Option Relocated := do
  let map ← local_maplib <|> maplib
  let offs := (map.globalNoWeakSymbol ref).elim offs Prod.fst
  some (if offs = 0 then s.choose 0 else (s.store p offs).choose offs)

/-- `offs` and `end` as `RelocateElfREL` finds them. -/
def relSymbol (sym : Elf64_Sym) (ref : SymbolRef) : BitVec 64 × BitVec 64 :=
  if sym.bind = STB_LOCAL then
    (sym.st_value + (elfs head).delta, sym.st_value + (elfs head).delta + sym.st_size)
  else
    let found := if local_maplib.isSome then getGlobalSymbolStartEnd head local_maplib ref else (0, 0)
    if found = (0, 0) ∧ local_maplib.isSome then getGlobalSymbolStartEnd head maplib ref else found

/-- `offs` and `end` as `RelocateElfRELA` finds them. -/
def relaSymbol (sym : Elf64_Sym) (ref : SymbolRef) : BitVec 64 × BitVec 64 :=
  if sym.bind = STB_LOCAL then
    (sym.st_value + (elfs head).delta, sym.st_value + (elfs head).delta + sym.st_size)
  else
    let found := getGlobalSymbolStartEnd head maplib ref
    if found = (0, 0) ∧ local_maplib.isSome then getGlobalSymbolStartEnd head local_maplib ref else found

/-- The symbol that `RelocateElfREL` copies, where the global data has `offs` for it. -/
def relCopy (map : LibT) (ref : SymbolRef) (offs old_offs : BitVec 64) : BitVec 64 :=
  let offs :=
    if offs = 0 then
      let offs := map.noSelfSymbol ref head
      if offs = 0 then local_maplib.elim offs fun map => map.noSelfSymbol ref head else offs
    else offs
  if offs = 0 then old_offs else offs

/-- The symbol that `RelocateElfRELA` copies, where the global data has `offs` for it. -/
def relaCopy (map : LibT) (ref : SymbolRef) (offs globoffs : BitVec 64) : BitVec 64 :=
  let offs := if offs = 0 then local_maplib.elim offs fun map => map.noSelfSymbol ref head else offs
  let offs := if offs = 0 then map.noSelfSymbol ref head else offs
  if offs = 0 then globoffs else offs

def relEntry (s : Relocated) (rel : Elf64_Rel) : Option Relocated :=
  let h := elfs head
  let sym := h.DynSym rel.r_sym
  let ref := h.symbolRef rel.r_sym
  let p := rel.r_offset + h.delta
  let offs := (relSymbol elfs maplib local_maplib head sym ref).1
  match rel.r_type with
  | .R_X86_64_GLOB_DAT => do
    match ← copiedTo elfs maplib head ref with
    | some globoffs =>
      let offs := sym.st_value
      let preapplied :=
        if sym.st_size ≠ 0 ∧ offs ≠ 0 then
          addWeakSymbol { s with mem := s.mem.move globoffs offs sym.st_size.toNat } ref (offs + h.delta) sym.st_size
        else some s
      preapplied.map fun s => (s.store p globoffs).choose globoffs
    | none => globDat maplib local_maplib s ref p offs
  | .R_X86_64_COPY =>
    if offs ≠ 0 then do
      let old_offs := offs
      let map ← maplib
      let offs ← globalDataSymbol s ref
      let offs := relCopy local_maplib head map ref offs old_offs
      some ({ s with mem := s.mem.move p offs sym.st_size.toNat }.choose offs)
    else some (s.choose 0)
  | .R_X86_64_RELATIVE => some (s.store p (s.mem.load 64 p + h.delta))
  | .R_X86_64_64 =>
    if offs = 0 then some ({ s with ret_ok := true }.choose 0)
    else some ((s.store p (s.mem.load 64 p + offs)).choose offs)

def relaEntry (s : Relocated) (rela : Elf64_Rela) : Option Relocated :=
  let h := elfs head
  let sym := h.DynSym rela.r_sym
  let ref := h.symbolRef rela.r_sym
  let p := rela.r_offset + h.delta
  let offs := (relaSymbol elfs maplib local_maplib head sym ref).1
  match rela.r_type with
  | .R_X86_64_GLOB_DAT => do
    match ← copiedTo elfs maplib head ref with
    | some globoffs =>
      let offs := sym.st_value + h.delta
      let preapplied := if sym.st_size ≠ 0 ∧ offs ≠ 0 then addWeakSymbol s ref offs sym.st_size else some s
      preapplied.map fun s => (s.store p globoffs).choose globoffs
    | none => globDat maplib local_maplib s ref p offs
  | .R_X86_64_COPY => do
    let globoffs := offs
    let map ← maplib
    let offs ← globalDataSymbol s ref
    let offs := relaCopy local_maplib head map ref offs globoffs
    if offs ≠ 0 then
      let s := if p ≠ offs + rela.r_addend then
          { s with mem := s.mem.move p (offs + rela.r_addend) sym.st_size.toNat }
        else s
      some (s.choose offs)
    else some (s.choose 0)
  | .R_X86_64_RELATIVE => some (s.store p (h.delta + rela.r_addend))
  | .R_X86_64_64 =>
    if offs = 0 then some ({ s with ret_ok := true }.choose 0)
    else some ((s.store p (offs + rela.r_addend)).choose offs)

/-- What is left of the image, the value returned and the symbols chosen. -/
def relocateElfREL (bindnow : Bool) (image : Image) (rel : List Elf64_Rel) : Option (Image × Bool × List (BitVec 64)) :=
  (rel.foldlM (relEntry elfs maplib local_maplib head) ⟨image, false, []⟩).map fun s =>
    (s.toImage, bindnow && s.ret_ok, s.chosen)

def relocateElfRELA (bindnow : Bool) (image : Image) (rela : List Elf64_Rela) :
    Option (Image × Bool × List (BitVec 64)) :=
  (rela.foldlM (relaEntry elfs maplib local_maplib head) ⟨image, false, []⟩).map fun s =>
    (s.toImage, bindnow && s.ret_ok, s.chosen)

/-- What the two functions are compared on: the memory, the value returned and the symbols chosen. -/
def observed (result : Image × Bool × List (BitVec 64)) : GuestMemory × Bool × List (BitVec 64) := (result.1.mem, result.2)

/-- The addend of an entry of which the place holds the value that `RelocateElfREL` adds to. -/
def addend (image : Image) (rel : Elf64_Rel) : BitVec 64 :=
  if rel.r_type = .R_X86_64_COPY then 0 else image.mem.load 64 (rel.r_offset + (elfs head).delta)

/-- Both functions do the same with an entry, the second with the first one's value in the place as addend. -/
def Agree (bindnow : Bool) (image : Image) (rel : Elf64_Rel) : Prop :=
  (relocateElfREL elfs maplib local_maplib head bindnow image [rel]).map observed =
    (relocateElfRELA elfs maplib local_maplib head bindnow image [⟨rel, addend elfs head image rel⟩]).map observed

/-! ### Where they agree -/

/-- The two maps have one address for the symbol, or only one of them has the symbol; without a local map, nothing has. -/
def MapsMeet (ref : SymbolRef) : Prop :=
  let global := getGlobalSymbolStartEnd head maplib ref
  match local_maplib with
  | none => global.1 = 0
  | some map => map.globalSymbol ref head = (0, 0) ∨ global = (0, 0) ∨ (map.globalSymbol ref head).1 = global.1

def SameSymbol (sym : Elf64_Sym) (ref : SymbolRef) : Prop :=
  sym.bind = STB_LOCAL ∨ MapsMeet maplib local_maplib head ref

/-- The symbol is local at address 0, or neither the local map has it nor, where there is a local map, the other one. -/
def RelMisses (sym : Elf64_Sym) (ref : SymbolRef) : Prop :=
  if sym.bind = STB_LOCAL then sym.st_value + (elfs head).delta = 0
  else
    match local_maplib with
    | none => True
    | some map =>
      if map.globalSymbol ref head = (0, 0) then (getGlobalSymbolStartEnd head maplib ref).1 = 0
      else (map.globalSymbol ref head).1 = 0

/-- The condition for `R_X86_64_COPY`: the symbol is found before the copy is looked for, or there is none, and where the
global data has no copy, the two maps have one copy or only one of them has any. -/
def CopiesMeet (globaldata : MapSymbols) (sym : Elf64_Sym) (ref : SymbolRef) : Prop :=
  let data := globaldata.getSymbolStartEnd ref.symname ref.version ref.vername true
  let localCopy := local_maplib.elim 0 fun map => map.noSelfSymbol ref head
  (RelMisses elfs maplib local_maplib head sym ref → ∃ map found, maplib = some map ∧ data = some found ∧
      found.elim 0 Prod.fst = 0 ∧ map.noSelfSymbol ref head = 0 ∧ localCopy = 0) ∧
    ∀ map found, maplib = some map → data = some found → found.elim 0 Prod.fst = 0 →
      (map.noSelfSymbol ref head ≠ 0 → localCopy ≠ 0 → map.noSelfSymbol ref head = localCopy) ∧
        (map.noSelfSymbol ref head = 0 → localCopy = 0 → SameSymbol maplib local_maplib head sym ref)

/-- The condition for a `GLOB_DAT` that follows a copy at `globoffs` in the main ELF: what `RelocateElfREL` moves there
from `st_value` is there already, apart from the place itself. Where only one function registers the symbol, that reads
no null name. -/
def PreapplyKept (image : Image) (sym : Elf64_Sym) (ref : SymbolRef) (p globoffs : BitVec 64) : Prop :=
  let offs := sym.st_value + (elfs head).delta
  let registers := (image.globaldata.addWeakSymbol ref.symname offs (sym.st_size.setWidth 32) ref.version
    ref.vername).isSome
  sym.st_size ≠ 0 →
    (sym.st_value ≠ 0 → (offs ≠ 0 → registers) → ∀ b : BitVec 64, (b - globoffs).toNat < sym.st_size.toNat →
      ¬ (b - p).toNat < 8 → image.mem (sym.st_value + (b - globoffs)) = image.mem b) ∧
    (¬ (sym.st_value = 0 ↔ offs = 0) → registers)

def EntriesMeet (image : Image) (rel : Elf64_Rel) : Prop :=
  let h := elfs head
  let sym := h.DynSym rel.r_sym
  let ref := h.symbolRef rel.r_sym
  match rel.r_type with
  | .R_X86_64_RELATIVE => True
  | .R_X86_64_64 => SameSymbol maplib local_maplib head sym ref
  | .R_X86_64_COPY => CopiesMeet elfs maplib local_maplib head image.globaldata sym ref
  | .R_X86_64_GLOB_DAT =>
    match copiedTo elfs maplib head ref with
    | none => True
    | some (some globoffs) => PreapplyKept elfs head image sym ref (rel.r_offset + h.delta) globoffs
    | some none =>
      ∀ map, (local_maplib <|> maplib) = some map → map.globalNoWeakSymbol ref = none →
        SameSymbol maplib local_maplib head sym ref

end Functions

/-! ### The symbol -/

section Symbol

variable {elfs : Nat → ElfHeader} {maplib local_maplib : Option LibT} {head : Nat} {sym : Elf64_Sym} {ref : SymbolRef}

theorem getGlobalSymbolStartEnd_some {map : LibT} :
    getGlobalSymbolStartEnd head (some map) ref = map.globalSymbol ref head := rfl

theorem relSymbol_eq_relaSymbol (elfs : Nat → ElfHeader) : (relSymbol elfs maplib local_maplib head sym ref).1 =
    (relaSymbol elfs maplib local_maplib head sym ref).1 ↔ SameSymbol maplib local_maplib head sym ref := by
  unfold relSymbol relaSymbol SameSymbol MapsMeet
  by_cases here : sym.bind = STB_LOCAL
  · rw [if_pos here, if_pos here]
    exact iff_of_true rfl (.inl here)
  rw [if_neg here, if_neg here, or_iff_right here]
  cases local_maplib with
  | none => simpa using eq_comm
  | some map =>
    simp only [Option.isSome_some, if_true, and_true, getGlobalSymbolStartEnd_some]
    by_cases first : map.globalSymbol ref head = (0, 0)
    · rw [if_pos first]
      refine iff_of_true ?_ (.inl first)
      split
      · rename_i none
        rw [first, none]
      · rfl
    · rw [if_neg first, or_iff_right first]
      by_cases second : getGlobalSymbolStartEnd head maplib ref = (0, 0)
      · rw [if_pos second]
        exact iff_of_true rfl (.inl second)
      · rw [if_neg second, or_iff_right second]

theorem relSymbol_eq_zero : (relSymbol elfs maplib local_maplib head sym ref).1 = 0 ↔
    RelMisses elfs maplib local_maplib head sym ref := by
  unfold relSymbol RelMisses
  by_cases here : sym.bind = STB_LOCAL
  · rw [if_pos here, if_pos here]
  rw [if_neg here, if_neg here]
  cases local_maplib with
  | none => simp
  | some map =>
    simp only [Option.isSome_some, if_true, and_true, getGlobalSymbolStartEnd_some]
    split <;> exact Iff.rfl

end Symbol

/-! ### One entry -/

section Entry

variable {elfs : Nat → ElfHeader} {maplib local_maplib : Option LibT} {head : Nat} {bindnow : Bool} {image : Image}

/-- What is observed of an entry that has been processed. -/
def seen (bindnow : Bool) (s : Relocated) : GuestMemory × Bool × List (BitVec 64) := (s.mem, bindnow && s.ret_ok, s.chosen)

def Image.start (image : Image) : Relocated := ⟨image, false, []⟩

theorem agree_iff_seen {rel : Elf64_Rel} : Agree elfs maplib local_maplib head bindnow image rel ↔
    (relEntry elfs maplib local_maplib head image.start rel).map (seen bindnow) =
      (relaEntry elfs maplib local_maplib head image.start ⟨rel, addend elfs head image rel⟩).map (seen bindnow) := by
  unfold Agree relocateElfREL relocateElfRELA
  rw [List.foldlM_cons, List.foldlM_cons, Option.map_map, Option.map_map]
  simp only [List.foldlM_nil, bind_pure]
  exact Iff.rfl

theorem chosen_of_seen {s t : Relocated} (same : (some s).map (seen bindnow) = (some t).map (seen bindnow)) :
    s.chosen = t.chosen := congrArg (fun observed => observed.2.2) (Option.some.inj same)

theorem agree_relative {r_offset : BitVec 64} {r_sym : Nat} :
    Agree elfs maplib local_maplib head bindnow image ⟨r_offset, .R_X86_64_RELATIVE, r_sym⟩ := by
  rw [agree_iff_seen]
  change some _ = some _
  rw [BitVec.add_comm (elfs head).delta]
  rfl

/-- An entry without a symbol is put down as resolved to address 0. -/
theorem chosen_ite {offs : BitVec 64} {s t : Relocated} (first : s.chosen = []) (second : t.chosen = []) :
    (if offs = 0 then s.choose 0 else t.choose offs).chosen = [offs] := by
  split
  · rename_i zero
    rw [zero, Relocated.choose, first]
    rfl
  · rw [Relocated.choose, second]
    rfl

theorem eq_of_seen_ite {rel rela : BitVec 64} {s t s' t' : Relocated} (first : s.chosen = []) (second : t.chosen = [])
    (third : s'.chosen = []) (fourth : t'.chosen = [])
    (same : (some (if rel = 0 then s.choose 0 else t.choose rel)).map (seen bindnow) =
      (some (if rela = 0 then s'.choose 0 else t'.choose rela)).map (seen bindnow)) : rel = rela := by
  have chosen := chosen_of_seen same
  rw [chosen_ite first second, chosen_ite third fourth] at chosen
  exact List.singleton_inj.mp chosen

/-- A place that holds 64 bits of the symbol at `offs`, with the value in the place or the addend added to it. -/
theorem seen_symbol {rel rela p value : BitVec 64} (place : image.mem.load 64 p = value) :
    (if rel = 0 then some ({ image.start with ret_ok := true }.choose 0)
      else some ((image.start.store p (image.mem.load 64 p + rel)).choose rel)).map (seen bindnow) =
    (if rela = 0 then some ({ image.start with ret_ok := true }.choose 0)
      else some ((image.start.store p (rela + value)).choose rela)).map (seen bindnow) ↔ rel = rela := by
  rw [← apply_ite some, ← apply_ite some]
  constructor
  · exact eq_of_seen_ite rfl rfl rfl rfl
  · rintro rfl
    rw [place, BitVec.add_comm]

theorem agree_64 {r_offset : BitVec 64} {r_sym : Nat} :
    Agree elfs maplib local_maplib head bindnow image ⟨r_offset, .R_X86_64_64, r_sym⟩ ↔
      SameSymbol maplib local_maplib head ((elfs head).DynSym r_sym) ((elfs head).symbolRef r_sym) := by
  rw [agree_iff_seen, ← relSymbol_eq_relaSymbol elfs]
  exact seen_symbol rfl

theorem seen_globDat {rel rela p : BitVec 64} {ref : SymbolRef} :
    (globDat maplib local_maplib image.start ref p rel).map (seen bindnow) =
      (globDat maplib local_maplib image.start ref p rela).map (seen bindnow) ↔
    ∀ map, (local_maplib <|> maplib) = some map → map.globalNoWeakSymbol ref = none → rel = rela := by
  unfold globDat
  cases (local_maplib <|> maplib) with
  | none => simp
  | some map =>
    simp only [Option.bind_eq_bind, Option.bind_some, Option.some.injEq, forall_eq']
    cases map.globalNoWeakSymbol ref with
    | some found => exact iff_of_true rfl nofun
    | none =>
      simp only [forall_const, Option.elim_none]
      constructor
      · exact eq_of_seen_ite rfl rfl rfl rfl
      · rintro rfl
        rfl

/-- Two results that take their place behind the same fallible call, each only under its own condition. -/
theorem map_ite_eq {α β : Type} {moves adds : Prop} [Decidable moves] [Decidable adds] {call : Option α} {x y : β} :
    (if moves then call.map fun _ => x else some y) = (if adds then call.map fun _ => y else some y) ↔
      (moves → (adds → call.isSome) → x = y) ∧ (¬ (moves ↔ adds) → call.isSome) := by
  by_cases first : moves
  · by_cases second : adds <;> cases call <;> simp [first, second]
  · by_cases second : adds <;> cases call <;> simp [first, second]

theorem seen_registered {c : Prop} [Decidable c] {s t : Relocated} {ref : SymbolRef} {offs st_size p globoffs : BitVec 64}
    (mem : GuestMemory) (moved : t.mem = mem) (ret : t.ret_ok = false) (chosen : t.chosen = [])
    (data : t.globaldata = s.globaldata) (ret' : s.ret_ok = false) (chosen' : s.chosen = []) :
    ((if c then addWeakSymbol t ref offs st_size else some s).map fun s =>
        (s.store p globoffs).choose globoffs).map (seen bindnow) =
      if c then (s.globaldata.addWeakSymbol ref.symname offs (st_size.setWidth 32) ref.version ref.vername).map fun _ =>
        (mem.store p globoffs, false, [globoffs])
      else some (s.mem.store p globoffs, false, [globoffs]) := by
  split
  · rw [addWeakSymbol, data]
    cases s.globaldata.addWeakSymbol ref.symname offs (st_size.setWidth 32) ref.version ref.vername with
    | none => rfl
    | some globaldata => simp [seen, Relocated.store, Relocated.choose, moved, ret, chosen]
  · simp [seen, Relocated.store, Relocated.choose, ret', chosen']

theorem seen_preapply {sym : Elf64_Sym} {ref : SymbolRef} {p globoffs : BitVec 64} :
    ((if sym.st_size ≠ 0 ∧ sym.st_value ≠ 0 then
        addWeakSymbol { image.start with mem := image.mem.move globoffs sym.st_value sym.st_size.toNat } ref
          (sym.st_value + (elfs head).delta) sym.st_size
      else some image.start).map fun s => (s.store p globoffs).choose globoffs).map (seen bindnow) =
    ((if sym.st_size ≠ 0 ∧ sym.st_value + (elfs head).delta ≠ 0 then
        addWeakSymbol image.start ref (sym.st_value + (elfs head).delta) sym.st_size
      else some image.start).map fun s => (s.store p globoffs).choose globoffs).map (seen bindnow) ↔
    PreapplyKept elfs head image sym ref p globoffs := by
  let moved : Relocated := { image.start with mem := image.mem.move globoffs sym.st_value sym.st_size.toNat }
  rw [seen_registered (s := image.start) (t := moved) _ rfl rfl rfl rfl rfl rfl,
    seen_registered (s := image.start) (t := image.start) _ rfl rfl rfl rfl rfl rfl]
  refine map_ite_eq.trans ?_
  rw [Prod.mk.injEq, and_iff_left rfl]
  change (_ → _ → (image.mem.move globoffs sym.st_value sym.st_size.toNat).store p globoffs =
    image.mem.store p globoffs) ∧ _ ↔ _
  rw [Memory.store_move, PreapplyKept]
  by_cases size : sym.st_size = 0
  · simp [size]
  · simp only [ne_eq, size, not_false_eq_true, true_and, forall_const, not_iff_not]
    exact Iff.rfl

theorem relCopy_ne_zero {map : LibT} {ref : SymbolRef} {offs old_offs : BitVec 64} (found : old_offs ≠ 0) :
    relCopy local_maplib head map ref offs old_offs ≠ 0 := by
  unfold relCopy
  by_cases data : offs = 0#64
  · by_cases copy : map.noSelfSymbol ref head = 0#64
    · cases local_maplib with
      | none => simpa [data, copy] using found
      | some localMap =>
        by_cases localCopy : localMap.noSelfSymbol ref head = 0#64
        · simpa [data, copy, localCopy] using found
        · simp [data, copy, localCopy]
    · simp [data, copy]
  · simp [data]

/-- What `RelocateElfREL` makes of the symbol that it copies. -/
theorem seen_relCopy {p offs : BitVec 64} {n : Nat} :
    (some ({ image.start with mem := image.mem.move p offs n }.choose offs)).map (seen bindnow) =
      some (image.mem.move p offs n, false, [offs]) := by
  simp [seen, Image.start, Relocated.choose]

/-- What `RelocateElfRELA` makes of the symbol that it copies. -/
theorem seen_relaCopy {p offs : BitVec 64} {n : Nat} :
    (if offs ≠ 0 then
        some (Relocated.choose (if p ≠ offs + 0 then { image.start with mem := image.mem.move p (offs + 0) n }
          else image.start) offs)
      else some (image.start.choose 0)).map (seen bindnow) =
    some (if offs = 0 then image.mem else image.mem.move p offs n, false, [offs]) := by
  have here : offs + 0 = offs := by simp
  rw [here]
  by_cases zero : offs = 0
  · rw [if_neg (not_not.mpr zero), if_pos zero, zero]
    simp [seen, Image.start, Relocated.choose]
  rw [if_pos zero, if_neg zero]
  by_cases there : p = offs
  · rw [if_neg (not_not.mpr there), ← there, Memory.move_self]
    simp [seen, Image.start, Relocated.choose]
  · rw [if_pos there]
    simp [seen, Image.start, Relocated.choose]

theorem relCopy_eq_relaCopy {map : LibT} {ref : SymbolRef} {offs rel rela : BitVec 64} :
    relCopy local_maplib head map ref offs rel = relaCopy local_maplib head map ref offs rela ↔
      (offs = 0 →
        (map.noSelfSymbol ref head ≠ 0 → (local_maplib.elim 0 fun map => map.noSelfSymbol ref head) ≠ 0 →
          map.noSelfSymbol ref head = local_maplib.elim 0 fun map => map.noSelfSymbol ref head) ∧
        (map.noSelfSymbol ref head = 0 → (local_maplib.elim 0 fun map => map.noSelfSymbol ref head) = 0 →
          rel = rela)) := by
  unfold relCopy relaCopy
  by_cases data : offs = 0#64
  · by_cases copy : map.noSelfSymbol ref head = 0#64
    · cases local_maplib with
      | none => simp [data, copy]
      | some localMap =>
        by_cases localCopy : localMap.noSelfSymbol ref head = 0#64 <;> simp [data, copy, localCopy]
    · cases local_maplib with
      | none => simp [data, copy]
      | some localMap =>
        by_cases localCopy : localMap.noSelfSymbol ref head = 0#64 <;> simp [data, copy, localCopy]
  · simp [data]

theorem relaCopy_eq_zero {map : LibT} {ref : SymbolRef} {offs rela : BitVec 64} :
    relaCopy local_maplib head map ref offs rela = 0 ↔ offs = 0 ∧ map.noSelfSymbol ref head = 0 ∧
      (local_maplib.elim 0 fun map => map.noSelfSymbol ref head) = 0 ∧ rela = 0 := by
  unfold relaCopy
  by_cases data : offs = 0#64
  · cases local_maplib with
    | none => by_cases copy : map.noSelfSymbol ref head = 0#64 <;> simp [data, copy]
    | some localMap =>
      by_cases localCopy : localMap.noSelfSymbol ref head = 0#64
      · by_cases copy : map.noSelfSymbol ref head = 0#64 <;> simp [data, copy, localCopy]
      · simp [data, localCopy]
  · simp [data]

theorem agree_copy {r_offset : BitVec 64} {r_sym : Nat} :
    Agree elfs maplib local_maplib head bindnow image ⟨r_offset, .R_X86_64_COPY, r_sym⟩ ↔
      CopiesMeet elfs maplib local_maplib head image.globaldata ((elfs head).DynSym r_sym)
        ((elfs head).symbolRef r_sym) := by
  rw [agree_iff_seen, CopiesMeet, ← relSymbol_eq_zero, ← relSymbol_eq_relaSymbol elfs]
  simp only [relEntry, relaEntry, addend, if_true]
  generalize (relSymbol elfs maplib local_maplib head ((elfs head).DynSym r_sym) ((elfs head).symbolRef r_sym)).1 = rel
  generalize (relaSymbol elfs maplib local_maplib head ((elfs head).DynSym r_sym) ((elfs head).symbolRef r_sym)).1 = rela
  cases maplib with
  | none =>
    by_cases found : rel = 0 <;> simp [found]
  | some map =>
    cases data : image.globaldata.getSymbolStartEnd ((elfs head).symbolRef r_sym).symname
        ((elfs head).symbolRef r_sym).version ((elfs head).symbolRef r_sym).vername true with
    | none => by_cases found : rel = 0 <;> simp [found, globalDataSymbol, Image.start, data]
    | some found =>
      have start : image.start.globaldata = image.globaldata := rfl
      simp only [globalDataSymbol, start, data, Option.bind_eq_bind, Option.bind_some, Option.map_some]
      refine (Iff.of_eq (congrArg (_ = ·) seen_relaCopy)).trans ?_
      by_cases zero : rel = 0
      · rw [if_neg (not_not.mpr zero)]
        have nothing : (some (image.start.choose 0)).map (seen bindnow) = some (image.mem, false, [0]) := by
          simp [seen, Image.start, Relocated.choose]
        rw [nothing, Option.some.injEq, Prod.mk.injEq, Prod.mk.injEq, List.singleton_inj]
        constructor
        · rintro ⟨-, -, picked⟩
          obtain ⟨global, copy, localCopy, same⟩ := relaCopy_eq_zero.mp picked.symm
          refine ⟨fun _ => ⟨map, found, rfl, rfl, global, copy, localCopy⟩, ?_⟩
          rintro _ _ ⟨⟩ ⟨⟩ -
          exact ⟨fun other => absurd copy other, fun _ _ => zero.trans same.symm⟩
        · rintro ⟨nowhere, meets⟩
          obtain ⟨_, _, ⟨⟩, ⟨⟩, global, copy, localCopy⟩ := nowhere zero
          have same := (meets map found rfl rfl global).2 copy localCopy
          have picked := relaCopy_eq_zero.mpr ⟨global, copy, localCopy, same.symm.trans zero⟩
          rw [picked, if_pos rfl]
          exact ⟨rfl, rfl, rfl⟩
      · rw [if_pos zero]
        refine (Iff.of_eq (congrArg (· = _) seen_relCopy)).trans ?_
        rw [Option.some.injEq, Prod.mk.injEq, Prod.mk.injEq, List.singleton_inj]
        constructor
        · rintro ⟨-, -, picked⟩
          refine ⟨fun missed => absurd missed zero, ?_⟩
          rintro _ _ ⟨⟩ ⟨⟩
          exact relCopy_eq_relaCopy.mp picked
        · rintro ⟨-, meets⟩
          have picked := relCopy_eq_relaCopy.mpr (meets map found rfl rfl)
          have some_picked := picked ▸ relCopy_ne_zero zero
          rw [if_neg some_picked, picked]
          exact ⟨rfl, rfl, rfl⟩

/-- A `GLOB_DAT` that follows no copy, or one. -/
theorem agree_globDat {r_offset : BitVec 64} {r_sym : Nat} :
    Agree elfs maplib local_maplib head bindnow image ⟨r_offset, .R_X86_64_GLOB_DAT, r_sym⟩ ↔
      EntriesMeet elfs maplib local_maplib head image ⟨r_offset, .R_X86_64_GLOB_DAT, r_sym⟩ := by
  rw [agree_iff_seen]
  simp only [EntriesMeet, relEntry, relaEntry, Option.bind_eq_bind]
  cases copiedTo elfs maplib head ((elfs head).symbolRef r_sym) with
  | none => exact iff_of_true rfl trivial
  | some copied =>
    cases copied with
    | some globoffs => exact seen_preapply
    | none =>
      rw [← relSymbol_eq_relaSymbol elfs]
      exact seen_globDat

end Entry

section Main

variable (elfs : Nat → ElfHeader) (maplib local_maplib : Option LibT) (head : Nat) (bindnow : Bool) (image : Image)
  (rel : Elf64_Rel)

/-- The two functions agree on an entry exactly if their ways of looking for its symbol meet. -/
theorem agree_iff_entriesMeet : Agree elfs maplib local_maplib head bindnow image rel ↔
    EntriesMeet elfs maplib local_maplib head image rel := by
  obtain ⟨r_offset, r_type, r_sym⟩ := rel
  cases r_type with
  | R_X86_64_64 => exact agree_64
  | R_X86_64_COPY => exact agree_copy
  | R_X86_64_GLOB_DAT => exact agree_globDat
  | R_X86_64_RELATIVE => exact iff_of_true agree_relative trivial

end Main

/-- A global symbol that the one map has, where there is no local map. -/
theorem rel_misses_global : ¬ ∀ (elfs : Nat → ElfHeader) (maplib local_maplib : Option LibT) (head : Nat)
    (bindnow : Bool) (image : Image) (rel : Elf64_Rel), Agree elfs maplib local_maplib head bindnow image rel := by
  intro agree
  let elf : ElfHeader := ⟨0x10000, fun _ => ⟨"counter", 1, 0, 8⟩, none, fun _ => none, none⟩
  let maplib : LibT := ⟨fun _ _ => (0x20000, 0x20008), fun _ => none, fun _ _ => 0, fun _ => false⟩
  have here := agree (fun _ => elf) (some maplib) none 0 false ⟨fun _ => 0, MapSymbols.newMapSymbols⟩
    ⟨0x4000, .R_X86_64_64, 1⟩
  exact absurd (congrArg (Option.map fun observed => observed.2.2) here) (by decide)

end Box64.Elfs
