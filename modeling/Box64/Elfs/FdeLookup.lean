import Box64.Elfs.EhFrame

/-!
# The CIE of an FDE

The loop over the records reads an FDE with the CIE before it, where its CIE pointer may lead further back.
-/

namespace Box64.Elfs

/-! ### First hits -/

section FindSome

variable {α β : Type} {f g : α → Option β}

end FindSome

/-! ### Records -/

section Walk

/-- The records up to the terminator or the end. -/
def records (behind : Nat) (cur_addr : List (BitVec 8)) : Option (List Record) :=
  if behind < cur_addr.length then
    match _read : readRecord cur_addr with
    | none => none
    | some none => some []
    | some (some r) => (records behind r.next_addr).map (r :: ·)
  else some []
termination_by cur_addr.length
decreasing_by exact readRecord_shorter _read

end Walk

section Search

variable (host : Shifts) (m : Memory) (addr : BitVec 64)

/-- The loop over records that have been read. -/
def search (cie : Option Cie) : List Record → Option Outcome
  | [] => some .failure
  | r :: rest =>
    if r.cie_ptr = 0 then
      match readCie host r.cur_addr r.next_addr with
      | none => none
      | some none => some .failure
      | some (some cie) => search (some cie) rest
    else
      match cie with
      | none => some .unexpected
      | some cie =>
        match readFde host m cie r.cur_addr with
        | none => none
        | some fde =>
          if fde.pc_begin ≤ addr ∧ addr < fde.pc_begin + fde.pc_range then some (.found (fde.found cie r.next_addr))
          else search (some cie) rest

variable {host m addr}

end Search

/-! ### The CIE that is named -/

section Named

variable (host : Shifts) (m : Memory) (addr : BitVec 64)

def cieOf (r : Record) : Option Cie := (readCie host r.cur_addr r.next_addr).join

/-- The CIE, among the records seen, that starts where the CIE pointer of `r` leads back to. -/
def ownCie (seen : List Record) (r : Record) : Option Cie :=
  (seen.find? fun q => q.cie_ptr = 0 ∧ q.start.length = r.field.length + r.cie_ptr).bind (cieOf host)

/-- Every CIE can be read, and every FDE with an earlier CIE that it names; its addresses do not go round. -/
def WellFormed (seen : List Record) : List Record → Prop
  | [] => True
  | r :: rest =>
    (if r.cie_ptr = 0 then (cieOf host r).isSome = true
      else ∃ cie fde, ownCie host seen r = some cie ∧ readFde host m cie r.cur_addr = some fde ∧
        fde.pc_begin.toNat + fde.pc_range.toNat < 2 ^ 64) ∧
    WellFormed (seen ++ [r]) rest

/-- An FDE with the CIE before it and the CIE that it names. -/
structure Choice where
  record : Record
  closest : Cie
  own : Cie

/-- What the loop makes of an FDE that it stops at; it may be that the FDE cannot be read. -/
def Choice.taken (choice : Choice) : Option (Option Found) :=
  match readFde host m choice.closest choice.record.cur_addr with
  | none => some none
  | some fde =>
    if fde.pc_begin ≤ addr ∧ addr < fde.pc_begin + fde.pc_range then
      some (some (fde.found choice.closest choice.record.next_addr))
    else none

/-- The outcome of a search. -/
def outcome : Option (Option Found) → Option Outcome
  | none => some .failure
  | some none => none
  | some (some found) => some (.found found)

variable {host m addr}

end Named

/-! ### Main results -/

section Main

variable (host : Shifts) (m : Memory) (addr : BitVec 64)

end Main

end Box64.Elfs
