import Mathlib.Data.BitVec

/-!
# The list of mapped memory

`addMapMem` and `removeMapMem` keep a sorted list of the address intervals in use. Its first
element is the memory below 0x10000, put there at the start.
-/

namespace Box64.Custommem

/-- `mapmem_t`: the addresses from `begin` to `stop`, both included. -/
structure Mapmem where
  begin : Nat
  stop : Nat
deriving DecidableEq, Repr

def initialMapmem : List Mapmem := [⟨0, 0x10000 - 1⟩]

/-- Fuse `newm` with those of the next intervals that it reaches. -/
def fuseNext (newm : Mapmem) : List Mapmem → List Mapmem
  | [] => [newm]
  | tmp :: next =>
    if tmp.begin - 1 ≤ newm.stop then
      fuseNext (if tmp.stop > newm.stop then { newm with stop := tmp.stop } else newm) next
    else newm :: tmp :: next

/-- The interval attached behind `m`, or at its end. -/
def attachMapMem (begin stop : Nat) (m : Mapmem) (next : List Mapmem) : List Mapmem :=
  if m.stop ≥ begin - 1 then
    if stop ≤ m.stop then m :: next else fuseNext { m with stop := stop } next
  else m :: fuseNext ⟨begin, stop⟩ next

/-- Find the attach point; it cannot be before the first interval. -/
def insertMapMem (begin stop : Nat) : List Mapmem → List Mapmem
  | [] => []
  | [m] => attachMapMem begin stop m []
  | m :: n :: next =>
    if begin > n.begin then m :: insertMapMem begin stop (n :: next) else attachMapMem begin stop m (n :: next)

/-- Both bounds of a range, widened to whole pages. -/
def fullPages (begin stop : Nat) : Nat × Nat := (begin - begin % 0x1000, stop - stop % 0x1000 + 0xfff)

def addMapMem (mapmem : List Mapmem) (begin stop : Nat) : List Mapmem :=
  let (begin, stop) := fullPages begin stop
  if stop < 0x10000 then mapmem
  else insertMapMem (if begin = 0 then 0x10000 else begin) stop mapmem

/-- The loop of `removeMapMem`, where `prev` tells whether an interval stands before. -/
def dropMapMem (begin stop : Nat) (prev : Bool) : List Mapmem → List Mapmem
  | [] => []
  | m :: next =>
    if m.begin > stop then m :: next
    else if m.begin ≥ begin ∧ m.stop ≤ stop then
      if prev then dropMapMem begin stop true next
      else
        -- the attach changes, and the new first interval is stepped over
        match next with
        | [] => []
        | n :: next => n :: dropMapMem begin stop true next
    else if begin > m.begin ∧ stop < m.stop then { m with stop := begin - 1 } :: ⟨stop + 1, m.stop⟩ :: next
    else if begin > m.begin ∧ begin < m.stop then
      { m with stop := begin - 1 } :: dropMapMem begin stop true next
    else if stop > m.begin ∧ stop < m.stop then
      { m with begin := stop + 1 } :: dropMapMem begin stop true next
    else m :: dropMapMem begin stop true next

def removeMapMem (mapmem : List Mapmem) (begin stop : Nat) : List Mapmem :=
  let (begin, stop) := fullPages begin stop
  if stop < 0x10000 then mapmem
  else dropMapMem (if begin = 0 then 0x10000 else begin) stop false mapmem

end Box64.Custommem
