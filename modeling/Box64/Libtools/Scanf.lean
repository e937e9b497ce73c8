import Box64.Libtools.FormatLoop

/-!
# Variadic arguments of `scanf`

`myStackAlignScanf` copies a pointer for every conversion whose result is not ignored.
-/

namespace Box64.Libtools

open VarArgs

/-- The local variables, and what has been written to `mystack`. -/
structure ScanfAlign where
  st : Nat
  mystack : Nat
  pos : Nat
  ign : Bool
  written : List (Nat × Slot)

section Scanf

variable (emu : X64emu) (mem : Nat → BitVec 64)

/-- `*mystack = v; ++mystack;` -/
def ScanfAlign.put (s : ScanfAlign) (v : BitVec 64) : ScanfAlign :=
  { s with written := s.written ++ [(s.mystack, .word v)], mystack := s.mystack + 1 }

def ScanfAlign.fetch (s : ScanfAlign) : ScanfAlign :=
  if s.pos < 6 then { s.put (emu.regs (regs_abi.getD s.pos .AX)) with pos := s.pos + 1 }
  else { s.put (mem s.st) with st := s.st + 1 }

/-- Outside a conversion nothing is ignored; every kind of argument is a pointer. -/
def ScanfAlign.act : Event → ScanfAlign → ScanfAlign
  | .outside, s => { s with ign := false }
  | .star, s => { s with ign := true }
  | .integer, s | .double, s | .longDouble, s => if !s.ign then s.fetch emu mem else s

/-- What `myStackAlignScanf` writes, for the format at `fmt`. -/
def myStackAlignScanf (fmt : Option (List Char)) (st mystack pos : Nat) : List (Nat × Slot) :=
  match fmt with
  | none => []
  | some fmt => (formatLoop (ScanfAlign.act emu mem) fmt 0 ⟨st, mystack, pos, false, []⟩).written

/-- The same on wide characters. -/
def myStackAlignScanfW (fmt : Option (List Char)) (st mystack pos : Nat) : List (Nat × Slot) :=
  match fmt with
  | none => []
  | some fmt => (formatLoop (ScanfAlign.act emu mem) fmt 0 ⟨st, mystack, pos, false, []⟩).written

end Scanf

end Box64.Libtools
