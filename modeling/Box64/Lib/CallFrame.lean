import Mathlib.Data.BitVec

/-!
# Call frame information

The DWARF abstract machine of call frame instructions: register rules and a CFA rule, set up by the initial
instructions of a CIE and changed by the instructions of an FDE up to the row of a program counter.
-/

namespace CallFrame

/-- A call frame instruction with its operands, LEB128 ones as the 64-bit numbers they are read as. -/
inductive Instruction
  | nop
  | set_loc (address : BitVec 64)
  | advance_loc (delta : BitVec 6)
  | advance_loc1 (delta : BitVec 8)
  | advance_loc2 (delta : BitVec 16)
  | advance_loc4 (delta : BitVec 32)
  | def_cfa (register offset : BitVec 64)
  | def_cfa_sf (register offset : BitVec 64)
  | def_cfa_register (register : BitVec 64)
  | def_cfa_offset (offset : BitVec 64)
  | def_cfa_offset_sf (offset : BitVec 64)
  | undefined (register : BitVec 64)
  | same_value (register : BitVec 64)
  | offset (register : BitVec 6) (offset : BitVec 64)
  | offset_extended (register offset : BitVec 64)
  | offset_extended_sf (register offset : BitVec 64)
  | val_offset (register offset : BitVec 64)
  | val_offset_sf (register offset : BitVec 64)
  | register (register source : BitVec 64)
  | restore (register : BitVec 6)
  | restore_extended (register : BitVec 64)
  | remember_state
  | restore_state
  deriving DecidableEq

/-- How the value of a register in the calling frame is found. -/
inductive Rule
  | undefined
  | same_value
  | offset (n : BitVec 64)
  | val_offset (n : BitVec 64)
  | register (r : BitVec 64)
  deriving DecidableEq

inductive RuleKind
  | undefined
  | same_value
  | offset
  | val_offset
  | register
  deriving DecidableEq

def Rule.kind : Rule → RuleKind
  | .undefined => .undefined
  | .same_value => .same_value
  | .offset _ => .offset
  | .val_offset _ => .val_offset
  | .register _ => .register

/-- The number a rule comes with. -/
def Rule.operand : Rule → Option (BitVec 64)
  | .undefined => none
  | .same_value => none
  | .offset n => some n
  | .val_offset n => some n
  | .register r => some r

structure CfaRule where
  register : BitVec 64
  offset : BitVec 64
  deriving DecidableEq

structure Row where
  cfa : CfaRule
  rule : Nat → Rule

def Row.setRule (row : Row) (r : Nat) (rule : Rule) : Row := { row with rule := Function.update row.rule r rule }

structure Machine where
  row : Row
  stack : List Row

/-! ### Locations -/

/-- The location after an instruction, for a code alignment factor. -/
def Instruction.locAfter (codeAlign loc : BitVec 64) : Instruction → BitVec 64
  | set_loc address => address
  | advance_loc delta => loc + delta.setWidth 64 * codeAlign
  | advance_loc1 delta => loc + delta.setWidth 64 * codeAlign
  | advance_loc2 delta => loc + delta.setWidth 64 * codeAlign
  | advance_loc4 delta => loc + delta.setWidth 64 * codeAlign
  | _ => loc

/-- The instructions that make up the row of `pc`: those before the location passes it. -/
def upTo (codeAlign pc loc : BitVec 64) : List Instruction → List Instruction
  | [] => []
  | i :: rest => if loc ≤ pc then i :: upTo codeAlign pc (i.locAfter codeAlign loc) rest else []

/-! ### Execution -/

/-- One instruction on a row, for a data alignment factor. `init` holds the rules of the initial instructions, once
they have all been executed. -/
def Row.step (dataAlign : BitVec 64) (init : Option Row) (row : Row) : Instruction → Option Row
  | .def_cfa r n => some { row with cfa := ⟨r, n⟩ }
  | .def_cfa_sf r n => some { row with cfa := ⟨r, n * dataAlign⟩ }
  | .def_cfa_register r => some { row with cfa := ⟨r, row.cfa.offset⟩ }
  | .def_cfa_offset n => some { row with cfa := ⟨row.cfa.register, n⟩ }
  | .def_cfa_offset_sf n => some { row with cfa := ⟨row.cfa.register, n * dataAlign⟩ }
  | .undefined r => some (row.setRule r.toNat .undefined)
  | .same_value r => some (row.setRule r.toNat .same_value)
  | .offset r n => some (row.setRule r.toNat (.offset (n * dataAlign)))
  | .offset_extended r n => some (row.setRule r.toNat (.offset (n * dataAlign)))
  | .offset_extended_sf r n => some (row.setRule r.toNat (.offset (n * dataAlign)))
  | .val_offset r n => some (row.setRule r.toNat (.val_offset (n * dataAlign)))
  | .val_offset_sf r n => some (row.setRule r.toNat (.val_offset (n * dataAlign)))
  | .register r s => some (row.setRule r.toNat (.register s))
  | .restore r => init.map fun init => row.setRule r.toNat (init.rule r.toNat)
  | .restore_extended r => init.map fun init => row.setRule r.toNat (init.rule r.toNat)
  | .nop | .set_loc _ | .advance_loc _ | .advance_loc1 _ | .advance_loc2 _ | .advance_loc4 _
  | .remember_state | .restore_state => some row

/-- One instruction. The states remembered are whole rows, their CFA rule included. -/
def Machine.step (dataAlign : BitVec 64) (init : Option Row) (m : Machine) : Instruction → Option Machine
  | .remember_state => some { m with stack := m.row :: m.stack }
  | .restore_state =>
    match m.stack with
    | [] => none
    | row :: stack => some ⟨row, stack⟩
  | i => (m.row.step dataAlign init i).map fun row => { m with row }

def Machine.run (dataAlign : BitVec 64) (init : Option Row) (m : Machine) (is : List Instruction) : Option Machine :=
  is.foldlM (Machine.step dataAlign init) m

/-- The location of the first instruction after the initial ones. -/
def locAfterAll (codeAlign loc : BitVec 64) (is : List Instruction) : BitVec 64 :=
  is.foldl (fun loc i => i.locAfter codeAlign loc) loc

/-- The instructions an FDE contributes to the row of `pc`. -/
def executed (codeAlign begin pc : BitVec 64) (cie fde : List Instruction) : List Instruction :=
  upTo codeAlign pc (locAfterAll codeAlign begin cie) fde

/-- The number of remembered states after each instruction never goes below zero. -/
def Balanced (depth : Nat) : List Instruction → Prop
  | [] => True
  | .remember_state :: rest => Balanced (depth + 1) rest
  | .restore_state :: rest => 0 < depth ∧ Balanced (depth - 1) rest
  | _ :: rest => Balanced depth rest

instance decidableBalanced (depth : Nat) (is : List Instruction) : Decidable (Balanced depth is) := by
  induction is generalizing depth with
  | nil => exact instDecidableTrue
  | cons i rest ih =>
    cases i
    case remember_state => exact ih (depth + 1)
    case restore_state => exact @instDecidableAnd _ _ _ (ih (depth - 1))
    all_goals exact ih depth

end CallFrame
