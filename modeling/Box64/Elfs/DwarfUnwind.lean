import Box64.Lib.CallFrame

/-!
# Execution of call frame instructions

The two passes of `get_parent_registers` over the instructions of a CIE and an FDE: the first sizes the tables, the
second fills them. The instructions come decoded, with the operands the `READ_` macros deliver.
-/

namespace Box64.Elfs

open CallFrame

/-! ### Packed statuses -/

/-- `dwarf_unwind_constr_t`: a value and a 4-bit status for each register, two statuses to a byte. -/
structure UnwindConstr where
  table : Nat → BitVec 64
  statuses : Nat → BitVec 8

def REGSTATUS : RuleKind → BitVec 8
  | .undefined => 0b0000
  | .same_value => 0b0101
  | .offset => 0b0010
  | .val_offset => 0b0011
  | .register => 0b0100

def GET_STATUS (n : UnwindConstr) (i : Nat) : BitVec 8 := (n.statuses (i / 2) >>> (i % 2 * 4)) &&& 0xF

def SET_STATUS (n : UnwindConstr) (i : Nat) (v : BitVec 8) : UnwindConstr :=
  let byte := (n.statuses (i / 2) &&& (0xF0 >>> (i % 2 * 4))) ||| (v <<< (i % 2 * 4))
  { n with statuses := Function.update n.statuses (i / 2) byte }

/-! ### The sizing pass -/

structure Scan where
  reg_count : BitVec 8
  curstacksize : Nat
  maxstacksize : Nat

/-- `setmax(unwind_constr.reg_count, nreg)`, on the 8-bit count. -/
def Scan.setmax (s : Scan) (nreg : BitVec 64) : Scan :=
  if s.reg_count.toNat < nreg.toNat then { s with reg_count := nreg.setWidth 8 } else s

def scanInst (s : Scan) : Instruction → Option Scan
  | .set_loc _ | .advance_loc _ | .advance_loc1 _ | .advance_loc2 _ | .advance_loc4 _ | .nop => some s
  | .def_cfa_offset _ | .def_cfa_offset_sf _ => some s
  | .offset r _ | .restore r => some (s.setmax (r.setWidth 64))
  | .remember_state =>
    some { s with curstacksize := s.curstacksize + 1, maxstacksize := max s.maxstacksize (s.curstacksize + 1) }
  | .restore_state => if s.curstacksize = 0 then none else some { s with curstacksize := s.curstacksize - 1 }
  | .restore_extended r | .undefined r | .same_value r | .def_cfa_register r => some (s.setmax r)
  | .offset_extended r _ | .def_cfa r _ | .offset_extended_sf r _ | .def_cfa_sf r _ | .val_offset r _
  | .val_offset_sf r _ => some (s.setmax r)
  | .register r source => some ((s.setmax r).setmax source)

def scan (return_addr_reg : BitVec 64) (cie fde : List Instruction) : Option Scan :=
  (cie ++ fde).foldlM scanInst ⟨return_addr_reg.setWidth 8, 0, 0⟩

/-- `++unwind_constr.reg_count`, the number of entries of `table`. -/
def Scan.tableSize (s : Scan) : Nat := (s.reg_count + 1).toNat

/-! ### The executing pass -/

/-- The local variables of the execution. -/
structure Cfi where
  unwind_constr : UnwindConstr
  cfa_reg : BitVec 64
  cfa_signed : Bool
  cfa_offset : BitVec 64
  table_stack : List (Nat → BitVec 64)
  cur_pointed_addr : BitVec 64

section Execution

variable (regCount : Nat)

/-- `unwind_constr.table[r] = v`, nothing where that is outside the table. -/
def Cfi.setTable (s : Cfi) (r : Nat) (v : BitVec 64) : Option Cfi :=
  if r < regCount then
    some { s with unwind_constr := { s.unwind_constr with table := Function.update s.unwind_constr.table r v } }
  else none

/-- `SET_STATUS(unwind_constr, r, v)`, nothing where that is outside the `(reg_count+1) >> 1` bytes. -/
def Cfi.setStatus (s : Cfi) (r : Nat) (v : BitVec 8) : Option Cfi :=
  if r / 2 < (regCount + 1) / 2 then some { s with unwind_constr := SET_STATUS s.unwind_constr r v } else none

def Cfi.setRule (s : Cfi) (r : Nat) (kind : RuleKind) (v : BitVec 64) : Option Cfi := do
  let s ← s.setStatus regCount r (REGSTATUS kind)
  s.setTable regCount r v

/-- `RESTORE_REG`, which fails while the initial instructions run. -/
def Cfi.restoreReg (init : Option UnwindConstr) (s : Cfi) (r : Nat) : Option Cfi := do
  let init ← init
  let s ← s.setTable regCount r (init.table r)
  s.setStatus regCount r (GET_STATUS init r)

/-- `PARSE_INST`. -/
def parseInst (codeAlign dataAlign : BitVec 64) (init : Option UnwindConstr) (s : Cfi) : Instruction → Option Cfi
  | .advance_loc delta => some { s with cur_pointed_addr := s.cur_pointed_addr + delta.setWidth 64 * codeAlign }
  | .offset r n => s.setRule regCount r.toNat .offset (n * dataAlign)
  | .restore r => s.restoreReg regCount init r.toNat
  | .set_loc address => some { s with cur_pointed_addr := address }
  | .advance_loc1 delta => some { s with cur_pointed_addr := s.cur_pointed_addr + delta.setWidth 64 * codeAlign }
  | .advance_loc2 delta => some { s with cur_pointed_addr := s.cur_pointed_addr + delta.setWidth 64 * codeAlign }
  | .advance_loc4 delta => some { s with cur_pointed_addr := s.cur_pointed_addr + delta.setWidth 64 * codeAlign }
  | .def_cfa r n => some { s with cfa_reg := r, cfa_signed := false, cfa_offset := n }
  | .def_cfa_sf r n => some { s with cfa_reg := r, cfa_signed := true, cfa_offset := n * dataAlign }
  | .def_cfa_register r => some { s with cfa_reg := r }
  | .def_cfa_offset n => some { s with cfa_signed := false, cfa_offset := n }
  | .def_cfa_offset_sf n => some { s with cfa_offset := n * dataAlign }
  | .undefined r => s.setStatus regCount r.toNat (REGSTATUS .undefined)
  | .same_value r => s.setStatus regCount r.toNat (REGSTATUS .same_value)
  | .offset_extended r n => s.setRule regCount r.toNat .offset (n * dataAlign)
  | .offset_extended_sf r n => s.setRule regCount r.toNat .offset (n * dataAlign)
  | .val_offset r n => s.setRule regCount r.toNat .val_offset (n * dataAlign)
  | .val_offset_sf r n => s.setRule regCount r.toNat .val_offset (n * dataAlign)
  | .register r source => s.setRule regCount r.toNat .register source
  | .restore_extended r => s.restoreReg regCount init r.toNat
  -- only the values are saved: neither the statuses nor the CFA
  | .remember_state => some { s with table_stack := s.unwind_constr.table :: s.table_stack }
  | .restore_state =>
    match s.table_stack with
    | [] => none
    | table :: table_stack => some { s with unwind_constr := { s.unwind_constr with table }, table_stack }
  | .nop => some s

end Execution

end Box64.Elfs
