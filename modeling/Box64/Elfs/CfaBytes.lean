import Box64.Elfs.DwarfUnwind
import Box64.Elfs.ReadLeb128

/-!
# Call frame instructions, byte by byte

The two passes of `get_parent_registers` as they read the bytes of a CIE and an FDE, each with its own `PARSE_INST`. The
executing one keeps account of the tables' entries that it uses, whether they exist or not.
-/

namespace Box64.Elfs

open CallFrame

/-! ### Reading -/

/-- `READ_U1` to `READ_U8`, from the memory that starts at the pointer and as far as there is any. -/
def readUnsigned (n : Nat) (ptr : List (BitVec 8)) : Option (Nat × List (BitVec 8)) :=
  if n ≤ ptr.length then some ((ptr.take n).foldr (fun byte high => byte.toNat + 256 * high) 0, ptr.drop n) else none

/-- `SKIP_1` to `SKIP_8`. -/
def skip (n : Nat) (ptr : List (BitVec 8)) : Option (List (BitVec 8)) :=
  if n ≤ ptr.length then some (ptr.drop n) else none

/-- `SKIP_LEB128`. -/
def skipLEB : List (BitVec 8) → Option (List (BitVec 8))
  | [] => none
  | byte :: ptr => if byte &&& 0x80 = 0 then some ptr else skipLEB ptr

/-- The cases of the two switches of `PARSE_INST`. -/
inductive Opcode
  | advance_loc (delta : BitVec 6)
  | offset (register : BitVec 6)
  | restore (register : BitVec 6)
  | nop
  | set_loc
  | advance_loc1
  | advance_loc2
  | advance_loc4
  | offset_extended
  | restore_extended
  | undefined
  | same_value
  | register
  | remember_state
  | restore_state
  | def_cfa
  | def_cfa_register
  | def_cfa_offset
  | offset_extended_sf
  | def_cfa_sf
  | def_cfa_offset_sf
  | val_offset
  | val_offset_sf
  deriving DecidableEq

/-- `switch (inst >> 6)` and `switch (inst & 0x3F)`: both passes know the same instructions. -/
def opcode (inst : BitVec 8) : Option Opcode :=
  match (inst >>> 6).toNat with
  | 0b01 => some (.advance_loc (inst.setWidth 6))
  | 0b10 => some (.offset (inst.setWidth 6))
  | 0b11 => some (.restore (inst.setWidth 6))
  | _ =>
    match (inst &&& 0x3F).toNat with
    | 0b000000 => some .nop
    | 0b000001 => some .set_loc
    | 0b000010 => some .advance_loc1
    | 0b000011 => some .advance_loc2
    | 0b000100 => some .advance_loc4
    | 0b000101 => some .offset_extended
    | 0b000110 => some .restore_extended
    | 0b000111 => some .undefined
    | 0b001000 => some .same_value
    | 0b001001 => some .register
    | 0b001010 => some .remember_state
    | 0b001011 => some .restore_state
    | 0b001100 => some .def_cfa
    | 0b001101 => some .def_cfa_register
    | 0b001110 => some .def_cfa_offset
    | 0b010001 => some .offset_extended_sf
    | 0b010010 => some .def_cfa_sf
    | 0b010011 => some .def_cfa_offset_sf
    | 0b010100 => some .val_offset
    | 0b010101 => some .val_offset_sf
    | _ => none

section Decode

variable (host : Shifts)

/-- An instruction with its operands. -/
def decode : Opcode → List (BitVec 8) → Option (Instruction × List (BitVec 8))
  | .advance_loc delta, ptr => some (.advance_loc delta, ptr)
  | .offset r, ptr => (readULEB host ptr).map fun (n, ptr) => (.offset r n, ptr)
  | .restore r, ptr => some (.restore r, ptr)
  | .nop, ptr => some (.nop, ptr)
  | .set_loc, ptr => (readUnsigned 8 ptr).map fun (address, ptr) => (.set_loc address, ptr)
  | .advance_loc1, ptr => (readUnsigned 1 ptr).map fun (delta, ptr) => (.advance_loc1 delta, ptr)
  | .advance_loc2, ptr => (readUnsigned 2 ptr).map fun (delta, ptr) => (.advance_loc2 delta, ptr)
  | .advance_loc4, ptr => (readUnsigned 4 ptr).map fun (delta, ptr) => (.advance_loc4 delta, ptr)
  | .offset_extended, ptr => do
    let (r, ptr) ← readULEB host ptr
    let (n, ptr) ← readULEB host ptr
    some (.offset_extended r n, ptr)
  | .restore_extended, ptr => (readULEB host ptr).map fun (r, ptr) => (.restore_extended r, ptr)
  | .undefined, ptr => (readULEB host ptr).map fun (r, ptr) => (.undefined r, ptr)
  | .same_value, ptr => (readULEB host ptr).map fun (r, ptr) => (.same_value r, ptr)
  | .register, ptr => do
    let (r, ptr) ← readULEB host ptr
    let (source, ptr) ← readULEB host ptr
    some (.register r source, ptr)
  | .remember_state, ptr => some (.remember_state, ptr)
  | .restore_state, ptr => some (.restore_state, ptr)
  | .def_cfa, ptr => do
    let (r, ptr) ← readULEB host ptr
    let (n, ptr) ← readULEB host ptr
    some (.def_cfa r n, ptr)
  | .def_cfa_register, ptr => (readULEB host ptr).map fun (r, ptr) => (.def_cfa_register r, ptr)
  | .def_cfa_offset, ptr => (readULEB host ptr).map fun (n, ptr) => (.def_cfa_offset n, ptr)
  | .offset_extended_sf, ptr => do
    let (r, ptr) ← readULEB host ptr
    let (n, ptr) ← readSLEB host ptr
    some (.offset_extended_sf r n, ptr)
  | .def_cfa_sf, ptr => do
    let (r, ptr) ← readULEB host ptr
    let (n, ptr) ← readSLEB host ptr
    some (.def_cfa_sf r n, ptr)
  | .def_cfa_offset_sf, ptr => (readSLEB host ptr).map fun (n, ptr) => (.def_cfa_offset_sf n, ptr)
  | .val_offset, ptr => do
    let (r, ptr) ← readULEB host ptr
    let (n, ptr) ← readULEB host ptr
    some (.val_offset r n, ptr)
  | .val_offset_sf, ptr => do
    let (r, ptr) ← readULEB host ptr
    let (n, ptr) ← readSLEB host ptr
    some (.val_offset_sf r n, ptr)

/-! ### The sizing pass -/

/-- `PARSE_INST` of the first pass, which skips the operands that are not registers. -/
def sizeInst (s : Scan) : Opcode → List (BitVec 8) → Option (Scan × List (BitVec 8))
  | .advance_loc _, ptr | .nop, ptr => some (s, ptr)
  | .offset r, ptr => (skipLEB ptr).map fun ptr => (s.setmax (r.setWidth 64), ptr)
  | .restore r, ptr => some (s.setmax (r.setWidth 64), ptr)
  | .remember_state, ptr => some
    ({ s with curstacksize := s.curstacksize + 1, maxstacksize := max s.maxstacksize (s.curstacksize + 1) }, ptr)
  | .restore_state, ptr => if s.curstacksize = 0 then none else some ({ s with curstacksize := s.curstacksize - 1 }, ptr)
  | .advance_loc1, ptr => (skip 1 ptr).map fun ptr => (s, ptr)
  | .advance_loc2, ptr => (skip 2 ptr).map fun ptr => (s, ptr)
  | .advance_loc4, ptr => (skip 4 ptr).map fun ptr => (s, ptr)
  | .set_loc, ptr => (skip 8 ptr).map fun ptr => (s, ptr)
  | .def_cfa_offset, ptr | .def_cfa_offset_sf, ptr => (skipLEB ptr).map fun ptr => (s, ptr)
  | .restore_extended, ptr | .undefined, ptr | .same_value, ptr | .def_cfa_register, ptr =>
    (readULEB host ptr).map fun (nreg, ptr) => (s.setmax nreg, ptr)
  | .offset_extended, ptr | .def_cfa, ptr | .offset_extended_sf, ptr | .def_cfa_sf, ptr | .val_offset, ptr
  | .val_offset_sf, ptr => do
    let (nreg, ptr) ← readULEB host ptr
    let ptr ← skipLEB ptr
    some (s.setmax nreg, ptr)
  | .register, ptr => do
    let (nreg, ptr) ← readULEB host ptr
    let s := s.setmax nreg
    let (nreg, ptr) ← readULEB host ptr
    some (s.setmax nreg, ptr)

/-! ### The passes read the same bytes -/

theorem skip_eq (n : Nat) (ptr : List (BitVec 8)) : skip n ptr = (readUnsigned n ptr).map Prod.snd := by
  rw [skip, readUnsigned]
  split <;> rfl

theorem readGroups_skip (var : BitVec 64) (shift : Nat) (ptr : List (BitVec 8)) :
    (readGroups host var shift ptr).map (fun read => read.2.2.2) = skipLEB ptr := by
  induction ptr generalizing var shift with
  | nil => rfl
  | cons byte ptr ih =>
    rw [readGroups, skipLEB]
    split
    · rfl
    · exact ih _ _

theorem skipLEB_eq (ptr : List (BitVec 8)) : skipLEB ptr = (readULEB host ptr).map Prod.snd := by
  rw [readULEB, Option.map_map]
  exact (readGroups_skip host 0 0 ptr).symm

theorem skipLEB_eq_signed (ptr : List (BitVec 8)) : skipLEB ptr = (readSLEB host ptr).map Prod.snd := by
  rw [readSLEB, Option.map_map, ← readGroups_skip host 0 0 ptr]
  congr 1
  funext read
  dsimp only [Function.comp]
  split <;> rfl

theorem skipLEB_length {ptr ptr' : List (BitVec 8)} (skipped : skipLEB ptr = some ptr') : ptr'.length ≤ ptr.length := by
  induction ptr with
  | nil => cases skipped
  | cons byte ptr ih =>
    rw [skipLEB] at skipped
    split at skipped
    · cases skipped
      exact Nat.le_succ _
    · exact (ih skipped).trans (Nat.le_succ _)

theorem readUnsigned_length {n m : Nat} {ptr ptr' : List (BitVec 8)} (read : readUnsigned n ptr = some (m, ptr')) :
    ptr'.length ≤ ptr.length := by
  rw [readUnsigned] at read
  split at read
  · cases read
    rw [List.length_drop]
    exact Nat.sub_le _ _
  · cases read

theorem readULEB_length {n : BitVec 64} {ptr ptr' : List (BitVec 8)} (read : readULEB host ptr = some (n, ptr')) :
    ptr'.length ≤ ptr.length := by
  have skipped := skipLEB_eq host ptr
  rw [read] at skipped
  exact skipLEB_length skipped

theorem readSLEB_length {n : BitVec 64} {ptr ptr' : List (BitVec 8)} (read : readSLEB host ptr = some (n, ptr')) :
    ptr'.length ≤ ptr.length := by
  have skipped := skipLEB_eq_signed host ptr
  rw [read] at skipped
  exact skipLEB_length skipped

/-- The first pass moves on as the second one does, and takes the registers' numbers of the instruction. -/
theorem sizeInst_eq (s : Scan) (op : Opcode) (ptr : List (BitVec 8)) :
    sizeInst host s op ptr = (decode host op ptr).bind fun (i, ptr) => (scanInst s i).map fun s => (s, ptr) := by
  cases op with
  | advance_loc | nop | restore | remember_state => rfl
  | restore_state =>
    rw [sizeInst, decode, Option.bind_some]
    dsimp only [scanInst]
    split <;> rfl
  | offset | def_cfa_offset =>
    rw [sizeInst, skipLEB_eq host, decode]
    cases readULEB host ptr <;> rfl
  | def_cfa_offset_sf =>
    rw [sizeInst, skipLEB_eq_signed host, decode]
    cases readSLEB host ptr <;> rfl
  | set_loc | advance_loc1 | advance_loc2 | advance_loc4 =>
    rw [sizeInst, skip_eq, decode]
    cases readUnsigned _ ptr <;> rfl
  | restore_extended | undefined | same_value | def_cfa_register =>
    rw [sizeInst, decode]
    cases readULEB host ptr <;> rfl
  | offset_extended | def_cfa | val_offset =>
    rw [sizeInst, decode]
    cases readULEB host ptr with
    | none => rfl
    | some read =>
      obtain ⟨nreg, ptr⟩ := read
      change (skipLEB ptr).bind _ = ((readULEB host ptr).bind _).bind _
      rw [skipLEB_eq host]
      cases readULEB host ptr <;> rfl
  | offset_extended_sf | def_cfa_sf | val_offset_sf =>
    rw [sizeInst, decode]
    cases readULEB host ptr with
    | none => rfl
    | some read =>
      obtain ⟨nreg, ptr⟩ := read
      change (skipLEB ptr).bind _ = ((readSLEB host ptr).bind _).bind _
      rw [skipLEB_eq_signed host]
      cases readSLEB host ptr <;> rfl
  | register =>
    rw [sizeInst, decode]
    cases readULEB host ptr with
    | none => rfl
    | some read =>
      obtain ⟨nreg, ptr⟩ := read
      change (readULEB host ptr).bind _ = ((readULEB host ptr).bind _).bind _
      cases readULEB host ptr <;> rfl

theorem decode_length {op : Opcode} {i : Instruction} {ptr ptr' : List (BitVec 8)}
    (decoded : decode host op ptr = some (i, ptr')) : ptr'.length ≤ ptr.length := by
  have one {α : Type} {read : Option (α × List (BitVec 8))} {f : α → Instruction}
      (shorter : ∀ a rest, read = some (a, rest) → rest.length ≤ ptr.length)
      (mapped : read.map (fun r => (f r.1, r.2)) = some (i, ptr')) : ptr'.length ≤ ptr.length := by
    obtain ⟨⟨a, rest⟩, done, same⟩ := Option.map_eq_some_iff.mp mapped
    cases same
    exact shorter a _ done
  have two {read : List (BitVec 8) → Option (BitVec 64 × List (BitVec 8))} {f : BitVec 64 → BitVec 64 → Instruction}
      (shorter : ∀ p a rest, read p = some (a, rest) → rest.length ≤ p.length)
      (bound : ((readULEB host ptr).bind fun r => (read r.2).bind fun n => some (f r.1 n.1, n.2)) = some (i, ptr')) :
      ptr'.length ≤ ptr.length := by
    obtain ⟨⟨a, rest⟩, done, bound⟩ := Option.bind_eq_some_iff.mp bound
    obtain ⟨⟨b, rest'⟩, done', same⟩ := Option.bind_eq_some_iff.mp bound
    cases same
    exact (shorter _ _ _ done').trans (readULEB_length host done)
  have bytes (n a : Nat) (rest : List (BitVec 8)) :
      readUnsigned n ptr = some (a, rest) → rest.length ≤ ptr.length := readUnsigned_length
  have unsigned (p : List (BitVec 8)) (a : BitVec 64) (rest : List (BitVec 8)) :
      readULEB host p = some (a, rest) → rest.length ≤ p.length := readULEB_length host
  have signed (p : List (BitVec 8)) (a : BitVec 64) (rest : List (BitVec 8)) :
      readSLEB host p = some (a, rest) → rest.length ≤ p.length := readSLEB_length host
  cases op with
  | advance_loc | nop | restore | remember_state | restore_state =>
    cases decoded
    exact Nat.le_refl _
  | offset | def_cfa_offset | restore_extended | undefined | same_value | def_cfa_register =>
    exact one (unsigned ptr) decoded
  | def_cfa_offset_sf => exact one (signed ptr) decoded
  | set_loc => exact one (f := fun (n : Nat) => .set_loc n) (bytes 8) decoded
  | advance_loc1 => exact one (f := fun (n : Nat) => .advance_loc1 n) (bytes 1) decoded
  | advance_loc2 => exact one (f := fun (n : Nat) => .advance_loc2 n) (bytes 2) decoded
  | advance_loc4 => exact one (f := fun (n : Nat) => .advance_loc4 n) (bytes 4) decoded
  | offset_extended | def_cfa | val_offset | register => exact two unsigned decoded
  | offset_extended_sf | def_cfa_sf | val_offset_sf => exact two signed decoded

theorem sizeInst_length {s s' : Scan} {op : Opcode} {ptr ptr' : List (BitVec 8)}
    (sized : sizeInst host s op ptr = some (s', ptr')) : ptr'.length ≤ ptr.length := by
  rw [sizeInst_eq] at sized
  obtain ⟨⟨i, rest⟩, decoded, scanned⟩ := Option.bind_eq_some_iff.mp sized
  obtain ⟨t, -, same⟩ := Option.map_eq_some_iff.mp scanned
  cases same
  exact decode_length host decoded

/-- `while (cur_inst < endCIEinstr)` and `while (cur_inst < next_addr)`, where the end has `behind` bytes behind it. -/
def sizeLoop (behind : Nat) (s : Scan) (cur_inst : List (BitVec 8)) : Option Scan :=
  if behind < cur_inst.length then
    match cur_inst with
    | [] => none
    | inst :: rest =>
      match opcode inst with
      | none => none
      | some op =>
        match _sized : sizeInst host s op rest with
        | none => none
        | some (s, rest') => sizeLoop behind s rest'
  else some s
termination_by cur_inst.length
decreasing_by exact Nat.lt_succ_of_le (sizeInst_length host _sized)

/-- The instructions up to the end. -/
def decodeLoop (behind : Nat) (cur_inst : List (BitVec 8)) : Option (List Instruction) :=
  if behind < cur_inst.length then
    match cur_inst with
    | [] => none
    | inst :: rest =>
      match opcode inst with
      | none => none
      | some op =>
        match _decoded : decode host op rest with
        | none => none
        | some (i, rest') => (decodeLoop behind rest').map (i :: ·)
  else some []
termination_by cur_inst.length
decreasing_by exact Nat.lt_succ_of_le (decode_length host _decoded)

/-- Bytes with an end: the memory from a pointer on, and how many bytes of it lie behind the end. -/
structure Span where
  bytes : List (BitVec 8)
  behind : Nat

/-- The first pass, from `initCIEinstr` to `endCIEinstr` and from `cur_addr` to `next_addr`. -/
def sizingPass (return_addr_reg : BitVec 64) (cie fde : Span) : Option Scan := do
  let s ← sizeLoop host cie.behind ⟨return_addr_reg.setWidth 8, 0, 0⟩ cie.bytes
  sizeLoop host fde.behind s fde.bytes

end Decode

/-! ### The executing pass -/

/-- A use of `unwind_constr.table`, of `unwind_constr.statuses`, or of `table_stack`. -/
inductive Access
  | table (i : Nat)
  | statuses (i : Nat)
  | table_stack (i : Int)
  deriving DecidableEq

/-- The local variables of the execution, and the accesses made so far. -/
structure Exec where
  unwind_constr : UnwindConstr
  cfa_reg : BitVec 64
  cfa_signed : Bool
  cfa_offset : BitVec 64
  table_stack : Int → Nat → BitVec 64
  curstacksize : Int
  cur_pointed_addr : BitVec 64
  accesses : List Access

/-- `unwind_constr.table[r] = v`. -/
def Exec.setTable (s : Exec) (r : Nat) (v : BitVec 64) : Exec :=
  { s with
    unwind_constr := { s.unwind_constr with table := Function.update s.unwind_constr.table r v }
    accesses := s.accesses ++ [.table r] }

/-- `SET_STATUS(unwind_constr, r, v)`. -/
def Exec.setStatus (s : Exec) (r : Nat) (v : BitVec 8) : Exec :=
  { s with unwind_constr := SET_STATUS s.unwind_constr r v, accesses := s.accesses ++ [.statuses (r / 2)] }

def Exec.setRule (s : Exec) (r : Nat) (kind : RuleKind) (v : BitVec 64) : Exec :=
  (s.setStatus r (REGSTATUS kind)).setTable r v

/-- `RESTORE_REG` of the FDE's instructions; `init_table` and `init_statuses` are as long as the tables. -/
def Exec.restoreReg (init : UnwindConstr) (s : Exec) (r : Nat) : Exec :=
  (s.setTable r (init.table r)).setStatus r (GET_STATUS init r)

def Exec.remember (s : Exec) : Exec :=
  { s with
    table_stack := Function.update s.table_stack s.curstacksize s.unwind_constr.table
    curstacksize := s.curstacksize + 1
    accesses := s.accesses ++ [.table_stack s.curstacksize] }

def Exec.restoreState (s : Exec) : Exec :=
  { s with
    unwind_constr := { s.unwind_constr with table := s.table_stack (s.curstacksize - 1) }
    curstacksize := s.curstacksize - 1
    accesses := s.accesses ++ [.table_stack (s.curstacksize - 1)] }

section Execution

variable (host : Shifts) (codeAlign dataAlign : BitVec 64) (init : Option UnwindConstr)

/-- What a read delivers; where the memory ends nothing more is done. -/
def Exec.read {α : Type} (s : Exec) (read : Option (α × List (BitVec 8)))
    (next : α → List (BitVec 8) → Exec × Option (List (BitVec 8))) : Exec × Option (List (BitVec 8)) :=
  match read with
  | none => (s, none)
  | some (a, ptr) => next a ptr

/-- `PARSE_INST` of the second pass, and where `cur_inst` is then, unless the function returns. -/
def execInst (s : Exec) : Opcode → List (BitVec 8) → Exec × Option (List (BitVec 8))
  | .advance_loc delta, ptr => ({ s with cur_pointed_addr := s.cur_pointed_addr + delta.setWidth 64 * codeAlign }, some ptr)
  | .offset r, ptr => s.read (readULEB host ptr) fun n ptr => (s.setRule r.toNat .offset (n * dataAlign), some ptr)
  | .restore r, ptr =>
    match init with
    | none => (s, none)
    | some init => (s.restoreReg init r.toNat, some ptr)
  | .set_loc, ptr => s.read (readUnsigned 8 ptr) fun address ptr => ({ s with cur_pointed_addr := address }, some ptr)
  | .advance_loc1, ptr => s.read (readUnsigned 1 ptr) fun delta ptr =>
    ({ s with cur_pointed_addr := s.cur_pointed_addr + (delta : BitVec 8).setWidth 64 * codeAlign }, some ptr)
  | .advance_loc2, ptr => s.read (readUnsigned 2 ptr) fun delta ptr =>
    ({ s with cur_pointed_addr := s.cur_pointed_addr + (delta : BitVec 16).setWidth 64 * codeAlign }, some ptr)
  | .advance_loc4, ptr => s.read (readUnsigned 4 ptr) fun delta ptr =>
    ({ s with cur_pointed_addr := s.cur_pointed_addr + (delta : BitVec 32).setWidth 64 * codeAlign }, some ptr)
  | .def_cfa, ptr => s.read (readULEB host ptr) fun r ptr => s.read (readULEB host ptr) fun n ptr =>
    ({ s with cfa_reg := r, cfa_signed := false, cfa_offset := n }, some ptr)
  | .def_cfa_sf, ptr => s.read (readULEB host ptr) fun r ptr => s.read (readSLEB host ptr) fun n ptr =>
    ({ s with cfa_reg := r, cfa_signed := true, cfa_offset := n * dataAlign }, some ptr)
  | .def_cfa_register, ptr => s.read (readULEB host ptr) fun r ptr => ({ s with cfa_reg := r }, some ptr)
  | .def_cfa_offset, ptr => s.read (readULEB host ptr) fun n ptr =>
    ({ s with cfa_signed := false, cfa_offset := n }, some ptr)
  | .def_cfa_offset_sf, ptr => s.read (readSLEB host ptr) fun n ptr => ({ s with cfa_offset := n * dataAlign }, some ptr)
  | .undefined, ptr => s.read (readULEB host ptr) fun r ptr => (s.setStatus r.toNat (REGSTATUS .undefined), some ptr)
  | .same_value, ptr => s.read (readULEB host ptr) fun r ptr => (s.setStatus r.toNat (REGSTATUS .same_value), some ptr)
  | .offset_extended, ptr => s.read (readULEB host ptr) fun r ptr => s.read (readULEB host ptr) fun n ptr =>
    (s.setRule r.toNat .offset (n * dataAlign), some ptr)
  | .offset_extended_sf, ptr => s.read (readULEB host ptr) fun r ptr => s.read (readSLEB host ptr) fun n ptr =>
    (s.setRule r.toNat .offset (n * dataAlign), some ptr)
  | .val_offset, ptr => s.read (readULEB host ptr) fun r ptr => s.read (readULEB host ptr) fun n ptr =>
    (s.setRule r.toNat .val_offset (n * dataAlign), some ptr)
  | .val_offset_sf, ptr => s.read (readULEB host ptr) fun r ptr => s.read (readSLEB host ptr) fun n ptr =>
    (s.setRule r.toNat .val_offset (n * dataAlign), some ptr)
  | .register, ptr => s.read (readULEB host ptr) fun r ptr => s.read (readULEB host ptr) fun source ptr =>
    (s.setRule r.toNat .register source, some ptr)
  | .restore_extended, ptr => s.read (readULEB host ptr) fun r ptr =>
    match init with
    | none => (s, none)
    | some init => (s.restoreReg init r.toNat, some ptr)
  | .remember_state, ptr => (s.remember, some ptr)
  | .restore_state, ptr => (s.restoreState, some ptr)
  | .nop, ptr => (s, some ptr)

/-- An instruction that has been read, and whether the loop goes on. -/
def Exec.step (s : Exec) : Instruction → Exec × Bool
  | .advance_loc delta => ({ s with cur_pointed_addr := s.cur_pointed_addr + delta.setWidth 64 * codeAlign }, true)
  | .advance_loc1 delta => ({ s with cur_pointed_addr := s.cur_pointed_addr + delta.setWidth 64 * codeAlign }, true)
  | .advance_loc2 delta => ({ s with cur_pointed_addr := s.cur_pointed_addr + delta.setWidth 64 * codeAlign }, true)
  | .advance_loc4 delta => ({ s with cur_pointed_addr := s.cur_pointed_addr + delta.setWidth 64 * codeAlign }, true)
  | .set_loc address => ({ s with cur_pointed_addr := address }, true)
  | .def_cfa r n => ({ s with cfa_reg := r, cfa_signed := false, cfa_offset := n }, true)
  | .def_cfa_sf r n => ({ s with cfa_reg := r, cfa_signed := true, cfa_offset := n * dataAlign }, true)
  | .def_cfa_register r => ({ s with cfa_reg := r }, true)
  | .def_cfa_offset n => ({ s with cfa_signed := false, cfa_offset := n }, true)
  | .def_cfa_offset_sf n => ({ s with cfa_offset := n * dataAlign }, true)
  | .undefined r => (s.setStatus r.toNat (REGSTATUS .undefined), true)
  | .same_value r => (s.setStatus r.toNat (REGSTATUS .same_value), true)
  | .offset r n => (s.setRule r.toNat .offset (n * dataAlign), true)
  | .offset_extended r n | .offset_extended_sf r n => (s.setRule r.toNat .offset (n * dataAlign), true)
  | .val_offset r n | .val_offset_sf r n => (s.setRule r.toNat .val_offset (n * dataAlign), true)
  | .register r source => (s.setRule r.toNat .register source, true)
  | .restore r =>
    match init with
    | none => (s, false)
    | some init => (s.restoreReg init r.toNat, true)
  | .restore_extended r =>
    match init with
    | none => (s, false)
    | some init => (s.restoreReg init r.toNat, true)
  | .remember_state => (s.remember, true)
  | .restore_state => (s.restoreState, true)
  | .nop => (s, true)

theorem execInst_eq (s : Exec) (op : Opcode) (ptr : List (BitVec 8)) :
    execInst host codeAlign dataAlign init s op ptr = s.read (decode host op ptr) fun i ptr =>
      ((s.step codeAlign dataAlign init i).1, if (s.step codeAlign dataAlign init i).2 then some ptr else none) := by
  cases op with
  | advance_loc | nop | remember_state | restore_state => rfl
  | restore => cases init <;> rfl
  | restore_extended =>
    rw [execInst, decode]
    cases readULEB host ptr <;> cases init <;> rfl
  | offset | def_cfa_offset | undefined | same_value | def_cfa_register =>
    rw [execInst, decode]
    cases readULEB host ptr <;> rfl
  | def_cfa_offset_sf =>
    rw [execInst, decode]
    cases readSLEB host ptr <;> rfl
  | set_loc | advance_loc1 | advance_loc2 | advance_loc4 =>
    rw [execInst, decode]
    cases readUnsigned _ ptr <;> rfl
  | offset_extended | def_cfa | val_offset | register =>
    rw [execInst, decode]
    cases readULEB host ptr with
    | none => rfl
    | some read =>
      obtain ⟨r, ptr⟩ := read
      change s.read (readULEB host ptr) _ = s.read ((readULEB host ptr).bind _) _
      cases readULEB host ptr <;> rfl
  | offset_extended_sf | def_cfa_sf | val_offset_sf =>
    rw [execInst, decode]
    cases readULEB host ptr with
    | none => rfl
    | some read =>
      obtain ⟨r, ptr⟩ := read
      change s.read (readSLEB host ptr) _ = s.read ((readSLEB host ptr).bind _) _
      cases readSLEB host ptr <;> rfl

theorem execInst_length {s s' : Exec} {op : Opcode} {ptr ptr' : List (BitVec 8)}
    (executed : execInst host codeAlign dataAlign init s op ptr = (s', some ptr')) : ptr'.length ≤ ptr.length := by
  rw [execInst_eq] at executed
  cases decoded : decode host op ptr with
  | none =>
    rw [decoded] at executed
    cases executed
  | some read =>
    obtain ⟨i, rest⟩ := read
    rw [decoded, Exec.read] at executed
    have moved := (Prod.mk.inj executed).2
    split at moved
    · cases moved
      exact decode_length host decoded
    · cases moved

/-- The two loops of the second pass, which go on as long as `goes` says; whether they have come to their end. -/
def execLoop (goes : Exec → Bool) (behind : Nat) (s : Exec) (cur_inst : List (BitVec 8)) : Exec × Bool :=
  if behind < cur_inst.length ∧ goes s then
    match cur_inst with
    | [] => (s, false)
    | inst :: rest =>
      match opcode inst with
      | none => (s, false)
      | some op =>
        match _executed : execInst host codeAlign dataAlign init s op rest with
        | (s, none) => (s, false)
        | (s, some rest') => execLoop goes behind s rest'
  else (s, true)
termination_by cur_inst.length
decreasing_by exact Nat.lt_succ_of_le (execInst_length host codeAlign dataAlign init _executed)

end Execution

section Pass

variable (host : Shifts) (codeAlign dataAlign pc_begin addr : BitVec 64)

/-- The state before the second pass: the first statuses are set, the rest is as it is allocated. -/
def Exec.start (regCount : Nat) (table : Nat → BitVec 64) (table_stack : Int → Nat → BitVec 64) : Exec :=
  (List.range (min 17 (regCount + 1))).foldl (fun s i => s.setStatus i (REGSTATUS .same_value))
    ⟨⟨table, fun _ => 0⟩, -1, false, 0, table_stack, 0, pc_begin, []⟩

/-- The second pass from a state `s`. -/
def executionPass (s : Exec) (cie fde : Span) : Exec × Bool :=
  match execLoop host codeAlign dataAlign none (fun _ => true) cie.behind s cie.bytes with
  | (s, false) => (s, false)
  | (s, true) =>
    execLoop host codeAlign dataAlign (some s.unwind_constr) (fun s => s.cur_pointed_addr ≤ addr) fde.behind s fde.bytes

end Pass

end Box64.Elfs
