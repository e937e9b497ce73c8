import Box64.Elfs.DwarfUnwind
import Mathlib.Tactic.IntervalCases

/-!
# The rules at a program counter

What the execution of the call frame instructions ends with, against the row of the DWARF abstract machine.
-/

namespace Box64.Elfs

open CallFrame

/-! ### Packed statuses -/

theorem REGSTATUS_nibble (kind : RuleKind) : REGSTATUS kind &&& 0xF = REGSTATUS kind := by cases kind <;> rfl

section Nibbles

variable (byte v : BitVec 8)

theorem low_nibble_set : ((byte &&& 0xF0) ||| (v &&& 0xF)) &&& 0xF = v &&& 0xF := by
  ext i lt
  interval_cases i <;> simp

theorem high_nibble_set : (((byte &&& 0x0F) ||| ((v &&& 0xF) <<< 4)) >>> 4) &&& 0xF = v &&& 0xF := by
  ext i lt
  interval_cases i <;> simp

theorem high_nibble_kept : (((byte &&& 0xF0) ||| (v &&& 0xF)) >>> 4) &&& 0xF = (byte >>> 4) &&& 0xF := by
  ext i lt
  interval_cases i <;> simp

theorem low_nibble_kept : ((byte &&& 0x0F) ||| ((v &&& 0xF) <<< 4)) &&& 0xF = byte &&& 0xF := by
  ext i lt
  interval_cases i <;> simp

end Nibbles

/-- Setting one status leaves the others, its neighbour in the byte included. -/
theorem GET_SET_STATUS (n : UnwindConstr) (i j : Nat) {v : BitVec 8} (nibble : v &&& 0xF = v) :
    GET_STATUS (SET_STATUS n i v) j = if j = i then v else GET_STATUS n j := by
  by_cases byte : j / 2 = i / 2
  · simp only [GET_STATUS, SET_STATUS, byte, Function.update_self]
    rw [← nibble]
    rcases Nat.mod_two_eq_zero_or_one i with hi | hi <;> rcases Nat.mod_two_eq_zero_or_one j with hj | hj
    · have same : j = i := by omega
      simpa [hi, hj, same] using low_nibble_set _ v
    · have other : j ≠ i := by omega
      simpa [hi, hj, other] using high_nibble_kept _ v
    · have other : j ≠ i := by omega
      simpa [hi, hj, other] using low_nibble_kept _ v
    · have same : j = i := by omega
      simpa [hi, hj, same] using high_nibble_set _ v
  · have other : j ≠ i := by
      rintro rfl
      exact byte rfl
    simp only [GET_STATUS, SET_STATUS, Function.update_of_ne byte, if_neg other]

/-! ### Writes inside the tables -/

theorem setRule_eq {regCount r : Nat} (lt : r < regCount) (s : Cfi) (kind : RuleKind) (v : BitVec 64) :
    s.setRule regCount r kind v = some { s with unwind_constr := {
      SET_STATUS s.unwind_constr r (REGSTATUS kind) with table := Function.update s.unwind_constr.table r v } } := by
  have half : r / 2 < (regCount + 1) / 2 := by omega
  rw [Cfi.setRule, Cfi.setStatus, if_pos half]
  exact if_pos lt

theorem restoreReg_eq {regCount r : Nat} (lt : r < regCount) (s : Cfi) (init : UnwindConstr) :
    s.restoreReg regCount (some init) r = some { s with unwind_constr := {
      SET_STATUS s.unwind_constr r (GET_STATUS init r) with
      table := Function.update s.unwind_constr.table r (init.table r) } } := by
  have half : r / 2 < (regCount + 1) / 2 := by omega
  rw [Cfi.restoreReg, Option.bind_eq_bind, Option.bind_some, Cfi.setTable, if_pos lt]
  exact if_pos half

/-- The registers the execution of an instruction touches have an entry. -/
def InBounds (regCount : Nat) : Instruction → Prop
  | .undefined r | .same_value r => r.toNat / 2 < (regCount + 1) / 2
  | .offset r _ | .restore r => r.toNat < regCount
  | .offset_extended r _ | .offset_extended_sf r _ | .val_offset r _ | .val_offset_sf r _ | .register r _
  | .restore_extended r => r.toNat < regCount
  | _ => True

instance (regCount : Nat) : (i : Instruction) → Decidable (InBounds regCount i)
  | .undefined _ | .same_value _ | .offset _ _ | .offset_extended _ _ | .offset_extended_sf _ _
  | .val_offset _ _ | .val_offset_sf _ _ | .register _ _ | .restore _ | .restore_extended _ =>
    inferInstanceAs (Decidable (_ < _))
  | .nop | .set_loc _ | .advance_loc _ | .advance_loc1 _ | .advance_loc2 _ | .advance_loc4 _ | .def_cfa _ _
  | .def_cfa_sf _ _ | .def_cfa_register _ | .def_cfa_offset _ | .def_cfa_offset_sf _ | .remember_state
  | .restore_state => instDecidableTrue

def Holds (table : Nat → BitVec 64) (row : Row) : Prop := ∀ i v, (row.rule i).operand = some v → table i = v

structure Sim (regCount : Nat) (s : Cfi) (m : Machine) (flat : Row) : Prop where
  status : ∀ i < regCount, GET_STATUS s.unwind_constr i = REGSTATUS (flat.rule i).kind
  cfa_reg : s.cfa_reg = flat.cfa.register
  cfa_offset : s.cfa_offset = flat.cfa.offset
  table : Holds s.unwind_constr.table m.row
  stack : List.Forall₂ Holds s.table_stack (m.stack)

/-- The rules after the initial instructions, in the code, the abstract machine and the flat row. -/
inductive InitSim (regCount : Nat) : Option UnwindConstr → Option Row → Option Row → Prop
  | pre : InitSim regCount none none none
  | post {init : UnwindConstr} {row flat : Row}
      (status : ∀ i < regCount, GET_STATUS init i = REGSTATUS (flat.rule i).kind) (table : Holds init.table row) :
      InitSim regCount (some init) (some row) (some flat)

section Simulation

variable {regCount : Nat} {s : Cfi} {m : Machine} {flat : Row}

theorem Sim.setRule (sim : Sim regCount s m flat) (r : Nat) {table : Nat → BitVec 64} {mrule frule : Rule}
    (kept : ∀ i, i ≠ r → table i = s.unwind_constr.table i) (value : ∀ v, mrule.operand = some v → table r = v) :
    Sim regCount
      { s with unwind_constr := { SET_STATUS s.unwind_constr r (REGSTATUS frule.kind) with table := table } }
      { m with row := m.row.setRule r mrule } (flat.setRule r frule) := by
  refine ⟨?_, sim.cfa_reg, sim.cfa_offset, ?_, sim.stack⟩
  · intro i lt
    have status := GET_SET_STATUS s.unwind_constr r i (REGSTATUS_nibble frule.kind)
    refine Eq.trans status ?_
    simp only [Row.setRule, Function.update_apply]
    split
    · rfl
    · exact sim.status i lt
  · intro i v operand
    simp only [Row.setRule, Function.update_apply] at operand
    split at operand
    case isTrue same =>
      subst same
      exact value v operand
    case isFalse other => exact (kept i other).trans (sim.table i v operand)

/-- A rule with a number. -/
theorem Sim.setValue (sim : Sim regCount s m flat) {r : Nat} (lt : r < regCount) (rule : Rule) {v : BitVec 64}
    (operand : rule.operand = some v) :
    ∃ s', s.setRule regCount r rule.kind v = some s' ∧
      Sim regCount s' { m with row := m.row.setRule r rule } (flat.setRule r rule) := by
  refine ⟨_, setRule_eq lt s rule.kind v, sim.setRule r ?_ ?_⟩
  · intro i other
    exact Function.update_of_ne other _ _
  · intro u same
    rw [operand] at same
    cases same
    exact Function.update_self _ _ _

/-- A rule without a number. -/
theorem Sim.setKind (sim : Sim regCount s m flat) {r : Nat} (half : r / 2 < (regCount + 1) / 2) (rule : Rule)
    (operand : rule.operand = none) :
    ∃ s', s.setStatus regCount r (REGSTATUS rule.kind) = some s' ∧
      Sim regCount s' { m with row := m.row.setRule r rule } (flat.setRule r rule) := by
  refine ⟨_, if_pos half, sim.setRule r (fun _ _ => rfl) ?_⟩
  intro u same
  rw [operand] at same
  cases same

/-- A rule taken back from the initial ones. -/
theorem Sim.restore (sim : Sim regCount s m flat) {r : Nat} (lt : r < regCount) {init : UnwindConstr} {mrow frow : Row}
    (status : ∀ i < regCount, GET_STATUS init i = REGSTATUS (frow.rule i).kind) (table : Holds init.table mrow) :
    ∃ s', s.restoreReg regCount (some init) r = some s' ∧
      Sim regCount s' { m with row := m.row.setRule r (mrow.rule r) } (flat.setRule r (frow.rule r)) := by
  refine ⟨_, restoreReg_eq lt s init, ?_⟩
  rw [status r lt]
  apply sim.setRule r
  · intro i other
    exact Function.update_of_ne other _ _
  · intro v operand
    exact (Function.update_self _ _ _).trans (table r v operand)

/-- An instruction that the abstract machine executes: the code executes it, if its registers have an entry. -/
theorem Sim.step (sim : Sim regCount s m flat) {init : Option UnwindConstr} {mrow frow : Option Row}
    (initial : InitSim regCount init mrow frow) (codeAlign dataAlign : BitVec 64) {i : Instruction} {m' : Machine}
    (inside : InBounds regCount i) (next : m.step dataAlign mrow i = some m') :
    ∃ s' flat', parseInst regCount codeAlign dataAlign init s i = some s' ∧ flat.step dataAlign frow i = some flat' ∧
      Sim regCount s' m' flat' := by
  cases i with
  | nop => cases next; exact ⟨_, _, rfl, rfl, sim⟩
  | set_loc | advance_loc | advance_loc1 | advance_loc2 | advance_loc4 =>
    cases next
    exact ⟨_, _, rfl, rfl, ⟨sim.status, sim.cfa_reg, sim.cfa_offset, sim.table, sim.stack⟩⟩
  | def_cfa | def_cfa_sf =>
    cases next
    exact ⟨_, _, rfl, rfl, ⟨sim.status, rfl, rfl, sim.table, sim.stack⟩⟩
  | def_cfa_register =>
    cases next
    exact ⟨_, _, rfl, rfl, ⟨sim.status, rfl, sim.cfa_offset, sim.table, sim.stack⟩⟩
  | def_cfa_offset | def_cfa_offset_sf =>
    cases next
    exact ⟨_, _, rfl, rfl, ⟨sim.status, sim.cfa_reg, rfl, sim.table, sim.stack⟩⟩
  | undefined r =>
    cases next
    obtain ⟨s', done, sim'⟩ := sim.setKind inside .undefined rfl
    exact ⟨s', _, done, rfl, sim'⟩
  | same_value r =>
    cases next
    obtain ⟨s', done, sim'⟩ := sim.setKind inside .same_value rfl
    exact ⟨s', _, done, rfl, sim'⟩
  | offset r n | offset_extended r n | offset_extended_sf r n =>
    cases next
    obtain ⟨s', done, sim'⟩ := sim.setValue inside (.offset (n * dataAlign)) rfl
    exact ⟨s', _, done, rfl, sim'⟩
  | val_offset r n | val_offset_sf r n =>
    cases next
    obtain ⟨s', done, sim'⟩ := sim.setValue inside (.val_offset (n * dataAlign)) rfl
    exact ⟨s', _, done, rfl, sim'⟩
  | register r source =>
    cases next
    obtain ⟨s', done, sim'⟩ := sim.setValue inside (.register source) rfl
    exact ⟨s', _, done, rfl, sim'⟩
  | restore r | restore_extended r =>
    cases initial with
    | pre => cases next
    | post status table =>
      cases next
      obtain ⟨s', done, sim'⟩ := sim.restore inside status table
      exact ⟨s', _, done, rfl, sim'⟩
  | remember_state =>
    cases next
    exact ⟨_, _, rfl, rfl, ⟨sim.status, sim.cfa_reg, sim.cfa_offset, sim.table, .cons sim.table sim.stack⟩⟩
  | restore_state =>
    obtain ⟨row, stack⟩ := m
    have remembered := sim.stack
    cases stack with
    | nil => cases next
    | cons saved rest =>
      cases next
      obtain ⟨constr, reg, signed, off, tables, loc⟩ := s
      cases remembered with
      | cons table others =>
        exact ⟨_, _, rfl, rfl, ⟨sim.status, sim.cfa_reg, sim.cfa_offset, table, others⟩⟩

end Simulation

/-! ### Runs -/

section Run

variable {regCount : Nat} {codeAlign dataAlign : BitVec 64}

variable (codeAlign) in
theorem Sim.run {s : Cfi} {m m' : Machine} {flat : Row} (sim : Sim regCount s m flat) {init : Option UnwindConstr}
    {mrow frow : Option Row} (initial : InitSim regCount init mrow frow) {is : List Instruction}
    (inside : ∀ i ∈ is, InBounds regCount i) (run : m.run dataAlign mrow is = some m') :
    ∃ s' flat', is.foldlM (parseInst regCount codeAlign dataAlign init) s = some s' ∧
      is.foldlM (Row.step dataAlign frow) flat = some flat' ∧ Sim regCount s' m' flat' := by
  induction is generalizing s m flat with
  | nil =>
    cases run
    exact ⟨s, flat, rfl, rfl, sim⟩
  | cons i is ih =>
    rw [Machine.run, List.foldlM_cons] at run
    obtain ⟨m₁, first, rest⟩ := Option.bind_eq_some_iff.mp run
    obtain ⟨head, tail⟩ := List.forall_mem_cons.mp inside
    obtain ⟨s₁, flat₁, code, rule, sim₁⟩ := sim.step initial codeAlign dataAlign head first
    obtain ⟨s', flat', codes, rules, sim'⟩ := ih sim₁ tail rest
    refine ⟨s', flat', ?_, ?_, sim'⟩
    · rw [List.foldlM_cons, code]
      exact codes
    · rw [List.foldlM_cons, rule]
      exact rules

end Run

/-! ### Before the first instruction -/

/-- The loop that sets the first statuses stays in their array. -/
def StatusesFit (regCount : Nat) : Prop := 17 ≤ regCount ∨ regCount % 2 = 1

instance (regCount : Nat) : Decidable (StatusesFit regCount) := inferInstanceAs (Decidable (_ ∨ _))

theorem statusesFit_iff {regCount : Nat} :
    StatusesFit regCount ↔ ∀ i ∈ List.range (min 17 (regCount + 1)), i / 2 < (regCount + 1) / 2 := by
  simp only [List.mem_range, StatusesFit]
  constructor
  · intro fit i lt
    omega
  · intro fit
    by_contra short
    have last := fit regCount (by omega)
    omega

section Main

variable (return_addr_reg codeAlign dataAlign pc_begin addr : BitVec 64) (table : Nat → BitVec 64)
  (cie fde : List Instruction)

/-- Every register written has an entry in the tables. -/
def Fits (sized : Scan) : Prop :=
  StatusesFit sized.tableSize ∧
  ∀ i ∈ cie ++ executed codeAlign pc_begin addr cie fde, InBounds sized.tableSize i

variable {return_addr_reg codeAlign dataAlign pc_begin addr table cie fde}

end Main

end Box64.Elfs
