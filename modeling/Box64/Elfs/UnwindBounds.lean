import Box64.Elfs.CfaBytes
import Box64.Elfs.UnwindRules
import Mathlib.Data.List.TakeWhile

/-!
# The tables of the unwinder

Which of its tables' entries the execution of call frame instructions uses, against those that the sizing pass makes room
for.
-/

namespace Box64.Elfs

open CallFrame

/-! ### The instructions of a span -/

section Decoded

variable (host : Shifts)

def Span.instructions (span : Span) : List Instruction := (decodeLoop host span.behind span.bytes).getD []

variable {host}

theorem decodeLoop_end {behind : Nat} {cur_inst : List (BitVec 8)} (done : ¬ behind < cur_inst.length) :
    decodeLoop host behind cur_inst = some [] := by
  rw [decodeLoop.eq_def, if_neg done]

theorem decodeLoop_next {behind : Nat} {inst : BitVec 8} {rest rest' : List (BitVec 8)} {op : Opcode} {i : Instruction}
    (inside : behind < (inst :: rest).length) (known : opcode inst = some op)
    (decoded : decode host op rest = some (i, rest')) :
    decodeLoop host behind (inst :: rest) = (decodeLoop host behind rest').map (i :: ·) := by
  rw [decodeLoop, if_pos inside]
  split
  case h_1 unknown => cases known.symm.trans unknown
  case h_2 op' known' =>
    cases known.symm.trans known'
    split
    case h_1 none => cases decoded.symm.trans none
    case h_2 again =>
      cases decoded.symm.trans again
      rfl

theorem sizeLoop_end {behind : Nat} {s : Scan} {cur_inst : List (BitVec 8)} (done : ¬ behind < cur_inst.length) :
    sizeLoop host behind s cur_inst = some s := by
  rw [sizeLoop.eq_def, if_neg done]

theorem sizeLoop_next {behind : Nat} {s s' : Scan} {inst : BitVec 8} {rest rest' : List (BitVec 8)} {op : Opcode}
    (inside : behind < (inst :: rest).length) (known : opcode inst = some op)
    (sized : sizeInst host s op rest = some (s', rest')) :
    sizeLoop host behind s (inst :: rest) = sizeLoop host behind s' rest' := by
  rw [sizeLoop, if_pos inside]
  split
  case h_1 unknown => cases known.symm.trans unknown
  case h_2 op' known' =>
    cases known.symm.trans known'
    split
    case h_1 none => cases sized.symm.trans none
    case h_2 again =>
      cases sized.symm.trans again
      rfl

/-- The first pass takes what the instructions come to. -/
theorem decodeLoop_of_sizeLoop {behind : Nat} {s s' : Scan} {cur_inst : List (BitVec 8)}
    (sized : sizeLoop host behind s cur_inst = some s') :
    ∃ is, decodeLoop host behind cur_inst = some is ∧ is.foldlM scanInst s = some s' := by
  induction s, cur_inst using sizeLoop.induct host behind with
  | case1 s inside =>
    rw [sizeLoop, if_pos inside] at sized
    cases sized
  | case2 s inst rest unknown inside =>
    rw [sizeLoop, if_pos inside] at sized
    split at sized
    case h_1 => cases sized
    case h_2 op known => cases known.symm.trans unknown
  | case3 s inst rest op known none inside =>
    rw [sizeLoop, if_pos inside] at sized
    split at sized
    case h_1 => cases sized
    case h_2 op' known' =>
      cases known.symm.trans known'
      split at sized
      case h_1 => cases sized
      case h_2 again => cases none.symm.trans again
  | case4 s inst rest op known t rest' step inside ih =>
    rw [sizeLoop_next inside known step] at sized
    obtain ⟨is, decoded, scanned⟩ := ih sized
    rw [sizeInst_eq] at step
    obtain ⟨⟨i, ptr⟩, first, after⟩ := Option.bind_eq_some_iff.mp step
    obtain ⟨u, scan, same⟩ := Option.map_eq_some_iff.mp after
    cases same
    refine ⟨i :: is, ?_, ?_⟩
    · rw [decodeLoop_next inside known first, decoded]
      rfl
    · rw [List.foldlM_cons, scan]
      exact scanned
  | case5 s cur_inst done =>
    rw [sizeLoop_end done] at sized
    cases sized
    exact ⟨[], decodeLoop_end done, rfl⟩

end Decoded

section Run

variable (codeAlign dataAlign : BitVec 64) (init : Option UnwindConstr) (goes : Exec → Bool)

/-- The loop over instructions that have been read. -/
def Exec.run (s : Exec) : List Instruction → Exec × Bool
  | [] => (s, true)
  | i :: rest =>
    if goes s then
      match s.step codeAlign dataAlign init i with
      | (s, false) => (s, false)
      | (s, true) => s.run rest
    else (s, true)

theorem execLoop_eq {host : Shifts} {behind : Nat} {cur_inst : List (BitVec 8)} {is : List Instruction}
    (decoded : decodeLoop host behind cur_inst = some is) (s : Exec) :
    execLoop host codeAlign dataAlign init goes behind s cur_inst = s.run codeAlign dataAlign init goes is := by
  induction cur_inst using decodeLoop.induct host behind generalizing s is with
  | case1 inside =>
    rw [decodeLoop, if_pos inside] at decoded
    cases decoded
  | case2 inst rest unknown inside =>
    rw [decodeLoop, if_pos inside] at decoded
    split at decoded
    case h_1 => cases decoded
    case h_2 op known => cases known.symm.trans unknown
  | case3 inst rest op known none inside =>
    rw [decodeLoop, if_pos inside] at decoded
    split at decoded
    case h_1 => cases decoded
    case h_2 op' known' =>
      cases known.symm.trans known'
      split at decoded
      case h_1 => cases decoded
      case h_2 again => cases none.symm.trans again
  | case4 inst rest op known i rest' step inside ih =>
    rw [decodeLoop_next inside known step] at decoded
    obtain ⟨is, decoded_rest, rfl⟩ := Option.map_eq_some_iff.mp decoded
    rw [execLoop, Exec.run]
    by_cases go : goes s = true
    · rw [if_pos ⟨inside, go⟩, if_pos go]
      split
      case h_1 unknown => cases known.symm.trans unknown
      case h_2 op' known' =>
        cases known.symm.trans known'
        have executed := execInst_eq host codeAlign dataAlign init s op rest
        rw [step, Exec.read] at executed
        cases stepped : s.step codeAlign dataAlign init i with
        | mk t more =>
          rw [stepped] at executed
          cases more with
          | false =>
            split
            case h_1 again =>
              cases executed.symm.trans again
              rfl
            case h_2 again => cases executed.symm.trans again
          | true =>
            split
            case h_1 again => cases executed.symm.trans again
            case h_2 again =>
              cases executed.symm.trans again
              exact ih decoded_rest _
    · rw [if_neg fun both => go both.2, if_neg go]
  | case5 cur_inst done =>
    rw [decodeLoop_end done] at decoded
    cases decoded
    rw [execLoop.eq_def, if_neg fun both => done both.1, Exec.run]

end Run

/-! ### Uses of the tables -/

/-- The entry exists: `table` has `reg_count` entries, `statuses` a byte for two of them, `table_stack` `maxstacksize`. -/
def Access.Inside (sized : Scan) : Access → Prop
  | .table i => i < sized.tableSize
  | .statuses i => i < (sized.tableSize + 1) / 2
  | .table_stack i => 0 ≤ i ∧ i < sized.maxstacksize

section Uses

variable {sized : Scan} {s : Exec}

theorem setStatus_inside (r : Nat) (v : BitVec 8) : (∀ a ∈ (s.setStatus r v).accesses, a.Inside sized) ↔
    (∀ a ∈ s.accesses, a.Inside sized) ∧ r / 2 < (sized.tableSize + 1) / 2 := by
  rw [Exec.setStatus, List.forall_mem_append, List.forall_mem_singleton]
  rfl

theorem setTable_inside (r : Nat) (v : BitVec 64) : (∀ a ∈ (s.setTable r v).accesses, a.Inside sized) ↔
    (∀ a ∈ s.accesses, a.Inside sized) ∧ r < sized.tableSize := by
  rw [Exec.setTable, List.forall_mem_append, List.forall_mem_singleton]
  rfl

theorem setRule_inside (r : Nat) (kind : RuleKind) (v : BitVec 64) :
    (∀ a ∈ (s.setRule r kind v).accesses, a.Inside sized) ↔
      (∀ a ∈ s.accesses, a.Inside sized) ∧ r < sized.tableSize := by
  rw [Exec.setRule, setTable_inside, setStatus_inside, and_assoc]
  exact and_congr_right fun _ => and_iff_right_of_imp fun lt => by omega

theorem restoreReg_inside (init : UnwindConstr) (r : Nat) : (∀ a ∈ (s.restoreReg init r).accesses, a.Inside sized) ↔
    (∀ a ∈ s.accesses, a.Inside sized) ∧ r < sized.tableSize := by
  rw [Exec.restoreReg, setStatus_inside, setTable_inside, and_assoc]
  exact and_congr_right fun _ => and_iff_left_of_imp fun lt => by omega

theorem slot_inside {i : Int} (slot : (Access.table_stack i).Inside sized) :
    (∀ a ∈ s.accesses ++ [.table_stack i], a.Inside sized) ↔ ∀ a ∈ s.accesses, a.Inside sized := by
  rw [List.forall_mem_append, List.forall_mem_singleton]
  exact and_iff_left slot

end Uses

/-! ### One instruction -/

/-- The instructions that fail among the initial ones. -/
def restores : Instruction → Bool
  | .restore _ | .restore_extended _ => true
  | _ => false

section Step

variable {codeAlign dataAlign : BitVec 64} {init : Option UnwindConstr} {s : Exec} {i : Instruction} {t t' : Scan}

theorem step_goes : (s.step codeAlign dataAlign init i).2 = (init.isSome || !restores i) := by
  cases i <;> cases init <;> rfl

theorem step_location (goes : (s.step codeAlign dataAlign init i).2 = true) :
    (s.step codeAlign dataAlign init i).1.cur_pointed_addr = i.locAfter codeAlign s.cur_pointed_addr := by
  cases i with
  | restore | restore_extended =>
    cases init with
    | none => cases goes
    | some init => rfl
  | _ => rfl

theorem setmax_curstacksize (r : BitVec 64) : (t.setmax r).curstacksize = t.curstacksize := by
  rw [Scan.setmax]
  split <;> rfl

theorem setmax_maxstacksize (r : BitVec 64) : (t.setmax r).maxstacksize = t.maxstacksize := by
  rw [Scan.setmax]
  split <;> rfl

theorem scanInst_restore_state (scanned : scanInst t .restore_state = some t') :
    0 < t.curstacksize ∧ t' = { t with curstacksize := t.curstacksize - 1 } := by
  rw [scanInst] at scanned
  split at scanned
  · cases scanned
  · next some_left =>
    cases scanned
    exact ⟨Nat.pos_of_ne_zero some_left, rfl⟩

/-- The two passes count the remembered states alike. -/
theorem step_depth (scanned : scanInst t i = some t') (depth : s.curstacksize = t.curstacksize) :
    (s.step codeAlign dataAlign init i).1.curstacksize = t'.curstacksize := by
  cases i with
  | restore_state =>
    obtain ⟨some_left, rfl⟩ := scanInst_restore_state scanned
    change s.curstacksize - 1 = _
    dsimp only
    omega
  | remember_state =>
    cases scanned
    change s.curstacksize + 1 = _
    dsimp only
    omega
  | restore | restore_extended =>
    cases scanned
    rw [setmax_curstacksize, ← depth]
    cases init <;> rfl
  | register =>
    cases scanned
    rw [setmax_curstacksize, setmax_curstacksize]
    exact depth
  | nop | set_loc | advance_loc | advance_loc1 | advance_loc2 | advance_loc4 | def_cfa_offset | def_cfa_offset_sf =>
    cases scanned
    exact depth
  | _ =>
    cases scanned
    rw [setmax_curstacksize]
    exact depth

theorem scanInst_max (scanned : scanInst t i = some t') (low : t.curstacksize ≤ t.maxstacksize) :
    t.maxstacksize ≤ t'.maxstacksize ∧ t'.curstacksize ≤ t'.maxstacksize := by
  cases i with
  | restore_state =>
    obtain ⟨-, rfl⟩ := scanInst_restore_state scanned
    exact ⟨Nat.le_refl _, (Nat.sub_le _ _).trans low⟩
  | remember_state =>
    cases scanned
    exact ⟨Nat.le_max_left _ _, Nat.le_max_right _ _⟩
  | register =>
    cases scanned
    rw [setmax_maxstacksize, setmax_maxstacksize, setmax_curstacksize, setmax_curstacksize]
    exact ⟨Nat.le_refl _, low⟩
  | nop | set_loc | advance_loc | advance_loc1 | advance_loc2 | advance_loc4 | def_cfa_offset | def_cfa_offset_sf =>
    cases scanned
    exact ⟨Nat.le_refl _, low⟩
  | _ =>
    cases scanned
    rw [setmax_maxstacksize, setmax_curstacksize]
    exact ⟨Nat.le_refl _, low⟩

/-- Whatever is remembered has a slot; it is the registers that may lie outside. -/
theorem step_inside {sized : Scan} (scanned : scanInst t i = some t') (depth : s.curstacksize = t.curstacksize)
    (low : t.curstacksize ≤ t.maxstacksize) (high : t'.maxstacksize ≤ sized.maxstacksize) :
    (∀ a ∈ (s.step codeAlign dataAlign init i).1.accesses, a.Inside sized) ↔
      (∀ a ∈ s.accesses, a.Inside sized) ∧
        ((s.step codeAlign dataAlign init i).2 = true → InBounds sized.tableSize i) := by
  cases i with
  | restore r | restore_extended r =>
    cases init with
    | none => exact (and_iff_left fun goes => Bool.noConfusion goes).symm
    | some init => exact (restoreReg_inside init r.toNat).trans (and_congr_right fun _ => ⟨fun lt _ => lt, fun lt => lt rfl⟩)
  | undefined r | same_value r =>
    exact (setStatus_inside r.toNat _).trans (and_congr_right fun _ => ⟨fun lt _ => lt, fun lt => lt rfl⟩)
  | offset r | offset_extended r | offset_extended_sf r | val_offset r | val_offset_sf r | register r =>
    exact (setRule_inside r.toNat _ _).trans (and_congr_right fun _ => ⟨fun lt _ => lt, fun lt => lt rfl⟩)
  | remember_state =>
    cases scanned
    have slot : (Access.table_stack s.curstacksize).Inside sized := by
      dsimp only at high
      constructor <;> omega
    exact (slot_inside slot).trans (and_iff_left fun _ => trivial).symm
  | restore_state =>
    obtain ⟨some_left, rfl⟩ := scanInst_restore_state scanned
    have slot : (Access.table_stack (s.curstacksize - 1)).Inside sized := by
      dsimp only at high
      constructor <;> omega
    exact (slot_inside slot).trans (and_iff_left fun _ => trivial).symm
  | _ => exact (and_iff_left fun _ => trivial).symm

end Step

/-! ### Runs -/

theorem scan_max {is : List Instruction} {t t' : Scan} (scanned : is.foldlM scanInst t = some t')
    (low : t.curstacksize ≤ t.maxstacksize) :
    t.maxstacksize ≤ t'.maxstacksize ∧ t'.curstacksize ≤ t'.maxstacksize := by
  induction is generalizing t with
  | nil =>
    cases scanned
    exact ⟨Nat.le_refl _, low⟩
  | cons i is ih =>
    rw [List.foldlM_cons] at scanned
    obtain ⟨u, first, rest⟩ := Option.bind_eq_some_iff.mp scanned
    obtain ⟨grown, low'⟩ := scanInst_max first low
    obtain ⟨grown', low''⟩ := ih rest low'
    exact ⟨grown.trans grown', low''⟩

/-- The instructions that a loop executes, where it goes on at the locations `goes`, and up to the first `restore` where
that fails. -/
def ran (codeAlign : BitVec 64) (fails : Bool) (goes : BitVec 64 → Bool) (loc : BitVec 64) :
    List Instruction → List Instruction
  | [] => []
  | i :: rest =>
    if goes loc ∧ (!fails || !restores i) then i :: ran codeAlign fails goes (i.locAfter codeAlign loc) rest else []

section Runs

variable {codeAlign dataAlign : BitVec 64}

theorem ran_initial (loc : BitVec 64) (is : List Instruction) :
    ran codeAlign true (fun _ => true) loc is = is.takeWhile (!restores ·) := by
  induction is generalizing loc with
  | nil => rfl
  | cons i is ih =>
    rw [ran, List.takeWhile_cons]
    cases restores i with
    | false => exact congrArg (i :: ·) (ih _)
    | true => rfl

theorem ran_upTo (addr loc : BitVec 64) (is : List Instruction) :
    ran codeAlign false (fun loc => loc ≤ addr) loc is = upTo codeAlign addr loc is := by
  induction is generalizing loc with
  | nil => rfl
  | cons i is ih =>
    rw [ran, upTo, ih]
    exact if_congr (by simp) rfl rfl

theorem run_inside {init : Option UnwindConstr} {goes : BitVec 64 → Bool} {sized : Scan} {is : List Instruction}
    {s : Exec} {t t' : Scan} (scanned : is.foldlM scanInst t = some t') (depth : s.curstacksize = t.curstacksize)
    (low : t.curstacksize ≤ t.maxstacksize) (high : t'.maxstacksize ≤ sized.maxstacksize) :
    (∀ a ∈ (s.run codeAlign dataAlign init (fun s => goes s.cur_pointed_addr) is).1.accesses, a.Inside sized) ↔
      (∀ a ∈ s.accesses, a.Inside sized) ∧
        ∀ i ∈ ran codeAlign init.isNone goes s.cur_pointed_addr is, InBounds sized.tableSize i := by
  induction is generalizing s t with
  | nil => exact (and_iff_left fun i member => absurd member List.not_mem_nil).symm
  | cons i is ih =>
    rw [List.foldlM_cons] at scanned
    obtain ⟨u, first, rest⟩ := Option.bind_eq_some_iff.mp scanned
    obtain ⟨-, low'⟩ := scanInst_max first low
    have high' := (scan_max rest low').1.trans high
    have inside : (∀ a ∈ (s.step codeAlign dataAlign init i).1.accesses, a.Inside sized) ↔ _ :=
      step_inside first depth low high'
    have depth' : (s.step codeAlign dataAlign init i).1.curstacksize = u.curstacksize := step_depth first depth
    have more : (s.step codeAlign dataAlign init i).2 = (!init.isNone || !restores i) := by
      rw [step_goes, Option.not_isNone]
    have location : (s.step codeAlign dataAlign init i).2 = true → _ := step_location
    rw [Exec.run, ran, ← more]
    clear more
    by_cases go : goes s.cur_pointed_addr = true
    · rw [if_pos go]
      generalize s.step codeAlign dataAlign init i = stepped at inside depth' location
      obtain ⟨s', more⟩ := stepped
      cases more with
      | false =>
        rw [if_neg fun both => Bool.noConfusion both.2]
        refine inside.trans (and_congr_right fun _ => ?_)
        exact iff_of_true (fun goes => Bool.noConfusion goes) fun i member => absurd member List.not_mem_nil
      | true =>
        rw [if_pos ⟨go, rfl⟩, List.forall_mem_cons, ← location rfl]
        refine (ih rest depth' low').trans ?_
        rw [inside, and_assoc]
        exact and_congr_right fun _ => and_congr_left fun _ => ⟨fun lt => lt rfl, fun lt _ => lt⟩
    · rw [if_neg go, if_neg fun both => go both.1]
      exact (and_iff_left fun i member => absurd member List.not_mem_nil).symm

/-- The initial instructions: all of them are executed, and the count of remembered states and the location are where
the first pass and the instructions leave them, unless one of them restores a register. -/
theorem run_initial {is : List Instruction} {s : Exec} {t t' : Scan} (scanned : is.foldlM scanInst t = some t')
    (depth : s.curstacksize = t.curstacksize) :
    (s.run codeAlign dataAlign none (fun _ => true) is).2 = is.all (!restores ·) ∧
    (is.all (!restores ·) = true →
      (s.run codeAlign dataAlign none (fun _ => true) is).1.curstacksize = t'.curstacksize ∧
      (s.run codeAlign dataAlign none (fun _ => true) is).1.cur_pointed_addr =
        locAfterAll codeAlign s.cur_pointed_addr is) := by
  induction is generalizing s t with
  | nil =>
    cases scanned
    exact ⟨rfl, fun _ => ⟨depth, rfl⟩⟩
  | cons i is ih =>
    rw [List.foldlM_cons] at scanned
    obtain ⟨u, first, rest⟩ := Option.bind_eq_some_iff.mp scanned
    have depth' : (s.step codeAlign dataAlign none i).1.curstacksize = u.curstacksize := step_depth first depth
    have more : (s.step codeAlign dataAlign none i).2 = !restores i := step_goes
    have location : (s.step codeAlign dataAlign none i).2 = true → _ := step_location
    rw [Exec.run, if_pos rfl, List.all_cons, ← more]
    clear more
    generalize s.step codeAlign dataAlign none i = stepped at depth' location
    obtain ⟨s', more⟩ := stepped
    cases more with
    | false => exact ⟨rfl, fun all => Bool.noConfusion all⟩
    | true =>
      rw [Bool.true_and, locAfterAll, List.foldl_cons, ← location rfl]
      exact ih rest depth'

end Runs

/-! ### The number of entries -/

/-- The registers that the first pass takes into account. -/
def numbers : Instruction → List Nat
  | .offset r _ | .restore r => [r.toNat]
  | .restore_extended r | .undefined r | .same_value r | .def_cfa_register r => [r.toNat]
  | .offset_extended r _ | .offset_extended_sf r _ | .val_offset r _ | .val_offset_sf r _ => [r.toNat]
  | .def_cfa r _ | .def_cfa_sf r _ => [r.toNat]
  | .register r source => [r.toNat, source.toNat]
  | _ => []

/-- A number of more than 8 bits leaves its low byte, a smaller one counts if it is the largest so far. -/
def grow (count r : Nat) : Nat := if 256 ≤ r then r % 256 else max count r

/-- How many entries the table has for the registers of a CIE and an FDE. -/
def entries (numbers : List Nat) : Nat := (numbers.foldl grow 0 + 1) % 256

theorem setmax_count (t : Scan) (r : BitVec 64) : (t.setmax r).reg_count.toNat = grow t.reg_count.toNat r.toNat := by
  have small := t.reg_count.isLt
  rw [Scan.setmax, grow]
  split
  case isTrue lt =>
    rw [BitVec.toNat_setWidth]
    split
    · rfl
    · omega
  case isFalse le =>
    rw [if_neg (by omega)]
    omega

theorem scanInst_count {i : Instruction} {t t' : Scan} (scanned : scanInst t i = some t') :
    t'.reg_count.toNat = (numbers i).foldl grow t.reg_count.toNat := by
  cases i with
  | restore_state =>
    rw [scanInst] at scanned
    split at scanned <;> cases scanned
    rfl
  | register r source =>
    cases scanned
    rw [setmax_count, setmax_count]
    rfl
  | offset r | restore r =>
    cases scanned
    rw [setmax_count, BitVec.toNat_setWidth, Nat.mod_eq_of_lt (r.isLt.trans (by decide))]
    rfl
  | nop | set_loc | advance_loc | advance_loc1 | advance_loc2 | advance_loc4 | def_cfa_offset | def_cfa_offset_sf
  | remember_state =>
    cases scanned
    rfl
  | _ =>
    cases scanned
    exact setmax_count _ _

theorem scan_count {is : List Instruction} {t t' : Scan} (scanned : is.foldlM scanInst t = some t') :
    t'.reg_count.toNat = (is.flatMap numbers).foldl grow t.reg_count.toNat := by
  induction is generalizing t with
  | nil =>
    cases scanned
    rfl
  | cons i is ih =>
    rw [List.foldlM_cons] at scanned
    obtain ⟨u, first, rest⟩ := Option.bind_eq_some_iff.mp scanned
    rw [ih rest, scanInst_count first, List.flatMap_cons, List.foldl_append]

theorem tableSize_eq {return_addr_reg : BitVec 64} {cie fde : List Instruction} {sized : Scan}
    (scanned : scan return_addr_reg cie fde = some sized) :
    sized.tableSize = entries (return_addr_reg.toNat :: (cie ++ fde).flatMap numbers) := by
  have start : (return_addr_reg.setWidth 8 : BitVec 8).toNat = grow 0 return_addr_reg.toNat := by
    rw [BitVec.toNat_setWidth, grow]
    split <;> omega
  rw [Scan.tableSize, BitVec.toNat_add, scan_count scanned, start]
  rfl

/-! ### Main results -/

section Main

variable (host : Shifts) (return_addr_reg codeAlign dataAlign pc_begin addr : BitVec 64) (table : Nat → BitVec 64)
  (table_stack : Int → Nat → BitVec 64)

/-- The instructions that the second pass executes: a `restore` among the initial ones ends it. -/
def reached (cie fde : List Instruction) : List Instruction :=
  if cie.all (!restores ·) then cie ++ executed codeAlign pc_begin addr cie fde else cie.takeWhile (!restores ·)

theorem scan_of_sizingPass {cie fde : Span} {sized : Scan}
    (success : sizingPass host return_addr_reg cie fde = some sized) :
    ∃ is js, decodeLoop host cie.behind cie.bytes = some is ∧ decodeLoop host fde.behind fde.bytes = some js ∧
      ∃ t, is.foldlM scanInst ⟨return_addr_reg.setWidth 8, 0, 0⟩ = some t ∧ js.foldlM scanInst t = some sized := by
  obtain ⟨t, first, second⟩ := Option.bind_eq_some_iff.mp success
  obtain ⟨is, decoded, scanned⟩ := decodeLoop_of_sizeLoop first
  obtain ⟨js, decoded', scanned'⟩ := decodeLoop_of_sizeLoop second
  exact ⟨is, js, decoded, decoded', t, scanned, scanned'⟩

variable {host return_addr_reg} in
theorem executionPass_inside {s : Exec} {cie fde : Span} {sized : Scan}
    (success : sizingPass host return_addr_reg cie fde = some sized) (depth : s.curstacksize = 0) :
    (∀ a ∈ (executionPass host codeAlign dataAlign addr s cie fde).1.accesses, a.Inside sized) ↔
      (∀ a ∈ s.accesses, a.Inside sized) ∧
        ∀ i ∈ reached codeAlign s.cur_pointed_addr addr (cie.instructions host) (fde.instructions host),
          InBounds sized.tableSize i := by
  obtain ⟨is, js, decoded, decoded', t, scanned, scanned'⟩ := scan_of_sizingPass host return_addr_reg success
  have low : t.curstacksize ≤ t.maxstacksize := (scan_max scanned (Nat.le_refl 0)).2
  have high : t.maxstacksize ≤ sized.maxstacksize := (scan_max scanned' low).1
  rw [Span.instructions, Span.instructions, decoded, decoded', Option.getD_some, Option.getD_some, executionPass,
    execLoop_eq _ _ _ _ decoded]
  have initial := @run_inside codeAlign dataAlign none (fun _ => true) _ _ _ _ _ scanned depth (Nat.le_refl 0) high
  obtain ⟨ended, finish⟩ : (s.run codeAlign dataAlign none (fun _ => true) is).2 = _ ∧ _ := run_initial scanned depth
  rw [Option.isNone_none, ran_initial] at initial
  generalize s.run codeAlign dataAlign none (fun _ => true) is = ran_cie at initial ended finish
  obtain ⟨s', more⟩ := ran_cie
  rw [reached, ← ended]
  cases more with
  | false => exact initial
  | true =>
    obtain ⟨depth', location⟩ := finish ended.symm
    have all : is.takeWhile (!restores ·) = is := List.takeWhile_eq_self_iff.mpr (List.all_eq_true.mp ended.symm)
    have rest := @run_inside codeAlign dataAlign (some s'.unwind_constr) (fun loc => loc ≤ addr) _ _ _ _ _ scanned' depth'
      low (Nat.le_refl _)
    rw [Option.isNone_some, ran_upTo, initial, all, location, and_assoc] at rest
    rw [← execLoop_eq _ _ _ _ decoded'] at rest
    rw [if_pos rfl, List.forall_mem_append]
    exact rest

theorem start_accesses (regCount : Nat) : (Exec.start pc_begin regCount table table_stack).accesses =
    (List.range (min 17 (regCount + 1))).map fun i => .statuses (i / 2) := by
  rw [Exec.start]
  induction min 17 (regCount + 1) with
  | zero => rfl
  | succ k ih =>
    rw [List.range_succ, List.foldl_append, List.map_append, ← ih]
    rfl

theorem start_inside (sized : Scan) :
    (∀ a ∈ (Exec.start pc_begin sized.tableSize table table_stack).accesses, a.Inside sized) ↔
      StatusesFit sized.tableSize := by
  rw [start_accesses, List.forall_mem_map, statusesFit_iff]
  rfl

theorem start_begin (regCount : Nat) :
    (Exec.start pc_begin regCount table table_stack).curstacksize = 0 ∧
    (Exec.start pc_begin regCount table table_stack).cur_pointed_addr = pc_begin := by
  rw [Exec.start]
  induction min 17 (regCount + 1) with
  | zero => exact ⟨rfl, rfl⟩
  | succ k ih =>
    rw [List.range_succ, List.foldl_append]
    exact ih

/-- The second pass, without the loop over the first statuses. -/
def executionAccesses (sized : Scan) (cie fde : Span) : List Access :=
  (executionPass host codeAlign dataAlign addr
    { Exec.start pc_begin sized.tableSize table table_stack with accesses := [] } cie fde).1.accesses

/-- After a sizing pass that succeeds, the second pass stays inside the tables exactly when every register of an
instruction that it executes has one of the `entries` that the registers' numbers lead to, and the loop before it exactly
when these are at least 17 or an odd number. -/
theorem execution_inside_iff (cie fde : Span) {sized : Scan}
    (success : sizingPass host return_addr_reg cie fde = some sized) :
    ((∀ a ∈ executionAccesses host codeAlign dataAlign pc_begin addr table table_stack sized cie fde, a.Inside sized) ↔
      ∀ i ∈ reached codeAlign pc_begin addr (cie.instructions host) (fde.instructions host),
        InBounds (entries (return_addr_reg.toNat ::
          (cie.instructions host ++ fde.instructions host).flatMap numbers)) i) ∧
    ((∀ a ∈ (Exec.start pc_begin sized.tableSize table table_stack).accesses, a.Inside sized) ↔
      StatusesFit (entries (return_addr_reg.toNat ::
        (cie.instructions host ++ fde.instructions host).flatMap numbers))) := by
  obtain ⟨is, js, decoded, decoded', t, scanned, scanned'⟩ := scan_of_sizingPass host return_addr_reg success
  have scan_eq : scan return_addr_reg is js = some sized := by
    rw [scan, List.foldlM_append, scanned]
    exact scanned'
  have size : sized.tableSize = entries (return_addr_reg.toNat ::
      (cie.instructions host ++ fde.instructions host).flatMap numbers) := by
    rw [Span.instructions, Span.instructions, decoded, decoded']
    exact tableSize_eq scan_eq
  obtain ⟨depth, location⟩ := start_begin pc_begin table table_stack sized.tableSize
  rw [← size]
  refine ⟨?_, start_inside pc_begin table table_stack sized⟩
  refine (executionPass_inside (s := { Exec.start pc_begin sized.tableSize table table_stack with accesses := [] })
    codeAlign dataAlign addr success depth).trans ?_
  dsimp only
  rw [location]
  exact and_iff_right fun a member => absurd member List.not_mem_nil

/-- `DW_CFA_def_cfa 7 8`. -/
def plainCie : Span := ⟨[0x0C, 7, 8], 0⟩

/-- `DW_CFA_offset_extended 256 1`. -/
def wideFde : Span := ⟨[0x05, 0x80, 0x02, 0x01], 0⟩

theorem wideFde_sizes : sizingPass zeroShifts 16 plainCie wideFde = some ⟨0, 0, 0⟩ := by
  rw [sizingPass, plainCie, wideFde, sizeLoop_next (by decide) rfl rfl, sizeLoop_end (by decide), Option.bind_eq_bind,
    Option.bind_some, sizeLoop_next (by decide) rfl rfl, sizeLoop_end (by decide)]
  rfl

theorem execution_inside_iff_wide :
    ((∀ a ∈ executionAccesses zeroShifts 1 (-8) 0x1000 0x1000 (fun _ => 0) (fun _ _ => 0) ⟨0, 0, 0⟩ plainCie wideFde,
        a.Inside ⟨0, 0, 0⟩) ↔
      ∀ i ∈ reached 1 0x1000 0x1000 (plainCie.instructions zeroShifts) (wideFde.instructions zeroShifts),
        InBounds (entries ((16 : BitVec 64).toNat ::
          (plainCie.instructions zeroShifts ++ wideFde.instructions zeroShifts).flatMap numbers)) i) ∧
    ((∀ a ∈ (Exec.start 0x1000 (Scan.tableSize ⟨0, 0, 0⟩) (fun _ => 0) fun _ _ => 0).accesses, a.Inside ⟨0, 0, 0⟩) ↔
      StatusesFit (entries ((16 : BitVec 64).toNat ::
        (plainCie.instructions zeroShifts ++ wideFde.instructions zeroShifts).flatMap numbers))) :=
  execution_inside_iff zeroShifts 16 1 (-8) 0x1000 0x1000 (fun _ => 0) (fun _ _ => 0) plainCie wideFde wideFde_sizes

/-- The table has one entry, and the instruction writes the one at 256. -/
theorem wideFde_outside : ¬ ∀ (host : Shifts) (return_addr_reg codeAlign dataAlign pc_begin addr : BitVec 64)
    (table : Nat → BitVec 64) (table_stack : Int → Nat → BitVec 64) (cie fde : Span) (sized : Scan),
    sizingPass host return_addr_reg cie fde = some sized →
      ∀ a ∈ executionAccesses host codeAlign dataAlign pc_begin addr table table_stack sized cie fde, a.Inside sized := by
  intro inside
  have outside := inside zeroShifts 16 1 (-8) 0x1000 0x1000 (fun _ => 0) (fun _ _ => 0) plainCie wideFde _ wideFde_sizes
  have cie : decodeLoop zeroShifts plainCie.behind plainCie.bytes = some [.def_cfa 7 8] := by
    rw [plainCie, decodeLoop_next (by decide) rfl rfl, decodeLoop_end (by decide)]
    rfl
  have fde : decodeLoop zeroShifts wideFde.behind wideFde.bytes = some [.offset_extended 256 1] := by
    rw [wideFde, decodeLoop_next (by decide) rfl rfl, decodeLoop_end (by decide)]
    rfl
  rw [executionAccesses, executionPass_inside 1 (-8) 0x1000 wideFde_sizes rfl, Span.instructions, Span.instructions, cie,
    fde] at outside
  exact absurd (outside.2 (.offset_extended 256 1) (by decide)) (by decide)

end Main

end Box64.Elfs
