import Box64.Custommem.JumpTable

/-!
# The jump table as a flat map

Runs of the jump table calls, against a map from addresses to native entries without tables.
-/

namespace Box64.Custommem

namespace JumpTable

open Function (update)

variable (nativeNext : Addr)

/-- A pointer to a word of a table of native entries. -/
abbrev EntryPtr := Nat × JmpIdx

def word (t : JumpTable) (p : EntryPtr) : Addr := t.level0 p.1 p.2

def getJumpTableAddress64 (t : JumpTable) (addr : Addr) : EntryPtr × JumpTable :=
  let t := allocPath nativeNext t addr
  ((t.leaf addr, idx0 addr), t)

/-! ### Runs -/

inductive Call
  | addIfDefault (addr jmp : Addr)
  | setDefault (addr : Addr)
  | getAddress (addr : Addr)

def Call.addr : Call → Addr
  | addIfDefault addr _ => addr
  | setDefault addr => addr
  | getAddress addr => addr

def step (t : JumpTable) : Call → JumpTable
  | .addIfDefault addr jmp => addJumpTableIfDefault64 nativeNext t addr jmp
  | .setDefault addr => setJumpTableDefault64 nativeNext t addr
  | .getAddress addr => (getJumpTableAddress64 nativeNext t addr).2

def run (t : JumpTable) (calls : List Call) : JumpTable := calls.foldl (step nativeNext) t

/-- What a call does to a plain map from addresses to entries. -/
def flatStep (entries : Addr → Addr) : Call → Addr → Addr
  | .addIfDefault addr jmp => if entries addr = nativeNext then update entries addr jmp else entries
  | .setDefault addr => update entries addr nativeNext
  | .getAddress _ => entries

def flatRun (calls : List Call) : Addr → Addr := calls.foldl (flatStep nativeNext) (fun _ => nativeNext)

variable {nativeNext} {t : JumpTable}

theorem step_wellFormed (wf : WellFormed nativeNext t) (call : Call) : WellFormed nativeNext (step nativeNext t call) := by
  cases call with
  | addIfDefault addr jmp => exact addJumpTableIfDefault64_wellFormed wf addr jmp
  | setDefault addr => exact setJumpTableDefault64_wellFormed wf addr
  | getAddress addr => exact (allocPath_spec wf addr).1

theorem entry_step (wf : WellFormed nativeNext t) (call : Call) :
    (step nativeNext t call).entry = flatStep nativeNext t.entry call := by
  funext b
  cases call with
  | addIfDefault addr jmp =>
    have entry := entry_addJumpTableIfDefault64 wf addr jmp b
    rw [step, entry, flatStep]
    by_cases default : t.entry addr = nativeNext
    · rw [if_pos default, Function.update_apply]
      simp only [default, and_true]
    · rw [if_neg default, if_neg (fun both => default both.2)]
  | setDefault addr =>
    rw [step, entry_setJumpTableDefault64 wf addr b, flatStep, Function.update_apply]
  | getAddress addr => exact (allocPath_spec wf addr).2.2 b

theorem run_wellFormed (wf : WellFormed nativeNext t) (calls : List Call) :
    WellFormed nativeNext (run nativeNext t calls) := by
  induction calls generalizing t with
  | nil => exact wf
  | cons call calls ih => exact ih (step_wellFormed wf call)

theorem entry_run (wf : WellFormed nativeNext t) (calls : List Call) :
    (run nativeNext t calls).entry = calls.foldl (flatStep nativeNext) t.entry := by
  induction calls generalizing t with
  | nil => rfl
  | cons call calls ih =>
    rw [List.foldl_cons, ← entry_step wf call]
    exact ih (step_wellFormed wf call)

/-! ### Tables stay where they are

A table of native entries, once allocated for an address, keeps serving it.
-/

theorem leaf_alloc2 (wf : WellFormed nativeNext t) (i3 : JmpIdx) {addr : Addr} (present : t.leaf addr ≠ 0) :
    (alloc2 t i3).leaf addr = t.leaf addr := by
  by_cases absent : t.jmptbl3 i3 = 0
  · have other : idx3 addr ≠ i3 := by
      rintro rfl
      exact present (leaf_of_jmptbl3_zero wf absent)
    rw [alloc2_eq wf absent]
    simp only [leaf, Function.update_of_ne other]
  · rw [alloc2, if_neg absent]

theorem leaf_alloc1 (wf : WellFormed nativeNext t) (i3 i2 : JmpIdx) {addr : Addr} (present : t.leaf addr ≠ 0) :
    (alloc1 t i3 i2).leaf addr = t.leaf addr := by
  by_cases absent : t.level2 (t.jmptbl3 i3) i2 = 0
  · have other : (t.jmptbl3 (idx3 addr), idx2 addr) ≠ (t.jmptbl3 i3, i2) := by
      intro same
      obtain ⟨same3, same2⟩ := Prod.mk.inj same
      apply present
      apply leaf_of_level2_zero wf
      rw [same3, same2]
      exact absent
    rw [alloc1_eq wf absent]
    simp only [leaf, update_curry, Function.update_of_ne other]
  · rw [alloc1, if_neg absent]

theorem leaf_alloc0 (wf : WellFormed nativeNext t) (i3 i2 i1 : JmpIdx) {addr : Addr} (present : t.leaf addr ≠ 0) :
    (alloc0 nativeNext t i3 i2 i1).leaf addr = t.leaf addr := by
  by_cases absent : t.level1 (t.level2 (t.jmptbl3 i3) i2) i1 = 0
  · have other : (t.level2 (t.jmptbl3 (idx3 addr)) (idx2 addr), idx1 addr) ≠ (t.level2 (t.jmptbl3 i3) i2, i1) := by
      intro same
      obtain ⟨same2, same1⟩ := Prod.mk.inj same
      apply present
      rw [leaf, same2, same1]
      exact absent
    rw [alloc0_eq wf absent]
    simp only [leaf, update_curry, Function.update_of_ne other]
  · rw [alloc0, if_neg absent]

theorem leaf_allocPath (wf : WellFormed nativeNext t) (a : Addr) {addr : Addr} (present : t.leaf addr ≠ 0) :
    (allocPath nativeNext t a).leaf addr = t.leaf addr := by
  have wf2 := alloc2_wellFormed wf (idx3 a)
  have same2 := leaf_alloc2 wf (idx3 a) present
  have wf1 := alloc1_wellFormed wf2 (idx2 a) (alloc2_present wf (idx3 a))
  have same1 := leaf_alloc1 wf2 (idx3 a) (idx2 a) (same2.trans_ne present)
  have same0 := leaf_alloc0 wf1 (idx3 a) (idx2 a) (idx1 a) ((same1.trans same2).trans_ne present)
  exact same0.trans (same1.trans same2)

theorem leaf_step (wf : WellFormed nativeNext t) (call : Call) {addr : Addr} (present : t.leaf addr ≠ 0) :
    (step nativeNext t call).leaf addr = t.leaf addr := by
  cases call with
  | addIfDefault a jmp =>
    rw [step, addJumpTableIfDefault64]
    split
    · exact leaf_allocPath wf a present
    · exact leaf_allocPath wf a present
  | setDefault a =>
    rw [step, setJumpTableDefault64]
    repeat' split
    all_goals rfl
  | getAddress a => exact leaf_allocPath wf a present

theorem leaf_run (wf : WellFormed nativeNext t) (calls : List Call) {addr : Addr} (present : t.leaf addr ≠ 0) :
    (run nativeNext t calls).leaf addr = t.leaf addr := by
  induction calls generalizing t with
  | nil => rfl
  | cons call calls ih =>
    have same := leaf_step wf call present
    exact (ih (step_wellFormed wf call) (same.trans_ne present)).trans same

/-- The word behind a pointer handed out for an address is its entry, then and after any further calls. -/
theorem word_getJumpTableAddress64 (wf : WellFormed nativeNext t) (addr : Addr) (calls : List Call) :
    word (run nativeNext (getJumpTableAddress64 nativeNext t addr).2 calls)
        (getJumpTableAddress64 nativeNext t addr).1 =
      (run nativeNext (getJumpTableAddress64 nativeNext t addr).2 calls).entry addr := by
  obtain ⟨wf', present, -⟩ := allocPath_spec wf addr
  have same := leaf_run wf' calls present
  rw [entry, show (getJumpTableAddress64 nativeNext t addr).2 = allocPath nativeNext t addr from rfl, same]
  rfl

/-! ### Refinement -/

/-- What the tables show after any calls: the entries of the flat map, through the tables and through every
pointer handed out on the way; default tables that still hold their defaults. -/
theorem run_refines_flat (nativeNext : Addr) (calls : List Call) :
    let t := run nativeNext (initial nativeNext) calls
    (∀ addr, t.entry addr = flatRun nativeNext calls addr) ∧
    (∀ addr, isJumpTableDefault64 nativeNext t addr = true ↔ t.entry addr = nativeNext) ∧
    (∀ before after addr, calls = before ++ .getAddress addr :: after →
      word t (getJumpTableAddress64 nativeNext (run nativeNext (initial nativeNext) before) addr).1 =
        flatRun nativeNext calls addr) ∧
    (∀ call addr, addr ≠ call.addr → (step nativeNext t call).entry addr = t.entry addr) ∧
    (∀ i, t.level2 0 i = 0 ∧ t.level1 0 i = 0 ∧ t.level0 0 i = nativeNext) := by
  intro t
  have start : WellFormed nativeNext (initial nativeNext) := initial_wellFormed
  have wf : WellFormed nativeNext t := run_wellFormed start calls
  have entries : t.entry = flatRun nativeNext calls := entry_run start calls
  refine ⟨fun addr => congrFun entries addr, isJumpTableDefault64_iff wf, ?_, ?_, ?_⟩
  · rintro before after addr rfl
    have split : t = run nativeNext (getJumpTableAddress64 nativeNext
        (run nativeNext (initial nativeNext) before) addr).2 after := by
      simp only [t, run, List.foldl_append, List.foldl_cons, step]
    have pointer := word_getJumpTableAddress64 (run_wellFormed start before) addr after
    rw [← split] at pointer
    rw [pointer, entries]
  · intro call addr other
    rw [entry_step wf call]
    cases call with
    | addIfDefault a jmp =>
      rw [flatStep]
      split
      · exact Function.update_of_ne other _ _
      · rfl
    | setDefault a => exact Function.update_of_ne other _ _
    | getAddress a => rfl
  · intro i
    exact ⟨wf.default2 0 i (Or.inl rfl), wf.default1 0 i (Or.inl rfl), wf.default0 0 i (Or.inl rfl)⟩

end JumpTable

end Box64.Custommem
