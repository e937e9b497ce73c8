import Box64.Libtools.MyAlign

/-!
# The loop over a format

All the functions of `myalign.c` go through a format with the same loop, and differ in what they do where it wants an
argument.
-/

namespace Box64.Libtools

/-- What a turn of the loop comes to. -/
inductive Event
  | outside
  | star
  | integer
  | double
  | longDouble
  deriving DecidableEq

/-- The character `c` inside a conversion: the new state, and whether the loop moves on. -/
def convTurn (c : Char) (state : Nat) : Nat × Bool × Option Event :=
  match c with
  | '%' => (0, true, none)
  | 'l' => (if state + 1 > 3 then 3 else state + 1, true, none)
  | 'L' => (4, true, none)
  | 'z' => (5, true, none)
  | 'a' | 'A' | 'e' | 'E' | 'g' | 'G' | 'F' | 'f' => (state + 10, false, none)
  | 'd' | 'i' | 'o' | 'u' | 'x' | 'X' => (state + 20, false, none)
  | 'h' => (state, true, none)
  | '\'' | '0' | '1' | '2' | '3' | '4' | '5' | '6' | '7' | '8' | '9' | '.' | '+' | '-' => (state, true, none)
  | 'm' => (0, true, none)
  | 'n' | 'p' | 'S' | 's' => (30, false, none)
  | '$' => (state, true, none)
  | '*' => (state, true, some .star)
  | ' ' => (0, true, none)
  | _ => (20, false, none)

/-- One turn of the loop at the character `c`. -/
def turn (c : Char) (state : Nat) : Nat × Bool × Option Event :=
  match state with
  | 0 => (if c = '%' then 1 else 0, true, some .outside)
  | 1 | 2 | 3 | 4 | 5 => convTurn c state
  | 11 | 12 | 13 | 15 => (0, true, some .double)
  | 14 => (0, true, some .longDouble)
  | 20 | 21 | 22 | 23 | 24 | 25 | 30 => (0, true, some .integer)
  | _ => (0, false, none)

/-- How many turns the loop may take before it moves on. -/
def turnsAt (state : Nat) : Nat :=
  match state with
  | 0 | 11 | 12 | 13 | 14 | 15 | 20 | 21 | 22 | 23 | 24 | 25 | 30 => 0
  | 1 | 2 | 3 | 4 | 5 => 1
  | _ => 2

theorem turnsAt_convTurn {c : Char} {state state' : Nat} {event : Option Event} (low : 1 ≤ state ∧ state ≤ 5)
    (again : convTurn c state = (state', false, event)) : turnsAt state' = 0 := by
  have cases : state = 1 ∨ state = 2 ∨ state = 3 ∨ state = 4 ∨ state = 5 := by omega
  unfold convTurn at again
  split at again
  all_goals cases again
  all_goals obtain rfl | rfl | rfl | rfl | rfl := cases
  all_goals rfl

theorem turnsAt_turn {c : Char} {state state' : Nat} {event : Option Event}
    (again : turn c state = (state', false, event)) : turnsAt state' < turnsAt state := by
  unfold turn at again
  split at again
  case h_1 => cases again
  case h_2 | h_3 | h_4 | h_5 | h_6 => exact (turnsAt_convTurn (by omega) again).trans_lt Nat.one_pos
  all_goals cases again
  simp_all [turnsAt]

section Loop

variable {σ : Type} (act : Event → σ → σ)

/-- `while(*p)`, with what a function does at an event. -/
def formatLoop (p : List Char) (state : Nat) (s : σ) : σ :=
  match p with
  | [] => s
  | c :: rest =>
    match _again : turn c state with
    | (state', true, event) => formatLoop rest state' (event.elim s fun e => act e s)
    | (state', false, event) => formatLoop (c :: rest) state' (event.elim s fun e => act e s)
termination_by (p.length, turnsAt state)
decreasing_by
  · exact Prod.Lex.left _ _ (Nat.lt_succ_self _)
  · exact Prod.Lex.right _ (turnsAt_turn _again)

/-- The events of a format. -/
def events (fmt : List Char) : List Event := formatLoop (fun e l => l ++ [e]) fmt 0 []

theorem formatLoop_next {c : Char} {state state' : Nat} {event : Option Event} (moves : turn c state = (state', true, event))
    (rest : List Char) (s : σ) :
    formatLoop act (c :: rest) state s = formatLoop act rest state' (event.elim s fun e => act e s) := by
  rw [formatLoop]
  split
  case h_1 step =>
    cases moves.symm.trans step
    rfl
  case h_2 step => cases moves.symm.trans step

theorem formatLoop_again {c : Char} {state state' : Nat} {event : Option Event}
    (stays : turn c state = (state', false, event)) (rest : List Char) (s : σ) :
    formatLoop act (c :: rest) state s = formatLoop act (c :: rest) state' (event.elim s fun e => act e s) := by
  rw [formatLoop]
  split
  case h_1 step => cases stays.symm.trans step
  case h_2 step =>
    cases stays.symm.trans step
    rfl

variable {act}

/-- Two functions whose states stay related at every event. -/
theorem formatLoop_related {τ : Type} {act' : Event → τ → τ} {R : σ → τ → Prop}
    (keeps : ∀ e s t, R s t → R (act e s) (act' e t)) (p : List Char) (state : Nat) {s : σ} {t : τ} (start : R s t) :
    R (formatLoop act p state s) (formatLoop act' p state t) := by
  induction p, state, s using formatLoop.induct act generalizing t with
  | case1 state s =>
    rw [formatLoop, formatLoop]
    exact start
  | case2 state s c rest state' event moves ih =>
    rw [formatLoop_next act moves, formatLoop_next act' moves]
    refine ih ?_
    cases event with
    | none => exact start
    | some e => exact keeps e s t start
  | case3 state s c rest state' event stays ih =>
    rw [formatLoop_again act stays, formatLoop_again act' stays]
    refine ih ?_
    cases event with
    | none => exact start
    | some e => exact keeps e s t start

variable (act)

theorem formatLoop_eq (fmt : List Char) (s : σ) :
    formatLoop act fmt 0 s = (events fmt).foldl (fun s e => act e s) s := by
  have folds (e : Event) (t : σ) (l : List Event) (same : t = l.foldl (fun s e => act e s) s) :
      act e t = (l ++ [e]).foldl (fun s e => act e s) s := by
    rw [same, List.foldl_append, List.foldl_cons, List.foldl_nil]
  exact formatLoop_related folds fmt 0 rfl

end Loop

/-! ### The register version -/

section Align

variable (emu : X64emu) (mem : Nat → BitVec 64)

/-- What `myStackAlign` and `myStackAlignW` do at an event. -/
def Align.act : Event → Align → Align
  | .outside, s => s
  | .star, s | .integer, s => s.fetchInt emu mem
  | .double, s => s.fetchDouble emu mem
  | .longDouble, s => s.fetchLongDouble mem

theorem Align.act_state (e : Event) (s : Align) (state : Nat) :
    { s with state := state }.act emu mem e = { s.act emu mem e with state := state } := by
  cases e with
  | outside => rfl
  | star | integer =>
    by_cases left : s.pos < 6 <;> simp [act, fetchInt, put, left]
  | double =>
    by_cases none : s.xmm = 0 <;> simp [act, fetchDouble, put, none]
  | longDouble => rfl

theorem Align.step_eq (c : Char) (s : Align) : s.step emu mem c =
    ({ (turn c s.state).2.2.elim s (fun e => s.act emu mem e) with state := (turn c s.state).1 }, (turn c s.state).2.1) := by
  obtain ⟨state, st, mystack, x, xmm, pos, written⟩ := s
  have star (state : Nat) : Align.fetchInt emu mem ⟨state, st, mystack, x, xmm, pos, written⟩ =
      { Align.fetchInt emu mem ⟨state, st, mystack, x, xmm, pos, written⟩ with state := state } := by
    by_cases left : pos < 6 <;> simp [fetchInt, put, left]
  have conv (state : Nat) : Align.convChar emu mem c ⟨state, st, mystack, x, xmm, pos, written⟩ =
      ({ (convTurn c state).2.2.elim (⟨state, st, mystack, x, xmm, pos, written⟩ : Align) (fun e => Align.act emu mem e ⟨state, st, mystack, x, xmm, pos, written⟩) with
        state := (convTurn c state).1 }, (convTurn c state).2.1) := by
    unfold convChar convTurn
    split
    case h_40 => exact congrArg (·, true) (star state)
    case h_42 => simp_all
    all_goals rfl
  unfold step turn
  dsimp only
  split
  case h_1 => split <;> rfl
  case h_2 | h_3 | h_4 | h_5 | h_6 => exact conv _
  case h_19 => simp_all
  all_goals rfl

/-- The same state but for the number, which the loop of `Align` keeps in it. -/
def Align.Like (s t : Align) : Prop := { t with state := 0 } = { s with state := 0 }

theorem Align.Like.act {s t : Align} (like : s.Like t) (e : Event) (state : Nat) :
    Align.Like { s.act emu mem e with state := state } (t.act emu mem e) := by
  change { t.act emu mem e with state := 0 } = { s.act emu mem e with state := 0 }
  rw [← act_state emu mem e t 0, ← act_state emu mem e s 0, like]

theorem Align.loop_next {c : Char} {s s' : Align} (rest : List Char) (step : s.step emu mem c = (s', true)) :
    Align.loop emu mem (c :: rest) s = Align.loop emu mem rest s' := by
  rw [Align.loop]
  split
  case h_1 turn =>
    cases step.symm.trans turn
    rfl
  case h_2 turn => cases step.symm.trans turn

theorem Align.loop_again {c : Char} {s s' : Align} (rest : List Char) (step : s.step emu mem c = (s', false)) :
    Align.loop emu mem (c :: rest) s = Align.loop emu mem (c :: rest) s' := by
  rw [Align.loop]
  split
  case h_1 turn => cases step.symm.trans turn
  case h_2 turn =>
    cases step.symm.trans turn
    rfl

theorem Align.Like.loop {p : List Char} {s t : Align} (like : s.Like t) :
    Align.Like (s.loop emu mem p) (formatLoop (Align.act emu mem) p s.state t) := by
  have elim {s t : Align} (like : s.Like t) (e : Option Event) (state : Nat) :
      Align.Like { e.elim s (fun e => s.act emu mem e) with state := state } (e.elim t fun e => t.act emu mem e) := by
    cases e with
    | none => exact like
    | some e => exact like.act emu mem e state
  induction p, s using Align.loop.induct emu mem generalizing t with
  | case1 s =>
    rw [Align.loop, formatLoop]
    exact like
  | case2 s c rest s' step ih =>
    obtain ⟨turned, moved⟩ := Prod.mk.inj ((Align.step_eq emu mem c s).symm.trans step)
    subst turned
    rw [Align.loop_next emu mem rest step, formatLoop_next _ (Prod.ext rfl (Prod.ext moved rfl))]
    exact ih (elim like _ _)
  | case3 s c rest s' step ih =>
    obtain ⟨turned, moved⟩ := Prod.mk.inj ((Align.step_eq emu mem c s).symm.trans step)
    subst turned
    rw [Align.loop_again emu mem rest step, formatLoop_again _ (Prod.ext rfl (Prod.ext moved rfl))]
    exact ih (elim like _ _)

theorem loop_written_eq (p : List Char) (s : Align) (outside : s.state = 0) :
    (s.loop emu mem p).written = ((events p).foldl (fun s e => s.act emu mem e) s).written := by
  have like : Align.Like (s.loop emu mem p) _ := Align.Like.loop emu mem rfl
  rw [outside, formatLoop_eq] at like
  exact (congrArg Align.written like).symm

end Align

end Box64.Libtools
