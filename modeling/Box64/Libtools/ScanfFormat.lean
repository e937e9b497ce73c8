import Box64.Libtools.PrintfFormat
import Box64.Libtools.Scanf

/-!
# Formats of `scanf`

The conversions of a `scanf` format, the pointers they consume, and those `myStackAlignScanf` gathers for them.
-/

namespace Box64.Libtools

open VarArgs

/-! ### Syntax -/

inductive ScanLength
  | none | hh | h | l | ll | q | L | j | z | t
  deriving DecidableEq

/-- What follows `[`, up to the bracket that closes it: `]` may come first, and `^` only means itself later on. -/
structure Scanset where
  negated : Bool
  first : Char
  rest : List Char
  first_plain : negated = false → first ≠ '^'
  rest_inside : ']' ∉ rest

inductive ScanSpecifier
  | d | i | o | u | x | X | a | A | e | E | f | F | g | G | s | S | c | C | p | n
  | scanset (set : Scanset)

structure ScanConversion where
  suppressed : Bool
  width : List (Fin 10)
  allocated : Bool
  length : ScanLength
  specifier : ScanSpecifier

inductive ScanDirective
  | text (c : Char) (plain : c ≠ '%')
  | percent
  | conversion (conv : ScanConversion)

def ScanLength.chars : ScanLength → List Char
  | none => []
  | hh => ['h', 'h']
  | h => ['h']
  | l => ['l']
  | ll => ['l', 'l']
  | q => ['q']
  | L => ['L']
  | j => ['j']
  | z => ['z']
  | t => ['t']

/-- The characters between the brackets. -/
def Scanset.inside (set : Scanset) : List Char :=
  (if set.negated then ['^'] else []) ++ set.first :: set.rest

def ScanSpecifier.chars : ScanSpecifier → List Char
  | d => ['d']
  | i => ['i']
  | o => ['o']
  | u => ['u']
  | x => ['x']
  | X => ['X']
  | a => ['a']
  | A => ['A']
  | e => ['e']
  | E => ['E']
  | f => ['f']
  | F => ['F']
  | g => ['g']
  | G => ['G']
  | s => ['s']
  | S => ['S']
  | c => ['c']
  | C => ['C']
  | p => ['p']
  | n => ['n']
  | scanset set => '[' :: (set.inside ++ [']'])

/-- What follows the width. -/
def ScanConversion.tail (conv : ScanConversion) : List Char :=
  (if conv.allocated then ['m'] else []) ++ (conv.length.chars ++ conv.specifier.chars)

def ScanDirective.chars : ScanDirective → List Char
  | text c _ => [c]
  | percent => ['%', '%']
  | conversion conv => '%' :: ((if conv.suppressed then ['*'] else []) ++ (conv.width.map digitChar ++ conv.tail))

def renderScan (fmt : List ScanDirective) : List Char := fmt.flatMap ScanDirective.chars

/-! ### Pointers -/

/-- A conversion that is not suppressed takes a pointer. -/
def ScanDirective.pointers : ScanDirective → Nat
  | conversion conv => if conv.suppressed then 0 else 1
  | _ => 0

/-- The pointers of a format, as `mystack` has to hold them. -/
def expectedScan (fmt : List ScanDirective) (st mystack pos : Nat) (emu : X64emu) (mem : Nat → BitVec 64) :
    List (Nat × Slot) :=
  layout mystack (((sysv st 0 pos).places (List.replicate (fmt.map ScanDirective.pointers).sum .integer)).map
    (emu.args mem).value)

/-- The characters that end a conversion without an argument. -/
def enders : List Char := ['%', ' ', 'm']

/-- The characters that a conversion goes on after. -/
def modifiers : List Char :=
  ['l', 'L', 'z', 'h', '\'', '0', '1', '2', '3', '4', '5', '6', '7', '8', '9', '.', '+', '-', '$']

/-- How many conversions that are not suppressed begin with a `%` among the characters, each taken to end at the first
one that is not among the `modifiers`. Inside of a conversion `ign` says whether `*` has been seen. -/
def scanned (ign : Option Bool) : List Char → Nat
  | [] => 0
  | c :: cs =>
    match ign with
    | none => scanned (if c = '%' then some false else none) cs
    | some ign =>
      if c = '*' then scanned (some true) cs
      else if c ∈ enders then scanned none cs
      else if c ∈ modifiers then scanned (some ign) cs
      else (if ign then 0 else 1) + scanned none cs

/-- The conversions that a scanset holds when its characters are read as a format. -/
def ScanSpecifier.strays : ScanSpecifier → Nat
  | scanset set => scanned none (set.inside ++ [']'])
  | _ => 0

def ScanDirective.strays : ScanDirective → Nat
  | conversion conv => conv.specifier.strays
  | _ => 0

/-- Whether a pointer is asked for with `m`. -/
def ScanDirective.allocations : ScanDirective → Nat
  | conversion conv => if conv.allocated && !conv.suppressed then 1 else 0
  | _ => 0

/-! ### Reading -/

section Count

/-- What `ScanfAlign.act` does to `ign` and to the number of pointers. -/
def countAct : Event → Bool × Nat → Bool × Nat
  | .outside, (_, n) => (false, n)
  | .star, (_, n) => (true, n)
  | .integer, (ign, n) | .double, (ign, n) | .longDouble, (ign, n) => (ign, (if ign then 0 else 1) + n)

def Event.fetches : Event → Prop
  | .integer | .double | .longDouble => True
  | _ => False

theorem countAct_fetches {e : Event} (fetches : e.fetches) (ign : Bool) (n : Nat) :
    countAct e (ign, n) = (ign, (if ign then 0 else 1) + n) := by
  cases e with
  | outside | star => cases fetches
  | integer | double | longDouble => rfl

theorem convTurn_cases (c : Char) {state : Nat} (low : 1 ≤ state ∧ state ≤ 5) :
    (c = '*' ∧ convTurn c state = (state, true, some .star)) ∨
    (c ≠ '*' ∧ c ∈ enders ∧ convTurn c state = (0, true, none)) ∨
    (c ≠ '*' ∧ c ∉ enders ∧ c ∈ modifiers ∧
      ∃ state', (1 ≤ state' ∧ state' ≤ 5) ∧ convTurn c state = (state', true, none)) ∨
    (c ≠ '*' ∧ c ∉ enders ∧ c ∉ modifiers ∧
      ∃ state' e, convTurn c state = (state', false, none) ∧ turn c state' = (0, true, some e) ∧ e.fetches) := by
  have cases : state = 1 ∨ state = 2 ∨ state = 3 ∨ state = 4 ∨ state = 5 := by omega
  unfold convTurn
  split
  case h_1 | h_34 | h_41 => exact .inr (.inl ⟨by decide, by decide, rfl⟩)
  case h_2 => exact .inr (.inr (.inl ⟨by decide, by decide, by decide, _, by split <;> omega, rfl⟩))
  case h_3 | h_4 => exact .inr (.inr (.inl ⟨by decide, by decide, by decide, _, by omega, rfl⟩))
  case h_40 => exact .inl ⟨rfl, rfl⟩
  case h_5 | h_6 | h_7 | h_8 | h_9 | h_10 | h_11 | h_12 =>
    refine .inr (.inr (.inr ⟨by decide, by decide, by decide, state + 10, ?_⟩))
    obtain rfl | rfl | rfl | rfl | rfl := cases
    all_goals exact ⟨_, rfl, rfl, trivial⟩
  case h_13 | h_14 | h_15 | h_16 | h_17 | h_18 =>
    refine .inr (.inr (.inr ⟨by decide, by decide, by decide, state + 20, .integer, rfl, ?_, trivial⟩))
    obtain rfl | rfl | rfl | rfl | rfl := cases
    all_goals rfl
  case h_35 | h_36 | h_37 | h_38 =>
    exact .inr (.inr (.inr ⟨by decide, by decide, by decide, 30, .integer, rfl, rfl, trivial⟩))
  case h_42 =>
    refine .inr (.inr (.inr ⟨?_, ?_, ?_, 20, .integer, rfl, rfl, trivial⟩))
    all_goals simp_all [enders, modifiers]
  all_goals exact .inr (.inr (.inl ⟨by decide, by decide, by decide, state, low, rfl⟩))

/-- The state as `scanned` has it. -/
def scanState (state : Nat) (ign : Bool) : Option Bool := if state = 0 then none else some ign

theorem counts (p : List Char) {state : Nat} (low : state ≤ 5) (ign : Bool) (n : Nat) :
    (formatLoop countAct p state (ign, n)).2 = n + scanned (scanState state ign) p := by
  induction p generalizing state ign n with
  | nil =>
    rw [formatLoop, scanned]
    rfl
  | cons c rest ih =>
    by_cases outside : state = 0
    · subst outside
      rw [formatLoop_next countAct (rfl : turn c 0 = _) rest, scanState, if_pos rfl, scanned]
      refine (ih (by split <;> omega) false n).trans ?_
      rw [scanState]
      by_cases percent : c = '%'
      · rw [if_pos percent, if_pos percent, if_neg (by decide)]
      · rw [if_neg percent, if_neg percent, if_pos rfl]
    · have conv : turn c state = convTurn c state := by
        obtain rfl | rfl | rfl | rfl | rfl : state = 1 ∨ state = 2 ∨ state = 3 ∨ state = 4 ∨ state = 5 := by omega
        all_goals rfl
      have scan {state : Nat} (nonzero : state ≠ 0) (ign : Bool) : scanState state ign = some ign := if_neg nonzero
      rw [scan outside, scanned]
      obtain ⟨star, turned⟩ | ⟨star, ender, turned⟩ | ⟨star, ender, modifier, state', low', turned⟩ |
        ⟨star, ender, modifier, state', e, turned, again, fetches⟩ := convTurn_cases c (by omega : 1 ≤ state ∧ state ≤ 5)
      · rw [formatLoop_next countAct (conv.trans turned), if_pos star]
        exact (ih low true n).trans (by rw [scan outside])
      · rw [formatLoop_next countAct (conv.trans turned), if_neg star, if_pos ender]
        exact ih (by omega) ign n
      · rw [formatLoop_next countAct (conv.trans turned), if_neg star, if_neg ender, if_pos modifier]
        exact (ih low'.2 ign n).trans (by rw [scan (by omega)])
      · rw [formatLoop_again countAct (conv.trans turned), formatLoop_next countAct again, if_neg star, if_neg ender,
          if_neg modifier, Option.elim_none, Option.elim_some, countAct_fetches fetches]
        refine (ih (by omega) ign _).trans ?_
        rw [scanState, if_pos rfl]
        omega

end Count

section Pointers

variable {emu : X64emu} {mem : Nat → BitVec 64}

def ScanfAlign.cursor (s : ScanfAlign) : Cursor Reg Nat := ⟨regs_abi.drop s.pos, [], s.st⟩

theorem ScanfAlign.fetch_written (s : ScanfAlign) (slots : List Slot) :
    (s.fetch emu mem).written ++ layout (s.fetch emu mem).mystack slots =
      s.written ++ layout s.mystack ((emu.args mem).value (s.cursor.place .integer) :: slots) ∧
    (s.fetch emu mem).cursor = s.cursor.after .integer := by
  obtain ⟨st, mystack, pos, ign, written⟩ := s
  by_cases left : pos < 6
  · simp [fetch, put, left, cursor, Cursor.place, Cursor.after, regs_abi_drop left, Args.value, X64emu.args, layout]
  · have none : regs_abi.drop pos = [] := List.drop_eq_nil_of_le (Nat.le_of_not_lt left)
    simp [fetch, put, left, cursor, Cursor.place, Cursor.after, none, Args.value, X64emu.args, layout]

/-- What has been written is what `n` pointers come to, whatever follows them. -/
structure Gathered (emu : X64emu) (mem : Nat → BitVec 64) (c : Cursor Reg Nat) (mystack : Nat) (s : ScanfAlign)
    (counted : Bool × Nat) : Prop where
  ign : s.ign = counted.1
  written (kinds : List Kind) :
    s.written ++ layout s.mystack ((s.cursor.places kinds).map (emu.args mem).value) =
      layout mystack ((c.places (List.replicate counted.2 .integer ++ kinds)).map (emu.args mem).value)

theorem Gathered.fetch {c : Cursor Reg Nat} {mystack n : Nat} {s : ScanfAlign} {ign : Bool}
    (gathered : Gathered emu mem c mystack s (ign, n)) :
    Gathered emu mem c mystack (s.fetch emu mem) (ign, 1 + n) := by
  have kept : (s.fetch emu mem).ign = s.ign := by
    rw [ScanfAlign.fetch]
    split <;> rfl
  refine ⟨kept.trans gathered.ign, fun kinds => ?_⟩
  obtain ⟨written, cursor⟩ := s.fetch_written (((s.cursor.after .integer).places kinds).map (emu.args mem).value)
  have before := gathered.written (.integer :: kinds)
  have more : List.replicate n Kind.integer ++ .integer :: kinds = List.replicate (1 + n) .integer ++ kinds := by
    rw [Nat.add_comm, List.replicate_succ', List.append_assoc]
    rfl
  rw [cursor, written, ← more, ← before]
  rfl

theorem Gathered.act {c : Cursor Reg Nat} {mystack : Nat} (e : Event) (s : ScanfAlign) (counted : Bool × Nat)
    (gathered : Gathered emu mem c mystack s counted) :
    Gathered emu mem c mystack (s.act emu mem e) (countAct e counted) := by
  obtain ⟨ign, n⟩ := counted
  cases e with
  | outside => exact ⟨rfl, gathered.written⟩
  | star => exact ⟨rfl, gathered.written⟩
  | integer | double | longDouble =>
    rw [ScanfAlign.act, gathered.ign, countAct]
    cases ign with
    | false => exact gathered.fetch
    | true =>
      rw [if_pos rfl, Nat.zero_add]
      exact gathered

theorem scanf_written (fmt : List Char) (st mystack pos : Nat) :
    (formatLoop (ScanfAlign.act emu mem) fmt 0 ⟨st, mystack, pos, false, []⟩).written =
      layout mystack (((sysv st 0 pos).places (List.replicate (scanned none fmt) .integer)).map (emu.args mem).value) := by
  have start : Gathered emu mem (sysv st 0 pos) mystack ⟨st, mystack, pos, false, []⟩ (false, 0) :=
    ⟨rfl, fun kinds => List.nil_append _⟩
  have finish := (formatLoop_related Gathered.act fmt 0 start).written []
  rw [counts fmt (Nat.zero_le 5), Nat.zero_add, List.append_nil] at finish
  exact (List.append_nil _).symm.trans finish

end Pointers

/-! ### Scanning a rendered format -/

section Render

theorem scanned_text {cs : List Char} (plain : '%' ∉ cs) (rest : List Char) :
    scanned none (cs ++ rest) = scanned none rest := by
  induction cs with
  | nil => rfl
  | cons c cs ih =>
    obtain ⟨other, plain⟩ := List.ne_and_not_mem_of_not_mem_cons plain
    rw [List.cons_append, scanned, if_neg other.symm]
    exact ih plain

theorem modifiers_pass {c : Char} (modifier : c ∈ modifiers) : c ≠ '*' ∧ c ∉ enders := by
  have all : modifiers.all (fun c => decide (c ≠ '*' ∧ c ∉ enders)) = true := by decide
  exact of_decide_eq_true (List.all_eq_true.mp all c modifier)

theorem all_modifiers {cs : List Char} (all : cs.all (fun c => decide (c ∈ modifiers)) = true) : ∀ c ∈ cs, c ∈ modifiers :=
  fun c member => of_decide_eq_true (List.all_eq_true.mp all c member)

theorem scanned_modifiers {cs : List Char} (pass : ∀ c ∈ cs, c ∈ modifiers) (ign : Bool) (rest : List Char) :
    scanned (some ign) (cs ++ rest) = scanned (some ign) rest := by
  induction cs with
  | nil => rfl
  | cons c cs ih =>
    have modifier := pass c List.mem_cons_self
    obtain ⟨star, ender⟩ := modifiers_pass modifier
    rw [List.cons_append, scanned, if_neg star, if_neg ender, if_pos modifier]
    exact ih fun c member => pass c (List.mem_cons_of_mem _ member)

theorem scanned_fetch {c : Char} (star : c ≠ '*') (ender : c ∉ enders) (modifier : c ∉ modifiers) (ign : Bool)
    (rest : List Char) : scanned (some ign) (c :: rest) = (if ign then 0 else 1) + scanned none rest := by
  rw [scanned, if_neg star, if_neg ender, if_neg modifier]

/-- A closing bracket ends whatever has begun. -/
theorem scanned_closed (ign : Option Bool) (cs rest : List Char) :
    scanned ign (cs ++ ']' :: rest) = scanned ign (cs ++ [']']) + scanned none rest := by
  induction cs generalizing ign with
  | nil =>
    cases ign with
    | none => exact (Nat.zero_add _).symm
    | some ign => exact congrArg (· + _) (scanned_fetch (by decide) (by decide) (by decide) ign []).symm
  | cons c cs ih =>
    rw [List.cons_append, List.cons_append]
    cases ign with
    | none => exact ih _
    | some ign =>
      rw [scanned, scanned]
      by_cases star : c = '*'
      · rw [if_pos star, if_pos star, ih]
      · rw [if_neg star, if_neg star]
        split
        · exact ih none
        · split
          · exact ih (some ign)
          · rw [ih, Nat.add_assoc]

theorem Scanset.scanned_rest (set : Scanset) (rest : List Char) :
    scanned none ((set.inside ++ [']']) ++ rest) = scanned none (set.inside ++ [']']) + scanned none rest := by
  rw [List.append_assoc]
  exact scanned_closed none set.inside rest

/-- Outside of a conversion a specifier is text, but for the conversions in its set. -/
theorem ScanSpecifier.scanned_outside (specifier : ScanSpecifier) (rest : List Char) :
    scanned none (specifier.chars ++ rest) = specifier.strays + scanned none rest := by
  cases specifier with
  | scanset set => exact set.scanned_rest rest
  | _ => exact (scanned_text (by decide) rest).trans (Nat.zero_add _).symm

theorem ScanSpecifier.scanned_inside (specifier : ScanSpecifier) (ign : Bool) (rest : List Char) :
    scanned (some ign) (specifier.chars ++ rest) = (if ign then 0 else 1) + specifier.strays + scanned none rest := by
  cases specifier with
  | scanset set =>
    refine (scanned_fetch (by decide) (by decide) (by decide) ign _).trans ?_
    rw [Nat.add_assoc]
    exact congrArg (_ + ·) (set.scanned_rest rest)
  | _ => exact scanned_fetch (by decide) (by decide) (by decide) ign rest

theorem ScanLength.scanned_inside (length : ScanLength) (specifier : ScanSpecifier) (ign : Bool) (rest : List Char) :
    scanned (some ign) (length.chars ++ (specifier.chars ++ rest)) =
      (if ign then 0 else 1) + specifier.strays + scanned Option.none rest := by
  cases length with
  | q | j | t =>
    -- the length is taken for the specifier
    refine (scanned_fetch (by decide) (by decide) (by decide) ign _).trans ?_
    rw [Nat.add_assoc]
    exact congrArg (_ + ·) (specifier.scanned_outside rest)
  | _ =>
    rw [scanned_modifiers (all_modifiers (by decide))]
    exact specifier.scanned_inside ign rest

theorem ScanLength.plain (length : ScanLength) : '%' ∉ length.chars := by
  cases length <;> decide

theorem digit_modifier (d : Fin 10) : digitChar d ∈ modifiers := by
  fin_cases d <;> decide

theorem ScanConversion.scanned_tail (conv : ScanConversion) (ign : Bool) (rest : List Char) :
    scanned (some ign) (conv.tail ++ rest) =
      (if conv.allocated || ign then 0 else 1) + conv.specifier.strays + scanned none rest := by
  obtain ⟨suppressed, width, allocated, length, specifier⟩ := conv
  rw [tail, List.append_assoc, List.append_assoc]
  cases allocated with
  | false => exact length.scanned_inside specifier ign rest
  | true =>
    change scanned Option.none (length.chars ++ (specifier.chars ++ rest)) = _
    rw [scanned_text length.plain, specifier.scanned_outside, Bool.true_or, if_pos rfl, Nat.zero_add]

theorem ScanDirective.scanned_chars (directive : ScanDirective) (rest : List Char) :
    scanned none (directive.chars ++ rest) + directive.allocations =
      directive.pointers + directive.strays + scanned none rest := by
  cases directive with
  | text c plain => exact (scanned_text (mt List.mem_singleton.mp plain.symm) rest).trans (Nat.zero_add _).symm
  | percent => exact (Nat.zero_add _).symm
  | conversion conv =>
    obtain ⟨suppressed, width, allocated, length, specifier⟩ := conv
    have digits : ∀ c ∈ width.map digitChar, c ∈ modifiers := by
      intro c member
      obtain ⟨d, -, rfl⟩ := List.mem_map.mp member
      exact digit_modifier d
    have tail := ScanConversion.scanned_tail ⟨suppressed, width, allocated, length, specifier⟩ suppressed rest
    rw [← scanned_modifiers digits] at tail
    have read : scanned none ((conversion ⟨suppressed, width, allocated, length, specifier⟩).chars ++ rest) =
        (if allocated || suppressed then 0 else 1) + specifier.strays + scanned none rest := by
      refine Eq.trans ?_ tail
      rw [← List.append_assoc]
      cases suppressed <;> rfl
    rw [read]
    cases allocated <;> cases suppressed <;> simp +arith [allocations, pointers, strays]

theorem scanned_render (fmt : List ScanDirective) :
    scanned none (renderScan fmt) + (fmt.map ScanDirective.allocations).sum =
      (fmt.map ScanDirective.pointers).sum + (fmt.map ScanDirective.strays).sum := by
  induction fmt with
  | nil => rfl
  | cons directive fmt ih =>
    have head := directive.scanned_chars (renderScan fmt)
    have split : renderScan (directive :: fmt) = directive.chars ++ renderScan fmt := List.flatMap_cons
    rw [split, List.map_cons, List.map_cons, List.map_cons, List.sum_cons, List.sum_cons, List.sum_cons]
    omega

end Render

/-! ### Main results -/

section Main

theorem Cursor_length_places (c : Cursor Reg Nat) (kinds : List Kind) : (c.places kinds).length = kinds.length := by
  induction kinds generalizing c with
  | nil => rfl
  | cons k kinds ih => exact congrArg (· + 1) (ih (c.after k))

/-- A format is repacked exactly when its scansets hold as many conversions as it has pointers asked for with `m`. -/
theorem scanf_repacks_iff (fmt : List ScanDirective) (st mystack pos : Nat) (emu : X64emu) (mem : Nat → BitVec 64) :
    (myStackAlignScanf emu mem (some (renderScan fmt)) st mystack pos = expectedScan fmt st mystack pos emu mem ∧
      myStackAlignScanfW emu mem (some (renderScan fmt)) st mystack pos = expectedScan fmt st mystack pos emu mem) ↔
    (fmt.map ScanDirective.strays).sum = (fmt.map ScanDirective.allocations).sum := by
  have counted := scanned_render fmt
  have same : (myStackAlignScanf emu mem (some (renderScan fmt)) st mystack pos =
      expectedScan fmt st mystack pos emu mem) ↔
      scanned none (renderScan fmt) = (fmt.map ScanDirective.pointers).sum := by
    rw [myStackAlignScanf, scanf_written, expectedScan]
    constructor
    · intro same
      have lengths := congrArg List.length (layout_injective same)
      rw [List.length_map, List.length_map, Cursor_length_places, Cursor_length_places, List.length_replicate,
        List.length_replicate] at lengths
      exact lengths
    · intro same
      rw [same]
  refine (and_self_iff.trans same).trans ?_
  omega

/-- `"%[%]"`: the closing bracket takes a second pointer. -/
theorem scanset_repacks_not : ¬ ∀ (fmt : List ScanDirective) (st mystack pos : Nat) (emu : X64emu)
    (mem : Nat → BitVec 64),
    myStackAlignScanf emu mem (some (renderScan fmt)) st mystack pos = expectedScan fmt st mystack pos emu mem := by
  intro repacks
  have gathered := repacks [.conversion ⟨false, [], false, .none, .scanset ⟨false, '%', [], by decide, by decide⟩⟩]
    0 0 2 ⟨fun _ => 0, fun _ => 0⟩ fun _ => 0
  rw [myStackAlignScanf, scanf_written] at gathered
  exact absurd gathered (by decide)

end Main

end Box64.Libtools
