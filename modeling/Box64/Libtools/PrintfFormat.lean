import Box64.Libtools.MyAlign
import Mathlib.Tactic.FinCases
import Mathlib.Tactic.IntervalCases

/-!
# Formats

The conversions of a `printf` format, the arguments they consume, and those `myStackAlign` gathers for them.
-/

namespace Box64.Libtools

open VarArgs

/-! ### Syntax -/

inductive Flag
  | minus
  | plus
  | space
  | hash
  | zero
  | quote
  deriving DecidableEq

/-- A width or a precision. -/
inductive Field
  | digits (ds : List (Fin 10))
  | star
  deriving DecidableEq

inductive Length
  | none
  | hh
  | h
  | l
  | ll
  | L
  | z
  deriving DecidableEq

inductive Specifier
  | d | i | o | u | x | X | c | s | p | n | a | A | e | E | f | F | g | G | m
  deriving DecidableEq

structure Conversion where
  flags : List Flag
  width : Field
  precision : Option Field
  length : Length
  specifier : Specifier
  deriving DecidableEq

inductive Directive
  | text (c : Char) (plain : c ≠ '%')
  | percent
  | conversion (conv : Conversion)
  deriving DecidableEq

def Flag.char : Flag → Char
  | minus => '-'
  | plus => '+'
  | space => ' '
  | hash => '#'
  | zero => '0'
  | quote => '\''

def digitChar (d : Fin 10) : Char := Char.ofNat (48 + d)

def Field.chars : Field → List Char
  | digits ds => ds.map digitChar
  | star => ['*']

def Length.chars : Length → List Char
  | none => []
  | hh => ['h', 'h']
  | h => ['h']
  | l => ['l']
  | ll => ['l', 'l']
  | L => ['L']
  | z => ['z']

def Specifier.char : Specifier → Char
  | d => 'd'
  | i => 'i'
  | o => 'o'
  | u => 'u'
  | x => 'x'
  | X => 'X'
  | c => 'c'
  | s => 's'
  | p => 'p'
  | n => 'n'
  | a => 'a'
  | A => 'A'
  | e => 'e'
  | E => 'E'
  | f => 'f'
  | F => 'F'
  | g => 'g'
  | G => 'G'
  | m => 'm'

def precisionChars : Option Field → List Char
  | none => []
  | some field => '.' :: field.chars

/-- What follows the flags. -/
def Conversion.tail (conv : Conversion) : List Char :=
  conv.width.chars ++ (precisionChars conv.precision ++ (conv.length.chars ++ [conv.specifier.char]))

def Directive.chars : Directive → List Char
  | text c _ => [c]
  | percent => ['%', '%']
  | conversion conv => '%' :: (conv.flags.map Flag.char ++ conv.tail)

def render (fmt : List Directive) : List Char := fmt.flatMap Directive.chars

/-! ### Arguments -/

def Field.kinds : Field → List Kind
  | digits _ => []
  | star => [.integer]

def Specifier.kinds (length : Length) : Specifier → List Kind
  | m => []
  | a | A | e | E | f | F | g | G => if length = .L then [.longDouble] else [.double]
  | _ => [.integer]

def Conversion.kinds (conv : Conversion) : List Kind :=
  conv.width.kinds ++ ((conv.precision.elim [] Field.kinds) ++ conv.specifier.kinds conv.length)

/-- The arguments a directive consumes. -/
def Directive.kinds : Directive → List Kind
  | conversion conv => conv.kinds
  | _ => []

/-- The arguments gathered for a conversion: a space among the flags ends it, `#` is taken for an integer. -/
def readKinds (conv : Conversion) : List Flag → List Kind
  | [] => conv.kinds
  | .space :: _ => []
  | .hash :: _ => [.integer]
  | _ :: flags => readKinds conv flags

def Directive.readKinds : Directive → List Kind
  | conversion conv => Libtools.readKinds conv conv.flags
  | _ => []

/-! ### Reading -/

section Reads

variable (emu : X64emu) (mem : Nat → BitVec 64)

def Align.take (s : Align) : Kind → Align
  | .integer => s.fetchInt emu mem
  | .double => s.fetchDouble emu mem
  | .longDouble => s.fetchLongDouble mem

def Align.takeAll (s : Align) (kinds : List Kind) : Align := kinds.foldl (Align.take emu mem) s

/-- The loop goes through `chars` from `s` to `s'`, whatever follows. -/
def Reads (chars : List Char) (s s' : Align) : Prop :=
  ∀ rest, Align.loop emu mem (chars ++ rest) s = Align.loop emu mem rest s'

variable {emu mem}

theorem Reads.nil (s : Align) : Reads emu mem [] s s := fun _ => rfl

theorem Reads.append {first second : List Char} {s s' s'' : Align} (begins : Reads emu mem first s s')
    (ends : Reads emu mem second s' s'') : Reads emu mem (first ++ second) s s'' := by
  intro rest
  rw [List.append_assoc, begins, ends]

theorem Reads.next {c : Char} {s s' : Align} (turn : s.step emu mem c = (s', true)) : Reads emu mem [c] s s' := by
  intro rest
  rw [List.singleton_append, Align.loop]
  split
  case h_1 step =>
    cases turn.symm.trans step
    rfl
  case h_2 step => cases turn.symm.trans step

theorem Reads.again {c : Char} {s s'' : Align} (s' : Align) (turn : s.step emu mem c = (s', false))
    (reads : Reads emu mem [c] s' s'') : Reads emu mem [c] s s'' := by
  intro rest
  rw [← reads rest, List.singleton_append, Align.loop]
  split
  case h_1 step => cases turn.symm.trans step
  case h_2 step =>
    cases turn.symm.trans step
    rfl

theorem Reads.cons {c : Char} {chars : List Char} {s s' s'' : Align} (begins : Reads emu mem [c] s s')
    (ends : Reads emu mem chars s' s'') : Reads emu mem (c :: chars) s s'' := Reads.append begins ends

/-- Outside a conversion nothing but `%` matters. -/
theorem Reads.text {chars : List Char} {s : Align} (outside : s.state = 0) (plain : ∀ c ∈ chars, c ≠ '%') :
    Reads emu mem chars s s := by
  induction chars with
  | nil => exact .nil s
  | cons c chars ih =>
    obtain ⟨head, tail⟩ := List.forall_mem_cons.mp plain
    refine .cons (.next ?_) (ih tail)
    rw [Align.step, outside]
    exact if_neg head

/-! ### One conversion -/

def Align.inState (s : Align) (state : Nat) : Align := { s with state }

theorem Align.take_inState (s : Align) (state : Nat) (k : Kind) :
    (s.inState state).take emu mem k = (s.take emu mem k).inState state := by
  cases k with
  | integer =>
    by_cases left : s.pos < 6 <;> simp [take, fetchInt, inState, put, left]
  | double =>
    by_cases none : s.xmm = 0 <;> simp [take, fetchDouble, inState, put, none]
  | longDouble => rfl

theorem Align.takeAll_append (s : Align) (kinds kinds' : List Kind) :
    s.takeAll emu mem (kinds ++ kinds') = (s.takeAll emu mem kinds).takeAll emu mem kinds' := List.foldl_append

variable {s : Align}

theorem Reads.integer (c : Char) {state : Nat} (at_int : state ∈ [20, 21, 22, 23, 24, 25, 30]) :
    Reads emu mem [c] (s.inState state) ((s.takeAll emu mem [.integer]).inState 0) := by
  refine .next ?_
  have fetched : (s.inState state).fetchInt emu mem = (s.fetchInt emu mem).inState state := s.take_inState state .integer
  have turn : (s.inState state).step emu mem c = (((s.inState state).fetchInt emu mem).inState 0, true) := by
    simp only [List.mem_cons, List.not_mem_nil, or_false] at at_int
    obtain rfl | rfl | rfl | rfl | rfl | rfl | rfl := at_int <;> rfl
  rw [turn, fetched]
  rfl

theorem Reads.double (c : Char) {state : Nat} (at_double : state ∈ [11, 12, 13, 15]) :
    Reads emu mem [c] (s.inState state) ((s.takeAll emu mem [.double]).inState 0) := by
  refine .next ?_
  have fetched : (s.inState state).fetchDouble emu mem = (s.fetchDouble emu mem).inState state :=
    s.take_inState state .double
  have turn : (s.inState state).step emu mem c = (((s.inState state).fetchDouble emu mem).inState 0, true) := by
    simp only [List.mem_cons, List.not_mem_nil, or_false] at at_double
    obtain rfl | rfl | rfl | rfl := at_double <;> rfl
  rw [turn, fetched]
  rfl

theorem Reads.field (field : Field) :
    Reads emu mem field.chars (s.inState 1) ((s.takeAll emu mem field.kinds).inState 1) := by
  cases field with
  | digits ds =>
    induction ds with
    | nil => exact .nil _
    | cons d ds ih =>
      refine .cons (.next ?_) ih
      fin_cases d <;> rfl
  | star =>
    refine .next ?_
    rw [Align.takeAll, Field.kinds, List.foldl_cons, List.foldl_nil, ← Align.take_inState]
    rfl

theorem Reads.precision (precision : Option Field) : Reads emu mem (precisionChars precision) (s.inState 1)
    ((s.takeAll emu mem (precision.elim [] Field.kinds)).inState 1) := by
  cases precision with
  | none => exact .nil _
  | some field => exact .cons (.next rfl) (.field field)

def Length.state : Length → Nat
  | none | hh | h => 1
  | l => 2
  | ll => 3
  | L => 4
  | z => 5

theorem Reads.length (length : Length) : Reads emu mem length.chars (s.inState 1) (s.inState length.state) := by
  cases length with
  | none => exact .nil _
  | hh => exact .cons (.next rfl) (.next rfl)
  | h => exact .next rfl
  | l => exact .next rfl
  | ll => exact .cons (.next rfl) (.next rfl)
  | L => exact .next rfl
  | z => exact .next rfl

variable (emu mem s) in
theorem Align.step_conv (length : Length) (c : Char) :
    (s.inState length.state).step emu mem c = (s.inState length.state).convChar emu mem c := by cases length <;> rfl

theorem Reads.specifier (length : Length) (spec : Specifier) : Reads emu mem [spec.char] (s.inState length.state)
    ((s.takeAll emu mem (spec.kinds length)).inState 0) := by
  have conv : ∀ c, _ := s.step_conv emu mem length
  cases spec with
  | m => exact .next (conv 'm')
  | a | A | e | E | f | F | g | G =>
    refine .again (s.inState (length.state + 10)) (conv _) ?_
    cases length with
    | L => exact .next rfl
    | _ => exact .double _ (by decide)
  | d | i | o | u | x | X =>
    refine .again (s.inState (length.state + 20)) (conv _) ?_
    cases length <;> exact .integer _ (by decide)
  | n | p | s => exact .again (s.inState 30) (conv _) (.integer _ (by decide))
  | c => exact .again (s.inState 20) (conv _) (.integer _ (by decide))

theorem Reads.tail (conv : Conversion) :
    Reads emu mem conv.tail (s.inState 1) ((s.takeAll emu mem conv.kinds).inState 0) := by
  rw [Conversion.kinds, Align.takeAll_append, Align.takeAll_append]
  exact (Reads.field conv.width).append
    ((Reads.precision conv.precision).append ((Reads.length conv.length).append (.specifier conv.length conv.specifier)))

/-! ### No `%` inside a conversion -/

theorem Field.chars_plain (field : Field) : ∀ c ∈ field.chars, c ≠ '%' := by
  cases field with
  | digits ds =>
    refine List.forall_mem_map.mpr ?_
    intro d _
    fin_cases d <;> decide
  | star => exact List.forall_mem_singleton.mpr (by decide)

theorem Conversion.tail_plain (conv : Conversion) : ∀ c ∈ conv.tail, c ≠ '%' := by
  have precision : ∀ c ∈ precisionChars conv.precision, c ≠ '%' := by
    cases conv.precision with
    | none => exact fun _ mem => absurd mem List.not_mem_nil
    | some field => exact List.forall_mem_cons.mpr ⟨by decide, field.chars_plain⟩
  have length : ∀ c ∈ conv.length.chars, c ≠ '%' := by cases conv.length <;> simp [Length.chars]
  have specifier : ∀ c ∈ [conv.specifier.char], c ≠ '%' :=
    List.forall_mem_singleton.mpr (by cases conv.specifier <;> decide)
  simp only [tail, List.forall_mem_append]
  exact ⟨conv.width.chars_plain, precision, length, specifier⟩

theorem flags_tail_plain (flags : List Flag) (conv : Conversion) :
    ∀ c ∈ flags.map Flag.char ++ conv.tail, c ≠ '%' := by
  refine List.forall_mem_append.mpr ⟨List.forall_mem_map.mpr ?_, conv.tail_plain⟩
  intro flag _
  cases flag <;> decide

/-! ### Whole formats -/

theorem Reads.flags (flags : List Flag) (conv : Conversion) : Reads emu mem (flags.map Flag.char ++ conv.tail)
    (s.inState 1) ((s.takeAll emu mem (readKinds conv flags)).inState 0) := by
  induction flags with
  | nil => exact .tail conv
  | cons flag flags ih =>
    have rest : ∀ t : Align, Reads emu mem (flags.map Flag.char ++ conv.tail) (t.inState 0) (t.inState 0) :=
      fun t => .text rfl (flags_tail_plain flags conv)
    cases flag with
    | minus | plus | zero | quote => exact .cons (.next rfl) ih
    | space => exact .cons (.next rfl) (rest s)
    | hash => exact .cons (.again (s.inState 20) rfl (.integer '#' (by decide))) (rest _)

theorem Reads.directive (d : Directive) :
    Reads emu mem d.chars (s.inState 0) ((s.takeAll emu mem d.readKinds).inState 0) := by
  cases d with
  | text c plain => exact .text rfl (List.forall_mem_singleton.mpr plain)
  | percent => exact .cons (.next rfl) (.next rfl)
  | conversion conv =>
    have percent : Reads emu mem ['%'] (s.inState 0) (s.inState 1) := .next rfl
    exact .cons percent (.flags conv.flags conv)

variable (emu mem s) in
theorem Reads.render (fmt : List Directive) :
    Reads emu mem (render fmt) (s.inState 0) ((s.takeAll emu mem (fmt.flatMap Directive.readKinds)).inState 0) := by
  induction fmt generalizing s with
  | nil => exact .nil _
  | cons d fmt ih =>
    rw [List.flatMap_cons, Align.takeAll_append]
    exact (Reads.directive d).append (ih _)

/-! ### Places -/

/-- The places the next arguments are in. -/
def Align.cursor (s : Align) : Cursor Reg Nat := ⟨regs_abi.drop s.pos, List.range' s.x s.xmm, s.st⟩

def X64emu.args (emu : X64emu) (mem : Nat → BitVec 64) : Args Reg Nat :=
  ⟨emu.regs, fun v => (emu.xmm v).setWidth 64, mem⟩

theorem regs_abi_drop {pos : Nat} (left : pos < 6) :
    regs_abi.drop pos = regs_abi.getD pos .AX :: regs_abi.drop (pos + 1) := by
  interval_cases pos <;> rfl

theorem Align.take_written (s : Align) (k : Kind) (slots : List Slot) :
    (s.take emu mem k).written ++ layout (s.take emu mem k).mystack slots =
      s.written ++ layout s.mystack ((emu.args mem).value (s.cursor.place k) :: slots) ∧
    (s.take emu mem k).cursor = s.cursor.after k := by
  obtain ⟨state, st, mystack, x, xmm, pos, written⟩ := s
  cases k with
  | integer =>
    by_cases left : pos < 6
    · simp [take, fetchInt, put, left, cursor, Cursor.place, Cursor.after, regs_abi_drop left, Args.value, X64emu.args,
        layout]
    · have none : regs_abi.drop pos = [] := List.drop_eq_nil_of_le (Nat.le_of_not_lt left)
      simp [take, fetchInt, put, left, cursor, Cursor.place, Cursor.after, none, Args.value, X64emu.args, layout]
  | double =>
    cases xmm with
    | zero => simp [take, fetchDouble, put, cursor, Cursor.place, Cursor.after, Args.value, X64emu.args, layout]
    | succ n =>
      simp [take, fetchDouble, put, cursor, Cursor.place, Cursor.after, List.range'_succ, Args.value, X64emu.args,
        layout]
  | longDouble =>
    simp [take, fetchLongDouble, cursor, Cursor.place, Cursor.after, Args.value, X64emu.args, layout, align16]

variable (emu mem) in
theorem Align.takeAll_written (s : Align) (kinds : List Kind) :
    (s.takeAll emu mem kinds).written =
      s.written ++ layout s.mystack ((s.cursor.places kinds).map (emu.args mem).value) := by
  induction kinds generalizing s with
  | nil => exact (List.append_nil _).symm
  | cons k kinds ih =>
    obtain ⟨written, cursor⟩ := s.take_written k ((((s.cursor.after k).places kinds)).map (emu.args mem).value)
    rw [takeAll, List.foldl_cons]
    refine (ih _).trans ?_
    rw [cursor, written]
    rfl

end Reads

/-! ### Main results -/

section Main

variable (fmt : List Directive) (st mystack xmm pos : Nat)

/-- The convention: integer registers from `pos` on, `xmm` vector registers, and the stack at `st`. -/
def sysv : Cursor Reg Nat := ⟨regs_abi.drop pos, List.range xmm, st⟩

/-- The arguments of a format, as `mystack` has to hold them. -/
def expected (emu : X64emu) (mem : Nat → BitVec 64) : List (Nat × Slot) :=
  layout mystack (((sysv st xmm pos).places (fmt.flatMap Directive.kinds)).map (emu.args mem).value)

/-- What `mystack` holds is what the format consumes, for all registers and stacks. -/
def Repacks : Prop :=
  ∀ emu mem, myStackAlign emu mem (some (render fmt)) st mystack xmm pos = expected fmt st mystack xmm pos emu mem ∧
    myStackAlignW emu mem (render fmt) st mystack xmm pos = expected fmt st mystack xmm pos emu mem

/-- The arguments are gathered from the places of `readKinds`. -/
theorem loop_written (emu : X64emu) (mem : Nat → BitVec 64) :
    (Align.loop emu mem (render fmt) ⟨0, st, mystack, 0, xmm, pos, []⟩).written =
      layout mystack (((sysv st xmm pos).places (fmt.flatMap Directive.readKinds)).map (emu.args mem).value) := by
  have read := Reads.render emu mem ⟨0, st, mystack, 0, xmm, pos, []⟩ fmt []
  rw [List.append_nil, Align.loop] at read
  have written := Align.takeAll_written emu mem ⟨0, st, mystack, 0, xmm, pos, []⟩
    (fmt.flatMap Directive.readKinds)
  rw [Align.cursor, ← List.range_eq_range'] at written
  exact (congrArg Align.written read).trans written

/-- The format is repacked exactly where it has the same arguments, in the same places, when every conversion is cut at
the first space among its flags and taken for an integer at the first `#`. -/
theorem repacks_iff : Repacks fmt st mystack xmm pos ↔
    (sysv st xmm pos).places (fmt.flatMap Directive.readKinds) =
      (sysv st xmm pos).places (fmt.flatMap Directive.kinds) := by
  constructor
  · intro repacks
    apply Args.places_ext
    intro args
    have wide : (X64emu.args ⟨args.ints, fun v => (args.vecs v).setWidth 128⟩ args.stack) = args := by
      simp [X64emu.args]
    have same := (repacks ⟨args.ints, fun v => (args.vecs v).setWidth 128⟩ args.stack).1
    rw [myStackAlign, loop_written, expected, wide] at same
    exact layout_injective same
  · intro same emu mem
    rw [myStackAlign, myStackAlignW, loop_written, expected, same]
    exact ⟨rfl, rfl⟩

/-- `"% d%d"`, with its arguments in `%rsi` and `%rdx`: one of the two is gathered. -/
theorem spaced_repacks_not : ¬ Repacks [.conversion ⟨[.space], .digits [], none, .none, .d⟩,
    .conversion ⟨[], .digits [], none, .none, .d⟩] 0 0 0 1 := by
  intro repacks
  have gathered := (repacks ⟨fun _ => 1, fun _ => 0⟩ (fun _ => 0)).1
  rw [myStackAlign, loop_written] at gathered
  revert gathered
  decide

end Main

end Box64.Libtools
