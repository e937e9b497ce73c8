import Box64.Lib.VarArgs

/-!
# Variadic arguments of `printf`

`myStackAlign` reads a format and gathers the arguments it consumes, from the guest's registers and stack, into one
area in memory. Pointers to 64-bit words count words.
-/

namespace Box64.Libtools

open VarArgs

inductive Reg
  | AX | CX | DX | BX | SP | BP | SI | DI | R8 | R9 | R10 | R11 | R12 | R13 | R14 | R15
  deriving DecidableEq

/-- The registers of `x64emu_t`. -/
structure X64emu where
  regs : Reg → BitVec 64
  xmm : Nat → BitVec 128

def regs_abi : List Reg := [.DI, .SI, .DX, .CX, .R8, .R9]

/-- The local variables, and what has been written to `mystack`. -/
structure Align where
  state : Nat
  st : Nat
  mystack : Nat
  x : Nat
  xmm : Nat
  pos : Nat
  written : List (Nat × Slot)

section Loop

variable (emu : X64emu) (mem : Nat → BitVec 64)

/-- `*mystack = v; ++mystack;` -/
def Align.put (s : Align) (v : BitVec 64) : Align :=
  { s with written := s.written ++ [(s.mystack, .word v)], mystack := s.mystack + 1 }

/-- An integer from the registers, then from the stack. -/
def Align.fetchInt (s : Align) : Align :=
  if s.pos < 6 then { s.put (emu.regs (regs_abi.getD s.pos .AX)) with pos := s.pos + 1 }
  else { s.put (mem s.st) with st := s.st + 1 }

def Align.fetchDouble (s : Align) : Align :=
  if s.xmm ≠ 0 then { s.put ((emu.xmm s.x).setWidth 64) with x := s.x + 1, xmm := s.xmm - 1 }
  else { s.put (mem s.st) with st := s.st + 1 }

/-- `mystack` receives the host's form of the 80-bit number at `st`. -/
def Align.fetchLongDouble (s : Align) : Align :=
  let st := if s.st % 2 ≠ 0 then s.st + 1 else s.st
  let mystack := if s.mystack % 2 ≠ 0 then s.mystack + 1 else s.mystack
  { s with
    written := s.written ++ [(mystack, .longDouble (mem st) (mem (st + 1)))]
    st := st + 2
    mystack := mystack + 2 }

/-- The character `c` inside a conversion, and whether the loop moves on to the next one. -/
def Align.convChar (c : Char) (s : Align) : Align × Bool :=
  match c with
  | '%' => ({ s with state := 0 }, true)
  | 'l' => ({ s with state := if s.state + 1 > 3 then 3 else s.state + 1 }, true)
  | 'L' => ({ s with state := 4 }, true)
  | 'z' => ({ s with state := 5 }, true)
  | 'a' | 'A' | 'e' | 'E' | 'g' | 'G' | 'F' | 'f' => ({ s with state := s.state + 10 }, false)
  | 'd' | 'i' | 'o' | 'u' | 'x' | 'X' => ({ s with state := s.state + 20 }, false)
  | 'h' => (s, true)
  | '\'' | '0' | '1' | '2' | '3' | '4' | '5' | '6' | '7' | '8' | '9' | '.' | '+' | '-' => (s, true)
  | 'm' => ({ s with state := 0 }, true)
  | 'n' | 'p' | 'S' | 's' => ({ s with state := 30 }, false)
  | '$' => (s, true)
  | '*' => (s.fetchInt emu mem, true)
  | ' ' => ({ s with state := 0 }, true)
  | _ => ({ s with state := 20 }, false)

/-- One turn of the loop at the character `c`. -/
def Align.step (c : Char) (s : Align) : Align × Bool :=
  match s.state with
  | 0 => if c = '%' then ({ s with state := 1 }, true) else (s, true)
  | 1 | 2 | 3 | 4 | 5 => s.convChar emu mem c
  | 11 | 12 | 13 | 15 => ({ s.fetchDouble emu mem with state := 0 }, true)
  | 14 => ({ s.fetchLongDouble mem with state := 0 }, true)
  | 20 | 21 | 22 | 23 | 24 | 25 | 30 => ({ s.fetchInt emu mem with state := 0 }, true)
  | _ => ({ s with state := 0 }, false)

/-- How many turns the loop may take before it moves on. -/
def Align.turns (s : Align) : Nat :=
  match s.state with
  | 0 | 11 | 12 | 13 | 14 | 15 | 20 | 21 | 22 | 23 | 24 | 25 | 30 => 0
  | 1 | 2 | 3 | 4 | 5 => 1
  | _ => 2

theorem Align.turns_convChar {c : Char} {s s' : Align} (low : 1 ≤ s.state ∧ s.state ≤ 5)
    (again : s.convChar emu mem c = (s', false)) : s'.turns = 0 := by
  obtain ⟨state, st, mystack, x, xmm, pos, written⟩ := s
  have cases : state = 1 ∨ state = 2 ∨ state = 3 ∨ state = 4 ∨ state = 5 := by
    dsimp only at low
    omega
  unfold convChar at again
  split at again
  all_goals cases again
  all_goals obtain rfl | rfl | rfl | rfl | rfl := cases
  all_goals rfl

theorem Align.turns_step {c : Char} {s s' : Align} (again : s.step emu mem c = (s', false)) :
    s'.turns < s.turns := by
  obtain ⟨state, st, mystack, x, xmm, pos, written⟩ := s
  unfold step at again
  dsimp only at again
  split at again
  case h_1 => split at again <;> cases again
  case h_2 | h_3 | h_4 | h_5 | h_6 => exact (turns_convChar emu mem (by dsimp only; omega) again).trans_lt Nat.one_pos
  all_goals cases again
  simp_all [turns]

/-- `while(*p)`. -/
def Align.loop (p : List Char) (s : Align) : Align :=
  match p with
  | [] => s
  | c :: rest =>
    match _again : s.step emu mem c with
    | (s', true) => s'.loop rest
    | (s', false) => s'.loop (c :: rest)
termination_by (p.length, s.turns)
decreasing_by
  · exact Prod.Lex.left _ _ (Nat.lt_succ_self _)
  · exact Prod.Lex.right _ (turns_step emu mem _again)

/-- What `myStackAlign` writes, for the format at `fmt`. -/
def myStackAlign (fmt : Option (List Char)) (st mystack xmm pos : Nat) : List (Nat × Slot) :=
  match fmt with
  | none => []
  | some fmt => (Align.loop emu mem fmt ⟨0, st, mystack, 0, xmm, pos, []⟩).written

/-- The same on wide characters. -/
def myStackAlignW (fmt : List Char) (st mystack xmm pos : Nat) : List (Nat × Slot) :=
  (Align.loop emu mem fmt ⟨0, st, mystack, 0, xmm, pos, []⟩).written

end Loop

end Box64.Libtools
