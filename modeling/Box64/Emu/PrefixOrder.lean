import Box64.Emu.RipRelative
import Box64.Emu.Simd
import Box64.Emu.SimdTransfers
import Mathlib.Data.List.TakeWhile

/-!
# The order of prefixes

How `Run` and the functions it calls for the prefixes hand each other on to the `switch` an instruction is executed in, and
what of the prefixes arrives there in every order.
-/

namespace Box64.Emu

open BitVec Memory AddressForm Lanes
open Function (update)

namespace PrefixOrder

/-! ### The functions for the prefixes -/

/-- `_FS` and `_GS`. -/
inductive Segment
  | FS
  | GS
  deriving DecidableEq

/-- A `switch` entered: what its function was passed or has read, the opcode and the bytes behind it. -/
structure Entry where
  map : OpMap
  rex : Rex
  rep : Nat
  seg : Option Segment
  opcode : Byte
  rest : List Byte

/-- A byte read, and what is done with it. -/
def withF8 {α : Type} (f : Byte → List Byte → Option α) : List Byte → Option α
  | [] => none
  | b :: bytes => f b bytes

/-- The prefixes for which a function has no `case` but those it hands on. -/
def unexpected (opcode : Byte) : Prop :=
  opcode &&& 0xF0 = 0x40 ∨ opcode ∈ [0x64#8, 0x65, 0x66, 0x67, 0xF0, 0xF2, 0xF3]

instance (opcode : Byte) : Decidable (unexpected opcode) := inferInstanceAs (Decidable (_ ∨ _))

def enter (map : OpMap) (rex : Rex) (rep : Nat) (seg : Option Segment) (opcode : Byte) (rest : List Byte) : Option Entry :=
  some ⟨map, rex, rep, seg, opcode, rest⟩

/-- The `switch` of a function, `default: return 1;` for other prefixes. -/
def switch (map : OpMap) (rex : Rex) (rep : Nat) (seg : Option Segment) (opcode : Byte) (rest : List Byte) : Option Entry :=
  if unexpected opcode then none else enter map rex rep seg opcode rest

def Run6664 (bytes : List Byte) : Option Entry :=
  let (rex, bytes) := readRex ⟨0⟩ bytes
  withF8 (switch .Run6664 rex 0 (some .FS)) bytes

/-- `RunF0` and, after `0x66`, `Run66F0`, which with `rex.w` hands on to `RunF0` once the opcode is read. -/
def RunF0 (after66 : Bool) (bytes : List Byte) : Option Entry :=
  match _read : readRex ⟨0⟩ bytes with
  | (_, []) => none
  | (rex, b :: rest) =>
    if after66 then if rex.w then RunF0 false rest else switch .Run66F0 rex 0 none b rest
    else if b = 0x66 then RunF0 true rest
    else switch .RunF0 rex 0 none b rest
termination_by bytes.length
decreasing_by
  all_goals
    have shorter := readRex_length ⟨0⟩ bytes
    rw [_read] at shorter
    exact shorter

def Run64 (seg : Segment) (bytes : List Byte) : Option Entry :=
  let (rex, bytes) := readRex ⟨0⟩ bytes
  let (rep, bytes) := readRep 0 bytes
  withF8 (fun b bytes => if b = 0x66 then Run6664 bytes else switch .Run64 rex rep (some seg) b bytes) bytes

def Run66 (rep : Nat) (bytes : List Byte) : Option Entry :=
  let bytes := bytes.dropWhile fun b => b = 0x2E ∨ b = 0x66
  let (rep, bytes) := readRep rep bytes
  let (rex, bytes) := readRex ⟨0⟩ bytes
  withF8 (fun b bytes =>
    if b = 0x0F then withF8 (enter .Run660F rex 0 none) bytes
    else if b = 0x64 then Run6664 bytes
    else if b = 0xF0 then RunF0 true bytes
    else switch .Run66 rex rep none b bytes) bytes

def Run6766 (bytes : List Byte) : Option Entry :=
  let bytes := bytes.dropWhile fun b => b = 0x2E ∨ b = 0x66
  let (_, bytes) := readRep 0 bytes
  let (rex, bytes) := readRex ⟨0⟩ bytes
  withF8 (fun b bytes => if b = 0x0F then withF8 (enter .Run67660F rex 0 none) bytes else none) bytes

def Run67 (rep : Nat) (bytes : List Byte) : Option Entry :=
  let bytes := bytes.dropWhile fun b => b = 0x67
  let (rex, bytes) := readRex ⟨0⟩ bytes
  let (rep, bytes) := readRep rep bytes
  withF8 (fun b bytes =>
    if b = 0x0F then withF8 (enter .Run670F rex rep none) bytes
    else if b = 0x66 then Run6766 bytes
    else switch .Run67 rex rep none b bytes) bytes

/-- One pass of the loop of `Run`. -/
def Run (bytes : List Byte) : Option Entry :=
  let (rep, bytes) := readRep 0 bytes
  let bytes := bytes.dropWhile fun b => b = 0x3E
  let (rex, bytes) := readRex ⟨0⟩ bytes
  withF8 (fun b bytes =>
    if b = 0x0F then
      withF8 (enter (if rep = 1 then .RunF20F else if rep = 2 then .RunF30F else .Run0F) rex 0 none) bytes
    else if b = 0x64 then Run64 .FS bytes
    else if b = 0x65 then Run64 .GS bytes
    else if b = 0x66 then Run66 rep bytes
    else if b = 0x67 then Run67 rep bytes
    else if b = 0xF0 then RunF0 false bytes
    else switch .Run rex rep none b bytes) bytes

/-! ### Sizes -/

namespace Entry

variable (e : Entry)

/-- The size of the operands that are not bytes, in bits. -/
def operandSize : Nat :=
  if e.rex.w then 64
  else
    match e.map with
    | .Run66 | .Run660F | .Run66F0 | .Run6664 | .Run67660F => 16
    | _ => 32

def addressSize : Nat :=
  match e.map with
  | .Run67 | .Run670F | .Run67660F => 32
  | _ => 64

end Entry

/-! ### `Run64` after `0x0F` -/

/-- The bytes as they lie in memory from `R_RIP` on. -/
def codeAt (R_RIP : BitVec 64) (bytes : List Byte) : Memory := fun a => bytes.getD (a - R_RIP).toNat 0

section Cases

variable (code : Memory) (rex : Rex) (s : Cpu)

/-- `GETED_OFFS(D, O)` and `GETEX_OFFS(D, O)`. -/
def GetEdO (nextop delta : BitVec 8) (offset : BitVec 64) : Oped (Fin 16) × Cpu :=
  if MODREG nextop then (.reg (regNumber nextop rex.b), s)
  else
    let (a, R_RIP) := GetECommonO s.emu code rex (nextop &&& 0xC7) delta s.R_RIP offset
    (.mem a, { s with R_RIP })

def GetEbO (nextop delta : BitVec 8) (offset : BitVec 64) : Oped ByteReg × Cpu :=
  if MODREG nextop then
    (.reg (if rex.rex ≠ 0 then ⟨regNumber nextop rex.b, false⟩ else ⟨Fin.ofNat 16 (nextop &&& 3).toNat, nextop.getLsbD 2⟩),
      s)
  else
    let (a, R_RIP) := GetECommonO s.emu code rex (nextop &&& 0xC7) delta s.R_RIP offset
    (.mem a, { s with R_RIP })

/-- `EX->ud[0]`, `EX->q[0]` or all of `EX` set to `v`. -/
def assignEX {n : Nat} (v : BitVec n) : Oped (Fin 16) → Cpu
  | .reg r => { s with fpu := { s.fpu with xmm := update s.fpu.xmm (.ofFin r) (setLane (s.fpu.xmm (.ofFin r)) 0 v) } }
  | .mem a => { s with mem := s.mem.store a v }

/-- `nextop = F8; GETEX_OFFS(0, tlsdata); GETGX;` -/
def withEX (tlsdata : BitVec 64) (f : BitVec 8 → Oped (Fin 16) → Fin 16 → Cpu → Cpu) : Cpu :=
  let (nextop, s) := fetch code s 8
  let (EX, s) := GetEdO code rex s nextop 0 tlsdata
  f nextop EX (GetGd rex nextop) s

/-- The low `k` bits of `EX` to those of `GX`, from memory with zeros above. -/
def loadLow (k : Nat) (tlsdata : BitVec 64) : Cpu :=
  withEX code rex s tlsdata fun nextop EX GX s =>
    let v := lane k (s.readEX EX) 0
    if MODREG nextop then assignEX s v (.reg GX) else assignEX s (v.setWidth 128) (.reg GX)

/-- The low `k` bits of `GX` to those of `EX`. -/
def storeLow (k : Nat) (tlsdata : BitVec 64) : Cpu :=
  withEX code rex s tlsdata fun nextop EX _ s => assignEX s (lane k (s.GX rex nextop) 0) EX

/-- The second `switch` of `Run64`. -/
def Run64_0F (host : Host) (rep : Nat) (tlsdata : BitVec 64) : Option Cpu :=
  let (opcode, s) := fetch code s 8
  match opcode.toNat with
  | 0x10 =>
    match rep with
    | 1 => some (loadLow code rex s 64 tlsdata)
    | 2 => some (loadLow code rex s 32 tlsdata)
    | _ => none
  | 0x11 =>
    match rep with
    | 0 => some (storeLow code rex s 128 tlsdata)
    | 1 => some (storeLow code rex s 64 tlsdata)
    | 2 => some (storeLow code rex s 32 tlsdata)
    | _ => none
  | 0x29 =>
    match rep with
    | 0 => some (storeLow code rex s 128 tlsdata)
    | _ => none
  | 0x59 =>
    match rep with
    | 2 =>
      some (withEX code rex s tlsdata fun nextop EX GX s =>
        assignEX s (host.f.mul (lane 32 (s.GX rex nextop) 0) (lane 32 (s.readEX EX) 0)) (.reg GX))
    | _ => none
  | 0x6F =>
    match rep with
    | 2 => some (withEX code rex s tlsdata fun _ EX GX s => assignEX s (s.readEX EX) (.reg GX))
    | _ => none
  | 0xAF =>
    let (nextop, s) := fetch code s 8
    let (ED, s) := GetEdO code rex s nextop 0 tlsdata
    let GD := GetGd rex nextop
    let w := if rex.w then .w64 else .w32
    let (v, emu) := imul w s.emu (s.emu.reg w GD) (s.read w ED)
    some { s with emu := emu.setWhole GD v }
  | 0xB6 =>
    let (nextop, s) := fetch code s 8
    let (EB, s) := GetEbO code rex s nextop 0 tlsdata
    some { s with emu := s.emu.setWhole (GetGd rex nextop) (s.readByte EB) }
  | _ => none

end Cases

/-! ### Execution -/

/-- The host, the segments, and what the functions do in their other cases, whatever that is. Those of `Run64` do not look at
`rep`. -/
structure Interpreter where
  host : Host
  GetSegmentBaseEmu : Cpu → Segment → BitVec 64
  cases : (map : OpMap) → (rex : Rex) → (rep : Nat) → (tlsdata : BitVec 64) → (opcode : Byte) → (rest : List Byte) →
    Cpu → Option Cpu

variable (x : Interpreter)

def Interpreter.tlsdata (s : Cpu) : Option Segment → BitVec 64
  | none => 0
  | some seg => x.GetSegmentBaseEmu s seg

/-- The `switch` of an entry; `s` is behind the opcode. -/
def Entry.exec (e : Entry) (s : Cpu) : Option Cpu :=
  let tlsdata := x.tlsdata s e.seg
  if e.map = .Run64 then
    if e.opcode = 0x0F then Run64_0F (codeAt s.R_RIP e.rest) e.rex s x.host e.rep tlsdata
    else x.cases .Run64 e.rex 0 tlsdata e.opcode e.rest s
  else x.cases e.map e.rex e.rep tlsdata e.opcode e.rest s

/-- `R_RIP` after `n` times `F8`. -/
def skip (n : Nat) (s : Cpu) : Cpu := { s with R_RIP := s.R_RIP + BitVec.ofNat 64 n }

/-- An instruction executed from the bytes at `R_RIP`. -/
def execute (bytes : List Byte) (s : Cpu) : Option Cpu :=
  (Run bytes).bind fun e => e.exec x (skip (bytes.length - e.rest.length) s)

/-! ### Prefixes -/

/-- What may stand in front of the instruction, `R` being `0xF2` or `0xF3`. -/
def drawn (R : Byte) : List Byte := [0x64, 0x65, 0x66, 0x67, 0xF0, R]

def legacyPrefixes : List Byte := [0x26, 0x2E, 0x36, 0x3E, 0x64, 0x65, 0x66, 0x67, 0xF0, 0xF2, 0xF3]

/-- The `rep` a prefix sets. -/
def repOf (R : Byte) : Nat := R.toNat - 0xF1

/-- `R` once, if it stands in `p`. -/
def reps (R : Byte) (p : List Byte) : List Byte := if R ∈ p then [R] else []

def Only (l p : List Byte) : Prop := ∀ b ∈ p, b ∈ l

namespace Only

variable {l l' p p' : List Byte}

theorem nil : Only l [] := List.forall_mem_nil _

theorem append (only : Only l p) (only' : Only l p') : Only l (p ++ p') := fun b member =>
  (List.mem_append.mp member).elim (only b) (only' b)

theorem cons {b : Byte} (member : b ∈ l) (only : Only l p) : Only l (b :: p) := List.forall_mem_cons.mpr ⟨member, only⟩

theorem mono (only : Only l p) (sub : l ⊆ l') : Only l' p := fun b member => sub (only b member)

theorem left (only : Only l (p ++ p')) : Only l p := fun b member => only b (List.mem_append_left _ member)

theorem right (only : Only l (p ++ p')) : Only l p' := fun b member => only b (List.mem_append_right _ member)

theorem head {b : Byte} (only : Only l (b :: p)) : b ∈ l := only b (.head _)

theorem tail {b : Byte} (only : Only l (b :: p)) : Only l p := fun d member => only d (.tail _ member)

theorem not_mem (only : Only l p) {b : Byte} (out : b ∉ l) : b ∉ p := fun member => out (only b member)

theorem mem_iff {b : Byte} (only : Only [b] p) : b ∈ p ↔ p ≠ [] := by
  cases p with
  | nil => simp
  | cons d p =>
    obtain rfl := List.mem_singleton.mp only.head
    simp

end Only

/-! ### Loops over prefixes -/

section Loops

variable {R b c : Byte} {p t : List Byte}

theorem dropWhile_other {f : Byte → Bool} (stop : f c = false) : (c :: t).dropWhile f = c :: t :=
  List.dropWhile_cons_of_neg (by simp [stop])

theorem dropWhile_split (f : Byte → Bool) (p : List Byte) : ∃ a p', p = a ++ p' ∧ (∀ b ∈ a, f b = true) ∧
    ∀ c t, f c = false → (p ++ c :: t).dropWhile f = p' ++ c :: t := by
  induction p with
  | nil => exact ⟨[], [], rfl, List.forall_mem_nil _, fun c t stop => dropWhile_other stop⟩
  | cons b p ih =>
    obtain ⟨a, p', rfl, before, dropped⟩ := ih
    by_cases more : f b
    · refine ⟨b :: a, p', rfl, List.forall_mem_cons.mpr ⟨more, before⟩, fun c t stop => ?_⟩
      rw [List.cons_append, List.dropWhile_cons_of_pos more]
      exact dropped c t stop
    · refine ⟨[], b :: (a ++ p'), rfl, List.forall_mem_nil _, fun c t _ => ?_⟩
      exact List.dropWhile_cons_of_neg more

theorem readRep_R (one : R = 0xF2 ∨ R = 0xF3) (rep : Nat) (l : List Byte) : readRep rep (R :: l) = readRep (repOf R) l :=
  if_pos one

theorem readRep_stop (stop : ¬ (b = 0xF2 ∨ b = 0xF3)) (rep : Nat) : readRep rep (b :: t) = (rep, b :: t) := if_neg stop

theorem readRep_other (other : c ∉ legacyPrefixes) (rep : Nat) : readRep rep (c :: t) = (rep, c :: t) := by
  apply readRep_stop
  rintro (rfl | rfl) <;> exact other (by decide)

theorem readRep_reps (one : R = 0xF2 ∨ R = 0xF3) (other : c ∉ legacyPrefixes) (rep : Nat) (p : List Byte) :
    readRep rep (reps R p ++ c :: t) = (if R ∈ p then repOf R else rep, c :: t) := by
  unfold reps
  split
  · rw [List.singleton_append, readRep_R one, readRep_other other]
  · rw [List.nil_append, readRep_other other]

theorem drawn_cases (member : b ∈ drawn R) (ne : b ≠ R) :
    b = 0x64 ∨ b = 0x65 ∨ b = 0x66 ∨ b = 0x67 ∨ b = 0xF0 := by
  simpa only [drawn, List.mem_cons, List.not_mem_nil, or_false, ne] using member

/-- The reads of `rep` go on to the first prefix that is another one. -/
theorem readRep_split (one : R = 0xF2 ∨ R = 0xF3) (within : Only (drawn R) p) : ∃ a p', p = a ++ p' ∧ Only [R] a ∧
    (∀ b l, p' = b :: l → b ≠ R) ∧
      ∀ rep c t, c ∉ legacyPrefixes → readRep rep (p ++ c :: t) = (if R ∈ a then repOf R else rep, p' ++ c :: t) := by
  induction p with
  | nil =>
    refine ⟨[], [], rfl, .nil, by simp, fun rep c t other => ?_⟩
    rw [List.nil_append, readRep_other other, if_neg List.not_mem_nil]
  | cons b p ih =>
    by_cases more : b = R
    · subst more
      obtain ⟨a, p', rfl, before, behind, read⟩ := ih within.tail
      refine ⟨b :: a, p', rfl, before.cons (.head _), behind, fun rep c t other => ?_⟩
      rw [List.cons_append, readRep_R one, read _ c t other, ite_self, if_pos (.head _)]
    · refine ⟨[], b :: p, rfl, .nil, ?_, fun rep c t _ => ?_⟩
      · rintro d l ⟨⟩
        exact more
      · have stop : ¬ (b = 0xF2 ∨ b = 0xF3) := by
          rcases drawn_cases within.head more with rfl | rfl | rfl | rfl | rfl <;> decide
        rw [List.cons_append, readRep_stop stop, if_neg List.not_mem_nil]

end Loops

/-! ### Each function in front of the instruction -/

section Functions

variable {R : Byte} {p : List Byte} {b c : Byte} {t : List Byte} {e : Entry}

theorem unexpected_drawn (one : R = 0xF2 ∨ R = 0xF3) (member : b ∈ drawn R) : unexpected b := by
  simp only [drawn, List.mem_cons, List.not_mem_nil, or_false] at member
  rcases one with rfl | rfl <;> rcases member with rfl | rfl | rfl | rfl | rfl | rfl <;> decide

theorem readRex_drawn (one : R = 0xF2 ∨ R = 0xF3) (member : b ∈ drawn R) (rex : Rex) (l : List Byte) :
    readRex rex (b :: l) = (rex, b :: l) := by
  have stop : ¬ b &&& 0xF0 = 0x40 := by
    simp only [drawn, List.mem_cons, List.not_mem_nil, or_false] at member
    rcases one with rfl | rfl <;> rcases member with rfl | rfl | rfl | rfl | rfl | rfl <;> decide
  rw [readRex, if_neg stop]

theorem readRex_within (one : R = 0xF2 ∨ R = 0xF3) (within : Only (drawn R) p) (nonempty : p ≠ []) (rex : Rex)
    (l : List Byte) : readRex rex (p ++ l) = (rex, p ++ l) := by
  obtain ⟨b, p, rfl⟩ := List.exists_cons_of_ne_nil nonempty
  exact readRex_drawn one within.head rex _

theorem switch_drawn (one : R = 0xF2 ∨ R = 0xF3) (member : b ∈ drawn R) (map : OpMap) (rex : Rex) (rep : Nat)
    (seg : Option Segment) (l : List Byte) : switch map rex rep seg b l = none :=
  if_pos (unexpected_drawn one member)

theorem Run6664_arrives (one : R = 0xF2 ∨ R = 0xF3) (within : Only (drawn R) p)
    (accepted : Run6664 (p ++ c :: t) = some e) : p = [] := by
  cases p with
  | nil => rfl
  | cons b p =>
    simp only [Run6664, List.cons_append, readRex_drawn one within.head, withF8, switch_drawn one within.head] at accepted
    exact nomatch accepted

theorem RunF0_drawn (one : R = 0xF2 ∨ R = 0xF3) (member : b ∈ drawn R) (after66 : Bool) (l : List Byte) :
    RunF0 after66 (b :: l) = if after66 = false ∧ b = 0x66 then RunF0 true l else none := by
  have read := readRex_drawn one member ⟨0⟩ l
  rw [RunF0]
  split
  · rename_i empty
    rw [read] at empty
    exact nomatch empty
  · rename_i rex d rest found
    rw [read] at found
    obtain ⟨rfl, ⟨⟩⟩ := found
    have narrow : Rex.w ⟨0⟩ = false := rfl
    simp only [narrow, switch_drawn one member, Bool.false_eq_true, if_false]
    cases after66 with
    | true => simp only [if_true, Bool.true_eq_false, false_and, if_false]
    | false => simp only [Bool.false_eq_true, if_false, true_and]

theorem Run66F0_arrives (one : R = 0xF2 ∨ R = 0xF3) (within : Only (drawn R) p)
    (accepted : RunF0 true (p ++ c :: t) = some e) : p = [] := by
  cases p with
  | nil => rfl
  | cons b p =>
    rw [List.cons_append, RunF0_drawn one within.head true, if_neg (by simp)] at accepted
    exact nomatch accepted

theorem RunF0_arrives (one : R = 0xF2 ∨ R = 0xF3) (within : Only (drawn R) p)
    (accepted : RunF0 false (p ++ c :: t) = some e) :
    p = [] ∧ RunF0 false (c :: t) = some e ∨ p = [0x66] ∧ RunF0 true (c :: t) = some e := by
  cases p with
  | nil => exact .inl ⟨rfl, accepted⟩
  | cons b p =>
    rw [List.cons_append, RunF0_drawn one within.head false] at accepted
    obtain ⟨⟨-, rfl⟩, accepted⟩ := Option.ite_none_right_eq_some.mp accepted
    obtain rfl := Run66F0_arrives one within.tail accepted
    exact .inr ⟨rfl, accepted⟩

theorem Run64_arrives (one : R = 0xF2 ∨ R = 0xF3) (other : c ∉ legacyPrefixes) (within : Only (drawn R) p) {seg : Segment}
    (accepted : Run64 seg (p ++ c :: t) = some e) :
    Only [R] p ∧ Run64 seg (reps R p ++ c :: t) = some e ∨
      Only [R, 0x66] p ∧ 0x66 ∈ p ∧ Run6664 (c :: t) = some e := by
  by_cases empty : p = []
  · subst empty
    exact .inl ⟨.nil, accepted⟩
  · obtain ⟨a, p', split, before, behind, read⟩ := readRep_split one within
    simp only [Run64, readRex_within one within empty, read 0 c t other] at accepted
    subst split
    cases p' with
    | nil =>
      left
      rw [List.append_nil] at empty ⊢
      refine ⟨before, ?_⟩
      have once : reps R a = [R] := if_pos (before.mem_iff.mpr empty)
      simp only [Run64, once, List.singleton_append, readRex_drawn one (b := R) (by simp [drawn]), readRep_R one,
        readRep_other other]
      simpa only [before.mem_iff.mpr empty, if_true, List.nil_append] using accepted
    | cons x p' =>
      right
      simp only [List.cons_append, withF8, switch_drawn one within.right.head] at accepted
      obtain ⟨rfl, accepted⟩ := Option.ite_none_right_eq_some.mp accepted
      obtain rfl := Run6664_arrives one within.right.tail accepted
      exact ⟨(before.mono (by simp)).append (Only.nil.cons (by simp)), by simp, accepted⟩

/-- After a loop over `0x66` and one over `rep`. -/
theorem skip66_split (one : R = 0xF2 ∨ R = 0xF3) (other : c ∉ legacyPrefixes) (within : Only (drawn R) p) :
    ∃ q p', p = q ++ p' ∧ Only [R, 0x66] q ∧ (∀ b l, p' = b :: l → b ≠ R) ∧
      ∀ rep, readRep rep ((p ++ c :: t).dropWhile fun b => b = 0x2E ∨ b = 0x66) =
        (if R ∈ q then repOf R else rep, p' ++ c :: t) := by
  obtain ⟨a, p₁, rfl, skipped, dropped⟩ := dropWhile_split (fun b => b = 0x2E ∨ b = 0x66) p
  obtain ⟨a', p', rfl, before, behind, read⟩ := readRep_split one within.right
  have first : Only [0x66] a := by
    intro b member
    have drawnB := within.left b member
    rcases of_decide_eq_true (skipped b member) with rfl | rfl
    · rcases one with rfl | rfl <;> exact absurd drawnB (by decide)
    · exact .head _
  have stop : decide (c = 0x2E ∨ c = 0x66) = false := by
    rw [decide_eq_false_iff_not]
    rintro (rfl | rfl) <;> exact other (by decide)
  have absent : R ∉ a := first.not_mem (by rcases one with rfl | rfl <;> decide)
  refine ⟨a ++ a', p', (List.append_assoc ..).symm, ?_, behind, fun rep => ?_⟩
  · exact (first.mono (by simp)).append (before.mono (by simp))
  · rw [dropped c t stop, read rep c t other]
    simp only [List.mem_append, absent, false_or]

theorem skip66_none (other : c ∉ legacyPrefixes) (rep : Nat) :
    readRep rep ((c :: t).dropWhile fun b => b = 0x2E ∨ b = 0x66) = (rep, c :: t) := by
  have stop : decide (c = 0x2E ∨ c = 0x66) = false := by
    rw [decide_eq_false_iff_not]
    rintro (rfl | rfl) <;> exact other (by decide)
  rw [dropWhile_other stop, readRep_other other]

theorem Run6766_arrives (one : R = 0xF2 ∨ R = 0xF3) (other : c ∉ legacyPrefixes) (within : Only (drawn R) p)
    (accepted : Run6766 (p ++ c :: t) = some e) : Only [R, 0x66] p ∧ Run6766 (c :: t) = some e := by
  obtain ⟨q, p', rfl, only, behind, read⟩ := skip66_split (t := t) one other within
  cases p' with
  | nil =>
    simp only [Run6766, read, List.nil_append] at accepted
    rw [List.append_nil]
    refine ⟨only, ?_⟩
    simpa only [Run6766, skip66_none other] using accepted
  | cons x p' =>
    have member := within.right.head
    simp only [Run6766, read, List.cons_append, readRex_drawn one member, withF8] at accepted
    obtain ⟨rfl, -⟩ := Option.ite_none_right_eq_some.mp accepted
    rcases one with rfl | rfl <;> exact absurd member (by decide)

theorem Run66_arrives (one : R = 0xF2 ∨ R = 0xF3) (other : c ∉ legacyPrefixes) (within : Only (drawn R) p) {rep : Nat}
    (accepted : Run66 rep (p ++ c :: t) = some e) :
    Only [R, 0x66] p ∧ Run66 (if R ∈ p then repOf R else rep) (c :: t) = some e ∨
      Only [R, 0x64, 0x66] p ∧ 0x64 ∈ p ∧ Run6664 (c :: t) = some e ∨
      Only [R, 0xF0, 0x66] p ∧ 0xF0 ∈ p ∧ RunF0 true (c :: t) = some e := by
  obtain ⟨q, p', rfl, only, behind, read⟩ := skip66_split (t := t) one other within
  have wider (y : Byte) : Only [R, y, 0x66] (q ++ [y]) := (only.mono (by simp)).append (Only.nil.cons (by simp))
  cases p' with
  | nil =>
    simp only [Run66, read, List.nil_append] at accepted
    rw [List.append_nil]
    refine .inl ⟨only, ?_⟩
    simpa only [Run66, skip66_none other] using accepted
  | cons x p' =>
    have member := within.right.head
    have rest := within.right.tail
    simp only [Run66, read, List.cons_append, readRex_drawn one member, withF8, switch_drawn one member] at accepted
    rcases drawn_cases member (behind x p' rfl) with rfl | rfl | rfl | rfl | rfl
    · obtain rfl := Run6664_arrives one rest accepted
      exact .inr (.inl ⟨wider 0x64, by simp, accepted⟩)
    · exact nomatch accepted
    · exact nomatch accepted
    · exact nomatch accepted
    · obtain rfl := Run66F0_arrives one rest accepted
      exact .inr (.inr ⟨wider 0xF0, by simp, accepted⟩)

theorem Run67_arrives (one : R = 0xF2 ∨ R = 0xF3) (other : c ∉ legacyPrefixes) (within : Only (drawn R) p) {rep : Nat}
    (accepted : Run67 rep (p ++ c :: t) = some e) :
    Only [R, 0x67] p ∧ Run67 (if R ∈ p then repOf R else rep) (c :: t) = some e ∨
      Only [R, 0x67, 0x66] p ∧ 0x66 ∈ p ∧ Run6766 (c :: t) = some e := by
  obtain ⟨a, p₁, rfl, skipped, dropped⟩ := dropWhile_split (fun b => b = 0x67) p
  have first : Only [0x67] a := fun b member => List.mem_singleton.mpr (of_decide_eq_true (skipped b member))
  have absent : R ∉ a := first.not_mem (by rcases one with rfl | rfl <;> decide)
  have stop : decide (c = 0x67) = false := by
    rw [decide_eq_false_iff_not]
    rintro rfl
    exact other (by decide)
  have kept : (c :: t).dropWhile (fun b => b = 0x67) = c :: t := dropWhile_other stop
  by_cases empty : p₁ = []
  · subst empty
    left
    have same := dropped c t stop
    rw [List.append_nil] at accepted same ⊢
    rw [List.nil_append] at same
    rw [if_neg absent]
    refine ⟨first.mono (by simp), ?_⟩
    simpa only [Run67, same, kept] using accepted
  · obtain ⟨a', p', split, before, behind, read⟩ := readRep_split one within.right
    simp only [Run67, dropped c t stop, readRex_within one within.right empty, read rep c t other] at accepted
    subst split
    have both : Only [R, 0x67] (a ++ a') := (first.mono (by simp)).append (before.mono (by simp))
    cases p' with
    | nil =>
      rw [List.append_nil] at empty ⊢
      have there : R ∈ a' := before.mem_iff.mpr empty
      rw [if_pos there, List.nil_append] at accepted
      rw [if_pos (List.mem_append_right _ there)]
      refine .inl ⟨both, ?_⟩
      -- a REX prefix behind `rep` has no `case`
      have noRex : ¬ c &&& 0xF0 = 0x40 := by
        intro rex
        have none : switch .Run67 ⟨0⟩ (repOf R) none c t = none := if_pos (.inl rex)
        have ne (y : Byte) (high : ¬ y &&& 0xF0 = 0x40) : c ≠ y := fun same => high (same ▸ rex)
        simp only [withF8, none, if_neg (ne 0x0F (by decide)), if_neg (ne 0x66 (by decide))] at accepted
        exact nomatch accepted
      simp only [Run67, kept, readRex, if_neg noRex, readRep_other other]
      exact accepted
    | cons x p' =>
      have member := within.right.right.head
      have not0F : x ≠ 0x0F := by
        rintro rfl
        rcases one with rfl | rfl <;> exact absurd member (by decide)
      simp only [List.cons_append, withF8, switch_drawn one member, if_neg not0F] at accepted
      obtain ⟨rfl, accepted⟩ := Option.ite_none_right_eq_some.mp accepted
      obtain ⟨only, accepted⟩ := Run6766_arrives one other within.right.right.tail accepted
      refine .inr ⟨?_, by simp, accepted⟩
      rw [← List.append_assoc]
      exact (both.mono (by simp)).append ((only.mono (by simp)).cons (by simp))

/-! ### Arrival -/

/-- The prefixes behind the first one for a segment. -/
def behindSegment (p : List Byte) : List Byte := (p.dropWhile fun b => b ≠ 0x64 ∧ b ≠ 0x65).tail

/-- Where prefixes lead in every order that is accepted. -/
def arrival (R : Byte) (p tail : List Byte) : Option Entry :=
  let rep := if R ∈ p then repOf R else 0
  if 0xF0 ∈ p then RunF0 (0x66 ∈ p) tail
  else if 0x67 ∈ p then if 0x66 ∈ p then Run6766 tail else Run67 rep tail
  else if 0x66 ∈ p then if 0x64 ∈ p ∨ 0x65 ∈ p then Run6664 tail else Run66 rep tail
  else if 0x64 ∈ p ∨ 0x65 ∈ p then Run64 (if 0x64 ∈ p then .FS else .GS) (reps R (behindSegment p) ++ tail)
  else Run (reps R p ++ tail)

theorem behindSegment_eq (one : R = 0xF2 ∨ R = 0xF3) {a : List Byte} (only : Only [R] a) {x : Byte}
    (segment : x = 0x64 ∨ x = 0x65) (l : List Byte) : behindSegment (a ++ x :: l) = l := by
  induction a with
  | nil => rcases segment with rfl | rfl <;> rfl
  | cons b a ih =>
    obtain rfl := List.mem_singleton.mp only.head
    have skipped : decide (b ≠ 0x64 ∧ b ≠ 0x65) = true := by rcases one with rfl | rfl <;> decide
    rw [behindSegment, List.cons_append, List.dropWhile_cons, if_pos skipped]
    exact ih only.tail

theorem absent_of_only (one : R = 0xF2 ∨ R = 0xF3) {l : List Byte} (only : Only (R :: l) p) {y : Byte}
    (noRep : y ≠ 0xF2 ∧ y ≠ 0xF3) (out : y ∉ l) : y ∉ p := by
  refine only.not_mem ?_
  rintro (_ | ⟨_, inside⟩)
  · exact one.elim noRep.1 noRep.2
  · exact out inside

theorem Run_arrives (one : R = 0xF2 ∨ R = 0xF3) (other : c ∉ legacyPrefixes) (within : Only (drawn R) p)
    (accepted : Run (p ++ c :: t) = some e) : arrival R p (c :: t) = some e := by
  obtain ⟨a, p', rfl, before, behind, read⟩ := readRep_split one within
  cases p' with
  | nil =>
    rw [List.append_nil]
    have n64 : 0x64 ∉ a := absent_of_only one before (by decide) (by decide)
    have n65 : 0x65 ∉ a := absent_of_only one before (by decide) (by decide)
    have n66 : 0x66 ∉ a := absent_of_only one before (by decide) (by decide)
    have n67 : 0x67 ∉ a := absent_of_only one before (by decide) (by decide)
    have nF0 : 0xF0 ∉ a := absent_of_only one before (by decide) (by decide)
    simp only [arrival, n64, n65, n66, n67, nF0, if_false, false_or]
    simp only [Run, readRep_reps one other]
    simpa only [Run, read 0 c t other, List.nil_append] using accepted
  | cons x p' =>
    have member := within.right.head
    have rest := within.right.tail
    have ne := behind x p' rfl
    have whole {l : List Byte} (only : Only (R :: l) p') : Only (R :: x :: l) (a ++ x :: p') :=
      (before.mono (by simp)).append
        ((only.mono (List.cons_subset_cons R (List.subset_cons_self x l))).cons (.tail _ (.head _)))
    have stop : decide (x = 0x3E) = false := by
      rw [decide_eq_false_iff_not]
      rintro rfl
      rcases one with rfl | rfl <;> exact absurd member (by decide)
    have kept : (x :: (p' ++ c :: t)).dropWhile (fun b => b = 0x3E) = x :: (p' ++ c :: t) := dropWhile_other stop
    simp only [Run, read 0 c t other, List.cons_append, kept, readRex_drawn one member, withF8,
      switch_drawn one member] at accepted
    have reps : (if R ∈ a ++ x :: p' then repOf R else 0) = if R ∈ p' then repOf R else if R ∈ a then repOf R else 0 := by
      by_cases later : R ∈ p' <;> simp [later, ne.symm]
    have here : x ∈ a ++ x :: p' := List.mem_append_right _ (.head _)
    have later {y : Byte} (there : y ∈ p') : y ∈ a ++ x :: p' := List.mem_append_right _ (.tail _ there)
    rcases drawn_cases member ne with rfl | rfl | rfl | rfl | rfl
    · rcases Run64_arrives one other rest accepted with ⟨only, arrived⟩ | ⟨only, there, arrived⟩
      · have n66 := absent_of_only one (whole only) (y := 0x66) (by decide) (by decide)
        have n67 := absent_of_only one (whole only) (y := 0x67) (by decide) (by decide)
        have nF0 := absent_of_only one (whole only) (y := 0xF0) (by decide) (by decide)
        simpa only [arrival, n66, n67, nF0, here, behindSegment_eq one before (.inl rfl), if_false, if_true, true_or]
          using arrived
      · have n67 := absent_of_only one (whole only) (y := 0x67) (by decide) (by decide)
        have nF0 := absent_of_only one (whole only) (y := 0xF0) (by decide) (by decide)
        simpa only [arrival, later there, n67, nF0, here, if_false, if_true, true_or] using arrived
    · rcases Run64_arrives one other rest accepted with ⟨only, arrived⟩ | ⟨only, there, arrived⟩
      · have n64 := absent_of_only one (whole only) (y := 0x64) (by decide) (by decide)
        have n66 := absent_of_only one (whole only) (y := 0x66) (by decide) (by decide)
        have n67 := absent_of_only one (whole only) (y := 0x67) (by decide) (by decide)
        have nF0 := absent_of_only one (whole only) (y := 0xF0) (by decide) (by decide)
        simpa only [arrival, n64, n66, n67, nF0, here, behindSegment_eq one before (.inr rfl), if_false, if_true, or_true]
          using arrived
      · have n67 := absent_of_only one (whole only) (y := 0x67) (by decide) (by decide)
        have nF0 := absent_of_only one (whole only) (y := 0xF0) (by decide) (by decide)
        simpa only [arrival, later there, n67, nF0, here, if_false, if_true, or_true] using arrived
    · rcases Run66_arrives one other rest accepted with ⟨only, arrived⟩ | ⟨only, there, arrived⟩ | ⟨only, there, arrived⟩
      · have n64 := absent_of_only one (whole only) (y := 0x64) (by decide) (by decide)
        have n65 := absent_of_only one (whole only) (y := 0x65) (by decide) (by decide)
        have n67 := absent_of_only one (whole only) (y := 0x67) (by decide) (by decide)
        have nF0 := absent_of_only one (whole only) (y := 0xF0) (by decide) (by decide)
        simpa only [arrival, n64, n65, n67, nF0, here, reps, if_false, if_true, false_or] using arrived
      · have n67 := absent_of_only one (whole only) (y := 0x67) (by decide) (by decide)
        have nF0 := absent_of_only one (whole only) (y := 0xF0) (by decide) (by decide)
        simpa only [arrival, later there, n67, nF0, here, if_false, if_true, true_or] using arrived
      · simpa only [arrival, later there, here, decide_true, if_true] using arrived
    · rcases Run67_arrives one other rest accepted with ⟨only, arrived⟩ | ⟨only, there, arrived⟩
      · have n66 := absent_of_only one (whole only) (y := 0x66) (by decide) (by decide)
        have nF0 := absent_of_only one (whole only) (y := 0xF0) (by decide) (by decide)
        simpa only [arrival, n66, nF0, here, reps, if_false, if_true] using arrived
      · have nF0 := absent_of_only one (whole only) (y := 0xF0) (by decide) (by decide)
        simpa only [arrival, later there, nF0, here, if_false, if_true] using arrived
    · rcases RunF0_arrives one rest accepted with ⟨rfl, arrived⟩ | ⟨rfl, arrived⟩
      · have n66 := absent_of_only one (whole .nil) (l := [0xF0]) (y := 0x66) (by decide) (by decide)
        simpa only [arrival, n66, here, decide_false, if_true] using arrived
      · simpa only [arrival, later (.head _), here, decide_true, if_true] using arrived

end Functions

/-! ### `rep` in `Run64` -/

section Rep

variable (code : Memory) (rex : Rex) (s : Cpu) (tlsdata : BitVec 64)

/-- `EX` differs from `GX` above the low `k` bits. -/
def UpperDiffers (k : Nat) : Prop :=
  let (nextop, s) := fetch code s 8
  let (EX, s) := GetEdO code rex s nextop 0 tlsdata
  s.readEX EX >>> k ≠ s.GX rex nextop >>> k

/-- How many bits `MOVSD` and `MOVSS` move. -/
def movedBits (rep : Nat) : Nat := if rep = 1 then 64 else 32

theorem assignEX_low_iff {k : Nat} (le : k ≤ 128) (whole : 8 ∣ k) (v : BitVec 128) (EX : Oped (Fin 16)) :
    assignEX s (lane 128 v 0) EX = assignEX s (lane k v 0) EX ↔ s.readEX EX >>> k = v >>> k := by
  rw [lane_whole]
  cases EX with
  | reg r =>
    rw [Cpu.readEX, ← setLane_low_iff]
    refine ⟨fun same => ?_, fun same => by rw [assignEX, assignEX, same]⟩
    have here := congrArg (fun s : Cpu => s.fpu.xmm (.ofFin r)) same
    simpa only [assignEX, Function.update_self] using here
  | mem a =>
    rw [Cpu.readEX, lane_low, ← store_low_iff s.mem a v le whole (by decide) (by decide)]
    exact ⟨fun same => congrArg (fun s : Cpu => s.mem) same, fun same => by rw [assignEX, assignEX, same]⟩

theorem storeLow_iff {k : Nat} (le : k ≤ 128) (whole : 8 ∣ k) :
    storeLow code rex s 128 tlsdata = storeLow code rex s k tlsdata ↔ ¬ UpperDiffers code rex s tlsdata k := by
  rw [UpperDiffers, storeLow, storeLow, withEX, withEX]
  generalize fetch code s 8 = next
  obtain ⟨nextop, s⟩ := next
  dsimp only
  generalize GetEdO code rex s nextop 0 tlsdata = operand
  obtain ⟨EX, s⟩ := operand
  dsimp only
  rw [Classical.not_not]
  exact assignEX_low_iff s le whole _ EX

/-- Only the store under `0x11` can tell a `rep` from none where both are accepted. -/
theorem Run64_0F_iff (host : Host) {rep : Nat} (one : rep = 1 ∨ rep = 2)
    (without : (Run64_0F code rex s host 0 tlsdata).isSome) (wth : (Run64_0F code rex s host rep tlsdata).isSome) :
    Run64_0F code rex s host 0 tlsdata = Run64_0F code rex s host rep tlsdata ↔
      ¬ (code.load 8 s.R_RIP = 0x11 ∧ UpperDiffers code rex (fetch code s 8).2 tlsdata (movedBits rep)) := by
  have opcode : (fetch code s 8).1 = code.load 8 s.R_RIP := rfl
  rw [← opcode]
  unfold Run64_0F at *
  generalize fetch code s 8 = next at *
  obtain ⟨op, s⟩ := next
  dsimp only at *
  have apart {v : Nat} (is : op.toNat = v) (other : v ≠ 0x11) : op ≠ 0x11 := by
    rintro rfl
    exact other is.symm
  split at without
  · exact nomatch without
  · rename_i is
    have this : op = 0x11 := BitVec.eq_of_toNat_eq is
    simp only [this, true_and]
    rcases one with rfl | rfl
    · exact Option.some_inj.trans (storeLow_iff code rex s tlsdata (by decide) (by decide))
    · exact Option.some_inj.trans (storeLow_iff code rex s tlsdata (by decide) (by decide))
  · rename_i is
    simp only [is] at wth
    rcases one with rfl | rfl <;> exact nomatch wth
  · exact nomatch without
  · exact nomatch without
  · rename_i is
    simp only [apart is (by decide), false_and, not_false_eq_true]
  · rename_i is
    simp only [apart is (by decide), false_and, not_false_eq_true]
  · exact nomatch without

end Rep

/-! ### Two orders -/

section Orders

variable (x : Interpreter)

/-- The same instruction behind the prefixes `p` and `q`. -/
structure SameExecution (p q tail : List Byte) (s : Cpu) : Prop where
  state : execute x (p ++ tail) s = execute x (q ++ tail) s
  sizes : ∀ e e', Run (p ++ tail) = some e → Run (q ++ tail) = some e' →
    e.operandSize = e'.operandSize ∧ e.addressSize = e'.addressSize ∧ e.seg = e'.seg ∧ e.rest = e'.rest

/-- `MOVUPS` is executed for a `MOVSD` or `MOVSS` under a segment prefix, because one of the orders has the `rep` in front of
the segment prefix only; and `MOVUPS` changes more. -/
def ForgetsRep (R : Byte) (p q : List Byte) (opcode : Byte) (rest : List Byte) (s : Cpu) : Prop :=
  let s := skip (p.length + 1) s
  let code := codeAt s.R_RIP rest
  let tlsdata := x.GetSegmentBaseEmu s (if 0x64 ∈ p then .FS else .GS)
  Only [0x64, 0x65, R] p ∧ ¬ (R ∈ behindSegment p ↔ R ∈ behindSegment q) ∧ opcode = 0x0F ∧ code.load 8 s.R_RIP = 0x11 ∧
    UpperDiffers code ⟨0⟩ (fetch code s 8).2 tlsdata (movedBits (repOf R))

variable {R : Byte} {p q : List Byte} {c : Byte} {t : List Byte} {s : Cpu} {e e' : Entry} {seg : Segment}

theorem Run64_rep (one : R = 0xF2 ∨ R = 0xF3) (other : c ∉ legacyPrefixes) (arrived : Run64 seg (R :: c :: t) = some e) :
    e = ⟨.Run64, ⟨0⟩, repOf R, some seg, c, t⟩ ∧ ¬ c &&& 0xF0 = 0x40 := by
  have not66 : c ≠ 0x66 := by
    rintro rfl
    exact other (by decide)
  simp only [Run64, readRex_drawn one (b := R) (by simp [drawn]), readRep_R one, readRep_other other, withF8, if_neg not66]
    at arrived
  obtain ⟨expected, arrived⟩ := Option.ite_none_left_eq_some.mp arrived
  exact ⟨(Option.some_inj.mp arrived).symm, fun rex => expected (.inl rex)⟩

theorem Run64_noRep (other : c ∉ legacyPrefixes) (noRex : ¬ c &&& 0xF0 = 0x40) (arrived : Run64 seg (c :: t) = some e) :
    e = ⟨.Run64, ⟨0⟩, 0, some seg, c, t⟩ := by
  have not66 : c ≠ 0x66 := by
    rintro rfl
    exact other (by decide)
  simp only [Run64, readRex, if_neg noRex, readRep_other other, withF8, if_neg not66] at arrived
  obtain ⟨-, arrived⟩ := Option.ite_none_left_eq_some.mp arrived
  exact (Option.some_inj.mp arrived).symm

theorem execute_some (accepted : (execute x (p ++ c :: t) s).isSome) : ∃ e, Run (p ++ c :: t) = some e ∧
    execute x (p ++ c :: t) s = e.exec x (skip ((p ++ c :: t).length - e.rest.length) s) := by
  unfold execute at accepted ⊢
  cases entered : Run (p ++ c :: t) with
  | none =>
    rw [entered] at accepted
    exact nomatch accepted
  | some e => exact ⟨e, rfl, rfl⟩

theorem reps_congr (same : R ∈ p ↔ R ∈ q) : reps R p = reps R q := by simp only [reps, same]

theorem arrival_congr (perm : p.Perm q) (tail : List Byte)
    (same : Only [0x64, 0x65, R] p → (R ∈ behindSegment p ↔ R ∈ behindSegment q)) (within : Only (drawn R) p) :
    arrival R p tail = arrival R q tail := by
  have members (y : Byte) : y ∈ q ↔ y ∈ p := perm.symm.mem_iff
  by_cases only : Only [0x64, 0x65, R] p
  · simp only [arrival, members, reps_congr (same only), reps_congr (perm.mem_iff (a := R))]
  · simp only [arrival, members, reps_congr (perm.mem_iff (a := R))]
    have third : 0xF0 ∈ p ∨ 0x67 ∈ p ∨ 0x66 ∈ p := by
      by_contra none
      obtain ⟨nF0, others⟩ := not_or.mp none
      obtain ⟨n67, n66⟩ := not_or.mp others
      refine only fun b member => ?_
      have drawnB := within b member
      simp only [drawn, List.mem_cons, List.not_mem_nil, or_false] at drawnB ⊢
      rcases drawnB with rfl | rfl | rfl | rfl | rfl | rfl
      · exact .inl rfl
      · exact .inr (.inl rfl)
      · exact absurd member n66
      · exact absurd member n67
      · exact absurd member nF0
      · exact .inr (.inr rfl)
    rcases third with there | there | there
    · rw [if_pos there, if_pos there]
    · simp only [there, if_true]
    · simp only [there, if_true]

theorem lost_iff (opcode : Byte) (seg : Segment) (one : R = 0xF2 ∨ R = 0xF3) (s : Cpu)
    (without : (Entry.exec x ⟨.Run64, ⟨0⟩, 0, some seg, opcode, t⟩ s).isSome)
    (wth : (Entry.exec x ⟨.Run64, ⟨0⟩, repOf R, some seg, opcode, t⟩ s).isSome) :
    Entry.exec x ⟨.Run64, ⟨0⟩, 0, some seg, opcode, t⟩ s = Entry.exec x ⟨.Run64, ⟨0⟩, repOf R, some seg, opcode, t⟩ s ↔
      ¬ (opcode = 0x0F ∧ (codeAt s.R_RIP t).load 8 s.R_RIP = 0x11 ∧
        UpperDiffers (codeAt s.R_RIP t) ⟨0⟩ (fetch (codeAt s.R_RIP t) s 8).2 (x.GetSegmentBaseEmu s seg)
          (movedBits (repOf R))) := by
  simp only [Entry.exec, if_true, Interpreter.tlsdata] at *
  by_cases map : opcode = 0x0F
  · have rep : repOf R = 1 ∨ repOf R = 2 := by rcases one with rfl | rfl <;> decide
    simp only [map, if_true, true_and] at *
    exact Run64_0F_iff _ _ _ _ x.host rep without wth
  · simp only [map, if_false, false_and, not_false_eq_true]

theorem Only.segment (one : R = 0xF2 ∨ R = 0xF3) (only : Only [0x64, 0x65, R] p) (behind : R ∈ behindSegment p) :
    0x64 ∈ p ∨ 0x65 ∈ p := by
  by_contra none
  obtain ⟨n64, n65⟩ := not_or.mp none
  have onlyR : Only [R] p := by
    intro b member
    rcases List.mem_cons.mp (only b member) with rfl | later
    · exact absurd member n64
    · rcases List.mem_cons.mp later with rfl | later
      · exact absurd member n65
      · exact later
  have dropped : p.dropWhile (fun b => b ≠ 0x64 ∧ b ≠ 0x65) = [] := by
    rw [List.dropWhile_eq_nil_iff]
    intro b member
    obtain rfl := List.mem_singleton.mp (onlyR b member)
    rcases one with rfl | rfl <;> decide
  rw [behindSegment, dropped] at behind
  exact nomatch behind

theorem arrival_segment (one : R = 0xF2 ∨ R = 0xF3) (only : Only [0x64, 0x65, R] p) (segment : 0x64 ∈ p ∨ 0x65 ∈ p)
    (tail : List Byte) :
    arrival R p tail = Run64 (if 0x64 ∈ p then .FS else .GS) (reps R (behindSegment p) ++ tail) := by
  have n66 : 0x66 ∉ p := only.not_mem (by rcases one with rfl | rfl <;> decide)
  have n67 : 0x67 ∉ p := only.not_mem (by rcases one with rfl | rfl <;> decide)
  have nF0 : 0xF0 ∉ p := only.not_mem (by rcases one with rfl | rfl <;> decide)
  simp only [arrival, n66, n67, nF0, segment, if_false, if_true]

theorem sizes_rep (map : OpMap) (rex : Rex) (rep rep' : Nat) :
    let e : Entry := ⟨map, rex, rep, some seg, c, t⟩
    let e' : Entry := ⟨map, rex, rep', some seg, c, t⟩
    e.operandSize = e'.operandSize ∧ e.addressSize = e'.addressSize ∧ e.seg = e'.seg ∧ e.rest = e'.rest :=
  ⟨rfl, rfl, rfl, rfl⟩

theorem sameExecution_iff (runP : Run (p ++ c :: t) = some e) (runQ : Run (q ++ c :: t) = some e')
    (sizes : e.operandSize = e'.operandSize ∧ e.addressSize = e'.addressSize ∧ e.seg = e'.seg ∧ e.rest = e'.rest) :
    SameExecution x p q (c :: t) s ↔ execute x (p ++ c :: t) s = execute x (q ++ c :: t) s := by
  refine ⟨fun same => same.state, fun same => ⟨same, fun d d' found found' => ?_⟩⟩
  obtain rfl := Option.some_inj.mp (runP.symm.trans found)
  obtain rfl := Option.some_inj.mp (runQ.symm.trans found')
  exact sizes

/-- Two orders of the same prefixes in front of the same bytes are executed alike, but for `MOVSD` and `MOVSS` to an operand
with a segment prefix: of a `rep` in front of the segment prefix `Run64` knows nothing. -/
theorem order_iff (one : R = 0xF2 ∨ R = 0xF3) (within : Only (drawn R) p) (perm : p.Perm q) (other : c ∉ legacyPrefixes)
    (acceptedP : (execute x (p ++ c :: t) s).isSome) (acceptedQ : (execute x (q ++ c :: t) s).isSome) :
    SameExecution x p q (c :: t) s ↔ ¬ ForgetsRep x R p q c t s := by
  obtain ⟨e, runP, execP⟩ := execute_some x acceptedP
  obtain ⟨e', runQ, execQ⟩ := execute_some x acceptedQ
  have members (y : Byte) : y ∈ q ↔ y ∈ p := perm.symm.mem_iff
  have withinQ : Only (drawn R) q := fun b member => within b ((members b).mp member)
  have arrivedP := Run_arrives one other within runP
  have arrivedQ := Run_arrives one other withinQ runQ
  have length : (q ++ c :: t).length = (p ++ c :: t).length := by simp only [List.length_append, perm.length_eq]
  have consumed : (p ++ c :: t).length - t.length = p.length + 1 := by
    simp only [List.length_append, List.length_cons]
    omega
  by_cases same : Only [0x64, 0x65, R] p → (R ∈ behindSegment p ↔ R ∈ behindSegment q)
  · rw [arrival_congr perm _ same within] at arrivedP
    obtain rfl := Option.some_inj.mp (arrivedP.symm.trans arrivedQ)
    refine iff_of_true ((sameExecution_iff x runP runQ ⟨rfl, rfl, rfl, rfl⟩).mpr ?_) ?_
    · rw [execP, execQ, length]
    · rintro ⟨only, differ, -⟩
      exact differ (same only)
  · obtain ⟨only, differ⟩ := Classical.not_imp.mp same
    have onlyQ : Only [0x64, 0x65, R] q := fun b member => only b ((members b).mp member)
    have segment : 0x64 ∈ p ∨ 0x65 ∈ p := by
      by_cases behind : R ∈ behindSegment p
      · exact only.segment one behind
      · by_cases behindQ : R ∈ behindSegment q
        · simpa only [members] using onlyQ.segment one behindQ
        · exact absurd (iff_of_false behind behindQ) differ
    rw [arrival_segment one only segment] at arrivedP
    rw [arrival_segment one onlyQ (by simpa only [members] using segment)] at arrivedQ
    simp only [members] at arrivedQ
    rw [execP] at acceptedP
    rw [execQ, length] at acceptedQ
    by_cases behind : R ∈ behindSegment p
    · have front : R ∉ behindSegment q := fun behindQ => differ (iff_of_true behind behindQ)
      rw [reps, if_pos behind] at arrivedP
      rw [reps, if_neg front] at arrivedQ
      obtain ⟨rfl, noRex⟩ := Run64_rep one other arrivedP
      obtain rfl := Run64_noRep other noRex arrivedQ
      rw [sameExecution_iff x runP runQ (sizes_rep ..), execP, execQ, length, consumed, eq_comm]
      rw [consumed] at acceptedP acceptedQ
      refine (lost_iff x c _ one _ acceptedQ acceptedP).trans (not_congr ?_)
      simp only [ForgetsRep, only, differ, not_false_eq_true, true_and]
    · have behindQ : R ∈ behindSegment q := by
        by_contra front
        exact differ (iff_of_false behind front)
      rw [reps, if_neg behind] at arrivedP
      rw [reps, if_pos behindQ] at arrivedQ
      obtain ⟨rfl, noRex⟩ := Run64_rep one other arrivedQ
      obtain rfl := Run64_noRep other noRex arrivedP
      rw [sameExecution_iff x runP runQ (sizes_rep ..), execP, execQ, length, consumed]
      rw [consumed] at acceptedP acceptedQ
      refine (lost_iff x c _ one _ acceptedP acceptedQ).trans (not_congr ?_)
      simp only [ForgetsRep, only, differ, not_false_eq_true, true_and]

end Orders

/-! ### `movss [fs:rdi], xmm0` -/

/-- No segment has a base, and no case is implemented but those of `Run64` after `0x0F`. -/
def bare : Interpreter := ⟨default, fun _ _ => 0, fun _ _ _ _ _ _ _ => none⟩

def storing : Cpu := { transferring with fpu := { transferring.fpu with xmm := fun _ => BitVec.allOnes 128 } }

/-- Without prefixes. -/
def movups : List Byte := [0x0F, 0x11, 0x07]

theorem order_iff_movss :
    SameExecution bare [0xF3, 0x64] [0x64, 0xF3] movups storing ↔
      ¬ ForgetsRep bare 0xF3 [0xF3, 0x64] [0x64, 0xF3] 0x0F [0x11, 0x07] storing :=
  order_iff bare (.inr rfl) (by simp [Only, drawn]) (.swap ..) (by decide) rfl rfl

/-- With `0xF3` in front of `0x64` all of `xmm0` is stored. -/
theorem movss_order_matters :
    ¬ ∀ (x : Interpreter) (R : Byte) (p q : List Byte) (c : Byte) (t : List Byte) (s : Cpu), R = 0xF2 ∨ R = 0xF3 →
      Only (drawn R) p → p.Perm q → c ∉ legacyPrefixes → (execute x (p ++ c :: t) s).isSome →
        (execute x (q ++ c :: t) s).isSome → SameExecution x p q (c :: t) s := by
  intro all
  have same := all bare 0xF3 [0xF3, 0x64] [0x64, 0xF3] 0x0F [0x11, 0x07] storing (.inr rfl) (by simp [Only, drawn])
    (.swap ..) (by decide) rfl rfl
  have fifth := congrArg (Option.map fun s : Cpu => s.mem (s.emu.regs 7 + 4)) same.state
  revert fifth
  decide

end PrefixOrder

end Box64.Emu
