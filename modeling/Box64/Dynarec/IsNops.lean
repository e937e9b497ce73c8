import Box64.Lib.AddressForm
import Mathlib.Tactic.IntervalCases

/-!
# Padding between blocks

`is_nops`, and what the bytes that it takes for padding do when they run: the decoding and the effect of the three
instructions that they can be.
-/

namespace Box64.Dynarec

open Memory

/-- `PK(k)` -/
def PK (code : Memory) (addr : BitVec 64) (k : Nat) : BitVec 8 := code (addr + BitVec.ofNat 64 k)

/-- The bytes from `addr` on. -/
def Bytes (code : Memory) (addr : BitVec 64) (bytes : List (BitVec 8)) : Prop :=
  (List.range bytes.length).map (PK code addr) = bytes

def isNops (code : Memory) (addr : BitVec 64) (n : Nat) : Bool :=
  if n = 0 then true
  else if PK code addr 0 = 0x90 then isNops code (addr + 1) (n - 1)
  else if n > 1 ∧ PK code addr 0 = 0x66 then isNops code (addr + 1) (n - 1)
  else if n > 2 ∧ PK code addr 0 = 0x0f ∧ PK code addr 1 = 0x1f ∧ PK code addr 2 = 0x00 then
    isNops code (addr + 3) (n - 3)
  else if n > 2 ∧ PK code addr 0 = 0x8d ∧ PK code addr 1 = 0x76 ∧ PK code addr 2 = 0x00 then
    isNops code (addr + 3) (n - 3)
  else if n > 3 ∧ PK code addr 0 = 0x0f ∧ PK code addr 1 = 0x1f ∧ PK code addr 2 = 0x40 ∧ PK code addr 3 = 0x00 then
    isNops code (addr + 4) (n - 4)
  else if n > 3 ∧ PK code addr 0 = 0x8d ∧ PK code addr 1 = 0x74 ∧ PK code addr 2 = 0x26 ∧ PK code addr 3 = 0x00 then
    isNops code (addr + 4) (n - 4)
  else if n > 4 ∧ PK code addr 0 = 0x0f ∧ PK code addr 1 = 0x1f ∧ PK code addr 2 = 0x44 ∧ PK code addr 3 = 0x00 ∧
      PK code addr 4 = 0x00 then
    isNops code (addr + 5) (n - 5)
  else if n > 5 ∧ PK code addr 0 = 0x8d ∧ PK code addr 1 = 0xb6 ∧ PK code addr 2 = 0x00 ∧ PK code addr 3 = 0x00 ∧
      PK code addr 4 = 0x00 ∧ PK code addr 5 = 0x00 then
    isNops code (addr + 6) (n - 6)
  else if n > 6 ∧ PK code addr 0 = 0x0f ∧ PK code addr 1 = 0x1f ∧ PK code addr 2 = 0x80 ∧ PK code addr 3 = 0x00 ∧
      PK code addr 4 = 0x00 ∧ PK code addr 5 = 0x00 ∧ PK code addr 6 = 0x00 then
    isNops code (addr + 7) (n - 7)
  else if n > 6 ∧ PK code addr 0 = 0x8d ∧ PK code addr 1 = 0xb4 ∧ PK code addr 2 = 0x26 ∧ PK code addr 3 = 0x00 ∧
      PK code addr 4 = 0x00 ∧ PK code addr 5 = 0x00 ∧ PK code addr 6 = 0x00 then
    isNops code (addr + 7) (n - 7)
  else if n > 7 ∧ PK code addr 0 = 0x0f ∧ PK code addr 1 = 0x1f ∧ PK code addr 2 = 0x84 ∧ PK code addr 3 = 0x00 ∧
      PK code addr 4 = 0x00 ∧ PK code addr 5 = 0x00 ∧ PK code addr 6 = 0x00 ∧ PK code addr 7 = 0x00 then
    isNops code (addr + 8) (n - 8)
  else false
termination_by n
decreasing_by all_goals omega

/-! ### The instructions -/

/-- What an instruction may change. -/
structure Cpu where
  regs : Fin 16 → BitVec 64
  flags : BitVec 64
  memory : Memory

inductive PaddingInsn where
  | nop
  /-- `lea`, to a register of 16 or 32 bits. -/
  | lea (word : Bool) (reg : Fin 16) (form : AddressForm)

/-- The opcode at `addr` and what belongs to it, with its length; `word` after an operand-size prefix. -/
def decodeOpcode (code : Memory) (addr : BitVec 64) (word : Bool) : Option (PaddingInsn × Nat) :=
  let modrm := PK code addr 1
  if PK code addr 0 = 0x90 then some (.nop, 1)
  else if PK code addr 0 = 0x8d ∧ modrm &&& 0xC0 ≠ 0xC0 then
    let form := AddressForm.decode false false modrm code (addr + 2)
    some (.lea word (AddressForm.regNumber (modrm >>> 3) false) form, 2 + form.length)
  else if PK code addr 0 = 0x0f ∧ modrm = 0x1f then
    let modrm := PK code addr 2
    if modrm &&& 0x38 ≠ 0 then none
    else if modrm &&& 0xC0 = 0xC0 then some (.nop, 3)
    else some (.nop, 3 + (AddressForm.decode false false modrm code (addr + 3)).length)
  else none

/-- An instruction of at most `most` bytes, prefixes included. -/
def decodeInsn (code : Memory) : Nat → BitVec 64 → Bool → Option (PaddingInsn × Nat)
  | 0, _, _ => none
  | most + 1, addr, word =>
    if PK code addr 0 = 0x66 then (decodeInsn code most (addr + 1) true).map fun insn => (insn.1, insn.2 + 1)
    else (decodeOpcode code addr word).filter fun insn => insn.2 ≤ most + 1

def PaddingInsn.exec (next : BitVec 64) (cpu : Cpu) : PaddingInsn → Cpu
  | nop => cpu
  | lea true reg form =>
    let value := (cpu.regs reg &&& ~~~0xffff) ||| (form.eval cpu.regs next &&& 0xffff)
    { cpu with regs := Function.update cpu.regs reg value }
  | lea false reg form =>
    { cpu with regs := Function.update cpu.regs reg (((form.eval cpu.regs next).setWidth 32).setWidth 64) }

/-- The `n` bytes at `addr` run as instructions that end at `addr+n`, at most `fuel` of them. -/
def runPadding (code : Memory) : Nat → BitVec 64 → Nat → Cpu → Option Cpu
  | _, _, 0, cpu => some cpu
  | 0, _, _ + 1, _ => none
  | fuel + 1, addr, n, cpu =>
    (decodeInsn code 15 addr false).bind fun insn =>
      if insn.2 ≤ n then
        let next := addr + BitVec.ofNat 64 insn.2
        runPadding code fuel next (n - insn.2) (insn.1.exec next cpu)
      else none

/-- The bytes are instructions that end where the bytes do and change nothing. -/
def NoOperation (code : Memory) (addr : BitVec 64) (n : Nat) : Prop := ∀ cpu, runPadding code n addr n cpu = some cpu

/-! ### The patterns -/

def nopPatterns : List (List (BitVec 8)) :=
  [[0x90], [0x0f, 0x1f, 0x00], [0x0f, 0x1f, 0x40, 0x00], [0x0f, 0x1f, 0x44, 0x00, 0x00],
    [0x0f, 0x1f, 0x80, 0x00, 0x00, 0x00, 0x00], [0x0f, 0x1f, 0x84, 0x00, 0x00, 0x00, 0x00, 0x00]]

/-- `lea esi, [rsi+0]` -/
def leaPatterns : List (List (BitVec 8)) :=
  [[0x8d, 0x76, 0x00], [0x8d, 0x74, 0x26, 0x00], [0x8d, 0xb6, 0x00, 0x00, 0x00, 0x00],
    [0x8d, 0xb4, 0x26, 0x00, 0x00, 0x00, 0x00]]

/-- The `n` bytes at `addr` are patterns, each after a number of `66` that suits it. -/
inductive Padding (code : Memory) (suits : Nat → List (BitVec 8) → Prop) : BitVec 64 → Nat → Prop where
  | nil {addr : BitVec 64} : Padding code suits addr 0
  | insn {addr : BitVec 64} {prefixes n : Nat} {pattern : List (BitVec 8)} (known : pattern ∈ nopPatterns ++ leaPatterns)
      (prefixed : ∀ k < prefixes, PK code addr k = 0x66) (bytes : Bytes code (addr + BitVec.ofNat 64 prefixes) pattern)
      (good : suits prefixes pattern)
      (rest : Padding code suits (addr + BitVec.ofNat 64 (prefixes + pattern.length)) n) :
      Padding code suits addr (prefixes + pattern.length + n)

/-- An instruction has at most 15 bytes, and `lea` without a prefix clears the upper half of `RSI`. -/
def Quiet (prefixes : Nat) (pattern : List (BitVec 8)) : Prop :=
  prefixes + pattern.length ≤ 15 ∧ (pattern ∈ leaPatterns → prefixes ≠ 0)

theorem bytes_one {code : Memory} {addr : BitVec 64} {byte : BitVec 8} (first : PK code addr 0 = byte) :
    Bytes code addr [byte] := congrArg (fun b => [b]) first

theorem taken {c : Prop} [Decidable c] {a b : Bool} (test : (if c then a else b) = true) : c ∧ a = true ∨ b = true := by
  split at test
  case isTrue holds => exact .inl ⟨holds, test⟩
  case isFalse => exact .inr test

theorem isNops_cases {code : Memory} {addr : BitVec 64} {n : Nat} (nops : isNops code addr n = true) :
    n = 0 ∨ (1 < n ∧ PK code addr 0 = 0x66 ∧ isNops code (addr + 1) (n - 1) = true) ∨
      ∃ pattern ∈ nopPatterns ++ leaPatterns, pattern.length ≤ n ∧ Bytes code addr pattern ∧
        isNops code (addr + BitVec.ofNat 64 pattern.length) (n - pattern.length) = true := by
  have found (pattern : List (BitVec 8)) (known : pattern ∈ nopPatterns ++ leaPatterns) (room : pattern.length ≤ n)
      (bytes : Bytes code addr pattern)
      (rest : isNops code (addr + BitVec.ofNat 64 pattern.length) (n - pattern.length) = true) :
      ∃ pattern ∈ nopPatterns ++ leaPatterns, pattern.length ≤ n ∧ Bytes code addr pattern ∧
        isNops code (addr + BitVec.ofNat 64 pattern.length) (n - pattern.length) = true :=
    ⟨pattern, known, room, bytes, rest⟩
  rw [isNops] at nops
  obtain ⟨zero, -⟩ | nops := taken nops
  · exact .inl zero
  by_cases zero : n = 0
  · exact .inl zero
  right
  obtain ⟨byte, rest⟩ | nops := taken nops
  · exact .inr (found [0x90] (by decide) (Nat.pos_of_ne_zero zero) (bytes_one byte) rest)
  obtain ⟨⟨room, byte⟩, rest⟩ | nops := taken nops
  · exact .inl ⟨room, byte, rest⟩
  right
  obtain ⟨⟨room, b0, b1, b2⟩, rest⟩ | nops := taken nops
  · refine found [0x0f, 0x1f, 0x00] (by decide) room ?_ rest
    rw [Bytes]
    change [PK code addr 0, PK code addr 1, PK code addr 2] = _
    rw [b0, b1, b2]
  obtain ⟨⟨room, b0, b1, b2⟩, rest⟩ | nops := taken nops
  · refine found [0x8d, 0x76, 0x00] (by decide) room ?_ rest
    rw [Bytes]
    change [PK code addr 0, PK code addr 1, PK code addr 2] = _
    rw [b0, b1, b2]
  obtain ⟨⟨room, b0, b1, b2, b3⟩, rest⟩ | nops := taken nops
  · refine found [0x0f, 0x1f, 0x40, 0x00] (by decide) room ?_ rest
    rw [Bytes]
    change [PK code addr 0, PK code addr 1, PK code addr 2, PK code addr 3] = _
    rw [b0, b1, b2, b3]
  obtain ⟨⟨room, b0, b1, b2, b3⟩, rest⟩ | nops := taken nops
  · refine found [0x8d, 0x74, 0x26, 0x00] (by decide) room ?_ rest
    rw [Bytes]
    change [PK code addr 0, PK code addr 1, PK code addr 2, PK code addr 3] = _
    rw [b0, b1, b2, b3]
  obtain ⟨⟨room, b0, b1, b2, b3, b4⟩, rest⟩ | nops := taken nops
  · refine found [0x0f, 0x1f, 0x44, 0x00, 0x00] (by decide) room ?_ rest
    rw [Bytes]
    change [PK code addr 0, PK code addr 1, PK code addr 2, PK code addr 3, PK code addr 4] = _
    rw [b0, b1, b2, b3, b4]
  obtain ⟨⟨room, b0, b1, b2, b3, b4, b5⟩, rest⟩ | nops := taken nops
  · refine found [0x8d, 0xb6, 0x00, 0x00, 0x00, 0x00] (by decide) room ?_ rest
    rw [Bytes]
    change [PK code addr 0, PK code addr 1, PK code addr 2, PK code addr 3, PK code addr 4, PK code addr 5] = _
    rw [b0, b1, b2, b3, b4, b5]
  obtain ⟨⟨room, b0, b1, b2, b3, b4, b5, b6⟩, rest⟩ | nops := taken nops
  · refine found [0x0f, 0x1f, 0x80, 0x00, 0x00, 0x00, 0x00] (by decide) room ?_ rest
    rw [Bytes]
    change [PK code addr 0, PK code addr 1, PK code addr 2, PK code addr 3, PK code addr 4, PK code addr 5, PK code addr 6] = _
    rw [b0, b1, b2, b3, b4, b5, b6]
  obtain ⟨⟨room, b0, b1, b2, b3, b4, b5, b6⟩, rest⟩ | nops := taken nops
  · refine found [0x8d, 0xb4, 0x26, 0x00, 0x00, 0x00, 0x00] (by decide) room ?_ rest
    rw [Bytes]
    change [PK code addr 0, PK code addr 1, PK code addr 2, PK code addr 3, PK code addr 4, PK code addr 5, PK code addr 6] = _
    rw [b0, b1, b2, b3, b4, b5, b6]
  obtain ⟨⟨room, b0, b1, b2, b3, b4, b5, b6, b7⟩, rest⟩ | nops := taken nops
  · refine found [0x0f, 0x1f, 0x84, 0x00, 0x00, 0x00, 0x00, 0x00] (by decide) room ?_ rest
    rw [Bytes]
    change [PK code addr 0, PK code addr 1, PK code addr 2, PK code addr 3, PK code addr 4, PK code addr 5, PK code addr 6, PK code addr 7] = _
    rw [b0, b1, b2, b3, b4, b5, b6, b7]
  cases nops

section Patterns

variable {code : Memory} {addr : BitVec 64} {pattern : List (BitVec 8)}

theorem length_pos (known : pattern ∈ nopPatterns ++ leaPatterns) : 0 < pattern.length := by
  have all : (nopPatterns ++ leaPatterns).all (fun pattern => 0 < pattern.length) = true := by decide
  exact of_decide_eq_true (List.all_eq_true.mp all pattern known)

theorem not_prefix (known : pattern ∈ nopPatterns ++ leaPatterns) (bytes : Bytes code addr pattern) :
    PK code addr 0 ≠ 0x66 := by
  have all : (nopPatterns ++ leaPatterns).all (fun pattern => pattern[0]? ≠ some 0x66) = true := by decide
  have first := of_decide_eq_true (List.all_eq_true.mp all pattern known)
  intro same
  rw [← bytes, List.getElem?_map, List.getElem?_range (length_pos known), Option.map_some, same] at first
  exact first rfl

theorem add_offset (addr : BitVec 64) (i k : Nat) :
    addr + BitVec.ofNat 64 i + BitVec.ofNat 64 k = addr + BitVec.ofNat 64 (i + k) := by
  rw [BitVec.add_assoc, ← BitVec.ofNat_add]

theorem add_offset_zero (addr : BitVec 64) : addr + BitVec.ofNat 64 0 = addr := BitVec.add_zero addr

theorem PK_add (code : Memory) (addr : BitVec 64) (i k : Nat) : PK code (addr + BitVec.ofNat 64 i) k = PK code addr (i + k) := by
  rw [PK, PK, add_offset]

/-- One more `66` in front of an instruction. -/
theorem Padding.cons {suits : Nat → List (BitVec 8) → Prop} {n : Nat} (more : n ≠ 0)
    (first : PK code addr 0 = 0x66) (all : ∀ prefixes pattern, suits prefixes pattern)
    (padding : Padding code suits (addr + 1) n) : Padding code suits addr (n + 1) := by
  cases padding with
  | nil => exact absurd rfl more
  | @insn _ prefixes n pattern known prefixed bytes good rest =>
    have next : addr + 1 = addr + BitVec.ofNat 64 1 := rfl
    rw [next, add_offset] at bytes rest
    have count : prefixes + pattern.length + n + 1 = (prefixes + 1) + pattern.length + n := by omega
    rw [count]
    refine .insn known ?_ ?_ (all _ _) ?_
    · intro k lt
      cases k with
      | zero => exact first
      | succ k =>
        have here := prefixed k (by omega)
        rwa [next, PK_add, Nat.add_comm] at here
    · rwa [Nat.add_comm prefixes]
    · rwa [Nat.add_comm prefixes, Nat.add_assoc]

theorem padding_of_isNops {n : Nat} (nops : isNops code addr n = true) : Padding code (fun _ _ => True) addr n := by
  induction n using Nat.strong_induction_on generalizing addr with
  | _ n ih =>
    obtain rfl | ⟨room, first, rest⟩ | ⟨pattern, known, room, bytes, rest⟩ := isNops_cases nops
    · exact .nil
    · have before := ih (n - 1) (by omega) rest
      have padding := Padding.cons (by omega) first (fun _ _ => trivial) before
      rwa [Nat.sub_add_cancel (by omega)] at padding
    · have pos := length_pos known
      have after := ih (n - pattern.length) (by omega) rest
      have count : n = 0 + pattern.length + (n - pattern.length) := by omega
      rw [count]
      refine .insn known ?_ ?_ trivial ?_
      · exact fun _ lt => absurd lt (Nat.not_lt_zero _)
      · rw [add_offset_zero]
        exact bytes
      · rwa [Nat.zero_add]

/-! ### What the patterns decode to -/

theorem load_byte (code : Memory) (addr : BitVec 64) (k : Nat) : load 8 code (addr + BitVec.ofNat 64 k) = PK code addr k := by
  apply BitVec.eq_of_getLsbD_eq
  intro i lt
  rw [getLsbD_load code _ lt, byteOf, Nat.div_eq_of_lt lt, Nat.mod_eq_of_lt lt, add_offset_zero, PK]

theorem extendedDisp_zero {i bytes : Nat} (zero : ∀ k < bytes, PK code addr (i + k) = 0) :
    AddressForm.extendedDisp code (addr + BitVec.ofNat 64 i) bytes = 0 := by
  have loaded : load (8 * bytes) code (addr + BitVec.ofNat 64 i) = 0 := by
    apply BitVec.eq_of_getLsbD_eq
    intro j lt
    have here := zero (j / 8) (by omega)
    rw [getLsbD_load code _ lt, byteOf, add_offset]
    rw [PK] at here
    rw [here]
    exact BitVec.getLsbD_zero.trans BitVec.getLsbD_zero.symm
  rw [AddressForm.extendedDisp, loaded]
  apply BitVec.eq_of_getLsbD_eq
  intro j _
  simp [BitVec.getLsbD_signExtend, BitVec.msb_eq_getLsbD_last]

theorem decodeOpcode_nop (word : Bool) (known : pattern ∈ nopPatterns) (bytes : Bytes code addr pattern) :
    decodeOpcode code addr word = some (.nop, pattern.length) := by
  have sib := load_byte code addr 3
  simp only [nopPatterns, List.mem_cons, List.not_mem_nil, or_false] at known
  obtain rfl | rfl | rfl | rfl | rfl | rfl := known
  all_goals
    simp only [Bytes, List.length_cons, List.length_nil, List.range_succ, List.range_zero, List.map_cons, List.map_nil,
      List.nil_append, List.cons_append, List.cons.injEq, and_true] at bytes
  · simp [decodeOpcode, bytes]
  · simp [decodeOpcode, bytes, AddressForm.decode, AddressForm.sibBytes, AddressForm.dispBytes, AddressForm.Baseless]
  · simp [decodeOpcode, bytes, AddressForm.decode, AddressForm.sibBytes, AddressForm.dispBytes, AddressForm.Baseless]
  · simp [decodeOpcode, bytes, AddressForm.decode, AddressForm.sibBytes, AddressForm.dispBytes, AddressForm.Baseless]
  · simp [decodeOpcode, bytes, AddressForm.decode, AddressForm.sibBytes, AddressForm.dispBytes, AddressForm.Baseless]
  · simp [decodeOpcode, bytes, AddressForm.decode, AddressForm.sibBytes, AddressForm.dispBytes, AddressForm.Baseless]

/-- `[rsi+0]`, in a number of bytes. -/
structure RsiAlone (form : AddressForm) (length : Nat) : Prop where
  base : form.base = .reg 6
  index : form.index = none
  disp : form.disp = 0
  length : form.length = length

theorem RsiAlone.eval {form : AddressForm} {length : Nat} (alone : RsiAlone form length) (regs : Fin 16 → BitVec 64)
    (next : BitVec 64) : form.eval regs next = regs 6 := by
  rw [AddressForm.eval_of_no_index form regs next alone.index, AddressForm.baseValue, alone.base, alone.disp]
  exact BitVec.add_zero _

theorem rsiAlone_disp {modrm : BitVec 8} (high : modrm &&& 0xC0 ≠ 0) (plain : modrm &&& 7 ≠ 4)
    (rsi : AddressForm.regNumber modrm false = 6)
    (zero : ∀ k < AddressForm.ownDispBytes modrm, PK code addr (2 + k) = 0) :
    RsiAlone (AddressForm.decode false false modrm code (addr + 2)) (AddressForm.ownDispBytes modrm) := by
  rw [AddressForm.decode_reg_disp false false code (addr + 2) high plain]
  exact ⟨congrArg AddressBase.reg rsi, rfl, extendedDisp_zero zero, rfl⟩

theorem rsiAlone_sib {modrm : BitVec 8} (high : modrm &&& 0xC0 ≠ 0) (has_sib : modrm &&& 7 = 4)
    (sib : PK code addr 2 = 0x26) (zero : ∀ k < AddressForm.ownDispBytes modrm, PK code addr (3 + k) = 0) :
    RsiAlone (AddressForm.decode false false modrm code (addr + 2)) (1 + AddressForm.ownDispBytes modrm) := by
  have loaded : load 8 code (addr + 2) = 0x26 := (load_byte code addr 2).trans sib
  rw [AddressForm.decode_sib_disp false false code (addr + 2) high has_sib, loaded]
  refine ⟨rfl, AddressForm.decodeIndex_none false (by decide), ?_, rfl⟩
  have next : addr + 2 + 1 = addr + BitVec.ofNat 64 3 := add_offset addr 2 1
  dsimp only
  rw [next]
  exact extendedDisp_zero zero

theorem decodeOpcode_of_form {modrm : BitVec 8} {length : Nat} (word : Bool) (opcode : PK code addr 0 = 0x8d)
    (here : PK code addr 1 = modrm) (memory : modrm &&& 0xC0 ≠ 0xC0)
    (rsi : AddressForm.regNumber (modrm >>> 3) false = 6)
    (alone : RsiAlone (AddressForm.decode false false modrm code (addr + 2)) length) :
    ∃ form, decodeOpcode code addr word = some (.lea word 6 form, 2 + length) ∧
      ∀ regs next, AddressForm.eval form regs next = regs 6 := by
  refine ⟨AddressForm.decode false false modrm code (addr + 2), ?_, alone.eval⟩
  have not_nop : (0x8d : BitVec 8) ≠ 0x90 := by decide
  rw [decodeOpcode, opcode, here, if_neg not_nop, if_pos ⟨rfl, memory⟩, rsi]
  exact congrArg (fun length => some (_, 2 + length)) alone.length

theorem decodeOpcode_lea (word : Bool) (known : pattern ∈ leaPatterns) (bytes : Bytes code addr pattern) :
    ∃ form, decodeOpcode code addr word = some (.lea word 6 form, pattern.length) ∧
      ∀ regs next, AddressForm.eval form regs next = regs 6 := by
  have at_index (k : Nat) (lt : k < pattern.length) : some (PK code addr k) = pattern[k]? := by
    rw [← bytes, List.getElem?_map, List.getElem?_range lt, Option.map_some]
  simp only [leaPatterns, List.mem_cons, List.not_mem_nil, or_false] at known
  obtain rfl | rfl | rfl | rfl := known
  · refine decodeOpcode_of_form word (Option.some.inj (at_index 0 (by decide))) (Option.some.inj (at_index 1 (by decide)))
      (by decide) (by decide) (rsiAlone_disp (by decide) (by decide) (by decide) ?_)
    intro k lt
    have lt : k < 1 := lt
    interval_cases k
    exact Option.some.inj (at_index 2 (by decide))
  · refine decodeOpcode_of_form word (Option.some.inj (at_index 0 (by decide))) (Option.some.inj (at_index 1 (by decide)))
      (by decide) (by decide) (rsiAlone_sib (by decide) (by decide) (Option.some.inj (at_index 2 (by decide))) ?_)
    intro k lt
    have lt : k < 1 := lt
    interval_cases k
    exact Option.some.inj (at_index 3 (by decide))
  · refine decodeOpcode_of_form word (Option.some.inj (at_index 0 (by decide))) (Option.some.inj (at_index 1 (by decide)))
      (by decide) (by decide) (rsiAlone_disp (by decide) (by decide) (by decide) ?_)
    intro k lt
    have lt : k < 4 := lt
    interval_cases k
    all_goals exact Option.some.inj (at_index _ (by decide))
  · refine decodeOpcode_of_form word (Option.some.inj (at_index 0 (by decide))) (Option.some.inj (at_index 1 (by decide)))
      (by decide) (by decide) (rsiAlone_sib (by decide) (by decide) (Option.some.inj (at_index 2 (by decide))) ?_)
    intro k lt
    have lt : k < 4 := lt
    interval_cases k
    all_goals exact Option.some.inj (at_index _ (by decide))

theorem decodeInsn_eq {prefixes length : Nat} {insn : PaddingInsn} (most : Nat) (word : Bool)
    (prefixed : ∀ k < prefixes, PK code addr k = 0x66)
    (other : PK code (addr + BitVec.ofNat 64 prefixes) 0 ≠ 0x66) (pos : 0 < length)
    (opcode : decodeOpcode code (addr + BitVec.ofNat 64 prefixes) (word || prefixes ≠ 0) = some (insn, length)) :
    decodeInsn code most addr word = if prefixes + length ≤ most then some (insn, prefixes + length) else none := by
  induction prefixes generalizing most addr word with
  | zero =>
    rw [add_offset_zero] at other opcode
    simp only [ne_eq, not_true_eq_false, decide_false, Bool.or_false] at opcode
    rw [Nat.zero_add]
    cases most with
    | zero => rw [decodeInsn, if_neg (by omega)]
    | succ most =>
      rw [decodeInsn, if_neg other, opcode]
      by_cases fits : length ≤ most + 1
      · rw [if_pos fits]
        exact Option.filter_some_pos (decide_eq_true fits)
      · rw [if_neg fits]
        exact Option.filter_some_neg (by simpa using fits)
  | succ prefixes ih =>
    cases most with
    | zero => rw [decodeInsn, if_neg (by omega)]
    | succ most =>
      have next : addr + 1 + BitVec.ofNat 64 prefixes = addr + BitVec.ofNat 64 (prefixes + 1) := by
        rw [Nat.add_comm]
        exact add_offset addr 1 prefixes
      rw [← next] at other opcode
      have rest := ih most true (fun k lt => ?_) other ?_
      · rw [decodeInsn, if_pos (prefixed 0 (Nat.succ_pos _)), rest]
        by_cases fits : prefixes + length ≤ most
        · rw [if_pos fits, if_pos (by omega), Option.map_some, Nat.add_right_comm]
        · rw [if_neg fits, if_neg (by omega), Option.map_none]
      · have here := prefixed (k + 1) (by omega)
        rwa [Nat.add_comm, ← PK_add] at here
      · rw [Bool.true_or]
        simp only [ne_eq, Nat.succ_ne_zero, not_false_eq_true, decide_true, Bool.or_true] at opcode
        exact opcode

end Patterns

/-! ### What the patterns do -/

namespace Cpu

/-- What `lea esi, [rsi+0]` does. -/
def clearUpper (cpu : Cpu) : Cpu :=
  { cpu with regs := Function.update cpu.regs 6 (((cpu.regs 6).setWidth 32).setWidth 64) }

theorem clearUpper_of_clear {cpu : Cpu} (clear : ((cpu.regs 6).setWidth 32).setWidth 64 = cpu.regs 6) :
    cpu.clearUpper = cpu := by
  rw [clearUpper, clear, Function.update_eq_self]

theorem regs_clearUpper (cpu : Cpu) : cpu.clearUpper.regs 6 = ((cpu.regs 6).setWidth 32).setWidth 64 :=
  Function.update_self 6 _ cpu.regs

theorem clear_clearUpper (cpu : Cpu) :
    ((cpu.clearUpper.regs 6).setWidth 32).setWidth 64 = cpu.clearUpper.regs 6 := by
  apply BitVec.eq_of_toNat_eq
  rw [regs_clearUpper]
  simp only [BitVec.toNat_setWidth]
  omega

end Cpu

theorem merge_low (v : BitVec 64) : (v &&& ~~~0xffff) ||| (v &&& 0xffff) = v := by
  apply BitVec.eq_of_getLsbD_eq
  intro i lt
  rw [BitVec.getLsbD_or, BitVec.getLsbD_and, BitVec.getLsbD_and, BitVec.getLsbD_not, decide_eq_true lt]
  cases v.getLsbD i <;> cases (0xffff : BitVec 64).getLsbD i <;> rfl

theorem exec_lea_word {form : AddressForm} {next : BitVec 64} {cpu : Cpu} (rsi : form.eval cpu.regs next = cpu.regs 6) :
    PaddingInsn.exec next cpu (.lea true 6 form) = cpu := by
  rw [PaddingInsn.exec, rsi, merge_low, Function.update_eq_self]

theorem exec_lea_long {form : AddressForm} {next : BitVec 64} {cpu : Cpu} (rsi : form.eval cpu.regs next = cpu.regs 6) :
    PaddingInsn.exec next cpu (.lea false 6 form) = cpu.clearUpper := by
  rw [PaddingInsn.exec, rsi, Cpu.clearUpper]

section Run

variable {code : Memory} {addr : BitVec 64} {prefixes n : Nat} {pattern : List (BitVec 8)}

/-- Some instruction is decoded from a pattern after a number of `66`, if it is not too long. Only `lea` without a prefix
has an effect. -/
theorem decode_pattern (known : pattern ∈ nopPatterns ++ leaPatterns) (prefixed : ∀ k < prefixes, PK code addr k = 0x66)
    (bytes : Bytes code (addr + BitVec.ofNat 64 prefixes) pattern) :
    ∃ insn : PaddingInsn, decodeInsn code 15 addr false =
        (if prefixes + pattern.length ≤ 15 then some (insn, prefixes + pattern.length) else none) ∧
      ∀ next cpu, insn.exec next cpu = if pattern ∈ leaPatterns ∧ prefixes = 0 then cpu.clearUpper else cpu := by
  have other := not_prefix known bytes
  have pos := length_pos known
  by_cases lea : pattern ∈ leaPatterns
  · obtain ⟨form, opcode, rsi⟩ := decodeOpcode_lea (false || prefixes ≠ 0) lea bytes
    refine ⟨_, decodeInsn_eq 15 false prefixed other pos opcode, ?_⟩
    intro next cpu
    by_cases first : prefixes = 0
    · rw [if_pos ⟨lea, first⟩]
      simp only [first, ne_eq, not_true_eq_false, decide_false, Bool.or_false]
      exact exec_lea_long (rsi cpu.regs next)
    · rw [if_neg fun both => first both.2]
      simp only [ne_eq, first, not_false_eq_true, decide_true, Bool.or_true]
      exact exec_lea_word (rsi cpu.regs next)
  · have nop := (List.mem_append.mp known).resolve_right lea
    refine ⟨.nop, decodeInsn_eq 15 false prefixed other pos (decodeOpcode_nop _ nop bytes), ?_⟩
    intro next cpu
    rw [if_neg fun both => lea both.1]
    rfl

theorem runPadding_succ (code : Memory) (fuel : Nat) (addr : BitVec 64) (n : Nat) (cpu : Cpu) :
    runPadding code (fuel + 1) addr (n + 1) cpu = (decodeInsn code 15 addr false).bind fun insn =>
      if insn.2 ≤ n + 1 then
        runPadding code fuel (addr + BitVec.ofNat 64 insn.2) (n + 1 - insn.2)
          (insn.1.exec (addr + BitVec.ofNat 64 insn.2) cpu)
      else none := rfl

theorem run_pattern (known : pattern ∈ nopPatterns ++ leaPatterns) (prefixed : ∀ k < prefixes, PK code addr k = 0x66)
    (bytes : Bytes code (addr + BitVec.ofNat 64 prefixes) pattern) (fuel n : Nat) (cpu : Cpu) :
    runPadding code (fuel + 1) addr (prefixes + pattern.length + n) cpu =
      if prefixes + pattern.length ≤ 15 then
        runPadding code fuel (addr + BitVec.ofNat 64 (prefixes + pattern.length)) n
          (if pattern ∈ leaPatterns ∧ prefixes = 0 then cpu.clearUpper else cpu)
      else none := by
  obtain ⟨insn, decoded, effect⟩ := decode_pattern known prefixed bytes
  have pos := length_pos known
  obtain ⟨m, count⟩ : ∃ m, prefixes + pattern.length + n = m + 1 := ⟨prefixes + pattern.length + n - 1, by omega⟩
  rw [count, runPadding_succ, ← count, decoded]
  by_cases fits : prefixes + pattern.length ≤ 15
  · rw [if_pos fits, if_pos fits, Option.bind_some]
    dsimp only
    rw [if_pos (Nat.le_add_right _ _), effect, Nat.add_sub_cancel_left]
  · rw [if_neg fits, if_neg fits, Option.bind_none]

/-- What has been cleared stays as it is. -/
theorem run_clear {suits : Nat → List (BitVec 8) → Prop} (padding : Padding code suits addr n) {fuel : Nat}
    (enough : n ≤ fuel) {cpu cpu' : Cpu} (clear : ((cpu.regs 6).setWidth 32).setWidth 64 = cpu.regs 6)
    (run : runPadding code fuel addr n cpu = some cpu') : cpu' = cpu := by
  induction padding generalizing fuel with
  | nil =>
    rw [runPadding] at run
    exact (Option.some.inj run).symm
  | insn known prefixed bytes _ _ ih =>
    have pos := length_pos known
    obtain ⟨fuel, rfl⟩ := Nat.exists_eq_add_of_le' (show 1 ≤ fuel by omega)
    rw [run_pattern known prefixed bytes, Cpu.clearUpper_of_clear clear, ite_self] at run
    split at run
    case isTrue => exact ih (by omega) run
    case isFalse => cases run

theorem run_quiet (padding : Padding code Quiet addr n) {fuel : Nat} (enough : n ≤ fuel) (cpu : Cpu) :
    runPadding code fuel addr n cpu = some cpu := by
  induction padding generalizing fuel with
  | nil => rw [runPadding]
  | insn known prefixed bytes quiet _ ih =>
    have pos := length_pos known
    obtain ⟨fuel, rfl⟩ := Nat.exists_eq_add_of_le' (show 1 ≤ fuel by omega)
    rw [run_pattern known prefixed bytes, if_pos quiet.1, if_neg fun both => quiet.2 both.1 both.2]
    exact ih (by omega)

theorem quiet_of_run {suits : Nat → List (BitVec 8) → Prop} (padding : Padding code suits addr n) {fuel : Nat}
    (enough : n ≤ fuel) (run : ∀ cpu, runPadding code fuel addr n cpu = some cpu) : Padding code Quiet addr n := by
  induction padding generalizing fuel with
  | nil => exact .nil
  | @insn addr prefixes n pattern known prefixed bytes _ rest ih =>
    have pos := length_pos known
    obtain ⟨fuel, rfl⟩ := Nat.exists_eq_add_of_le' (show 1 ≤ fuel by omega)
    have enough : n ≤ fuel := by omega
    have fits : prefixes + pattern.length ≤ 15 := by
      by_contra long
      have stuck := run ⟨fun _ => 0, 0, fun _ => 0⟩
      rw [run_pattern known prefixed bytes, if_neg long] at stuck
      cases stuck
    have after (cpu : Cpu) := run cpu
    simp only [run_pattern known prefixed bytes, if_pos fits] at after
    have no_lea : ¬ (pattern ∈ leaPatterns ∧ prefixes = 0) := by
      intro lea
      -- a full `RSI` is cleared, and nothing behind brings it back
      let full : Cpu := ⟨fun _ => -1, 0, fun _ => 0⟩
      have kept := after full
      rw [if_pos lea] at kept
      have same := run_clear rest enough full.clear_clearUpper kept
      have upper := congrArg (fun cpu => cpu.regs 6) same
      rw [full.regs_clearUpper] at upper
      exact absurd upper (by decide)
    refine .insn known prefixed bytes ⟨fits, fun lea first => no_lea ⟨lea, first⟩⟩ (ih enough fun cpu => ?_)
    have kept := after cpu
    rwa [if_neg no_lea] at kept

end Run

/-- Bytes that `is_nops` takes for padding are a sequence of instructions without effect exactly if no instruction in them
is too long and every `lea` has a prefix. -/
theorem isNops_sound_iff {code : Memory} {addr : BitVec 64} {n : Nat} (nops : isNops code addr n = true) :
    NoOperation code addr n ↔ Padding code Quiet addr n :=
  ⟨quiet_of_run (padding_of_isNops nops) (Nat.le_refl n), fun padding cpu => run_quiet padding (Nat.le_refl n) cpu⟩

/-- `66 8D 74 26 00`, `66 0F 1F 84 00 00 00 00 00` and `90`. -/
def paddingCode : Memory := fun addr =>
  [0x66, 0x8d, 0x74, 0x26, 0x00, 0x66, 0x0f, 0x1f, 0x84, 0x00, 0x00, 0x00, 0x00, 0x00, 0x90].getD addr.toNat 0

theorem isNops_sound_iff_three : NoOperation paddingCode 0 15 := by
  refine (isNops_sound_iff (by simp [isNops, PK, paddingCode])).mpr ?_
  change Padding paddingCode Quiet 0 (1 + ([0x8d, 0x74, 0x26, 0x00] : List (BitVec 8)).length +
    (1 + ([0x0f, 0x1f, 0x84, 0x00, 0x00, 0x00, 0x00, 0x00] : List (BitVec 8)).length +
      (0 + ([0x90] : List (BitVec 8)).length + 0)))
  refine .insn (by decide) (by decide) rfl ⟨by decide, fun _ => by decide⟩ ?_
  refine .insn (by decide) (by decide) rfl ⟨by decide, fun _ => by decide⟩ ?_
  exact .insn (by decide) (by decide) rfl ⟨by decide, by decide⟩ .nil

/-- `lea 0x0(%esi),%esi`, as it pads 32-bit code. -/
def leaCode : Memory := fun addr => if addr = 0 then 0x8d else if addr = 1 then 0x76 else 0

theorem lea_clears_upper : ¬ ∀ code addr n, isNops code addr n = true → NoOperation code addr n := by
  intro sound
  have nops : isNops leaCode 0 3 = true := by simp [isNops, PK, leaCode]
  have run := congrArg (Option.map fun cpu => cpu.regs 6) (sound leaCode 0 3 nops ⟨fun _ => -1, 0, fun _ => 0⟩)
  exact absurd run (by decide)

end Box64.Dynarec
