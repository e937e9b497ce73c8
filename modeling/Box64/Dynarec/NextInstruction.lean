import Box64.Dynarec.IsNops

/-!
# The scanner of instruction lengths

`next_instruction` and `is_instructions`, beside the lengths of the instructions of 64-bit mode.
-/

namespace Box64.Dynarec

open Memory

/-! ### The scanner -/

/-- Goes behind the SIB and displacement bytes. -/
def fakeed (code : Memory) (addr : BitVec 64) (nextop : BitVec 8) : BitVec 64 :=
  if nextop &&& 0xC0 = 0xC0 then addr
  else if nextop &&& 0xC0 = 0 then
    if nextop &&& 7 = 4 then
      let sib := PK code addr 0
      let addr := addr + 1
      if sib &&& 7 = 5 then addr + 4 else addr
    else if nextop &&& 7 = 5 then addr + 4
    else addr
  else
    let addr := if nextop &&& 7 = 4 then addr + 1 else addr
    if nextop &&& 0x80 ≠ 0 then addr + 4 else addr + 1

/-- What a case returns: a constant, or `fakeed(dyn, addr+2, 0, nextop)-addr` and something more. -/
inductive Scan
  | size (n : Nat)
  | ed (more : Nat)
  deriving DecidableEq

/-- The `switch` but for `0x66` and `0xFF`. -/
def scanOf (opcode : BitVec 8) : Option Scan :=
  match opcode.toNat with
  | 0x81 => some (.ed 4)
  | 0x83 => some (.ed 1)
  | 0x84 | 0x85 | 0x88 | 0x89 | 0x8A | 0x8B | 0x8C | 0x8D | 0x8E | 0x8F => some (.ed 0)
  | 0x50 | 0x51 | 0x52 | 0x53 | 0x54 | 0x55 | 0x56 | 0x57 | 0x58 | 0x59 | 0x5A | 0x5B | 0x5C | 0x5D | 0x5E | 0x5F
  | 0x90 | 0x91 | 0x92 | 0x93 | 0x94 | 0x95 | 0x96 | 0x97 | 0x98 | 0x99 | 0x9B | 0x9C | 0x9D | 0x9E | 0x9F =>
    some (.size 1)
  | 0xA0 | 0xA1 | 0xA2 | 0xA3 => some (.size 5)
  | 0xB0 | 0xB1 | 0xB2 | 0xB3 | 0xB4 | 0xB5 | 0xB6 | 0xB7 => some (.size 2)
  | 0xB8 | 0xB9 | 0xBA | 0xBB | 0xBC | 0xBD | 0xBE | 0xBF => some (.size 5)
  | _ => none

/-- `0xFF`, with `(nextop>>3)&7`. -/
def scanGroup (ext : BitVec 3) : Option Scan :=
  match ext.toNat with
  | 0 | 1 | 2 | 4 | 6 => some (.ed 0)
  | _ => none

/-- `int next_instruction(dynarec_native_t *dyn, uintptr_t addr)` -/
def nextInstruction (code : Memory) (addr : BitVec 64) : Int :=
  let opcode := PK code addr 0
  let nextop := PK code addr 1
  if opcode = 0x66 then if nextop = 0x90 then 2 else -1
  else
    match if opcode = 0xFF then scanGroup (nextop.extractLsb' 3 3) else scanOf opcode with
    | some (.size n) => n
    | some (.ed more) => ((fakeed code (addr + 2) nextop - addr + BitVec.ofNat 64 more).setWidth 32).toInt
    | none => -1

def INT_MAX : Int := 2147483647

/-- The loop of `is_instructions` from `i` on; `none` where `i` overflows. -/
def scanFrom (code : Memory) (addr : BitVec 64) (n i : Int) : Option Bool :=
  if i < n then
    let j := nextInstruction code (addr + BitVec.ofInt 64 i)
    if j ≤ 0 then some false
    else if i + j > INT_MAX then none
    else scanFrom code addr n (i + j)
  else some (i = n)
termination_by (n - i).toNat
decreasing_by omega

def isInstructions (code : Memory) (addr : BitVec 64) (n : Int) : Option Bool := scanFrom code addr n 0

/-! ### Lengths in 64-bit mode -/

/-- Whether a `ModRM` byte follows, and the bytes of the immediate or of the address, in the one-byte map. `word` and
`addr32` after `66` and `67`, `w` with `REX.W`. -/
def oneByte (word addr32 w : Bool) (opcode : BitVec 8) (ext : BitVec 3) : Option (Bool × Nat) :=
  let z := if word && !w then 2 else 4
  let op := opcode.toNat
  if op < 0x40 then
    match op % 8 with
    | 0 | 1 | 2 | 3 => some (true, 0)
    | 4 => some (false, 1)
    | 5 => some (false, z)
    | _ => none
  else if op < 0x50 then none
  else if op < 0x60 then some (false, 0)
  else if op < 0x70 then
    match op with
    | 0x63 => some (true, 0)
    | 0x68 => some (false, z)
    | 0x69 => some (true, z)
    | 0x6A => some (false, 1)
    | 0x6B => some (true, 1)
    | 0x6C | 0x6D | 0x6E | 0x6F => some (false, 0)
    | _ => none
  else if op < 0x80 then some (false, 1)
  else if op < 0x90 then
    match op with
    | 0x80 | 0x83 => some (true, 1)
    | 0x81 => some (true, z)
    | 0x82 => none
    | _ => some (true, 0)
  else if op < 0xA0 then if op = 0x9A then none else some (false, 0)
  else if op < 0xA4 then some (false, if addr32 then 4 else 8)
  else if op < 0xB0 then
    match op with
    | 0xA8 => some (false, 1)
    | 0xA9 => some (false, z)
    | _ => some (false, 0)
  else if op < 0xB8 then some (false, 1)
  else if op < 0xC0 then some (false, if w then 8 else z)
  else
    match op with
    | 0xC0 | 0xC1 | 0xC6 => some (true, 1)
    | 0xC7 => some (true, z)
    | 0xC2 | 0xCA => some (false, 2)
    | 0xC8 => some (false, 3)
    | 0xC3 | 0xC9 | 0xCB | 0xCC | 0xCF | 0xD7 => some (false, 0)
    | 0xCD => some (false, 1)
    | 0xD0 | 0xD1 | 0xD2 | 0xD3 | 0xD8 | 0xD9 | 0xDA | 0xDB | 0xDC | 0xDD | 0xDE | 0xDF | 0xFE | 0xFF => some (true, 0)
    | 0xE0 | 0xE1 | 0xE2 | 0xE3 | 0xE4 | 0xE5 | 0xE6 | 0xE7 | 0xEB => some (false, 1)
    | 0xE8 | 0xE9 => some (false, 4)
    | 0xEC | 0xED | 0xEE | 0xEF | 0xF1 | 0xF4 | 0xF5 | 0xF8 | 0xF9 | 0xFA | 0xFB | 0xFC | 0xFD => some (false, 0)
    | 0xF6 => some (true, if ext.toNat < 2 then 1 else 0)
    | 0xF7 => some (true, if ext.toNat < 2 then z else 0)
    | _ => none

/-- `LEA` of a register, a segment register that does not exist or `CS` as a destination, and numbers that a group does
not have: the processor raises `#UD`. -/
def Undefined (opcode modrm : BitVec 8) : Prop :=
  let ext := (modrm.extractLsb' 3 3).toNat
  match opcode.toNat with
  | 0x8C => ext = 6 ∨ ext = 7
  | 0x8D => modrm &&& 0xC0 = 0xC0
  | 0x8E => ext = 1 ∨ ext = 6 ∨ ext = 7
  | 0x8F => ext ≠ 0
  | 0xC6 | 0xC7 => ext ≠ 0 ∧ modrm ≠ 0xF8
  | 0xFE => 1 < ext
  | 0xFF => ext = 7 ∨ (ext = 3 ∨ ext = 5) ∧ modrm &&& 0xC0 = 0xC0
  | _ => False

instance (opcode modrm : BitVec 8) : Decidable (Undefined opcode modrm) := by
  unfold Undefined
  split <;> infer_instance

/-- The SIB and displacement bytes. -/
def tailBytes (code : Memory) (a : BitVec 64) (modrm : BitVec 8) : Nat :=
  if modrm &&& 0xC0 = 0xC0 then 0 else (AddressForm.decode false false modrm code a).length

/-- The opcode at `a` with all that belongs to it. With `reserved`, encodings that raise `#UD` for their `ModRM` byte
count as instructions. -/
def opcodeLength (reserved word addr32 w : Bool) (code : Memory) (a : BitVec 64) : Option Nat :=
  let opcode := PK code a 0
  let modrm := PK code a 1
  if Undefined opcode modrm ∧ reserved = false then none
  else (oneByte word addr32 w opcode (modrm.extractLsb' 3 3)).map fun (has_modrm, imm) =>
    1 + (if has_modrm then 1 + tailBytes code (a + 2) modrm else 0) + imm

/-- Besides `66` and `67`. -/
def legacyPrefixes : List (BitVec 8) := [0x26, 0x2E, 0x36, 0x3E, 0x64, 0x65, 0xF0, 0xF2, 0xF3]

/-- The length of the instruction at `a`, of at most `most` bytes, in the one-byte map. -/
def lengthFrom (reserved : Bool) (code : Memory) : Nat → BitVec 64 → (word addr32 : Bool) → Option Nat
  | 0, _, _, _ => none
  | most + 1, a, word, addr32 =>
    let byte := PK code a 0
    if byte = 0x66 then (lengthFrom reserved code most (a + 1) true addr32).map (· + 1)
    else if byte = 0x67 then (lengthFrom reserved code most (a + 1) word true).map (· + 1)
    else if byte ∈ legacyPrefixes then
      (lengthFrom reserved code most (a + 1) word addr32).map (· + 1)
    else if byte &&& 0xF0 = 0x40 then
      ((opcodeLength reserved word addr32 (byte.getLsbD 3) code (a + 1)).map (· + 1)).filter (· ≤ most + 1)
    else (opcodeLength reserved word addr32 false code a).filter (· ≤ most + 1)

def length64 (reserved : Bool) (code : Memory) (a : BitVec 64) : Option Nat := lengthFrom reserved code 15 a false false

/-- The `n` bytes at `a` are instructions, the last of which ends where they do. -/
inductive WholeInsns (reserved : Bool) (code : Memory) : BitVec 64 → Nat → Prop where
  | nil {a : BitVec 64} : WholeInsns reserved code a 0
  | insn {a : BitVec 64} {len n : Nat} (here : length64 reserved code a = some len)
      (rest : WholeInsns reserved code (a + BitVec.ofNat 64 len) n) : WholeInsns reserved code a (len + n)

/-! ### The opcodes of the scanner -/

/-- The opcodes that the scanner has with any `ModRM` byte. -/
def knownOpcodes : List (BitVec 8) :=
  [0x50, 0x51, 0x52, 0x53, 0x54, 0x55, 0x56, 0x57, 0x58, 0x59, 0x5A, 0x5B, 0x5C, 0x5D, 0x5E, 0x5F, 0x81, 0x83, 0x84, 0x85,
    0x88, 0x89, 0x8A, 0x8B, 0x8C, 0x8D, 0x8E, 0x8F, 0x90, 0x91, 0x92, 0x93, 0x94, 0x95, 0x96, 0x97, 0x98, 0x99, 0x9B, 0x9C,
    0x9D, 0x9E, 0x9F, 0xA0, 0xA1, 0xA2, 0xA3, 0xB0, 0xB1, 0xB2, 0xB3, 0xB4, 0xB5, 0xB6, 0xB7, 0xB8, 0xB9, 0xBA, 0xBB, 0xBC,
    0xBD, 0xBE, 0xBF]

/-- `MOV` between the accumulator and an address in the instruction. -/
def moffs : List (BitVec 8) := [0xA0, 0xA1, 0xA2, 0xA3]

/-- Besides, the scanner has five members of the group `0xFF`, and `66 90`. -/
def Known (code : Memory) (a : BitVec 64) : Prop :=
  let opcode := PK code a 0
  let nextop := PK code a 1
  opcode ∈ knownOpcodes ∨ opcode = 0xFF ∧ nextop.extractLsb' 3 3 ∈ [0#3, 1#3, 2#3, 4#3, 6#3] ∨ opcode = 0x66 ∧ nextop = 0x90

section Table

/-- What the one-byte map has where the scanner has this; the addresses have eight bytes, not four. -/
def Scan.Fits (opcode : BitVec 8) (ext : BitVec 3) : Scan → Prop
  | .size n =>
    if opcode ∈ moffs then n = 5 ∧ oneByte false false false opcode ext = some (false, 8)
    else 0 < n ∧ n ≤ 5 ∧ oneByte false false false opcode ext = some (false, n - 1)
  | .ed more => opcode ∉ moffs ∧ more ≤ 4 ∧ oneByte false false false opcode ext = some (true, more)

instance (opcode : BitVec 8) (ext : BitVec 3) : DecidablePred (Scan.Fits opcode ext)
  | .size _ => inferInstanceAs (Decidable (ite _ _ _))
  | .ed _ => inferInstanceAs (Decidable (_ ∧ _))

theorem scanOf_known : ∀ opcode : BitVec 8, (scanOf opcode).isSome ↔ opcode ∈ knownOpcodes := by decide +kernel

theorem scanGroup_known : ∀ ext : BitVec 3, (scanGroup ext).isSome ↔ ext ∈ [0#3, 1#3, 2#3, 4#3, 6#3] := by decide

theorem scanOf_fits : ∀ opcode : BitVec 8, ∀ scan ∈ scanOf opcode, ∀ ext, scan.Fits opcode ext := by decide +kernel

theorem scanGroup_fits : ∀ ext : BitVec 3, ∀ scan ∈ scanGroup ext, scan.Fits 0xFF ext := by decide +kernel

/-- No prefix. -/
def Bare (opcode : BitVec 8) : Prop :=
  opcode ≠ 0x66 ∧ opcode ≠ 0x67 ∧ opcode ∉ legacyPrefixes ∧ opcode &&& 0xF0 ≠ 0x40

instance (opcode : BitVec 8) : Decidable (Bare opcode) := inferInstanceAs (Decidable (_ ∧ _))

theorem knownOpcodes_bare : ∀ opcode ∈ knownOpcodes, Bare opcode := by decide +kernel

end Table

/-! ### One instruction -/

section Insn

variable (code : Memory) (a : BitVec 64)

theorem tailBytes_le (modrm : BitVec 8) : tailBytes code a modrm ≤ 5 := by
  unfold tailBytes
  split
  · exact Nat.zero_le 5
  · simp only [AddressForm.decode, AddressForm.sibBytes, AddressForm.dispBytes]
    split <;> split <;> (try split) <;> (try split) <;> omega

theorem own_disp : ∀ nextop : BitVec 8, nextop &&& 0xC0 ≠ 0xC0 → nextop &&& 0xC0 ≠ 0 →
    AddressForm.ownDispBytes nextop = if nextop &&& 0x80 ≠ 0 then 4 else 1 := by decide

/-- `fakeed` goes behind what belongs to the operand. -/
theorem fakeed_eq (nextop : BitVec 8) : fakeed code a nextop = a + BitVec.ofNat 64 (tailBytes code a nextop) := by
  have sib : load 8 code a = PK code a 0 := by
    have byte := load_byte code a 0
    rwa [add_offset_zero] at byte
  have five : a + 1 + 4 = a + BitVec.ofNat 64 5 := add_offset a 1 4
  have two : a + 1 + 1 = a + BitVec.ofNat 64 2 := add_offset a 1 1
  unfold fakeed tailBytes
  by_cases register : nextop &&& 0xC0 = 0xC0
  · rw [if_pos register, if_pos register, add_offset_zero]
  rw [if_neg register, if_neg register]
  by_cases low : nextop &&& 0xC0 = 0
  · rw [if_pos low]
    by_cases four : nextop &&& 7 = 4
    · rw [if_pos four]
      dsimp only
      by_cases baseless : PK code a 0 &&& 7 = 5
      · rw [if_pos baseless, AddressForm.decode_baseless_sib false false code a low four (sib ▸ baseless)]
        exact five
      · rw [if_neg baseless, AddressForm.decode_sib false false code a low four (sib ▸ baseless)]
        rfl
    · rw [if_neg four]
      by_cases ip : nextop &&& 7 = 5
      · rw [if_pos ip, AddressForm.decode_ip false false code a low ip]
        rfl
      · rw [if_neg ip, AddressForm.decode_reg false false code a low four ip, add_offset_zero]
  · rw [if_neg low]
    have own := own_disp nextop register low
    by_cases four : nextop &&& 7 = 4
    · rw [if_pos four, AddressForm.decode_sib_disp false false code a low four, own]
      by_cases long : nextop &&& 0x80 ≠ 0
      · rw [if_pos long, if_pos long]
        exact five
      · rw [if_neg long, if_neg long]
        exact two
    · rw [if_neg four, AddressForm.decode_reg_disp false false code a low four, own]
      by_cases long : nextop &&& 0x80 ≠ 0
      · rw [if_pos long, if_pos long]
        rfl
      · rw [if_neg long, if_neg long]
        rfl

theorem fakeed_length (nextop : BitVec 8) {more : Nat} (small : more ≤ 4) :
    ((fakeed code (a + 2) nextop - a + BitVec.ofNat 64 more).setWidth 32).toInt =
      (2 + tailBytes code (a + 2) nextop + more : Nat) := by
  have bound := tailBytes_le code (a + 2) nextop
  rw [fakeed_eq]
  generalize tailBytes code (a + 2) nextop = t at bound
  have sum : a + 2 + BitVec.ofNat 64 t - a + BitVec.ofNat 64 more = BitVec.ofNat 64 (2 + t + more) := by
    have two : a + 2 = a + BitVec.ofNat 64 2 := rfl
    rw [two, add_offset, BitVec.add_comm a, BitVec.add_sub_cancel, ← BitVec.ofNat_add]
  have value : ((BitVec.ofNat 64 (2 + t + more)).setWidth 32).toNat = 2 + t + more := by
    rw [BitVec.toNat_setWidth, BitVec.toNat_ofNat]
    omega
  rw [sum, BitVec.toInt_eq_toNat_of_lt (by omega), value]

theorem opcodeLength_of {reserved : Bool} {ext_fits : Bool × Nat}
    (allowed : reserved = true ∨ ¬ Undefined (PK code a 0) (PK code a 1))
    (found : oneByte false false false (PK code a 0) ((PK code a 1).extractLsb' 3 3) = some ext_fits) :
    opcodeLength reserved false false false code a =
      some (1 + (if ext_fits.1 then 1 + tailBytes code (a + 2) (PK code a 1) else 0) + ext_fits.2) := by
  have not_refused : ¬ (Undefined (PK code a 0) (PK code a 1) ∧ reserved = false) := by
    rintro ⟨undefined, strict⟩
    rcases allowed with lenient | defined
    · rw [strict] at lenient
      cases lenient
    · exact defined undefined
  rw [opcodeLength, if_neg not_refused, found]
  rfl

/-- What the scanner has for the bytes at `a`, but for `66 90`. -/
def scanAt : Option Scan :=
  if PK code a 0 = 0xFF then scanGroup ((PK code a 1).extractLsb' 3 3) else scanOf (PK code a 0)

theorem scanAt_fits {scan : Scan} (found : scanAt code a = some scan) :
    scan.Fits (PK code a 0) ((PK code a 1).extractLsb' 3 3) := by
  unfold scanAt at found
  split at found
  case isTrue group =>
    rw [group]
    exact scanGroup_fits _ scan found
  case isFalse => exact scanOf_fits _ scan found _

theorem scanAt_known : (scanAt code a).isSome ↔
    PK code a 0 ∈ knownOpcodes ∨ PK code a 0 = 0xFF ∧ (PK code a 1).extractLsb' 3 3 ∈ [0#3, 1#3, 2#3, 4#3, 6#3] := by
  unfold scanAt
  split
  case isTrue group =>
    have not_listed : (0xFF : BitVec 8) ∉ knownOpcodes := by decide
    rw [scanGroup_known, group, or_iff_right not_listed, and_iff_right rfl]
  case isFalse single => rw [scanOf_known, or_iff_left fun both => single both.1]

theorem scanAt_bare (known : (scanAt code a).isSome) : Bare (PK code a 0) := by
  rcases (scanAt_known code a).mp known with listed | ⟨group, -⟩
  · exact knownOpcodes_bare _ listed
  · rw [group]
    decide

theorem lengthFrom_bare {reserved word addr32 : Bool} {most : Nat} (bare : Bare (PK code a 0)) :
    lengthFrom reserved code (most + 1) a word addr32 =
      (opcodeLength reserved word addr32 false code a).filter (· ≤ most + 1) := by
  obtain ⟨not_word, not_addr32, not_legacy, not_rex⟩ := bare
  rw [lengthFrom, if_neg not_word, if_neg not_addr32, if_neg not_legacy, if_neg not_rex]

theorem length64_two_byte_nop {reserved : Bool} (word : PK code a 0 = 0x66) (nop : PK code a 1 = 0x90) :
    length64 reserved code a = some 2 := by
  have next : PK code (a + 1) 0 = 0x90 := (PK_add code a 1 0).trans nop
  have bare : Bare (PK code (a + 1) 0) := by
    rw [next]
    decide
  have one : ∀ ext, oneByte true false false 0x90 ext = some (false, 0) := by decide
  have inner : opcodeLength reserved true false false code (a + 1) = some 1 := by
    have defined : ¬ (Undefined 0x90 (PK code (a + 1) 1) ∧ reserved = false) := fun both => both.1
    rw [opcodeLength, next, if_neg defined, one]
    rfl
  rw [length64, lengthFrom, if_pos word, lengthFrom_bare code (a + 1) bare, inner]
  rfl

/-- The length where the scanner has the opcode; there is none for an encoding that does not count. -/
theorem length64_of (reserved : Bool) {more : Bool × Nat} (bare : Bare (PK code a 0)) (small : more.2 ≤ 8)
    (found : oneByte false false false (PK code a 0) ((PK code a 1).extractLsb' 3 3) = some more) :
    length64 reserved code a =
      if reserved = true ∨ ¬ Undefined (PK code a 0) (PK code a 1) then
        some (1 + (if more.1 then 1 + tailBytes code (a + 2) (PK code a 1) else 0) + more.2)
      else none := by
  have bound := tailBytes_le code (a + 2) (PK code a 1)
  rw [length64, lengthFrom_bare code a bare]
  split
  case isTrue allowed =>
    rw [opcodeLength_of code a allowed found, Option.filter_some, if_pos]
    rw [decide_eq_true_eq]
    split <;> omega
  case isFalse refused =>
    obtain ⟨strict, undefined⟩ := not_or.mp refused
    have both : Undefined (PK code a 0) (PK code a 1) ∧ reserved = false :=
      ⟨not_not.mp undefined, Bool.eq_false_iff.mpr strict⟩
    rw [opcodeLength, if_pos both]
    rfl

/-- An encoding with an address in it has no `ModRM` byte. -/
theorem moffs_defined {opcode : BitVec 8} (member : opcode ∈ moffs) (modrm : BitVec 8) : ¬ Undefined opcode modrm := by
  simp only [moffs, List.mem_cons, List.not_mem_nil, or_false] at member
  rcases member with rfl | rfl | rfl | rfl
  all_goals exact id

theorem nextInstruction_scan (word : PK code a 0 ≠ 0x66) :
    nextInstruction code a = match scanAt code a with
      | some (.size n) => (n : Int)
      | some (.ed more) => ((fakeed code (a + 2) (PK code a 1) - a + BitVec.ofNat 64 more).setWidth 32).toInt
      | none => -1 := if_neg word

theorem nextInstruction_known (reserved : Bool) (known : Known code a) :
    ∃ len : Nat, 0 < len ∧ nextInstruction code a = len ∧
      (length64 reserved code a = some len ↔
        PK code a 0 ∉ moffs ∧ (reserved = true ∨ ¬ Undefined (PK code a 0) (PK code a 1))) := by
  by_cases word : PK code a 0 = 0x66
  · have nop : PK code a 1 = 0x90 := by
      rcases known with listed | ⟨group, -⟩ | ⟨-, nop⟩
      · rw [word] at listed
        exact absurd listed (by decide)
      · rw [word] at group
        exact absurd group (by decide)
      · exact nop
    refine ⟨2, by decide, ?_, iff_of_true (length64_two_byte_nop code a word nop) ?_⟩
    · rw [nextInstruction, if_pos word, if_pos nop]
      rfl
    · rw [word]
      exact ⟨by decide, .inr id⟩
  have some_scan : (scanAt code a).isSome := by
    rw [scanAt_known]
    rcases known with listed | group | ⟨prefixed, -⟩
    · exact .inl listed
    · exact .inr group
    · exact absurd prefixed word
  obtain ⟨scan, found⟩ := Option.isSome_iff_exists.mp some_scan
  have fits := scanAt_fits code a found
  have bare := scanAt_bare code a some_scan
  rw [nextInstruction_scan code a word, found]
  cases scan with
  | size n =>
    dsimp only [Scan.Fits] at fits
    by_cases address : PK code a 0 ∈ moffs
    · rw [if_pos address] at fits
      obtain ⟨rfl, eight⟩ := fits
      refine ⟨5, by decide, rfl, iff_of_false ?_ fun right => right.1 address⟩
      rw [length64_of code a reserved bare (by decide) eight, if_pos (.inr (moffs_defined address _))]
      exact fun same => absurd (Option.some.inj same) (by decide : ¬ 9 = 5)
    · rw [if_neg address] at fits
      obtain ⟨pos, le, bytes⟩ := fits
      refine ⟨n, pos, rfl, ?_⟩
      have length := length64_of code a reserved bare (by dsimp only; omega) bytes
      have whole : 1 + 0 + (n - 1) = n := by omega
      simp only [Bool.false_eq_true, if_false, whole] at length
      rw [length, and_iff_right address]
      by_cases allowed : reserved = true ∨ ¬ Undefined (PK code a 0) (PK code a 1)
      · exact iff_of_true (if_pos allowed) allowed
      · rw [if_neg allowed]
        exact iff_of_false (fun same => nomatch same) allowed
  | ed more =>
    obtain ⟨plain, le, bytes⟩ := fits
    refine ⟨2 + tailBytes code (a + 2) (PK code a 1) + more, by omega, fakeed_length code a _ le, ?_⟩
    have length := length64_of code a reserved bare (by dsimp only; omega) bytes
    have whole (t : Nat) : 1 + (1 + t) + more = 2 + t + more := by omega
    simp only [if_true, whole] at length
    rw [length, and_iff_right plain]
    by_cases allowed : reserved = true ∨ ¬ Undefined (PK code a 0) (PK code a 1)
    · exact iff_of_true (if_pos allowed) allowed
    · rw [if_neg allowed]
      exact iff_of_false (fun same => nomatch same) allowed

theorem nextInstruction_unknown (unknown : ¬ Known code a) : nextInstruction code a = -1 := by
  by_cases word : PK code a 0 = 0x66
  · rw [nextInstruction, if_pos word]
    exact if_neg fun nop => unknown (.inr (.inr ⟨word, nop⟩))
  · have none : scanAt code a = none := by
      rw [← Option.not_isSome_iff_eq_none, scanAt_known]
      rintro (listed | group)
      · exact unknown (.inl listed)
      · exact unknown (.inr (.inl group))
    rw [nextInstruction_scan code a word, none]

end Insn

/-! ### Runs of instructions -/

section Scan

variable (reserved : Bool) (code : Memory) (addr : BitVec 64)

/-- `k` bytes behind `addr` an instruction begins, and all before it are known to the scanner. -/
inductive Reached : Nat → Prop
  | start : Reached 0
  | next {k len : Nat} (before : Reached k) (known : Known code (addr + BitVec.ofNat 64 k))
      (here : length64 reserved code (addr + BitVec.ofNat 64 k) = some len) : Reached (k + len)

/-- What is returned for an instruction among the `n` bytes is its length, the scan comes to an end, and where it returns 1
the bytes are whole instructions. -/
def ScanSound (n : Int) : Prop :=
  (∀ k : Nat, Reached reserved code addr k → k < n → ∀ j : Nat, 0 < j →
      nextInstruction code (addr + BitVec.ofNat 64 k) = j → length64 reserved code (addr + BitVec.ofNat 64 k) = some j) ∧
    ∃ r, isInstructions code addr n = some r ∧ (r = true → ∃ m : Nat, n = m ∧ WholeInsns reserved code addr m)

/-- No instruction known to the scanner, among those that begin in the `n` bytes, has an address in it, raises `#UD` where
this does not count, or ends where an `int` does not reach. -/
def Scannable (n : Int) : Prop :=
  ∀ k : Nat, Reached reserved code addr k → k < n →
    let a := addr + BitVec.ofNat 64 k
    Known code a → PK code a 0 ∉ moffs ∧ (reserved = true ∨ ¬ Undefined (PK code a 0) (PK code a 1)) ∧
      ∀ len, length64 reserved code a = some len → k + len ≤ INT_MAX

variable {reserved code addr}

/-- One turn of the loop. -/
theorem scanFrom_step {n : Int} {k len : Nat} (more : (k : Int) < n)
    (known : nextInstruction code (addr + BitVec.ofNat 64 k) = len) (pos : 0 < len) :
    scanFrom code addr n k = if (k : Int) + len > INT_MAX then none else scanFrom code addr n (k + len : Nat) := by
  rw [scanFrom, if_pos more, BitVec.ofInt_natCast, known, if_neg (by omega)]
  rfl

theorem scanFrom_unknown {n : Int} {k : Nat} (more : (k : Int) < n)
    (unknown : ¬ Known code (addr + BitVec.ofNat 64 k)) : scanFrom code addr n k = some false := by
  rw [scanFrom, if_pos more, BitVec.ofInt_natCast, nextInstruction_unknown code _ unknown]
  rfl

theorem scanFrom_end {n : Int} {k : Nat} (done : ¬ (k : Int) < n) : scanFrom code addr n k = some (decide ((k : Int) = n)) := by
  rw [scanFrom, if_neg done]

/-- From an instruction on, by induction on the bytes that are left. -/
theorem scanFrom_reached {n : Int} (scannable : Scannable reserved code addr n) (left : Nat) :
    ∀ k : Nat, (n - k).toNat ≤ left → Reached reserved code addr k →
      ∃ r, scanFrom code addr n k = some r ∧
        (r = true → ∃ m : Nat, n = k + m ∧ WholeInsns reserved code (addr + BitVec.ofNat 64 k) m) := by
  induction left with
  | zero =>
    intro k none _
    refine ⟨_, scanFrom_end (by omega), fun same => ⟨0, ?_, .nil⟩⟩
    rw [of_decide_eq_true same]
    exact (Int.add_zero n).symm
  | succ left ih =>
    intro k bytes reached
    by_cases more : (k : Int) < n
    · by_cases known : Known code (addr + BitVec.ofNat 64 k)
      · obtain ⟨len, pos, ran, exact_iff⟩ := nextInstruction_known code _ reserved known
        obtain ⟨plain, allowed, short⟩ := scannable k reached more known
        have here := exact_iff.mpr ⟨plain, allowed⟩
        obtain ⟨r, rest, whole⟩ := ih (k + len) (by omega) (.next reached known here)
        refine ⟨r, ?_, fun same => ?_⟩
        · rw [scanFrom_step more ran pos, if_neg (Int.not_lt.mpr (short len here)), rest]
        · obtain ⟨m, total, insns⟩ := whole same
          refine ⟨len + m, by push_cast at total ⊢; omega, .insn here ?_⟩
          rwa [add_offset]
      · exact ⟨false, scanFrom_unknown more known, fun same => nomatch same⟩
    · refine ⟨_, scanFrom_end more, fun same => ⟨0, ?_, .nil⟩⟩
      rw [of_decide_eq_true same]
      exact (Int.add_zero n).symm

/-- A scan that comes to an end passes by every instruction it reaches. -/
theorem scanFrom_passes {n : Int} {r : Bool} (returned : isInstructions code addr n = some r)
    (plain : ∀ k : Nat, Reached reserved code addr k → (k : Int) < n → Known code (addr + BitVec.ofNat 64 k) →
      ∀ len, length64 reserved code (addr + BitVec.ofNat 64 k) = some len →
        nextInstruction code (addr + BitVec.ofNat 64 k) = len ∧ 0 < len)
    {k : Nat} (reached : Reached reserved code addr k) (inside : (k : Int) < n) : scanFrom code addr n k = some r := by
  induction reached with
  | start => exact returned
  | @next k len before known here ih =>
    have more : (k : Int) < n := by push_cast at inside; omega
    obtain ⟨ran, pos⟩ := plain k before more known len here
    have step := ih more
    rw [scanFrom_step more ran pos] at step
    split at step
    · cases step
    · exact step

/-- The scanner is right about `n` bytes exactly if they are scannable. -/
theorem scanSound_iff (n : Int) : ScanSound reserved code addr n ↔ Scannable reserved code addr n := by
  constructor
  · rintro ⟨lengths, r, returned, -⟩
    -- Where a known instruction is reached its length is right, so it is none of those that are not.
    have clean (k : Nat) (reached : Reached reserved code addr k) (inside : (k : Int) < n)
        (known : Known code (addr + BitVec.ofNat 64 k)) :
        let a := addr + BitVec.ofNat 64 k
        ∃ len : Nat, 0 < len ∧ nextInstruction code a = len ∧ length64 reserved code a = some len ∧
          PK code a 0 ∉ moffs ∧ (reserved = true ∨ ¬ Undefined (PK code a 0) (PK code a 1)) := by
      obtain ⟨len, pos, ran, exact_iff⟩ := nextInstruction_known code (addr + BitVec.ofNat 64 k) reserved known
      have right := lengths k reached inside len pos ran
      exact ⟨len, pos, ran, right, exact_iff.mp right⟩
    have plain (k : Nat) (reached : Reached reserved code addr k) (inside : (k : Int) < n)
        (known : Known code (addr + BitVec.ofNat 64 k)) (len : Nat)
        (here : length64 reserved code (addr + BitVec.ofNat 64 k) = some len) :
        nextInstruction code (addr + BitVec.ofNat 64 k) = len ∧ 0 < len := by
      obtain ⟨len', pos, ran, right, -, -⟩ := clean k reached inside known
      obtain rfl := Option.some.inj (here.symm.trans right)
      exact ⟨ran, pos⟩
    intro k reached inside a known
    obtain ⟨-, -, -, -, not_address, allowed⟩ := clean k reached inside known
    refine ⟨not_address, allowed, fun len' here => ?_⟩
    obtain ⟨ran, pos⟩ := plain k reached inside known len' here
    have passes := scanFrom_passes returned plain reached inside
    rw [scanFrom_step inside ran pos] at passes
    split at passes
    · cases passes
    · omega
  · intro scannable
    refine ⟨fun k reached inside j pos ran => ?_, ?_⟩
    · by_cases known : Known code (addr + BitVec.ofNat 64 k)
      · obtain ⟨len, -, ran', exact_iff⟩ := nextInstruction_known code _ reserved known
        obtain ⟨plain, allowed, -⟩ := scannable k reached inside known
        obtain rfl : len = j := by omega
        exact exact_iff.mpr ⟨plain, allowed⟩
      · rw [nextInstruction_unknown code _ known] at ran
        omega
    · obtain ⟨r, scanned, whole⟩ := scanFrom_reached scannable (n - 0).toNat 0 (Nat.le_refl _) .start
      refine ⟨r, scanned, fun same => ?_⟩
      obtain ⟨m, total, insns⟩ := whole same
      rw [add_offset_zero] at insns
      exact ⟨m, by simpa using total, insns⟩

/-- `mov al, [0xa0a0a0a0a0a0a0a0]`, again and again. -/
def movOffset : Memory := fun _ => 0xA0

/-- The scanner takes its address for four bytes. -/
theorem scan_misreads_moffs :
    ¬ ∀ (reserved : Bool) (code : Memory) (addr : BitVec 64) (n : Int), ScanSound reserved code addr n := by
  intro all
  obtain ⟨lengths, -⟩ := all true movOffset 0 5
  have five := lengths 0 .start (by decide) 5 (by decide) rfl
  have nine : length64 true movOffset 0 = some 9 := by
    rw [length64_of movOffset 0 true (by decide) (by decide) rfl]
    rfl
  exact absurd (Option.some.inj (five.symm.trans nine)) (by decide)

end Scan

end Box64.Dynarec
