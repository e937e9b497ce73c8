import Box64.Elfs.CfaBytes

/-!
# The records of `.eh_frame`

The loop of `get_parent_registers` over the CIEs and FDEs of a file, up to the FDE of an address. A pointer is the memory
from it on, as far as there is any; a read beyond it has no result.
-/

namespace Box64.Elfs

def DW_EH_PE_SIZE_MASK : BitVec 8 := 0x07

def DW_EH_PE_signed : BitVec 8 := 0x08

def DW_EH_PE_absptr : BitVec 8 := 0x00

def DW_EH_PE_pcrel : BitVec 8 := 0x10

def DW_EH_PE_indirect : BitVec 8 := 0x80

def DW_EH_PE_omit : BitVec 8 := 0xff

def AUG_EHDATA : BitVec 16 := 0x01

def AUG_AUGDATA : BitVec 16 := 0x02

def AUG_LSDA : BitVec 16 := 0x04

def AUG_PARG : BitVec 16 := 0x08

def AUG_FDEENC : BitVec 16 := 0x10

def AUG_SIGHDLER : BitVec 16 := 0x20

/-- The address behind the memory that is read, and the words that an indirect address may lead to. -/
structure Memory where
  top : BitVec 64
  word : BitVec 64 → BitVec 64

def Memory.address (m : Memory) (ptr : List (BitVec 8)) : BitVec 64 := m.top - BitVec.ofNat 64 ptr.length

section Encoded

variable (host : Shifts) (m : Memory)

/-- A number of `n` bytes, extended to 64 bits. -/
def readExtended (n : Nat) (enc : BitVec 8) (ptr : List (BitVec 8)) : Option (BitVec 64 × List (BitVec 8)) :=
  (readUnsigned n ptr).map fun (v, ptr) =>
    (if enc &&& DW_EH_PE_signed ≠ 0 then (BitVec.ofNat (8 * n) v).signExtend 64 else BitVec.ofNat 64 v, ptr)

/-- The number that `READ_ENCODED` starts from. -/
def readSized (enc : BitVec 8) (ptr : List (BitVec 8)) : Option (BitVec 64 × List (BitVec 8)) :=
  match (enc &&& DW_EH_PE_SIZE_MASK).toNat with
  | 0x01 => if enc &&& DW_EH_PE_signed ≠ 0 then readSLEB host ptr else readULEB host ptr
  | 0x02 => readExtended 2 enc ptr
  | 0x03 => readExtended 4 enc ptr
  | 0x04 => readExtended 8 enc ptr
  | 0x00 => readExtended 8 enc ptr
  | _ => some (0, ptr)

/-- `READ_ENCODED`. -/
def readEncoded (enc : BitVec 8) (isptr : Bool) (ptr : List (BitVec 8)) : Option (BitVec 64 × List (BitVec 8)) :=
  (readSized host enc ptr).map fun (var, rest) =>
    let var := if enc &&& DW_EH_PE_pcrel ≠ 0 ∧ isptr then var + m.address ptr else var
    (if enc &&& DW_EH_PE_indirect ≠ 0 then m.word var else var, rest)

/-- `SKIP_ENCODED`. -/
def skipEncoded (enc : BitVec 8) (ptr : List (BitVec 8)) : Option (List (BitVec 8)) :=
  match (enc &&& DW_EH_PE_SIZE_MASK).toNat with
  | 0x01 => skipLEB ptr
  | 0x02 => skip 2 ptr
  | 0x03 => skip 4 ptr
  | 0x04 => skip 8 ptr
  | 0x00 => skip 8 ptr
  | _ => some ptr

end Encoded

/-! ### CIEs -/

/-- The variables that a CIE sets. -/
structure Cie where
  aug_fields : BitVec 16
  lsda_encoding : BitVec 8
  fde_encoding : BitVec 8
  code_alignment_factor : BitVec 64
  data_alignment_factor : BitVec 64
  return_addr_reg : BitVec 64
  initCIEinstr : List (BitVec 8)
  endCIEinstr : List (BitVec 8)

/-- The loop over the augmentation string that sets the flags. -/
def augFields (aug_fields : BitVec 16) : List Char → BitVec 16
  | [] => aug_fields
  | 'e' :: 'h' :: aug_str => augFields (aug_fields ||| AUG_EHDATA) aug_str
  | c :: aug_str =>
    if aug_fields &&& AUG_AUGDATA ≠ 0 then
      match c with
      | 'L' => augFields (aug_fields ||| AUG_LSDA) aug_str
      | 'P' => augFields (aug_fields ||| AUG_PARG) aug_str
      | 'S' => augFields (aug_fields ||| AUG_SIGHDLER) aug_str
      | 'R' => augFields (aug_fields ||| AUG_FDEENC) aug_str
      | _ => aug_fields
    else aug_fields

/-- The loop over it that reads the augmentation data: the encodings of the LSDA and of the FDEs. -/
def augData (lsda_encoding fde_encoding : BitVec 8) (cie_aug_data : List (BitVec 8)) :
    List Char → Option (BitVec 8 × BitVec 8)
  | [] => some (lsda_encoding, fde_encoding)
  | 'e' :: 'h' :: _ => some (lsda_encoding, fde_encoding)
  | 'L' :: aug_str => do
    let (lsda_encoding, cie_aug_data) ← readUnsigned 1 cie_aug_data
    augData lsda_encoding fde_encoding cie_aug_data aug_str
  | 'P' :: aug_str => do
    let (pencoding, cie_aug_data) ← readUnsigned 1 cie_aug_data
    let cie_aug_data ← skipEncoded pencoding cie_aug_data
    augData lsda_encoding fde_encoding cie_aug_data aug_str
  | 'S' :: aug_str => augData lsda_encoding fde_encoding cie_aug_data aug_str
  | 'R' :: aug_str => do
    let (fde_encoding, cie_aug_data) ← readUnsigned 1 cie_aug_data
    augData lsda_encoding fde_encoding cie_aug_data aug_str
  | _ => some (lsda_encoding, fde_encoding)

section Records

variable (host : Shifts)

/-- A CIE behind its identifier; there is none if the version is not known. -/
def readCie (cur_addr next_addr : List (BitVec 8)) : Option (Option Cie) := do
  let (cie_version, cur_addr) ← readUnsigned 1 cur_addr
  if cie_version ≠ 1 ∧ cie_version ≠ 3 then return none
  let aug_bytes := cur_addr.takeWhile (· ≠ 0)
  let cur_addr ← skip (aug_bytes.length + 1) cur_addr
  let aug_str := aug_bytes.map fun byte => Char.ofNat byte.toNat
  let start := if aug_str.head? = some 'z' then AUG_AUGDATA else 0
  let aug_str := if start &&& AUG_AUGDATA ≠ 0 then aug_str.tail else aug_str
  let aug_fields := augFields start aug_str
  let (code_alignment_factor, cur_addr) ← readULEB host cur_addr
  let (data_alignment_factor, cur_addr) ← readSLEB host cur_addr
  let (return_addr_reg, cur_addr) ←
    if cie_version = 1 then (readUnsigned 1 cur_addr).map fun (r, ptr) => (BitVec.ofNat 64 r, ptr)
    else readULEB host cur_addr
  if aug_fields &&& AUG_AUGDATA ≠ 0 then
    let (cie_aug_data_len, cie_aug_data) ← readULEB host cur_addr
    let cur_addr := cie_aug_data.drop cie_aug_data_len.toNat
    let (lsda_encoding, fde_encoding) ← augData DW_EH_PE_omit DW_EH_PE_absptr cie_aug_data aug_str
    return some ⟨aug_fields, lsda_encoding, fde_encoding, code_alignment_factor, data_alignment_factor, return_addr_reg,
      cur_addr, next_addr⟩
  else
    return some ⟨aug_fields, DW_EH_PE_omit, DW_EH_PE_absptr, code_alignment_factor, data_alignment_factor,
      return_addr_reg, cur_addr, next_addr⟩

/-! ### FDEs -/

structure Fde where
  pc_begin : BitVec 64
  pc_range : BitVec 64
  cur_addr : List (BitVec 8)

/-- An FDE behind its CIE pointer, up to its instructions. -/
def readFde (m : Memory) (cie : Cie) (cur_addr : List (BitVec 8)) : Option Fde := do
  let (pc_begin, cur_addr) ← readEncoded host m cie.fde_encoding true cur_addr
  let (pc_range, cur_addr) ← readEncoded host m cie.fde_encoding false cur_addr
  let cur_addr ←
    if cie.aug_fields &&& AUG_AUGDATA ≠ 0 then
      (readULEB host cur_addr).map fun (aug_data_len, aug_data) => aug_data.drop aug_data_len.toNat
    else some cur_addr
  let cur_addr ← if cie.lsda_encoding ≠ DW_EH_PE_omit then skipEncoded cie.lsda_encoding cur_addr else some cur_addr
  return ⟨pc_begin, pc_range, cur_addr⟩

/-- What the rest of the function works with; of the initial instructions the bytes matter. -/
structure Found where
  pc_begin : BitVec 64
  pc_range : BitVec 64
  aug_fields : BitVec 16
  code_alignment_factor : BitVec 64
  data_alignment_factor : BitVec 64
  return_addr_reg : BitVec 64
  initial : List (BitVec 8)
  cur_addr : List (BitVec 8)
  next_addr : List (BitVec 8)
  deriving DecidableEq

def Fde.found (fde : Fde) (cie : Cie) (next_addr : List (BitVec 8)) : Found where
  pc_begin := fde.pc_begin
  pc_range := fde.pc_range
  aug_fields := cie.aug_fields
  code_alignment_factor := cie.code_alignment_factor
  data_alignment_factor := cie.data_alignment_factor
  return_addr_reg := cie.return_addr_reg
  initial := cie.initCIEinstr.take (cie.initCIEinstr.length - cie.endCIEinstr.length)
  cur_addr := fde.cur_addr
  next_addr := next_addr

/-- How the loop ends: with `*success = 0`, at an FDE without a CIE, which leaves `*success` alone, or at the FDE of the
address. -/
inductive Outcome
  | failure
  | unexpected
  | found (found : Found)
  deriving DecidableEq

/-! ### The loop -/

/-- A record: the pointers to its length, to its CIE identifier or pointer, behind that, and to the next record. -/
structure Record where
  start : List (BitVec 8)
  field : List (BitVec 8)
  cie_ptr : Nat
  cur_addr : List (BitVec 8)
  next_addr : List (BitVec 8)
  deriving DecidableEq

def readLength (len : Nat) (cur_addr : List (BitVec 8)) : Option (Nat × List (BitVec 8)) :=
  if len = 0xFFFFFFFF then readUnsigned 8 cur_addr else some (len, cur_addr)

/-- The length and the identifier; there is no record at the terminator. -/
def readRecord (start : List (BitVec 8)) : Option (Option Record) := do
  let (len, cur_addr) ← readUnsigned 4 start
  if len = 0 then return none
  let (len, field) ← readLength len cur_addr
  let (cie_ptr, cur_addr) ← readUnsigned 4 field
  return some ⟨start, field, cie_ptr, cur_addr, field.drop len⟩

theorem readUnsigned_shorter {n m : Nat} {ptr ptr' : List (BitVec 8)} (read : readUnsigned n ptr = some (m, ptr')) :
    ptr'.length + n = ptr.length := by
  rw [readUnsigned] at read
  split at read
  · cases read
    rw [List.length_drop]
    omega
  · cases read

theorem readRecord_shorter {start : List (BitVec 8)} {r : Record} (read : readRecord start = some (some r)) :
    r.next_addr.length < start.length := by
  obtain ⟨⟨len, cur_addr⟩, first, read⟩ := Option.bind_eq_some_iff.mp read
  have shorter := readUnsigned_shorter first
  dsimp only at read
  split at read
  · cases read
  · obtain ⟨⟨len', field⟩, second, read⟩ := Option.bind_eq_some_iff.mp read
    obtain ⟨⟨cie_ptr, rest⟩, -, read⟩ := Option.bind_eq_some_iff.mp read
    cases read
    have further : field.length ≤ cur_addr.length := by
      rw [readLength] at second
      split at second
      · exact readUnsigned_length second
      · cases second
        exact Nat.le_refl _
    change (field.drop len').length < start.length
    rw [List.length_drop]
    omega

variable (m : Memory) (addr : BitVec 64)

/-- `while (cur_addr < end_addr)`, where the end has `behind` bytes behind it. -/
def lookup (behind : Nat) (cie : Option Cie) (cur_addr : List (BitVec 8)) : Option Outcome :=
  if behind < cur_addr.length then
    match _read : readRecord cur_addr with
    | none => none
    | some none => some .failure
    | some (some r) =>
      if r.cie_ptr = 0 then
        match readCie host r.cur_addr r.next_addr with
        | none => none
        | some none => some .failure
        | some (some cie) => lookup behind (some cie) r.next_addr
      else
        match cie with
        | none => some .unexpected
        | some cie =>
          match readFde host m cie r.cur_addr with
          | none => none
          | some fde =>
            if fde.pc_begin ≤ addr ∧ addr < fde.pc_begin + fde.pc_range then some (.found (fde.found cie r.next_addr))
            else lookup behind (some cie) r.next_addr
  else some .failure
termination_by cur_addr.length
decreasing_by all_goals exact readRecord_shorter _read

end Records

end Box64.Elfs
