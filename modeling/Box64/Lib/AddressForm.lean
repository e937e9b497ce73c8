import Box64.Lib.RegisterFile
import Box64.Lib.WordMemory

/-!
# Memory operands of x86-64

What a ModRM byte and the SIB and displacement bytes behind it name: a base, a scaled index and a displacement, or a
displacement from the end of the instruction.
-/

inductive AddressBase where
  | none
  | reg (r : Fin 16)
  /-- The address of the next instruction. -/
  | ip
  deriving DecidableEq

structure AddressForm where
  base : AddressBase
  index : Option (Fin 16)
  scale : Nat
  /-- Extended from the one or four bytes it has in the code. -/
  disp : BitVec 64
  /-- The SIB and displacement bytes. -/
  length : Nat

namespace AddressForm

open BitVec Memory

/-! ### Decoding -/

/-- A register field and the bit of the prefix that extends it. -/
def regNumber (field : BitVec 8) (ext : Bool) : Fin 16 := Fin.ofNat 16 ((field &&& 7).toNat + if ext then 8 else 0)

def sibBytes (modrm : BitVec 8) : Nat := if modrm &&& 7 = 4 then 1 else 0

/-- Without a base register of its own, `mod` 0 has a displacement of four bytes. -/
def Baseless (modrm sib : BitVec 8) : Prop :=
  modrm &&& 0xC0 = 0 ∧ (modrm &&& 7 = 5 ∨ modrm &&& 7 = 4 ∧ sib &&& 7 = 5)

instance (modrm sib : BitVec 8) : Decidable (Baseless modrm sib) := inferInstanceAs (Decidable (_ ∧ _))

def dispBytes (modrm sib : BitVec 8) : Nat :=
  if Baseless modrm sib then 4
  else if modrm &&& 0xC0 = 0 then 0
  else if modrm &&& 0xC0 = 0x40 then 1
  else 4

def extendedDisp (code : Memory) (a : BitVec 64) (bytes : Nat) : BitVec 64 := (load (8 * bytes) code a).signExtend 64

theorem extendedDisp_four (code : Memory) (a : BitVec 64) :
    extendedDisp code a 4 = (load 32 code a).signExtend 64 := rfl

theorem extendedDisp_ne_intMin (code : Memory) (a : BitVec 64) {bytes : Nat} (le : bytes ≤ 4) :
    extendedDisp code a bytes ≠ intMin 64 := by
  intro least
  have top := congrArg (·.getLsbD 63) least
  have next := congrArg (·.getLsbD 62) least
  have high : ¬ 63 < 8 * bytes := by omega
  have high' : ¬ 62 < 8 * bytes := by omega
  rw [extendedDisp, getLsbD_signExtend] at top next
  simp only [high, high', if_false] at top next
  exact absurd (top.symm.trans next) (by decide)

def decodeBase (b : Bool) (modrm sib : BitVec 8) : AddressBase :=
  if Baseless modrm sib then if modrm &&& 7 = 5 then .ip else .none
  else if modrm &&& 7 = 4 then .reg (regNumber sib b)
  else .reg (regNumber modrm b)

def decodeIndex (x : Bool) (modrm sib : BitVec 8) : Option (Fin 16) :=
  if modrm &&& 7 = 4 ∧ regNumber (sib >>> 3) x ≠ 4 then some (regNumber (sib >>> 3) x) else none

/-- The operand of a ModRM byte whose `mod` is not 3, with the code behind it at `a`. -/
def decode (b x : Bool) (modrm : BitVec 8) (code : Memory) (a : BitVec 64) : AddressForm :=
  let sib := load 8 code a
  { base := decodeBase b modrm sib
    index := decodeIndex x modrm sib
    scale := if modrm &&& 7 = 4 then (sib >>> 6).toNat else 0
    disp := extendedDisp code (a + BitVec.ofNat 64 (sibBytes modrm)) (dispBytes modrm sib)
    length := sibBytes modrm + dispBytes modrm sib }

/-! ### The six shapes of an operand -/

section Shapes

variable {modrm : BitVec 8} (b x : Bool) (code : Memory) (a : BitVec 64)

theorem add_ofNat_zero (a : BitVec 64) : a + BitVec.ofNat 64 0 = a := BitVec.add_zero a

theorem not_ip {v : BitVec 8} (sib : v &&& 7 = 4) : v &&& 7 ≠ 5 := fun ip => by
  rw [sib] at ip
  exact absurd ip (by decide)

theorem decodeIndex_plain (sib : BitVec 8) (plain : modrm &&& 7 ≠ 4) : decodeIndex x modrm sib = none :=
  if_neg fun ⟨four, _⟩ => plain four

theorem decodeIndex_none {s : BitVec 8} (zero : regNumber (s >>> 3) x = 4) : decodeIndex x modrm s = none :=
  if_neg fun ⟨_, ne⟩ => ne zero

theorem decodeIndex_some {s : BitVec 8} (sib : modrm &&& 7 = 4) (ne : regNumber (s >>> 3) x ≠ 4) :
    decodeIndex x modrm s = some (regNumber (s >>> 3) x) := if_pos ⟨sib, ne⟩

theorem decode_baseless_sib (low : modrm &&& 0xC0 = 0) (sib : modrm &&& 7 = 4) (baseless : load 8 code a &&& 7 = 5) :
    decode b x modrm code a =
      { base := .none
        index := decodeIndex x modrm (load 8 code a)
        scale := (load 8 code a >>> 6).toNat
        disp := extendedDisp code (a + 1) 4
        length := 5 } := by
  have shape : Baseless modrm (load 8 code a) := ⟨low, .inr ⟨sib, baseless⟩⟩
  simp only [decode, decodeBase, dispBytes, sibBytes, if_pos shape, if_pos sib, if_neg (not_ip sib)]
  rfl

theorem decode_sib (low : modrm &&& 0xC0 = 0) (sib : modrm &&& 7 = 4) (based : load 8 code a &&& 7 ≠ 5) :
    decode b x modrm code a =
      { base := .reg (regNumber (load 8 code a) b)
        index := decodeIndex x modrm (load 8 code a)
        scale := (load 8 code a >>> 6).toNat
        disp := 0
        length := 1 } := by
  have shape : ¬ Baseless modrm (load 8 code a) := fun ⟨_, either⟩ =>
    either.elim (not_ip sib) fun ⟨_, baseless⟩ => based baseless
  simp only [decode, decodeBase, dispBytes, sibBytes, if_neg shape, if_pos sib, if_pos low]
  rfl

theorem decode_ip (low : modrm &&& 0xC0 = 0) (ip : modrm &&& 7 = 5) :
    decode b x modrm code a =
      { base := .ip
        index := none
        scale := 0
        disp := extendedDisp code a 4
        length := 4 } := by
  have shape : Baseless modrm (load 8 code a) := ⟨low, .inl ip⟩
  have plain : modrm &&& 7 ≠ 4 := fun sib => not_ip sib ip
  simp only [decode, decodeBase, decodeIndex_plain x _ plain, dispBytes, sibBytes, if_pos shape, if_pos ip, if_neg plain,
    add_ofNat_zero]

theorem decode_reg (low : modrm &&& 0xC0 = 0) (plain : modrm &&& 7 ≠ 4) (not_ip : modrm &&& 7 ≠ 5) :
    decode b x modrm code a =
      { base := .reg (regNumber modrm b)
        index := none
        scale := 0
        disp := 0
        length := 0 } := by
  have shape : ¬ Baseless modrm (load 8 code a) := fun ⟨_, either⟩ =>
    either.elim not_ip fun ⟨sib, _⟩ => plain sib
  simp only [decode, decodeBase, decodeIndex_plain x _ plain, dispBytes, sibBytes, if_neg shape, if_pos low, if_neg plain]
  rfl

/-- The bytes of displacement of `mod` 1 and 2. -/
def ownDispBytes (modrm : BitVec 8) : Nat := if modrm &&& 0xC0 = 0x40 then 1 else 4

theorem decode_sib_disp (high : modrm &&& 0xC0 ≠ 0) (sib : modrm &&& 7 = 4) :
    decode b x modrm code a =
      { base := .reg (regNumber (load 8 code a) b)
        index := decodeIndex x modrm (load 8 code a)
        scale := (load 8 code a >>> 6).toNat
        disp := extendedDisp code (a + 1) (ownDispBytes modrm)
        length := 1 + ownDispBytes modrm } := by
  have shape : ¬ Baseless modrm (load 8 code a) := fun baseless => high baseless.1
  simp only [decode, decodeBase, dispBytes, ownDispBytes, sibBytes, if_neg shape, if_pos sib, if_neg high]
  rfl

theorem decode_reg_disp (high : modrm &&& 0xC0 ≠ 0) (plain : modrm &&& 7 ≠ 4) :
    decode b x modrm code a =
      { base := .reg (regNumber modrm b)
        index := none
        scale := 0
        disp := extendedDisp code a (ownDispBytes modrm)
        length := ownDispBytes modrm } := by
  have shape : ¬ Baseless modrm (load 8 code a) := fun baseless => high baseless.1
  simp only [decode, decodeBase, decodeIndex_plain x _ plain, dispBytes, ownDispBytes, sibBytes, if_neg shape,
    if_neg plain, if_neg high, add_ofNat_zero, Nat.zero_add]

end Shapes

/-! ### The address -/

variable (f : AddressForm) (regs : Fin 16 → BitVec 64) (next : BitVec 64)

def baseValue : BitVec 64 :=
  match f.base with
  | .none => 0
  | .reg r => regs r
  | .ip => next

def indexValue : BitVec 64 :=
  match f.index with
  | some r => regs r
  | none => 0

/-- With the address of the next instruction. -/
def eval : BitVec 64 := f.baseValue regs next + (f.indexValue regs <<< f.scale) + f.disp

/-- Under the address-size prefix. -/
def eval32 : BitVec 32 := (f.eval regs next).setWidth 32

theorem eval_of_no_index (no : f.index = none) : f.eval regs next = f.baseValue regs next + f.disp := by
  have zero : f.indexValue regs = 0#64 := by
    rw [indexValue, no]
    rfl
  rw [eval, zero, BitVec.zero_shiftLeft, BitVec.add_zero]

theorem eval32_eq :
    f.eval32 regs next = (f.baseValue regs next).setWidth 32 + ((f.indexValue regs).setWidth 32 <<< f.scale) +
      f.disp.setWidth 32 := by
  rw [eval32, eval, BitVec.setWidth_add _ _ (by decide), BitVec.setWidth_add _ _ (by decide),
    BitVec.setWidth_shiftLeft_of_le (by decide)]

end AddressForm
