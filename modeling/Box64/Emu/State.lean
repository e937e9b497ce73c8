import Box64.Lib.RegisterFile

/-!
# Emulated processor state

The part of `x64emu_t` the integer primitives work on: the general registers, the arithmetic flags, and the
pending operation (`df`, `op1`, `op2`, `res`) from which `UpdateFlags` later computes them.
-/

namespace Box64.Emu

open BitVec

/-! ### Operand widths -/

inductive Width
  | w8
  | w16
  | w32
  | w64
  deriving DecidableEq

namespace Width

def bits : Width → Nat
  | w8 => 8
  | w16 => 16
  | w32 => 32
  | w64 => 64

/-- The mask the shifts and rotates put on their count. -/
def countMask : Width → BitVec 8
  | w64 => 0x3f
  | _ => 0x1f

theorem le_bits (w : Width) : 8 ≤ w.bits := by cases w <;> decide

theorem bits_le (w : Width) : w.bits ≤ 64 := by cases w <;> decide

theorem bits_pos (w : Width) : 0 < w.bits := by cases w <;> decide

theorem dvd_bits (w : Width) : 8 ∣ w.bits := by cases w <;> decide

end Width

/-! ### Partial reads and writes

`reg64_t` and `multiuint_t` are unions: a narrow field is the low part of the 64-bit cell, and writing it
leaves the rest.
-/

def low (n : Nat) (cell : BitVec 64) : BitVec n := cell.setWidth n

/-- The low bits of an entry that a wider write filled. -/
theorem low_of_low {n k : Nat} {cell : BitVec 64} {v : BitVec n} (le : k ≤ n) (eq : low n cell = v) :
    low k cell = v.setWidth k := by rw [← eq, low, low, setWidth_setWidth_of_le _ le]

def setLow {n : Nat} (cell : BitVec 64) (v : BitVec n) : BitVec 64 :=
  v.setWidth 64 ||| ((cell >>> n) <<< n)

theorem low_setLow_of_le {m n : Nat} (le : m ≤ n) (fits : n ≤ 64) (cell : BitVec 64) (v : BitVec n) :
    low m (setLow cell v) = v.setWidth m := by
  ext i lt
  have small : i < 64 := by omega
  have below : i < n := by omega
  simp [low, setLow, small, below]

@[simp] theorem low_setLow {n : Nat} (fits : n ≤ 64) (cell : BitVec 64) (v : BitVec n) :
    low n (setLow cell v) = v := by
  rw [low_setLow_of_le (Nat.le_refl n) fits, BitVec.setWidth_eq]

theorem setLow_low {n : Nat} (cell : BitVec 64) : setLow cell (low n cell) = cell := by
  apply eq_of_getLsbD_eq
  intro i lt
  rw [setLow, low, getLsbD_or, getLsbD_setWidth, getLsbD_setWidth, getLsbD_shiftLeft, getLsbD_ushiftRight]
  by_cases inside : i < n
  · simp [inside, lt]
  · simp [inside, lt, Nat.add_sub_cancel' (Nat.le_of_not_lt inside)]

/-- A partial write hides the one before it. -/
theorem setLow_setLow {n : Nat} (cell : BitVec 64) (u v : BitVec n) : setLow (setLow cell u) v = setLow cell v := by
  apply eq_of_getLsbD_eq
  intro i lt
  simp only [setLow, getLsbD_or, getLsbD_setWidth, getLsbD_shiftLeft, getLsbD_ushiftRight]
  by_cases inside : i < n
  · simp only [inside, decide_true, Bool.not_true, Bool.and_false, Bool.false_and]
  · have back : n + (i - n) = i := by omega
    have past : u.getLsbD i = false := getLsbD_of_ge u i (by omega)
    simp only [back, lt, inside, past, decide_true, decide_false, Bool.not_false, Bool.and_false, Bool.true_and,
      Bool.false_or]

theorem getLsbD_setLow {n i : Nat} (fits : n ≤ 64) (cell : BitVec 64) (v : BitVec n) (lt : i < n) :
    (setLow cell v).getLsbD i = v.getLsbD i := by
  have small : i < 64 := by omega
  simp [setLow, small, lt]

/-! ### Flags -/

/-- The arithmetic flags of `eflags`. -/
structure X64Flags where
  CF : Bool
  PF : Bool
  AF : Bool
  ZF : Bool
  SF : Bool
  OF : Bool
  deriving DecidableEq

/-- `defered_flags_t`; a constructor with a width stands for the constants of its family, `d_add w8` for
`d_add8` and so on. -/
inductive DeferedFlags
  | d_none
  | d_add (w : Width)
  | d_add32b
  | d_and (w : Width)
  | d_dec (w : Width)
  | d_inc (w : Width)
  | d_imul (w : Width)
  | d_or (w : Width)
  | d_mul (w : Width)
  | d_neg (w : Width)
  | d_shl (w : Width)
  | d_shr (w : Width)
  | d_sar (w : Width)
  | d_sub (w : Width)
  | d_xor (w : Width)
  | d_cmp (w : Width)
  | d_tst (w : Width)
  | d_adc (w : Width)
  | d_adc32b
  | d_sbb (w : Width)
  | d_rol (w : Width)
  | d_ror (w : Width)
  | d_rcl (w : Width)
  | d_rcr (w : Width)
  | d_unknown
  deriving DecidableEq

/-! ### The emulated processor -/

structure X64Emu where
  regs : Fin 16 → BitVec 64
  eflags : X64Flags
  df : DeferedFlags
  op1 : BitVec 64
  op2 : BitVec 64
  res : BitVec 64

def _RAX : Fin 16 := 0
def _RDX : Fin 16 := 2

/-- Writes the low `n` bits of a general register. -/
def X64Emu.setReg {n : Nat} (emu : X64Emu) (r : Fin 16) (v : BitVec n) : X64Emu :=
  { emu with regs := Function.update emu.regs r (setLow (emu.regs r) v) }

end Box64.Emu
