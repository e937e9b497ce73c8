import Box64.Emu.UpdateFlags

/-!
# Integer primitives

The primitives of `x64primop.h` and `x64primop.c`. Each family is one definition over the operand width, and
returns the value of the C function with the new state. A lazy primitive overwrites the pending operation, an
eager one resolves it (`CHECK_FLAGS`) or drops it (`RESET_FLAGS`) and writes the flags itself.
-/

namespace Box64.Emu

open BitVec

/-! ### Addition and subtraction -/

/-- The width of the `res` field a sum is kept in, one carry wider where there is such a field. -/
def Width.sum : Width → Width
  | .w8 => .w16
  | .w16 => .w32
  | .w32 => .w64
  | .w64 => .w64

theorem Width.le_sum (w : Width) : w.bits ≤ w.sum.bits := by cases w <;> decide

theorem Width.lt_sum {w : Width} (narrow : w ≠ .w64) : w.bits < w.sum.bits := by
  cases w
  case w64 => exact absurd rfl narrow
  all_goals decide

def add (w : Width) (emu : X64Emu) (d s : BitVec w.bits) : BitVec w.bits × X64Emu :=
  let emu := { emu with res := setLow emu.res (d.setWidth w.sum.bits + s.setWidth w.sum.bits) }
  let emu := { emu with op1 := setLow emu.op1 d, op2 := setLow emu.op2 s, df := .d_add w }
  (low w.bits emu.res, emu)

def sub (w : Width) (emu : X64Emu) (d s : BitVec w.bits) : BitVec w.bits × X64Emu :=
  let emu := { emu with res := setLow emu.res (d - s) }
  let emu := { emu with op1 := setLow emu.op1 d, op2 := setLow emu.op2 s, df := .d_sub w }
  (low w.bits emu.res, emu)

def neg (w : Width) (emu : X64Emu) (s : BitVec w.bits) : BitVec w.bits × X64Emu :=
  let emu := { emu with res := setLow emu.res (-s), op1 := setLow emu.op1 s, df := .d_neg w }
  (low w.bits emu.res, emu)

def dec (w : Width) (emu : X64Emu) (d : BitVec w.bits) : BitVec w.bits × X64Emu :=
  let emu := { emu with res := setLow emu.res (d - 1), op1 := setLow emu.op1 d, df := .d_dec w }
  (low w.bits emu.res, emu)

/-- What `inc32` and `inc64` do first ("workaround for some wine trickery"): the carry of a pending right shift
of their own width is stored. -/
def shrWorkaround (w : Width) (emu : X64Emu) : X64Emu :=
  if (w = .w32 ∨ w = .w64) ∧ emu.df = .d_shr w then
    let cnt := (low w.bits emu.op2).toNat
    if cnt > 0 then
      -- the host takes the shift modulo the width
      { emu with eflags := { emu.eflags with CF := (low w.bits emu.op1).getLsbD ((cnt - 1) % w.bits) } }
    else emu
  else emu

def inc (w : Width) (emu : X64Emu) (d : BitVec w.bits) : BitVec w.bits × X64Emu :=
  let emu := shrWorkaround w emu
  let emu := { emu with res := setLow emu.res (d + 1), op1 := setLow emu.op1 d, df := .d_inc w }
  (low w.bits emu.res, emu)

/-- `cmp8` to `cmp64`; what is kept of the wider `res` and `bc` of the narrow ones is below bit `w`. -/
def cmp (w : Width) (emu : X64Emu) (d s : BitVec w.bits) : BitVec w.bits × X64Emu :=
  let emu := RESET_FLAGS emu
  let res := d - s
  let bc := borrowChain d s res
  (d, { emu with eflags := setChain (setZSP { emu.eflags with CF := bc.msb } res) bc })

/-- The carry out of a sum: read above the operand where `res` is wider, from the two halves otherwise. -/
def adcCarry : (w : Width) → (d s : BitVec w.bits) → Bool → Bool
  | .w8, d, s, c => (setWidth 32 (ofBool c) + d.setWidth 32 + s.setWidth 32).getLsbD 8
  | .w16, d, s, c => (setWidth 32 (ofBool c) + d.setWidth 32 + s.setWidth 32).getLsbD 16
  | .w32, d, s, c => (hiSum 16 (loSum 16 c d s) d s).getLsbD 16
  | .w64, d, s, c => (hiSum 32 (loSum 32 c d s) d s).getLsbD 32

def adc (w : Width) (emu : X64Emu) (d s : BitVec w.bits) : BitVec w.bits × X64Emu :=
  let emu := CHECK_FLAGS emu
  let c := emu.eflags.CF
  let res := if c then 1 + d + s else d + s
  let cc := carryChain s d res
  (res, { emu with eflags := setChain (setZSP { emu.eflags with CF := adcCarry w d s c } res) cc })

def sbb (w : Width) (emu : X64Emu) (d s : BitVec w.bits) : BitVec w.bits × X64Emu :=
  let emu := CHECK_FLAGS emu
  let res := if emu.eflags.CF then d - s - 1 else d - s
  let bc := borrowChain d s res
  (res, { emu with eflags := setChain (setZSP { emu.eflags with CF := bc.msb } res) bc })

/-! ### Logic -/

def and (w : Width) (emu : X64Emu) (d s : BitVec w.bits) : BitVec w.bits × X64Emu :=
  let emu := { emu with res := setLow emu.res (d &&& s), df := .d_and w }
  (low w.bits emu.res, emu)

def or (w : Width) (emu : X64Emu) (d s : BitVec w.bits) : BitVec w.bits × X64Emu :=
  let emu := { emu with res := setLow emu.res (d ||| s), df := .d_or w }
  (low w.bits emu.res, emu)

def xor (w : Width) (emu : X64Emu) (d s : BitVec w.bits) : BitVec w.bits × X64Emu :=
  let emu := { emu with res := setLow emu.res (d ^^^ s), df := .d_xor w }
  (low w.bits emu.res, emu)

def not (w : Width) (emu : X64Emu) (s : BitVec w.bits) : BitVec w.bits × X64Emu := (~~~s, emu)

def test (w : Width) (emu : X64Emu) (d s : BitVec w.bits) : X64Emu :=
  let emu := RESET_FLAGS emu
  -- `AF` is left as it was
  { emu with eflags := setZSP { emu.eflags with OF := false, CF := false } (d &&& s) }

/-! ### Shifts -/

/-- The count of a shift or rotate, masked as the processor masks it. -/
def maskedCount (w : Width) (s : BitVec 8) : BitVec 8 := s &&& w.countMask

def shl (w : Width) (emu : X64Emu) (d : BitVec w.bits) (s : BitVec 8) : BitVec w.bits × X64Emu :=
  let s := maskedCount w s
  let emu := { emu with df := .d_shl w, op1 := setLow emu.op1 d, op2 := setLow emu.op2 (s.setWidth w.bits) }
  let emu := { emu with res := setLow emu.res (d <<< s.toNat) }
  (low w.bits emu.res, emu)

def shr (w : Width) (emu : X64Emu) (d : BitVec w.bits) (s : BitVec 8) : BitVec w.bits × X64Emu :=
  let s := maskedCount w s
  let emu := { emu with df := .d_shr w, op1 := setLow emu.op1 d, op2 := setLow emu.op2 (s.setWidth w.bits) }
  let emu := { emu with res := setLow emu.res (d >>> s.toNat) }
  (low w.bits emu.res, emu)

def sar (w : Width) (emu : X64Emu) (d : BitVec w.bits) (s : BitVec 8) : BitVec w.bits × X64Emu :=
  let s := maskedCount w s
  let emu := { emu with df := .d_sar w, op1 := setLow emu.op1 d, op2 := setLow emu.op2 (s.setWidth w.bits) }
  let emu := { emu with res := setLow emu.res (d.sshiftRight s.toNat) }
  (low w.bits emu.res, emu)

/-- `shld16`, `shld32` and `shld64`; only a 16-bit count can reach the width, which `shld16` treats apart. -/
def shld (w : Width) (emu : X64Emu) (d fill : BitVec w.bits) (s : BitVec 8) : BitVec w.bits × X64Emu :=
  let emu := RESET_FLAGS emu
  let s := (maskedCount w s).toNat
  let cnt := s % w.bits
  let f := emu.eflags
  if s < w.bits then
    let res := if cnt > 0 then (d <<< cnt) ||| (fill >>> (w.bits - cnt)) else d
    let f := if cnt > 0 then setZSP { f with CF := d.getLsbD (w.bits - cnt) } res else f
    (res, { emu with eflags := { f with OF := if cnt = 1 then res.msb ^^ f.CF else false } })
  else
    let res := (fill <<< cnt) ||| (d >>> (w.bits - cnt))
    let cf := if s = w.bits then d.getLsbD 0 else fill.getLsbD (w.bits - cnt)
    (res, { emu with eflags := { setZSP { f with CF := cf } res with OF := false } })

def shrd (w : Width) (emu : X64Emu) (d fill : BitVec w.bits) (s : BitVec 8) : BitVec w.bits × X64Emu :=
  let emu := RESET_FLAGS emu
  let s := (maskedCount w s).toNat
  let cnt := s % w.bits
  let f := emu.eflags
  if s < w.bits then
    let res := if cnt > 0 then (d >>> cnt) ||| (fill <<< (w.bits - cnt)) else d
    let f := if cnt > 0 then setZSP { f with CF := d.getLsbD (cnt - 1) } res else f
    (res, { emu with eflags := { f with OF := if cnt = 1 then XOR2 (res >>> (w.bits - 2)) else false } })
  else
    -- for a count of 16 the mask `1 << (cnt - 1)` shifts by -1, and no bit of the 16-bit `fill` is under it
    let cf := if cnt = 0 then false else fill.getLsbD (cnt - 1)
    let res := (fill >>> cnt) ||| (d <<< (w.bits - cnt))
    (res, { emu with eflags := { setZSP { f with CF := cf } res with OF := false } })

/-! ### Rotates -/

def rol (w : Width) (emu : X64Emu) (d : BitVec w.bits) (s : BitVec 8) : BitVec w.bits × X64Emu :=
  let s := (maskedCount w s).toNat
  if s = 0 then (d, emu) else
    let cnt := s % w.bits
    let d := if cnt ≠ 0 then (d <<< cnt) + ((d >>> (w.bits - cnt)) &&& lowMask w.bits cnt) else d
    let emu := CHECK_FLAGS emu
    let f := emu.eflags
    let f := if s = 1 then { f with OF := (d + (d >>> (w.bits - 1))).getLsbD 0 } else f
    (d, { emu with eflags := { f with CF := d.getLsbD 0 } })

def ror (w : Width) (emu : X64Emu) (d : BitVec w.bits) (s : BitVec 8) : BitVec w.bits × X64Emu :=
  let s := (maskedCount w s).toNat
  if s = 0 then (d, emu) else
    let cnt := s % w.bits
    let d := if cnt ≠ 0 then (d <<< (w.bits - cnt)) + ((d >>> cnt) &&& lowMask w.bits (w.bits - cnt)) else d
    let emu := CHECK_FLAGS emu
    let f := emu.eflags
    let f := if s = 1 then { f with OF := XOR2 (d >>> (w.bits - 2)) } else f
    (d, { emu with eflags := { f with CF := d.msb } })

def rcl (w : Width) (emu : X64Emu) (d : BitVec w.bits) (s : BitVec 8) : BitVec w.bits × X64Emu :=
  let emu := CHECK_FLAGS emu
  let s := (maskedCount w s).toNat
  let cnt := s % (w.bits + 1)
  if cnt ≠ 0 then
    let cf := (d >>> (w.bits - cnt)) &&& 1#w.bits
    let res := (d <<< cnt) ||| ((d >>> (w.bits + 1 - cnt)) &&& lowMask w.bits (cnt - 1))
    let res := if emu.eflags.CF then res ||| (1#w.bits <<< (cnt - 1)) else res
    let OF := cnt == 1 && XOR2 (cf + ((res >>> (w.bits - 2)) &&& 2#w.bits))
    (res, { emu with eflags := { emu.eflags with CF := cf != 0, OF } })
  else
    (d, emu)

def rcr (w : Width) (emu : X64Emu) (d : BitVec w.bits) (s : BitVec 8) : BitVec w.bits × X64Emu :=
  let emu := CHECK_FLAGS emu
  let s := (maskedCount w s).toNat
  let cnt := s % (w.bits + 1)
  if cnt ≠ 0 then
    let cf := if cnt = 1 then d &&& 1#w.bits else (d >>> (cnt - 1)) &&& 1#w.bits
    let ocf := if cnt = 1 then (ofBool emu.eflags.CF).setWidth w.bits else 0#w.bits
    let res := ((d >>> cnt) &&& lowMask w.bits (w.bits - cnt)) ||| (d <<< (w.bits + 1 - cnt))
    let res := if emu.eflags.CF then res ||| (1#w.bits <<< (w.bits - cnt)) else res
    let f := { emu.eflags with CF := cf != 0 }
    let f := if cnt = 1 then { f with OF := XOR2 (ocf + ((d >>> (w.bits - 2)) &&& 2#w.bits)) } else f
    (res, { emu with eflags := f })
  else
    (d, emu)

/-! ### Multiplication -/

/-- Leaves a double-width product behind: whole in `res` for the narrow forms, its high half in `op1` for the
others. -/
def setProduct (emu : X64Emu) : (w : Width) → BitVec (w.bits + w.bits) → X64Emu
  | .w8, p => { emu with res := setLow (n := 16) emu.res p }
  | .w16, p => { emu with res := setLow (n := 32) emu.res p }
  | .w32, p => { emu with res := setLow emu.res (p.setWidth 32), op1 := setLow emu.op1 (p.extractLsb' 32 32) }
  | .w64, p => { emu with res := p.setWidth 64, op1 := p.extractLsb' 64 64 }

/-- The one-operand forms put the product in `AX`, or in `DX:AX`, `EDX:EAX` or `RDX:RAX`. -/
def setAccumulator (emu : X64Emu) : (w : Width) → BitVec (w.bits + w.bits) → X64Emu
  | .w8, p => emu.setReg (n := 16) _RAX p
  | w, p => (emu.setReg _RAX (p.setWidth w.bits)).setReg _RDX (p.extractLsb' w.bits w.bits)

def mulProduct {n : Nat} (d s : BitVec n) : BitVec (n + n) := d.setWidth (n + n) * s.setWidth (n + n)

def imulProduct {n : Nat} (d s : BitVec n) : BitVec (n + n) := d.signExtend (n + n) * s.signExtend (n + n)

/-- `mul8`, `mul16`, `mul32_eax` and `mul64_rax`. -/
def mul (w : Width) (emu : X64Emu) (s : BitVec w.bits) : X64Emu :=
  let p := mulProduct (low w.bits (emu.regs _RAX)) s
  setProduct (setAccumulator { emu with df := .d_mul w } w p) w p

/-- `imul8`, `imul16_eax`, `imul32_eax` and `imul64_rax`. -/
def imulAcc (w : Width) (emu : X64Emu) (s : BitVec w.bits) : X64Emu :=
  let p := imulProduct (low w.bits (emu.regs _RAX)) s
  setProduct (setAccumulator { emu with df := .d_imul w } w p) w p

/-- `imul16`, `imul32` and `imul64`. -/
def imul (w : Width) (emu : X64Emu) (op1 op2 : BitVec w.bits) : BitVec w.bits × X64Emu :=
  let emu := setProduct { emu with df := .d_imul w } w (imulProduct op1 op2)
  (low w.bits emu.res, emu)

end Box64.Emu
