import Box64.Emu.State

/-!
# `UpdateFlags`

The flags a pending operation stands for, computed from the operands and the result it left behind.
-/

namespace Box64.Emu

open BitVec

/-! ### Bit tests -/

def x86emu_parity_tab : List (BitVec 32) :=
  [0x96696996, 0x69969669, 0x69969669, 0x96696996, 0x69969669, 0x96696996, 0x96696996, 0x69969669]

def PARITY (x : BitVec 8) : Bool :=
  (((x86emu_parity_tab.getD (x.toNat / 32) 0) >>> (x.toNat % 32)) &&& 1) == 0

def XOR2 {n : Nat} (x : BitVec n) : Bool := (x ^^^ (x >>> 1)).getLsbD 0

/-- `ZF`, `SF` and `PF` of a result. -/
def setZSP {n : Nat} (f : X64Flags) (res : BitVec n) : X64Flags :=
  { f with ZF := res == 0, SF := res.msb, PF := PARITY (res.setWidth 8) }

/-- The carry chain of a sum. -/
def carryChain {n : Nat} (op1 op2 res : BitVec n) : BitVec n := (op1 &&& op2) ||| (~~~res &&& (op1 ||| op2))

/-- The borrow chain of a difference. -/
def borrowChain {n : Nat} (op1 op2 res : BitVec n) : BitVec n := (res &&& (~~~op1 ||| op2)) ||| (~~~op1 &&& op2)

/-- `OF` and `AF` from a carry or borrow chain. -/
def setChain {n : Nat} (f : X64Flags) (chain : BitVec n) : X64Flags :=
  { f with OF := XOR2 (chain >>> (n - 2)), AF := chain.getLsbD 3 }

/-- `(1 << k) - 1`. -/
def lowMask (n k : Nat) : BitVec n := 1#n <<< k - 1#n

/-- The sum of the low `k` bits. -/
def loSum {n : Nat} (k : Nat) (c : Bool) (x y : BitVec n) : BitVec n :=
  setWidth n (ofBool c) + (x &&& lowMask n k) + (y &&& lowMask n k)

/-- The sum of the high parts and the carry out of the low `k` bits. -/
def hiSum {n : Nat} (k : Nat) (lo x y : BitVec n) : BitVec n := (lo >>> k) + (x >>> k) + (y >>> k)

/-! ### The pending operations -/

def addFlags (emu : X64Emu) (f : X64Flags) (w : Width) : X64Flags :=
  let op1 := low w.bits emu.op1
  let op2 := low w.bits emu.op2
  let res := low w.bits emu.res
  let CF :=
    if w = .w64 then (hiSum 32 (loSum 32 false emu.op2 emu.op1) emu.op2 emu.op1).getLsbD 32
    else emu.res.getLsbD w.bits
  setChain (setZSP { f with CF } res) (carryChain op1 op2 res)

/-- `d_add32b`, left by generated code only: the result has no 33rd bit to read the carry from. -/
def add32bFlags (emu : X64Emu) (f : X64Flags) : X64Flags :=
  let op1 := low 32 emu.op1
  let op2 := low 32 emu.op2
  let res := low 32 emu.res
  let CF := (hiSum 16 (loSum 16 false op2 op1) op2 op1).getLsbD 16
  setChain (setZSP { f with CF } res) (carryChain op1 op2 res)

def adcFlags (emu : X64Emu) (f : X64Flags) (w : Width) : X64Flags :=
  let op1 := low w.bits emu.op1
  let op2 := low w.bits emu.op2
  let res := low w.bits emu.res
  -- the carry into the 64-bit sum is guessed from the result, and bit 48 of its high halves is tested
  let lo := loSum 32 (emu.res != emu.op1 + emu.op2) emu.op1 emu.op2
  let CF := if w = .w64 then (hiSum 32 lo emu.op1 emu.op2).getLsbD 48 else emu.res.getLsbD w.bits
  setChain (setZSP { f with CF } res) (carryChain op1 op2 res)

def adc32bFlags (emu : X64Emu) (f : X64Flags) : X64Flags :=
  let op1 := low 32 emu.op1
  let op2 := low 32 emu.op2
  let res := low 32 emu.res
  let lo := loSum 16 (res != op1 + op2) op1 op2
  let CF := (hiSum 16 lo op1 op2).getLsbD 16
  setChain (setZSP { f with CF } res) (carryChain op1 op2 res)

/-- `d_sub`, `d_cmp` and `d_sbb` read the borrow from the chain. -/
def subFlags (emu : X64Emu) (f : X64Flags) (w : Width) : X64Flags :=
  let res := low w.bits emu.res
  let bc := borrowChain (low w.bits emu.op1) (low w.bits emu.op2) res
  setChain (setZSP { f with CF := bc.msb } res) bc

/-- `d_and`, `d_or` and `d_xor`. -/
def logicFlags (emu : X64Emu) (f : X64Flags) (w : Width) : X64Flags :=
  setZSP { f with OF := false, CF := false, AF := false } (low w.bits emu.res)

def tstFlags (emu : X64Emu) (f : X64Flags) (w : Width) : X64Flags :=
  setZSP { f with OF := false, CF := false } (low w.bits emu.res)

def decFlags (emu : X64Emu) (f : X64Flags) (w : Width) : X64Flags :=
  let op1 := low w.bits emu.op1
  let res := low w.bits emu.res
  setChain (setZSP f res) ((res &&& (~~~op1 ||| 1)) ||| (~~~op1 &&& 1))

def incFlags (emu : X64Emu) (f : X64Flags) (w : Width) : X64Flags :=
  let op1 := low w.bits emu.op1
  let res := low w.bits emu.res
  let cc :=
    if w = .w8 then ((1 &&& op1) ||| ~~~res) &&& (1 ||| op1)
    else (1 &&& op1) ||| (~~~res &&& (1 ||| op1))
  setChain (setZSP f res) cc

def negFlags (emu : X64Emu) (f : X64Flags) (w : Width) : X64Flags :=
  let op1 := low w.bits emu.op1
  let res := low w.bits emu.res
  setChain (setZSP { f with CF := op1 != 0 } res) (res ||| op1)

/-- The low and the high half of a product: the narrow forms keep it whole in `res`, the others keep the
high half in `op1`. -/
def halves (emu : X64Emu) : (w : Width) → BitVec w.bits × BitVec w.bits
  | .w8 => (low 8 emu.res, low 8 (emu.res >>> 8))
  | .w16 => (low 16 emu.res, low 16 (emu.res >>> 16))
  | .w32 => (low 32 emu.res, low 32 emu.op1)
  | .w64 => (emu.res, emu.op1)

def imulFlags (emu : X64Emu) (f : X64Flags) (w : Width) : X64Flags :=
  let (lo, hi) := halves emu w
  let fits := (!lo.msb && hi == 0) || (lo.msb && hi == allOnes w.bits)
  { f with CF := !fits, OF := !fits, PF := PARITY (lo.setWidth 8) }

def mulFlags (emu : X64Emu) (f : X64Flags) (w : Width) : X64Flags :=
  let (lo, hi) := halves emu w
  { f with CF := hi != 0, OF := hi != 0, PF := PARITY (lo.setWidth 8) }

def shlFlags (emu : X64Emu) (f : X64Flags) (w : Width) : X64Flags :=
  let op1 := low w.bits emu.op1
  let cnt := (low w.bits emu.op2).toNat
  let res := low w.bits emu.res
  if w = .w64 ∨ cnt < w.bits then
    let f := if cnt > 0 then setZSP { f with CF := op1.getLsbD (w.bits - cnt) } res else f
    { f with OF := if cnt = 1 then res.msb ^^ f.CF else false }
  else
    { f with CF := (op1 <<< (cnt - 1)).msb, OF := false, SF := false, PF := true, ZF := true }

def shrFlags (emu : X64Emu) (f : X64Flags) (w : Width) : X64Flags :=
  let op1 := low w.bits emu.op1
  let cnt := (low w.bits emu.op2).toNat
  let res := low w.bits emu.res
  if w = .w64 ∨ cnt < w.bits then
    let f := if cnt > 0 then setZSP { f with CF := op1.getLsbD (cnt - 1) } res else f
    if cnt = 1 then { f with OF := XOR2 (res >>> (w.bits - 2)) } else f
  else
    let CF := if w = .w8 then (op1 >>> (cnt - 1)).getLsbD 0 else false
    { f with CF, SF := false, PF := true, ZF := true }

def sarFlags (emu : X64Emu) (f : X64Flags) (w : Width) : X64Flags :=
  let op1 := low w.bits emu.op1
  let cnt := (low w.bits emu.op2).toNat
  if w = .w64 ∨ cnt < w.bits then
    if cnt > 0 then setZSP { f with CF := op1.getLsbD (cnt - 1) } (low w.bits emu.res) else f
  else if op1.msb then
    { f with CF := true, ZF := false, SF := true, PF := true }
  else
    { f with CF := false, ZF := true, SF := false, PF := true }

def rolFlags (emu : X64Emu) (f : X64Flags) (w : Width) : X64Flags :=
  let res := low w.bits emu.res
  let f := if low w.bits emu.op2 = 1 then { f with OF := (res + (res >>> (w.bits - 1))).getLsbD 0 } else f
  { f with CF := res.getLsbD 0 }

def rorFlags (emu : X64Emu) (f : X64Flags) (w : Width) : X64Flags :=
  let res := low w.bits emu.res
  let f := if low w.bits emu.op2 = 1 then { f with OF := XOR2 (res >>> (w.bits - 2)) } else f
  { f with CF := res.msb }

/-! ### `UpdateFlags` -/

/-- The flags after the `switch` of `UpdateFlags`. -/
def deferedFlags (emu : X64Emu) : X64Flags :=
  match emu.df with
  | .d_add w => addFlags emu emu.eflags w
  | .d_add32b => add32bFlags emu emu.eflags
  | .d_and w | .d_or w | .d_xor w => logicFlags emu emu.eflags w
  | .d_dec w => decFlags emu emu.eflags w
  | .d_inc w => incFlags emu emu.eflags w
  | .d_imul w => imulFlags emu emu.eflags w
  | .d_mul w => mulFlags emu emu.eflags w
  | .d_neg w => negFlags emu emu.eflags w
  | .d_shl w => shlFlags emu emu.eflags w
  | .d_shr w => shrFlags emu emu.eflags w
  | .d_sar w => sarFlags emu emu.eflags w
  | .d_sub w | .d_cmp w | .d_sbb w => subFlags emu emu.eflags w
  | .d_tst w => tstFlags emu emu.eflags w
  | .d_adc w => adcFlags emu emu.eflags w
  | .d_adc32b => adc32bFlags emu emu.eflags
  | .d_rol w => rolFlags emu emu.eflags w
  | .d_ror w => rorFlags emu emu.eflags w
  -- nothing can be computed for these: the flags stay as they were
  | .d_none | .d_rcl _ | .d_rcr _ | .d_unknown => emu.eflags

def updateFlags (emu : X64Emu) : X64Emu := { emu with eflags := deferedFlags emu, df := .d_none }

def CHECK_FLAGS (emu : X64Emu) : X64Emu := if emu.df ≠ .d_none then updateFlags emu else emu

def RESET_FLAGS (emu : X64Emu) : X64Emu := { emu with df := .d_none }

theorem updateFlags_of_none {emu : X64Emu} (none : emu.df = .d_none) : updateFlags emu = emu := by
  obtain ⟨regs, eflags, df, op1, op2, res⟩ := emu
  subst none
  rfl

theorem CHECK_FLAGS_eq (emu : X64Emu) : CHECK_FLAGS emu = updateFlags emu := by
  rw [CHECK_FLAGS]
  split
  case isTrue => rfl
  case isFalse none => exact (updateFlags_of_none (not_not.mp none)).symm

end Box64.Emu
