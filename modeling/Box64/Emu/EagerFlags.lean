import Box64.Emu.State
import Box64.Lib.CarryChain

/-!
# Eager flags

The flags as the x86 processor defines them after each integer instruction, stated over the numbers the
operands stand for. A flag the processor leaves undefined is `none`.
-/

namespace Box64.Emu

open BitVec CarryChain

structure EagerFlags where
  CF : Option Bool
  PF : Option Bool
  AF : Option Bool
  ZF : Option Bool
  SF : Option Bool
  OF : Option Bool

def EagerFlags.undefined : EagerFlags := ⟨none, none, none, none, none, none⟩

/-- The processor in a state where every flag has a value. -/
def X64Flags.toEager (f : X64Flags) : EagerFlags :=
  ⟨some f.CF, some f.PF, some f.AF, some f.ZF, some f.SF, some f.OF⟩

/-! ### Agreement -/

/-- `b` is the value of a flag, if it has one. -/
def Allows : Option Bool → Bool → Prop
  | none, _ => True
  | some v, b => b = v

instance (o : Option Bool) (b : Bool) : Decidable (Allows o b) := by
  cases o
  · exact instDecidableTrue
  · exact inferInstanceAs (Decidable (_ = _))

@[simp] theorem allows_none (b : Bool) : Allows none b := trivial

@[simp] theorem allows_some (v b : Bool) : Allows (some v) b ↔ b = v := Iff.rfl

/-- The stored flags show every flag the processor defines. -/
structure EagerFlags.Agrees (ref : EagerFlags) (f : X64Flags) : Prop where
  CF : Allows ref.CF f.CF
  PF : Allows ref.PF f.PF
  AF : Allows ref.AF f.AF
  ZF : Allows ref.ZF f.ZF
  SF : Allows ref.SF f.SF
  OF : Allows ref.OF f.OF

theorem EagerFlags.agrees_iff (ref : EagerFlags) (f : X64Flags) :
    ref.Agrees f ↔ Allows ref.CF f.CF ∧ Allows ref.PF f.PF ∧ Allows ref.AF f.AF ∧ Allows ref.ZF f.ZF ∧
      Allows ref.SF f.SF ∧ Allows ref.OF f.OF := by
  constructor
  · rintro ⟨cf, pf, af, zf, sf, off⟩
    exact ⟨cf, pf, af, zf, sf, off⟩
  · rintro ⟨cf, pf, af, zf, sf, off⟩
    exact ⟨cf, pf, af, zf, sf, off⟩

instance (ref : EagerFlags) (f : X64Flags) : Decidable (ref.Agrees f) :=
  decidable_of_iff _ (ref.agrees_iff f).symm

theorem X64Flags.toEager_agrees (f : X64Flags) : f.toEager.Agrees f := ⟨rfl, rfl, rfl, rfl, rfl, rfl⟩

/-! ### Flags that depend on an undefined carry -/

def meet (x y : Option Bool) : Option Bool := if x = y then x else none

/-- The flags of an instruction that reads `CF`: with an undefined carry, those that do not depend on it. -/
def withCarry (carry : Option Bool) (flags : Bool → EagerFlags) : EagerFlags :=
  match carry with
  | some c => flags c
  | none =>
    let f := flags false
    let t := flags true
    ⟨meet f.CF t.CF, meet f.PF t.PF, meet f.AF t.AF, meet f.ZF t.ZF, meet f.SF t.SF, meet f.OF t.OF⟩

theorem allows_meet {x y : Option Bool} {b : Bool} (either : Allows x b ∨ Allows y b) : Allows (meet x y) b := by
  rw [meet]
  split
  case isTrue same =>
    subst same
    exact either.elim id id
  case isFalse => trivial

theorem agrees_withCarry {carry : Option Bool} {flags : Bool → EagerFlags} {c : Bool} {f : X64Flags}
    (read : Allows carry c) (agrees : (flags c).Agrees f) : (withCarry carry flags).Agrees f := by
  cases carry with
  | some v =>
    obtain rfl : c = v := read
    exact agrees
  | none =>
    cases c with
    | false =>
      constructor <;> apply allows_meet <;> left
      exacts [agrees.CF, agrees.PF, agrees.AF, agrees.ZF, agrees.SF, agrees.OF]
    | true =>
      constructor <;> apply allows_meet <;> right
      exacts [agrees.CF, agrees.PF, agrees.AF, agrees.ZF, agrees.SF, agrees.OF]

/-! ### The flags of each instruction -/

/-- The number of ones is even. -/
def evenOnes (x : BitVec 8) : Bool := ((List.range 8).countP x.getLsbD) % 2 == 0

def EagerFlags.setResult {n : Nat} (ref : EagerFlags) (res : BitVec n) : EagerFlags :=
  { ref with ZF := some (res == 0), SF := some res.msb, PF := some (evenOnes (res.setWidth 8)) }

def eagerAdd {n : Nat} (ref : EagerFlags) (d s : BitVec n) (c : Bool) : EagerFlags :=
  { ref.setResult (addc d s c) with
    CF := some (decide (2 ^ n ≤ d.toNat + s.toNat + c.toNat))
    AF := some (decide (16 ≤ d.toNat % 16 + s.toNat % 16 + c.toNat))
    OF := some (decide (SignedOverflow n (d.toInt + s.toInt + c.toNat))) }

def eagerSub {n : Nat} (ref : EagerFlags) (d s : BitVec n) (c : Bool) : EagerFlags :=
  { ref.setResult (subb d s c) with
    CF := some (decide (d.toNat < s.toNat + c.toNat))
    AF := some (decide (d.toNat % 16 < s.toNat % 16 + c.toNat))
    OF := some (decide (SignedOverflow n (d.toInt - s.toInt - c.toNat))) }

def eagerInc {n : Nat} (ref : EagerFlags) (d : BitVec n) : EagerFlags :=
  { eagerAdd ref d 1 false with CF := ref.CF }

def eagerDec {n : Nat} (ref : EagerFlags) (d : BitVec n) : EagerFlags :=
  { eagerSub ref d 1 false with CF := ref.CF }

/-- `AND`, `OR`, `XOR` and `TEST`. -/
def eagerLogic {n : Nat} (ref : EagerFlags) (res : BitVec n) : EagerFlags :=
  { ref.setResult res with CF := some false, OF := some false, AF := none }

/-- `cnt` is the masked count of `SHL`: the last bit shifted out is the carry, lost from a count of the operand
size on, and `OF` is defined for a single shift. -/
def eagerShl {n : Nat} (ref : EagerFlags) (d : BitVec n) (cnt : Nat) : EagerFlags :=
  if cnt = 0 then ref else
    { ref.setResult (d <<< cnt) with
      CF := if cnt < n then some (d <<< (cnt - 1)).msb else none
      OF := if cnt = 1 then some ((d <<< cnt).msb ^^ d.msb) else none
      AF := none }

def eagerShr {n : Nat} (ref : EagerFlags) (d : BitVec n) (cnt : Nat) : EagerFlags :=
  if cnt = 0 then ref else
    { ref.setResult (d >>> cnt) with
      CF := if cnt < n then some ((d >>> (cnt - 1)).getLsbD 0) else none
      OF := if cnt = 1 then some d.msb else none
      AF := none }

/-- The carry of `SAR` stays defined: the sign goes on being shifted out. -/
def eagerSar {n : Nat} (ref : EagerFlags) (d : BitVec n) (cnt : Nat) : EagerFlags :=
  if cnt = 0 then ref else
    { ref.setResult (d.sshiftRight cnt) with
      CF := some ((d.sshiftRight (cnt - 1)).getLsbD 0)
      OF := if cnt = 1 then some false else none
      AF := none }

/-- `SHLD`: the operands shift left as one, `d` above `fill`. -/
def eagerShld {n : Nat} (ref : EagerFlags) (d fill : BitVec n) (cnt : Nat) : EagerFlags :=
  if cnt = 0 then ref else if n < cnt then EagerFlags.undefined else
    let res := ((d ++ fill) <<< cnt).extractLsb' n n
    { ref.setResult res with
      CF := some ((d <<< (cnt - 1)).msb)
      OF := if cnt = 1 then some (res.msb ^^ d.msb) else none
      AF := none }

/-- `SHRD`: the operands shift right as one, `fill` above `d`. -/
def eagerShrd {n : Nat} (ref : EagerFlags) (d fill : BitVec n) (cnt : Nat) : EagerFlags :=
  if cnt = 0 then ref else if n < cnt then EagerFlags.undefined else
    let res := ((fill ++ d) >>> cnt).setWidth n
    { ref.setResult res with
      CF := some ((d >>> (cnt - 1)).getLsbD 0)
      OF := if cnt = 1 then some (res.msb ^^ d.msb) else none
      AF := none }

/-- `ROL` leaves the bit rotated round in `CF`. -/
def eagerRol {n : Nat} (ref : EagerFlags) (d : BitVec n) (cnt : Nat) : EagerFlags :=
  if cnt = 0 then ref else
    let res := d.rotateLeft cnt
    { ref with
      CF := some (res.getLsbD 0)
      OF := if cnt = 1 then some (res.msb ^^ res.getLsbD 0) else none }

def eagerRor {n : Nat} (ref : EagerFlags) (d : BitVec n) (cnt : Nat) : EagerFlags :=
  if cnt = 0 then ref else
    let res := d.rotateRight cnt
    { ref with
      CF := some res.msb
      OF := if cnt = 1 then some (res.msb ^^ res.getLsbD (n - 2)) else none }

/-- `RCL` rotates the operand and the carry above it as one. -/
def eagerRcl {n : Nat} (ref : EagerFlags) (d : BitVec n) (cnt : Nat) : EagerFlags :=
  if cnt = 0 then ref else
    withCarry ref.CF fun c =>
      let res := (BitVec.cons c d).rotateLeft cnt
      { ref with
        CF := some res.msb
        OF := if cnt = 1 then some (res.msb ^^ res.getLsbD (n - 1)) else none }

def eagerRcr {n : Nat} (ref : EagerFlags) (d : BitVec n) (cnt : Nat) : EagerFlags :=
  if cnt = 0 then ref else
    withCarry ref.CF fun c =>
      let res := (BitVec.cons c d).rotateRight cnt
      { ref with
        CF := some res.msb
        OF := if cnt = 1 then some (d.msb ^^ c) else none }

/-- `MUL` and `IMUL` define whether the product needs its high half. -/
def eagerProduct (overflow : Bool) : EagerFlags :=
  { EagerFlags.undefined with CF := some overflow, OF := some overflow }

def eagerMul {n : Nat} (d s : BitVec n) : EagerFlags := eagerProduct (decide (2 ^ n ≤ d.toNat * s.toNat))

def eagerImul {n : Nat} (d s : BitVec n) : EagerFlags :=
  eagerProduct (decide (SignedOverflow n (d.toInt * s.toInt)))

end Box64.Emu
