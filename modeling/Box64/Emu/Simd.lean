import Box64.Emu.PackedShift

/-!
# SIMD instructions

What the SSE and MMX instructions of the interpreter are made of: loops over lanes that read `GX` and `EX` while `GX` is
being written, and the floating point of the host.
-/

namespace Box64.Emu

open Lanes

/-- The floating-point operations of one format. -/
structure FloatOps (w : Nat) where
  add : BitVec w → BitVec w → BitVec w
  sub : BitVec w → BitVec w → BitVec w
  mul : BitVec w → BitVec w → BitVec w
  div : BitVec w → BitVec w → BitVec w
  sqrt : BitVec w → BitVec w
  floor : BitVec w → BitVec w
  ceil : BitVec w → BitVec w
  isnan : BitVec w → Bool
  isinf : BitVec w → Bool
  eq : BitVec w → BitVec w → Bool
  isless : BitVec w → BitVec w → Bool
  islessequal : BitVec w → BitVec w → Bool
  isgreater : BitVec w → BitVec w → Bool
  isgreaterequal : BitVec w → BitVec w → Bool
  zero : BitVec w
  half : BitVec w
  one : BitVec w
  nan : BitVec w
  negNan : BitVec w
  /-- From an `int32_t`. -/
  ofInt : BitVec 32 → BitVec w
  /-- To an `int32_t`. -/
  toInt : BitVec w → BitVec 32
deriving Inhabited

/-- The host: its `float` and `double`, and whether it was built with `NOALIGN`. -/
structure Host where
  f : FloatOps 32
  d : FloatOps 64
  toDouble : BitVec 32 → BitVec 64
  toFloat : BitVec 64 → BitVec 32
  noalign : Bool
deriving Inhabited

/-- What an instruction sees besides its operands; `xmm0` is `none` where it is the destination. -/
structure Context where
  host : Host
  mxcsr : BitVec 32
  imm8 : BitVec 8
  xmm0 : Source 128

/-- `(mxcsr>>13)&3` -/
def Context.rounding (ctx : Context) : BitVec 32 := (ctx.mxcsr >>> 13) &&& 3

/-- A `case` of a map. `toE` where `E` is the destination and `G` the source; `body` makes the value of the destination
from the source and the value before. -/
structure SimdCase (n : Nat) where
  opcode : Nat
  toE : Bool
  body : Context → Source n → BitVec n → Option (BitVec n)

namespace SimdCase

def toG {n : Nat} (opcode : Nat) (f : Source n → BitVec n → BitVec n) : SimdCase n :=
  ⟨opcode, false, fun _ ex gx => some (f ex gx)⟩

def store {n : Nat} (opcode : Nat) (f : Source n → BitVec n → BitVec n) : SimdCase n :=
  ⟨opcode, true, fun _ gx ex => some (f gx ex)⟩

/-- An instruction that needs its immediate byte, the host or `mxcsr`. -/
def within {n : Nat} (opcode : Nat) (f : Context → Source n → BitVec n → BitVec n) : SimdCase n :=
  ⟨opcode, false, fun ctx ex gx => some (f ctx ex gx)⟩

def shift {n : Nat} (opcode : Nat) (f : Source n → BitVec n → Option (BitVec n)) : SimdCase n :=
  ⟨opcode, false, fun _ => f⟩

end SimdCase

/-! ### Loops -/

section Loops

variable {n w w' : Nat}

/-- `for (int i=0; i<m; ++i) GX->lane[i] = f(GX->lane[i], EX->lane[i]);` -/
def zipLanes (m : Nat) (f : BitVec w → BitVec w → BitVec w) (ex : Source n) (gx : BitVec n) : BitVec n :=
  eachLane m (fun gx i => f (lane w gx i) (lane w (ex.read gx) i)) gx

/-- `for (int i=0; i<m; ++i) GX->lane[i] = f(EX->lane[i]);` -/
def mapLanes (m : Nat) (f : BitVec w → BitVec w) : Source n → BitVec n → BitVec n := zipLanes m fun _ e => f e

/-- `for(int i=m-1; i>=0; --i) GX->wide[i] = f(EX->narrow[i]);` -/
def widenLanes (m : Nat) (f : BitVec w → BitVec w') (ex : Source n) (gx : BitVec n) : BitVec n :=
  eachLaneDown id m (fun gx i => f (lane w (ex.read gx) i)) gx

/-- `GX->lane[i] = EX->lane[k];` -/
def copyLane (w i k : Nat) (ex : Source n) (gx : BitVec n) : BitVec n := setLane gx i (lane w (ex.read gx) k)

/-- `GX->lane[i] = GX->lane[k];` -/
def moveLane (w i k : Nat) (gx : BitVec n) : BitVec n := setLane gx i (lane w gx k)

/-- The horizontal operations on `2*half` lanes. -/
def pairLanes (half : Nat) (op : BitVec w → BitVec w → BitVec w) (ex : Source n) (gx : BitVec n) : BitVec n :=
  let gx := eachLane half (fun gx i => op (lane w gx (i * 2)) (lane w gx (i * 2 + 1))) gx
  if ex.isNone then moveLane 64 1 0 gx
  else eachLaneAt (half + ·) half (fun gx i => op (lane w (ex.read gx) (i * 2)) (lane w (ex.read gx) (i * 2 + 1))) gx

/-- `PUNPCKL` of lanes of `w` bits, for `i` from `half-1` down to 1 and then for the odd lanes. -/
def unpackLow (w half : Nat) (ex : Source n) (gx : BitVec n) : BitVec n :=
  let gx := eachLaneDown (fun i => 2 * (i + 1)) (half - 1) (fun gx i => lane w gx (i + 1)) gx
  if ex.isNone then eachLaneAt (2 * · + 1) half (fun gx i => lane w gx (2 * i)) gx
  else eachLaneAt (2 * · + 1) half (fun gx i => lane w (ex.read gx) i) gx

def unpackHigh (w half : Nat) (ex : Source n) (gx : BitVec n) : BitVec n :=
  let gx := eachLaneAt (2 * ·) half (fun gx i => lane w gx (i + half)) gx
  if ex.isNone then eachLaneAt (2 * · + 1) half (fun gx i => lane w gx (2 * i)) gx
  else eachLaneAt (2 * · + 1) half (fun gx i => lane w (ex.read gx) (i + half)) gx

/-- The packs of `Run660F`. -/
def packLanes (half : Nat) (sat : BitVec w' → BitVec w) (ex : Source n) (gx : BitVec n) : BitVec n :=
  if ex.isNone then moveLane 64 1 0 (eachLane half (fun gx i => sat (lane w' (ex.read gx) i)) gx)
  else
    let gx := eachLane half (fun gx i => sat (lane w' gx i)) gx
    eachLaneAt (half + ·) half (fun gx i => sat (lane w' (ex.read gx) i)) gx

/-- The packs of `Run0F`. -/
def packLanesMmx (half : Nat) (sat : BitVec w' → BitVec w) (em : Source n) (gm : BitVec n) : BitVec n :=
  let gm := eachLane half (fun gm i => sat (lane w' gm i)) gm
  if em.isNone then moveLane 32 1 0 gm
  else eachLaneAt (half + ·) half (fun gm i => sat (lane w' (em.read gm) i)) gm

end Loops

/-! ### Lane operations -/

/-- `(x<lo)?lo:((x>hi)?hi:x)` -/
def clamp (lo hi x : Int) : Int := if x < lo then lo else if x > hi then hi else x

section LaneOps

variable {w : Nat} (g e : BitVec w)

def addSaturated : BitVec w := BitVec.ofInt w (clamp (-2 ^ (w - 1)) (2 ^ (w - 1) - 1) (g.toInt + e.toInt))

def subSaturated : BitVec w := BitVec.ofInt w (clamp (-2 ^ (w - 1)) (2 ^ (w - 1) - 1) (g.toInt - e.toInt))

/-- `(x>255)?255:x` -/
def addUnsignedSaturated : BitVec w := BitVec.ofNat w (min (g.toNat + e.toNat) (2 ^ w - 1))

/-- `(x<0)?0:x` -/
def subUnsignedSaturated : BitVec w := BitVec.ofNat w (g.toNat - e.toNat)

/-- `(GX>EX)?-1:0`, signed. -/
def greaterMask : BitVec w := if e.slt g then -1 else 0

def equalMask : BitVec w := if g = e then -1 else 0

/-- `if(GX>EX) GX = EX;`, signed. -/
def minSigned : BitVec w := if e.slt g then e else g

def maxSigned : BitVec w := if g.slt e then e else g

def minUnsigned : BitVec w := if e.ult g then e else g

def maxUnsigned : BitVec w := if g.ult e then e else g

/-- `(GX+EX+1)>>1` -/
def average : BitVec w := BitVec.ofNat w ((g.toNat + e.toNat + 1) / 2)

/-- `GX *= (EX<0)?-1:((EX>0)?1:0);` -/
def sign : BitVec w := g * (if e.slt 0 then -1 else if (0 : BitVec w).slt e then 1 else 0)

/-- `abs(EX)` -/
def absLane : BitVec w := BitVec.ofInt w |e.toInt|

/-- The upper half of the signed product. -/
def mulHigh : BitVec w := BitVec.ofInt w ((g.toInt * e.toInt) / 2 ^ w)

def mulHighUnsigned : BitVec w := BitVec.ofNat w ((g.toNat * e.toNat) / 2 ^ w)

/-- `PMULHRSW` -/
def mulRounded : BitVec w := BitVec.ofInt w ((g.toInt * e.toInt / 2 ^ 14 + 1) / 2)

/-- `PMADDUBSW` -/
def maddBytes (g e : BitVec 16) : BitVec 16 :=
  BitVec.ofInt 16 (clamp (-32768) 32767 ((lane 8 g 0).toNat * (lane 8 e 0).toInt + (lane 8 g 1).toNat * (lane 8 e 1).toInt))

/-- `PMADDWD` -/
def maddWords (g e : BitVec 32) : BitVec 32 :=
  BitVec.ofInt 32 ((lane 16 g 0).toInt * (lane 16 e 0).toInt + (lane 16 g 1).toInt * (lane 16 e 1).toInt)

/-- A signed lane packed into a signed one. -/
def packSigned (w' : Nat) (x : BitVec w) : BitVec w' := BitVec.ofInt w' (clamp (-2 ^ (w' - 1)) (2 ^ (w' - 1) - 1) x.toInt)

/-- A signed lane packed into an unsigned one. -/
def packUnsigned (w' : Nat) (x : BitVec w) : BitVec w' := BitVec.ofInt w' (clamp 0 (2 ^ w' - 1) x.toInt)

end LaneOps

/-- `PSADBW` of the 8 bytes from `i` on. -/
def sumOfDifferences {n : Nat} (g e : BitVec n) (i : Nat) : BitVec 64 :=
  (List.range 8).foldl (fun tmp32u k =>
    let x := (lane 8 g (i + k)).toNat
    let y := (lane 8 e (i + k)).toNat
    tmp32u + BitVec.ofNat 64 (if x > y then x - y else y - x)) 0

section FloatLanes

variable {w : Nat} (ops : FloatOps w)

/-- `if (isnan(GX) || isnan(EX) || isless(EX, GX)) GX = EX;` -/
def FloatOps.min (g e : BitVec w) : BitVec w := if ops.isnan g || ops.isnan e || ops.isless e g then e else g

def FloatOps.max (g e : BitVec w) : BitVec w := if ops.isnan g || ops.isnan e || ops.isgreater e g then e else g

/-- A float rounded to an `int32_t` by the mode of `mxcsr`. -/
def FloatOps.round (rounding : BitVec 32) (x : BitVec w) : BitVec 32 :=
  if rounding = 0 then ops.toInt (ops.floor (ops.add x ops.half))
  else if rounding = 1 then ops.toInt (ops.floor x)
  else if rounding = 2 then ops.toInt (ops.ceil x)
  else ops.toInt x

end FloatLanes

/-- `(test)?0xff:0`, of a lane. -/
def maskOf (w : Nat) (test : Bool) : BitVec w := if test then -1 else 0

/-- The shuffle of `m` lanes by two bits of the immediate each, from `EX` or from a copy of it. -/
def shuffleLanes {n : Nat} (w m : Nat) (ctx : Context) (ex : Source n) (gx : BitVec n) : BitVec n :=
  let pick (i : Nat) : Nat := ((ctx.imm8 >>> (i * 2)) &&& 3).toNat
  let ex : Source n := if ex.isNone then some gx else ex
  eachLane m (fun gx i => lane w (ex.read gx) (pick i)) gx

end Box64.Emu
