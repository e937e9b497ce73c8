import Box64.Emu.Simd

/-!
# SIMD instructions with 66 0F

The instructions of `Run660F` from one SSE register to another.
-/

namespace Box64.Emu.Run660F

open Lanes

/-! ### AES -/

/-- `ff_mult(a, b)`, the last `n` rounds. -/
def ffMultRounds : Nat → BitVec 8 → BitVec 8 → BitVec 8 → BitVec 8
  | 0, retval, _, _ => retval
  | n + 1, retval, a, b =>
    let retval := if b &&& 1 = 1 then retval ^^^ a else retval
    let a := if a &&& 0x80 ≠ 0 then (a <<< 1) ^^^ 0x1b else a <<< 1
    ffMultRounds n retval a (b >>> 1)

def ffMult (a b : BitVec 8) : BitVec 8 := ffMultRounds 8 0 a b

def shiftrows : List Nat :=
  [0, 5, 10, 15, 4, 9, 14, 3, 8, 13, 2, 7, 12, 1, 6, 11]

def invshiftrows : List Nat :=
  [0, 13, 10, 7, 4, 1, 14, 11, 8, 5, 2, 15, 12, 9, 6, 3]

def subbytes : List (BitVec 8) :=
  [0x63, 0x7c, 0x77, 0x7b, 0xf2, 0x6b, 0x6f, 0xc5, 0x30, 0x01, 0x67, 0x2b, 0xfe, 0xd7, 0xab, 0x76,
    0xca, 0x82, 0xc9, 0x7d, 0xfa, 0x59, 0x47, 0xf0, 0xad, 0xd4, 0xa2, 0xaf, 0x9c, 0xa4, 0x72, 0xc0,
    0xb7, 0xfd, 0x93, 0x26, 0x36, 0x3f, 0xf7, 0xcc, 0x34, 0xa5, 0xe5, 0xf1, 0x71, 0xd8, 0x31, 0x15,
    0x04, 0xc7, 0x23, 0xc3, 0x18, 0x96, 0x05, 0x9a, 0x07, 0x12, 0x80, 0xe2, 0xeb, 0x27, 0xb2, 0x75,
    0x09, 0x83, 0x2c, 0x1a, 0x1b, 0x6e, 0x5a, 0xa0, 0x52, 0x3b, 0xd6, 0xb3, 0x29, 0xe3, 0x2f, 0x84,
    0x53, 0xd1, 0x00, 0xed, 0x20, 0xfc, 0xb1, 0x5b, 0x6a, 0xcb, 0xbe, 0x39, 0x4a, 0x4c, 0x58, 0xcf,
    0xd0, 0xef, 0xaa, 0xfb, 0x43, 0x4d, 0x33, 0x85, 0x45, 0xf9, 0x02, 0x7f, 0x50, 0x3c, 0x9f, 0xa8,
    0x51, 0xa3, 0x40, 0x8f, 0x92, 0x9d, 0x38, 0xf5, 0xbc, 0xb6, 0xda, 0x21, 0x10, 0xff, 0xf3, 0xd2,
    0xcd, 0x0c, 0x13, 0xec, 0x5f, 0x97, 0x44, 0x17, 0xc4, 0xa7, 0x7e, 0x3d, 0x64, 0x5d, 0x19, 0x73,
    0x60, 0x81, 0x4f, 0xdc, 0x22, 0x2a, 0x90, 0x88, 0x46, 0xee, 0xb8, 0x14, 0xde, 0x5e, 0x0b, 0xdb,
    0xe0, 0x32, 0x3a, 0x0a, 0x49, 0x06, 0x24, 0x5c, 0xc2, 0xd3, 0xac, 0x62, 0x91, 0x95, 0xe4, 0x79,
    0xe7, 0xc8, 0x37, 0x6d, 0x8d, 0xd5, 0x4e, 0xa9, 0x6c, 0x56, 0xf4, 0xea, 0x65, 0x7a, 0xae, 0x08,
    0xba, 0x78, 0x25, 0x2e, 0x1c, 0xa6, 0xb4, 0xc6, 0xe8, 0xdd, 0x74, 0x1f, 0x4b, 0xbd, 0x8b, 0x8a,
    0x70, 0x3e, 0xb5, 0x66, 0x48, 0x03, 0xf6, 0x0e, 0x61, 0x35, 0x57, 0xb9, 0x86, 0xc1, 0x1d, 0x9e,
    0xe1, 0xf8, 0x98, 0x11, 0x69, 0xd9, 0x8e, 0x94, 0x9b, 0x1e, 0x87, 0xe9, 0xce, 0x55, 0x28, 0xdf,
    0x8c, 0xa1, 0x89, 0x0d, 0xbf, 0xe6, 0x42, 0x68, 0x41, 0x99, 0x2d, 0x0f, 0xb0, 0x54, 0xbb, 0x16]

def invsubbytes : List (BitVec 8) :=
  [0x52, 0x09, 0x6a, 0xd5, 0x30, 0x36, 0xa5, 0x38, 0xbf, 0x40, 0xa3, 0x9e, 0x81, 0xf3, 0xd7, 0xfb,
    0x7c, 0xe3, 0x39, 0x82, 0x9b, 0x2f, 0xff, 0x87, 0x34, 0x8e, 0x43, 0x44, 0xc4, 0xde, 0xe9, 0xcb,
    0x54, 0x7b, 0x94, 0x32, 0xa6, 0xc2, 0x23, 0x3d, 0xee, 0x4c, 0x95, 0x0b, 0x42, 0xfa, 0xc3, 0x4e,
    0x08, 0x2e, 0xa1, 0x66, 0x28, 0xd9, 0x24, 0xb2, 0x76, 0x5b, 0xa2, 0x49, 0x6d, 0x8b, 0xd1, 0x25,
    0x72, 0xf8, 0xf6, 0x64, 0x86, 0x68, 0x98, 0x16, 0xd4, 0xa4, 0x5c, 0xcc, 0x5d, 0x65, 0xb6, 0x92,
    0x6c, 0x70, 0x48, 0x50, 0xfd, 0xed, 0xb9, 0xda, 0x5e, 0x15, 0x46, 0x57, 0xa7, 0x8d, 0x9d, 0x84,
    0x90, 0xd8, 0xab, 0x00, 0x8c, 0xbc, 0xd3, 0x0a, 0xf7, 0xe4, 0x58, 0x05, 0xb8, 0xb3, 0x45, 0x06,
    0xd0, 0x2c, 0x1e, 0x8f, 0xca, 0x3f, 0x0f, 0x02, 0xc1, 0xaf, 0xbd, 0x03, 0x01, 0x13, 0x8a, 0x6b,
    0x3a, 0x91, 0x11, 0x41, 0x4f, 0x67, 0xdc, 0xea, 0x97, 0xf2, 0xcf, 0xce, 0xf0, 0xb4, 0xe6, 0x73,
    0x96, 0xac, 0x74, 0x22, 0xe7, 0xad, 0x35, 0x85, 0xe2, 0xf9, 0x37, 0xe8, 0x1c, 0x75, 0xdf, 0x6e,
    0x47, 0xf1, 0x1a, 0x71, 0x1d, 0x29, 0xc5, 0x89, 0x6f, 0xb7, 0x62, 0x0e, 0xaa, 0x18, 0xbe, 0x1b,
    0xfc, 0x56, 0x3e, 0x4b, 0xc6, 0xd2, 0x79, 0x20, 0x9a, 0xdb, 0xc0, 0xfe, 0x78, 0xcd, 0x5a, 0xf4,
    0x1f, 0xdd, 0xa8, 0x33, 0x88, 0x07, 0xc7, 0x31, 0xb1, 0x12, 0x10, 0x59, 0x27, 0x80, 0xec, 0x5f,
    0x60, 0x51, 0x7f, 0xa9, 0x19, 0xb5, 0x4a, 0x0d, 0x2d, 0xe5, 0x7a, 0x9f, 0x93, 0xc9, 0x9c, 0xef,
    0xa0, 0xe0, 0x3b, 0x4d, 0xae, 0x2a, 0xf5, 0xb0, 0xc8, 0xeb, 0xbb, 0x3c, 0x83, 0x53, 0x99, 0x61,
    0x17, 0x2b, 0x04, 0x7e, 0xba, 0x77, 0xd6, 0x26, 0xe1, 0x69, 0x14, 0x63, 0x55, 0x21, 0x0c, 0x7d]

/-- `subbytes[x]` -/
def look (table : List (BitVec 8)) (x : BitVec 8) : BitVec 8 := table.getD x.toNat 0

/-- `for(int i=0; i<16; ++i) eax1.ub[i] = GX->ub[rows[i]];` -/
def permute (rows : List Nat) (gx : BitVec 128) : BitVec 128 := eachLane 16 (fun _ i => lane 8 gx (rows.getD i 0)) 0

/-- `for(int i=0; i<16; ++i) eax1.ub[i] = table[eax1.ub[i]];` -/
def substitute (table : List (BitVec 8)) (eax1 : BitVec 128) : BitVec 128 :=
  eachLane 16 (fun eax1 i => look table (lane 8 eax1 i)) eax1

/-- Byte `i` of the product of the columns with a circulant matrix. -/
def mixByte (m0 m1 m2 m3 : BitVec 8 → BitVec 8) (eax1 : BitVec 128) (i : Nat) : BitVec 8 :=
  let byte (k : Nat) : BitVec 8 := lane 8 eax1 (i / 4 * 4 + (i + k) % 4)
  m0 (byte 0) ^^^ m1 (byte 1) ^^^ m2 (byte 2) ^^^ m3 (byte 3)

def mixColumns (eax1 gx : BitVec 128) : BitVec 128 :=
  eachLane 16 (fun _ => mixByte (ffMult 0x02) (ffMult 0x03) id id eax1) gx

def invMixColumns (eax1 gx : BitVec 128) : BitVec 128 :=
  eachLane 16 (fun _ => mixByte (ffMult 0x0E) (ffMult 0x0B) (ffMult 0x0D) (ffMult 0x09) eax1) gx

def AESIMC (ex : Source 128) (gx : BitVec 128) : BitVec 128 :=
  if ex.isNone then
    let eax1 := eachLane 16 (fun _ i => lane 8 (ex.read gx) i) 0
    invMixColumns eax1 gx
  else eachLane 16 (fun gx => mixByte (ffMult 0x0E) (ffMult 0x0B) (ffMult 0x0D) (ffMult 0x09) (ex.read gx)) gx

/-- What `AESENC` leaves in `GX` before the round key is added. -/
def aesencState (gx : BitVec 128) : BitVec 128 := mixColumns (substitute subbytes (permute shiftrows gx)) gx

def aesenclastState (gx : BitVec 128) : BitVec 128 :=
  let eax1 := permute shiftrows gx
  eachLane 16 (fun _ i => look subbytes (lane 8 eax1 i)) gx

def aesdecState (gx : BitVec 128) : BitVec 128 := invMixColumns (substitute invsubbytes (permute invshiftrows gx)) gx

def aesdeclastState (gx : BitVec 128) : BitVec 128 :=
  let eax1 := permute invshiftrows gx
  eachLane 16 (fun _ i => look invsubbytes (lane 8 eax1 i)) gx

/-- `GX->q[0] ^= EX->q[0]; GX->q[1] ^= EX->q[1];` -/
def xorKey : Source 128 → BitVec 128 → BitVec 128 := zipLanes 2 fun g e : BitVec 64 => g ^^^ e

def AESENC (ex : Source 128) (gx : BitVec 128) : BitVec 128 := xorKey ex (aesencState gx)

def AESENCLAST (ex : Source 128) (gx : BitVec 128) : BitVec 128 := xorKey ex (aesenclastState gx)

def AESDEC (ex : Source 128) (gx : BitVec 128) : BitVec 128 := xorKey ex (aesdecState gx)

def AESDECLAST (ex : Source 128) (gx : BitVec 128) : BitVec 128 := xorKey ex (aesdeclastState gx)

def AESKEYGENASSIST (ctx : Context) (ex : Source 128) (gx : BitVec 128) : BitVec 128 :=
  let tmp32u : BitVec 32 := ctx.imm8.setWidth 32
  let gx := eachLaneAt (4 + ·) 4 (fun gx i => look subbytes (lane 8 (ex.read gx) (4 + i))) gx
  let gx := eachLaneAt (12 + ·) 4 (fun gx i => look subbytes (lane 8 (ex.read gx) (12 + i))) gx
  let gx := moveLane 32 0 1 gx
  let tmp8u := lane 8 gx 4
  let gx := setLane gx 1 (lane 32 gx 1 >>> 8)
  let gx := setLane gx 7 tmp8u
  let gx := setLane gx 1 (lane 32 gx 1 ^^^ tmp32u)
  let gx := moveLane 32 2 3 gx
  let tmp8u := lane 8 gx 12
  let gx := setLane gx 3 (lane 32 gx 3 >>> 8)
  let gx := setLane gx 15 tmp8u
  setLane gx 3 (lane 32 gx 3 ^^^ tmp32u)

/-! ### Shuffles and horizontal operations -/

/-- `memcpy(GX, EX, 16)` -/
def copy (ex : Source 128) (gx : BitVec 128) : BitVec 128 := ex.read gx

/-- `GX->q[0] = EX->q[0]; GX->q[1] = EX->q[1];` -/
def copyHalves (ex : Source 128) (gx : BitVec 128) : BitVec 128 := copyLane 64 1 1 ex (copyLane 64 0 0 ex gx)

/-- `UNPCKHPD`, `PUNPCKHQDQ` -/
def unpackHighHalf (ex : Source 128) (gx : BitVec 128) : BitVec 128 := copyLane 64 1 1 ex (moveLane 64 0 1 gx)

def PSHUFB (ex : Source 128) (gx : BitVec 128) : BitVec 128 :=
  let eax1 := gx
  eachLane 16 (fun gx i =>
    if lane 8 (ex.read gx) i &&& 128 ≠ 0 then 0 else lane 8 eax1 (lane 8 (ex.read gx) i &&& 15).toNat) gx

def PHADDD (ex : Source 128) (gx : BitVec 128) : BitVec 128 :=
  let gx := setLane gx 0 (lane 32 gx 0 + lane 32 gx 1)
  let gx := setLane gx 1 (lane 32 gx 2 + lane 32 gx 3)
  if ex.isNone then moveLane 64 1 0 gx
  else
    let gx := setLane gx 2 (lane 32 (ex.read gx) 0 + lane 32 (ex.read gx) 1)
    setLane gx 3 (lane 32 (ex.read gx) 2 + lane 32 (ex.read gx) 3)

def BLENDVPS (ctx : Context) (ex : Source 128) (gx : BitVec 128) : BitVec 128 :=
  eachLane 4 (fun gx i =>
    if lane 32 (ctx.xmm0.read gx) i &&& 0x80000000 ≠ 0 then lane 32 (ex.read gx) i else lane 32 gx i) gx

/-- `ROUNDSS`, `ROUNDSD`: `round` is applied to the mode. -/
def roundScalar {w : Nat} (round : BitVec 32 → BitVec w → BitVec w) (ctx : Context) : Source 128 → BitVec 128 → BitVec 128 :=
  let tmp8u := if ctx.imm8 &&& 4 ≠ 0 then ctx.rounding else ctx.imm8.setWidth 32 &&& 3
  mapLanes 1 (round tmp8u)

/-- `GX->f[0] = floor(EX->f[0]+0.5);` and the other modes, in `double`. -/
def roundss (host : Host) (mode x : BitVec 32) : BitVec 32 :=
  let d := host.d
  let x' := host.toDouble x
  if mode = 0 then host.toFloat (d.floor (d.add x' d.half))
  else if mode = 1 then host.toFloat (d.floor x')
  else if mode = 2 then host.toFloat (d.ceil x')
  else x

def roundsd (host : Host) (mode : BitVec 32) (x : BitVec 64) : BitVec 64 :=
  let d := host.d
  if mode = 0 then d.floor (d.add x d.half) else if mode = 1 then d.floor x else if mode = 2 then d.ceil x else x

def PBLENDW (ctx : Context) (ex : Source 128) (gx : BitVec 128) : BitVec 128 :=
  eachLane 8 (fun gx i => if ctx.imm8.getLsbD i then lane 16 (ex.read gx) i else lane 16 gx i) gx

def INSERTPS (ctx : Context) (ex : Source 128) (gx : BitVec 128) : BitVec 128 :=
  let tmp8s := ((ctx.imm8 >>> 6) &&& 3).toNat
  let gx := copyLane 32 ((ctx.imm8 >>> 4) &&& 3).toNat tmp8s ex gx
  eachLane 4 (fun gx i => if ctx.imm8.getLsbD i then (0 : BitVec 32) else lane 32 gx i) gx

def DPPS (ctx : Context) (ex : Source 128) (gx : BitVec 128) : BitVec 128 :=
  let f := ctx.host.f
  let tmpf := (List.range 4).foldl (fun tmpf i =>
    if ctx.imm8.getLsbD (i + 4) then f.add tmpf (f.mul (lane 32 gx i) (lane 32 (ex.read gx) i)) else tmpf) f.zero
  eachLane 4 (fun _ i => if ctx.imm8.getLsbD i then tmpf else f.zero) gx

/-- `PUNPCKLDQ`, and `UNPCKLPS` of `Run0F`. -/
def PUNPCKLDQ (ex : Source 128) (gx : BitVec 128) : BitVec 128 :=
  copyLane 32 1 0 ex (moveLane 32 2 1 (copyLane 32 3 1 ex gx))

/-- `PUNPCKHDQ`, and `UNPCKHPS` of `Run0F`. -/
def PUNPCKHDQ (ex : Source 128) (gx : BitVec 128) : BitVec 128 :=
  copyLane 32 3 3 ex (moveLane 32 2 3 (copyLane 32 1 2 ex (moveLane 32 0 2 gx)))

def HADDPD (ctx : Context) (ex : Source 128) (gx : BitVec 128) : BitVec 128 :=
  let d := ctx.host.d
  let sum (x y : BitVec 64) : BitVec 64 :=
    if !ctx.host.noalign && !(d.isnan x || d.isnan y) && d.isnan (d.add x y) then d.negNan else d.add x y
  let gx := setLane gx 0 (sum (lane 64 gx 0) (lane 64 gx 1))
  if ex.isNone then moveLane 64 1 0 gx else setLane gx 1 (sum (lane 64 (ex.read gx) 0) (lane 64 (ex.read gx) 1))

def SHUFPD (ctx : Context) (ex : Source 128) (gx : BitVec 128) : BitVec 128 :=
  let tmp8u := ctx.imm8
  let q0 := lane 64 gx (tmp8u &&& 1).toNat
  let q1 := lane 64 (ex.read gx) ((tmp8u >>> 1) &&& 1).toNat
  setLane (setLane gx 0 q0) 1 q1

/-- `GX->f[0] = EX->d[0]; GX->f[1] = EX->d[1]; GX->q[1] = 0;` and `CVTTPD2DQ`, which is alike. -/
def narrowDoubles (narrow : BitVec 64 → BitVec 32) (ex : Source 128) (gx : BitVec 128) : BitVec 128 :=
  let gx := eachLane 2 (fun gx i => narrow (lane 64 (ex.read gx) i)) gx
  setLane gx 1 (0 : BitVec 64)

def PMULUDQ (ex : Source 128) (gx : BitVec 128) : BitVec 128 :=
  let product (gx : BitVec 128) (i : Nat) : BitVec 64 := (lane 32 (ex.read gx) i).setWidth 64 * (lane 32 gx i).setWidth 64
  let gx := setLane gx 1 (product gx 2)
  setLane gx 0 (product gx 0)

def PSADBW (ex : Source 128) (gx : BitVec 128) : BitVec 128 :=
  let gx := setLane gx 0 (sumOfDifferences gx (ex.read gx) 0)
  setLane gx 1 (sumOfDifferences gx (ex.read gx) 8)

/-! ### Floating point -/

section Floating

variable (host : Host) (g e : BitVec 64)

def sqrtpd : BitVec 64 := if !host.noalign && host.d.isless e host.d.zero then host.d.negNan else host.d.sqrt e

/-- The sum, or the difference where `opposite` is false, with the NaN of x86 for infinities that cancel. -/
def addpd (opposite : Bool) (op : BitVec 64 → BitVec 64 → BitVec 64) : BitVec 64 :=
  if !host.noalign && (host.d.isinf g && host.d.isinf e && ((e.msb != g.msb) == opposite)) then host.d.negNan else op g e

def mulpd : BitVec 64 :=
  if !host.noalign &&
      (host.d.isinf g && host.d.eq e host.d.zero || host.d.isinf e && host.d.eq g host.d.zero) then host.d.negNan
  else host.d.mul g e

def divpd : BitVec 64 :=
  let q := host.d.div g e
  if !host.noalign && !(host.d.isnan g || host.d.isnan e) && host.d.isnan q then host.d.negNan else q

end Floating

def cmppd (d : FloatOps 64) (tmp8u : BitVec 8) (g e : BitVec 64) : Bool :=
  match (tmp8u &&& 7).toNat with
  | 0 => d.eq g e
  | 1 => d.isless g e
  | 2 => d.islessequal g e
  | 3 => d.isnan g || d.isnan e
  | 4 => d.isnan g || d.isnan e || !d.eq g e
  | 5 => d.isnan g || d.isnan e || d.isgreaterequal g e
  | 6 => d.isnan g || d.isnan e || d.isgreater g e
  | _ => !d.isnan g && !d.isnan e

/-! ### The cases -/

open SimdCase

/-- `case 0x38`, by its second byte. -/
def cases38 : List (SimdCase 128) :=
  [toG 0x3800 PSHUFB,
    toG 0x3801 (pairLanes 4 fun x y : BitVec 16 => x + y),  -- PHADDW
    toG 0x3802 PHADDD,
    toG 0x3803 (pairLanes 4 fun x y : BitVec 16 => addSaturated x y),  -- PHADDSW
    toG 0x3804 (zipLanes 8 maddBytes),  -- PMADDUBSW
    toG 0x3805 (pairLanes 4 fun x y : BitVec 16 => x - y),  -- PHSUBW
    toG 0x3808 (zipLanes 16 (sign (w := 8))),  -- PSIGNB
    toG 0x3809 (zipLanes 8 (sign (w := 16))),  -- PSIGNW
    toG 0x380A (zipLanes 4 (sign (w := 32))),  -- PSIGND
    toG 0x380B (zipLanes 8 (mulRounded (w := 16))),  -- PMULHRSW
    within 0x3814 BLENDVPS,
    toG 0x381C (mapLanes 16 (absLane (w := 8))),  -- PABSB
    toG 0x381D (mapLanes 8 (absLane (w := 16))),  -- PABSW
    toG 0x381E (mapLanes 4 (absLane (w := 32))),  -- PABSD
    toG 0x3820 (widenLanes 8 fun x : BitVec 8 => x.signExtend 16),  -- PMOVSXBW
    toG 0x3821 (widenLanes 4 fun x : BitVec 8 => x.signExtend 32),  -- PMOVSXBD
    toG 0x3822 (widenLanes 2 fun x : BitVec 8 => x.signExtend 64),  -- PMOVSXBQ
    toG 0x3823 (widenLanes 4 fun x : BitVec 16 => x.signExtend 32),  -- PMOVSXWD
    toG 0x3824 (widenLanes 2 fun x : BitVec 16 => x.signExtend 64),  -- PMOVSXWQ
    toG 0x3825 (widenLanes 2 fun x : BitVec 32 => x.signExtend 64),  -- PMOVSXDQ
    toG 0x3830 (widenLanes 8 fun x : BitVec 8 => x.setWidth 16),  -- PMOVZXBW
    toG 0x3831 (widenLanes 4 fun x : BitVec 8 => x.setWidth 32),  -- PMOVZXBD
    toG 0x3832 (widenLanes 2 fun x : BitVec 8 => x.setWidth 64),  -- PMOVZXBQ
    toG 0x3833 (widenLanes 4 fun x : BitVec 16 => x.setWidth 32),  -- PMOVZXWD
    toG 0x3834 (widenLanes 2 fun x : BitVec 16 => x.setWidth 64),  -- PMOVZXWQ
    toG 0x3835 (widenLanes 2 fun x : BitVec 32 => x.setWidth 64),  -- PMOVZXDQ
    toG 0x3838 (zipLanes 16 (minSigned (w := 8))),  -- PMINSB
    toG 0x3839 (zipLanes 4 (minSigned (w := 32))),  -- PMINSD
    toG 0x383A (zipLanes 8 (minUnsigned (w := 16))),  -- PMINUW
    toG 0x383B (zipLanes 4 (minUnsigned (w := 32))),  -- PMINUD
    toG 0x383C (zipLanes 16 (maxSigned (w := 8))),  -- PMAXSB
    toG 0x383D (zipLanes 4 (maxSigned (w := 32))),  -- PMAXSD
    toG 0x383E (zipLanes 8 (maxUnsigned (w := 16))),  -- PMAXUW
    toG 0x383F (zipLanes 4 (maxUnsigned (w := 32))),  -- PMAXUD
    toG 0x38DB AESIMC]

def casesAes : List (SimdCase 128) :=
  [toG 0x38DC AESENC,
    toG 0x38DD AESENCLAST,
    toG 0x38DE AESDEC,
    toG 0x38DF AESDECLAST]

/-- `case 0x3A`, by its second byte. -/
def cases3A : List (SimdCase 128) :=
  [within 0x3A0A fun ctx => roundScalar (roundss ctx.host) ctx,  -- ROUNDSS
    within 0x3A0B fun ctx => roundScalar (roundsd ctx.host) ctx,  -- ROUNDSD
    within 0x3A0E PBLENDW,
    ⟨0x3A0F, false, fun ctx => PALIGNR ctx.imm8.toNat⟩,
    within 0x3A21 INSERTPS,
    within 0x3A40 DPPS,
    within 0x3ADF AESKEYGENASSIST]

def cases10 : List (SimdCase 128) :=
  [toG 0x10 copy,  -- MOVUPD
    store 0x11 copy,
    toG 0x14 (copyLane 64 1 0),  -- UNPCKLPD
    toG 0x15 unpackHighHalf,  -- UNPCKHPD
    toG 0x28 copyHalves,  -- MOVAPD
    store 0x29 copyHalves,
    within 0x51 fun ctx => mapLanes 2 (sqrtpd ctx.host),  -- SQRTPD
    toG 0x54 (zipLanes 2 fun g e : BitVec 64 => g &&& e),  -- ANDPD
    toG 0x55 (zipLanes 2 fun g e : BitVec 64 => ~~~g &&& e),  -- ANDNPD
    toG 0x56 (zipLanes 2 fun g e : BitVec 64 => g ||| e),  -- ORPD
    toG 0x57 (zipLanes 2 fun g e : BitVec 64 => g ^^^ e),  -- XORPD
    within 0x58 fun ctx => zipLanes 2 fun g e => addpd ctx.host g e true ctx.host.d.add,  -- ADDPD
    within 0x59 fun ctx => zipLanes 2 (mulpd ctx.host),  -- MULPD
    within 0x5A fun ctx => narrowDoubles ctx.host.toFloat,  -- CVTPD2PS
    within 0x5B fun ctx => mapLanes 4 (ctx.host.f.round ctx.rounding),  -- CVTPS2DQ
    within 0x5C fun ctx => zipLanes 2 fun g e => addpd ctx.host g e false ctx.host.d.sub,  -- SUBPD
    within 0x5D fun ctx => zipLanes 2 ctx.host.d.min,  -- MINPD
    within 0x5E fun ctx => zipLanes 2 (divpd ctx.host),  -- DIVPD
    within 0x5F fun ctx => zipLanes 2 ctx.host.d.max]  -- MAXPD

def cases60 : List (SimdCase 128) :=
  [toG 0x60 (unpackLow 8 8),  -- PUNPCKLBW
    toG 0x61 (unpackLow 16 4),  -- PUNPCKLWD
    toG 0x62 PUNPCKLDQ,
    toG 0x63 (packLanes 8 (packSigned (w := 16) 8)),  -- PACKSSWB
    toG 0x64 (zipLanes 16 (greaterMask (w := 8))),  -- PCMPGTB
    toG 0x65 (zipLanes 8 (greaterMask (w := 16))),  -- PCMPGTW
    toG 0x66 (zipLanes 4 (greaterMask (w := 32))),  -- PCMPGTD
    toG 0x67 (packLanes 8 (packUnsigned (w := 16) 8)),  -- PACKUSWB
    toG 0x68 (unpackHigh 8 8),  -- PUNPCKHBW
    toG 0x69 (unpackHigh 16 4),  -- PUNPCKHWD
    toG 0x6A PUNPCKHDQ,
    toG 0x6B (packLanes 4 (packSigned (w := 32) 16)),  -- PACKSSDW
    toG 0x6C (copyLane 64 1 0),  -- PUNPCKLQDQ
    toG 0x6D unpackHighHalf,  -- PUNPCKHQDQ
    toG 0x6F copyHalves,  -- MOVDQA
    within 0x70 (shuffleLanes 32 4),  -- PSHUFD
    toG 0x74 (zipLanes 16 (equalMask (w := 8))),  -- PCMPEQB
    toG 0x75 (zipLanes 8 (equalMask (w := 16))),  -- PCMPEQW
    toG 0x76 (zipLanes 4 (equalMask (w := 32))),  -- PCMPEQD
    within 0x7C HADDPD,
    store 0x7F copyHalves]  -- MOVDQA

def casesC0 : List (SimdCase 128) :=
  [within 0xC2 fun ctx => zipLanes 2 fun g e => maskOf 64 (cmppd ctx.host.d ctx.imm8 g e),  -- CMPPD
    within 0xC6 SHUFPD,
    shift 0xD1 PSRLW_Gx_Ex,
    shift 0xD2 PSRLD_Gx_Ex,
    shift 0xD3 PSRLQ_Gx_Ex,
    toG 0xD4 (zipLanes 2 fun g e : BitVec 64 => g + e),  -- PADDQ
    toG 0xD5 (zipLanes 8 fun g e : BitVec 16 => g * e),  -- PMULLW
    store 0xD6 fun gx ex => setLane (copyLane 64 0 0 gx ex) 1 (0 : BitVec 64),  -- MOVQ
    toG 0xD8 (zipLanes 16 (subUnsignedSaturated (w := 8))),  -- PSUBUSB
    toG 0xD9 (zipLanes 8 (subUnsignedSaturated (w := 16))),  -- PSUBUSW
    toG 0xDA (zipLanes 16 (minUnsigned (w := 8))),  -- PMINUB
    toG 0xDB (zipLanes 2 fun g e : BitVec 64 => g &&& e),  -- PAND
    toG 0xDC (zipLanes 16 (addUnsignedSaturated (w := 8))),  -- PADDUSB
    toG 0xDD (zipLanes 8 (addUnsignedSaturated (w := 16))),  -- PADDUSW
    toG 0xDE (zipLanes 16 (maxUnsigned (w := 8))),  -- PMAXUB
    toG 0xDF (zipLanes 2 fun g e : BitVec 64 => ~~~g &&& e)]  -- PANDN

def casesE0 : List (SimdCase 128) :=
  [toG 0xE0 (zipLanes 16 (average (w := 8))),  -- PAVGB
    shift 0xE1 PSRAW_Gx_Ex,
    shift 0xE2 PSRAD_Gx_Ex,
    toG 0xE3 (zipLanes 8 (average (w := 16))),  -- PAVGW
    toG 0xE4 (zipLanes 8 (mulHighUnsigned (w := 16))),  -- PMULHUW
    toG 0xE5 (zipLanes 8 (mulHigh (w := 16))),  -- PMULHW
    within 0xE6 fun ctx => narrowDoubles ctx.host.d.toInt,  -- CVTTPD2DQ
    store 0xE7 copyHalves,  -- MOVNTDQ
    toG 0xE8 (zipLanes 16 (subSaturated (w := 8))),  -- PSUBSB
    toG 0xE9 (zipLanes 8 (subSaturated (w := 16))),  -- PSUBSW
    toG 0xEA (zipLanes 8 (minSigned (w := 16))),  -- PMINSW
    toG 0xEB (zipLanes 4 fun g e : BitVec 32 => g ||| e),  -- POR
    toG 0xEC (zipLanes 16 (addSaturated (w := 8))),  -- PADDSB
    toG 0xED (zipLanes 8 (addSaturated (w := 16))),  -- PADDSW
    toG 0xEE (zipLanes 8 (maxSigned (w := 16))),  -- PMAXSW
    toG 0xEF (zipLanes 2 fun g e : BitVec 64 => g ^^^ e)]  -- PXOR

def casesF0 : List (SimdCase 128) :=
  [shift 0xF1 PSLLW_Gx_Ex,
    shift 0xF2 PSLLD_Gx_Ex,
    shift 0xF3 PSLLQ_Gx_Ex,
    toG 0xF4 PMULUDQ,
    toG 0xF5 (zipLanes 4 maddWords),  -- PMADDWD
    toG 0xF6 PSADBW,
    toG 0xF8 (zipLanes 16 fun g e : BitVec 8 => g - e),  -- PSUBB
    toG 0xF9 (zipLanes 8 fun g e : BitVec 16 => g - e),  -- PSUBW
    toG 0xFA (zipLanes 4 fun g e : BitVec 32 => g - e),  -- PSUBD
    toG 0xFB (zipLanes 2 fun g e : BitVec 64 => g - e),  -- PSUBQ
    toG 0xFC (zipLanes 16 fun g e : BitVec 8 => g + e),  -- PADDB
    toG 0xFD (zipLanes 8 fun g e : BitVec 16 => g + e),  -- PADDW
    toG 0xFE (zipLanes 4 fun g e : BitVec 32 => g + e)]  -- PADDD

def simdCases : List (SimdCase 128) :=
  cases10 ++ cases38 ++ casesAes ++ cases3A ++ cases60 ++ casesC0 ++ casesE0 ++ casesF0

end Box64.Emu.Run660F
