import Box64.Emu.Simd660F

/-!
# SIMD instructions with 0F and F3 0F

The instructions of `Run0F` and `RunF30F` from one register to another of its kind.
-/

namespace Box64.Emu

open Lanes

open SimdCase

namespace Run0F

/-! ### MMX -/

def PSHUFB (em : Source 64) (gm : BitVec 64) : BitVec 64 :=
  let eam1 := gm
  eachLane 8 (fun gm i =>
    if lane 8 (em.read gm) i &&& 128 ≠ 0 then 0 else lane 8 eam1 (lane 8 (em.read gm) i &&& 7).toNat) gm

def PUNPCKLBW (em : Source 64) (gm : BitVec 64) : BitVec 64 :=
  let gm := copyLane 8 7 3 em gm
  let gm := moveLane 8 6 3 gm
  let gm := copyLane 8 5 2 em gm
  let gm := moveLane 8 4 2 gm
  let gm := copyLane 8 3 1 em gm
  let gm := moveLane 8 2 1 gm
  copyLane 8 1 0 em gm

def PUNPCKLWD (em : Source 64) (gm : BitVec 64) : BitVec 64 :=
  copyLane 16 1 0 em (moveLane 16 2 1 (copyLane 16 3 1 em gm))

def PUNPCKHDQ (em : Source 64) (gm : BitVec 64) : BitVec 64 :=
  let gm := moveLane 32 0 1 gm
  if em.isNone then gm else copyLane 32 1 1 em gm

def mmxCases38 : List (SimdCase 64) :=
  [toG 0x3800 PSHUFB,
    toG 0x3804 (zipLanes 4 maddBytes),  -- PMADDUBSW
    toG 0x380B (zipLanes 4 (mulRounded (w := 16))),  -- PMULHRSW
    toG 0x381C (mapLanes 8 (absLane (w := 8))),  -- PABSB
    toG 0x381D (mapLanes 4 (absLane (w := 16))),  -- PABSW
    toG 0x381E (mapLanes 2 (absLane (w := 32)))]  -- PABSD

def mmxCases3A : List (SimdCase 64) := [⟨0x3A0F, false, fun ctx => PALIGNR ctx.imm8.toNat⟩]

def mmxCases60 : List (SimdCase 64) :=
  [toG 0x60 PUNPCKLBW,
    toG 0x61 PUNPCKLWD,
    toG 0x62 (copyLane 32 1 0),  -- PUNPCKLDQ
    toG 0x63 (packLanesMmx 4 (packSigned (w := 16) 8)),  -- PACKSSWB
    toG 0x64 (zipLanes 8 (greaterMask (w := 8))),  -- PCMPGTB
    toG 0x65 (zipLanes 4 (greaterMask (w := 16))),  -- PCMPGTW
    toG 0x66 (zipLanes 2 (greaterMask (w := 32))),  -- PCMPGTD
    toG 0x67 (packLanesMmx 4 (packUnsigned (w := 16) 8)),  -- PACKUSWB
    toG 0x68 (unpackHigh 8 4),  -- PUNPCKHBW
    toG 0x69 (unpackHigh 16 2),  -- PUNPCKHWD
    toG 0x6A PUNPCKHDQ,
    toG 0x6B (packLanesMmx 2 (packSigned (w := 32) 16)),  -- PACKSSDW
    toG 0x6F fun em gm => em.read gm,  -- MOVQ
    within 0x70 (shuffleLanes 16 4),  -- PSHUFW
    toG 0x74 (zipLanes 8 (equalMask (w := 8))),  -- PCMPEQB
    toG 0x75 (zipLanes 4 (equalMask (w := 16))),  -- PCMPEQW
    toG 0x76 (zipLanes 2 (equalMask (w := 32))),  -- PCMPEQD
    store 0x7F fun gm em => gm.read em]  -- MOVQ

def mmxCasesD0 : List (SimdCase 64) :=
  [shift 0xD1 PSRLW_Gm_Em,
    shift 0xD2 PSRLD_Gm_Em,
    shift 0xD3 PSRLQ_Gm_Em,
    toG 0xD5 (zipLanes 4 fun g e : BitVec 16 => g * e),  -- PMULLW
    toG 0xD8 (zipLanes 8 (subUnsignedSaturated (w := 8))),  -- PSUBUSB
    toG 0xD9 (zipLanes 4 (subUnsignedSaturated (w := 16))),  -- PSUBUSW
    toG 0xDA (zipLanes 8 (minUnsigned (w := 8))),  -- PMINUB
    toG 0xDB (zipLanes 1 fun g e : BitVec 64 => g &&& e),  -- PAND
    toG 0xDC (zipLanes 8 (addUnsignedSaturated (w := 8))),  -- PADDUSB
    toG 0xDD (zipLanes 4 (addUnsignedSaturated (w := 16))),  -- PADDUSW
    toG 0xDE (zipLanes 8 (maxUnsigned (w := 8))),  -- PMAXUB
    toG 0xDF (zipLanes 1 fun g e : BitVec 64 => ~~~g &&& e),  -- PANDN
    toG 0xE0 (zipLanes 8 (average (w := 8))),  -- PAVGB
    shift 0xE1 PSRAW_Gm_Em,
    shift 0xE2 PSRAD_Gm_Em,
    toG 0xE3 (zipLanes 4 (average (w := 16))),  -- PAVGW
    toG 0xE4 (zipLanes 4 (mulHighUnsigned (w := 16))),  -- PMULHUW
    toG 0xE5 (zipLanes 4 (mulHigh (w := 16))),  -- PMULHW
    toG 0xE8 (zipLanes 8 (subSaturated (w := 8))),  -- PSUBSB
    toG 0xE9 (zipLanes 4 (subSaturated (w := 16))),  -- PSUBSW
    toG 0xEB (zipLanes 1 fun g e : BitVec 64 => g ||| e),  -- POR
    toG 0xEC (zipLanes 8 (addSaturated (w := 8))),  -- PADDSB
    toG 0xED (zipLanes 4 (addSaturated (w := 16))),  -- PADDSW
    toG 0xEF (zipLanes 1 fun g e : BitVec 64 => g ^^^ e)]  -- PXOR

def mmxCasesF0 : List (SimdCase 64) :=
  [shift 0xF1 PSLLW_Gm_Em,
    shift 0xF2 PSLLD_Gm_Em,
    shift 0xF3 PSLLQ_Gm_Em,
    toG 0xF5 (zipLanes 2 maddWords),  -- PMADDWD
    toG 0xF6 fun em gm => setLane gm 0 (sumOfDifferences gm (em.read gm) 0),  -- PSADBW
    toG 0xF8 (zipLanes 8 fun g e : BitVec 8 => g - e),  -- PSUBB
    toG 0xF9 (zipLanes 4 fun g e : BitVec 16 => g - e),  -- PSUBW
    toG 0xFA (zipLanes 2 fun g e : BitVec 32 => g - e),  -- PSUBD
    toG 0xFC (zipLanes 8 fun g e : BitVec 8 => g + e),  -- PADDB
    toG 0xFD (zipLanes 4 fun g e : BitVec 16 => g + e),  -- PADDW
    toG 0xFE (zipLanes 2 fun g e : BitVec 32 => g + e)]  -- PADDD

def mmxCases : List (SimdCase 64) := mmxCases38 ++ mmxCases3A ++ mmxCases60 ++ mmxCasesD0 ++ mmxCasesF0

/-! ### SSE -/

def rsqrt (f : FloatOps 32) (e : BitVec 32) : BitVec 32 :=
  if f.eq e f.zero then f.div f.one e
  else if f.isless e f.zero then f.nan
  else if f.isnan e then e
  else if f.isinf e then f.zero
  else f.div f.one (f.sqrt e)

def cmpps (f : FloatOps 32) (tmp8u : BitVec 8) (g e : BitVec 32) : Bool :=
  match (tmp8u &&& 7).toNat with
  | 0 => f.eq g e
  | 1 => f.isless g e
  | 2 => f.islessequal g e
  | 3 => f.isnan g || f.isnan e
  | 4 => !f.eq g e
  | 5 => f.isnan g || f.isnan e || f.isgreaterequal g e
  | 6 => f.isnan g || f.isnan e || f.isgreater g e
  | _ => !f.isnan g && !f.isnan e

def SHUFPS (ctx : Context) (ex : Source 128) (gx : BitVec 128) : BitVec 128 :=
  let pick (i : Nat) : Nat := ((ctx.imm8 >>> (i * 2)) &&& 3).toNat
  let eax1 := eachLane 4 (fun _ i => if i < 2 then lane 32 gx (pick i) else lane 32 (ex.read gx) (pick i)) (0 : BitVec 128)
  setLane (setLane gx 0 (lane 64 eax1 0)) 1 (lane 64 eax1 1)

def sseCases10 : List (SimdCase 128) :=
  [toG 0x10 Run660F.copy,  -- MOVUPS
    store 0x11 Run660F.copy,
    toG 0x12 (copyLane 64 0 1),  -- MOVHLPS
    store 0x13 (copyLane 64 0 0),  -- MOVLPS
    toG 0x14 Run660F.PUNPCKLDQ,  -- UNPCKLPS
    toG 0x15 Run660F.PUNPCKHDQ,  -- UNPCKHPS
    toG 0x16 (copyLane 64 1 0),  -- MOVLHPS
    store 0x17 (copyLane 64 0 1),  -- MOVHPS
    toG 0x28 Run660F.copyHalves,  -- MOVAPS
    store 0x29 Run660F.copyHalves,
    store 0x2B Run660F.copyHalves]  -- MOVNTPS

def sseCases50 : List (SimdCase 128) :=
  [within 0x51 fun ctx => mapLanes 4 ctx.host.f.sqrt,  -- SQRTPS
    within 0x52 fun ctx => mapLanes 4 (rsqrt ctx.host.f),  -- RSQRTPS
    within 0x53 fun ctx => mapLanes 4 (ctx.host.f.div ctx.host.f.one),  -- RCPPS
    toG 0x54 (zipLanes 4 fun g e : BitVec 32 => g &&& e),  -- ANDPS
    toG 0x55 (zipLanes 4 fun g e : BitVec 32 => ~~~g &&& e),  -- ANDNPS
    toG 0x56 (zipLanes 4 fun g e : BitVec 32 => g ||| e),  -- ORPS
    toG 0x57 (zipLanes 4 fun g e : BitVec 32 => g ^^^ e),  -- XORPS
    within 0x58 fun ctx => zipLanes 4 ctx.host.f.add,  -- ADDPS
    within 0x59 fun ctx => zipLanes 4 ctx.host.f.mul,  -- MULPS
    within 0x5A fun ctx => widenLanes 2 ctx.host.toDouble,  -- CVTPS2PD
    within 0x5B fun ctx => mapLanes 4 ctx.host.f.ofInt,  -- CVTDQ2PS
    within 0x5C fun ctx => zipLanes 4 ctx.host.f.sub,  -- SUBPS
    within 0x5D fun ctx => zipLanes 4 ctx.host.f.min,  -- MINPS
    within 0x5E fun ctx => zipLanes 4 ctx.host.f.div,  -- DIVPS
    within 0x5F fun ctx => zipLanes 4 ctx.host.f.max,  -- MAXPS
    within 0xC2 fun ctx => zipLanes 4 fun g e => maskOf 32 (cmpps ctx.host.f ctx.imm8 g e),  -- CMPPS
    within 0xC6 SHUFPS]

def sseCases : List (SimdCase 128) := sseCases10 ++ sseCases50

end Run0F

namespace RunF30F

/-- `GX->ud[1] = GX->ud[0] = EX->ud[k]; GX->ud[3] = GX->ud[2] = EX->ud[2+k];` -/
def duplicate (k : Nat) (ex : Source 128) (gx : BitVec 128) : BitVec 128 :=
  let gx := moveLane 32 1 0 (copyLane 32 0 k ex gx)
  moveLane 32 3 2 (copyLane 32 2 (2 + k) ex gx)

def PSHUFHW (ctx : Context) (ex : Source 128) (gx : BitVec 128) : BitVec 128 :=
  let pick (i : Nat) : Nat := 4 + ((ctx.imm8 >>> (i * 2)) &&& 3).toNat
  if ex.isNone then
    let eax1 := eachLaneAt (4 + ·) 4 (fun _ i => lane 16 (ex.read gx) (pick i)) (0 : BitVec 128)
    setLane gx 1 (lane 64 eax1 1)
  else copyLane 64 0 0 ex (eachLaneAt (4 + ·) 4 (fun gx i => lane 16 (ex.read gx) (pick i)) gx)

def cmpss (f : FloatOps 32) (tmp8u : BitVec 8) (g e : BitVec 32) : Bool :=
  match (tmp8u &&& 7).toNat with
  | 0 => f.eq g e
  | 1 => f.isless g e && !(f.isnan g || f.isnan e)
  | 2 => f.islessequal g e && !(f.isnan g || f.isnan e)
  | 3 => f.isnan g || f.isnan e
  | 4 => f.isnan g || f.isnan e || !f.eq g e
  | 5 => f.isnan g || f.isnan e || f.isgreaterequal g e
  | 6 => f.isnan g || f.isnan e || f.isgreater g e
  | _ => !f.isnan g && !f.isnan e

def simdCases : List (SimdCase 128) :=
  [toG 0x10 (copyLane 32 0 0),  -- MOVSS
    store 0x11 (copyLane 32 0 0),
    toG 0x12 (duplicate 0),  -- MOVSLDUP
    toG 0x16 (duplicate 1),  -- MOVSHDUP
    within 0x51 fun ctx => mapLanes 1 ctx.host.f.sqrt,  -- SQRTSS
    within 0x52 fun ctx => mapLanes 1 fun e => ctx.host.f.div ctx.host.f.one (ctx.host.f.sqrt e),  -- RSQRTSS
    within 0x53 fun ctx => mapLanes 1 (ctx.host.f.div ctx.host.f.one),  -- RCPSS
    within 0x58 fun ctx => zipLanes 1 ctx.host.f.add,  -- ADDSS
    within 0x59 fun ctx => zipLanes 1 ctx.host.f.mul,  -- MULSS
    within 0x5A fun ctx => widenLanes 1 ctx.host.toDouble,  -- CVTSS2SD
    within 0x5B fun ctx => mapLanes 4 ctx.host.f.toInt,  -- CVTTPS2DQ
    within 0x5C fun ctx => zipLanes 1 ctx.host.f.sub,  -- SUBSS
    within 0x5D fun ctx => zipLanes 1 ctx.host.f.min,  -- MINSS
    within 0x5E fun ctx => zipLanes 1 ctx.host.f.div,  -- DIVSS
    within 0x5F fun ctx => zipLanes 1 ctx.host.f.max,  -- MAXSS
    toG 0x6F Run660F.copy,  -- MOVDQU
    within 0x70 PSHUFHW,
    toG 0x7E fun ex gx => setLane (copyLane 64 0 0 ex gx) 1 (0 : BitVec 64),  -- MOVQ
    store 0x7F Run660F.copy,  -- MOVDQU
    within 0xC2 fun ctx => zipLanes 1 fun g e => maskOf 32 (cmpss ctx.host.f ctx.imm8 g e),  -- CMPSS
    within 0xE6 fun ctx => widenLanes 2 ctx.host.d.ofInt]  -- CVTDQ2PD

end RunF30F

end Box64.Emu
