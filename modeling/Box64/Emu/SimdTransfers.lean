import Box64.Emu.Run66
import Box64.Emu.UpperHalf
import Box64.Lib.Lanes

/-!
# From SIMD registers to general registers and memory

The instructions of `Run0F` and `Run660F` that move a value or a mask out of an `xmm` or `mmx` register. Which member of the
union `reg64_t` a case assigns decides whether the destination holds the value and nothing else.
-/

namespace Box64.Emu

open BitVec AddressForm Lanes
open Function (update)

/-! ### Operands -/

def MODREG (nextop : BitVec 8) : Prop := nextop &&& 0xC0 = 0xC0

instance (nextop : BitVec 8) : Decidable (MODREG nextop) := inferInstanceAs (Decidable (_ = _))

namespace Cpu

variable (s : Cpu)

/-- `ED->byte[0]`, `ED->dword[0]` or `ED->q[0]` set to `v`. -/
def assign {n : Nat} (v : BitVec n) : Oped (Fin 16) → Cpu
  | .reg r => { s with emu := s.emu.setReg r v }
  | .mem a => { s with mem := s.mem.store a v }

def GX (rex : Rex) (nextop : BitVec 8) : BitVec 128 := s.fpu.xmm (.ofFin (GetGd rex nextop))

def GM (nextop : BitVec 8) : BitVec 64 := s.fpu.mmx ((nextop >>> 3).setWidth 3)

def readEX : Oped (Fin 16) → BitVec 128
  | .reg r => s.fpu.xmm (.ofFin r)
  | .mem a => s.mem.load 128 a

def readEM : Oped (BitVec 3) → BitVec 64
  | .reg r => s.fpu.mmx r
  | .mem a => s.mem.load 64 a

end Cpu

/-- `GETEM(D)` -/
def GetEm (code : Memory) (rex : Rex) (s : Cpu) (nextop delta : BitVec 8) : Oped (BitVec 3) × Cpu :=
  if MODREG nextop then (.reg (nextop.setWidth 3), s)
  else
    let (a, R_RIP) := GetECommon s.emu code rex (nextop &&& 0xC7) delta s.R_RIP
    (.mem a, { s with R_RIP })

/-! ### Masks -/

/-- `for(int i=0; i<m; ++i) GD->dword[0] |= ((EX->lane[i]>>(w-1))&1)<<i;` from 0 on. -/
def moveMask {n : Nat} (w m : Nat) (ex : BitVec n) : BitVec 32 :=
  (List.range m).foldl (fun d i => d ||| ((((lane w ex i >>> (w - 1)) &&& 1#w) <<< i).setWidth 32)) 0

/-- `for (int i=0; i<m; ++i) if(EX->ub[i]&0x80) GD->dword[0] |= (1<<i);` from 0 on. -/
def moveByteMask {n : Nat} (m : Nat) (ex : BitVec n) : BitVec 32 :=
  (List.range m).foldl (fun d i => if lane 8 ex i &&& 0x80 ≠ 0 then d ||| (1 <<< i) else d) 0

/-! ### The cases -/

inductive Transfer
  | MOVMSKPS_Gd_Ex
  | MOVD_Ed_Gm
  | MOVQ_Em_Gm
  | PEXTRW_Gw_Em
  | PMOVMSKB_Gd_Em
  | PEXTRB_EB_GX
  | PEXTRD_ED_GX
  | EXTRACTPS_ED_GX
  | MOVMSKPD_Gd_Ex
  | MOVD_Ed_Gx
  | PEXTRW_Gw_Ex
  | MOVQ_Ex_Gx
  | PMOVMSKB_Gd_Ex
  deriving DecidableEq

inductive TransferMap
  | Run0F
  | Run660F

/-- The transfer with this opcode, and with this second byte where the first is `0x3A`. -/
def TransferMap.transfer : TransferMap → (opcode opcode2 : BitVec 8) → Option Transfer
  | .Run0F, opcode, _ =>
    match opcode.toNat with
    | 0x50 => some .MOVMSKPS_Gd_Ex
    | 0x7E => some .MOVD_Ed_Gm
    | 0x7F => some .MOVQ_Em_Gm
    | 0xC5 => some .PEXTRW_Gw_Em
    | 0xD7 => some .PMOVMSKB_Gd_Em
    | _ => none
  | .Run660F, opcode, opcode2 =>
    match opcode.toNat with
    | 0x3A =>
      match opcode2.toNat with
      | 0x14 => some .PEXTRB_EB_GX
      | 0x16 => some .PEXTRD_ED_GX
      | 0x17 => some .EXTRACTPS_ED_GX
      | _ => none
    | 0x50 => some .MOVMSKPD_Gd_Ex
    | 0x7E => some .MOVD_Ed_Gx
    | 0xC5 => some .PEXTRW_Gw_Ex
    | 0xD6 => some .MOVQ_Ex_Gx
    | 0xD7 => some .PMOVMSKB_Gd_Ex
    | _ => none

section Cases

variable (code : Memory) (rex : Rex) (s : Cpu)

/-- `if(rex.w) ED->q[0] = wide; else if(MODREG) ED->q[0] = narrow; else ED->dword[0] = narrow;` -/
def moveED (nextop : BitVec 8) (ED : Oped (Fin 16)) (wide : BitVec 64) (narrow : BitVec 32) : Cpu :=
  if rex.w then s.assign wide ED
  else if MODREG nextop then s.assign (narrow.setWidth 64) ED
  else s.assign narrow ED

/-- The text of a case after its opcode; `none` where it returns 1. -/
def Transfer.exec : Transfer → Option Cpu
  | .MOVMSKPS_Gd_Ex =>
    let (nextop, s) := fetch code s 8
    let (EX, s) := GetEd code rex s nextop 0
    let GD := GetGd rex nextop
    some (s.assign ((moveMask 32 4 (s.readEX EX)).setWidth 64) (.reg GD))
  | .MOVD_Ed_Gm =>
    let (nextop, s) := fetch code s 8
    let (ED, s) := GetEd code rex s nextop 0
    some (moveED rex s nextop ED (s.GM nextop) (lane 32 (s.GM nextop) 0))
  | .MOVQ_Em_Gm =>
    let (nextop, s) := fetch code s 8
    let (EM, s) := GetEm code rex s nextop 0
    match EM with
    | .reg r => some { s with fpu := s.fpu.setMmx r (s.GM nextop) }
    | .mem a => some { s with mem := s.mem.store a (s.GM nextop) }
  | .PEXTRW_Gw_Em =>
    let (nextop, s) := fetch code s 8
    let (EM, s) := GetEm code rex s nextop 0
    let GD := GetGd rex nextop
    let (tmp8u, s) := fetch code s 8
    some (s.assign ((lane 16 (s.readEM EM) (tmp8u &&& 3).toNat).setWidth 64) (.reg GD))
  | .PMOVMSKB_Gd_Em =>
    let (nextop, s) := fetch code s 8
    let (EM, s) := GetEm code rex s nextop 0
    let GD := GetGd rex nextop
    some (s.assign (moveByteMask 8 (s.readEM EM)) (.reg GD))
  | .PEXTRB_EB_GX =>
    let (nextop, s) := fetch code s 8
    let (EB, s) := GetEb code rex s nextop 1
    let GX := s.GX rex nextop
    let (tmp8u, s) := fetch code s 8
    some (s.writeByte (lane 8 GX (tmp8u &&& 0x0f).toNat) EB)
  | .PEXTRD_ED_GX =>
    let (nextop, s) := fetch code s 8
    let (ED, s) := GetEd code rex s nextop 1
    let GX := s.GX rex nextop
    let (tmp8u, s) := fetch code s 8
    if rex.w then some (s.assign (lane 64 GX (tmp8u &&& 1).toNat) ED)
    else some (s.assign ((lane 32 GX (tmp8u &&& 3).toNat).setWidth 64) ED)
  | .EXTRACTPS_ED_GX =>
    let (nextop, s) := fetch code s 8
    let (ED, s) := GetEd code rex s nextop 1
    let GX := s.GX rex nextop
    let (tmp8u, s) := fetch code s 8
    let s := s.assign (lane 32 GX (tmp8u &&& 3).toNat) ED
    match ED with
    -- `ED->dword[1] = 0`
    | .reg r => some (if rex.w then { s with emu := s.emu.clearHigh r } else s)
    | .mem _ => some s
  | .MOVMSKPD_Gd_Ex =>
    let (nextop, s) := fetch code s 8
    let (EX, s) := GetEd code rex s nextop 0
    let GD := GetGd rex nextop
    some (s.assign (moveMask 64 2 (s.readEX EX)) (.reg GD))
  | .MOVD_Ed_Gx =>
    let (nextop, s) := fetch code s 8
    let (ED, s) := GetEd code rex s nextop 0
    some (moveED rex s nextop ED (lane 64 (s.GX rex nextop) 0) (lane 32 (s.GX rex nextop) 0))
  | .PEXTRW_Gw_Ex =>
    let (nextop, s) := fetch code s 8
    let (EX, s) := GetEd code rex s nextop 1
    let GD := GetGd rex nextop
    let (tmp8u, s) := fetch code s 8
    some (s.assign ((lane 16 (s.readEX EX) (tmp8u &&& 7).toNat).setWidth 32) (.reg GD))
  | .MOVQ_Ex_Gx =>
    let (nextop, s) := fetch code s 8
    let (EX, s) := GetEd code rex s nextop 0
    let q := lane 64 (s.GX rex nextop) 0
    match EX with
    | .reg r =>
      let i : BitVec 4 := .ofFin r
      some { s with fpu := { s.fpu with xmm := update s.fpu.xmm i (setLane (setLane (s.fpu.xmm i) 0 q) 1 (0 : BitVec 64)) } }
    | .mem a => some { s with mem := s.mem.store a q }
  | .PMOVMSKB_Gd_Ex =>
    let (nextop, s) := fetch code s 8
    if MODREG nextop then
      let (EX, s) := GetEd code rex s nextop 0
      let GD := GetGd rex nextop
      some (s.assign ((moveByteMask 16 (s.readEX EX)).setWidth 64) (.reg GD))
    else none

/-- The opcode and, behind `0x3A`, the second one. -/
def TransferMap.fetchOp (map : TransferMap) : Option (Transfer × Cpu) :=
  let (opcode, s) := fetch code s 8
  match map, opcode.toNat with
  | .Run660F, 0x3A =>
    let (opcode2, s) := fetch code s 8
    (map.transfer opcode opcode2).map (·, s)
  | _, _ => (map.transfer opcode 0).map (·, s)

/-- The two functions, on the transfers. -/
def TransferMap.run (map : TransferMap) : Option Cpu :=
  (map.fetchOp code s).bind fun (op, s) => op.exec code rex s

end Cases

/-! ### What a transfer is for -/

inductive Destination
  | general (r : Fin 16)
  | memory (a : BitVec 64)
  | xmm (i : BitVec 4)
  | mmx (i : BitVec 3)

def Oped.general : Oped (Fin 16) → Destination
  | .reg r => .general r
  | .mem a => .memory a

/-- The value a transfer extracts, in its operand size, and where it goes. -/
structure Extracted where
  size : Nat
  value : BitVec size
  dest : Destination
  s : Cpu

/-- A register receives the value extended by zeros; of memory the bytes of the operand size change. -/
def Extracted.deliver (x : Extracted) : Cpu :=
  let s := x.s
  match x.dest with
  | .general r => { s with emu := { s.emu with regs := update s.emu.regs r (x.value.setWidth 64) } }
  | .memory a => { s with mem := s.mem.store a x.value }
  | .xmm i => { s with fpu := { s.fpu with xmm := update s.fpu.xmm i (x.value.setWidth 128) } }
  | .mmx i => { s with fpu := { s.fpu with mmx := update s.fpu.mmx i (x.value.setWidth 64) } }

/-- The signs of lanes `0` to `m`, lowest first. -/
def signs {n : Nat} (w m : Nat) (v : BitVec n) : BitVec 32 :=
  (ofBoolListLE ((List.range m).map fun i => (lane w v i).msb)).setWidth 32

section Extract

variable (code : Memory) (rex : Rex) (s : Cpu)

/-- A value of 64 bits with `REX.W`, of 32 without. -/
def extractedED (wide : BitVec 64) (narrow : BitVec 32) (dest : Destination) : Extracted :=
  if rex.w then ⟨64, wide, dest, s⟩ else ⟨32, narrow, dest, s⟩

def Transfer.extracted : Transfer → Extracted
  | .MOVMSKPS_Gd_Ex =>
    let (nextop, s) := fetch code s 8
    let (EX, s) := GetEd code rex s nextop 0
    ⟨32, signs 32 4 (s.readEX EX), .general (GetGd rex nextop), s⟩
  | .MOVD_Ed_Gm =>
    let (nextop, s) := fetch code s 8
    let (ED, s) := GetEd code rex s nextop 0
    extractedED rex s (s.GM nextop) (lane 32 (s.GM nextop) 0) ED.general
  | .MOVQ_Em_Gm =>
    let (nextop, s) := fetch code s 8
    let (EM, s) := GetEm code rex s nextop 0
    ⟨64, s.GM nextop, match EM with | .reg r => .mmx r | .mem a => .memory a, s⟩
  | .PEXTRW_Gw_Em =>
    let (nextop, s) := fetch code s 8
    let (EM, s) := GetEm code rex s nextop 0
    let (imm, s) := fetch code s 8
    ⟨16, lane 16 (s.readEM EM) (imm.toNat % 4), .general (GetGd rex nextop), s⟩
  | .PMOVMSKB_Gd_Em =>
    let (nextop, s) := fetch code s 8
    let (EM, s) := GetEm code rex s nextop 0
    ⟨32, signs 8 8 (s.readEM EM), .general (GetGd rex nextop), s⟩
  | .PEXTRB_EB_GX =>
    let (nextop, s) := fetch code s 8
    let (ED, s) := GetEd code rex s nextop 1
    let (imm, s) := fetch code s 8
    ⟨8, lane 8 (s.GX rex nextop) (imm.toNat % 16), ED.general, s⟩
  | .PEXTRD_ED_GX =>
    let (nextop, s) := fetch code s 8
    let (ED, s) := GetEd code rex s nextop 1
    let (imm, s) := fetch code s 8
    extractedED rex s (lane 64 (s.GX rex nextop) (imm.toNat % 2)) (lane 32 (s.GX rex nextop) (imm.toNat % 4)) ED.general
  | .EXTRACTPS_ED_GX =>
    let (nextop, s) := fetch code s 8
    let (ED, s) := GetEd code rex s nextop 1
    let (imm, s) := fetch code s 8
    ⟨32, lane 32 (s.GX rex nextop) (imm.toNat % 4), ED.general, s⟩
  | .MOVMSKPD_Gd_Ex =>
    let (nextop, s) := fetch code s 8
    let (EX, s) := GetEd code rex s nextop 0
    ⟨32, signs 64 2 (s.readEX EX), .general (GetGd rex nextop), s⟩
  | .MOVD_Ed_Gx =>
    let (nextop, s) := fetch code s 8
    let (ED, s) := GetEd code rex s nextop 0
    extractedED rex s (lane 64 (s.GX rex nextop) 0) (lane 32 (s.GX rex nextop) 0) ED.general
  | .PEXTRW_Gw_Ex =>
    let (nextop, s) := fetch code s 8
    let (EX, s) := GetEd code rex s nextop 1
    let (imm, s) := fetch code s 8
    ⟨16, lane 16 (s.readEX EX) (imm.toNat % 8), .general (GetGd rex nextop), s⟩
  | .MOVQ_Ex_Gx =>
    let (nextop, s) := fetch code s 8
    let (EX, s) := GetEd code rex s nextop 0
    ⟨64, lane 64 (s.GX rex nextop) 0, match EX with | .reg r => .xmm (.ofFin r) | .mem a => .memory a, s⟩
  | .PMOVMSKB_Gd_Ex =>
    let (nextop, s) := fetch code s 8
    let (EX, s) := GetEd code rex s nextop 0
    ⟨32, signs 8 16 (s.readEX EX), .general (GetGd rex nextop), s⟩

/-- When a case does what the transfer is for. `PEXTRB` assigns one byte of a register, and without `REX` of one of the
first four; `PEXTRD` always assigns eight bytes of memory; four other cases assign the low half of a register alone. -/
def Transfer.Meets (op : Transfer) : Prop :=
  let nextop := (fetch code s 8).1
  let x := op.extracted code rex s
  let s := x.s
  match op, x.dest with
  | .PEXTRB_EB_GX, .general r =>
    if rex.rex = 0 ∧ nextop.getLsbD 2 then
      s.reg r = x.value.setWidth 64 ∧ s.emu.getByte ⟨Fin.ofNat 16 (nextop &&& 3).toNat, true⟩ = x.value.setWidth 8
    else s.reg r >>> 8 = 0
  | .PEXTRD_ED_GX, .memory a => rex.w ∨ s.mem.load 32 (a + 4#64) = 0
  | .EXTRACTPS_ED_GX, .general r => rex.w ∨ Extended (s.reg r)
  | .MOVMSKPD_Gd_Ex, .general r | .PMOVMSKB_Gd_Em, .general r | .PEXTRW_Gw_Ex, .general r => Extended (s.reg r)
  | _, _ => True

end Extract

/-! ### Masks, bit by bit -/

section Masks

variable {n w m : Nat} (v : BitVec n)

theorem getLsbD_signs (small : m ≤ 32) (j : Nat) : (signs w m v).getLsbD j = (decide (j < m) && (lane w v j).msb) := by
  rw [signs, getLsbD_setWidth, getLsbD_ofBoolListLE, List.getD_eq_getElem?_getD, List.getElem?_map]
  by_cases inside : j < m
  · have narrow : j < 32 := by omega
    simp [inside, narrow]
  · simp [inside]

/-- A loop that adds one sign at a time. -/
theorem foldl_signs (small : m ≤ 32) {f : BitVec 32 → Nat → BitVec 32}
    (adds : ∀ d i, i < m → f d i = d ||| (ofBool (lane w v i).msb).setWidth 32 <<< i) :
    (List.range m).foldl f 0 = signs w m v := by
  have upTo : ∀ k ≤ m, ∀ j < 32, ((List.range k).foldl f 0).getLsbD j = (decide (j < k) && (lane w v j).msb) := by
    intro k
    induction k with
    | zero =>
      intro _ j _
      simp
    | succ k ih =>
      intro le j lt
      rw [List.range_succ, List.foldl_append, List.foldl_cons, List.foldl_nil, adds _ k le, getLsbD_or,
        ih (by omega) j lt, getLsbD_shiftLeft, getLsbD_setWidth, getLsbD_ofBool]
      obtain below | rfl | above := Nat.lt_trichotomy j k
      · have before : j < k + 1 := by omega
        simp [below, before]
      · simp [lt]
      · have past : ¬ j < k := by omega
        have beyond : ¬ j < k + 1 := by omega
        have apart : ¬ j - k = 0 := by omega
        simp [past, beyond, apart]
  apply eq_of_getLsbD_eq
  intro j lt
  rw [upTo m (Nat.le_refl m) j lt, getLsbD_signs v small]

theorem moveMask_eq (pos : 0 < w) (fits : m ≤ w) (small : m ≤ 32) : moveMask w m v = signs w m v := by
  refine foldl_signs v small fun d i lt => ?_
  congr 1
  apply eq_of_getLsbD_eq
  intro j narrow
  have place : i < w := by omega
  rw [getLsbD_setWidth, getLsbD_shiftLeft, getLsbD_and, getLsbD_ushiftRight, getLsbD_shiftLeft, getLsbD_setWidth,
    getLsbD_ofBool, BitVec.getLsbD_one]
  obtain below | rfl | above := Nat.lt_trichotomy j i
  · simp [below]
  · simp [narrow, place, pos, BitVec.msb_eq_getLsbD_last]
  · have apart : ¬ j - i = 0 := by omega
    simp [apart]

theorem moveByteMask_eq (small : m ≤ 32) : moveByteMask m v = signs 8 m v := by
  refine foldl_signs v small fun d i lt => ?_
  have sign : (lane 8 v i &&& 0x80 ≠ 0) ↔ (lane 8 v i).msb = true := by
    generalize lane 8 v i = x
    revert x
    decide
  by_cases set : (lane 8 v i).msb = true
  · rw [if_pos (sign.mpr set), set]
    rfl
  · rw [if_neg (mt sign.mp set), Bool.eq_false_iff.mpr set]
    simp

end Masks

/-! ### Registers -/

section Registers

variable (s : Cpu) (r : Fin 16)

/-- A member of a register assigned is the whole value exactly if nothing stands above it. -/
theorem setLow_extends_iff {n : Nat} (cell : BitVec 64) (v : BitVec n) :
    setLow cell v = v.setWidth 64 ↔ cell >>> n = 0 := by
  have none : (v.setWidth 64) >>> n = 0#64 := by
    apply eq_of_getLsbD_eq
    intro j lt
    rw [getLsbD_ushiftRight, getLsbD_setWidth, getLsbD_of_ge v (n + j) (by omega), Bool.and_false, getLsbD_zero]
  constructor
  · intro whole
    apply eq_of_getLsbD_eq
    intro j lt
    have bit := congrArg (fun x => x.getLsbD (n + j)) whole
    by_cases inside : n + j < 64
    · have past : ¬ n + j < n := by omega
      simpa [setLow, inside, past, getLsbD_of_ge v (n + j)] using bit
    · rw [getLsbD_ushiftRight, getLsbD_of_ge cell (n + j) (by omega)]
      exact getLsbD_zero.symm
  · intro clear
    rw [setLow, clear]
    simp

/-- Two values put into one register. -/
theorem update_reg_inj {a b : BitVec 64} :
    ({ s with emu := { s.emu with regs := update s.emu.regs r a } } : Cpu) =
      { s with emu := { s.emu with regs := update s.emu.regs r b } } ↔ a = b := by
  refine ⟨fun same => ?_, fun same => by rw [same]⟩
  have here := congrArg (fun s : Cpu => s.emu.regs r) same
  simpa only [Function.update_self] using here

theorem assign_whole (v : BitVec 64) : s.assign v (.reg r) = Extracted.deliver ⟨64, v, .general r, s⟩ := by
  simp only [Cpu.assign, X64Emu.setReg, setLow_full, Extracted.deliver, setWidth_eq]

theorem assign_widened {n : Nat} (v : BitVec n) :
    s.assign (v.setWidth 64) (.reg r) = Extracted.deliver ⟨n, v, .general r, s⟩ := by
  simp only [Cpu.assign, X64Emu.setReg, setLow_full, Extracted.deliver]

theorem assign_low_iff {n : Nat} (v : BitVec n) (narrow : n ≤ 32) :
    s.assign (v.setWidth 32) (.reg r) = Extracted.deliver ⟨n, v, .general r, s⟩ ↔ Extended (s.reg r) := by
  have twice : (v.setWidth 32).setWidth 64 = v.setWidth 64 := by
    apply eq_of_getLsbD_eq
    intro j lt
    rw [getLsbD_setWidth, getLsbD_setWidth, getLsbD_setWidth]
    by_cases inside : j < 32
    · simp [inside, lt]
    · simp [getLsbD_of_ge v j (by omega)]
  rw [extended_iff, Cpu.reg, ← setLow_extends_iff (s.emu.regs r) (v.setWidth 32), twice]
  exact update_reg_inj s r

theorem assign_dword_iff (v : BitVec 32) :
    s.assign v (.reg r) = Extracted.deliver ⟨32, v, .general r, s⟩ ↔ Extended (s.reg r) := by
  have iff := assign_low_iff s r v (Nat.le_refl 32)
  rwa [setWidth_eq] at iff

/-- Four bytes too many leave the memory right exactly if they are zero already. -/
theorem assign_quad_iff (v : BitVec 32) (a : BitVec 64) :
    s.assign (v.setWidth 64) (.mem a) = Extracted.deliver ⟨32, v, .memory a, s⟩ ↔ s.mem.load 32 (a + 4#64) = 0 := by
  have low : (v.setWidth 64).extractLsb' 0 32 = v := by
    ext j lt
    have inside : j < 64 := by omega
    simp [lt, inside]
  have high : (v.setWidth 64).extractLsb' 32 32 = 0#32 := by
    ext j lt
    simp
  have apart : Memory.load 32 (s.mem.store a v) (a + 4#64) = s.mem.load 32 (a + 4#64) := by
    have apart := Memory.load_store_apart (n := 32) (i := 4) (j := 0) s.mem a v (by decide) (by decide) (by decide) (by decide)
    rwa [BitVec.add_zero] at apart
  have stores : s.mem.store a (v.setWidth 64) = s.mem.store a v ↔ s.mem.load 32 (a + 4#64) = 0 := by
    rw [Memory.store_halves, low, high, Memory.store_eq_self _ _ _ (by decide) (by decide)]
    exact iff_of_eq (congrArg (· = _) apart)
  rw [← stores]
  constructor
  · intro same
    exact congrArg (fun s : Cpu => s.mem) same
  · intro same
    simp only [Cpu.assign, Extracted.deliver, same]

theorem clearHigh_setReg (emu : X64Emu) (v : BitVec 32) :
    (emu.setReg r v).clearHigh r = { emu with regs := update emu.regs r (v.setWidth 64) } := by
  have read : (emu.setReg r v).reg .w32 r = v := by
    rw [X64Emu.reg, setReg_regs, Function.update_self]
    exact low_setLow (by decide) _ v
  unfold X64Emu.clearHigh
  rw [read]
  simp only [X64Emu.setWhole, X64Emu.setReg, setLow_full, Function.update_idem]
  rfl

/-- Without `REX`, `ModRM` names the low byte of one of the first four registers or the second byte of one. -/
theorem low_register : ∀ nextop : BitVec 8, nextop.getLsbD 2 = false →
    Fin.ofNat 16 (nextop &&& 3).toNat = regNumber nextop false := by decide

theorem high_register : ∀ nextop : BitVec 8, nextop.getLsbD 2 = true →
    regNumber nextop false ≠ Fin.ofNat 16 (nextop &&& 3).toNat := by decide

theorem putByte_low (emu : X64Emu) (v : BitVec 8) : emu.putByte ⟨r, false⟩ v = setLow (emu.regs r) v := by
  apply eq_of_getLsbD_eq
  intro j lt
  simp only [X64Emu.putByte, Bool.false_eq_true, if_false]
  rw [getLsbD_insertByte (by decide)]
  by_cases inside : j < 8
  · simp [setLow, inside, lt]
  · have past : 8 ≤ j := Nat.le_of_not_lt inside
    simp [setLow, inside, lt, past]

theorem putByte_getByte (emu : X64Emu) (g : ByteReg) : emu.putByte g (emu.getByte g) = emu.regs g.reg := by
  apply eq_of_getLsbD_eq
  intro j lt
  have fits : (if g.high then 8 else 0) + 8 ≤ 64 := by cases g.high <;> decide
  rw [X64Emu.putByte, getLsbD_insertByte fits, X64Emu.getByte]
  generalize (if g.high then 8 else 0) = k
  split
  case isTrue inside => rw [getLsbD_extractLsb', decide_eq_true (by omega), Bool.true_and, Nat.add_sub_cancel' inside.1]
  case isFalse => rfl

/-- A byte assigned where it belongs. -/
theorem writeByte_low_iff (v : BitVec 8) :
    s.writeByte v (.reg ⟨r, false⟩) = Extracted.deliver ⟨8, v, .general r, s⟩ ↔ s.reg r >>> 8 = 0 := by
  rw [Cpu.reg, ← setLow_extends_iff (s.emu.regs r) v, ← putByte_low r]
  exact update_reg_inj s r

/-- A byte assigned to another register than the one it belongs to. -/
theorem writeByte_other_iff {g : ByteReg} (other : r ≠ g.reg) (v : BitVec 8) :
    s.writeByte v (.reg g) = Extracted.deliver ⟨8, v, .general r, s⟩ ↔
      s.reg r = v.setWidth 64 ∧ s.emu.getByte g = v := by
  constructor
  · intro same
    have regs := congrArg (fun s : Cpu => s.emu.regs) same
    simp only [Cpu.writeByte, setByte_regs, Extracted.deliver] at regs
    have here := congrFun regs r
    have there := congrFun regs g.reg
    rw [Function.update_of_ne other, Function.update_self] at here
    rw [Function.update_self, Function.update_of_ne other.symm] at there
    refine ⟨here, ?_⟩
    have read := getByte_setByte s.emu g v
    rwa [X64Emu.getByte, setByte_regs, Function.update_self, there] at read
  · rintro ⟨holds, rfl⟩
    simp only [Cpu.writeByte, X64Emu.setByte, Extracted.deliver, putByte_getByte, ← holds, Cpu.reg,
      Function.update_eq_self]

end Registers

/-! ### The cases, one by one -/

section Cases

variable (code : Memory) (rex : Rex) (s : Cpu)

/-- An immediate masked by a power of two less one picks a lane modulo that power. -/
theorem imm_mod (imm : BitVec 8) :
    (imm &&& 1).toNat = imm.toNat % 2 ∧ (imm &&& 3).toNat = imm.toNat % 4 ∧ (imm &&& 7).toNat = imm.toNat % 8 ∧
      (imm &&& 0x0f).toNat = imm.toNat % 16 := by
  revert imm
  decide

theorem GetEd_reg {nextop delta : BitVec 8} (register : MODREG nextop) :
    GetEd code rex s nextop delta = (.reg (regNumber nextop rex.b), s) := if_pos register

/-- In memory, the fetches leave what else there is. -/
theorem GetEd_mem {nextop : BitVec 8} (delta : BitVec 8) (memory : ¬ MODREG nextop) :
    ∃ a R_RIP, GetEd code rex s nextop delta = (.mem a, { s with R_RIP }) := ⟨_, _, if_neg memory⟩

theorem GetEd_decoded {nextop delta : BitVec 8} :
    MODREG nextop ↔ ∃ r, (GetEd code rex s nextop delta).1 = .reg r := by
  by_cases register : MODREG nextop
  · rw [GetEd_reg code rex s register]
    exact iff_of_true register ⟨_, rfl⟩
  · obtain ⟨a, R_RIP, decoded⟩ := GetEd_mem code rex s delta register
    rw [decoded]
    exact iff_of_false register fun ⟨r, same⟩ => nomatch same

/-- `GETEB` finds the same operand in memory, and the register of a byte. -/
theorem GetEb_mem {nextop : BitVec 8} (delta : BitVec 8) (memory : ¬ MODREG nextop) :
    ∃ a R_RIP, GetEd code rex s nextop delta = (.mem a, { s with R_RIP }) ∧
      GetEb code rex s nextop delta = (.mem a, { s with R_RIP }) := ⟨_, _, if_neg memory, if_neg memory⟩

theorem GetEb_reg {nextop delta : BitVec 8} (register : MODREG nextop) :
    GetEb code rex s nextop delta =
      (.reg (if rex.rex ≠ 0 then ⟨regNumber nextop rex.b, false⟩
        else ⟨Fin.ofNat 16 (nextop &&& 3).toNat, nextop.getLsbD 2⟩), s) := if_pos register

/-- `MOVD` and `MOVQ` to `ED`. -/
theorem moveED_exact (s : Cpu) {nextop : BitVec 8} {ED : Oped (Fin 16)} (wide : BitVec 64) (narrow : BitVec 32)
    (decoded : MODREG nextop ↔ ∃ r, ED = .reg r) :
    moveED rex s nextop ED wide narrow = (extractedED rex s wide narrow ED.general).deliver := by
  unfold moveED extractedED
  cases ED with
  | reg r =>
    rw [if_pos (decoded.mpr ⟨r, rfl⟩)]
    split
    · exact assign_whole s r wide
    · exact assign_widened s r narrow
  | mem a =>
    rw [if_neg fun register => nomatch decoded.mp register]
    split
    · rfl
    · rfl

/-- The case leaves what the transfer is for. -/
def Transfer.Exact (op : Transfer) : Prop := ∀ out ∈ op.exec code rex s, out = (op.extracted code rex s).deliver

theorem Transfer.exact_some {op : Transfer} {out : Cpu} (done : op.exec code rex s = some out) :
    op.Exact code rex s ↔ out = (op.extracted code rex s).deliver := by
  simp [Exact, done]

theorem MOVMSKPS_exact : Transfer.MOVMSKPS_Gd_Ex.Exact code rex s := by
  rw [Transfer.exact_some code rex s rfl, moveMask_eq _ (by decide) (by decide) (by decide)]
  exact assign_widened _ _ _

theorem PEXTRW_Em_exact : Transfer.PEXTRW_Gw_Em.Exact code rex s := by
  rw [Transfer.exact_some code rex s rfl, (imm_mod _).2.1]
  exact assign_widened _ _ _

theorem MOVMSKPD_exact_iff : Transfer.MOVMSKPD_Gd_Ex.Exact code rex s ↔ Transfer.MOVMSKPD_Gd_Ex.Meets code rex s := by
  rw [Transfer.exact_some code rex s rfl, moveMask_eq _ (by decide) (by decide) (by decide)]
  exact assign_dword_iff _ _ _

theorem PMOVMSKB_Em_exact_iff : Transfer.PMOVMSKB_Gd_Em.Exact code rex s ↔ Transfer.PMOVMSKB_Gd_Em.Meets code rex s := by
  rw [Transfer.exact_some code rex s rfl, moveByteMask_eq _ (by decide)]
  exact assign_dword_iff _ _ _

theorem PEXTRW_Ex_exact_iff : Transfer.PEXTRW_Gw_Ex.Exact code rex s ↔ Transfer.PEXTRW_Gw_Ex.Meets code rex s := by
  rw [Transfer.exact_some code rex s rfl, (imm_mod _).2.2.1]
  exact assign_low_iff _ _ _ (by decide)

theorem PMOVMSKB_Ex_exact : Transfer.PMOVMSKB_Gd_Ex.Exact code rex s := by
  unfold Transfer.Exact Transfer.exec
  dsimp only
  split
  · intro out done
    obtain rfl := Option.some.inj done
    rw [moveByteMask_eq _ (by decide)]
    exact assign_widened _ _ _
  · intro out refused
    cases refused

theorem MOVD_Gm_exact : Transfer.MOVD_Ed_Gm.Exact code rex s := by
  rw [Transfer.exact_some code rex s rfl]
  exact moveED_exact rex _ _ _ (GetEd_decoded code rex _)

theorem MOVD_Gx_exact : Transfer.MOVD_Ed_Gx.Exact code rex s := by
  rw [Transfer.exact_some code rex s rfl]
  exact moveED_exact rex _ _ _ (GetEd_decoded code rex _)

theorem MOVQ_Em_exact : Transfer.MOVQ_Em_Gm.Exact code rex s := by
  unfold Transfer.Exact Transfer.exec Transfer.extracted
  generalize fetch code s 8 = fetched
  obtain ⟨nextop, s⟩ := fetched
  dsimp only
  generalize GetEm code rex s nextop 0 = decoded
  obtain ⟨EM, s⟩ := decoded
  intro out done
  cases EM with
  | reg r =>
    obtain rfl := Option.some.inj done
    simp only [X87.setMmx, Extracted.deliver, setWidth_eq]
  | mem a =>
    obtain rfl := Option.some.inj done
    rfl

/-- The low half of an SSE register written and the high one cleared. -/
theorem setLane_zero_high (v : BitVec 128) (q : BitVec 64) :
    setLane (setLane v 0 q) 1 (0 : BitVec 64) = q.setWidth 128 := by
  apply eq_of_getLsbD_eq
  intro j lt
  rw [getLsbD_setLane _ _ _ lt, getLsbD_setLane _ _ _ lt, getLsbD_setWidth]
  by_cases low : j < 64
  · simp [low, lt]
  · have high : 64 ≤ j := Nat.le_of_not_lt low
    simp [high, lt]

theorem MOVQ_Ex_exact : Transfer.MOVQ_Ex_Gx.Exact code rex s := by
  unfold Transfer.Exact Transfer.exec Transfer.extracted
  generalize fetch code s 8 = fetched
  obtain ⟨nextop, s⟩ := fetched
  dsimp only
  generalize GetEd code rex s nextop 0 = decoded
  obtain ⟨EX, s⟩ := decoded
  intro out done
  cases EX with
  | reg r =>
    obtain rfl := Option.some.inj done
    simp only [setLane_zero_high, Extracted.deliver]
  | mem a =>
    obtain rfl := Option.some.inj done
    rfl

theorem PEXTRD_exact_iff : Transfer.PEXTRD_ED_GX.Exact code rex s ↔ Transfer.PEXTRD_ED_GX.Meets code rex s := by
  unfold Transfer.Exact Transfer.Meets Transfer.exec Transfer.extracted extractedED
  generalize fetch code s 8 = fetched
  obtain ⟨nextop, s⟩ := fetched
  dsimp only
  generalize GetEd code rex s nextop 1 = decoded
  obtain ⟨ED, s⟩ := decoded
  obtain ⟨two, four, -, -⟩ := imm_mod (fetch code s 8).1
  dsimp only
  rw [two, four]
  by_cases wide : rex.w
  · simp only [wide, if_true, Option.mem_some_iff, forall_eq', true_or]
    cases ED with
    | reg r => exact iff_of_true (assign_whole _ r _) trivial
    | mem a => exact iff_of_true rfl trivial
  · simp only [wide, Bool.false_eq_true, if_false, Option.mem_some_iff, forall_eq', false_or]
    cases ED with
    | reg r => exact iff_of_true (assign_widened _ r _) trivial
    | mem a => exact assign_quad_iff _ _ a

theorem EXTRACTPS_exact_iff :
    Transfer.EXTRACTPS_ED_GX.Exact code rex s ↔ Transfer.EXTRACTPS_ED_GX.Meets code rex s := by
  unfold Transfer.Exact Transfer.Meets Transfer.exec Transfer.extracted
  generalize fetch code s 8 = fetched
  obtain ⟨nextop, s⟩ := fetched
  dsimp only
  generalize GetEd code rex s nextop 1 = decoded
  obtain ⟨ED, s⟩ := decoded
  obtain ⟨-, four, -, -⟩ := imm_mod (fetch code s 8).1
  dsimp only
  rw [four]
  cases ED with
  | mem a =>
    refine iff_of_true (fun out done => ?_) trivial
    obtain rfl := Option.some.inj done
    rfl
  | reg r =>
    simp only [Option.mem_some_iff, forall_eq']
    by_cases wide : rex.w
    · simp only [wide, if_true]
      refine iff_of_true ?_ (.inl trivial)
      simp only [Cpu.assign, clearHigh_setReg, Extracted.deliver]
      rfl
    · simp only [wide, Bool.false_eq_true, if_false, false_or]
      exact assign_dword_iff _ r _

theorem PEXTRB_exact_iff : Transfer.PEXTRB_EB_GX.Exact code rex s ↔ Transfer.PEXTRB_EB_GX.Meets code rex s := by
  unfold Transfer.Exact Transfer.Meets Transfer.exec Transfer.extracted
  generalize fetch code s 8 = fetched
  obtain ⟨nextop, s⟩ := fetched
  dsimp only
  by_cases register : MODREG nextop
  · rw [GetEd_reg code rex s register, GetEb_reg code rex s register]
    dsimp only [Oped.general]
    rw [(imm_mod _).2.2.2]
    simp only [Option.mem_some_iff, forall_eq', setWidth_eq]
    by_cases high : rex.rex = 0 ∧ nextop.getLsbD 2
    · obtain ⟨zero, bit⟩ := high
      have other := high_register nextop bit
      have plain : rex.b = false := by rw [Rex.b, zero]; rfl
      rw [if_neg (not_not_intro zero), if_pos (And.intro zero bit), bit, plain]
      exact writeByte_other_iff _ _ other _
    · rw [if_neg high]
      split
      · exact writeByte_low_iff _ _ _
      · rename_i zero
        have zero := not_not.mp zero
        have bit : nextop.getLsbD 2 = false := Bool.eq_false_iff.mpr fun bit => high ⟨zero, bit⟩
        have plain : rex.b = false := by rw [Rex.b, zero]; rfl
        rw [bit, plain, low_register nextop bit]
        exact writeByte_low_iff _ _ _
  · obtain ⟨a, R_RIP, ed, eb⟩ := GetEb_mem code rex s 1 register
    rw [ed, eb]
    refine iff_of_true (fun out done => ?_) trivial
    obtain rfl := Option.some.inj done
    rw [(imm_mod _).2.2.2]
    rfl

theorem Transfer.exact_iff (op : Transfer) : op.Exact code rex s ↔ op.Meets code rex s := by
  cases op with
  | MOVMSKPS_Gd_Ex => exact iff_of_true (MOVMSKPS_exact code rex s) trivial
  | MOVD_Ed_Gm => exact iff_of_true (MOVD_Gm_exact code rex s) trivial
  | MOVQ_Em_Gm => exact iff_of_true (MOVQ_Em_exact code rex s) trivial
  | PEXTRW_Gw_Em => exact iff_of_true (PEXTRW_Em_exact code rex s) trivial
  | PMOVMSKB_Gd_Em => exact PMOVMSKB_Em_exact_iff code rex s
  | PEXTRB_EB_GX => exact PEXTRB_exact_iff code rex s
  | PEXTRD_ED_GX => exact PEXTRD_exact_iff code rex s
  | EXTRACTPS_ED_GX => exact EXTRACTPS_exact_iff code rex s
  | MOVMSKPD_Gd_Ex => exact MOVMSKPD_exact_iff code rex s
  | MOVD_Ed_Gx => exact iff_of_true (MOVD_Gx_exact code rex s) trivial
  | PEXTRW_Gw_Ex => exact PEXTRW_Ex_exact_iff code rex s
  | MOVQ_Ex_Gx => exact iff_of_true (MOVQ_Ex_exact code rex s) trivial
  | PMOVMSKB_Gd_Ex => exact iff_of_true (PMOVMSKB_Ex_exact code rex s) trivial

/-- A transfer writes its destination, all of it and nothing else, exactly in the cases and states that `Meets` has. -/
theorem transfer_exact_iff (map : TransferMap) {op : Transfer} {s' : Cpu} (decoded : map.fetchOp code s = some (op, s')) :
    (∀ out ∈ map.run code rex s, out = (op.extracted code rex s').deliver) ↔ op.Meets code rex s' := by
  rw [TransferMap.run, decoded]
  exact Transfer.exact_iff code rex s' op

end Cases

/-- Every register has something in its upper half. -/
def transferring : Cpu where
  emu := Insn.sampleEmu
  DF := false
  mem _ := 0
  fpu := ⟨fun _ => 0, fun _ => 0, fun _ => 0, 0, 0, 0, fun _ => 0⟩
  segs _ := 0
  R_RIP := 0

/-- `pmovmskb eax, mm0`, without `0x0F`. -/
def pmovmskb : Memory := fun a => if a = 0 then 0xD7 else 0xC0

theorem transfer_exact_iff_pmovmskb :
    (∀ out ∈ TransferMap.Run0F.run pmovmskb ⟨0⟩ transferring,
        out = (Transfer.PMOVMSKB_Gd_Em.extracted pmovmskb ⟨0⟩ { transferring with R_RIP := 1 }).deliver) ↔
      Transfer.PMOVMSKB_Gd_Em.Meets pmovmskb ⟨0⟩ { transferring with R_RIP := 1 } :=
  transfer_exact_iff pmovmskb ⟨0⟩ transferring .Run0F rfl

/-- The mask of an `mmx` register leaves the upper half of `RAX` as it was. -/
theorem pmovmskb_keeps_upper :
    ¬ ∀ (map : TransferMap) (code : Memory) (rex : Rex) (s : Cpu) (op : Transfer) (s' : Cpu),
      map.fetchOp code s = some (op, s') → ∀ out ∈ map.run code rex s, out = (op.extracted code rex s').deliver := by
  intro all
  have exact := all .Run0F pmovmskb ⟨0⟩ transferring .PMOVMSKB_Gd_Em { transferring with R_RIP := 1 } rfl
  have meets : Transfer.PMOVMSKB_Gd_Em.Meets pmovmskb ⟨0⟩ { transferring with R_RIP := 1 } :=
    (PMOVMSKB_Em_exact_iff _ _ _).mp exact
  have extended : Extended (0x700000003#64) := meets
  revert extended
  decide

end Box64.Emu
