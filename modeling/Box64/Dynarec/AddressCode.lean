import Box64.Dynarec.EmitFragments

/-!
# Code that computes addresses

The instructions `geted` uses besides those of the flag emitters, what each of them does to the host state, and the
constants it loads with them.
-/

namespace Box64.Arm64

open BitVec Emu CarryChain

/-! ### Code -/

inductive AddrInst where
  | plain (i : Inst)
  | MOVZ (sf : Bool) (rd : Reg) (imm16 : BitVec 16)
  | MOVN (sf : Bool) (rd : Reg) (imm16 : BitVec 16)
  /-- `MOVK_LSL`. -/
  | MOVK (sf : Bool) (rd : Reg) (imm16 : BitVec 16) (lsl : Nat)
  /-- The load of an entry of `Table64`. -/
  | LDRx_literal (rd : Reg) (v : BitVec 64)

/-- The 16 bits at `lsl` replaced. -/
def putPiece {n : Nat} (x : BitVec n) (imm16 : BitVec 16) (lsl : Nat) : BitVec n :=
  (x &&& ~~~(0xffff#n <<< lsl)) ||| (imm16.setWidth n <<< lsl)

def AddrInst.effect (host : Host) (m : Cpu) : AddrInst → Cpu
  | plain i => i.effect host m
  | MOVZ sf rd imm16 => m.set rd (imm16.setWidth (opSize sf))
  | MOVN sf rd imm16 => m.set rd (~~~(imm16.setWidth (opSize sf)))
  | MOVK sf rd imm16 lsl => m.set rd (putPiece (m.get sf rd) imm16 lsl)
  | LDRx_literal rd v => m.set rd v

def runAddr (host : Host) (code : List AddrInst) (m : Cpu) : Cpu := code.foldl (AddrInst.effect host) m

def ADD_REG_LSL (sf : Bool) (rd rn rm : Reg) (lsl : Nat) : AddrInst := .plain (.alu .ADD false sf rd rn (.shifted rm .lsl lsl))

/-- `ADD` or `SUB` of a register. -/
def ADDSUB_REG (sub sf : Bool) (rd rn rm : Reg) : AddrInst :=
  .plain (.alu (if sub then .SUB else .ADD) false sf rd rn (.reg rm))

/-- `ADD` or `SUB` of `(imm12)&0xfff`. -/
def ADDSUB_U12 (sub sf : Bool) (rd rn : Reg) (imm12 : BitVec 64) : AddrInst :=
  .plain (.alu (if sub then .SUB else .ADD) false sf rd rn (.imm ((imm12.setWidth 12).setWidth 64)))

/-- A `MOVK_LSL` for 16 bits of a constant unless they are 0. -/
def movPiece (sf : Bool) (rd : Reg) {n : Nat} (imm : BitVec n) (lsl : Nat) : List AddrInst :=
  if imm &&& (0xffff#n <<< lsl) ≠ 0 then [.MOVK sf rd ((imm >>> lsl).setWidth 16) lsl] else []

/-- The common shape of `MOV32w` and `MOV64x`. -/
def movConstant (sf : Bool) (rd : Reg) {n : Nat} (imm : BitVec n) (lsls : List Nat) : List AddrInst :=
  if ~~~imm < 0xffff then [.MOVN sf rd ((~~~imm).setWidth 16)]
  else .MOVZ sf rd (imm.setWidth 16) :: lsls.flatMap (movPiece sf rd imm)

def MOV32w (rd : Reg) (imm32 : BitVec 32) : List AddrInst := movConstant false rd imm32 [16]

def MOV64x (rd : Reg) (imm64 : BitVec 64) : List AddrInst := movConstant true rd imm64 [16, 32, 48]

/-- The code, and the new `last_ip`. -/
def GETIP (last_ip A : BitVec 64) : List AddrInst × BitVec 64 :=
  if last_ip ≠ 0 ∧ A - last_ip < 0x1000 then
    (if A - last_ip ≠ 0 then [ADDSUB_U12 false true xRIP xRIP (A - last_ip)] else [], last_ip + (A - last_ip))
  else (if A < 0xffffffff then MOV64x xRIP A else [.LDRx_literal xRIP A], A)

/-! ### Effects -/

/-- A value cut to the operand size. -/
def narrow (sf : Bool) (x : BitVec 64) : BitVec 64 := (low (opSize sf) x).setWidth 64

@[simp] theorem narrow_true (x : BitVec 64) : narrow true x = x := by
  rw [narrow, low]
  exact BitVec.setWidth_setWidth_of_le x (Nat.le_refl 64) |>.trans (BitVec.setWidth_eq x)

@[simp] theorem low_narrow (sf : Bool) (x : BitVec 64) : low (opSize sf) (narrow sf x) = low (opSize sf) x := by
  rw [narrow, low, BitVec.setWidth_setWidth_of_le _ (opSize_le sf), BitVec.setWidth_eq]

theorem low_add (sf : Bool) (x y : BitVec 64) : low (opSize sf) (x + y) = low _ x + low _ y :=
  BitVec.setWidth_add x y (opSize_le sf)

theorem low_neg (sf : Bool) (x : BitVec 64) : low (opSize sf) (-x) = -low _ x :=
  BitVec.setWidth_neg_of_le (opSize_le sf)

theorem low_shiftLeft (sf : Bool) (x : BitVec 64) (k : Nat) : low (opSize sf) (x <<< k) = low _ x <<< k :=
  BitVec.setWidth_shiftLeft_of_le (opSize_le sf)

namespace Cpu

variable (m : Cpu) {r : Reg}

theorem set_zext {n : Nat} (v : BitVec n) : m.set r (v.setWidth 64) = m.set r v := by
  rw [set, set, BitVec.setWidth_eq]

theorem set_set {n k : Nat} (v : BitVec n) (w : BitVec k) : (m.set r v).set r w = m.set r w := by
  rw [set, set, set]
  split
  · rfl
  · rw [Function.update_idem]

theorem set_self : m.set r (m.regs r) = m := by
  rw [set, BitVec.setWidth_eq, Function.update_eq_self]
  split <;> rfl

end Cpu

section Effects

variable (host : Host) (m : Cpu) (sf : Bool) {rd rn rm : Reg}

theorem effect_ADD_REG_LSL (lsl : Nat) (realn : rn ≠ xZR) (realm : rm ≠ xZR) :
    (ADD_REG_LSL sf rd rn rm lsl).effect host m = m.set rd (narrow sf (m.regs rn + (m.regs rm <<< lsl))) := by
  rw [narrow, Cpu.set_zext, low_add, low_shiftLeft, ← addc_false, ← m.get_of_ne rn sf realn, ← m.get_of_ne rm sf realm]
  rfl

theorem effect_ADDSUB_REG (sub : Bool) (realn : rn ≠ xZR) (realm : rm ≠ xZR) :
    (ADDSUB_REG sub sf rd rn rm).effect host m =
      m.set rd (narrow sf (m.regs rn + if sub then -m.regs rm else m.regs rm)) := by
  rw [narrow, Cpu.set_zext, low_add]
  cases sub with
  | false =>
    rw [if_neg Bool.false_ne_true, ← addc_false, ← m.get_of_ne rn sf realn, ← m.get_of_ne rm sf realm]
    rfl
  | true =>
    rw [if_pos rfl, low_neg, ← BitVec.sub_eq_add_neg, ← addc_not, ← m.get_of_ne rn sf realn, ← m.get_of_ne rm sf realm]
    rfl

theorem effect_ADDSUB_U12 (sub : Bool) {imm12 : BitVec 64} (realn : rn ≠ xZR) (small : imm12 < 0x1000) :
    (ADDSUB_U12 sub sf rd rn imm12).effect host m =
      m.set rd (narrow sf (m.regs rn + if sub then -imm12 else imm12)) := by
  have whole : (imm12.setWidth 12).setWidth 64 = imm12 := by
    apply BitVec.eq_of_toNat_eq
    have bound : imm12.toNat < 0x1000 := small
    rw [BitVec.toNat_setWidth, BitVec.toNat_setWidth]
    omega
  rw [ADDSUB_U12, whole, narrow, Cpu.set_zext, low_add]
  cases sub with
  | false =>
    rw [if_neg Bool.false_ne_true, ← addc_false, ← m.get_of_ne rn sf realn]
    rfl
  | true =>
    have negated : low (opSize sf) (if true = true then -imm12 else imm12) = -low _ imm12 := low_neg sf imm12
    rw [negated, ← BitVec.sub_eq_add_neg, ← addc_not, ← m.get_of_ne rn sf realn]
    rfl

theorem effect_LSL (lsl : Nat) (realn : rn ≠ xZR) :
    (AddrInst.plain (.shift .lsl sf rd rn lsl)).effect host m = m.set rd (narrow sf (m.regs rn <<< lsl)) := by
  rw [narrow, Cpu.set_zext, low_shiftLeft, ← m.get_of_ne rn sf realn]
  rfl

theorem effect_MOVw_REG (realn : rn ≠ xZR) :
    (AddrInst.plain (.alu .ORR false false rd xZR (.reg rn))).effect host m = m.set rd (narrow false (m.regs rn)) := by
  have copy : m.get false xZR ||| m.get false rn = low _ (m.regs rn) := by
    rw [m.get_xZR false, m.get_of_ne rn false realn]
    exact BitVec.zero_or
  rw [narrow, Cpu.set_zext, ← copy]
  rfl

end Effects
/-! ### Constants -/

section Constants

variable (host : Host) (m : Cpu) (sf : Bool) {rd : Reg}

@[simp] theorem runAddr_nil : runAddr host [] m = m := rfl

@[simp] theorem runAddr_cons (i : AddrInst) (rest : List AddrInst) :
    runAddr host (i :: rest) m = runAddr host rest (i.effect host m) := rfl

theorem runAddr_append (a b : List AddrInst) : runAddr host (a ++ b) m = runAddr host b (runAddr host a m) :=
  List.foldl_append

def lowPart {n : Nat} (k : Nat) (imm : BitVec n) : BitVec n := (imm.setWidth k).setWidth n

theorem getLsbD_lowPart {n i : Nat} (k : Nat) (imm : BitVec n) (lt : i < n) :
    (lowPart k imm).getLsbD i = (decide (i < k) && imm.getLsbD i) := by
  rw [lowPart, getLsbD_setWidth, getLsbD_setWidth]
  simp only [lt, decide_true, Bool.true_and]

theorem lowPart_all {n : Nat} (imm : BitVec n) : lowPart n imm = imm := by
  rw [lowPart, BitVec.setWidth_eq, BitVec.setWidth_eq]

theorem bit_ones {n i : Nat} (lsl : Nat) (lt : i < n) :
    (0xffff#n <<< lsl).getLsbD i = decide (lsl ≤ i ∧ i < lsl + 16) := by
  have ones : (0xffff#n).getLsbD (i - lsl) = decide (i - lsl < n ∧ i - lsl < 16) := by
    rw [show (0xffff#n) = BitVec.ofNat n (2 ^ 16 - 1) from rfl, getLsbD_ofNat, Nat.testBit_two_pow_sub_one, ← Bool.decide_and]
  rw [getLsbD_shiftLeft, ones]
  have inside : lsl ≤ i → i - lsl < n := fun _ => by omega
  by_cases le : lsl ≤ i
  · have near : i - lsl < 16 ↔ i < lsl + 16 := by omega
    simp [lt, le, inside le, near]
  · have below : i < lsl := by omega
    simp [le, below]

theorem putPiece_eq {n : Nat} (imm : BitVec n) (lsl : Nat) :
    putPiece (lowPart lsl imm) ((imm >>> lsl).setWidth 16) lsl = lowPart (lsl + 16) imm := by
  apply eq_of_getLsbD_eq
  intro i lt
  rw [putPiece, getLsbD_or, getLsbD_and, getLsbD_not, bit_ones lsl lt, getLsbD_shiftLeft, getLsbD_setWidth,
    getLsbD_setWidth, getLsbD_ushiftRight, getLsbD_lowPart _ _ lt, getLsbD_lowPart _ _ lt]
  by_cases below : i < lsl
  · have early : i < lsl + 16 := by omega
    have outside : ¬ lsl ≤ i := by omega
    simp [below, early, outside, lt]
  · have inside : i - lsl < n := by omega
    have position : lsl + (i - lsl) = i := by omega
    have near : i - lsl < 16 ↔ i < lsl + 16 := by omega
    simp [below, lt, inside, position, near]

theorem run_movPiece (imm : BitVec (opSize sf)) (lsl : Nat) (real : rd ≠ xZR) :
    runAddr host (movPiece sf rd imm lsl) (m.set rd (lowPart lsl imm)) = m.set rd (lowPart (lsl + 16) imm) := by
  rw [movPiece]
  split
  case isTrue =>
    have before : (m.set rd (lowPart lsl imm)).get sf rd = lowPart lsl imm := by
      rw [Cpu.get_of_ne _ rd sf real, Cpu.set_regs m rd _ real, low, setWidth_setWidth_of_le _ (opSize_le sf),
        BitVec.setWidth_eq]
    change (m.set rd _).set rd (putPiece ((m.set rd _).get sf rd) _ lsl) = _
    rw [before, putPiece_eq, Cpu.set_set]
  case isFalse none =>
    have same : lowPart lsl imm = lowPart (lsl + 16) imm := by
      apply eq_of_getLsbD_eq
      intro i lt
      have zero := congrArg (·.getLsbD i) (Classical.not_not.mp none)
      rw [getLsbD_and, bit_ones lsl lt] at zero
      rw [getLsbD_lowPart _ _ lt, getLsbD_lowPart _ _ lt]
      by_cases below : i < lsl
      · have early : i < lsl + 16 := by omega
        simp only [below, early]
      · have le : lsl ≤ i := by omega
        by_cases near : i < lsl + 16
        · have bit : imm.getLsbD i = false := by simpa [le, near] using zero
          rw [bit, Bool.and_false, Bool.and_false]
        · simp only [below, near]
    rw [← same]
    rfl

theorem run_movConstant (imm : BitVec (opSize sf)) (lsls : List Nat)
    (pieces : ∀ m : Cpu, runAddr host (lsls.flatMap (movPiece sf rd imm)) (m.set rd (lowPart 16 imm)) = m.set rd imm) :
    runAddr host (movConstant sf rd imm lsls) m = m.set rd imm := by
  rw [movConstant]
  split
  case isTrue small =>
    have whole : ~~~(((~~~imm).setWidth 16).setWidth (opSize sf)) = imm := by
      have bound : (~~~imm).toNat < 0xffff := by
        refine Nat.lt_of_lt_of_le small ?_
        exact Nat.mod_le _ _
      have kept : ((~~~imm).setWidth 16).setWidth (opSize sf) = ~~~imm := by
        apply BitVec.eq_of_toNat_eq
        rw [BitVec.toNat_setWidth, BitVec.toNat_setWidth, Nat.mod_eq_of_lt (a := (~~~imm).toNat) (by omega),
          Nat.mod_eq_of_lt (~~~imm).isLt]
      rw [kept, BitVec.not_not]
    change m.set rd (~~~(((~~~imm).setWidth 16).setWidth (opSize sf))) = _
    rw [whole]
  case isFalse => exact pieces m

theorem run_MOV32w (imm32 : BitVec 32) (real : rd ≠ xZR) : runAddr host (MOV32w rd imm32) m = m.set rd imm32 := by
  refine run_movConstant host m false imm32 [16] fun m => ?_
  rw [List.flatMap_cons, List.flatMap_nil, List.append_nil, run_movPiece host m false imm32 16 real]
  exact congrArg (m.set rd) (lowPart_all imm32)

theorem run_MOV64x (imm64 : BitVec 64) (real : rd ≠ xZR) : runAddr host (MOV64x rd imm64) m = m.set rd imm64 := by
  refine run_movConstant host m true imm64 [16, 32, 48] fun m => ?_
  rw [List.flatMap_cons, List.flatMap_cons, List.flatMap_cons, List.flatMap_nil, List.append_nil, runAddr_append,
    runAddr_append, run_movPiece host m true imm64 16 real, run_movPiece host m true imm64 32 real,
    run_movPiece host m true imm64 48 real]
  exact congrArg (m.set rd) (lowPart_all imm64)

end Constants

end Box64.Arm64
