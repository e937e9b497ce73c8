import Box64.Emu.MemOperand
import Box64.Lib.AddressForm

/-!
# Addresses of memory operands

`GetECommon` and, under the address-size prefix, `GetECommon32O`, which decode a memory operand and leave `R_RIP` behind
its bytes.
-/

namespace Box64.Emu

open BitVec Memory AddressForm

def Rex.b (rex : Rex) : Bool := rex.rex.getLsbD 0

def Rex.x (rex : Rex) : Bool := rex.rex.getLsbD 1

/-- What `sbiidx` points to: the general registers, and `zero` instead of `RSP`. -/
def X64Emu.sbiidx (emu : X64Emu) (i : Fin 16) : BitVec 64 := if i = 4 then 0 else emu.regs i

section Fetch

variable (code : Memory) (R_RIP : BitVec 64)

def Fetch8 : BitVec 8 × BitVec 64 := (load 8 code R_RIP, R_RIP + 1)

def Fetch32s : BitVec 32 × BitVec 64 := (load 32 code R_RIP, R_RIP + 4)

/-- `(m&0x80)?Fetch32s(emu):Fetch8s(emu)`, as it is added to an address. -/
def fetchDisp (m : BitVec 8) : BitVec 64 × BitVec 64 :=
  if m &&& 0x80 ≠ 0 then ((load 32 code R_RIP).signExtend 64, R_RIP + 4)
  else ((load 8 code R_RIP).signExtend 64, R_RIP + 1)

end Fetch

section Address

variable (emu : X64Emu) (code : Memory) (rex : Rex) (m delta : BitVec 8) (R_RIP : BitVec 64)

/-- The address, and `R_RIP` after it. -/
def GetECommon : BitVec 64 × BitVec 64 :=
  if m ≤ 7 then
    if m = 4 then
      let (sib, R_RIP) := Fetch8 code R_RIP
      let (base, R_RIP) :=
        if sib &&& 7 = 5 then
          let (disp, R_RIP) := Fetch32s code R_RIP
          (disp.signExtend 64, R_RIP)
        else (emu.regs (regNumber sib rex.b), R_RIP)
      (base + (emu.sbiidx (regNumber (sib >>> 3) rex.x) <<< (sib >>> 6).toNat), R_RIP)
    else if m = 5 then
      let (base, R_RIP) := Fetch32s code R_RIP
      (base.signExtend 64 + R_RIP + delta.setWidth 64, R_RIP)
    else (emu.regs (regNumber m rex.b), R_RIP)
  else
    let (base, R_RIP) :=
      if m &&& 7 = 4 then
        let (sib, R_RIP) := Fetch8 code R_RIP
        (emu.regs (regNumber sib rex.b) + (emu.sbiidx (regNumber (sib >>> 3) rex.x) <<< (sib >>> 6).toNat), R_RIP)
      else (emu.regs (regNumber m rex.b), R_RIP)
    let (disp, R_RIP) := fetchDisp code R_RIP m
    (base + disp, R_RIP)

def regs32 (i : Fin 16) : BitVec 64 := (low 32 (emu.regs i)).setWidth 64

/-- An `int` shifted left, then extended. -/
def scaledIndex32 (sib : BitVec 8) : BitVec 64 :=
  (low 32 (emu.sbiidx (regNumber (sib >>> 3) rex.x)) <<< (sib >>> 6).toNat).signExtend 64

/-- The address, from the segment's `base` on, and `R_RIP` after it. -/
def GetECommon32O (base : BitVec 64) : BitVec 64 × BitVec 64 :=
  if m ≤ 7 then
    if m = 4 then
      let (sib, R_RIP) := Fetch8 code R_RIP
      let (base, R_RIP) :=
        if sib &&& 7 = 5 then
          let (disp, R_RIP) := Fetch32s code R_RIP
          (base + disp.signExtend 64, R_RIP)
        else (base + regs32 emu (regNumber sib rex.b), R_RIP)
      (base + scaledIndex32 emu rex sib, R_RIP)
    else if m = 5 then
      let (disp, R_RIP) := Fetch32s code R_RIP
      (base + disp.signExtend 64 + R_RIP + delta.setWidth 64, R_RIP)
    else (base + regs32 emu (regNumber m rex.b), R_RIP)
  else
    let (base, R_RIP) :=
      if m &&& 7 = 4 then
        let (sib, R_RIP) := Fetch8 code R_RIP
        (base + regs32 emu (regNumber sib rex.b) + scaledIndex32 emu rex sib, R_RIP)
      else (base + regs32 emu (regNumber m rex.b), R_RIP)
    let (disp, R_RIP) := fetchDisp code R_RIP m
    (base + disp, R_RIP)

end Address

/-! ### The ModRM byte -/

theorem low_mod_iff : ∀ v : BitVec 8, v &&& 0xC7 ≤ 7 ↔ v &&& 0xC0 = 0 := by decide

theorem masked_field : ∀ v : BitVec 8, v &&& 0xC7 &&& 7 = v &&& 7 := by decide

theorem masked_low : ∀ v : BitVec 8, v &&& 0xC0 = 0 → v &&& 0xC7 = v &&& 7 := by decide

theorem masked_long : ∀ v : BitVec 8, v &&& 0xC7 &&& 0x80 = v &&& 0x80 := by decide

theorem long_disp_iff : ∀ v : BitVec 8, v &&& 0xC0 ≠ 0 → v &&& 0xC0 ≠ 0xC0 →
    (v &&& 0x80 ≠ 0 ↔ v &&& 0xC0 ≠ 0x40) := by decide

theorem regNumber_masked (v : BitVec 8) (b : Bool) : regNumber (v &&& 0xC7) b = regNumber v b := by
  rw [regNumber, masked_field, regNumber]

theorem regNumber_low (v : BitVec 8) (b : Bool) : regNumber (v &&& 7) b = regNumber v b := by
  rw [regNumber, BitVec.and_assoc, BitVec.and_self, regNumber]

section Correct

variable (emu : X64Emu) (code : Memory) (rex : Rex) {v : BitVec 8} (delta : BitVec 8) (R_RIP : BitVec 64)

theorem fetchDisp_eq (high : v &&& 0xC0 ≠ 0) (memory : v &&& 0xC0 ≠ 0xC0) :
    fetchDisp code R_RIP v =
      (extendedDisp code R_RIP (ownDispBytes v), R_RIP + BitVec.ofNat 64 (ownDispBytes v)) := by
  have long := long_disp_iff v high memory
  by_cases short : v &&& 0xC0 = 0x40
  · rw [fetchDisp, if_neg fun set => long.mp set short, ownDispBytes, if_pos short]
    rfl
  · rw [fetchDisp, if_pos (long.mpr short), ownDispBytes, if_neg short]
    rfl

theorem fetchDisp_masked (v : BitVec 8) : fetchDisp code R_RIP (v &&& 0xC7) = fetchDisp code R_RIP v := by
  rw [fetchDisp, masked_long, fetchDisp]

theorem sbiidx_eq (sib : v &&& 7 = 4) :
    emu.sbiidx (regNumber (load 8 code R_RIP >>> 3) rex.x) =
      match decodeIndex rex.x v (load 8 code R_RIP) with
      | some r => emu.regs r
      | none => 0 := by
  rw [X64Emu.sbiidx, decodeIndex]
  by_cases zero : regNumber (load 8 code R_RIP >>> 3) rex.x = 4
  · rw [if_pos zero, if_neg fun index => index.2 zero]
  · rw [if_neg zero, if_pos ⟨sib, zero⟩]



theorem GetECommon_eq (memory : v &&& 0xC0 ≠ 0xC0) :
    GetECommon emu code rex (v &&& 0xC7) delta R_RIP =
      let f := decode rex.b rex.x v code R_RIP
      let after := R_RIP + BitVec.ofNat 64 f.length
      (f.eval emu.regs (after + delta.setWidth 64), after) := by
  by_cases low : v &&& 0xC0 = 0
  · rw [GetECommon, if_pos ((low_mod_iff v).mpr low), masked_low v low]
    by_cases sib : v &&& 7 = 4
    · rw [if_pos sib]
      by_cases baseless : load 8 code R_RIP &&& 7 = 5
      · rw [decode_baseless_sib rex.b rex.x code R_RIP low sib baseless]
        dsimp only [Fetch8]
        rw [if_pos baseless, sbiidx_eq emu code rex R_RIP sib]
        refine Prod.ext ?_ (BitVec.add_assoc R_RIP 1 4)
        exact (BitVec.add_comm _ _).trans (congrArg (· + _) (BitVec.zero_add _).symm)
      · rw [decode_sib rex.b rex.x code R_RIP low sib baseless]
        dsimp only [Fetch8]
        rw [if_neg baseless, sbiidx_eq emu code rex R_RIP sib]
        exact Prod.ext (BitVec.add_zero _).symm rfl
    · rw [if_neg sib]
      by_cases ip : v &&& 7 = 5
      · rw [decode_ip rex.b rex.x code R_RIP low ip, if_pos ip]
        dsimp only
        rw [eval_of_no_index _ _ _ rfl]
        exact Prod.ext ((BitVec.add_assoc _ _ _).trans (BitVec.add_comm _ _)) rfl
      · rw [decode_reg rex.b rex.x code R_RIP low sib ip, if_neg ip, regNumber_low]
        dsimp only
        rw [eval_of_no_index _ _ _ rfl]
        exact Prod.ext (BitVec.add_zero _).symm (BitVec.add_zero _).symm
  · rw [GetECommon, if_neg (mt (low_mod_iff v).mp low), masked_field]
    by_cases sib : v &&& 7 = 4
    · rw [decode_sib_disp rex.b rex.x code R_RIP low sib, if_pos sib]
      dsimp only [Fetch8]
      rw [fetchDisp_masked, fetchDisp_eq code _ low memory, sbiidx_eq emu code rex R_RIP sib]
      refine Prod.ext rfl ?_
      simp only [BitVec.ofNat_add, BitVec.add_assoc]
      rfl
    · rw [decode_reg_disp rex.b rex.x code R_RIP low sib, if_neg sib]
      dsimp only
      rw [eval_of_no_index _ _ _ rfl, fetchDisp_masked, fetchDisp_eq code _ low memory, regNumber_masked]
      rfl
end Correct
/-! ### The address-size prefix -/

/-- The parts as `GetECommon32O` extends them: the base by zeros, the index by its sign once it is shifted. -/
def parts32 (f : AddressForm) (regs : Fin 16 → BitVec 64) (next : BitVec 64) : Int :=
  let base : Nat :=
    match f.base with
    | .none => 0
    | .reg r => (low 32 (regs r)).toNat
    | .ip => next.toNat
  base + (low 32 (f.indexValue regs) <<< f.scale).toInt + f.disp.toInt

section Parts

variable (f : AddressForm) (regs : Fin 16 → BitVec 64) (next : BitVec 64)

/-- The parts added in 64 bits. -/
def sum32 : BitVec 64 :=
  (match f.base with
    | .none => 0
    | .reg r => (low 32 (regs r)).setWidth 64
    | .ip => next) + (low 32 (f.indexValue regs) <<< f.scale).signExtend 64 + f.disp

theorem sum32_eq : sum32 f regs next = BitVec.ofInt 64 (parts32 f regs next) := by
  rw [sum32, parts32, BitVec.ofInt_add, BitVec.ofInt_add, BitVec.ofInt_toInt]
  cases f.base with
  | none => rfl
  | reg r => rw [BitVec.ofInt_natCast, BitVec.ofNat_toNat]; rfl
  | ip => rw [BitVec.ofInt_natCast, BitVec.ofNat_toNat, BitVec.setWidth_eq]; rfl

theorem low_sum32 : (sum32 f regs next).setWidth 32 = f.eval32 regs next := by
  have index : ((low 32 (f.indexValue regs) <<< f.scale).signExtend 64).setWidth 32 =
      (f.indexValue regs).setWidth 32 <<< f.scale := by
    apply eq_of_getLsbD_eq
    intro i lt
    have wide : i < 64 := by omega
    rw [getLsbD_setWidth, getLsbD_signExtend, if_pos lt]
    simp only [lt, wide, decide_true, Bool.true_and]
    rfl
  rw [eval32_eq, sum32, BitVec.setWidth_add _ _ (by decide), BitVec.setWidth_add _ _ (by decide), index, baseValue]
  cases f.base with
  | none | ip => rfl
  | reg r => 
    have same : (setWidth 64 (low 32 (regs r))).setWidth 32 = (regs r).setWidth 32 := by
      rw [BitVec.setWidth_setWidth_of_le _ (by decide), BitVec.setWidth_eq, low]
    exact congrArg (· + _ + _) same

end Parts

theorem eq_extended_iff {x : BitVec 64} {y : BitVec 32} (cut : x.setWidth 32 = y) :
    x = y.setWidth 64 ↔ x.toNat < 2 ^ 32 := by
  constructor
  · intro same
    rw [same, BitVec.toNat_setWidth_of_le (by decide)]
    exact y.isLt
  · intro small
    apply BitVec.eq_of_toNat_eq
    rw [← cut, BitVec.toNat_setWidth_of_le (by decide), BitVec.toNat_setWidth, Nat.mod_eq_of_lt small]

theorem toNat_ofInt_lt_iff (s : Int) : (BitVec.ofInt 64 s).toNat < 2 ^ 32 ↔ s % 2 ^ 64 < 2 ^ 32 := by
  rw [BitVec.toNat_ofInt]
  have nonneg := Int.emod_nonneg s (by decide : (2 ^ 64 : Int) ≠ 0)
  change (s % 2 ^ 64).toNat < 2 ^ 32 ↔ _
  omega

section Correct32

variable (emu : X64Emu) (code : Memory) (rex : Rex) {v : BitVec 8} (delta : BitVec 8) (R_RIP base : BitVec 64)

theorem sum32_of_no_index {f : AddressForm} (regs : Fin 16 → BitVec 64) (next : BitVec 64) (no : f.index = none) :
    sum32 f regs next =
      (match f.base with
        | .none => 0
        | .reg r => (low 32 (regs r)).setWidth 64
        | .ip => next) + f.disp := by
  have zero : low 32 (f.indexValue regs) = 0#32 := by
    rw [indexValue, no]
    rfl
  have none : (0#32 : BitVec 32).signExtend 64 = 0#64 := by decide
  rw [sum32, zero, BitVec.zero_shiftLeft, none, BitVec.add_zero]

theorem GetECommon32O_eq (memory : v &&& 0xC0 ≠ 0xC0) :
    GetECommon32O emu code rex (v &&& 0xC7) delta R_RIP base =
      let f := decode rex.b rex.x v code R_RIP
      let after := R_RIP + BitVec.ofNat 64 f.length
      (base + sum32 f emu.regs (after + delta.setWidth 64), after) := by
  by_cases low : v &&& 0xC0 = 0
  · rw [GetECommon32O, if_pos ((low_mod_iff v).mpr low), masked_low v low]
    by_cases sib : v &&& 7 = 4
    · rw [if_pos sib]
      dsimp only [Fetch8, scaledIndex32]
      rw [sbiidx_eq emu code rex R_RIP sib]
      by_cases baseless : load 8 code R_RIP &&& 7 = 5
      · rw [decode_baseless_sib rex.b rex.x code R_RIP low sib baseless, if_pos baseless]
        refine Prod.ext ?_ (BitVec.add_assoc R_RIP 1 4)
        exact (BitVec.add_assoc _ _ _).trans (congrArg (base + ·)
          ((BitVec.add_comm _ _).trans (congrArg (· + _) (BitVec.zero_add _).symm)))
      · rw [decode_sib rex.b rex.x code R_RIP low sib baseless, if_neg baseless]
        refine Prod.ext ?_ rfl
        exact (BitVec.add_assoc _ _ _).trans (congrArg (base + ·) (BitVec.add_zero _).symm)
    · rw [if_neg sib]
      by_cases ip : v &&& 7 = 5
      · rw [decode_ip rex.b rex.x code R_RIP low ip, if_pos ip]
        dsimp only
        rw [sum32_of_no_index _ _ rfl]
        refine Prod.ext ?_ rfl
        exact (BitVec.add_assoc _ _ _).trans ((BitVec.add_assoc _ _ _).trans (congrArg (base + ·) (BitVec.add_comm _ _)))
      · rw [decode_reg rex.b rex.x code R_RIP low sib ip, if_neg ip, regNumber_low]
        dsimp only
        rw [sum32_of_no_index _ _ rfl]
        refine Prod.ext ?_ (BitVec.add_zero _).symm
        exact congrArg (base + ·) (BitVec.add_zero _).symm
  · rw [GetECommon32O, if_neg (mt (low_mod_iff v).mp low), masked_field]
    by_cases sib : v &&& 7 = 4
    · rw [decode_sib_disp rex.b rex.x code R_RIP low sib, if_pos sib]
      dsimp only [Fetch8, scaledIndex32]
      rw [fetchDisp_masked, fetchDisp_eq code _ low memory, sbiidx_eq emu code rex R_RIP sib]
      refine Prod.ext ?_ ?_
      · exact (BitVec.add_assoc _ _ _).trans ((BitVec.add_assoc _ _ _).trans
          (congrArg (base + ·) (BitVec.add_assoc _ _ _).symm))
      · simp only [BitVec.ofNat_add, BitVec.add_assoc]
        rfl
    · rw [decode_reg_disp rex.b rex.x code R_RIP low sib, if_neg sib]
      dsimp only
      rw [sum32_of_no_index _ _ rfl, fetchDisp_masked, fetchDisp_eq code _ low memory, regNumber_masked]
      refine Prod.ext ?_ rfl
      exact BitVec.add_assoc _ _ _

end Correct32

end Box64.Emu
