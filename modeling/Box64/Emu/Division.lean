import Box64.Emu.MemOperand

/-!
# Division

`idiv8` to `idiv64` and `div8` to `div64`: when they raise the divide error, and what they leave in the accumulator
otherwise. The host computes with `int`, `long` and `__int128`, whose own division and `abs` are not defined everywhere.
-/

namespace Box64.Emu

open BitVec

/-! ### The primitives -/

/-- What becomes of a division; `overflow` where the host's own operation is undefined. -/
inductive Divided where
  | raised (emu : X64Emu)
  | done (emu : X64Emu)
  | overflow

/-- `AX`, or `DX:AX`, `EDX:EAX`, `RDX:RAX`. -/
def dividend (emu : X64Emu) : (w : Width) → BitVec (w.bits + w.bits)
  | .w8 => low 16 (emu.regs _RAX)
  | w => low w.bits (emu.regs _RDX) ++ low w.bits (emu.regs _RAX)

def FitsSigned (n : Nat) (q : Int) : Prop := -2 ^ (n - 1) ≤ q ∧ q < 2 ^ (n - 1)

def FitsUnsigned (n : Nat) (q : Int) : Prop := 0 ≤ q ∧ q < 2 ^ n

instance (n : Nat) (q : Int) : Decidable (FitsSigned n q) := inferInstanceAs (Decidable (_ ∧ _))

instance (n : Nat) (q : Int) : Decidable (FitsUnsigned n q) := inferInstanceAs (Decidable (_ ∧ _))

/-- The host's type for a dividend: `int`, `long` or `__int128`. -/
def Width.host : Width → Nat
  | w8 | w16 => 32
  | w32 => 64
  | w64 => 128

/-- `div`, `ldiv`, and `/` with `%`. -/
def hostDiv (h : Nat) (d s : Int) : Option (Int × Int) :=
  if s ≠ 0 ∧ FitsSigned h (d.tdiv s) then some (d.tdiv s, d.tmod s) else none

/-- `abs` and `labs`. -/
def hostAbs (h : Nat) (q : Int) : Option Int := if FitsSigned h |q| then some |q| else none

/-- The test that raises the error; `none` where it is undefined itself. -/
def quotientOver (quot : Int) : Width → Option Bool
  | .w64 => some (decide (quot > 0x7fffffffffffffff ∨ quot < -0x7fffffffffffffff))
  | w => (hostAbs w.host quot).map fun a => decide (a > 2 ^ (w.bits - 1) - 1)

/-- The flags that are written, not the same at every width. -/
def divFlags (emu : X64Emu) (zero : Bool) (mod : BitVec 8) : Width → X64Emu
  | .w8 => emu
  | .w16 => { emu with eflags := { emu.eflags with CF := false, SF := false, ZF := zero, PF := PARITY mod } }
  | _ => { emu with eflags := { emu.eflags with CF := false, AF := false, SF := false, ZF := true, PF := PARITY mod } }

def setDivided (emu : X64Emu) : (w : Width) → (quot mod : BitVec w.bits) → X64Emu
  | .w8, quot, mod => (emu.setByte ⟨_RAX, false⟩ quot).setByte ⟨_RAX, true⟩ mod
  | .w32, quot, mod => (emu.setReg _RAX (quot.setWidth 64)).setReg _RDX (mod.setWidth 64)
  | _, quot, mod => (emu.setReg _RAX quot).setReg _RDX mod

def idiv (w : Width) (emu : X64Emu) (s : BitVec w.bits) : Divided :=
  -- `idiv16` leaves what is pending
  let emu := if w = .w16 then emu else RESET_FLAGS emu
  let dvd := (dividend emu w).toInt
  if s = 0 then .raised emu else
    match hostDiv w.host dvd s.toInt with
    | none => .overflow
    | some (quot, mod) =>
      match quotientOver quot w with
      | none => .overflow
      | some true => .raised emu
      | some false =>
        let emu := divFlags emu (quot == 0) (BitVec.ofInt 8 mod) w
        .done (setDivided emu w (BitVec.ofInt w.bits quot) (BitVec.ofInt w.bits mod))

/-- `div > 0xff` and so on; `div64` keeps its quotient in a signed `__int128`. -/
def divOver : (w : Width) → BitVec (w.bits + w.bits) → Bool
  | .w64, quot => decide (quot.toInt > 0xffffffffffffffff)
  | w, quot => decide (quot.toNat > 2 ^ w.bits - 1)

def div (w : Width) (emu : X64Emu) (s : BitVec w.bits) : Divided :=
  let emu := RESET_FLAGS emu
  let dvd := dividend emu w
  if s = 0 then .raised emu else
    let quot := dvd / s.setWidth (w.bits + w.bits)
    let mod := dvd % s.setWidth (w.bits + w.bits)
    if divOver w quot then .raised emu else
      let emu := divFlags emu (quot == 0) (mod.setWidth 8) w
      .done (setDivided emu w (quot.setWidth w.bits) (mod.setWidth w.bits))

/-! ### What the processor does -/

/-- `IDIV` and `DIV`. -/
inductive Signedness where
  | signed
  | unsigned

namespace Signedness

def value {n : Nat} (x : BitVec n) : Signedness → Int
  | signed => x.toInt
  | unsigned => x.toNat

def Fits (n : Nat) (q : Int) : Signedness → Prop
  | signed => FitsSigned n q
  | unsigned => FitsUnsigned n q

def divide (w : Width) (emu : X64Emu) (s : BitVec w.bits) : Signedness → Divided
  | signed => idiv w emu s
  | unsigned => div w emu s

end Signedness

/-- `AL`, `AX`, `EAX` or `RAX`. -/
def quotientReg (emu : X64Emu) : (w : Width) → BitVec w.bits
  | .w8 => emu.getByte ⟨_RAX, false⟩
  | w => emu.reg w _RAX

/-- `AH`, `DX`, `EDX` or `RDX`. -/
def remainderReg (emu : X64Emu) : (w : Width) → BitVec w.bits
  | .w8 => emu.getByte ⟨_RAX, true⟩
  | w => emu.reg w _RDX

structure Stores (sg : Signedness) (w : Width) (emu : X64Emu) (quot mod : Int) (emu' : X64Emu) : Prop where
  quotient : sg.value (quotientReg emu' w) = quot
  remainder : sg.value (remainderReg emu' w) = mod
  others : ∀ r, r ≠ _RAX → r ≠ _RDX → emu'.regs r = emu.regs r

/-- The divide error exactly for a divisor of 0 or a quotient too large, and then the registers as they were;
otherwise the truncated quotient and its remainder. -/
def Exact (sg : Signedness) (w : Width) (emu : X64Emu) (s : BitVec w.bits) : Divided → Prop
  | .raised emu' =>
    (s = 0 ∨ ¬ sg.Fits w.bits ((sg.value (dividend emu w)).tdiv (sg.value s))) ∧ emu'.regs = emu.regs
  | .done emu' =>
    s ≠ 0 ∧ sg.Fits w.bits ((sg.value (dividend emu w)).tdiv (sg.value s)) ∧
      Stores sg w emu ((sg.value (dividend emu w)).tdiv (sg.value s)) ((sg.value (dividend emu w)).tmod (sg.value s)) emu'
  | .overflow => False

/-- The dividends from `-m * s` up to the next multiple of `s`: their quotient is `-m`. -/
def QuotientMin (m d s : Int) : Prop :=
  (d < 0 ∧ 0 < s ∨ 0 < d ∧ s < 0) ∧ m * |s| ≤ |d| ∧ |d| < (m + 1) * |s|

/-- The least dividend, with a divisor the host cannot take it by: -1, or 1 where `abs` follows. -/
def HostOverflows (d s : Int) : Width → Prop
  | .w8 => False
  | .w64 => d = -2 ^ 127 ∧ s = -1
  | w => d = -2 ^ (w.bits + w.bits - 1) ∧ (s = -1 ∨ s = 1)

/-- `idiv` gives up the quotient of greatest magnitude, which is in range; `div64` takes quotients from `2 ^ 127` on
for negative numbers. -/
def DividesRight (w : Width) (emu : X64Emu) (s : BitVec w.bits) : Signedness → Prop
  | .signed =>
    s = 0 ∨ ¬ QuotientMin (2 ^ (w.bits - 1)) (dividend emu w).toInt s.toInt ∧
      ¬ HostOverflows (dividend emu w).toInt s.toInt w
  | .unsigned => ¬ (w = .w64 ∧ s = 1 ∧ (emu.regs _RDX).msb)

/-! ### Truncated quotients -/

section Quotients

variable {d s : Int}

theorem natAbs_quotient (d s : Int) : (d.tdiv s).natAbs = d.natAbs / s.natAbs := Int.natAbs_tdiv d s

/-- A divisor other than 1 and -1 halves the dividend at least. -/
theorem tdiv_cases (nonzero : s ≠ 0) :
    s = 1 ∧ d.tdiv s = d ∨ s = -1 ∧ d.tdiv s = -d ∨ s ≠ 1 ∧ s ≠ -1 ∧ 2 * (d.tdiv s).natAbs ≤ d.natAbs := by
  by_cases one : s = 1
  · subst one
    exact .inl ⟨rfl, Int.tdiv_one d⟩
  by_cases minus : s = -1
  · subst minus
    exact .inr (.inl ⟨rfl, by rw [Int.tdiv_neg, Int.tdiv_one]⟩)
  refine .inr (.inr ⟨one, minus, ?_⟩)
  have two : 2 ≤ s.natAbs := by omega
  rw [natAbs_quotient]
  calc 2 * (d.natAbs / s.natAbs) ≤ s.natAbs * (d.natAbs / s.natAbs) := Nat.mul_le_mul_right _ two
    _ ≤ d.natAbs := Nat.mul_div_le d.natAbs s.natAbs

/-- The sign of a quotient that is not zero. -/
theorem tdiv_neg_iff (large : s.natAbs ≤ d.natAbs) (nonzero : s ≠ 0) :
    d.tdiv s < 0 ↔ d < 0 ∧ 0 < s ∨ 0 < d ∧ s < 0 := by
  have positive : 0 < d.natAbs / s.natAbs := Nat.div_pos large (by omega)
  rw [← natAbs_quotient] at positive
  obtain neg | pos := Int.lt_or_gt_of_ne nonzero <;> obtain low | high := Int.lt_or_le d 0
  · have sign := Int.tdiv_nonneg_of_nonpos_of_nonpos low.le neg.le
    omega
  · have sign := Int.tdiv_nonpos_of_nonneg_of_nonpos high neg.le
    omega
  · have sign := Int.tdiv_nonneg (Int.neg_nonneg_of_nonpos low.le) pos.le
    rw [Int.neg_tdiv] at sign
    omega
  · have sign := Int.tdiv_nonneg high pos.le
    omega

theorem tdiv_eq_neg_iff {m : Nat} (pos : 0 < m) (nonzero : s ≠ 0) : d.tdiv s = -m ↔ QuotientMin m d s := by
  have divisor : 0 < s.natAbs := by omega
  have abs : (d.tdiv s).natAbs = m ↔ (m : Int) * |s| ≤ |d| ∧ |d| < (m + 1 : Int) * |s| := by
    rw [natAbs_quotient, Nat.div_eq_iff divisor, Int.abs_eq_natAbs, Int.abs_eq_natAbs]
    norm_cast
    rw [Nat.add_one_mul]
    omega
  have sign : d.tdiv s = -m ↔ d.tdiv s < 0 ∧ (d.tdiv s).natAbs = m := by omega
  rw [sign, abs, QuotientMin]
  refine and_congr_left fun between => tdiv_neg_iff ?_ nonzero
  have least := between.1
  rw [Int.abs_eq_natAbs, Int.abs_eq_natAbs] at least
  norm_cast at least
  exact (Nat.le_mul_of_pos_left _ pos).trans least

theorem hostDiv_of_fits {h : Nat} (nonzero : s ≠ 0) (fits : FitsSigned h (d.tdiv s)) :
    hostDiv h d s = some (d.tdiv s, d.tmod s) := if_pos ⟨nonzero, fits⟩

/-- `div` and `abs` after it, for a dividend of the host's type. -/
theorem hostAbs_cases {h : Nat} (least : -2 ^ (h - 1) ≤ d) (lt : d < 2 ^ (h - 1)) (nonzero : s ≠ 0) :
    (d = -2 ^ (h - 1) ∧ (s = -1 ∨ s = 1)) ∧ (hostDiv h d s).bind (fun p => hostAbs h p.1) = none ∨
      ¬ (d = -2 ^ (h - 1) ∧ (s = -1 ∨ s = 1)) ∧ hostDiv h d s = some (d.tdiv s, d.tmod s) ∧
        hostAbs h (d.tdiv s) = some |d.tdiv s| := by
  have cases := tdiv_cases (d := d) nonzero
  have positive : (0 : Int) < 2 ^ (h - 1) := Int.pow_pos (by decide)
  have magnitude : |d.tdiv s| = (d.tdiv s).natAbs := Int.abs_eq_natAbs _
  have fits : ∀ x, FitsSigned h x ↔ -2 ^ (h - 1) ≤ x ∧ x < 2 ^ (h - 1) := fun _ => Iff.rfl
  unfold hostDiv hostAbs
  generalize (2 : Int) ^ (h - 1) = M at *
  by_cases overflows : d = -M ∧ (s = -1 ∨ s = 1)
  · refine .inl ⟨overflows, ?_⟩
    by_cases quot : s ≠ 0 ∧ FitsSigned h (d.tdiv s)
    · rw [if_pos quot, Option.bind_some, if_neg]
      change ¬ FitsSigned h |d.tdiv s|
      rw [fits] at quot ⊢
      omega
    · rw [if_neg quot, Option.bind_none]
  · refine .inr ⟨overflows, if_pos ⟨nonzero, ?_⟩, if_pos ?_⟩
    · rw [fits]
      omega
    · rw [fits]
      omega

/-- What the host makes of a dividend of twice the width: undefined on `HostOverflows` alone, and tested for a
magnitude above the greatest quotient. -/
theorem hostDiv_cases (w : Width) (least : -2 ^ (w.bits + w.bits - 1) ≤ d) (lt : d < 2 ^ (w.bits + w.bits - 1))
    (nonzero : s ≠ 0) :
    HostOverflows d s w ∧ (hostDiv w.host d s).bind (fun p => quotientOver p.1 w) = none ∨
      ¬ HostOverflows d s w ∧ hostDiv w.host d s = some (d.tdiv s, d.tmod s) ∧
        quotientOver (d.tdiv s) w = some (decide (2 ^ (w.bits - 1) ≤ (d.tdiv s).natAbs)) := by
  have cases := tdiv_cases (d := d) nonzero
  have magnitude : |d.tdiv s| = (d.tdiv s).natAbs := Int.abs_eq_natAbs _
  have narrow : ∀ h k : Nat, hostAbs h (d.tdiv s) = some |d.tdiv s| →
      (hostAbs h (d.tdiv s)).map (fun a => decide (a > 2 ^ k - 1)) = some (decide (2 ^ k ≤ (d.tdiv s).natAbs)) := by
    intro h k abs
    rw [abs, Option.map_some, magnitude]
    congr 2
    rw [eq_iff_iff, ← Int.ofNat_le]
    push_cast
    omega
  have fromAbs : ∀ w' : Width, w' ≠ .w64 → (hostDiv w'.host d s).bind (fun p => hostAbs w'.host p.1) = none →
      (hostDiv w'.host d s).bind (fun p => quotientOver p.1 w') = none := by
    intro w' other none
    cases found : hostDiv w'.host d s with
    | none => rfl
    | some p =>
      rw [found, Option.bind_some] at none
      cases w' with
      | w64 => exact absurd rfl other
      | _ => rw [Option.bind_some, quotientOver, none, Option.map_none]; nofun
  cases w with
  | w8 =>
    simp only [Width.bits] at least lt
    obtain ⟨overflows, -⟩ | ⟨-, quot, abs⟩ := hostAbs_cases (d := d) (h := 32) (by omega) (by omega) nonzero
    · omega
    · exact .inr ⟨not_false, quot, narrow 32 7 abs⟩
  | w16 =>
    obtain ⟨overflows, none⟩ | ⟨fine, quot, abs⟩ := hostAbs_cases (h := 32) least lt nonzero
    · exact .inl ⟨overflows, fromAbs .w16 nofun none⟩
    · exact .inr ⟨fine, quot, narrow 32 15 abs⟩
  | w32 =>
    obtain ⟨overflows, none⟩ | ⟨fine, quot, abs⟩ := hostAbs_cases (h := 64) least lt nonzero
    · exact .inl ⟨overflows, fromAbs .w32 nofun none⟩
    · exact .inr ⟨fine, quot, narrow 64 31 abs⟩
  | w64 =>
    simp only [Width.bits] at least lt
    by_cases overflows : HostOverflows d s .w64
    · refine .inl ⟨overflows, ?_⟩
      obtain ⟨rfl, rfl⟩ := overflows
      rfl
    · refine .inr ⟨overflows, hostDiv_of_fits nonzero ?_, ?_⟩
      · unfold HostOverflows at overflows
        change -2 ^ 127 ≤ d.tdiv s ∧ d.tdiv s < 2 ^ 127
        omega
      · rw [quotientOver]
        congr 2
        rw [eq_iff_iff]
        simp only [Width.bits]
        omega

end Quotients

/-! ### The registers -/

theorem setByte_regs (emu : X64Emu) (g : ByteReg) (v : BitVec 8) :
    (emu.setByte g v).regs = Function.update emu.regs g.reg (emu.putByte g v) := rfl

theorem setReg_regs {n : Nat} (emu : X64Emu) (r : Fin 16) (v : BitVec n) :
    (emu.setReg r v).regs = Function.update emu.regs r (setLow (emu.regs r) v) := rfl

theorem getLsbD_byteMask (i : Nat) : (0xff#64).getLsbD i = decide (i < 8) := by
  have ones : (0xff#64) = (allOnes 8).setWidth 64 := rfl
  rw [ones, getLsbD_setWidth, getLsbD_allOnes, Bool.and_eq_right_iff_imp, decide_eq_true_eq, decide_eq_true_eq]
  omega

/-- Bits of a register a byte of which, from bit `k` on, is replaced. -/
theorem getLsbD_insertByte {k i : Nat} (fits : k + 8 ≤ 64) (cell : BitVec 64) (v : BitVec 8) :
    ((cell &&& ~~~(0xff#64 <<< k)) ||| (v.setWidth 64 <<< k)).getLsbD i =
      if k ≤ i ∧ i < k + 8 then v.getLsbD (i - k) else cell.getLsbD i := by
  simp only [getLsbD_or, getLsbD_and, getLsbD_not, getLsbD_shiftLeft, getLsbD_byteMask, getLsbD_setWidth]
  split
  case isTrue inside =>
    have below : i < 64 := by omega
    have bit : i - k < 8 := by omega
    have least : ¬ i < k := by omega
    have whole : i - k < 64 := by omega
    simp [below, bit, least, whole]
  case isFalse outside =>
    by_cases least : i < k
    · have below : i < 64 := by omega
      simp [below, least]
    · have bit : ¬ i - k < 8 := by omega
      have zero : v.getLsbD (i - k) = false := getLsbD_of_ge v _ (by omega)
      by_cases below : i < 64
      · simp [below, bit, zero, least]
      · simp [below, getLsbD_of_ge cell i (by omega)]

theorem getByte_setByte (emu : X64Emu) (g : ByteReg) (v : BitVec 8) : (emu.setByte g v).getByte g = v := by
  unfold X64Emu.getByte
  rw [setByte_regs, Function.update_self]
  ext i lt
  rw [getElem_extractLsb', X64Emu.putByte, getLsbD_insertByte (by cases g.high <;> decide), if_pos (by omega),
    Nat.add_sub_cancel_left, getLsbD_eq_getElem lt]

theorem getByte_setByte_other (emu : X64Emu) (r : Fin 16) (high : Bool) (v : BitVec 8) :
    (emu.setByte ⟨r, !high⟩ v).getByte ⟨r, high⟩ = emu.getByte ⟨r, high⟩ := by
  have fits : (if !high then 8 else 0) + 8 ≤ 64 := by cases high <;> decide
  unfold X64Emu.getByte
  rw [setByte_regs, Function.update_self]
  ext i lt
  rw [getElem_extractLsb', X64Emu.putByte, getLsbD_insertByte fits, if_neg, getElem_extractLsb']
  cases high <;> simp [lt]

theorem setReg_self {n : Nat} (fits : n ≤ 64) (emu : X64Emu) (r : Fin 16) (v : BitVec n) :
    low n ((emu.setReg r v).regs r) = v := by
  rw [setReg_regs, Function.update_self, low_setLow fits]

theorem setReg_other {n : Nat} (emu : X64Emu) {r r' : Fin 16} (other : r' ≠ r) (v : BitVec n) :
    (emu.setReg r v).regs r' = emu.regs r' := by
  rw [setReg_regs, Function.update_of_ne other]

/-- A 32-bit result is written to the whole register. -/
theorem setReg_extended (emu : X64Emu) (r : Fin 16) (v : BitVec 32) :
    low 32 ((emu.setReg r (v.setWidth 64)).regs r) = v := by
  rw [setReg_regs, Function.update_self, low_setLow_of_le (by decide) (by decide), setWidth_setWidth_of_le _ (by decide),
    setWidth_eq]

theorem quotientReg_setDivided (emu : X64Emu) (w : Width) (quot mod : BitVec w.bits) :
    quotientReg (setDivided emu w quot mod) w = quot := by
  cases w with
  | w8 => exact (getByte_setByte_other _ _ false _).trans (getByte_setByte _ _ _)
  | w32 => exact (congrArg (low 32) (setReg_other _ (by decide) _)).trans (setReg_extended _ _ _)
  | w16 | w64 => exact (congrArg (low _) (setReg_other _ (by decide) _)).trans (setReg_self (by decide) _ _ _)

theorem remainderReg_setDivided (emu : X64Emu) (w : Width) (quot mod : BitVec w.bits) :
    remainderReg (setDivided emu w quot mod) w = mod := by
  cases w with
  | w8 => exact getByte_setByte _ _ _
  | w32 => exact setReg_extended _ _ _
  | w16 | w64 => exact setReg_self (by decide) _ _ _

theorem setDivided_other (emu : X64Emu) (w : Width) (quot mod : BitVec w.bits) {r : Fin 16} (quotient : r ≠ _RAX)
    (remainder : r ≠ _RDX) : (setDivided emu w quot mod).regs r = emu.regs r := by
  cases w with
  | w8 => exact (Function.update_of_ne quotient _ _).trans (Function.update_of_ne quotient _ _)
  | w16 | w32 | w64 => exact (setReg_other _ remainder _).trans (setReg_other _ quotient _)

theorem divFlags_regs (emu : X64Emu) (zero : Bool) (mod : BitVec 8) (w : Width) :
    (divFlags emu zero mod w).regs = emu.regs := by cases w <;> rfl

/-- The quotient and the remainder are stored if they are the values of what is written. -/
theorem stores_setDivided {sg : Signedness} {w : Width} {emu emu' : X64Emu} {quot mod : BitVec w.bits} {q r : Int}
    (regs : emu'.regs = emu.regs) (quotient : sg.value quot = q) (remainder : sg.value mod = r) :
    Stores sg w emu q r (setDivided emu' w quot mod) where
  quotient := by rw [quotientReg_setDivided, quotient]
  remainder := by rw [remainderReg_setDivided, remainder]
  others := fun r notQuotient notRemainder => by rw [setDivided_other _ _ _ _ notQuotient notRemainder, regs]

/-! ### The divide error -/

section Agreement

variable {n : Nat} {w : Width} {emu : X64Emu} {s : BitVec w.bits}

theorem dividend_congr {emu emu' : X64Emu} (regs : emu'.regs = emu.regs) (w : Width) :
    dividend emu' w = dividend emu w := by
  unfold dividend
  rw [regs]

theorem toInt_ne_zero {n : Nat} {s : BitVec n} (nonzero : s ≠ 0) : s.toInt ≠ 0 := by
  intro zero
  exact nonzero (BitVec.eq_of_toInt_eq (zero.trans BitVec.toInt_zero.symm))

theorem dividend_bounds (w : Width) (emu : X64Emu) :
    -2 ^ (w.bits + w.bits - 1) ≤ (dividend emu w).toInt ∧ (dividend emu w).toInt < 2 ^ (w.bits + w.bits - 1) :=
  ⟨BitVec.le_toInt _, BitVec.toInt_lt⟩

theorem signed_natAbs (s : BitVec n) : s.toInt.natAbs ≤ 2 ^ (n - 1) := by
  have least := BitVec.le_toInt s
  have lt := s.toInt_lt
  have cast : ((2 ^ (n - 1) : Nat) : Int) = 2 ^ (n - 1) := by push_cast; rfl
  rw [← cast] at least lt
  omega

theorem toInt_ofInt_of_natAbs {n : Nat} {q : Int} (small : q.natAbs < 2 ^ (n - 1)) (pos : 0 < n) :
    (BitVec.ofInt n q).toInt = q := by
  have cast : ((2 ^ (n - 1) : Nat) : Int) = 2 ^ (n - 1) := by push_cast; rfl
  refine BitVec.toInt_ofInt_eq_self pos ?_ ?_
  all_goals rw [← cast]; omega

/-- Of the quotients with a magnitude from `2 ^ (n - 1)` on, one is in range. -/
theorem fitsSigned_iff {q : Int} (large : 2 ^ (n - 1) ≤ q.natAbs) : FitsSigned n q ↔ q = -2 ^ (n - 1) := by
  have cast : ((2 ^ (n - 1) : Nat) : Int) = 2 ^ (n - 1) := by push_cast; rfl
  have pos := Nat.two_pow_pos (n - 1)
  unfold FitsSigned
  rw [← cast]
  omega

theorem fitsSigned_of_natAbs {q : Int} (small : q.natAbs < 2 ^ (n - 1)) : FitsSigned n q := by
  have cast : ((2 ^ (n - 1) : Nat) : Int) = 2 ^ (n - 1) := by push_cast; rfl
  unfold FitsSigned
  rw [← cast]
  omega

/-- Away from what the host cannot do, `idiv` gives up every quotient from the magnitude `2 ^ (w.bits - 1)` on. -/
theorem idiv_of_fine (zero : s ≠ 0) (fine : ¬ HostOverflows (dividend emu w).toInt s.toInt w) :
    ∃ start, start.regs = emu.regs ∧ idiv w emu s =
      if 2 ^ (w.bits - 1) ≤ ((dividend emu w).toInt.tdiv s.toInt).natAbs then .raised start
      else .done (setDivided start w (BitVec.ofInt w.bits ((dividend emu w).toInt.tdiv s.toInt))
        (BitVec.ofInt w.bits ((dividend emu w).toInt.tmod s.toInt))) := by
  have regs : (if w = .w16 then emu else RESET_FLAGS emu).regs = emu.regs := by split <;> rfl
  obtain ⟨least, lt⟩ := dividend_bounds w emu
  unfold idiv
  generalize (if w = .w16 then emu else RESET_FLAGS emu) = start at *
  rw [if_neg zero, dividend_congr regs]
  obtain ⟨overflows, -⟩ | ⟨-, quot, large⟩ := hostDiv_cases w least lt (toInt_ne_zero zero)
  · exact absurd overflows fine
  simp only [quot, large]
  by_cases big : 2 ^ (w.bits - 1) ≤ ((dividend emu w).toInt.tdiv s.toInt).natAbs
  · rw [decide_eq_true big]
    exact ⟨start, regs, (if_pos big).symm⟩
  · rw [decide_eq_false big]
    exact ⟨_, (divFlags_regs _ _ _ _).trans regs, (if_neg big).symm⟩

theorem idiv_of_overflow (zero : s ≠ 0) (overflows : HostOverflows (dividend emu w).toInt s.toInt w) :
    idiv w emu s = .overflow := by
  have regs : (if w = .w16 then emu else RESET_FLAGS emu).regs = emu.regs := by split <;> rfl
  obtain ⟨least, lt⟩ := dividend_bounds w emu
  unfold idiv
  generalize (if w = .w16 then emu else RESET_FLAGS emu) = start at *
  rw [if_neg zero, dividend_congr regs]
  obtain ⟨-, none⟩ | ⟨fine, -⟩ := hostDiv_cases w least lt (toInt_ne_zero zero)
  · cases found : hostDiv w.host (dividend emu w).toInt s.toInt with
    | none => rfl
    | some p =>
      rw [found, Option.bind_some] at none
      simp only [none]
  · exact absurd overflows fine

theorem tdiv_eq_min_iff (zero : s ≠ 0) : (dividend emu w).toInt.tdiv s.toInt = -2 ^ (w.bits - 1) ↔
    QuotientMin (2 ^ (w.bits - 1)) (dividend emu w).toInt s.toInt := by
  have iff := tdiv_eq_neg_iff (d := (dividend emu w).toInt) (Nat.two_pow_pos (w.bits - 1)) (toInt_ne_zero zero)
  push_cast at iff
  exact iff

theorem idiv_exact_iff : Exact .signed w emu s (idiv w emu s) ↔ DividesRight w emu s .signed := by
  by_cases zero : s = 0
  · unfold idiv
    rw [if_pos zero]
    exact iff_of_true ⟨.inl zero, by split <;> rfl⟩ (.inl zero)
  by_cases overflows : HostOverflows (dividend emu w).toInt s.toInt w
  · rw [idiv_of_overflow zero overflows]
    exact iff_of_false id fun right => (right.resolve_left zero).2 overflows
  obtain ⟨start, regs, result⟩ := idiv_of_fine zero overflows
  have right : DividesRight w emu s .signed ↔ ¬ QuotientMin (2 ^ (w.bits - 1)) (dividend emu w).toInt s.toInt :=
    ⟨fun holds => (holds.resolve_left zero).1, fun other => .inr ⟨other, overflows⟩⟩
  rw [result, right, ← tdiv_eq_min_iff zero]
  by_cases big : 2 ^ (w.bits - 1) ≤ ((dividend emu w).toInt.tdiv s.toInt).natAbs
  · rw [if_pos big, ← fitsSigned_iff big]
    exact ⟨fun raised => raised.1.resolve_left zero, fun outside => ⟨.inr outside, regs⟩⟩
  · have small := Nat.lt_of_not_le big
    have other : (dividend emu w).toInt.tdiv s.toInt ≠ -2 ^ (w.bits - 1) := by
      intro same
      rw [same, Int.natAbs_neg, Int.natAbs_pow] at small
      exact absurd small (Nat.lt_irrefl _)
    have remainder : ((dividend emu w).toInt.tmod s.toInt).natAbs < 2 ^ (w.bits - 1) := by
      have nonzero := toInt_ne_zero zero
      rw [Int.natAbs_tmod]
      exact (Nat.mod_lt _ (by omega)).trans_le (signed_natAbs s)
    rw [if_neg big]
    refine iff_of_true ⟨zero, fitsSigned_of_natAbs small, stores_setDivided regs ?_ ?_⟩ other
    · exact toInt_ofInt_of_natAbs small w.bits_pos
    · exact toInt_ofInt_of_natAbs remainder w.bits_pos

theorem fitsUnsigned_iff (q : Nat) : FitsUnsigned n q ↔ ¬ 2 ^ n ≤ q := by
  have cast : ((2 ^ n : Nat) : Int) = 2 ^ n := by push_cast; rfl
  unfold FitsUnsigned
  rw [← cast]
  omega

theorem toNat_quotient (w : Width) (d : BitVec (w.bits + w.bits)) (s : BitVec w.bits) :
    (d / s.setWidth (w.bits + w.bits)).toNat = d.toNat / s.toNat := by
  rw [toNat_udiv, toNat_setWidth_of_le (Nat.le_add_left _ _)]

theorem toNat_remainder (w : Width) (d : BitVec (w.bits + w.bits)) (s : BitVec w.bits) :
    (d % s.setWidth (w.bits + w.bits)).toNat = d.toNat % s.toNat := by
  rw [toNat_umod, toNat_setWidth_of_le (Nat.le_add_left _ _)]

theorem toNat_halves {m : Nat} (high : BitVec n) (lower : BitVec m) :
    (high ++ lower).toNat = 2 ^ m * high.toNat + lower.toNat := by
  rw [toNat_append, Nat.shiftLeft_eq, Nat.mul_comm, ← Nat.two_pow_add_eq_or_of_lt lower.isLt]

theorem dividend64 (emu : X64Emu) :
    (dividend emu .w64).toNat = 2 ^ 64 * (emu.regs _RDX).toNat + (emu.regs _RAX).toNat := by
  have whole : ∀ x : BitVec 64, low 64 x = x := fun x => setWidth_eq x
  have halves := toNat_halves (low 64 (emu.regs _RDX)) (low 64 (emu.regs _RAX))
  rw [whole, whole] at halves
  exact halves

theorem dividend64_toInt (emu : X64Emu) :
    (dividend emu .w64).toInt = 2 ^ 64 * (emu.regs _RDX).toInt + (emu.regs _RAX).toNat := by
  have whole := dividend64 emu
  have high := (emu.regs _RDX).isLt
  have small := (emu.regs _RAX).isLt
  have wide : (2 : Nat) ^ (Width.w64.bits + Width.w64.bits) = 2 ^ 128 := rfl
  rw [toInt_eq_toNat_cond, toInt_eq_toNat_cond, wide]
  omega

/-- Only the greatest dividends of `div64`, by 1, have a quotient that turns negative. -/
theorem quotient_lt_iff (emu : X64Emu) {s : BitVec 64} (nonzero : s ≠ 0) :
    2 ^ 127 ≤ (dividend emu .w64).toNat / s.toNat ↔ s = 1 ∧ (emu.regs _RDX).msb = true := by
  have high := (emu.regs _RDX).isLt
  have small := (emu.regs _RAX).isLt
  have divisor : s.toNat ≠ 0 := fun zero => nonzero (BitVec.eq_of_toNat_eq zero)
  have one : s = 1 ↔ s.toNat = 1 := BitVec.toNat_inj.symm
  rw [dividend64, one, BitVec.msb_eq_decide, decide_eq_true_iff]
  by_cases unit : s.toNat = 1
  · rw [unit, Nat.div_one]
    omega
  · rw [Nat.le_div_iff_mul_le (by omega)]
    omega

theorem toInt_gt_iff (x : BitVec 128) : x.toInt > 0xffffffffffffffff ↔ 2 ^ 64 ≤ x.toNat ∧ ¬ 2 ^ 127 ≤ x.toNat := by
  rw [toInt_eq_toNat_cond]
  omega

theorem divOver_iff (emu : X64Emu) (nonzero : s ≠ 0) :
    divOver w (dividend emu w / s.setWidth (w.bits + w.bits)) = true ↔
      2 ^ w.bits ≤ (dividend emu w).toNat / s.toNat ∧ ¬ (w = .w64 ∧ s = 1 ∧ (emu.regs _RDX).msb) := by
  have quotient := toNat_quotient w (dividend emu w) s
  have narrow : ∀ q : Nat, decide (q > 2 ^ w.bits - 1) = true ↔ 2 ^ w.bits ≤ q := by
    intro q
    have pos := Nat.two_pow_pos w.bits
    rw [decide_eq_true_iff]
    omega
  cases w with
  | w64 =>
    have moved : ∀ k, k ≤ (dividend emu .w64 / s.setWidth (Width.w64.bits + Width.w64.bits)).toNat ↔
        k ≤ (dividend emu .w64).toNat / s.toNat := fun k => iff_of_eq (congrArg (k ≤ ·) quotient)
    refine (decide_eq_true_iff.trans (toInt_gt_iff _)).trans (and_congr (moved _) (not_congr ?_))
    exact ((moved _).trans (quotient_lt_iff emu nonzero)).trans (and_iff_right rfl).symm
  | _ =>
    refine (narrow _).trans ?_
    rw [quotient]
    exact (and_iff_left (fun wrong => nomatch wrong.1)).symm

theorem div_exact_iff : Exact .unsigned w emu s (div w emu s) ↔ DividesRight w emu s .unsigned := by
  have regs : (RESET_FLAGS emu).regs = emu.regs := rfl
  unfold div
  generalize RESET_FLAGS emu = start at *
  by_cases zero : s = 0
  · rw [if_pos zero]
    refine iff_of_true ⟨.inl zero, regs⟩ ?_
    rintro ⟨rfl, one, -⟩
    exact absurd (one.symm.trans zero) (by decide)
  rw [if_neg zero, dividend_congr regs]
  have tooLarge := divOver_iff emu zero
  have value : (((dividend emu w).toNat : Int).tdiv s.toNat) = ((dividend emu w).toNat / s.toNat : Nat) := rfl
  have rest : (((dividend emu w).toNat : Int).tmod s.toNat) = ((dividend emu w).toNat % s.toNat : Nat) := rfl
  have fits : Signedness.unsigned.Fits w.bits (((dividend emu w).toNat : Int).tdiv s.toNat) ↔
      ¬ 2 ^ w.bits ≤ (dividend emu w).toNat / s.toNat := by
    rw [value]
    exact fitsUnsigned_iff _
  unfold DividesRight
  by_cases raises : divOver w (dividend emu w / s.setWidth (w.bits + w.bits)) = true
  · rw [if_pos raises]
    obtain ⟨large, right⟩ := tooLarge.mp raises
    exact iff_of_true ⟨.inr fun small => fits.mp small large, regs⟩ right
  rw [if_neg raises]
  constructor
  · rintro ⟨-, small, -⟩ ⟨rfl, rfl, negative⟩
    have bound := (quotient_lt_iff emu zero).mpr ⟨rfl, negative⟩
    refine fits.mp small (Nat.le_trans ?_ bound)
    decide
  · intro right
    have small : ¬ 2 ^ w.bits ≤ (dividend emu w).toNat / s.toNat := fun large => raises (tooLarge.mpr ⟨large, right⟩)
    have divisor : 0 < s.toNat := Nat.pos_of_ne_zero fun null => zero (BitVec.eq_of_toNat_eq null)
    refine ⟨zero, fits.mpr small, stores_setDivided ?_ ?_ ?_⟩
    · rw [divFlags_regs, regs]
    · unfold Signedness.value
      rw [toNat_setWidth, toNat_quotient, Nat.mod_eq_of_lt (Nat.lt_of_not_le small)]
      rfl
    · unfold Signedness.value
      rw [toNat_setWidth, toNat_remainder, Nat.mod_eq_of_lt ((Nat.mod_lt _ divisor).trans s.isLt)]
      rfl

end Agreement

/-- The divisions do what the processor does on every dividend and divisor but those `DividesRight` excludes. -/
theorem divides_iff (sg : Signedness) (w : Width) (emu : X64Emu) (s : BitVec w.bits) :
    Exact sg w emu s (sg.divide w emu s) ↔ DividesRight w emu s sg := by
  cases sg with
  | signed => exact idiv_exact_iff
  | unsigned => exact div_exact_iff

/-! ### Failing divisions -/

def accumulators (rax rdx : BitVec 64) : X64Emu where
  regs := Function.update (Function.update (fun _ => 0) _RAX rax) _RDX rdx
  eflags := ⟨false, false, false, false, false, false⟩
  df := .d_none
  op1 := 0
  op2 := 0
  res := 0

/-- `-128 / 1` raises, `-2 ^ 63 / -1` overflows on the host, and a quotient of 128 bits is stored. -/
theorem divide_not_exact :
    ¬ Exact .signed .w8 (accumulators 0xff80 0) 1#8 (idiv .w8 (accumulators 0xff80 0) 1#8) ∧
      ¬ Exact .signed .w32 (accumulators 0 0x80000000) 0xffffffff#32
          (idiv .w32 (accumulators 0 0x80000000) 0xffffffff#32) ∧
      ¬ Exact .unsigned .w64 (accumulators 0 0x8000000000000000) 1#64
          (div .w64 (accumulators 0 0x8000000000000000) 1#64) := by
  refine ⟨fun holds => ?_, fun holds => ?_, fun holds => ?_⟩
  · have quotient : QuotientMin (2 ^ 7) (-128) 1 := by unfold QuotientMin; decide
    obtain zero | ⟨other, -⟩ := idiv_exact_iff.mp holds
    · exact absurd (congrArg BitVec.toNat zero) (by decide)
    · exact other quotient
  · have least : HostOverflows (-2 ^ 63) (-1) .w32 := ⟨rfl, .inl rfl⟩
    obtain zero | ⟨-, fine⟩ := idiv_exact_iff.mp holds
    · exact absurd (congrArg BitVec.toNat zero) (by decide)
    · exact fine least
  · exact div_exact_iff.mp holds ⟨rfl, rfl, rfl⟩

end Box64.Emu
