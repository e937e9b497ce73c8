import Box64.Emu.ShiftFlags

/-!
# The flags of a recorded shift

`UpdateFlags` on a shift or rotate whose operands and result are in `op1`, `op2` and `res`, whoever put them there, and
the primitives by a count below the operand size, as it always is at 32 and 64 bits.
-/

namespace Box64.Emu

open BitVec

variable {w : Width} {emu : X64Emu} {d res : BitVec w.bits} {cnt : Nat}

/-- The pending operation is this one. -/
structure Recorded (w : Width) (df : DeferedFlags) (d : BitVec w.bits) (cnt : Nat) (res : BitVec w.bits) (emu : X64Emu) :
    Prop where
  df : emu.df = df
  op1 : low w.bits emu.op1 = d
  op2 : low w.bits emu.op2 = BitVec.ofNat w.bits cnt
  res : low w.bits emu.res = res

theorem Recorded.count {df : DeferedFlags} (recorded : Recorded w df d cnt res emu) (lt : cnt < w.bits) :
    (low w.bits emu.op2).toNat = cnt := by
  have small : cnt < 2 ^ w.bits := lt_trans lt Nat.lt_two_pow_self
  rw [recorded.op2, BitVec.toNat_ofNat, Nat.mod_eq_of_lt small]

/-- `CF`, `OF` and the flags of a result. -/
def shiftFlags (f : X64Flags) (res : BitVec w.bits) (cf off : Bool) : X64Flags :=
  { setZSP { f with CF := cf } res with OF := off }

theorem deferedFlags_shl (recorded : Recorded w (.d_shl w) d cnt res emu) (lt : cnt < w.bits) :
    deferedFlags emu =
      if cnt = 0 then { emu.eflags with OF := false } else
        shiftFlags emu.eflags res (d.getLsbD (w.bits - cnt))
          (if cnt = 1 then res.msb ^^ d.getLsbD (w.bits - cnt) else false) := by
  have flags : deferedFlags emu = shlFlags emu emu.eflags w := by rw [deferedFlags, recorded.df]
  rw [flags, shlFlags, recorded.count lt, recorded.op1, recorded.res, if_pos (Or.inr lt)]
  by_cases zero : cnt = 0
  · subst zero
    rfl
  · have pos : cnt > 0 := by omega
    rw [if_pos pos, if_neg zero]
    rfl

theorem deferedFlags_shr (recorded : Recorded w (.d_shr w) d cnt res emu) (lt : cnt < w.bits) :
    deferedFlags emu =
      if cnt = 0 then emu.eflags else
        shiftFlags emu.eflags res (d.getLsbD (cnt - 1))
          (if cnt = 1 then XOR2 (res >>> (w.bits - 2)) else emu.eflags.OF) := by
  have flags : deferedFlags emu = shrFlags emu emu.eflags w := by rw [deferedFlags, recorded.df]
  rw [flags, shrFlags, recorded.count lt, recorded.op1, recorded.res, if_pos (Or.inr lt)]
  by_cases zero : cnt = 0
  · subst zero
    rfl
  · have pos : cnt > 0 := by omega
    rw [if_pos pos, if_neg zero]
    split <;> rfl

theorem deferedFlags_sar (recorded : Recorded w (.d_sar w) d cnt res emu) (lt : cnt < w.bits) :
    deferedFlags emu =
      if cnt = 0 then emu.eflags else shiftFlags emu.eflags res (d.getLsbD (cnt - 1)) emu.eflags.OF := by
  have flags : deferedFlags emu = sarFlags emu emu.eflags w := by rw [deferedFlags, recorded.df]
  rw [flags, sarFlags, recorded.count lt, recorded.op1, recorded.res, if_pos (Or.inr lt)]
  by_cases zero : cnt = 0
  · subst zero
    rfl
  · have pos : cnt > 0 := by omega
    rw [if_pos pos, if_neg zero]
    rfl

/-- The count and the result of a rotate; the operand is not recorded. -/
structure RecordedRotate (w : Width) (df : DeferedFlags) (cnt : Nat) (res : BitVec w.bits) (emu : X64Emu) : Prop where
  df : emu.df = df
  op2 : low w.bits emu.op2 = BitVec.ofNat w.bits cnt
  res : low w.bits emu.res = res

theorem ofNat_eq_one_iff (small : cnt < 2 ^ w.bits) : BitVec.ofNat w.bits cnt = 1 ↔ cnt = 1 := by
  have one : 1 < 2 ^ w.bits := lt_of_le_of_lt w.bits_pos Nat.lt_two_pow_self
  rw [← BitVec.toNat_inj, BitVec.toNat_ofNat, Nat.mod_eq_of_lt small]
  have value : (1 : BitVec w.bits).toNat = 1 := (BitVec.toNat_ofNat 1 w.bits).trans (Nat.mod_eq_of_lt one)
  rw [value]

/-- The flags a rotate leaves. -/
def rotatedFlags (f : X64Flags) (cnt : Nat) (cf off : Bool) : X64Flags :=
  { f with CF := cf, OF := if cnt = 1 then off else f.OF }

theorem deferedFlags_rol (recorded : RecordedRotate w (.d_rol w) cnt res emu) (small : cnt < 2 ^ w.bits) :
    deferedFlags emu =
      rotatedFlags emu.eflags cnt (res.getLsbD 0) ((res + (res >>> (w.bits - 1))).getLsbD 0) := by
  have flags : deferedFlags emu = rolFlags emu emu.eflags w := by rw [deferedFlags, recorded.df]
  rw [flags, rolFlags, recorded.op2, recorded.res]
  simp only [ofNat_eq_one_iff small, rotatedFlags]
  split <;> rfl

theorem deferedFlags_ror (recorded : RecordedRotate w (.d_ror w) cnt res emu) (small : cnt < 2 ^ w.bits) :
    deferedFlags emu = rotatedFlags emu.eflags cnt res.msb (XOR2 (res >>> (w.bits - 2))) := by
  have flags : deferedFlags emu = rorFlags emu emu.eflags w := by rw [deferedFlags, recorded.df]
  rw [flags, rorFlags, recorded.op2, recorded.res]
  simp only [ofNat_eq_one_iff small, rotatedFlags]
  split <;> rfl

/-! ### The primitives -/

section Primitives

variable (d fill : BitVec w.bits) (emu) (large : w = .w32 ∨ w = .w64) (lt : cnt < w.bits)

include large lt

theorem toNat_maskedCount : (maskedCount w (BitVec.ofNat 8 cnt)).toNat = cnt := by
  rw [maskedCount, BitVec.toNat_and, BitVec.toNat_ofNat]
  obtain rfl | rfl := large
  · have lt' : cnt < 32 := lt
    have small : cnt < 2 ^ 8 := by omega
    rw [Nat.mod_eq_of_lt small]
    exact (Nat.and_two_pow_sub_one_eq_mod cnt 5).trans (Nat.mod_eq_of_lt lt')
  · have lt' : cnt < 64 := lt
    have small : cnt < 2 ^ 8 := by omega
    rw [Nat.mod_eq_of_lt small]
    exact (Nat.and_two_pow_sub_one_eq_mod cnt 6).trans (Nat.mod_eq_of_lt lt')

theorem setWidth_maskedCount : (maskedCount w (BitVec.ofNat 8 cnt)).setWidth w.bits = BitVec.ofNat w.bits cnt := by
  have small : cnt < 2 ^ w.bits := lt_trans lt Nat.lt_two_pow_self
  apply BitVec.eq_of_toNat_eq
  rw [toNat_count, toNat_maskedCount large lt, BitVec.toNat_ofNat, Nat.mod_eq_of_lt small]

theorem shl_result : (shl w emu d (BitVec.ofNat 8 cnt)).1 = d <<< cnt := by
  simp only [shl, low_setLow w.bits_le, toNat_maskedCount large lt]

theorem shl_recorded : Recorded w (.d_shl w) d cnt (d <<< cnt) (shl w emu d (BitVec.ofNat 8 cnt)).2 where
  df := rfl
  op1 := low_setLow w.bits_le _ d
  op2 := (low_setLow w.bits_le _ _).trans (setWidth_maskedCount large lt)
  res := shl_result emu d large lt

theorem shr_result : (shr w emu d (BitVec.ofNat 8 cnt)).1 = d >>> cnt := by
  simp only [shr, low_setLow w.bits_le, toNat_maskedCount large lt]

theorem shr_recorded : Recorded w (.d_shr w) d cnt (d >>> cnt) (shr w emu d (BitVec.ofNat 8 cnt)).2 where
  df := rfl
  op1 := low_setLow w.bits_le _ d
  op2 := (low_setLow w.bits_le _ _).trans (setWidth_maskedCount large lt)
  res := shr_result emu d large lt

theorem sar_result : (sar w emu d (BitVec.ofNat 8 cnt)).1 = d.sshiftRight cnt := by
  simp only [sar, low_setLow w.bits_le, toNat_maskedCount large lt]

theorem sar_recorded : Recorded w (.d_sar w) d cnt (d.sshiftRight cnt) (sar w emu d (BitVec.ofNat 8 cnt)).2 where
  df := rfl
  op1 := low_setLow w.bits_le _ d
  op2 := (low_setLow w.bits_le _ _).trans (setWidth_maskedCount large lt)
  res := sar_result emu d large lt

theorem shld_eq (nonzero : cnt ≠ 0) :
    let res := (d <<< cnt) ||| (fill >>> (w.bits - cnt))
    (shld w emu d fill (BitVec.ofNat 8 cnt)).1 = res ∧
      deferedFlags (shld w emu d fill (BitVec.ofNat 8 cnt)).2 =
        shiftFlags emu.eflags res (d.getLsbD (w.bits - cnt))
          (if cnt = 1 then res.msb ^^ d.getLsbD (w.bits - cnt) else false) := by
  have pos : cnt > 0 := by omega
  simp only [shld, toNat_maskedCount large lt, Nat.mod_eq_of_lt lt, if_pos lt, if_pos pos]
  exact ⟨trivial, rfl⟩

theorem shrd_eq (nonzero : cnt ≠ 0) :
    let res := (d >>> cnt) ||| (fill <<< (w.bits - cnt))
    (shrd w emu d fill (BitVec.ofNat 8 cnt)).1 = res ∧
      deferedFlags (shrd w emu d fill (BitVec.ofNat 8 cnt)).2 =
        shiftFlags emu.eflags res (d.getLsbD (cnt - 1))
          (if cnt = 1 then XOR2 (res >>> (w.bits - 2)) else false) := by
  have pos : cnt > 0 := by omega
  simp only [shrd, toNat_maskedCount large lt, Nat.mod_eq_of_lt lt, if_pos lt, if_pos pos]
  exact ⟨trivial, rfl⟩

theorem rol_eq (resolved : emu.df = .d_none) (nonzero : cnt ≠ 0) :
    let res := d.rotateLeft cnt
    (rol w emu d (BitVec.ofNat 8 cnt)).1 = res ∧
      deferedFlags (rol w emu d (BitVec.ofNat 8 cnt)).2 =
        rotatedFlags emu.eflags cnt (res.getLsbD 0) ((res + (res >>> (w.bits - 1))).getLsbD 0) := by
  intro res
  have result : _ = res := rol_result d cnt w.bits_pos
  simp only [rol, toNat_maskedCount large lt, if_neg nonzero, result, CHECK_FLAGS_eq, updateFlags_of_none resolved,
    rotatedFlags]
  have flags : ∀ f : X64Flags, deferedFlags { emu with eflags := f } = f := fun f => by rw [deferedFlags, resolved]
  refine ⟨trivial, (flags _).trans ?_⟩
  split <;> rfl

theorem ror_eq (resolved : emu.df = .d_none) (nonzero : cnt ≠ 0) :
    let res := d.rotateRight cnt
    (ror w emu d (BitVec.ofNat 8 cnt)).1 = res ∧
      deferedFlags (ror w emu d (BitVec.ofNat 8 cnt)).2 =
        rotatedFlags emu.eflags cnt res.msb (XOR2 (res >>> (w.bits - 2))) := by
  intro res
  have result : _ = res := ror_result d cnt w.bits_pos
  simp only [ror, toNat_maskedCount large lt, if_neg nonzero, result, CHECK_FLAGS_eq, updateFlags_of_none resolved,
    rotatedFlags]
  have flags : ∀ f : X64Flags, deferedFlags { emu with eflags := f } = f := fun f => by rw [deferedFlags, resolved]
  refine ⟨trivial, (flags _).trans ?_⟩
  split <;> rfl

end Primitives

end Box64.Emu
