import Box64.Dynarec.GetedAddress

/-!
# Addresses under the address-size prefix

`GetECommon32O` and what `geted32` emits compare with the low half of the address, extended: the first adds extended
parts and does not cut the sum, the second may name a register whose upper half is not clear, or leave a displacement
to an access that adds it in 64 bits.
-/

namespace Box64.Arm64

open BitVec Memory Emu AddressForm

namespace GetedSite

variable (site : GetedSite)

/-- A single register that the code copies to clear its upper half, since it is the hint. -/
def Cleared (nextop : BitVec 8) : Prop :=
  nextop &&& 0xC0 = 0 ∧ nextop &&& 7 ≠ 4 ∧ guest (regNumber nextop site.rex.b) = site.hint

/-- What is added to a displacement that is left over: the low half of base and index, or a base register whole. -/
def offset32 (f : AddressForm) (regs : Fin 16 → BitVec 64) (next : BitVec 64) : Int :=
  match f.index with
  | some i => ((f.baseValue regs next + (regs i <<< f.scale)).toNat % 2 ^ 32 : Nat)
  | none => (f.baseValue regs next).toNat

/-- The code adds everything in its `w` form, or adding the rest in 64 bits gives no carry and leaves no upper half. -/
def Fits32 (nextop : BitVec 8) (f : AddressForm) (regs : Fin 16 → BitVec 64) (next : BitVec 64) : Prop :=
  f.base = .ip ∨ site.Cleared nextop ∨ ¬ site.Left f ∨ (offset32 f regs next + f.disp.toInt) % 2 ^ 64 < 2 ^ 32

section Results

variable {site : GetedSite} (f : AddressForm) (regs : Fin 16 → BitVec 64) (next : BitVec 64)

theorem narrow_eval : narrow false (f.eval regs next) = (f.eval32 regs next).setWidth 64 := rfl

theorem low_leftSum : (leftSum false f regs next + f.disp).setWidth 32 = f.eval32 regs next := by
  rw [eval32, leftSum]
  split
  case h_1 i has =>
    have index : f.indexValue regs = regs i := by rw [indexValue, has]
    rw [eval, index]
    refine (low_add false _ _).trans ?_
    rw [low_narrow]
    exact (low_add false _ _).symm
  case h_2 no => rw [eval_of_no_index _ _ _ no]

theorem leftSum_offset : (leftSum false f regs next).toNat = offset32 f regs next := by
  rw [leftSum, offset32]
  cases f.index with
  | none => rfl
  | some i =>
    have cut (x : BitVec 64) : (narrow false x).toNat = x.toNat % 2 ^ 32 := by
      rw [narrow, BitVec.toNat_setWidth_of_le (by decide)]
      exact BitVec.toNat_setWidth 32 x
    exact congrArg Int.ofNat (cut _)

theorem toNat_add_iff (x d : BitVec 64) : (x + d).toNat < 2 ^ 32 ↔ ((x.toNat : Int) + d.toInt) % 2 ^ 64 < 2 ^ 32 := by
  have sum : x + d = BitVec.ofInt 64 (x.toNat + d.toInt) := by
    rw [BitVec.ofInt_add, BitVec.ofInt_toInt, BitVec.ofInt_natCast, BitVec.ofNat_toNat, BitVec.setWidth_eq]
  rw [sum]
  exact toNat_ofInt_lt_iff _

theorem result_false_iff :
    site.result false f regs next = (f.eval32 regs next).setWidth 64 ↔
      (¬ site.Left f ∨ (offset32 f regs next + f.disp.toInt) % 2 ^ 64 < 2 ^ 32) := by
  rw [result]
  by_cases left : site.Left f
  · rw [if_pos left, eq_extended_iff (low_leftSum f regs next), toNat_add_iff, leftSum_offset,
      or_iff_right (not_not_intro left)]
  · rw [if_neg left, narrow_eval]
    exact iff_of_true rfl (.inl left)

end Results

section Leaves

variable {site : GetedSite} (allowed : site.HintAllowed) (host : Host) (m : Cpu) (code : Memory) {nextop : BitVec 8}
  (addr : BitVec 64) {last_ip : BitVec 64} (known : IpKnown last_ip m)
include allowed known

theorem run_ip32 (tmp : BitVec 32) (A : BitVec 64) :
    (runAddr host (MOV32w site.ret tmp ++ (GETIP last_ip A).1 ++ [ADDSUB_REG false false site.ret site.ret xRIP]) m).regs
        site.ret = narrow false (A + tmp.signExtend 64) := by
  have real := allowed.ret_real
  have kept := allowed.ret_ne_rip
  obtain ⟨run, _⟩ := run_GETIP host (known.set kept tmp) A
  have sum : (ADDSUB_REG false false site.ret site.ret xRIP).effect host ((m.set site.ret tmp).set xRIP A) = _ :=
    effect_ADDSUB_REG host _ false false real (by decide)
  rw [ip_regs, Cpu.set_regs_of_ne _ _ kept, m.set_regs _ _ real, BitVec.add_comm] at sum
  rw [runAddr_append, runAddr_append, run_MOV32w host m tmp real, run, runAddr_cons, runAddr_nil, sum,
    set_narrow_regs _ false _ real]
  refine narrow_congr false ?_
  have cut : low 32 (tmp.setWidth 64) = low 32 (tmp.signExtend 64) := by
    apply eq_of_getLsbD_eq
    intro i lt
    rw [low, low, getLsbD_setWidth, getLsbD_setWidth, getLsbD_setWidth, getLsbD_signExtend, if_pos lt]
  exact (low_add false _ _).trans ((congrArg (low 32 A + ·) cut).trans (low_add false _ _).symm)

/-- Whether the register named and the displacement left over give the low half of the address, extended. -/
theorem geted32_iff (memory : nextop &&& 0xC0 ≠ 0xC0) :
    let f := decode site.rex.b site.rex.x nextop code addr
    let next := addr + BitVec.ofNat 64 f.length + site.delta.signExtend 64
    let g := site.geted32 code nextop addr last_ip
    (runAddr host g.code m).regs g.ed + g.fixaddress = (f.eval32 m.emu.regs next).setWidth 64 ↔
      site.Fits32 nextop f m.emu.regs next := by
  have real := allowed.ret_real
  have kept := allowed.ret_ne_rip
  dsimp only
  rw [geted32, Fits32]
  by_cases low : nextop &&& 0xC0 = 0
  · rw [if_pos low]
    by_cases sib : nextop &&& 7 = 4
    · rw [if_pos sib, (getedSib_leaves allowed host m false code addr known _ low sib).value, result_false_iff]
      have not_cleared : ¬ site.Cleared nextop := fun cleared => cleared.2.1 sib
      have not_ip : (decode site.rex.b site.rex.x nextop code addr).base ≠ .ip := by
        by_cases baseless : load 8 code addr &&& 7 = 5
        · rw [decode_baseless_sib site.rex.b site.rex.x code addr low sib baseless]
          exact AddressBase.noConfusion
        · rw [decode_sib site.rex.b site.rex.x code addr low sib baseless]
          exact AddressBase.noConfusion
      rw [or_iff_right not_ip, or_iff_right not_cleared]
    · rw [if_neg sib]
      by_cases ip : nextop &&& 7 = 5
      · rw [if_pos ip, decode_ip site.rex.b site.rex.x code addr low ip, extendedDisp_four]
        refine iff_of_true ?_ (.inl rfl)
        rw [← narrow_eval, eval_of_no_index _ _ _ rfl]
        exact (add_zero' _).trans (run_ip32 allowed host m known _ _)
      · rw [if_neg ip, decode_reg site.rex.b site.rex.x code addr low sib ip]
        generalize number : regNumber nextop site.rex.b = r
        dsimp only
        by_cases hint : guest r = site.hint
        · rw [if_pos hint]
          refine iff_of_true ?_ (.inr (.inl ⟨low, sib, number ▸ hint⟩))
          rw [runAddr_cons, runAddr_nil, effect_MOVw_REG host m (guest_real r), ← hint,
            set_narrow_regs m false _ (guest_real r), ← narrow_eval, eval_of_no_index _ _ _ rfl]
          exact (add_zero' _).trans (congrArg (narrow false) (add_zero' _).symm)
        · have not_cleared : ¬ site.Cleared nextop := fun cleared => hint (number ▸ cleared.2.2)
          rw [if_neg hint, or_iff_right AddressBase.noConfusion, or_iff_right not_cleared, ← result_false_iff, result,
            if_pos (.inl rfl)]
          rfl
  · rw [if_neg low]
    have moves (m : Cpu) (v : BitVec 64) :
        runAddr host (MOV32w site.scratch (v.setWidth 32)) m = m.set site.scratch (narrow false v) :=
      (run_MOV32w host m _ site.scratch_real).trans (m.set_zext _).symm
    rw [(getedDisp_leaves allowed host m false code addr known _ _ moves low memory).value, result_false_iff]
    have not_cleared : ¬ site.Cleared nextop := fun cleared => low cleared.1
    have not_ip : (decode site.rex.b site.rex.x nextop code addr).base ≠ .ip := by
      by_cases sib : nextop &&& 7 = 4
      · rw [decode_sib_disp site.rex.b site.rex.x code addr low sib]
        exact AddressBase.noConfusion
      · rw [decode_reg_disp site.rex.b site.rex.x code addr low sib]
        exact AddressBase.noConfusion
    rw [or_iff_right not_ip, or_iff_right not_cleared]

end Leaves

end GetedSite

/-- For every operand in memory: when `GetECommon32O` returns the address the processor computes under the address-size
prefix, and when what `geted32` emits leaves it. -/
theorem addresses32_iff (code : Memory) (rex : Rex) {nextop : BitVec 8} (memory : nextop &&& 0xC0 ≠ 0xC0)
    (addr : BitVec 64) :
    let f := decode rex.b rex.x nextop code addr
    let after := addr + BitVec.ofNat 64 f.length
    (∀ (emu : X64Emu) (delta : BitVec 8) (base : BitVec 64),
      let next := after + delta.setWidth 64
      (GetECommon32O emu code rex (nextop &&& 0xC7) delta addr base).1 =
          base + (f.eval32 emu.regs next).setWidth 64 ↔
        parts32 f emu.regs next % 2 ^ 64 < 2 ^ 32) ∧
    (∀ (host : Host) (m : Cpu) (site : GetedSite) (last_ip : BitVec 64),
      site.rex = rex → site.HintAllowed → IpKnown last_ip m →
        let next := after + site.delta.signExtend 64
        let g := site.geted32 code nextop addr last_ip
        ((runAddr host g.code m).regs g.ed + g.fixaddress = (f.eval32 m.emu.regs next).setWidth 64 ↔
          site.Fits32 nextop f m.emu.regs next)) := by
  refine ⟨fun emu delta base => ?_, ?_⟩
  · dsimp only
    rw [GetECommon32O_eq emu code rex delta addr base memory]
    dsimp only
    rw [BitVec.add_right_inj, eq_extended_iff (low_sum32 _ _ _), sum32_eq, toNat_ofInt_lt_iff]
  · rintro host m site last_ip rfl allowed known
    exact GetedSite.geted32_iff allowed host m code addr known memory

theorem addresses32_iff_sample :
    let site : GetedSite := { rex := ⟨0⟩, hint := x1, absmax := 0, mask := 0, s := false, delta := 0 }
    let g := site.geted32 sampleOperand 0x44 0x1000 0
    (GetECommon32O sampleCpu.emu sampleOperand ⟨0⟩ 0x44 0 0x1000 0x7000).1 = 0x9004 ∧
      (runAddr tableHost g.code sampleCpu).regs g.ed + g.fixaddress = 0x2004 := by
  intro site g
  have exact_iff := addresses32_iff sampleOperand ⟨0⟩ (by decide : (0x44 : BitVec 8) &&& 0xC0 ≠ 0xC0) 0x1000
  obtain ⟨interpreter, emitted⟩ := exact_iff
  refine ⟨?_, ?_⟩
  · refine ((interpreter sampleCpu.emu 0 0x7000).mpr ?_).trans ?_
    · decide
    · decide
  · have leaves := emitted tableHost sampleCpu site 0 rfl ⟨by decide, by decide⟩ (fun set => absurd rfl set)
    have own : ¬ site.Left (decode false false 0x44 sampleOperand 0x1000) := by decide
    refine (leaves.mpr (.inr (.inr (.inl own)))).trans ?_
    decide

/-- `RAX` is all ones and has a 1 in its upper half. -/
def dirtyCpu : Cpu where
  regs r := if r = guest 0 then 0x1FFFFFFFF else 0
  nzcv := ⟨false, false, false, false⟩
  fields _ := 0

/-- A displacement of 1. -/
def plusOne : Memory := fun a => if a = 0x1000 then 1 else 0

/-- `[EAX+1]` in the interpreter, which is 0, and `[EAX]` in emitted code. -/
theorem addresses32_go_wrong :
    let site : GetedSite := { rex := ⟨0⟩, hint := x1, absmax := 0, mask := 0, s := false, delta := 0 }
    let g := site.geted32 plusOne 0x00 0x1000 0
    (decode false false 0x40 plusOne 0x1000).eval32 dirtyCpu.emu.regs 0x1001 = 0 ∧
      (GetECommon32O dirtyCpu.emu plusOne ⟨0⟩ 0x40 0 0x1000 0).1 = 0x100000000 ∧
      (decode false false 0x00 plusOne 0x1000).eval32 dirtyCpu.emu.regs 0x1000 = 0xFFFFFFFF ∧
      (runAddr tableHost g.code dirtyCpu).regs g.ed + g.fixaddress = 0x1FFFFFFFF := by
  decide

end Box64.Arm64
