import Box64.Dynarec.Geted

/-!
# The address the emitted code computes

The register `geted` names, with the displacement it leaves over, is the address the processor computes for the operand,
and `GetECommon` computes the same.
-/

namespace Box64.Arm64

open BitVec Memory Emu AddressForm

/-! ### Registers -/

/-- A hint is a scratch register or one of the guest's. -/
structure GetedSite.HintAllowed (site : GetedSite) : Prop where
  not_zero : site.hint ≠ xZR
  not_rip : site.hint ≠ xRIP

theorem guest_ne (r : Fin 16) {q : Reg} (out : q.val < 10 ∨ 26 ≤ q.val) : guest r ≠ q := by
  intro same
  have inside : (guest r).val = 10 + r.val := rfl
  have bound := r.isLt
  rw [same] at inside
  omega

theorem guest_real (r : Fin 16) : guest r ≠ xZR := guest_ne r (.inr (by decide))

namespace GetedSite

variable {site : GetedSite}

theorem scratch_below : site.scratch.val < 10 := by
  rw [scratch]
  split
  case isTrue small => exact small.2
  case isFalse => decide

theorem scratch_real : site.scratch ≠ xZR := fun same => absurd (same ▸ site.scratch_below) (by decide)

theorem scratch_ne_rip : site.scratch ≠ xRIP := fun same => absurd (same ▸ site.scratch_below) (by decide)

theorem guest_ne_scratch (r : Fin 16) : guest r ≠ site.scratch := guest_ne r (.inl site.scratch_below)

theorem HintAllowed.ret_real (allowed : site.HintAllowed) : site.ret ≠ xZR := by
  rw [ret]
  split
  · exact allowed.not_zero
  · decide

theorem HintAllowed.ret_ne_rip (allowed : site.HintAllowed) : site.ret ≠ xRIP := by
  rw [ret]
  split
  · exact allowed.not_rip
  · decide

end GetedSite

theorem set_narrow_regs (m : Cpu) (sf : Bool) {r : Reg} (x : BitVec 64) (real : r ≠ xZR) :
    (m.set r (narrow sf x)).regs r = narrow sf x := by
  rw [m.set_regs _ _ real, BitVec.setWidth_eq]

/-! ### The instruction pointer -/

/-- `xRIP` holds `last_ip` where it is known. -/
def IpKnown (last_ip : BitVec 64) (m : Cpu) : Prop := last_ip ≠ 0 → m.regs xRIP = last_ip

theorem IpKnown.set {last_ip : BitVec 64} {m : Cpu} (known : IpKnown last_ip m) {n : Nat} {r : Reg} (ne : r ≠ xRIP)
    (v : BitVec n) : IpKnown last_ip (m.set r v) := fun set => (m.set_regs_of_ne v ne.symm).trans (known set)

theorem ip_regs (m : Cpu) (A : BitVec 64) : (m.set xRIP A).regs xRIP = A := by
  rw [m.set_regs _ _ (by decide), BitVec.setWidth_eq]

theorem ip_known_set (m : Cpu) (A : BitVec 64) : IpKnown A (m.set xRIP A) := fun _ => ip_regs m A

theorem run_GETIP (host : Host) {m : Cpu} {last_ip : BitVec 64} (known : IpKnown last_ip m) (A : BitVec 64) :
    runAddr host (GETIP last_ip A).1 m = m.set xRIP A ∧ (GETIP last_ip A).2 = A := by
  rw [GETIP]
  split
  case isTrue near =>
    obtain ⟨set, small⟩ := near
    have forth : last_ip + (A - last_ip) = A := by rw [BitVec.add_comm, BitVec.sub_add_cancel]
    refine ⟨?_, forth⟩
    split
    case isTrue =>
      have sum : (ADDSUB_U12 false true xRIP xRIP (A - last_ip)).effect host m = _ :=
        effect_ADDSUB_U12 host m true false (by decide) small
      rw [narrow_true, known set, if_neg Bool.false_ne_true, forth] at sum
      exact sum
    case isFalse same =>
      have unchanged : A = last_ip := by
        rw [← forth, Classical.not_not.mp same]
        exact BitVec.add_zero _
      rw [unchanged, ← known set]
      exact (m.set_self).symm
  case isFalse =>
    refine ⟨?_, rfl⟩
    split
    · exact run_MOV64x host m A (by decide)
    · rfl

/-! ### A displacement that the code adds -/

theorem add_zero' (x : BitVec 64) : x + 0 = x := BitVec.add_zero x

theorem narrow_congr (sf : Bool) {x y : BitVec 64} (same : low (opSize sf) x = low _ y) : narrow sf x = narrow sf y := by
  rw [narrow, same, narrow]

section Magnitude

variable (i64 : BitVec 64)

def magnitude : BitVec 64 := if i64.slt 0 then -i64 else i64

theorem signed_magnitude : (if i64.slt 0 then -magnitude i64 else magnitude i64) = i64 := by
  rw [magnitude]
  split
  · exact BitVec.neg_neg
  · rfl

theorem magnitude_small (proper : i64 ≠ intMin 64) (small : (magnitude i64).slt 0x1000) : magnitude i64 < 0x1000 := by
  have nonneg : 0 ≤ (magnitude i64).toInt := by
    rw [magnitude]
    by_cases neg : i64.slt 0
    · have below := BitVec.slt_iff_toInt_lt.mp neg
      rw [if_pos neg, BitVec.toInt_neg_of_ne_intMin proper]
      have zero : (0 : BitVec 64).toInt = 0 := rfl
      omega
    · have above := mt BitVec.slt_iff_toInt_lt.mpr neg
      rw [if_neg neg]
      have zero : (0 : BitVec 64).toInt = 0 := rfl
      omega
  have bound := BitVec.slt_iff_toInt_lt.mp small
  have limit : (0x1000 : BitVec 64).toInt = 0x1000 := rfl
  have size := (magnitude i64).isLt
  rw [BitVec.toInt_eq_toNat_cond] at nonneg bound
  refine BitVec.lt_def.mpr ?_
  change _ < 0x1000
  split at nonneg <;> omega

end Magnitude

section Sum

variable {site : GetedSite} (host : Host) (m : Cpu) (sf : Bool) (b i : Fin 16) (lsl : Nat) {i64 : BitVec 64}

open GetedSite

theorem run_base_U12 (small : magnitude i64 < 0x1000) :
    runAddr host [ADDSUB_U12 (i64.slt 0) sf site.ret (guest b) (magnitude i64)] m =
      m.set site.ret (narrow sf (m.regs (guest b) + i64)) := by
  rw [runAddr_cons, runAddr_nil, effect_ADDSUB_U12 host _ sf _ (guest_real b) small, signed_magnitude]

/-- Base and index added up, then the magnitude as a constant of twelve bits. -/
theorem run_index_U12 (small : magnitude i64 < 0x1000) :
    runAddr host [ADD_REG_LSL sf site.scratch (guest b) (guest i) lsl,
        ADDSUB_U12 (i64.slt 0) sf site.ret site.scratch (magnitude i64)] m =
      (m.set site.scratch (narrow sf (m.regs (guest b) + (m.regs (guest i) <<< lsl)))).set site.ret
        (narrow sf (m.regs (guest b) + (m.regs (guest i) <<< lsl) + i64)) := by
  rw [runAddr_cons, runAddr_cons, runAddr_nil, effect_ADD_REG_LSL host m sf lsl (guest_real b) (guest_real i),
    effect_ADDSUB_U12 host _ sf (i64.slt 0) site.scratch_real small, signed_magnitude,
    set_narrow_regs m sf _ site.scratch_real]
  refine congrArg (Cpu.set _ site.ret) (narrow_congr sf ?_)
  rw [low_add, low_narrow, ← low_add]

/-- A constant narrowed before it is added or subtracted. -/
theorem narrow_add_signed (x : BitVec 64) :
    narrow sf (x + if i64.slt 0 then -narrow sf (magnitude i64) else narrow sf (magnitude i64)) = narrow sf (x + i64) := by
  refine narrow_congr sf ?_
  conv => rhs; rw [← signed_magnitude i64]
  split
  · rw [low_add, low_neg, low_narrow, ← low_neg, ← low_add]
  · rw [low_add, low_narrow, ← low_add]

theorem run_base_REG :
    runAddr host [ADDSUB_REG (i64.slt 0) sf site.ret (guest b) site.scratch]
        (m.set site.scratch (narrow sf (magnitude i64))) =
      (m.set site.scratch (narrow sf (magnitude i64))).set site.ret (narrow sf (m.regs (guest b) + i64)) := by
  rw [runAddr_cons, runAddr_nil, effect_ADDSUB_REG host _ sf _ (guest_real b) site.scratch_real,
    set_narrow_regs m sf _ site.scratch_real, m.set_regs_of_ne _ (site.guest_ne_scratch b), narrow_add_signed]

theorem effect_base_REG :
    (if i64.slt 0 then ADDSUB_REG true sf site.scratch (guest b) site.scratch
        else ADDSUB_REG false sf site.scratch site.scratch (guest b)).effect host
          (m.set site.scratch (narrow sf (magnitude i64))) =
      m.set site.scratch (narrow sf (m.regs (guest b) + i64)) := by
  rw [← narrow_add_signed sf (m.regs (guest b))]
  split
  · rw [effect_ADDSUB_REG host _ sf _ (guest_real b) site.scratch_real, set_narrow_regs m sf _ site.scratch_real,
      m.set_regs_of_ne _ (site.guest_ne_scratch b), Cpu.set_set]
    rfl
  · rw [effect_ADDSUB_REG host _ sf _ site.scratch_real (guest_real b), set_narrow_regs m sf _ site.scratch_real,
      m.set_regs_of_ne _ (site.guest_ne_scratch b), Cpu.set_set, BitVec.add_comm]
    rfl

theorem run_index_REG :
    runAddr host [if i64.slt 0 then ADDSUB_REG true sf site.scratch (guest b) site.scratch
        else ADDSUB_REG false sf site.scratch site.scratch (guest b),
        ADD_REG_LSL sf site.ret site.scratch (guest i) lsl] (m.set site.scratch (narrow sf (magnitude i64))) =
      (m.set site.scratch (narrow sf (m.regs (guest b) + i64))).set site.ret
        (narrow sf (m.regs (guest b) + (m.regs (guest i) <<< lsl) + i64)) := by
  rw [runAddr_cons, effect_base_REG, runAddr_cons, runAddr_nil,
    effect_ADD_REG_LSL host _ sf lsl site.scratch_real (guest_real i), set_narrow_regs m sf _ site.scratch_real,
    m.set_regs_of_ne _ (site.guest_ne_scratch i)]
  refine congrArg (Cpu.set _ site.ret) (narrow_congr sf ?_)
  rw [low_add, low_narrow, ← low_add, BitVec.add_assoc, BitVec.add_comm i64, ← BitVec.add_assoc]

end Sum

/-! ### What the emitted code leaves -/

/-- A value in the register named with the displacement left over, and the end of the operand. -/
structure Geted.Leaves (g : Geted) (host : Host) (m : Cpu) (value after : BitVec 64) : Prop where
  value : (runAddr host g.code m).regs g.ed + g.fixaddress = value
  addr : g.addr = after
  ip : IpKnown g.last_ip (runAddr host g.code m)

theorem Geted.Leaves.of_run {host : Host} {m m' : Cpu} {code : List AddrInst} {ed : Reg}
    {fixaddress addr last_ip value after : BitVec 64} (run : runAddr host code m = m')
    (sum : m'.regs ed + fixaddress = value) (behind : addr = after) (known : IpKnown last_ip m') :
    Leaves ⟨code, ed, fixaddress, addr, last_ip⟩ host m value after := ⟨run ▸ sum, behind, run ▸ known⟩

namespace GetedSite

/-- What the code adds up where it leaves the displacement to the access. -/
def leftSum (sf : Bool) (f : AddressForm) (regs : Fin 16 → BitVec 64) (next : BitVec 64) : BitVec 64 :=
  match f.index with
  | some i => narrow sf (f.baseValue regs next + (regs i <<< f.scale))
  | none => f.baseValue regs next

/-- The displacement is left over, or there is nothing else. -/
def Left (site : GetedSite) (f : AddressForm) : Prop :=
  f.disp = 0 ∨ site.Folds f.disp ∨ f.base = .none ∧ f.index = none

instance (site : GetedSite) (f : AddressForm) : Decidable (site.Left f) := inferInstanceAs (Decidable (_ ∨ _))

def result (site : GetedSite) (sf : Bool) (f : AddressForm) (regs : Fin 16 → BitVec 64) (next : BitVec 64) : BitVec 64 :=
  if site.Left f then leftSum sf f regs next + f.disp else narrow sf (f.eval regs next)

section Results

variable {site : GetedSite}

theorem result_true (site : GetedSite) (f : AddressForm) (regs : Fin 16 → BitVec 64) (next : BitVec 64) : site.result true f regs next = f.eval regs next := by
  rw [result]
  split
  · rw [leftSum]
    split
    case h_1 i has => rw [narrow_true, AddressForm.eval, AddressForm.indexValue, has]
    case h_2 no => rw [AddressForm.eval_of_no_index _ _ _ no]
  · rw [narrow_true]

theorem value_of_set (m : Cpu) {fix v : BitVec 64} (x : BitVec 64) (real : site.ret ≠ xZR) (sum : x + fix = v) :
    (m.set site.ret x).regs site.ret + fix = v := by
  rw [m.set_regs _ _ real, BitVec.setWidth_eq, sum]

theorem left_iff_of_index {f : AddressForm} {i : Fin 16} (has : f.index = some i) :
    site.Left f ↔ ¬ (f.disp ≠ 0 ∧ ¬ site.Folds f.disp) := by
  have index : ¬ (f.base = .none ∧ f.index = none) := fun ⟨_, no⟩ => by
    rw [has] at no
    cases no
  unfold Left
  tauto

end Results

section Leaves

variable {site : GetedSite} (allowed : site.HintAllowed) (host : Host) (m : Cpu) (sf : Bool) (code : Memory)
  {nextop : BitVec 8} (addr : BitVec 64) {last_ip : BitVec 64} (known : IpKnown last_ip m) (next : BitVec 64)
include allowed known

/-- A scaled index alone. -/
theorem index_leaves (tmp : BitVec 64) (i : Fin 16) (lsl length : Nat) (after : BitVec 64) :
    (if tmp ≠ 0 ∧ ¬ site.Folds tmp then
        { code := MOV64x site.scratch tmp ++ [ADD_REG_LSL sf site.ret site.scratch (guest i) lsl]
          ed := site.ret, fixaddress := 0, addr := after, last_ip : Geted }
      else
        { code := [.plain (.shift .lsl sf site.ret (guest i) lsl)]
          ed := site.ret, fixaddress := tmp, addr := after, last_ip }).Leaves host m
      (site.result sf ⟨.none, some i, lsl, tmp, length⟩ m.emu.regs next) after := by
  have real := allowed.ret_real
  have kept := allowed.ret_ne_rip
  have left : site.Left ⟨.none, some i, lsl, tmp, length⟩ ↔ ¬ (tmp ≠ 0 ∧ ¬ site.Folds tmp) :=
    left_iff_of_index rfl
  by_cases own : tmp ≠ 0 ∧ ¬ site.Folds tmp
  · rw [if_pos own, result, if_neg (mt left.mp (not_not_intro own))]
    have index : (m.set site.scratch tmp).regs (guest i) = m.regs (guest i) :=
      m.set_regs_of_ne tmp (site.guest_ne_scratch i)
    have loaded : (m.set site.scratch tmp).regs site.scratch = tmp := by
      rw [m.set_regs _ _ site.scratch_real, BitVec.setWidth_eq]
    have sum : (ADD_REG_LSL sf site.ret site.scratch (guest i) lsl).effect host (m.set site.scratch tmp) = _ :=
      effect_ADD_REG_LSL host (m.set site.scratch tmp) sf lsl site.scratch_real (guest_real i)
    rw [index, loaded] at sum
    have run : runAddr host (MOV64x site.scratch tmp ++ [ADD_REG_LSL sf site.ret site.scratch (guest i) lsl]) m =
        (m.set site.scratch tmp).set site.ret (narrow sf (tmp + (m.regs (guest i) <<< lsl))) := by
      rw [runAddr_append, run_MOV64x host m tmp site.scratch_real]
      exact sum
    refine .of_run run (value_of_set _ _ real ?_) rfl ((known.set site.scratch_ne_rip tmp).set kept _)
    rw [AddressForm.eval, add_zero', BitVec.add_comm]
    exact congrArg (narrow sf <| · + tmp) (BitVec.zero_add _).symm
  · rw [if_neg own, result, if_pos (left.mpr own)]
    refine .of_run (effect_LSL host m sf lsl (guest_real i)) (value_of_set m _ real ?_) rfl (known.set kept _)
    exact congrArg (narrow sf · + tmp) (BitVec.zero_add _).symm

theorem getedSib_leaves (low : nextop &&& 0xC0 = 0) (sib : nextop &&& 7 = 4) :
    (site.getedSib code addr last_ip sf).Leaves host m
      (site.result sf (decode site.rex.b site.rex.x nextop code addr) m.emu.regs next)
      (addr + BitVec.ofNat 64 (decode site.rex.b site.rex.x nextop code addr).length) := by
  have real := allowed.ret_real
  have kept := allowed.ret_ne_rip
  have five : addr + 1 + 4 = addr + BitVec.ofNat 64 5 := BitVec.add_assoc addr 1 4
  rw [getedSib]
  dsimp only [Fetch8]
  by_cases baseless : load 8 code addr &&& 7 = 5
  · rw [if_pos baseless, decode_baseless_sib site.rex.b site.rex.x code addr low sib baseless, extendedDisp_four]
    dsimp only [Fetch32s]
    by_cases zero : regNumber (load 8 code addr >>> 3) site.rex.x = 4
    · rw [if_neg (not_not_intro zero), decodeIndex_none site.rex.x zero, result, if_pos (.inr (.inr ⟨rfl, rfl⟩))]
      refine .of_run (run_MOV64x host m _ real) ?_ five (known.set kept _)
      exact value_of_set m _ real (BitVec.add_comm _ _)
    · rw [if_pos zero, decodeIndex_some site.rex.x sib zero, result]
      rw [five]
      exact index_leaves allowed host m sf known next _ _ _ 5 _
  · rw [if_neg baseless, decode_sib site.rex.b site.rex.x code addr low sib baseless]
    by_cases zero : regNumber (load 8 code addr >>> 3) site.rex.x = 4
    · rw [if_neg (not_not_intro zero), decodeIndex_none site.rex.x zero, result, if_pos (.inl rfl)]
      exact ⟨rfl, rfl, known⟩
    · rw [if_pos zero, decodeIndex_some site.rex.x sib zero, result, if_pos (.inl rfl)]
      refine .of_run (effect_ADD_REG_LSL host m sf _ (guest_real _) (guest_real _)) ?_ rfl (known.set kept _)
      exact value_of_set m _ real rfl

theorem addDisp_leaves (MOV : Reg → BitVec 64 → List AddrInst)
    (moves : ∀ (m : Cpu) (v : BitVec 64), runAddr host (MOV site.scratch v) m = m.set site.scratch (narrow sf v))
    (b : Fin 16) (index : Option (Fin 16)) (lsl : Nat) {i64 : BitVec 64} (proper : i64 ≠ intMin 64) (length : Nat) (after : BitVec 64) :
    (site.addDisp after last_ip sf MOV (guest b) (index.map guest) lsl i64).Leaves host m
      (site.result sf ⟨.reg b, index, lsl, i64, length⟩ m.emu.regs next) after := by
  have real := allowed.ret_real
  have kept := allowed.ret_ne_rip
  have left : site.Left ⟨.reg b, index, lsl, i64, length⟩ ↔ i64 = 0 ∨ site.Folds i64 := by
    have based : (AddressBase.reg b) ≠ .none := AddressBase.noConfusion
    exact or_congr_right (or_iff_left fun ⟨no, _⟩ => based no)
  unfold addDisp result
  by_cases folded : i64 = 0 ∨ site.Folds i64
  · rw [if_pos folded, if_pos (left.mpr folded)]
    cases index with
    | none => exact ⟨rfl, rfl, known⟩
    | some i =>
      refine .of_run (effect_ADD_REG_LSL host m sf _ (guest_real _) (guest_real _)) ?_ rfl (known.set kept _)
      exact value_of_set m _ real rfl
  · rw [if_neg folded, if_neg (mt left.mp folded)]
    change (if (magnitude i64).slt 0x1000 = true then _ else _ : Geted).Leaves host m _ after
    have direct : AddressForm.eval ⟨.reg b, none, lsl, i64, length⟩ m.emu.regs next = m.regs (guest b) + i64 :=
      AddressForm.eval_of_no_index _ _ _ rfl
    by_cases short : (magnitude i64).slt 0x1000
    · have small := magnitude_small i64 proper short
      rw [if_pos short]
      cases index with
      | none =>
        exact .of_run (run_base_U12 host m sf b small) (value_of_set _ _ real (by rw [direct, add_zero'])) rfl
          (known.set kept _)
      | some i =>
        exact .of_run (run_index_U12 host m sf b i lsl small) (value_of_set _ _ real (add_zero' _)) rfl
          ((known.set site.scratch_ne_rip _).set kept _)
    · rw [if_neg short]
      have load (rest : List AddrInst) : runAddr host (MOV site.scratch (magnitude i64) ++ rest) m =
          runAddr host rest (m.set site.scratch (narrow sf (magnitude i64))) := by
        rw [runAddr_append, moves]
      cases index with
      | none =>
        exact .of_run ((load _).trans (run_base_REG host m sf b)) (value_of_set _ _ real (by rw [direct, add_zero'])) rfl
          ((known.set site.scratch_ne_rip _).set kept _)
      | some i =>
        exact .of_run ((load _).trans (run_index_REG host m sf b i lsl)) (value_of_set _ _ real (add_zero' _)) rfl
          ((known.set site.scratch_ne_rip _).set kept _)

theorem getedDisp_leaves (MOV : Reg → BitVec 64 → List AddrInst)
    (moves : ∀ (m : Cpu) (v : BitVec 64), runAddr host (MOV site.scratch v) m = m.set site.scratch (narrow sf v))
    (high : nextop &&& 0xC0 ≠ 0) (memory : nextop &&& 0xC0 ≠ 0xC0) :
    (site.getedDisp code nextop addr last_ip sf MOV).Leaves host m
      (site.result sf (decode site.rex.b site.rex.x nextop code addr) m.emu.regs next)
      (addr + BitVec.ofNat 64 (decode site.rex.b site.rex.x nextop code addr).length) := by
  have proper (a : BitVec 64) : extendedDisp code a (ownDispBytes nextop) ≠ intMin 64 := by
    refine extendedDisp_ne_intMin code a ?_
    rw [ownDispBytes]
    split <;> decide
  rw [getedDisp]
  by_cases sib : nextop &&& 7 = 4
  · rw [if_pos sib, decode_sib_disp site.rex.b site.rex.x code addr high sib]
    dsimp only [Fetch8]
    rw [fetchDisp_eq code _ high memory, BitVec.ofNat_add, ← BitVec.add_assoc, if_pos sib]
    by_cases zero : regNumber (load 8 code addr >>> 3) site.rex.x = 4
    · rw [if_neg fun both => both.2 zero, decodeIndex_none site.rex.x zero]
      exact addDisp_leaves allowed host m sf known next MOV moves _ none _ (proper _) _ _
    · rw [if_pos ⟨sib, zero⟩, decodeIndex_some site.rex.x sib zero]
      exact addDisp_leaves allowed host m sf known next MOV moves _ (some _) _ (proper _) _ _
  · rw [if_neg sib, decode_reg_disp site.rex.b site.rex.x code addr high sib]
    dsimp only
    rw [fetchDisp_eq code _ high memory, if_neg sib, if_neg fun both => sib both.1]
    exact addDisp_leaves allowed host m sf known next MOV moves _ none _ (proper _) _ _

theorem getedIp_leaves (tmp after : BitVec 64) :
    (site.getedIp after last_ip tmp).Leaves host m (after + site.delta.signExtend 64 + tmp) after := by
  have real := allowed.ret_real
  have kept := allowed.ret_ne_rip
  rw [getedIp]
  generalize after + site.delta.signExtend 64 = A
  obtain ⟨run, new⟩ := run_GETIP host known A
  dsimp only
  rw [new]
  split
  · refine .of_run run ?_ rfl (ip_known_set m A)
    rw [m.set_regs _ _ (by decide), BitVec.setWidth_eq]
  split
  case isTrue small =>
    have sum : (ADDSUB_U12 false true site.ret xRIP tmp).effect host (m.set xRIP A) = _ :=
      effect_ADDSUB_U12 host (m.set xRIP A) true false (by decide) small
    rw [narrow_true, ip_regs] at sum
    refine .of_run ((runAddr_append host m _ _).trans ((congrArg _ run).trans sum)) (value_of_set _ _ real (add_zero' _))
      rfl ((ip_known_set m A).set kept _)
  split
  · refine .of_run (run_MOV64x host m _ real) (value_of_set _ _ real ?_) rfl (known.set kept _)
    rw [add_zero', BitVec.add_comm]
  · obtain ⟨run, _⟩ := run_GETIP host (known.set kept tmp) A
    have sum : (ADDSUB_REG false true site.ret site.ret xRIP).effect host ((m.set site.ret tmp).set xRIP A) = _ :=
      effect_ADDSUB_REG host _ true false real (by decide)
    rw [narrow_true, ip_regs, Cpu.set_regs_of_ne _ _ kept, m.set_regs _ _ real, BitVec.setWidth_eq] at sum
    have whole : runAddr host
        (MOV64x site.ret tmp ++ (GETIP last_ip A).1 ++ [ADDSUB_REG false true site.ret site.ret xRIP]) m =
          ((m.set site.ret tmp).set xRIP A).set site.ret (tmp + A) := by
      rw [runAddr_append, runAddr_append, run_MOV64x host m tmp real, run]
      exact sum
    refine .of_run whole (value_of_set _ _ real ?_) rfl ((ip_known_set (m.set site.ret tmp) A).set kept _)
    rw [add_zero', BitVec.add_comm]

theorem geted_leaves (memory : nextop &&& 0xC0 ≠ 0xC0) :
    let f := decode site.rex.b site.rex.x nextop code addr
    let after := addr + BitVec.ofNat 64 f.length
    (site.geted code nextop addr last_ip).Leaves host m (f.eval m.emu.regs (after + site.delta.signExtend 64)) after := by
  have real := allowed.ret_real
  have kept := allowed.ret_ne_rip
  dsimp only
  rw [geted, ← result_true site]
  by_cases low : nextop &&& 0xC0 = 0
  · rw [if_pos low]
    by_cases sib : nextop &&& 7 = 4
    · rw [if_pos sib]
      exact getedSib_leaves allowed host m true code addr known _ low sib
    · rw [if_neg sib]
      by_cases ip : nextop &&& 7 = 5
      · rw [if_pos ip, decode_ip site.rex.b site.rex.x code addr low ip, result_true,
          AddressForm.eval_of_no_index _ _ _ rfl, extendedDisp_four]
        exact getedIp_leaves allowed host m known _ _
      · rw [if_neg ip, decode_reg site.rex.b site.rex.x code addr low sib ip, result, if_pos (.inl rfl)]
        exact ⟨rfl, (add_zero' _).symm, known⟩
  · rw [if_neg low]
    refine getedDisp_leaves allowed host m true code addr known _ MOV64x (fun m v => ?_) low memory
    rw [narrow_true]
    exact run_MOV64x host m v site.scratch_real

end Leaves

end GetedSite

/-! ### Interpreter and emitted code -/

theorem fakeed_eq (b x : Bool) (code : Memory) (addr : BitVec 64) {nextop : BitVec 8} (memory : nextop &&& 0xC0 ≠ 0xC0) :
    fakeed code addr nextop = addr + BitVec.ofNat 64 (decode b x nextop code addr).length := by
  rw [fakeed, if_neg memory]
  by_cases low : nextop &&& 0xC0 = 0
  · rw [if_pos low]
    by_cases sib : nextop &&& 7 = 4
    · rw [if_pos sib]
      by_cases baseless : load 8 code addr &&& 7 = 5
      · rw [decode_baseless_sib b x code addr low sib baseless]
        exact (if_pos baseless).trans (BitVec.add_assoc addr 1 4)
      · rw [decode_sib b x code addr low sib baseless]
        exact if_neg baseless
    · rw [if_neg sib]
      by_cases ip : nextop &&& 7 = 5
      · rw [if_pos ip, decode_ip b x code addr low ip]
        rfl
      · rw [if_neg ip, decode_reg b x code addr low sib ip]
        exact (add_zero' addr).symm
  · have behind (a : BitVec 64) : (if nextop &&& 0x80 ≠ 0 then a + 4 else a + 1) = a + BitVec.ofNat 64 (ownDispBytes nextop) := by
      have bytes := congrArg Prod.snd (fetchDisp_eq code a low memory)
      rw [fetchDisp] at bytes
      refine Eq.trans ?_ bytes
      split <;> rfl
    rw [if_neg low, behind]
    by_cases sib : nextop &&& 7 = 4
    · rw [if_pos sib, decode_sib_disp b x code addr low sib, BitVec.ofNat_add, ← BitVec.add_assoc]
      rfl
    · rw [if_neg sib, decode_reg_disp b x code addr low sib]

/-- For every operand in memory, `GetECommon` returns the address the processor computes and the end of the operand's
bytes; what `geted` emits leaves the same address, and `geted` and `fakeed` return the same end. -/
theorem effective_addresses_agree (code : Memory) (rex : Rex) {nextop : BitVec 8} (memory : nextop &&& 0xC0 ≠ 0xC0)
    (addr : BitVec 64) :
    let f := decode rex.b rex.x nextop code addr
    let after := addr + BitVec.ofNat 64 f.length
    (∀ (emu : X64Emu) (delta : BitVec 8),
      GetECommon emu code rex (nextop &&& 0xC7) delta addr = (f.eval emu.regs (after + delta.setWidth 64), after)) ∧
    (∀ (host : Host) (m : Cpu) (site : GetedSite) (last_ip : BitVec 64),
      site.rex = rex → site.HintAllowed → IpKnown last_ip m →
        (site.geted code nextop addr last_ip).Leaves host m (f.eval m.emu.regs (after + site.delta.signExtend 64)) after) ∧
    fakeed code addr nextop = after := by
  refine ⟨fun emu delta => GetECommon_eq emu code rex delta addr memory, ?_, fakeed_eq rex.b rex.x code addr memory⟩
  rintro host m site last_ip rfl allowed known
  exact GetedSite.geted_leaves allowed host m code addr known memory

/-- `RAX` is 0x2000 and `RCX` is 3. -/
def sampleCpu : Cpu where
  regs r := if r = guest 0 then 0x2000 else if r = guest 1 then 3 else 0
  nzcv := ⟨false, false, false, false⟩
  fields _ := 0

/-- The SIB byte of `[RAX+RCX*4-8]` and its displacement. -/
def sampleOperand : Memory := fun a => if a = 0x1000 then 0x88 else if a = 0x1001 then 0xF8 else 0

theorem effective_addresses_agree_sample :
    let site : GetedSite := { rex := ⟨0⟩, hint := x1, absmax := 0, mask := 0, s := false, delta := 0 }
    GetECommon sampleCpu.emu sampleOperand ⟨0⟩ 0x44 0 0x1000 = (0x2004, 0x1002) ∧
      (site.geted sampleOperand 0x44 0x1000 0).Leaves tableHost sampleCpu 0x2004 0x1002 ∧
      fakeed sampleOperand 0x1000 0x44 = 0x1002 := by
  intro site
  have agree := effective_addresses_agree sampleOperand ⟨0⟩ (by decide : (0x44 : BitVec 8) &&& 0xC0 ≠ 0xC0) 0x1000
  obtain ⟨interpreter, emitted, skipped⟩ := agree
  refine ⟨?_, ?_, ?_⟩
  · refine (interpreter sampleCpu.emu 0).trans ?_
    decide
  · have leaves := emitted tableHost sampleCpu site 0 rfl ⟨by decide, by decide⟩ (fun set => absurd rfl set)
    have address : (decode false false 0x44 sampleOperand 0x1000).eval sampleCpu.emu.regs 0x1002 = 0x2004 := by decide
    exact address ▸ leaves
  · exact skipped

end Box64.Arm64
