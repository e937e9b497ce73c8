import Box64.Dynarec.EmitFragments
import Box64.Emu.Division

/-!
# Division in emitted code

What `dynarec64_00` emits for `DIV Ed` and `IDIV Ed` with `REX.W`: a single 64-bit division where the dividend is
thought to be `RAX` extended, and a call of `div64` or `idiv64` otherwise.
-/

namespace Box64.Arm64

open BitVec Emu

def xRDX : Reg := 12

/-! ### Code -/

/-- The instructions of these sequences; a branch goes over a number of those that follow it. -/
inductive DivInst where
  | plain (i : Inst)
  /-- `LDRx_U12` of the memory operand. -/
  | LDR (rt : Reg)
  /-- `UDIVx` and `SDIVx`. -/
  | DIV (sg : Signedness) (rd rn rm : Reg)
  | MSUBx (rd rn rm ra : Reg)
  /-- `CBZx`, or `CBNZx` if `nonzero`. -/
  | CB (nonzero : Bool) (rt : Reg) (skipped : Nat)
  /-- `TBZ`, or `TBNZ` if `set`. -/
  | TB (set : Bool) (rt : Reg) (bit skipped : Nat)
  /-- `CALL` of `div64` or `idiv64`. -/
  | CALL (sg : Signedness)
  | B_NEXT_nocond

/-- What the code meets when it runs: the host, the value at the address of a memory operand, which is computed in front
and costs no guest register, and what a called function leaves in the registers that are not the guest's. -/
structure Surroundings where
  host : Host
  operand : BitVec 64
  scratch : Reg → BitVec 64

def isGuest (r : Reg) : Prop := xRAX.val ≤ r.val ∧ r.val < xRAX.val + 16

instance (r : Reg) : Decidable (isGuest r) := inferInstanceAs (Decidable (_ ∧ _))

/-- `call_c`: the guest registers are stored before the call and loaded after it, `xEmu` is restored. -/
def Cpu.afterCall (env : Surroundings) (m : Cpu) (emu : X64Emu) : Cpu where
  regs r := if guest : isGuest r then emu.regs ⟨r.val - xRAX.val, by unfold isGuest at guest; omega⟩
    else if r = xEmu then m.regs r else env.scratch r
  nzcv := m.nzcv
  fields
    | .df => dfCode emu.df
    | .op1 => emu.op1
    | .op2 => emu.op2
    | .res => emu.res

/-- Undefined where the host cannot divide; the divide error is raised without leaving the block. -/
def Cpu.call (env : Surroundings) (m : Cpu) (sg : Signedness) : Option Cpu :=
  match sg.divide .w64 m.emu (m.regs x1) with
  | .raised emu | .done emu => some (m.afterCall env emu)
  | .overflow => none

/-- What the host's division gives, 0 for a divisor of 0. -/
def nativeQuotient (x y : BitVec 64) : Signedness → BitVec 64
  | .unsigned => x / y
  | .signed => x.sdiv y

/-- The host state, and whether a native division has run. -/
structure DivRun where
  cpu : Cpu
  divided : Bool

def DivInst.effect (env : Surroundings) (m : DivRun) : DivInst → DivRun
  | plain i => { m with cpu := i.effect env.host m.cpu }
  | LDR rt => { m with cpu := m.cpu.set rt env.operand }
  | DIV sg rd rn rm => ⟨m.cpu.set rd (nativeQuotient (m.cpu.regs rn) (m.cpu.regs rm) sg), true⟩
  | MSUBx rd rn rm ra => { m with cpu := m.cpu.set rd (m.cpu.regs ra - m.cpu.regs rn * m.cpu.regs rm) }
  | CB _ _ _ | TB _ _ _ _ | CALL _ | B_NEXT_nocond => m

/-- Runs code after the given number of its instructions. -/
def runDiv (env : Surroundings) : Nat → List DivInst → DivRun → Option DivRun
  | _, [], m => some m
  | skip + 1, _ :: rest, m => runDiv env skip rest m
  | 0, .CB nonzero rt skipped :: rest, m => runDiv env (if (m.cpu.regs rt != 0) = nonzero then skipped else 0) rest m
  | 0, .TB set rt bit skipped :: rest, m => runDiv env (if (m.cpu.regs rt).getLsbD bit = set then skipped else 0) rest m
  | 0, .B_NEXT_nocond :: _, m => some m
  | 0, .CALL sg :: rest, m => (m.cpu.call env sg).bind fun cpu => runDiv env 0 rest { m with cpu }
  | 0, i :: rest, m => runDiv env 0 rest (i.effect env m)

/-! ### The emitter -/

/-- `Ed`: a register, or a value in memory. -/
inductive Ed where
  | reg (r : Fin 16)
  | mem

/-- What is known when `DIV` is translated. -/
structure DivSite where
  ed : Ed
  /-- The first two bytes of the instruction before it in the block. -/
  before : Option (BitVec 8 × BitVec 8)
  dfnone : Bool

def MOVx_REG (rd rm : Reg) : DivInst := .plain (.alu .ORR false true rd xZR (.reg rm))

def MVNx_REG (rd rm : Reg) : DivInst := .plain (MVN_REG true rd rm)

namespace DivSite

variable (site : DivSite)

/-- The register that `GETED` and `GETEDH` name. -/
def edReg : Reg :=
  match site.ed with
  | .reg r => ⟨xRAX.val + r.val, by have := r.isLt; simp [xRAX]; omega⟩
  | .mem => x1

def GETED : List DivInst :=
  match site.ed with
  | .reg _ => []
  | .mem => [.LDR x1]

def SET_DFNONE : List DivInst :=
  if site.dfnone then [] else [.plain (.MOV x2 (dfCode .d_none)), .plain (.STR .w32 x2 .df)]

/-- The division of `xRAX` alone. -/
def single (sg : Signedness) : List DivInst :=
  [.DIV sg x2 xRAX site.edReg, .MSUBx xRDX x2 site.edReg xRAX, MOVx_REG xRAX x2]

def callHelper (sg : Signedness) : List DivInst :=
  (if site.edReg ≠ x1 then [MOVx_REG x1 site.edReg] else []) ++ [.CALL sg, .B_NEXT_nocond]

/-- `XOR EDX, EDX` for `DIV`, `CQO` for `IDIV`. -/
def extends? : Signedness → BitVec 8 × BitVec 8
  | .unsigned => (0x31, 0xD2)
  | .signed => (0x48, 0x99)

/-- The branches to the single division, on `RDX` and on a bit of `RAX`. -/
def tests (slow : List DivInst) : Signedness → List DivInst
  | .unsigned => [.CB false xRDX slow.length]
  | .signed =>
    [.CB true xRDX 1, .TB false xRAX 31 (3 + slow.length),
      MVNx_REG x2 xRDX, .CB true x2 1, .TB true xRAX 31 slow.length]

def emit (sg : Signedness) : List DivInst :=
  if site.before = some (extends? sg) then site.SET_DFNONE ++ site.GETED ++ site.single sg
  else site.GETED ++ tests (site.callHelper sg) sg ++ site.callHelper sg ++ site.single sg ++ site.SET_DFNONE

/-! ### What it is for -/

/-- The divisor. -/
def divisor (env : Surroundings) (m : Cpu) : BitVec 64 :=
  match site.ed with
  | .reg _ => m.regs site.edReg
  | .mem => env.operand

end DivSite

/-- `RAX` and `RDX` after the helper. -/
def helperResult (sg : Signedness) (m : Cpu) (s : BitVec 64) : Option (BitVec 64 × BitVec 64) :=
  match sg.divide .w64 m.emu s with
  | .raised emu | .done emu => some (emu.regs _RAX, emu.regs _RDX)
  | .overflow => none

/-- `RDX` extends `RAX`, by zeros or by the sign. -/
def Extends (m : Cpu) : Signedness → Prop
  | .unsigned => m.regs xRDX = 0
  | .signed => m.regs xRDX = if (m.regs xRAX).msb then BitVec.allOnes 64 else 0

/-- The emitted code leaves what the helper leaves, and divides `RAX` alone only where that is the dividend. -/
structure EmitsDivision (site : DivSite) (env : Surroundings) (m : Cpu) (sg : Signedness) : Prop where
  result : (runDiv env 0 (site.emit sg) ⟨m, false⟩).map (fun r => (r.cpu.regs xRAX, r.cpu.regs xRDX)) =
    helperResult sg m (site.divisor env m)
  single : ∀ r, runDiv env 0 (site.emit sg) ⟨m, false⟩ = some r → r.divided = true → Extends m sg

/-- Where the instruction in front extends `RAX`, control has to come from it or `RDX` be right by chance, and `idiv64`
must not give up the division by 1; elsewhere bit 31 of `RAX`, which `IDIV` tests, must not hide its sign. -/
def DivSite.TestsRight (site : DivSite) (m : Cpu) (s : BitVec 64) : Signedness → Prop
  | .unsigned => site.before = some (extends? .unsigned) → Extends m .unsigned
  | .signed =>
    if site.before = some (extends? .signed) then Extends m .signed ∧ ¬ (m.regs xRAX = BitVec.intMin 64 ∧ s = 1)
    else (m.regs xRDX = 0 → (m.regs xRAX).getLsbD 31 = false → (m.regs xRAX).msb = false) ∧
      (m.regs xRDX = BitVec.allOnes 64 → (m.regs xRAX).getLsbD 31 = true → (m.regs xRAX).msb = true)

/-! ### The pieces -/

section Pieces

variable (env : Surroundings) (site : DivSite)

/-- The guest sees no difference. -/
structure SameGuest (m m' : Cpu) : Prop where
  regs : ∀ r, isGuest r ∨ r = xFlags → m'.regs r = m.regs r
  fields : m'.fields = m.fields

theorem SameGuest.emu {m m' : Cpu} (same : SameGuest m m') : m'.emu = m.emu := by
  unfold Cpu.emu Cpu.flags
  rw [same.fields, same.regs xFlags (.inr rfl)]
  congr 1
  funext r
  exact same.regs _ (.inl (by unfold isGuest; have := r.isLt; simp [xRAX]; omega))

theorem sameGuest_set (m : Cpu) {r : Reg} (scratch : r = x1 ∨ r = x2) (v : BitVec 64) : SameGuest m (m.set r v) where
  regs q guest := by
    refine m.set_regs_of_ne v ?_
    rintro rfl
    obtain rfl | rfl := scratch
    all_goals exact absurd guest (by decide)
  fields := m.set_fields r v

theorem set_self (m : Cpu) {r : Reg} (real : r ≠ xZR) (v : BitVec 64) : (m.set r v).regs r = v := by
  rw [m.set_regs r v real, setWidth_eq]

theorem get_true (m : Cpu) {r : Reg} (real : r ≠ xZR) : m.get true r = m.regs r := by
  rw [m.get_of_ne r true real]
  exact setWidth_eq _

theorem effect_MOVx_REG (m : DivRun) {rd rm : Reg} (real : rm ≠ xZR) :
    (MOVx_REG rd rm).effect env m = { m with cpu := m.cpu.set rd (m.cpu.regs rm) } := by
  have copied : m.cpu.get true xZR ||| m.cpu.get true rm = m.cpu.regs rm := by
    rw [Cpu.get_xZR, get_true m.cpu real]
    exact BitVec.zero_or
  change { m with cpu := m.cpu.set rd (m.cpu.get true xZR ||| m.cpu.get true rm) } = _
  rw [copied]
  rfl

theorem effect_MVNx_REG (m : DivRun) {rd rm : Reg} (real : rm ≠ xZR) :
    (MVNx_REG rd rm).effect env m = { m with cpu := m.cpu.set rd (~~~m.cpu.regs rm) } := by
  have inverted : m.cpu.get true xZR ||| ~~~m.cpu.get true rm = ~~~m.cpu.regs rm := by
    rw [Cpu.get_xZR, get_true m.cpu real]
    exact BitVec.zero_or
  change { m with cpu := m.cpu.set rd (m.cpu.get true xZR ||| ~~~m.cpu.get true rm) } = _
  rw [inverted]
  rfl

theorem edReg_ne : site.edReg ≠ x2 ∧ site.edReg ≠ xZR := by
  unfold DivSite.edReg
  cases site.ed with
  | mem => decide
  | reg r => revert r; decide

/-- The registers after `UDIVx` or `SDIVx`, `MSUBx` and the move. -/
theorem run_single (sg : Signedness) (rest : List DivInst) (m : DivRun) :
    ∃ m', runDiv env 0 (site.single sg ++ rest) m = runDiv env 0 rest m' ∧ m'.divided = true ∧
      m'.cpu.regs xRAX = nativeQuotient (m.cpu.regs xRAX) (m.cpu.regs site.edReg) sg ∧
      m'.cpu.regs xRDX = m.cpu.regs xRAX -
        nativeQuotient (m.cpu.regs xRAX) (m.cpu.regs site.edReg) sg * m.cpu.regs site.edReg := by
  obtain ⟨other, real⟩ := edReg_ne site
  refine ⟨_, rfl, rfl, ?_, ?_⟩
  all_goals rw [effect_MOVx_REG env _ (by decide)]
  · rw [set_self _ (by decide)]
    change ((m.cpu.set x2 _).set xRDX _).regs x2 = _
    rw [Cpu.set_regs_of_ne _ _ (by decide), set_self _ (by decide)]
  · rw [Cpu.set_regs_of_ne _ _ (by decide)]
    let m1 := m.cpu.set x2 (nativeQuotient (m.cpu.regs xRAX) (m.cpu.regs site.edReg) sg)
    change (m1.set xRDX (m1.regs xRAX - m1.regs x2 * m1.regs site.edReg)).regs xRDX = _
    rw [set_self _ (by decide), set_self _ (by decide), Cpu.set_regs_of_ne _ _ (by decide : xRAX ≠ x2),
      Cpu.set_regs_of_ne _ _ other]

/-- `GETED` leaves the divisor in the register it names. -/
theorem run_GETED (rest : List DivInst) (m : DivRun) :
    ∃ cpu, runDiv env 0 (site.GETED ++ rest) m = runDiv env 0 rest { m with cpu } ∧ SameGuest m.cpu cpu ∧
      cpu.regs site.edReg = site.divisor env m.cpu := by
  unfold DivSite.GETED DivSite.divisor
  split
  case h_1 r found => exact ⟨m.cpu, rfl, ⟨fun _ _ => rfl, rfl⟩, rfl⟩
  case h_2 found =>
    refine ⟨m.cpu.set x1 env.operand, rfl, sameGuest_set m.cpu (.inl rfl) _, ?_⟩
    have same : site.edReg = x1 := by rw [DivSite.edReg, found]
    rw [same, set_self _ (by decide)]

theorem run_SET_DFNONE (rest : List DivInst) (m : DivRun) :
    ∃ cpu, runDiv env 0 (site.SET_DFNONE ++ rest) m = runDiv env 0 rest { m with cpu } ∧
      ∀ r, isGuest r → cpu.regs r = m.cpu.regs r := by
  unfold DivSite.SET_DFNONE
  split
  · exact ⟨m.cpu, rfl, fun _ _ => rfl⟩
  · exact ⟨_, rfl, fun r guest => (sameGuest_set m.cpu (.inr rfl) _).regs r (.inl guest)⟩

/-- The helper's registers are the result of the slow way. -/
theorem run_callHelper (sg : Signedness) (rest : List DivInst) (m : DivRun) :
    (runDiv env 0 (site.callHelper sg ++ rest) m).map (fun r => (r.cpu.regs xRAX, r.cpu.regs xRDX)) =
        helperResult sg m.cpu (m.cpu.regs site.edReg) ∧
      ∀ r, runDiv env 0 (site.callHelper sg ++ rest) m = some r → r.divided = m.divided := by
  have call : ∀ cpu : Cpu, SameGuest m.cpu cpu → cpu.regs x1 = m.cpu.regs site.edReg →
      (runDiv env 0 ([.CALL sg, .B_NEXT_nocond] ++ rest) { m with cpu }).map
          (fun r => (r.cpu.regs xRAX, r.cpu.regs xRDX)) = helperResult sg m.cpu (m.cpu.regs site.edReg) ∧
        ∀ r, runDiv env 0 ([.CALL sg, .B_NEXT_nocond] ++ rest) { m with cpu } = some r → r.divided = m.divided := by
    intro cpu same argument
    have run : runDiv env 0 ([.CALL sg, .B_NEXT_nocond] ++ rest) { m with cpu } =
        (cpu.call env sg).map fun cpu => { m with cpu } := by
      cases found : cpu.call env sg with
      | none => exact congrArg (Option.bind · _) found
      | some after => exact congrArg (Option.bind · _) found
    rw [run]
    unfold Cpu.call helperResult
    rw [same.emu, argument]
    cases sg.divide .w64 m.cpu.emu (m.cpu.regs site.edReg) with
    | overflow => exact ⟨rfl, nofun⟩
    | raised emu | done emu =>
      refine ⟨rfl, fun r found => ?_⟩
      obtain rfl := Option.some.inj found
      rfl
  unfold DivSite.callHelper
  split
  case isTrue other =>
    have moved : runDiv env 0 ([MOVx_REG x1 site.edReg] ++ [.CALL sg, .B_NEXT_nocond] ++ rest) m =
        runDiv env 0 ([.CALL sg, .B_NEXT_nocond] ++ rest) { m with cpu := m.cpu.set x1 (m.cpu.regs site.edReg) } :=
      congrArg (runDiv env 0 _) (effect_MOVx_REG env m (edReg_ne site).2)
    rw [moved]
    exact call _ (sameGuest_set m.cpu (.inl rfl) _) (set_self _ (by decide) _)
  case isFalse same =>
    exact call m.cpu ⟨fun _ _ => rfl, rfl⟩ (congrArg m.cpu.regs (Classical.not_not.mp same).symm)

theorem run_skip (a b : List DivInst) (m : DivRun) : runDiv env a.length (a ++ b) m = runDiv env 0 b m := by
  induction a with
  | nil => rfl
  | cons i a ih => exact ih

/-- The registers for which the branches lead to the single division. -/
def Taken (m : Cpu) : Signedness → Prop
  | .unsigned => m.regs xRDX = 0
  | .signed => m.regs xRDX = 0 ∧ (m.regs xRAX).getLsbD 31 = false ∨
      m.regs xRDX = BitVec.allOnes 64 ∧ (m.regs xRAX).getLsbD 31 = true

instance (m : Cpu) (sg : Signedness) : Decidable (Taken m sg) := by
  cases sg <;> unfold Taken <;> infer_instance

/-- From `MARK2` on, where `RDX` is tried for -1. -/
theorem run_mark2 (slow fast : List DivInst) (m : DivRun) :
    runDiv env 0 (MVNx_REG x2 xRDX :: .CB true x2 1 :: .TB true xRAX 31 slow.length :: (slow ++ fast)) m =
      let cpu := m.cpu.set x2 (~~~m.cpu.regs xRDX)
      if m.cpu.regs xRDX = BitVec.allOnes 64 ∧ (m.cpu.regs xRAX).getLsbD 31 = true then runDiv env 0 fast { m with cpu }
      else runDiv env 0 (slow ++ fast) { m with cpu } := by
  have step : runDiv env 0 (MVNx_REG x2 xRDX :: .CB true x2 1 :: .TB true xRAX 31 slow.length :: (slow ++ fast)) m =
      runDiv env 0 (.CB true x2 1 :: .TB true xRAX 31 slow.length :: (slow ++ fast))
        { m with cpu := m.cpu.set x2 (~~~m.cpu.regs xRDX) } :=
    congrArg (runDiv env 0 _) (effect_MVNx_REG env m (by decide))
  have zero : ~~~m.cpu.regs xRDX = 0 ↔ m.cpu.regs xRDX = BitVec.allOnes 64 := by
    constructor
    · intro null
      rw [← BitVec.not_inj, null]
      decide
    · intro ones
      rw [ones]
      decide
  rw [step]
  dsimp only
  have inverted : (m.cpu.set x2 (~~~m.cpu.regs xRDX)).regs x2 = ~~~m.cpu.regs xRDX := set_self _ (by decide) _
  have rax : (m.cpu.set x2 (~~~m.cpu.regs xRDX)).regs xRAX = m.cpu.regs xRAX := Cpu.set_regs_of_ne _ _ (by decide)
  rw [runDiv, inverted]
  by_cases ones : m.cpu.regs xRDX = BitVec.allOnes 64
  · rw [if_neg (by rw [zero.mpr ones]; decide), runDiv, rax]
    by_cases bit : (m.cpu.regs xRAX).getLsbD 31 = true
    · rw [if_pos bit, if_pos ⟨ones, bit⟩, run_skip]
    · rw [if_neg bit, if_neg (fun both => bit both.2)]
  · rw [if_pos (by rw [bne_iff_ne]; exact fun null => ones (zero.mp null)), if_neg (fun both => ones both.1)]
    rfl

theorem run_tests (sg : Signedness) (slow fast : List DivInst) (m : DivRun) :
    ∃ cpu, SameGuest m.cpu cpu ∧ cpu.regs site.edReg = m.cpu.regs site.edReg ∧
      runDiv env 0 (DivSite.tests slow sg ++ slow ++ fast) m =
        if Taken m.cpu sg then runDiv env 0 fast { m with cpu } else runDiv env 0 (slow ++ fast) { m with cpu } := by
  have same : SameGuest m.cpu m.cpu := ⟨fun _ _ => rfl, rfl⟩
  cases sg with
  | unsigned =>
    refine ⟨m.cpu, same, rfl, ?_⟩
    have branch : runDiv env 0 (DivSite.tests slow .unsigned ++ slow ++ fast) m =
        runDiv env (if (m.cpu.regs xRDX != 0) = false then slow.length else 0) (slow ++ fast) m := rfl
    rw [branch]
    by_cases zero : m.cpu.regs xRDX = 0
    · rw [if_pos (by rw [zero]; rfl), run_skip]
      exact (if_pos zero).symm
    · rw [if_neg (by rw [bne_eq_false_iff_eq]; exact zero)]
      exact (if_neg zero).symm
  | signed =>
    have later : SameGuest m.cpu (m.cpu.set x2 (~~~m.cpu.regs xRDX)) := sameGuest_set m.cpu (.inr rfl) _
    have named : (m.cpu.set x2 (~~~m.cpu.regs xRDX)).regs site.edReg = m.cpu.regs site.edReg :=
      Cpu.set_regs_of_ne _ _ (edReg_ne site).1
    have second := run_mark2 env slow fast m
    have first : runDiv env 0 (DivSite.tests slow .signed ++ slow ++ fast) m =
        if m.cpu.regs xRDX = 0 ∧ (m.cpu.regs xRAX).getLsbD 31 = false then runDiv env 0 fast m
        else runDiv env 0 (MVNx_REG x2 xRDX :: .CB true x2 1 :: .TB true xRAX 31 slow.length :: (slow ++ fast)) m := by
      have branch : runDiv env 0 (DivSite.tests slow .signed ++ slow ++ fast) m =
          runDiv env (if (m.cpu.regs xRDX != 0) = true then 1 else 0) (.TB false xRAX 31 (3 + slow.length) ::
            MVNx_REG x2 xRDX :: .CB true x2 1 :: .TB true xRAX 31 slow.length :: (slow ++ fast)) m := rfl
      rw [branch]
      by_cases zero : m.cpu.regs xRDX = 0
      · rw [if_neg (by rw [zero]; decide), runDiv]
        by_cases bit : (m.cpu.regs xRAX).getLsbD 31 = false
        · rw [if_pos bit, if_pos ⟨zero, bit⟩, Nat.add_comm]
          exact run_skip env slow fast m
        · rw [if_neg bit, if_neg (fun both => bit both.2)]
      · rw [if_pos (by rw [bne_iff_ne]; exact zero), if_neg (fun both => zero both.1)]
        rfl
    rw [first]
    by_cases low : m.cpu.regs xRDX = 0 ∧ (m.cpu.regs xRAX).getLsbD 31 = false
    · rw [if_pos low]
      exact ⟨m.cpu, same, rfl, (if_pos (.inl low)).symm⟩
    · refine ⟨_, later, named, ?_⟩
      rw [if_neg low, second]
      exact if_congr (or_iff_right low).symm rfl rfl

end Pieces

/-! ### The single division and the helper -/

section Arithmetic

variable {m : Cpu} {s : BitVec 64}

theorem quotientReg_w64 (emu : X64Emu) : quotientReg emu .w64 = emu.regs _RAX := setWidth_eq _

theorem remainderReg_w64 (emu : X64Emu) : remainderReg emu .w64 = emu.regs _RDX := setWidth_eq _

theorem setDivided_w64 (emu : X64Emu) (quot mod : BitVec 64) :
    ((setDivided emu .w64 quot mod).regs _RAX, (setDivided emu .w64 quot mod).regs _RDX) = (quot, mod) := by
  have quotient := quotientReg_setDivided emu .w64 quot mod
  have remainder := remainderReg_setDivided emu .w64 quot mod
  rw [quotientReg_w64] at quotient
  rw [remainderReg_w64] at remainder
  exact Prod.ext quotient remainder

theorem toNat_remainder64 (x s : BitVec 64) : (x - x / s * s).toNat = x.toNat % s.toNat := by
  have split := Nat.div_add_mod' x.toNat s.toNat
  have lt := x.isLt
  rw [toNat_sub, toNat_mul, toNat_udiv]
  have product : x.toNat / s.toNat * s.toNat ≤ x.toNat := Nat.div_mul_le_self _ _
  rw [Nat.mod_eq_of_lt (product.trans_lt lt)]
  omega

theorem helperResult_unsigned (zero : s ≠ 0) (extended : m.regs xRDX = 0) :
    helperResult .unsigned m s = some (m.regs xRAX / s, m.regs xRAX - m.regs xRAX / s * s) := by
  have whole : (dividend m.emu .w64).toNat = (m.regs xRAX).toNat := by
    have joined := dividend64 m.emu
    have high : (m.emu.regs _RDX).toNat = 0 := congrArg BitVec.toNat extended
    rw [high] at joined
    exact joined.trans (Nat.zero_add _)
  have right : DividesRight .w64 m.emu s .unsigned := by
    rintro ⟨-, -, negative⟩
    have high : (m.emu.regs _RDX).msb = (0 : BitVec 64).msb := congrArg BitVec.msb extended
    rw [high] at negative
    exact absurd negative (by decide)
  have small : (dividend m.emu .w64).toNat / s.toNat < 2 ^ 64 :=
    (Nat.div_le_self _ _).trans_lt (whole ▸ (m.regs xRAX).isLt)
  have exact := div_exact_iff.mpr right
  unfold helperResult
  change (match div .w64 m.emu s with
    | .raised emu | .done emu => some (emu.regs _RAX, emu.regs _RDX)
    | .overflow => none) = _
  cases result : div .w64 m.emu s with
  | overflow =>
    rw [result] at exact
    exact exact.elim
  | raised emu =>
    rw [result] at exact
    obtain null | large := exact.1
    · exact absurd null zero
    · exact absurd ((fitsUnsigned_iff _).mpr (Nat.not_le_of_lt small)) large
  | done emu =>
    rw [result] at exact
    obtain ⟨-, -, quotient, remainder, -⟩ := exact
    rw [quotientReg_w64] at quotient
    rw [remainderReg_w64] at remainder
    have rax : (emu.regs _RAX).toNat = (dividend m.emu .w64).toNat / s.toNat := Int.ofNat.inj quotient
    have rdx : (emu.regs _RDX).toNat = (dividend m.emu .w64).toNat % s.toNat := Int.ofNat.inj remainder
    refine congrArg some (Prod.ext (BitVec.eq_of_toNat_eq ?_) (BitVec.eq_of_toNat_eq ?_))
    · rw [rax, whole, toNat_udiv]
    · rw [rdx, whole, toNat_remainder64]

theorem dividend_extended (extended : Extends m .signed) : (dividend m.emu .w64).toInt = (m.regs xRAX).toInt := by
  have joined := dividend64_toInt m.emu
  have high : m.emu.regs _RDX = if (m.regs xRAX).msb then BitVec.allOnes 64 else 0 := extended
  have small := (m.regs xRAX).isLt
  have low : (m.emu.regs _RAX).toNat = (m.regs xRAX).toNat := rfl
  rw [joined, high, low, toInt_eq_msb_cond (m.regs xRAX)]
  have ones : (BitVec.allOnes 64).toInt = -1 := rfl
  have zero : (0 : BitVec 64).toInt = 0 := rfl
  split
  · rw [ones]
    omega
  · rw [zero]
    omega

theorem sdiv_eq (x : BitVec 64) : x.sdiv s = BitVec.ofInt 64 (x.toInt.tdiv s.toInt) := by
  apply BitVec.eq_of_toInt_eq
  rw [toInt_sdiv, toInt_ofInt]

theorem remainder_eq (x : BitVec 64) : x - x.sdiv s * s = BitVec.ofInt 64 (x.toInt.tmod s.toInt) := by
  apply BitVec.eq_of_toInt_eq
  rw [toInt_sub, toInt_mul, toInt_sdiv, toInt_ofInt, Int.tmod_def, Int.bmod_mul_bmod, Int.sub_bmod_bmod, Int.mul_comm]

/-- `idiv64` raises for the quotient `-2 ^ 63`. -/
theorem helperResult_signed (zero : s ≠ 0) (extended : Extends m .signed)
    (fits : FitsSigned 64 ((m.regs xRAX).toInt.tdiv s.toInt)) :
    helperResult .signed m s = if m.regs xRAX = BitVec.intMin 64 ∧ s = 1 then some (m.regs xRAX, m.regs xRDX)
      else some ((m.regs xRAX).sdiv s, m.regs xRAX - (m.regs xRAX).sdiv s * s) := by
  have value := dividend_extended extended
  have least := BitVec.le_toInt (m.regs xRAX)
  have lt := (m.regs xRAX).toInt_lt
  have fine : ¬ HostOverflows (dividend m.emu .w64).toInt s.toInt .w64 := by
    rw [value]
    rintro ⟨extreme, -⟩
    omega
  have minimum : 2 ^ 63 ≤ ((m.regs xRAX).toInt.tdiv s.toInt).natAbs ↔ m.regs xRAX = BitVec.intMin 64 ∧ s = 1 := by
    have smallest : m.regs xRAX = BitVec.intMin 64 ↔ (m.regs xRAX).toInt = -2 ^ 63 := BitVec.toInt_inj.symm
    have one : s = 1 ↔ s.toInt = 1 := BitVec.toInt_inj.symm
    have cases := tdiv_cases (d := (m.regs xRAX).toInt) (toInt_ne_zero zero)
    rw [smallest, one]
    unfold FitsSigned at fits
    omega
  obtain ⟨start, regs, result⟩ := idiv_of_fine zero fine
  rw [value] at result
  by_cases given : 2 ^ 63 ≤ ((m.regs xRAX).toInt.tdiv s.toInt).natAbs
  · have raised : Signedness.signed.divide .w64 m.emu s = .raised start := result.trans (if_pos given)
    rw [if_pos (minimum.mp given), helperResult, raised]
    change some (start.regs _RAX, start.regs _RDX) = _
    rw [regs]
    rfl
  · have done : Signedness.signed.divide .w64 m.emu s = .done (setDivided start .w64
        (BitVec.ofInt 64 ((m.regs xRAX).toInt.tdiv s.toInt)) (BitVec.ofInt 64 ((m.regs xRAX).toInt.tmod s.toInt))) :=
      result.trans (if_neg given)
    rw [if_neg (fun both => given (minimum.mpr both)), helperResult, done, remainder_eq, sdiv_eq]
    exact congrArg some (setDivided_w64 start _ _)

/-- Where `RDX` extends `RAX`, the single division and the helper differ only for the quotient `-2 ^ 63`. -/
theorem native_iff {sg : Signedness} (zero : s ≠ 0) (extended : Extends m sg)
    (fits : sg.Fits 64 ((sg.value (dividend m.emu .w64)).tdiv (sg.value s))) :
    some (nativeQuotient (m.regs xRAX) s sg, m.regs xRAX - nativeQuotient (m.regs xRAX) s sg * s) =
        helperResult sg m s ↔ ¬ (m.regs xRAX = BitVec.intMin 64 ∧ s = 1 ∧ sg = .signed) := by
  cases sg with
  | unsigned =>
    rw [helperResult_unsigned zero extended]
    exact iff_of_true rfl nofun
  | signed =>
    have quotient : FitsSigned 64 ((m.regs xRAX).toInt.tdiv s.toInt) := by
      rw [← dividend_extended extended]
      exact fits
    rw [helperResult_signed zero extended quotient]
    by_cases least : m.regs xRAX = BitVec.intMin 64 ∧ s = 1
    · rw [if_pos least]
      refine iff_of_false (fun same => ?_) (fun other => other ⟨least.1, least.2, rfl⟩)
      have rdx := congrArg Prod.snd (Option.some.inj same)
      have high : m.regs xRDX = if (m.regs xRAX).msb then BitVec.allOnes 64 else 0 := extended
      rw [least.1] at rdx high
      rw [high, least.2] at rdx
      exact absurd rdx (by decide)
    · rw [if_neg least]
      exact iff_of_true rfl fun all => least ⟨all.1, all.2.1⟩

end Arithmetic

/-! ### The emitted code -/

section Emitted

variable {env : Surroundings} {site : DivSite} {m : Cpu} {sg : Signedness}

theorem divisor_congr {m m' : Cpu} (same : ∀ r, isGuest r → m'.regs r = m.regs r) :
    site.divisor env m' = site.divisor env m := by
  unfold DivSite.divisor
  cases found : site.ed with
  | mem => rfl
  | reg r =>
    apply same
    have lt := r.isLt
    unfold DivSite.edReg isGuest
    rw [found]
    dsimp only
    omega

/-- What a division of `RAX` alone leaves. -/
def Single (site : DivSite) (env : Surroundings) (m : Cpu) (sg : Signedness) (r : DivRun) : Prop :=
  r.divided = true ∧ (r.cpu.regs xRAX, r.cpu.regs xRDX) =
    (nativeQuotient (m.regs xRAX) (site.divisor env m) sg,
      m.regs xRAX - nativeQuotient (m.regs xRAX) (site.divisor env m) sg * site.divisor env m)

/-- A division that is taken for granted. -/
theorem run_extended (before : site.before = some (DivSite.extends? sg)) :
    ∃ r, runDiv env 0 (site.emit sg) ⟨m, false⟩ = some r ∧ Single site env m sg r := by
  unfold DivSite.emit
  rw [if_pos before, List.append_assoc]
  obtain ⟨c1, run1, same1⟩ := run_SET_DFNONE env site (site.GETED ++ site.single sg) ⟨m, false⟩
  obtain ⟨c2, run2, same2, named⟩ := run_GETED env site (site.single sg) ⟨c1, false⟩
  obtain ⟨r, run3, divided, rax, rdx⟩ := run_single env site sg [] ⟨c2, false⟩
  rw [List.append_nil] at run3
  have quotient : c2.regs xRAX = m.regs xRAX :=
    (same2.regs xRAX (.inl (by decide))).trans (same1 xRAX (by decide))
  refine ⟨r, (run1.trans run2).trans run3, divided, ?_⟩
  rw [rax, rdx, quotient, named, divisor_congr same1]

/-- A division that is decided when the code runs. -/
theorem run_tested (before : site.before ≠ some (DivSite.extends? sg)) :
    (Taken m sg → ∃ r, runDiv env 0 (site.emit sg) ⟨m, false⟩ = some r ∧ Single site env m sg r) ∧
      (¬ Taken m sg → (runDiv env 0 (site.emit sg) ⟨m, false⟩).map (fun r => (r.cpu.regs xRAX, r.cpu.regs xRDX)) =
          helperResult sg m (site.divisor env m) ∧
        ∀ r, runDiv env 0 (site.emit sg) ⟨m, false⟩ = some r → r.divided = false) := by
  have code : site.emit sg = site.GETED ++ (DivSite.tests (site.callHelper sg) sg ++ site.callHelper sg ++
      (site.single sg ++ site.SET_DFNONE)) := by
    unfold DivSite.emit
    rw [if_neg before]
    simp only [List.append_assoc]
  rw [code]
  obtain ⟨c1, run1, same1, named1⟩ := run_GETED env site (DivSite.tests (site.callHelper sg) sg ++ site.callHelper sg ++
    (site.single sg ++ site.SET_DFNONE)) ⟨m, false⟩
  obtain ⟨c2, same2, named2, run2⟩ := run_tests env site sg (site.callHelper sg) (site.single sg ++ site.SET_DFNONE)
    ⟨c1, false⟩
  have rax1 : c1.regs xRAX = m.regs xRAX := same1.regs xRAX (.inl (by decide))
  have rdx1 : c1.regs xRDX = m.regs xRDX := same1.regs xRDX (.inl (by decide))
  have taken : Taken c1 sg ↔ Taken m sg := by
    unfold Taken
    rw [rax1, rdx1]
  rw [run1, run2]
  constructor
  · intro fast
    rw [if_pos (taken.mpr fast)]
    obtain ⟨r, run3, divided, rax, rdx⟩ := run_single env site sg site.SET_DFNONE ⟨c2, false⟩
    obtain ⟨c4, run4, same4⟩ := run_SET_DFNONE env site [] r
    rw [List.append_nil] at run4
    have quotient : c2.regs xRAX = m.regs xRAX := (same2.regs xRAX (.inl (by decide))).trans rax1
    have operand : c2.regs site.edReg = site.divisor env m := named2.trans named1
    refine ⟨_, run3.trans run4, divided, ?_⟩
    rw [same4 xRAX (by decide), same4 xRDX (by decide), rax, rdx, quotient, operand]
  · intro slow
    rw [if_neg (fun fast => slow (taken.mp fast))]
    obtain ⟨result, divided⟩ := run_callHelper env site sg (site.single sg ++ site.SET_DFNONE) ⟨c2, false⟩
    refine ⟨result.trans ?_, divided⟩
    unfold helperResult
    rw [named2.trans named1, same2.emu, same1.emu]

theorem emitsDivision_of_single (zero : site.divisor env m ≠ 0)
    (fits : sg.Fits 64 ((sg.value (dividend m.emu .w64)).tdiv (sg.value (site.divisor env m))))
    (run : ∃ r, runDiv env 0 (site.emit sg) ⟨m, false⟩ = some r ∧ Single site env m sg r) :
    EmitsDivision site env m sg ↔
      Extends m sg ∧ ¬ (m.regs xRAX = BitVec.intMin 64 ∧ site.divisor env m = 1 ∧ sg = .signed) := by
  obtain ⟨r, ran, divided, left⟩ := run
  constructor
  · intro emits
    have extended := emits.single r ran divided
    refine ⟨extended, (native_iff zero extended fits).mp ?_⟩
    have result := emits.result
    rw [ran, Option.map_some, left] at result
    exact result
  · rintro ⟨extended, other⟩
    refine ⟨?_, fun _ _ _ => extended⟩
    rw [ran, Option.map_some, left]
    exact (native_iff zero extended fits).mpr other

theorem not_emits (run : ∃ r, runDiv env 0 (site.emit sg) ⟨m, false⟩ = some r ∧ Single site env m sg r)
    (other : ¬ Extends m sg) : ¬ EmitsDivision site env m sg := by
  intro emits
  obtain ⟨r, ran, divided, -⟩ := run
  exact other (emits.single r ran divided)

/-- Bit 31 is as good as the sign exactly if the single division is left to the dividends it is for. -/
theorem taken_extends_iff (m : Cpu) : (Taken m .signed → Extends m .signed) ↔
    (m.regs xRDX = 0 → (m.regs xRAX).getLsbD 31 = false → (m.regs xRAX).msb = false) ∧
      (m.regs xRDX = BitVec.allOnes 64 → (m.regs xRAX).getLsbD 31 = true → (m.regs xRAX).msb = true) := by
  have apart : (0 : BitVec 64) ≠ BitVec.allOnes 64 := by decide
  unfold Taken Extends
  cases (m.regs xRAX).msb with
  | false =>
    constructor
    · intro right
      exact ⟨fun _ _ => rfl, fun ones bit => absurd ((right (.inr ⟨ones, bit⟩)).symm.trans ones) apart⟩
    · rintro ⟨-, high⟩ (⟨zero, -⟩ | ⟨ones, bit⟩)
      · exact zero
      · exact absurd (high ones bit) (by decide)
  | true =>
    constructor
    · intro right
      exact ⟨fun zero bit => absurd (zero.symm.trans (right (.inl ⟨zero, bit⟩))) apart, fun _ _ => rfl⟩
    · rintro ⟨low, -⟩ (⟨zero, bit⟩ | ⟨ones, -⟩)
      · exact absurd (low zero bit) (by decide)
      · exact ones

/-- The least `RAX` has bit 31 clear, and is negative. -/
theorem not_least (extended : Extends m .signed) (taken : Taken m .signed) : m.regs xRAX ≠ BitVec.intMin 64 := by
  intro least
  have high : m.regs xRDX = if (m.regs xRAX).msb then BitVec.allOnes 64 else 0 := extended
  rw [least] at high
  obtain ⟨zero, -⟩ | ⟨-, bit⟩ := taken
  · rw [zero] at high
    exact absurd high (by decide)
  · rw [least] at bit
    exact absurd bit (by decide)

end Emitted

/-- For every dividend in `RDX:RAX` and divisor with a quotient in range, however control got there. -/
theorem emitsDivision_iff (site : DivSite) (env : Surroundings) (m : Cpu) (sg : Signedness)
    (zero : site.divisor env m ≠ 0)
    (fits : sg.Fits 64 ((sg.value (dividend m.emu .w64)).tdiv (sg.value (site.divisor env m)))) :
    EmitsDivision site env m sg ↔ site.TestsRight m (site.divisor env m) sg := by
  by_cases before : site.before = some (DivSite.extends? sg)
  · rw [emitsDivision_of_single zero fits (run_extended before)]
    cases sg with
    | unsigned => exact ⟨fun right _ => right.1, fun right => ⟨right before, fun all => nomatch all.2.2⟩⟩
    | signed =>
      dsimp only [DivSite.TestsRight]
      rw [if_pos before]
      exact and_congr_right fun _ => not_congr ⟨fun all => ⟨all.1, all.2.1⟩, fun both => ⟨both.1, both.2, rfl⟩⟩
  · obtain ⟨fast, slow⟩ := run_tested before
    have helper : ¬ Taken m sg → EmitsDivision site env m sg := by
      intro untaken
      obtain ⟨result, undivided⟩ := slow untaken
      refine ⟨result, fun r ran divided => ?_⟩
      rw [undivided r ran] at divided
      exact nomatch divided
    cases sg with
    | unsigned =>
      refine iff_of_true ?_ (fun same => absurd same before)
      by_cases taken : Taken m .unsigned
      · exact (emitsDivision_of_single zero fits (fast taken)).mpr ⟨taken, fun all => nomatch all.2.2⟩
      · exact helper taken
    | signed =>
      dsimp only [DivSite.TestsRight]
      rw [if_neg before, ← taken_extends_iff]
      constructor
      · intro emits taken
        exact ((emitsDivision_of_single zero fits (fast taken)).mp emits).1
      · intro right
        by_cases taken : Taken m .signed
        · exact (emitsDivision_of_single zero fits (fast taken)).mpr
            ⟨right taken, fun all => not_least (right taken) taken all.1⟩
        · exact helper taken

/-- `XOR EDX, EDX` and `CQO`. -/
def extend (m : Cpu) : Signedness → Cpu
  | .unsigned => m.set xRDX (0 : BitVec 64)
  | .signed => m.set xRDX (if (m.regs xRAX).msb then BitVec.allOnes 64 else 0)

/-- Control that comes from the instruction in front finds the dividend extended. -/
theorem extends_extend (m : Cpu) (sg : Signedness) : Extends (extend m sg) sg := by
  cases sg with
  | unsigned => exact set_self m (by decide) 0
  | signed =>
    have rax : (extend m .signed).regs xRAX = m.regs xRAX := Cpu.set_regs_of_ne _ _ (by decide)
    unfold Extends
    rw [rax]
    exact set_self m (by decide) _

/-! ### Divisions that go wrong -/

/-- `DIV RBX` or `IDIV RBX`. -/
def divRBX (before : Option (BitVec 8 × BitVec 8)) : DivSite := ⟨.reg 3, before, true⟩

def dividing (rax rdx rbx : BitVec 64) : Cpu where
  regs := Function.update (Function.update (Function.update (fun _ => 0) 10 rax) 12 rdx) 13 rbx
  nzcv := ⟨false, false, false, false⟩
  fields := fun _ => 0

def still : Surroundings := ⟨tableHost, 0, fun _ => 0⟩

/-- 100 divided by 7, `RDX` being 0. -/
theorem emitsDivision_iff_hundred : EmitsDivision (divRBX none) still (dividing 100 0 7) .signed ↔
    (divRBX none).TestsRight (dividing 100 0 7) 7 .signed :=
  emitsDivision_iff (divRBX none) still (dividing 100 0 7) .signed (by decide)
    (show FitsSigned 64 (Int.tdiv 100 7) by decide)

/-- A jump to `DIV` after `XOR EDX, EDX` with 1 in `RDX`, a positive dividend from `2 ^ 63` on and one below `-2 ^ 63`
that `IDIV` takes for the other sign, and the quotient `-2 ^ 63`. -/
theorem divisions_go_wrong :
    ¬ EmitsDivision (divRBX (some (0x31, 0xD2))) still (dividing 0 1 4) .unsigned ∧
      ¬ EmitsDivision (divRBX none) still (dividing 0x8000000000000000 0 4) .signed ∧
      ¬ EmitsDivision (divRBX none) still (dividing 0x80000000 0xffffffffffffffff 4) .signed ∧
      ¬ EmitsDivision (divRBX (some (0x48, 0x99))) still (dividing 0x8000000000000000 0xffffffffffffffff 1) .signed := by
  refine ⟨not_emits (run_extended rfl) (by unfold Extends; decide),
    not_emits ((run_tested (by decide)).1 (.inl ⟨rfl, by decide⟩)) (by unfold Extends; decide),
    not_emits ((run_tested (by decide)).1 (.inr ⟨rfl, by decide⟩)) (by unfold Extends; decide), fun emits => ?_⟩
  refine ((emitsDivision_of_single ?_ ?_ (run_extended rfl)).mp emits).2 ⟨rfl, rfl, rfl⟩
  · decide
  · change FitsSigned 64 (Int.tdiv (-2 ^ 63) 1)
    decide

end Box64.Arm64
