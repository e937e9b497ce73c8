import Box64.Emu.Locked
import Box64.Emu.SimdTransfers

/-!
# Compare and exchange

`CMPXCHG`, `CMPXCHG8B` and `CMPXCHG16B` in `Run0F`, `Run660F`, `RunF0` and `Run66F0`: if the accumulator equals the
destination the source goes to the destination, otherwise the destination to the accumulator.
-/

namespace Box64.Emu

open BitVec RetryLoop AddressForm
open Function (update)

/-- The cases; those of `RunF0` and `Run66F0` as compiled with `DYNAREC`, but for `F0_Eq_mutex`. -/
inductive Cmpxchg
  /-- `Run0F`, `0xB0`. -/
  | Eb_Gb
  /-- `Run0F`, `0xB1`. -/
  | Ed_Gd
  /-- `Run660F`, `0xB1`. -/
  | Ew_Gw
  /-- `Run0F`, `0xC7`. -/
  | Eq
  | F0_Eb_Gb
  | F0_Ed_Gd
  | F0_Ew_Gw
  | F0_Eq
  /-- Without `DYNAREC`. -/
  | F0_Eq_mutex
  deriving DecidableEq

section Cases

variable (code : Memory) (rex : Rex) (s : Cpu)

/-- `cmp##(emu, acc, dest)` -/
def Cpu.compare (w : Width) (dest : BitVec w.bits) : Cpu :=
  { s with emu := (cmp w s.emu (s.emu.reg w _RAX) dest).2 }

/-- `CMPXCHG` of 16 and of 64 bits. -/
def cmpxchg (w : Width) (E : Oped (Fin 16)) (G : Fin 16) : Cpu :=
  let s := s.compare w (s.read w E)
  if s.emu.eflags.ZF then s.write w (s.emu.reg w G) E
  else { s with emu := s.emu.setReg _RAX (s.read w E) }

def cmpxchg32 (ED : Oped (Fin 16)) (GD : Fin 16) : Cpu :=
  let s := s.compare .w32 (s.read .w32 ED)
  -- "to erase upper part of RAX"
  let s := { s with emu := s.emu.setReg _RAX ((s.read .w32 ED).setWidth 64) }
  if s.emu.eflags.ZF then s.write .w32 (s.emu.reg .w32 GD) ED else s

/-- The locked operand, of which the first `fails` writes fail. -/
def locked (fails : Nat) (pass : X64Emu → Memory → Pass X64Emu Memory) : Cpu :=
  let final := run pass s.emu s.mem (List.replicate fails s.mem)
  { s with emu := final.state, mem := final.object }

/-- `CMPXCHG8B` and `CMPXCHG16B`, with what is stored in the two words at `a`. -/
def cmpxchg2 (w : Width) (a : BitVec 64) (low high : BitVec w.bits) : Cpu :=
  let s := { s with emu := CHECK_FLAGS s.emu }
  let next := a + BitVec.ofNat 64 (w.bits / 8)
  let tmp := s.mem.load w.bits a
  let tmp2 := s.mem.load w.bits next
  if s.emu.reg w _RAX = tmp ∧ s.emu.reg w _RDX = tmp2 then
    { s with emu := s.emu.setZF true, mem := (s.mem.store a low).store next high }
  else { s with emu := ((s.emu.setZF false).setReg _RAX (tmp.setWidth 64)).setReg _RDX (tmp2.setWidth 64) }

/-- The text of a case behind its opcode, where no other thread writes the operand. A case of two words, or one that is
locked, is of an operand in memory. -/
def Cmpxchg.exec (fails : Nat) : Cmpxchg → Option Cpu
  | .Eb_Gb =>
    let (nextop, s) := fetch code s 8
    let (EB, s) := GetEb code rex s nextop 0
    let GB := GetGb rex nextop
    let s := s.compare .w8 (s.readByte EB)
    some (if s.emu.eflags.ZF then s.writeByte (s.emu.getByte GB) EB
      else { s with emu := s.emu.setReg _RAX (s.readByte EB) })
  | .Ed_Gd =>
    let (nextop, s) := fetch code s 8
    let (ED, s) := GetEd code rex s nextop 0
    let GD := GetGd rex nextop
    some (if rex.w then cmpxchg s .w64 ED GD else cmpxchg32 s ED GD)
  | .Ew_Gw =>
    let (nextop, s) := fetch code s 8
    let (EW, s) := GetEd code rex s nextop 0
    let GW := GetGd rex nextop
    some (if rex.w then cmpxchg s .w64 EW GW else cmpxchg s .w16 EW GW)
  | .Eq =>
    let (nextop, s) := fetch code s 8
    let (ED, s) := GetEd code rex s nextop 0
    match ((nextop >>> 3) &&& 7).toNat, ED with
    | 1, .mem a =>
      some (if rex.w then
          -- `R_EBX` and `R_ECX`
          cmpxchg2 s .w64 a ((s.emu.reg .w32 _RBX).setWidth 64) ((s.emu.reg .w32 _RCX).setWidth 64)
        else cmpxchg2 s .w32 a (s.emu.reg .w32 _RBX) (s.emu.reg .w32 _RCX))
    | _, _ => none
  | .F0_Eb_Gb =>
    let s := { s with emu := CHECK_FLAGS s.emu }
    let (nextop, s) := fetch code s 8
    let (EB, s) := GetEb code rex s nextop 0
    let GB := GetGb rex nextop
    match EB with
    | .mem a => some (locked s fails (MemInsn.cmpxchgPass .w8 (·.load 8 a) (·.store a (s.emu.getByte GB))))
    | .reg _ => none
  | .F0_Ed_Gd =>
    let (nextop, s) := fetch code s 8
    let (ED, s) := GetEd code rex s nextop 0
    match ED with
    | .mem a =>
      let final := MemInsn.lockCMPXCHG_Ed_Gd ⟨rex, 0x0F, 0xB1, nextop, a, 0⟩ s.emu s.mem (List.replicate fails s.mem)
      some { s with emu := final.state, mem := final.object }
    | .reg _ => none
  | .F0_Ew_Gw =>
    let (nextop, s) := fetch code s 8
    let (EW, s) := GetEd code rex s nextop 0
    let GW := GetGd rex nextop
    match EW with
    | .mem a => some (locked s fails (MemInsn.cmpxchgPass .w16 (·.load 16 a) (·.store a (s.emu.reg .w16 GW))))
    | .reg _ => none
  | .F0_Eq =>
    let (nextop, s) := fetch code s 8
    let (ED, s) := GetEd code rex s nextop 0
    match ((nextop >>> 3) &&& 7).toNat, ED with
    | 1, .mem a =>
      let i : MemInsn := ⟨rex, 0x0F, 0xC7, nextop, a, 0⟩
      let s := { s with emu := CHECK_FLAGS s.emu }
      some (locked s fails (if rex.w then i.cmpxchg16Pass else i.cmpxchg8Pass))
    | _, _ => none
  | .F0_Eq_mutex =>
    let (nextop, s) := fetch code s 8
    let (ED, s) := GetEd code rex s nextop 0
    match ((nextop >>> 3) &&& 7).toNat, ED with
    | 1, .mem a =>
      some (if rex.w then cmpxchg2 s .w64 a (s.emu.regs _RBX) (s.emu.regs _RCX)
        else cmpxchg2 s .w32 a (s.emu.reg .w32 _RBX) (s.emu.reg .w32 _RCX))
    | _, _ => none

end Cases

/-! ### What the processor does -/

/-- The flags of the comparison. -/
def Compared {n : Nat} (acc dest : BitVec n) (f : X64Flags) : Prop :=
  f.ZF = decide (acc = dest) ∧ (eagerSub .undefined acc dest false).Agrees f

/-- The state is `after`, but for the flags, stored or pending. -/
def Leaves (flags : X64Flags → Prop) (after s' : Cpu) : Prop :=
  s' = { after with emu := { s'.emu with regs := after.emu.regs } } ∧ flags (deferedFlags s'.emu)

namespace Cpu

variable (s : Cpu)

def exchangeByte (E : Oped ByteReg) (src : BitVec 8) : Cpu :=
  let dest := s.readByte E
  if low 8 (s.reg _RAX) = dest then s.writeByte src E else { s with emu := s.emu.setReg _RAX dest }

/-- A destination or accumulator of 32 bits is extended by zeros. -/
def exchange (w : Width) (E : Oped (Fin 16)) (src : BitVec w.bits) : Cpu :=
  let dest := s.read w E
  if s.emu.reg w _RAX = dest then s.write w src E else s.write w dest (.reg _RAX)

/-- The pairs of accumulators and of source registers hold two words each. -/
def EqualPair (w : Width) (a : BitVec 64) : Prop :=
  s.emu.reg w _RAX = s.mem.load w.bits a ∧ s.emu.reg w _RDX = s.mem.load w.bits (a + BitVec.ofNat 64 (w.bits / 8))

instance (w : Width) (a : BitVec 64) : Decidable (s.EqualPair w a) := inferInstanceAs (Decidable (_ ∧ _))

def exchangePair (w : Width) (a : BitVec 64) : Cpu :=
  let next := a + BitVec.ofNat 64 (w.bits / 8)
  if s.EqualPair w a then
    { s with mem := (s.mem.store a (s.emu.reg w _RBX)).store next (s.emu.reg w _RCX) }
  else { s with emu := (s.emu.setWhole _RAX (s.mem.load w.bits a)).setWhole _RDX (s.mem.load w.bits next) }

end Cpu

section Architecture

variable (code : Memory) (rex : Rex) (s : Cpu)

/-- The width with `REX.W`, and without. -/
def wideOr (w : Width) : Width := if rex.w then .w64 else w

/-- The state after a case is the one the processor leaves. -/
def Cmpxchg.Performs (s' : Cpu) : Cmpxchg → Prop
  | .Eb_Gb | .F0_Eb_Gb =>
    let (nextop, s) := fetch code s 8
    let (EB, s) := GetEb code rex s nextop 0
    Leaves (Compared (low 8 (s.reg _RAX)) (s.readByte EB)) (s.exchangeByte EB (s.emu.getByte (GetGb rex nextop))) s'
  | .Ed_Gd | .F0_Ed_Gd =>
    let (nextop, s) := fetch code s 8
    let (ED, s) := GetEd code rex s nextop 0
    let w := wideOr rex .w32
    Leaves (Compared (s.emu.reg w _RAX) (s.read w ED)) (s.exchange w ED (s.emu.reg w (GetGd rex nextop))) s'
  | .Ew_Gw =>
    let (nextop, s) := fetch code s 8
    let (EW, s) := GetEd code rex s nextop 0
    let w := wideOr rex .w16
    Leaves (Compared (s.emu.reg w _RAX) (s.read w EW)) (s.exchange w EW (s.emu.reg w (GetGd rex nextop))) s'
  | .F0_Ew_Gw =>
    let (nextop, s) := fetch code s 8
    let (EW, s) := GetEd code rex s nextop 0
    Leaves (Compared (s.emu.reg .w16 _RAX) (s.read .w16 EW)) (s.exchange .w16 EW (s.emu.reg .w16 (GetGd rex nextop))) s'
  | .Eq | .F0_Eq | .F0_Eq_mutex =>
    let (nextop, s) := fetch code s 8
    let (ED, s) := GetEd code rex s nextop 0
    let w := wideOr rex .w32
    match ED with
    | .mem a => Leaves (· = { deferedFlags s.emu with ZF := decide (s.EqualPair w a) }) (s.exchangePair w a) s'
    | .reg _ => True

/-- When a case does that. `CMPXCHG` of 32 bits clears the upper half of the accumulator also where it is equal, and the
16 bytes of `Run0F` receive the low halves of `RBX` and `RCX` alone. -/
def Cmpxchg.Meets : Cmpxchg → Prop
  | .Ed_Gd | .F0_Ed_Gd =>
    let (nextop, s) := fetch code s 8
    let (ED, s) := GetEd code rex s nextop 0
    rex.w ∨ (s.emu.reg .w32 _RAX = s.read .w32 ED → ED = .reg _RAX ∨ Extended (s.reg _RAX))
  | .Eq =>
    let (nextop, s) := fetch code s 8
    let (ED, s) := GetEd code rex s nextop 0
    match ED with
    | .mem a => rex.w → s.EqualPair .w64 a → Extended (s.reg _RBX) ∧ Extended (s.reg _RCX)
    | .reg _ => True
  | _ => True

end Architecture

/-! ### Comparisons -/

section Comparison

variable {w : Width} (d t : BitVec w.bits)

def cmpFlags : X64Flags :=
  (cmp w ⟨fun _ => 0, ⟨false, false, false, false, false, false⟩, .d_none, 0, 0, 0⟩ d t).2.eflags

theorem cmpFlags_ZF : (cmpFlags d t).ZF = decide (d = t) := by
  have zero : (cmpFlags d t).ZF = (d - t == 0) := rfl
  rw [zero, Bool.eq_iff_iff, beq_iff_eq, decide_eq_true_eq]
  constructor
  · intro none
    rw [← BitVec.sub_add_cancel d t, none]
    exact BitVec.zero_add t
  · rintro rfl
    exact BitVec.sub_self d

theorem cmpFlags_hit : (cmpFlags d t).ZF = true ↔ d = t := by rw [cmpFlags_ZF, decide_eq_true_eq]

theorem cmpFlags_compared : Compared d t (cmpFlags d t) :=
  ⟨cmpFlags_ZF d t, cmp_agrees w _ .undefined d t⟩

end Comparison

/-! ### Flags apart from the rest -/

section Flagged

/-- Flags stored, and none pending. -/
def Cpu.withFlags (s : Cpu) (f : X64Flags) : Cpu := { s with emu := { s.emu with eflags := f, df := .d_none } }

variable (s : Cpu) (f : X64Flags) (w : Width)

theorem compare_eq (dest : BitVec w.bits) : s.compare w dest = s.withFlags (cmpFlags (s.emu.reg w _RAX) dest) := rfl

theorem read_withFlags (E : Oped (Fin 16)) : (s.withFlags f).read w E = s.read w E := by cases E <;> rfl

theorem readByte_withFlags (E : Oped ByteReg) : (s.withFlags f).readByte E = s.readByte E := by cases E <;> rfl

theorem write_withFlags (E : Oped (Fin 16)) (v : BitVec w.bits) :
    (s.withFlags f).write w v E = (s.write w v E).withFlags f := by
  cases E with
  | reg r =>
    simp only [Cpu.write, Cpu.withFlags]
    split <;> rfl
  | mem a => rfl

theorem writeByte_withFlags (E : Oped ByteReg) (v : BitVec 8) :
    (s.withFlags f).writeByte v E = (s.writeByte v E).withFlags f := by cases E <;> rfl

theorem leaves_withFlags {flags : X64Flags → Prop} (holds : flags f) : Leaves flags s (s.withFlags f) := ⟨rfl, holds⟩

theorem Leaves.regs {flags : X64Flags → Prop} {after s' : Cpu} (leaves : Leaves flags after s') :
    s'.emu.regs = after.emu.regs := by
  have same := congrArg (fun s : Cpu => s.emu.regs) leaves.1
  exact same

theorem Leaves.mem {flags : X64Flags → Prop} {after s' : Cpu} (leaves : Leaves flags after s') : s'.mem = after.mem := by
  have same := congrArg (fun s : Cpu => s.mem) leaves.1
  exact same

end Flagged

/-! ### One word -/

section Word

variable (s : Cpu)

theorem cmpxchg_eq (w : Width) (E : Oped (Fin 16)) (G : Fin 16) :
    cmpxchg s w E G =
      (if s.emu.reg w _RAX = s.read w E then s.write w (s.emu.reg w G) E
        else { s with emu := s.emu.setReg _RAX (s.read w E) }).withFlags
        (cmpFlags (s.emu.reg w _RAX) (s.read w E)) := by
  have hit := cmpFlags_hit (s.emu.reg w _RAX) (s.read w E)
  unfold cmpxchg
  rw [compare_eq]
  dsimp only
  rw [read_withFlags]
  by_cases equal : s.emu.reg w _RAX = s.read w E
  · rw [if_pos equal]
    exact (if_pos (hit.mpr equal)).trans (write_withFlags s _ w E _)
  · rw [if_neg equal]
    exact if_neg (mt hit.mp equal)

/-- 16 and 64 bits. -/
theorem cmpxchg_leaves {w : Width} (plain : w ≠ .w32) (E : Oped (Fin 16)) (G : Fin 16) :
    Leaves (Compared (s.emu.reg w _RAX) (s.read w E)) (s.exchange w E (s.emu.reg w G)) (cmpxchg s w E G) := by
  have accumulate : s.write w (s.read w E) (.reg _RAX) = { s with emu := s.emu.setReg _RAX (s.read w E) } := by
    simp only [Cpu.write, plain, if_false]
  rw [cmpxchg_eq, Cpu.exchange, accumulate]
  exact leaves_withFlags _ _ (cmpFlags_compared _ _)

/-- 8 bits. -/
theorem cmpxchgByte_leaves (EB : Oped ByteReg) (GB : ByteReg) :
    Leaves (Compared (low 8 (s.reg _RAX)) (s.readByte EB)) (s.exchangeByte EB (s.emu.getByte GB))
      (let s := s.compare .w8 (s.readByte EB)
      if s.emu.eflags.ZF then s.writeByte (s.emu.getByte GB) EB
      else { s with emu := s.emu.setReg _RAX (s.readByte EB) }) := by
  let f := cmpFlags (s.emu.reg .w8 _RAX) (s.readByte EB)
  have flags : Compared (low 8 (s.reg _RAX)) (s.readByte EB) f := cmpFlags_compared (s.emu.reg .w8 _RAX) _
  have hit : f.ZF = true ↔ low 8 (s.reg _RAX) = s.readByte EB := cmpFlags_hit (s.emu.reg .w8 _RAX) _
  change Leaves _ _ (if f.ZF then (s.withFlags f).writeByte (s.emu.getByte GB) EB
    else { s.withFlags f with emu := (s.withFlags f).emu.setReg _RAX ((s.withFlags f).readByte EB) })
  rw [readByte_withFlags, Cpu.exchangeByte]
  by_cases equal : low 8 (s.reg _RAX) = s.readByte EB
  · rw [if_pos equal]
    refine (congrArg (Leaves _ _) ((if_pos (hit.mpr equal)).trans ?_)).mpr (leaves_withFlags _ _ flags)
    exact writeByte_withFlags s _ EB _
  · rw [if_neg equal]
    exact (congrArg (Leaves _ _) (if_neg (mt hit.mp equal))).mpr (leaves_withFlags _ _ flags)

theorem clearHigh_eq_self_iff (emu : X64Emu) (r : Fin 16) : emu.clearHigh r = emu ↔ Extended (emu.regs r) := by
  have whole : emu.regs r = (low 32 (emu.regs r)).setWidth 64 ↔ Extended (emu.regs r) := by
    rw [extended_iff, ← setLow_extends_iff _ (low 32 (emu.regs r)), setLow_low]
  have value : (emu.clearHigh r).regs r = (low 32 (emu.regs r)).setWidth 64 := setWhole_regs emu r _
  rw [← whole]
  constructor
  · intro same
    rw [← value, same]
  · intro holds
    have put : emu.clearHigh r = { emu with regs := update emu.regs r ((low 32 (emu.regs r)).setWidth 64) } := by
      simp only [X64Emu.clearHigh, X64Emu.setWhole, X64Emu.setReg, setLow_full, X64Emu.reg]
      rfl
    rw [put, ← holds, Function.update_eq_self]

theorem reg_clearHigh (emu : X64Emu) (r g : Fin 16) : (emu.clearHigh r).reg .w32 g = emu.reg .w32 g := by
  by_cases same : g = r
  · subst same
    rw [X64Emu.reg, X64Emu.clearHigh, setWhole_regs]
    exact setWidth_setWidth_of_le _ (by decide)
  · rw [X64Emu.reg, X64Emu.clearHigh, setWhole_other emu same]
    rfl

theorem write_clearHigh_self (r : Fin 16) (v : BitVec Width.w32.bits) :
    ({ s with emu := s.emu.clearHigh r } : Cpu).write .w32 v (.reg r) = s.write .w32 v (.reg r) := by
  simp only [Cpu.write, if_true, X64Emu.clearHigh, X64Emu.setWhole, X64Emu.setReg, setLow_full, Function.update_idem]

theorem write_reg_other {E : Oped (Fin 16)} {r : Fin 16} (other : E ≠ .reg r) (v : BitVec Width.w32.bits) :
    (s.write .w32 v E).emu.regs r = s.emu.regs r := by
  cases E with
  | reg g => exact setWhole_other s.emu (fun same => other (congrArg _ same.symm)) v
  | mem a => rfl

/-- The accumulator is written first, and from it again where it is the source. -/
theorem cmpxchg32_eq (ED : Oped (Fin 16)) (GD : Fin 16) :
    cmpxchg32 s ED GD =
      (if s.emu.reg .w32 _RAX = s.read .w32 ED then
          Cpu.write { s with emu := s.emu.clearHigh _RAX } .w32 (s.emu.reg .w32 GD) ED
        else s.write .w32 (s.read .w32 ED) (.reg _RAX)).withFlags
        (cmpFlags (s.emu.reg .w32 _RAX) (s.read .w32 ED)) := by
  have hit := cmpFlags_hit (s.emu.reg .w32 _RAX) (s.read .w32 ED)
  let f := cmpFlags (s.emu.reg .w32 _RAX) (s.read .w32 ED)
  let t : Cpu := { s with emu := s.emu.setWhole _RAX (s.read .w32 ED) }
  have ran : cmpxchg32 s ED GD =
      if f.ZF then (t.withFlags f).write .w32 (t.emu.reg .w32 GD) ED else t.withFlags f := by
    unfold cmpxchg32
    rw [compare_eq]
    dsimp only
    rw [read_withFlags]
    rfl
  rw [ran]
  by_cases equal : s.emu.reg .w32 _RAX = s.read .w32 ED
  · have high : t = { s with emu := s.emu.clearHigh _RAX } := by
      simp only [t, ← equal]
      rfl
    rw [if_pos equal, if_pos (hit.mpr equal), write_withFlags, high, reg_clearHigh]
  · rw [if_neg equal, if_neg (mt hit.mp equal)]
    rfl

/-- 32 bits. -/
theorem cmpxchg32_leaves_iff (ED : Oped (Fin 16)) (GD : Fin 16) :
    Leaves (Compared (s.emu.reg .w32 _RAX) (s.read .w32 ED)) (s.exchange .w32 ED (s.emu.reg .w32 GD))
        (cmpxchg32 s ED GD) ↔
      (s.emu.reg .w32 _RAX = s.read .w32 ED → ED = .reg _RAX ∨ Extended (s.reg _RAX)) := by
  have flags := cmpFlags_compared (s.emu.reg .w32 _RAX) (s.read .w32 ED)
  rw [cmpxchg32_eq, Cpu.exchange]
  by_cases equal : s.emu.reg .w32 _RAX = s.read .w32 ED
  · rw [if_pos equal, if_pos equal]
    refine Iff.trans ?_ (forall_prop_of_true equal).symm
    constructor
    · intro leaves
      by_cases self : ED = .reg _RAX
      · exact .inl self
      have same := congrFun leaves.regs _RAX
      have here := (write_reg_other { s with emu := s.emu.clearHigh _RAX } self (s.emu.reg .w32 GD)).symm.trans same
      rw [write_reg_other s self] at here
      have extended := extended_clearHigh s.emu _RAX
      rw [here] at extended
      exact .inr extended
    · rintro (rfl | extended)
      · rw [write_clearHigh_self]
        exact leaves_withFlags _ _ flags
      · rw [(clearHigh_eq_self_iff s.emu _RAX).mpr extended]
        exact leaves_withFlags _ _ flags
  · rw [if_neg equal, if_neg equal]
    exact iff_of_true (leaves_withFlags _ _ flags) fun same => absurd same equal

end Word

/-! ### Two words -/

section Pair

variable (s : Cpu) (w : Width) (a : BitVec 64)

theorem cmpxchg2_eq (low high : BitVec w.bits) :
    cmpxchg2 s w a low high =
      if s.EqualPair w a then
        Cpu.withFlags { s with mem := (s.mem.store a low).store (a + BitVec.ofNat 64 (w.bits / 8)) high }
          { deferedFlags s.emu with ZF := true }
      else (s.exchangePair w a).withFlags { deferedFlags s.emu with ZF := false } := by
  have flagged : ({ s with emu := CHECK_FLAGS s.emu } : Cpu) = s.withFlags (deferedFlags s.emu) := by
    rw [CHECK_FLAGS_eq]
    rfl
  unfold cmpxchg2
  rw [flagged]
  by_cases equal : s.EqualPair w a
  · rw [if_pos equal]
    exact if_pos equal
  · rw [if_neg equal, Cpu.exchangePair, if_neg equal]
    exact if_neg equal

theorem cmpxchg2_leaves_iff (low high : BitVec w.bits) :
    Leaves (· = { deferedFlags s.emu with ZF := decide (s.EqualPair w a) }) (s.exchangePair w a)
        (cmpxchg2 s w a low high) ↔
      (s.EqualPair w a → low = s.emu.reg w _RBX ∧ high = s.emu.reg w _RCX) := by
  rw [cmpxchg2_eq]
  by_cases equal : s.EqualPair w a
  · rw [if_pos equal]
    refine Iff.trans ?_ (forall_prop_of_true equal).symm
    let next := a + BitVec.ofNat 64 (w.bits / 8)
    have after : s.exchangePair w a =
        { s with mem := (s.mem.store a (s.emu.reg w _RBX)).store next (s.emu.reg w _RCX) } := if_pos equal
    rw [after]
    constructor
    · intro leaves
      exact (Memory.store_pair_inj s.mem a w.dvd_bits w.bits_le).mp leaves.mem
    · rintro ⟨rfl, rfl⟩
      exact leaves_withFlags _ _ (by rw [decide_eq_true equal])
  · rw [if_neg equal]
    exact iff_of_true (leaves_withFlags _ _ (by rw [decide_eq_false equal])) fun holds => absurd holds equal

/-- With the whole source registers. -/
theorem cmpxchg2_leaves :
    Leaves (· = { deferedFlags s.emu with ZF := decide (s.EqualPair w a) }) (s.exchangePair w a)
      (cmpxchg2 s w a (s.emu.reg w _RBX) (s.emu.reg w _RCX)) :=
  (cmpxchg2_leaves_iff s w a _ _).mpr fun _ => ⟨rfl, rfl⟩

end Pair

/-! ### Locked operands -/

section Locked

variable (s : Cpu) (fails : Nat)

/-- A comparison forgets the one before. -/
theorem cmpxchgPass_absorbs (w : Width) (read : Memory → BitVec w.bits) (write : Memory → Memory) :
    Absorbs (MemInsn.cmpxchgPass w read write) := by
  intro emu mem mem' stores
  by_cases hit : (cmp w emu (emu.reg w _RAX) (read mem)).2.eflags.ZF = true
  · have passed : MemInsn.cmpxchgPass w read write emu mem = ⟨_, some (write mem)⟩ := if_pos hit
    rw [passed]
    rfl
  · have left : MemInsn.cmpxchgPass w read write emu mem = ⟨_, none⟩ := if_neg hit
    rw [left] at stores
    cases stores

theorem cmpxchg16Pass_absorbs (i : MemInsn) : Absorbs i.cmpxchg16Pass := by
  intro emu mem mem' stores
  by_cases hit : emu.regs _RAX = mem.load 64 i.ed ∧ emu.regs _RDX = mem.load 64 (i.ed + 8)
  · have passed : i.cmpxchg16Pass emu mem = ⟨emu.setZF true, _⟩ := if_pos hit
    rw [passed]
    rfl
  · have left : i.cmpxchg16Pass emu mem = ⟨_, none⟩ := if_neg hit
    rw [left] at stores
    cases stores

theorem cmpxchg8Pass_absorbs (i : MemInsn) : Absorbs i.cmpxchg8Pass := by
  intro emu mem mem' stores
  by_cases hit : low 32 (emu.regs _RAX) = (mem.load 64 i.ed).setWidth 32 ∧
      low 32 (emu.regs _RDX) = (mem.load 64 i.ed >>> 32).setWidth 32
  · have passed : i.cmpxchg8Pass emu mem = ⟨emu.setZF true, _⟩ := if_pos hit
    rw [passed]
    rfl
  · have left : i.cmpxchg8Pass emu mem = ⟨_, none⟩ := if_neg hit
    rw [left] at stores
    cases stores

theorem locked_eq {pass : X64Emu → Memory → Pass X64Emu Memory} (absorbs : Absorbs pass) :
    locked s fails pass = { s with
      emu := (pass s.emu s.mem).state, mem := (pass s.emu s.mem).stored.getD s.mem } := by
  rw [locked, run_replicate absorbs]

/-- Locked, 16 and 64 bits are as without. -/
theorem locked_cmpxchg (w : Width) (a : BitVec 64) (G : Fin 16) :
    locked s fails (MemInsn.cmpxchgPass w (·.load w.bits a) (·.store a (s.emu.reg w G))) = cmpxchg s w (.mem a) G := by
  rw [locked_eq s fails (cmpxchgPass_absorbs w _ _)]
  unfold MemInsn.cmpxchgPass cmpxchg
  dsimp only
  split
  case isTrue hit => exact (if_pos hit).symm
  case isFalse miss => exact (if_neg miss).symm

theorem reg_whole (emu : X64Emu) (r : Fin 16) : emu.reg .w64 r = emu.regs r := setWidth_eq _

theorem locked_cmpxchg16 (i : MemInsn) :
    locked { s with emu := CHECK_FLAGS s.emu } fails i.cmpxchg16Pass =
      cmpxchg2 s .w64 i.ed (s.emu.regs _RBX) (s.emu.regs _RCX) := by
  have regs := CHECK_FLAGS_regs s.emu
  rw [locked_eq _ fails (cmpxchg16Pass_absorbs i)]
  unfold cmpxchg2 MemInsn.cmpxchg16Pass
  dsimp only
  rw [reg_whole, reg_whole, regs]
  by_cases equal : s.emu.regs _RAX = s.mem.load 64 i.ed ∧ s.emu.regs _RDX = s.mem.load 64 (i.ed + 8)
  · rw [if_pos equal]
    exact (if_pos equal).symm
  · rw [if_neg equal]
    refine (Eq.trans (if_neg equal) ?_).symm
    have wide (v : BitVec Width.w64.bits) : v.setWidth 64 = v := setWidth_eq v
    rw [wide, wide]
    rfl

/-- What `native_lock_read_dd` reads, as two words. -/
theorem read_dd (m : Memory) (a : BitVec 64) :
    m.load 64 a &&& 0xffffffff = (m.load 32 a).setWidth 64 ∧
      (m.load 64 a >>> 32) &&& 0xffffffff = (m.load 32 (a + BitVec.ofNat 64 4)).setWidth 64 := by
  have masked (x : BitVec 64) : x &&& 0xffffffff = (x.setWidth 32).setWidth 64 := by
    apply eq_of_getLsbD_eq
    intro j lt
    have mask : (0xffffffff#64).getLsbD j = decide (j < 32) := by
      have ones : 0xffffffff#64 = (allOnes 32).setWidth 64 := rfl
      rw [ones, getLsbD_setWidth, getLsbD_allOnes, decide_eq_true lt, Bool.true_and]
    rw [getLsbD_and, getLsbD_setWidth, getLsbD_setWidth, decide_eq_true lt, Bool.true_and, Bool.and_comm]
    exact congrArg (· && x.getLsbD j) mask
  rw [masked, masked, Memory.load_low (by decide), Memory.load_high]
  exact ⟨rfl, rfl⟩

/-- What `native_lock_write_dd` writes, as two words. -/
theorem write_dd (m : Memory) (a : BitVec 64) (x y : BitVec 32) :
    m.store a (x.setWidth 64 ||| (y.setWidth 64 <<< 32)) = (m.store a x).store (a + BitVec.ofNat 64 4) y := by
  have low : (x.setWidth 64 ||| (y.setWidth 64 <<< 32)).extractLsb' 0 32 = x := by
    apply eq_of_getLsbD_eq
    intro j lt
    have inside : j < 64 := by omega
    simp [lt, inside]
  have high : (x.setWidth 64 ||| (y.setWidth 64 <<< 32)).extractLsb' 32 32 = y := by
    apply eq_of_getLsbD_eq
    intro j lt
    have inside : 32 + j < 64 := by omega
    simp [lt, inside]
  rw [Memory.store_halves, low, high]

theorem locked_cmpxchg8 (i : MemInsn) :
    locked { s with emu := CHECK_FLAGS s.emu } fails i.cmpxchg8Pass =
      cmpxchg2 s .w32 i.ed (s.emu.reg .w32 _RBX) (s.emu.reg .w32 _RCX) := by
  have regs := CHECK_FLAGS_regs s.emu
  obtain ⟨first, second⟩ := read_dd s.mem i.ed
  rw [locked_eq _ fails (cmpxchg8Pass_absorbs i)]
  unfold cmpxchg2 MemInsn.cmpxchg8Pass X64Emu.reg
  dsimp only
  rw [regs, Memory.load_low (by decide), Memory.load_high, first, second, write_dd]
  by_cases equal : low 32 (s.emu.regs _RAX) = s.mem.load 32 i.ed ∧
      low 32 (s.emu.regs _RDX) = s.mem.load 32 (i.ed + BitVec.ofNat 64 4)
  · rw [if_pos equal]
    exact (if_pos equal).symm
  · rw [if_neg equal]
    exact (if_neg equal).symm

/-- Low byte and the rest read apart. -/
theorem readUnaligned_eq (i : MemInsn) {n : Nat} (le : 8 ≤ n) (mem : Memory) : i.readUnaligned n mem = mem.load n i.ed := by
  rw [MemInsn.readUnaligned, ← Memory.load_low le]
  generalize mem.load n i.ed = x
  apply eq_of_getLsbD_eq
  intro j lt
  have mask : (0xff#n).getLsbD j = decide (j < 8) := by
    rw [getLsbD_ofNat, decide_eq_true lt, Bool.true_and]
    exact Nat.testBit_two_pow_sub_one 8 j
  rw [getLsbD_or, getLsbD_and, getLsbD_not, mask, getLsbD_setWidth, getLsbD_setWidth]
  by_cases low : j < 8
  · simp [low, lt]
  · simp [low, lt]

/-- The store of the low byte that may fail, and the one of the whole operand behind it. -/
theorem unaligned_pass (i : MemInsn) (src : BitVec 64) :
    MemInsn.cmpxchgPass .w64 (i.readUnaligned 64) (fun mem => (mem.store i.ed (src.setWidth 8)).store i.ed src) =
      MemInsn.cmpxchgPass .w64 (·.load 64 i.ed) (·.store i.ed src) := by
  have read : i.readUnaligned 64 = (·.load 64 i.ed) := funext (readUnaligned_eq i (by decide))
  have write : (fun mem : Memory => (mem.store i.ed (src.setWidth 8)).store i.ed src) = (·.store i.ed src) :=
    funext fun mem => Memory.store_store mem i.ed src (src.setWidth 8) (by decide)
  exact congrArg₂ (MemInsn.cmpxchgPass .w64) read write

/-- Clearing the upper half behind the loop does what clearing it before the store does. -/
theorem cmpxchg_clearHigh (a : BitVec 64) (G : Fin 16) :
    (let c := cmpxchg s .w32 (.mem a) G; ({ c with emu := c.emu.clearHigh _RAX } : Cpu)) = cmpxchg32 s (.mem a) G := by
  rw [cmpxchg_eq, cmpxchg32_eq]
  by_cases equal : s.emu.reg .w32 _RAX = s.read .w32 (.mem a)
  · rw [if_pos equal, if_pos equal]
    rfl
  · rw [if_neg equal, if_neg equal]
    have cleared := clearHigh_setReg _RAX s.emu (s.read .w32 (.mem a))
    have whole : s.emu.setWhole _RAX (s.read .w32 (.mem a)) = (s.emu.setReg _RAX (s.read .w32 (.mem a))).clearHigh _RAX := by
      refine Eq.trans ?_ cleared.symm
      rw [X64Emu.setWhole, X64Emu.setReg, setLow_full]
      rfl
    simp only [Cpu.write, if_true, whole]
    rfl

/-- `CMPXCHG Ed,Gd`, locked. -/
theorem lockCMPXCHG_Ed_Gd_eq (i : MemInsn) :
    (let final := i.lockCMPXCHG_Ed_Gd s.emu s.mem (List.replicate fails s.mem);
      ({ s with emu := final.state, mem := final.object } : Cpu)) =
      if i.rex.w then cmpxchg s .w64 (.mem i.ed) i.GD else cmpxchg32 s (.mem i.ed) i.GD := by
  unfold MemInsn.lockCMPXCHG_Ed_Gd MemInsn.lockCMPXCHG
  by_cases wide : i.rex.w
  · rw [if_pos wide, if_pos wide, ← locked_cmpxchg s fails .w64 i.ed i.GD]
    split
    · exact congrArg (locked s fails) (unaligned_pass i _)
    · rfl
  · rw [if_neg wide, if_neg wide, ← cmpxchg_clearHigh, ← locked_cmpxchg s fails .w32 i.ed i.GD]
    rfl

/-- `CMPXCHG Eb,Gb`, locked. -/
theorem locked_cmpxchgByte (a : BitVec 64) (GB : ByteReg) :
    locked s fails (MemInsn.cmpxchgPass .w8 (·.load 8 a) (·.store a (s.emu.getByte GB))) =
      (let s := s.compare .w8 (s.readByte (.mem a))
      if s.emu.eflags.ZF then s.writeByte (s.emu.getByte GB) (.mem a)
      else { s with emu := s.emu.setReg _RAX (s.readByte (.mem a)) }) := by
  refine (locked_eq s fails (cmpxchgPass_absorbs .w8 _ _)).trans ?_
  unfold MemInsn.cmpxchgPass
  dsimp only
  split
  case isTrue hit => exact (if_pos hit).symm
  case isFalse miss => exact (if_neg miss).symm

end Locked

/-! ### The cases, one by one -/

section Main

variable (code : Memory) (rex : Rex) (s : Cpu) (fails : Nat)

theorem wideOr_pos {rex : Rex} {w : Width} (wide : rex.w = true) : wideOr rex w = .w64 := if_pos wide

theorem wideOr_neg {rex : Rex} {w : Width} (narrow : ¬ rex.w = true) : wideOr rex w = w := if_neg narrow

/-- The low half of a register is the whole of it. -/
theorem low_whole_iff (emu : X64Emu) (r : Fin 16) :
    (emu.reg .w32 r).setWidth 64 = emu.reg .w64 r ↔ Extended (emu.regs r) := by
  rw [reg_whole, extended_iff, ← setLow_extends_iff _ (low 32 (emu.regs r)), setLow_low]
  exact eq_comm

theorem exchangeByte_withFlags (f : X64Flags) (E : Oped ByteReg) (src : BitVec 8) :
    (s.withFlags f).exchangeByte E src = (s.exchangeByte E src).withFlags f := by
  unfold Cpu.exchangeByte
  dsimp only
  rw [readByte_withFlags]
  by_cases equal : low 8 (s.reg _RAX) = s.readByte E
  · rw [if_pos equal]
    exact (if_pos equal).trans (writeByte_withFlags s f E src)
  · rw [if_neg equal]
    exact if_neg equal

theorem GetEb_withFlags (f : X64Flags) (nextop delta : BitVec 8) :
    GetEb code rex (s.withFlags f) nextop delta =
      ((GetEb code rex s nextop delta).1, (GetEb code rex s nextop delta).2.withFlags f) := by
  unfold GetEb
  split
  · rfl
  · rfl

/-- `CMPXCHG Eb,Gb`, locked, first resolves the flags. -/
theorem F0_Eb_Gb_performs {s' : Cpu} (done : Cmpxchg.F0_Eb_Gb.exec code rex s fails = some s') :
    Cmpxchg.F0_Eb_Gb.Performs code rex s s' := by
  unfold Cmpxchg.exec at done
  unfold Cmpxchg.Performs
  have flagged : ({ s with emu := CHECK_FLAGS s.emu } : Cpu) = s.withFlags (deferedFlags s.emu) := by
    rw [CHECK_FLAGS_eq]
    rfl
  dsimp only at done ⊢
  rw [flagged] at done
  have fetched : fetch code (s.withFlags (deferedFlags s.emu)) 8 =
      ((fetch code s 8).1, (fetch code s 8).2.withFlags (deferedFlags s.emu)) := rfl
  rw [fetched] at done
  generalize deferedFlags s.emu = f at done
  generalize fetch code s 8 = fetched at done ⊢
  obtain ⟨nextop, s⟩ := fetched
  dsimp only at done ⊢
  rw [GetEb_withFlags] at done
  generalize GetEb code rex s nextop 0 = decoded at done ⊢
  obtain ⟨EB, s⟩ := decoded
  cases EB with
  | reg g => cases done
  | mem a =>
    obtain rfl := Option.some.inj done
    have unlocked := locked_cmpxchgByte (s.withFlags f) fails a (GetGb rex nextop)
    have leaves := cmpxchgByte_leaves (s.withFlags f) (.mem a) (GetGb rex nextop)
    rw [← unlocked, exchangeByte_withFlags] at leaves
    exact leaves

/-- A compare and exchange does what the processor does exactly in the cases and states that `Meets` has. -/
theorem Cmpxchg.performs_iff {op : Cmpxchg} {s' : Cpu} (done : op.exec code rex s fails = some s') :
    op.Performs code rex s s' ↔ op.Meets code rex s := by
  cases op
  case Eb_Gb =>
    obtain rfl := Option.some.inj done
    exact iff_of_true (cmpxchgByte_leaves _ _ _) trivial
  case F0_Eb_Gb => exact iff_of_true (F0_Eb_Gb_performs code rex s fails done) trivial
  all_goals
    unfold exec at done
    unfold Performs Meets
    generalize fetch code s 8 = fetched at done ⊢
    obtain ⟨nextop, s⟩ := fetched
    dsimp only at done ⊢
    generalize GetEd code rex s nextop 0 = decoded at done ⊢
    obtain ⟨ED, s⟩ := decoded
    dsimp only at done ⊢
  case Ed_Gd =>
    obtain rfl := Option.some.inj done
    by_cases wide : rex.w
    · rw [wideOr_pos wide, if_pos wide]
      exact iff_of_true (cmpxchg_leaves s (w := .w64) (by decide) ED _) (.inl wide)
    · rw [wideOr_neg wide, if_neg wide, or_iff_right wide]
      exact cmpxchg32_leaves_iff s ED _
  case Ew_Gw =>
    obtain rfl := Option.some.inj done
    refine iff_of_true ?_ trivial
    by_cases wide : rex.w
    · rw [wideOr_pos wide, if_pos wide]
      exact cmpxchg_leaves s (w := .w64) (by decide) ED _
    · rw [wideOr_neg wide, if_neg wide]
      exact cmpxchg_leaves s (w := .w16) (by decide) ED _
  case Eq =>
    split at done
    case h_2 => cases done
    case h_1 a _ =>
      obtain rfl := Option.some.inj done
      by_cases wide : rex.w
      · rw [wideOr_pos wide, if_pos wide]
        refine (cmpxchg2_leaves_iff s .w64 a _ _).trans (Iff.trans ?_ (forall_prop_of_true wide).symm)
        exact imp_congr_right fun _ => and_congr (low_whole_iff s.emu _RBX) (low_whole_iff s.emu _RCX)
      · rw [wideOr_neg wide, if_neg wide]
        exact iff_of_true (cmpxchg2_leaves s .w32 a) fun impossible => absurd impossible wide
  case F0_Ed_Gd =>
    cases ED with
    | reg r => cases done
    | mem a =>
      obtain rfl := Option.some.inj done
      have unlocked := lockCMPXCHG_Ed_Gd_eq s fails ⟨rex, 0x0F, 0xB1, nextop, a, 0⟩
      dsimp only at unlocked
      rw [unlocked]
      by_cases wide : rex.w
      · rw [wideOr_pos wide, if_pos wide]
        exact iff_of_true (cmpxchg_leaves s (w := .w64) (by decide) (.mem a) _) (.inl wide)
      · rw [wideOr_neg wide, if_neg wide, or_iff_right wide]
        exact cmpxchg32_leaves_iff s (.mem a) _
  case F0_Ew_Gw =>
    cases ED with
    | reg r => cases done
    | mem a =>
      obtain rfl := Option.some.inj done
      refine iff_of_true ?_ trivial
      have unlocked := locked_cmpxchg s fails .w16 a (GetGd rex nextop)
      exact (congrArg (Leaves _ _) unlocked).mpr (cmpxchg_leaves s (w := .w16) (by decide) (.mem a) _)
  case F0_Eq =>
    split at done
    case h_2 => cases done
    case h_1 a _ =>
      obtain rfl := Option.some.inj done
      refine iff_of_true ?_ trivial
      by_cases wide : rex.w
      · rw [wideOr_pos wide, if_pos wide, locked_cmpxchg16, ← reg_whole, ← reg_whole]
        exact cmpxchg2_leaves s .w64 a
      · rw [wideOr_neg wide, if_neg wide, locked_cmpxchg8]
        exact cmpxchg2_leaves s .w32 a
  case F0_Eq_mutex =>
    split at done
    case h_2 => cases done
    case h_1 a _ =>
      obtain rfl := Option.some.inj done
      refine iff_of_true ?_ trivial
      by_cases wide : rex.w
      · rw [wideOr_pos wide, if_pos wide, ← reg_whole, ← reg_whole]
        exact cmpxchg2_leaves s .w64 a
      · rw [wideOr_neg wide, if_neg wide]
        exact cmpxchg2_leaves s .w32 a

end Main

/-- `cmpxchg edx, ecx`, without the opcode. -/
def cmpxchg_edx_ecx : Memory := fun _ => 0xCA

theorem Cmpxchg.performs_iff_edx :
    ∃ s', Cmpxchg.Ed_Gd.exec cmpxchg_edx_ecx ⟨0⟩ transferring 0 = some s' ∧
      (Cmpxchg.Ed_Gd.Performs cmpxchg_edx_ecx ⟨0⟩ transferring s' ↔
        Cmpxchg.Ed_Gd.Meets cmpxchg_edx_ecx ⟨0⟩ transferring) :=
  ⟨_, rfl, Cmpxchg.performs_iff cmpxchg_edx_ecx ⟨0⟩ transferring 0 rfl⟩

/-- Where accumulator and destination are equal, the upper half of `RAX` is lost. -/
theorem cmpxchg_clears_accumulator :
    ¬ ∀ (op : Cmpxchg) (code : Memory) (rex : Rex) (s : Cpu) (fails : Nat) (s' : Cpu),
      op.exec code rex s fails = some s' → op.Performs code rex s s' := by
  intro all
  have performs := all .Ed_Gd cmpxchg_edx_ecx ⟨0⟩ transferring 0 _ rfl
  have meets := (cmpxchg32_leaves_iff { transferring with R_RIP := 1 } (.reg 2) 1).mp performs
  rcases meets (by decide) with same | extended
  · cases same
  · revert extended
    decide

end Box64.Emu
