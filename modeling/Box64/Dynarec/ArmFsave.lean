import Box64.Emu.LongDouble
import Box64.Emu.X87
import Box64.Lib.WordMemory
import Mathlib.Tactic.IntervalCases

/-!
# `arm_fsave` and `arm_frstor`

The dynarec's helpers for `FNSAVE` and `FRSTOR`: the environment, and behind it eight registers of ten bytes.
-/

namespace Box64.Dynarec

open Emu Memory

section Environment

variable (emu : X87) (m : Memory) (p : BitVec 64) (b16 : Bool)

/-- The tagword, two bits a register. -/
def tags : BitVec 16 :=
  eight.foldl (fun tags i => tags ||| ((emu.tag i).setWidth 32 <<< (i.toNat * 2)).setWidth 16) 0

def fpuSavenv : X87 × Memory :=
  let emu := { emu with sw := setTop emu.sw emu.top }
  let m := store m p emu.cw
  let p := p + 2
  let (m, p) := if b16 then (m, p) else (store m p (0 : BitVec 16), p + 2)
  let m := store m p emu.sw
  let p := p + 2
  let (m, p) := if b16 then (m, p) else (store m p (0 : BitVec 16), p + 2)
  (emu, store m p (tags emu))

def fpuLoadenv : X87 :=
  let cw := load 16 m p
  let p := p + if b16 then 2 else 4
  let sw := load 16 m p
  let p := p + if b16 then 2 else 4
  let tags := load 16 m p
  { emu with cw, sw, top := topOf sw, tag := fun i => (tags >>> (i.toNat * 2)).setWidth 2 }

end Environment

/-- The ten bytes of a long double. -/
def loadLD (m : Memory) (p : BitVec 64) : LongDouble := ⟨load 64 m p, load 16 m (p + 8)⟩

def storeLD (m : Memory) (p : BitVec 64) (ld : LongDouble) : Memory := store (store m p ld.q) (p + 8) ld.b

/-- Rounds of the loop of `arm_fsave`: `LD2D(p, &ST(i).d)`, then `p += 10`. -/
def fsaveLoop (m : Memory) : List (BitVec 3) → BitVec 64 → X87 → X87
  | [], _, emu => emu
  | i :: rest, p, emu => fsaveLoop m rest (p + 10) (emu.setST i (LD2D (loadLD m p)))

def armFsave (emu : X87) (m : Memory) (ed : BitVec 64) : X87 × Memory :=
  let (emu, m) := fpuSavenv emu m ed false
  (fsaveLoop m eight (ed + 28) emu, m)

/-- Rounds of the loop of `arm_frstor`: `D2LD(&ST(i).d, p)`, then `p += 10`. -/
def frstorLoop (emu : X87) : List (BitVec 3) → BitVec 64 → Memory → Memory
  | [], _, m => m
  | i :: rest, p, m => frstorLoop emu rest (p + 10) (storeLD m p (D2LD (emu.ST i)))

def armFrstor (emu : X87) (m : Memory) (ed : BitVec 64) : X87 × Memory :=
  let emu := fpuLoadenv emu m ed false
  (emu, frstorLoop emu eight (ed + 28) m)

/-! ### What the area is for -/

/-- Where register `i` of the area is. -/
def registerAt (ed : BitVec 64) (i : BitVec 3) : BitVec 64 := ed + BitVec.ofNat 64 (28 + 10 * i.toNat)

structure Saves (emu : X87) (m : Memory) (ed : BitVec 64) : Prop where
  unchanged : ∀ i, (armFsave emu m ed).1.ST i = emu.ST i
  written : ∀ i, loadLD (armFsave emu m ed).2 (registerAt ed i) = D2LD (emu.ST i)

def IsNormal (d : BitVec 64) : Prop := 0 < exponent64 d ∧ exponent64 d < 0x7ff

structure RestoresStack (saved emu : X87) : Prop where
  top : emu.top = saved.top
  tag : emu.tag = saved.tag
  normal : ∀ i, IsNormal (saved.ST i) → emu.ST i = saved.ST i

/-! ### The environment -/

theorem eight_cases (i : BitVec 3) : i = 0 ∨ i = 1 ∨ i = 2 ∨ i = 3 ∨ i = 4 ∨ i = 5 ∨ i = 6 ∨ i = 7 := by
  revert i
  decide

theorem tags_get (emu : X87) (i : BitVec 3) : ((tags emu) >>> (i.toNat * 2)).setWidth 2 = emu.tag i := by
  simp only [tags, eight, List.foldl]
  obtain rfl | rfl | rfl | rfl | rfl | rfl | rfl | rfl := eight_cases i
  all_goals
    ext k lt
    interval_cases k <;> simp

theorem fpuSavenv_eq (emu : X87) (m : Memory) (p : BitVec 64) : fpuSavenv emu m p false =
    ({ emu with sw := setTop emu.sw emu.top },
      store (store (store (store (store m (p + BitVec.ofNat 64 0) emu.cw) (p + BitVec.ofNat 64 2) (0 : BitVec 16))
        (p + BitVec.ofNat 64 4) (setTop emu.sw emu.top)) (p + BitVec.ofNat 64 6) (0 : BitVec 16))
        (p + BitVec.ofNat 64 8) (tags emu)) := by
  have start : p = p + BitVec.ofNat 64 0 := (add_zero p).symm
  have second : p + 2 + 2 = p + BitVec.ofNat 64 4 := BitVec.add_assoc p 2 2
  have third : p + BitVec.ofNat 64 4 + 2 = p + BitVec.ofNat 64 6 := BitVec.add_assoc p 4 2
  have fourth : p + BitVec.ofNat 64 6 + 2 = p + BitVec.ofNat 64 8 := BitVec.add_assoc p 6 2
  simp only [fpuSavenv, Bool.false_eq_true, if_false, fourth, third, second]
  rw [← start]
  rfl

theorem loads_of_savenv (emu : X87) (m : Memory) (p : BitVec 64) :
    load 16 (fpuSavenv emu m p false).2 (p + BitVec.ofNat 64 0) = emu.cw ∧
    load 16 (fpuSavenv emu m p false).2 (p + BitVec.ofNat 64 4) = setTop emu.sw emu.top ∧
    load 16 (fpuSavenv emu m p false).2 (p + BitVec.ofNat 64 8) = tags emu := by
  rw [fpuSavenv_eq]
  refine ⟨?_, ?_, ?_⟩
  · iterate 4 rw [load_store_apart _ _ _ (by decide) (by decide) (by decide) (by decide)]
    exact load_store _ _ _ (by decide) (by decide)
  · iterate 2 rw [load_store_apart _ _ _ (by decide) (by decide) (by decide) (by decide)]
    exact load_store _ _ _ (by decide) (by decide)
  · exact load_store _ _ _ (by decide) (by decide)

/-- The environment ends before the registers. -/
theorem load_of_savenv (emu : X87) (m : Memory) (p : BitVec 64) {n k : Nat} (behind : 10 ≤ k) (whole : 8 ∣ n)
    (small : k + n / 8 < 2 ^ 64) :
    load n (fpuSavenv emu m p false).2 (p + BitVec.ofNat 64 k) = load n m (p + BitVec.ofNat 64 k) := by
  rw [fpuSavenv_eq]
  dsimp only
  iterate 5 rw [load_store_apart _ _ _ (Or.inr (by omega)) whole small (by decide)]

/-! ### The registers -/

theorem loadLD_of_savenv (emu : X87) (m : Memory) (ed : BitVec 64) (i : BitVec 3) :
    loadLD (fpuSavenv emu m ed false).2 (registerAt ed i) = loadLD m (registerAt ed i) := by
  have lt := i.isLt
  have upper : registerAt ed i + 8 = ed + BitVec.ofNat 64 (28 + 10 * i.toNat + 8) := by
    rw [registerAt, BitVec.ofNat_add (28 + 10 * i.toNat) 8, ← BitVec.add_assoc]
    rfl
  rw [loadLD, loadLD, upper, registerAt, load_of_savenv emu m ed (by omega) (by decide) (by omega),
    load_of_savenv emu m ed (by omega) (by decide) (by omega)]

theorem fsaveLoop_eight (emu : X87) (m : Memory) (ed : BitVec 64) (i : BitVec 3) :
    (fsaveLoop m eight (ed + 28) emu).top = emu.top ∧
      (fsaveLoop m eight (ed + 28) emu).ST i = LD2D (loadLD m (registerAt ed i)) := by
  refine ⟨rfl, ?_⟩
  simp only [eight, fsaveLoop, X87.setST, X87.ST]
  obtain rfl | rfl | rfl | rfl | rfl | rfl | rfl | rfl := eight_cases i
  all_goals
    simp [registerAt, BitVec.add_assoc]

theorem roundTrips_iff (d : BitVec 64) :
    LD2D (D2LD d) = d ↔ ¬ IsNaN d ∧ d ≠ 0x8000000000000000 ∧ ¬ IsDenormal d := by
  have either := roundTrip_iff d
  rw [not_or] at either
  by_cases nan : IsNaN d
  · refine iff_of_false ?_ (fun fine => fine.1 nan)
    intro same
    have parts := D2LD_special (fun zero => absurd (nan.1.symm.trans zero.1) (by decide)) nan.1
    have value := (D2LD d).LD2D_large (by rw [parts.exponent]; decide)
    rw [same] at value
    have fraction := nan.2
    unfold fraction64 at fraction
    omega
  · rw [or_iff_right nan] at either
    rw [either, and_iff_right nan]

theorem saves_iff (emu : X87) (m : Memory) (ed : BitVec 64) :
    Saves emu m ed ↔ ∀ i, loadLD m (registerAt ed i) = D2LD (emu.ST i) ∧
      ¬ IsNaN (emu.ST i) ∧ emu.ST i ≠ 0x8000000000000000 ∧ ¬ IsDenormal (emu.ST i) := by
  have kept (i : BitVec 3) : loadLD (armFsave emu m ed).2 (registerAt ed i) = loadLD m (registerAt ed i) :=
    loadLD_of_savenv emu m ed i
  have read (i : BitVec 3) : (armFsave emu m ed).1.ST i = LD2D (loadLD m (registerAt ed i)) := by
    rw [← kept i]
    exact (fsaveLoop_eight _ _ ed i).2
  constructor
  · rintro ⟨unchanged, written⟩ i
    have holds : loadLD m (registerAt ed i) = D2LD (emu.ST i) := (kept i).symm.trans (written i)
    refine ⟨holds, (roundTrips_iff _).mp ?_⟩
    rw [← holds, ← read i]
    exact unchanged i
  · intro all
    refine ⟨fun i => ?_, fun i => (kept i).trans (all i).1⟩
    rw [read i, (all i).1]
    exact (roundTrips_iff _).mpr (all i).2

/-- Nothing wrote to the area since it was saved. -/
def AreaKept (ed : BitVec 64) (m m' : Memory) : Prop :=
  ∀ k < 108, m' (ed + BitVec.ofNat 64 k) = m (ed + BitVec.ofNat 64 k)

theorem AreaKept.load {ed : BitVec 64} {m m' : Memory} (kept : AreaKept ed m m') {n k : Nat} (inside : k + n < 108) :
    load n m' (ed + BitVec.ofNat 64 k) = load n m (ed + BitVec.ofNat 64 k) := by
  apply load_congr
  intro i lt
  rw [byteOf, BitVec.add_assoc, ← BitVec.ofNat_add]
  exact kept _ (by omega)

theorem restoresStack_iff (saved emu : X87) {m m' : Memory} {ed : BitVec 64}
    (kept : AreaKept ed (armFsave saved m ed).2 m') :
    RestoresStack saved (armFrstor emu m' ed).1 ↔
      ∀ i, IsNormal (saved.ST i) → emu.x87 (saved.top + i) = saved.ST i := by
  obtain ⟨-, swSaved, tagsSaved⟩ := loads_of_savenv saved m ed
  have sw : load 16 m' (ed + 4) = setTop saved.sw saved.top := (kept.load (by decide)).trans swSaved
  have tagword : load 16 m' (ed + 4 + 4) = tags saved := by
    rw [BitVec.add_assoc]
    exact (kept.load (by decide)).trans tagsSaved
  have top : (armFrstor emu m' ed).1.top = saved.top := by
    rw [← topOf_setTop saved.sw saved.top, ← sw]
    rfl
  have tag : (armFrstor emu m' ed).1.tag = saved.tag := by
    funext i
    rw [← tags_get saved i, ← tagword]
    rfl
  have ST (i : BitVec 3) : (armFrstor emu m' ed).1.ST i = emu.x87 (saved.top + i) := by
    rw [X87.ST, top]
    rfl
  constructor
  · rintro ⟨-, -, normal⟩ i fine
    rw [← ST]
    exact normal i fine
  · intro all
    refine ⟨top, tag, ?_⟩
    intro i fine
    rw [ST]
    exact all i fine

/-- `arm_fsave` reads the area that it should write, and `arm_frstor` writes the one that it should read: the first is
right only where the area already holds the registers, the second only where the registers have not changed. -/
theorem fsave_frstor_iff (saved emu : X87) {m m' : Memory} {ed : BitVec 64}
    (kept : AreaKept ed (armFsave saved m ed).2 m') :
    (Saves saved m ed ↔ ∀ i, loadLD m (registerAt ed i) = D2LD (saved.ST i) ∧
      ¬ IsNaN (saved.ST i) ∧ saved.ST i ≠ 0x8000000000000000 ∧ ¬ IsDenormal (saved.ST i)) ∧
    (RestoresStack saved (armFrstor emu m' ed).1 ↔
      ∀ i, IsNormal (saved.ST i) → emu.x87 (saved.top + i) = saved.ST i) :=
  ⟨saves_iff saved m ed, restoresStack_iff saved emu kept⟩

/-- A state with one value in every register and nothing else. -/
def filled (d : BitVec 64) : X87 := ⟨fun _ => d, fun _ => 0, fun _ => 0, 0x37F, 0, 0, fun _ => 0⟩

/-- Memory with a 1.0 in each of the eight registers of an area at 0. -/
def ones : Memory := fun a => [0, 0, 0, 0, 0, 0, 0, 0x80, 0xff, 0x3f].getD ((a.toNat - 28) % 10) 0

theorem loadLD_ones (i : BitVec 3) : loadLD ones (registerAt 0 i) = D2LD 0x3ff0000000000000 := by
  have parts : ∀ i : BitVec 3, load 64 ones (registerAt 0 i) = 0x8000000000000000 ∧
      load 16 ones (registerAt 0 i + 8) = 0x3fff := by decide +kernel
  rw [loadLD, (parts i).1, (parts i).2]
  rfl

/-- Registers that hold 1.0, over an area that held it before. -/
theorem fsave_frstor_ones :
    Saves (filled 0x3ff0000000000000) ones 0 ∧ RestoresStack (filled 0x3ff0000000000000)
      (armFrstor (filled 0x3ff0000000000000) (armFsave (filled 0x3ff0000000000000) ones 0).2 0).1 := by
  have restores := fsave_frstor_iff (filled 0x3ff0000000000000) (filled 0x3ff0000000000000)
    (fun _ _ => rfl : AreaKept 0 (armFsave (filled 0x3ff0000000000000) ones 0).2 _)
  have value (i : BitVec 3) : (filled 0x3ff0000000000000).ST i = 0x3ff0000000000000 := rfl
  refine ⟨restores.1.mpr ?_, restores.2.mpr fun i _ => rfl⟩
  intro i
  rw [value]
  exact ⟨loadLD_ones i, by unfold IsNaN; decide, by decide, by unfold IsDenormal; decide⟩

theorem loadLD_zeros (p : BitVec 64) : loadLD (fun _ => 0) p = ⟨0, 0⟩ := by
  have zero (n : Nat) (a : BitVec 64) : load n (fun _ => 0) a = 0#n := by
    apply BitVec.eq_of_getLsbD_eq
    intro i lt
    rw [getLsbD_load _ _ lt]
    simp
  rw [loadLD, zero, zero]
  rfl

/-- A 1.0 in the register becomes the 0.0 of the memory that should have taken it. -/
theorem fsave_reads_memory : ¬ ∀ saved m ed, Saves saved m ed := by
  intro saves
  have holds := ((saves_iff _ _ _).mp (saves (filled 0x3ff0000000000000) (fun _ => 0) 0) 0).1
  rw [loadLD_zeros] at holds
  exact absurd (congrArg LongDouble.q holds) (by decide)

end Box64.Dynarec
