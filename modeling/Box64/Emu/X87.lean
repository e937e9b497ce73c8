import Mathlib.Data.BitVec
import Mathlib.Logic.Function.Basic

/-!
# The `x87` state and its save areas

The registers, the environment that `fpu_savenv` and `fpu_loadenv` move, and the areas of `FXSAVE` and `FXRSTOR`.
-/

namespace Box64.Emu

open Function (update)

/-- The part of `x64emu_t` that the areas hold. A tag is `0b00` for a full register and `0b11` for an empty one. -/
structure X87 where
  x87 : BitVec 3 → BitVec 64
  mmx : BitVec 3 → BitVec 64
  xmm : BitVec 4 → BitVec 128
  cw : BitVec 16
  sw : BitVec 16
  top : BitVec 3
  tag : BitVec 3 → BitVec 2

/-- `for(int i=0; i<8; ++i)` -/
def eight : List (BitVec 3) := [0, 1, 2, 3, 4, 5, 6, 7]

/-- `sw.f.F87_TOP` -/
def topOf (sw : BitVec 16) : BitVec 3 := sw.extractLsb' 11 3

/-- `sw.f.F87_TOP = top` -/
def setTop (sw : BitVec 16) (top : BitVec 3) : BitVec 16 := (sw &&& ~~~(0x3800 : BitVec 16)) ||| (top.setWidth 16 <<< 11)

namespace X87

def ST (emu : X87) (i : BitVec 3) : BitVec 64 := emu.x87 (emu.top + i)

def setST (emu : X87) (i : BitVec 3) (q : BitVec 64) : X87 := { emu with x87 := update emu.x87 (emu.top + i) q }

def setMmx (emu : X87) (i : BitVec 3) (q : BitVec 64) : X87 := { emu with mmx := update emu.mmx i q }

/-- How many registers of the area are of the stack; with `top` at 0 the first tag decides. -/
def stack (emu : X87) : Nat := if emu.top = 0 then if emu.tag 0 ≠ 0 then 8 else 0 else 8 - emu.top.toNat

end X87

/-- The fields that `xsave32_t` and `xsave64_t` share. -/
structure Xsave where
  ControlWord : BitVec 16
  StatusWord : BitVec 16
  TagWord : BitVec 8
  ErrorOpcode : BitVec 16
  MxCsr : BitVec 32
  MxCsr_Mask : BitVec 32
  FloatRegisters : BitVec 3 → BitVec 64 × BitVec 64
  XmmRegisters : BitVec 4 → BitVec 128

structure Xsave32 extends Xsave where
  ErrorOffset : BitVec 32
  ErrorSelector : BitVec 16
  DataOffset : BitVec 32
  DataSelector : BitVec 16

structure Xsave64 extends Xsave where
  ErrorOffset : BitVec 64
  DataOffset : BitVec 64

section Areas

variable (emu : X87)

/-- The tags as the area holds them. -/
def tagWord : BitVec 8 :=
  eight.foldl (fun tags i => tags ||| if (emu.tag i).setWidth 32 <<< (i.toNat * 2) = 0b11 then 0 else 1) 0

def fxsave (p : Xsave) : X87 × Xsave :=
  let sw := setTop emu.sw emu.top
  ({ emu with sw },
    { p with
      ControlWord := emu.cw, StatusWord := sw, TagWord := tagWord emu, ErrorOpcode := 0, MxCsr := 0, MxCsr_Mask := 0
      FloatRegisters := fun i => (if i.toNat < emu.stack then emu.ST i else emu.mmx i, (p.FloatRegisters i).2)
      XmmRegisters := emu.xmm })

def fpuFxsave32 (p : Xsave32) : X87 × Xsave32 :=
  let (emu, q) := fxsave emu p.toXsave
  (emu, { q with ErrorOffset := 0, ErrorSelector := 0, DataOffset := 0, DataSelector := 0 })

def fpuFxsave64 (p : Xsave64) : X87 × Xsave64 :=
  let (emu, q) := fxsave emu p.toXsave
  (emu, { q with ErrorOffset := 0, DataOffset := 0 })

/-- The registers of the area go where `stack` says. -/
def copyBack (stack : Nat) (p : Xsave) : List (BitVec 3) → X87 → X87
  | [], emu => emu
  | i :: rest, emu =>
    copyBack stack p rest (if i.toNat < stack then emu.setST i (p.FloatRegisters i).1 else emu.setMmx i (p.FloatRegisters i).1)

def loadWords (p : Xsave) : X87 :=
  { emu with
    cw := p.ControlWord, sw := p.StatusWord, top := topOf p.StatusWord
    tag := fun i => if p.TagWord >>> (i.toNat * 2) ≠ 0 then 0 else 0b11 }

def fxrstor (p : Xsave) : X87 :=
  { copyBack (loadWords emu p).stack p eight (loadWords emu p) with xmm := p.XmmRegisters }

def fpuFxrstor32 (p : Xsave32) : X87 := fxrstor emu p.toXsave

def fpuFxrstor64 (p : Xsave64) : X87 := fxrstor emu p.toXsave

end Areas

/-- `emu` has the registers and words of `saved`, whose status word shows its `top`. -/
structure X87.Restores (saved emu : X87) : Prop where
  cw : emu.cw = saved.cw
  sw : emu.sw = setTop saved.sw saved.top
  top : emu.top = saved.top
  tags : ∀ i, emu.tag i = 0b11 ↔ saved.tag i = 0b11
  x87 : emu.x87 = saved.x87
  xmm : emu.xmm = saved.xmm

/-! ### What is restored -/

theorem topOf_setTop (sw : BitVec 16) (top : BitVec 3) : topOf (setTop sw top) = top := by
  have cleared : (~~~(0x3800 : BitVec 16)).extractLsb' 11 3 = 0 := by decide
  have shifted : (top.setWidth 16 <<< 11 : BitVec 16).extractLsb' 11 3 = top := by
    revert top
    decide
  rw [topOf, setTop, BitVec.extractLsb'_or, BitVec.extractLsb'_and, cleared, shifted]
  exact (congrArg (· ||| top) BitVec.and_zero).trans BitVec.zero_or

theorem shifted_tag_ne {i : BitVec 3} (later : i ≠ 0) (tag : BitVec 2) :
    ¬ tag.setWidth 32 <<< (i.toNat * 2) = (0b11 : BitVec 32) := by
  revert i tag
  decide

/-- A tag that is shifted is never `0b11`, so that the bit of every register is set in the lowest bit. -/
theorem tagWord_eq (emu : X87) : tagWord emu = 1 := by
  have bit (i : BitVec 3) (later : i ≠ 0) :
      (if (emu.tag i).setWidth 32 <<< (i.toNat * 2) = (0b11 : BitVec 32) then 0 else 1 : BitVec 8) = 1 :=
    if_neg (shifted_tag_ne later _)
  simp only [tagWord, eight, List.foldl, bit 1 (by decide), bit 2 (by decide), bit 3 (by decide), bit 4 (by decide),
    bit 5 (by decide), bit 6 (by decide), bit 7 (by decide)]
  split <;> rfl

section CopyBack

variable {stack : Nat} {p : Xsave} {l : List (BitVec 3)} {emu : X87}

theorem copyBack_words : (copyBack stack p l emu).cw = emu.cw ∧ (copyBack stack p l emu).sw = emu.sw ∧
    (copyBack stack p l emu).top = emu.top ∧ (copyBack stack p l emu).tag = emu.tag := by
  induction l generalizing emu with
  | nil => exact ⟨rfl, rfl, rfl, rfl⟩
  | cons i rest ih =>
    rw [copyBack]
    split
    · exact ih
    · exact ih

theorem copyBack_x87 (j : BitVec 3) : (copyBack stack p l emu).x87 j =
    if j - emu.top ∈ l ∧ (j - emu.top).toNat < stack then (p.FloatRegisters (j - emu.top)).1 else emu.x87 j := by
  induction l generalizing emu with
  | nil => simp [copyBack]
  | cons i rest ih =>
    rw [copyBack, ih]
    by_cases onStack : i.toNat < stack
    · simp only [if_pos onStack, X87.setST]
      by_cases same : j - emu.top = i
      · have back : emu.top + i = j := by rw [← same, BitVec.add_comm, BitVec.sub_add_cancel]
        rw [same, back, Function.update_self, ite_self, if_pos ⟨List.mem_cons_self, onStack⟩]
      · have other : j ≠ emu.top + i := fun eq => same (by rw [eq, BitVec.add_comm, BitVec.add_sub_cancel])
        rw [Function.update_of_ne other]
        simp only [List.mem_cons, same, false_or]
    · simp only [if_neg onStack, X87.setMmx]
      by_cases same : j - emu.top = i
      · rw [same, if_neg fun stays => onStack stays.2, if_neg fun stays => onStack stays.2]
      · simp only [List.mem_cons, same, false_or]

end CopyBack

theorem mem_eight (i : BitVec 3) : i ∈ eight := by
  revert i
  decide

theorem onStack_iff {top : BitVec 3} (some : top ≠ 0) (j : BitVec 3) : (j - top).toNat < 8 - top.toNat ↔ ¬ j < top := by
  revert top j
  decide

theorem restored_tag (i : BitVec 3) : (if (1 : BitVec 8) >>> (i.toNat * 2) ≠ 0 then 0 else 0b11 : BitVec 2) =
    if i = 0 then 0 else 0b11 := by
  revert i
  decide

section RoundTrip

variable (saved emu : X87) (p : Xsave)

theorem loadWords_tag (i : BitVec 3) : (loadWords emu (fxsave saved p).2).tag i = if i = 0 then 0 else 0b11 := by
  rw [← restored_tag, ← tagWord_eq saved]
  rfl

theorem loadWords_top : (loadWords emu (fxsave saved p).2).top = saved.top := topOf_setTop saved.sw saved.top

theorem fxrstor_tag (i : BitVec 3) : (fxrstor emu (fxsave saved p).2).tag i = if i = 0 then 0 else 0b11 :=
  (congrFun copyBack_words.2.2.2 i).trans (loadWords_tag saved emu p i)

theorem fxrstor_top : (fxrstor emu (fxsave saved p).2).top = saved.top :=
  copyBack_words.2.2.1.trans (loadWords_top saved emu p)

/-- With `top` at 0 the first tag, which is always full, sends every register to `mmx`. -/
theorem fxrstor_x87 (j : BitVec 3) : (fxrstor emu (fxsave saved p).2).x87 j =
    if saved.top = 0 ∨ j < saved.top then emu.x87 j else saved.x87 j := by
  refine (copyBack_x87 j).trans ?_
  rw [loadWords_top]
  by_cases zero : saved.top = 0
  · have none : (loadWords emu (fxsave saved p).2).stack = 0 := by
      rw [X87.stack, loadWords_top, if_pos zero, loadWords_tag]
      rfl
    rw [none, if_neg fun stays => absurd stays.2 (Nat.not_lt_zero _), if_pos (Or.inl zero)]
    rfl
  · have some : (loadWords emu (fxsave saved p).2).stack = 8 - saved.top.toNat := by
      rw [X87.stack, loadWords_top, if_neg zero]
    have within := onStack_iff zero j
    rw [some]
    by_cases below : j < saved.top
    · rw [if_neg fun stays => within.mp stays.2 below, if_pos (Or.inr below)]
      rfl
    · have stack : saved.stack = 8 - saved.top.toNat := by rw [X87.stack, if_neg zero]
      have back : saved.top + (j - saved.top) = j := by rw [BitVec.add_comm, BitVec.sub_add_cancel]
      rw [if_pos ⟨mem_eight _, within.mpr below⟩, if_neg (not_or.mpr ⟨zero, below⟩)]
      change (if (j - saved.top).toNat < saved.stack then saved.ST (j - saved.top) else saved.mmx (j - saved.top)) = _
      rw [stack, if_pos (within.mpr below), X87.ST, back]

theorem fxsave_fxrstor_iff :
    saved.Restores (fxrstor emu (fxsave saved p).2) ↔
      (saved.tag 0 ≠ 0b11 ∧ ∀ i ≠ 0, saved.tag i = 0b11) ∧
        ∀ j, saved.top = 0 ∨ j < saved.top → emu.x87 j = saved.x87 j := by
  constructor
  · rintro ⟨-, -, -, tags, x87, -⟩
    refine ⟨⟨?_, ?_⟩, ?_⟩
    · rw [ne_eq, ← tags, fxrstor_tag, if_pos rfl]
      decide
    · intro i later
      rw [← tags, fxrstor_tag, if_neg later]
    · intro j missed
      have same := congrFun x87 j
      rw [fxrstor_x87, if_pos missed] at same
      exact same
  · rintro ⟨⟨first, others⟩, kept⟩
    refine ⟨copyBack_words.1, copyBack_words.2.1, fxrstor_top saved emu p, ?_, ?_, rfl⟩
    · intro i
      rw [fxrstor_tag]
      split
      case isTrue zero =>
        subst zero
        exact iff_of_false (by decide) first
      case isFalse later => exact iff_of_true rfl (others i later)
    · funext j
      rw [fxrstor_x87]
      split
      case isTrue missed => exact kept j missed
      case isFalse => rfl

end RoundTrip

/-- What `FXRSTOR` makes of the area of `FXSAVE`, in both sizes: right if the first tag alone is full and the registers
below `top` (all of them at 0) had not changed. -/
theorem fxsave_restores_iff (saved emu : X87) (p32 : Xsave32) (p64 : Xsave64) :
    (saved.Restores (fpuFxrstor64 emu (fpuFxsave64 saved p64).2) ↔
      (saved.tag 0 ≠ 0b11 ∧ ∀ i ≠ 0, saved.tag i = 0b11) ∧
        ∀ j, saved.top = 0 ∨ j < saved.top → emu.x87 j = saved.x87 j) ∧
    (saved.Restores (fpuFxrstor32 emu (fpuFxsave32 saved p32).2) ↔
      (saved.tag 0 ≠ 0b11 ∧ ∀ i ≠ 0, saved.tag i = 0b11) ∧
        ∀ j, saved.top = 0 ∨ j < saved.top → emu.x87 j = saved.x87 j) :=
  ⟨fxsave_fxrstor_iff saved emu p64.toXsave, fxsave_fxrstor_iff saved emu p32.toXsave⟩

/-- The state after `FNINIT`, whose tags are all empty: the first comes back full. -/
theorem fxsave_fills_tag :
    ¬ ∀ saved emu p, X87.Restores saved (fpuFxrstor64 emu (fpuFxsave64 saved p).2) := by
  intro right
  have restores := right ⟨fun _ => 0, fun _ => 0, fun _ => 0, 0x37F, 0, 0, fun _ => 0b11⟩
    ⟨fun _ => 0, fun _ => 0, fun _ => 0, 0x37F, 0, 0, fun _ => 0b11⟩
    ⟨⟨0, 0, 0, 0, 0, 0, fun _ => (0, 0), fun _ => 0⟩, 0, 0⟩
  exact absurd ((restores.tags 0).mpr rfl) (by decide)

end Box64.Emu
