import Box64.Libtools.Scanf

/-!
# Variadic arguments from a `va_list`

The versions of `myalign.c` that take their arguments from an `x64_va_list_t`, beside those that take them from the
registers.
-/

namespace Box64.Libtools

open VarArgs

def X64_VA_MAX_REG : Nat := 6 * 8

def X64_VA_MAX_XMM : Nat := 6 * 8 + 8 * 16

/-- `x64_va_list_t`, with the words that `reg_save_area` points to. -/
structure VaList where
  gp_offset : Nat
  fp_offset : Nat
  overflow_arg_area : Nat
  reg_save_area : Nat → BitVec 64

/-- The list that `va_start` makes after `pos` integer registers and no vector register: six slots of one word, then eight
of two. -/
def vaStart (emu : X64emu) (st pos : Nat) : VaList where
  gp_offset := 8 * pos
  fp_offset := 48
  overflow_arg_area := st
  reg_save_area i :=
    if i < 6 then emu.regs (regs_abi.getD i .AX)
    else if (i - 6) % 2 = 0 then (emu.xmm ((i - 6) / 2)).setWidth 64
    else (emu.xmm ((i - 6) / 2)).extractLsb' 64 64

/-- The local variables, and what has been written to `mystack`. -/
structure ValistAlign where
  st : Nat
  mystack : Nat
  gprs : Nat
  fprs : Nat
  ign : Bool
  written : List (Nat × Slot)

section Valist

variable (area mem : Nat → BitVec 64)

namespace ValistAlign

def put (s : ValistAlign) (v : BitVec 64) : ValistAlign :=
  { s with written := s.written ++ [(s.mystack, .word v)], mystack := s.mystack + 1 }

def fetchInt (s : ValistAlign) : ValistAlign :=
  if s.gprs < X64_VA_MAX_REG then { s.put (area (s.gprs / 8)) with gprs := s.gprs + 8 }
  else { s.put (mem s.st) with st := s.st + 1 }

def fetchDouble (s : ValistAlign) : ValistAlign :=
  if s.fprs < X64_VA_MAX_XMM then { s.put (area (s.fprs / 8)) with fprs := s.fprs + 8 }
  else { s.put (mem s.st) with st := s.st + 1 }

def fetchLongDouble (s : ValistAlign) : ValistAlign :=
  let st := if s.st % 2 ≠ 0 then s.st + 1 else s.st
  let mystack := if s.mystack % 2 ≠ 0 then s.mystack + 1 else s.mystack
  { s with
    written := s.written ++ [(mystack, .longDouble (mem st) (mem (st + 1)))]
    st := st + 2
    mystack := mystack + 2 }

/-- What the `printf` versions do at an event. -/
def act : Event → ValistAlign → ValistAlign
  | .outside, s => s
  | .star, s | .integer, s => s.fetchInt area mem
  | .double, s => s.fetchDouble area mem
  | .longDouble, s => s.fetchLongDouble mem

/-- What the `scanf` versions do. -/
def actScanf : Event → ValistAlign → ValistAlign
  | .outside, s => { s with ign := false }
  | .star, s => { s with ign := true }
  | .integer, s | .double, s | .longDouble, s => if !s.ign then s.fetchInt area mem else s

end ValistAlign

/-- The variables before the loop. -/
def VaList.begin (va : VaList) (mystack : Nat) : ValistAlign :=
  ⟨va.overflow_arg_area, mystack, va.gp_offset, va.fp_offset, false, []⟩

end Valist

section Functions

variable (mem : Nat → BitVec 64)

def myStackAlignValist (fmt : Option (List Char)) (mystack : Nat) (va : VaList) : List (Nat × Slot) :=
  match fmt with
  | none => []
  | some fmt => (formatLoop (ValistAlign.act va.reg_save_area mem) fmt 0 (va.begin mystack)).written

/-- The same on wide characters, without the test for a null pointer. -/
def myStackAlignWValist (fmt : List Char) (mystack : Nat) (va : VaList) : List (Nat × Slot) :=
  (formatLoop (ValistAlign.act va.reg_save_area mem) fmt 0 (va.begin mystack)).written

def myStackAlignScanfValist (fmt : Option (List Char)) (mystack : Nat) (va : VaList) : List (Nat × Slot) :=
  match fmt with
  | none => []
  | some fmt => (formatLoop (ValistAlign.actScanf va.reg_save_area mem) fmt 0 (va.begin mystack)).written

def myStackAlignScanfWValist (fmt : Option (List Char)) (mystack : Nat) (va : VaList) : List (Nat × Slot) :=
  match fmt with
  | none => []
  | some fmt => (formatLoop (ValistAlign.actScanf va.reg_save_area mem) fmt 0 (va.begin mystack)).written

end Functions

/-! ### The two versions beside each other -/

section Agreement

variable {emu : X64emu} {mem : Nat → BitVec 64}

/-- The cursors of the two versions, after `k` doubles. -/
structure Beside (k : Nat) (s : Align) (t : ValistAlign) : Prop where
  st : t.st = s.st
  mystack : t.mystack = s.mystack
  written : t.written = s.written
  gprs : t.gprs = 8 * s.pos
  fprs : t.fprs = 48 + 8 * k
  x : s.x = k
  xmm : s.xmm + k = 8

/-- The next integer of a list that is `p` registers on. -/
theorem fetchInt_vaStart {st pos p : Nat} {t : ValistAlign} (gprs : t.gprs = 8 * p) :
    t.fetchInt (vaStart emu st pos).reg_save_area mem =
      if p < 6 then { t.put (emu.regs (regs_abi.getD p .AX)) with gprs := 8 * (p + 1) }
      else { t.put (mem t.st) with st := t.st + 1 } := by
  have left : t.gprs < X64_VA_MAX_REG ↔ p < 6 := by
    rw [gprs, X64_VA_MAX_REG]
    omega
  rw [ValistAlign.fetchInt, if_congr left rfl rfl]
  by_cases few : p < 6
  · have slot : (vaStart emu st pos).reg_save_area (8 * p / 8) = emu.regs (regs_abi.getD p .AX) := by
      rw [Nat.mul_div_cancel_left p (by decide), vaStart]
      exact if_pos few
    rw [if_pos few, if_pos few, gprs, slot]
    rfl
  · rw [if_neg few, if_neg few]

theorem Beside.fetchInt {k st pos : Nat} {s : Align} {t : ValistAlign} (beside : Beside k s t) :
    Beside k (s.fetchInt emu mem) (t.fetchInt (vaStart emu st pos).reg_save_area mem) := by
  obtain ⟨st_eq, mystack, written, gprs, fprs, x, xmm⟩ := beside
  rw [Align.fetchInt, fetchInt_vaStart gprs]
  split
  · refine ⟨st_eq, congrArg (· + 1) mystack, ?_, rfl, fprs, x, xmm⟩
    dsimp only [Align.put, ValistAlign.put]
    rw [written, mystack]
  · refine ⟨congrArg (· + 1) st_eq, congrArg (· + 1) mystack, ?_, gprs, fprs, x, xmm⟩
    dsimp only [Align.put, ValistAlign.put]
    rw [written, mystack, st_eq]

theorem Beside.act {k st pos : Nat} {s : Align} {t : ValistAlign} (beside : Beside k s t) {e : Event} (other : e ≠ .double) :
    Beside k (s.act emu mem e) (t.act (vaStart emu st pos).reg_save_area mem e) := by
  cases e with
  | outside => exact beside
  | star | integer => exact beside.fetchInt
  | double => exact absurd rfl other
  | longDouble =>
    obtain ⟨st_eq, mystack, written, gprs, fprs, x, xmm⟩ := beside
    rw [Align.act, ValistAlign.act, Align.fetchLongDouble, ValistAlign.fetchLongDouble, st_eq, mystack, written]
    exact ⟨rfl, rfl, rfl, gprs, fprs, x, xmm⟩

/-- The double at `k` of the registers, beside the word that the list is at. -/
theorem Beside.doubles {k st pos : Nat} {s : Align} {t : ValistAlign} (beside : Beside k s t) (some : k < 8) :
    (s.act emu mem .double).written = s.written ++ [(s.mystack, .word ((emu.xmm k).setWidth 64))] ∧
    (t.act (vaStart emu st pos).reg_save_area mem .double).written =
      s.written ++ [(s.mystack, .word ((vaStart emu st pos).reg_save_area (6 + k)))] := by
  obtain ⟨st_eq, mystack, written, gprs, fprs, x, xmm⟩ := beside
  have left : s.xmm ≠ 0 := by omega
  have left' : t.fprs < X64_VA_MAX_XMM := by
    rw [fprs, X64_VA_MAX_XMM]
    omega
  have word : t.fprs / 8 = 6 + k := by omega
  constructor
  · rw [Align.act, Align.fetchDouble, if_pos left, x]
    rfl
  · rw [ValistAlign.act, ValistAlign.fetchDouble, if_pos left', word, ← written, ← mystack]
    rfl

/-- The first double is the same on both sides: the low word of the first slot. -/
theorem Beside.double {st pos : Nat} {s : Align} {t : ValistAlign} (beside : Beside 0 s t) :
    Beside 1 (s.act emu mem .double) (t.act (vaStart emu st pos).reg_save_area mem .double) := by
  obtain ⟨register, slot⟩ : (s.act emu mem .double).written = _ ∧
      (t.act (vaStart emu st pos).reg_save_area mem .double).written = _ := beside.doubles (by decide)
  have same : (vaStart emu st pos).reg_save_area (6 + 0) = (emu.xmm 0).setWidth 64 := rfl
  obtain ⟨st_eq, mystack, written, gprs, fprs, x, xmm⟩ := beside
  have left : s.xmm ≠ 0 := by omega
  have left' : t.fprs < X64_VA_MAX_XMM := by
    rw [fprs]
    decide
  have acted : s.act emu mem .double = { s.put ((emu.xmm s.x).setWidth 64) with x := s.x + 1, xmm := s.xmm - 1 } := if_pos left
  have acted' : t.act (vaStart emu st pos).reg_save_area mem .double =
      { t.put ((vaStart emu st pos).reg_save_area (t.fprs / 8)) with fprs := t.fprs + 8 } := if_pos left'
  have same_written := register.trans (slot.trans (by rw [same])).symm
  rw [acted, acted'] at same_written ⊢
  refine ⟨st_eq, congrArg (· + 1) mystack, same_written.symm, gprs, congrArg (· + 8) fprs, congrArg (· + 1) x, ?_⟩
  dsimp only
  omega

theorem Beside.foldl {k st pos : Nat} {s : Align} {t : ValistAlign} (beside : Beside k s t) {es : List Event}
    (none : .double ∉ es) : Beside k (es.foldl (fun s e => s.act emu mem e) s)
      (es.foldl (fun t e => t.act (vaStart emu st pos).reg_save_area mem e) t) := by
  induction es generalizing s t with
  | nil => exact beside
  | cons e es ih =>
    obtain ⟨other, later⟩ := List.ne_and_not_mem_of_not_mem_cons none
    exact ih (beside.act other.symm) later

theorem Beside.once {st pos : Nat} {s : Align} {t : ValistAlign} (beside : Beside 0 s t) {front back : List Event}
    (front_none : .double ∉ front) (back_none : .double ∉ back) :
    Beside 1 ((front ++ .double :: back).foldl (fun s e => s.act emu mem e) s)
      ((front ++ .double :: back).foldl (fun t e => t.act (vaStart emu st pos).reg_save_area mem e) t) := by
  rw [List.foldl_append, List.foldl_append, List.foldl_cons, List.foldl_cons]
  exact (beside.foldl front_none).double.foldl back_none

theorem Align.act_grows (e : Event) (s : Align) : s.written <+: (s.act emu mem e).written := by
  cases e with
  | outside => exact List.prefix_refl _
  | star | integer =>
    rw [act, fetchInt]
    split <;> exact List.prefix_append _ _
  | double =>
    rw [act, fetchDouble]
    split <;> exact List.prefix_append _ _
  | longDouble => exact List.prefix_append _ _

theorem ValistAlign.act_grows {area : Nat → BitVec 64} (e : Event) (t : ValistAlign) :
    t.written <+: (t.act area mem e).written := by
  cases e with
  | outside => exact List.prefix_refl _
  | star | integer =>
    rw [act, fetchInt]
    split <;> exact List.prefix_append _ _
  | double =>
    rw [act, fetchDouble]
    split <;> exact List.prefix_append _ _
  | longDouble => exact List.prefix_append _ _

theorem foldl_grows {σ : Type} {act : Event → σ → σ} {written : σ → List (Nat × Slot)}
    (grows : ∀ e s, written s <+: written (act e s)) (es : List Event) (s : σ) :
    written s <+: written (es.foldl (fun s e => act e s) s) := by
  induction es generalizing s with
  | nil => exact List.prefix_refl _
  | cons e es ih => exact (grows e s).trans (ih (act e s))

/-- With a second double the first slot's high word is taken for the second register. -/
theorem Beside.second {st pos : Nat} {s : Align} {t : ValistAlign} (beside : Beside 1 s t) {back : List Event}
    (agree : ((Event.double :: back).foldl (fun s e => s.act emu mem e) s).written =
      ((Event.double :: back).foldl (fun t e => t.act (vaStart emu st pos).reg_save_area mem e) t).written) :
    (emu.xmm 1).setWidth 64 = (emu.xmm 0).extractLsb' 64 64 := by
  obtain ⟨register, slot⟩ : (s.act emu mem .double).written = _ ∧
      (t.act (vaStart emu st pos).reg_save_area mem .double).written = _ := beside.doubles (by decide)
  obtain ⟨rest, later⟩ := register ▸ foldl_grows Align.act_grows back (s.act emu mem .double)
  obtain ⟨rest', later'⟩ := slot ▸ foldl_grows ValistAlign.act_grows back
    (t.act (vaStart emu st pos).reg_save_area mem .double)
  rw [List.foldl_cons, List.foldl_cons, ← later, ← later', List.append_assoc, List.append_assoc] at agree
  obtain ⟨same, -⟩ := List.cons.inj (List.append_cancel_left agree)
  exact Slot.word.inj (Prod.mk.inj same).2

theorem Beside.twice {st pos : Nat} {s : Align} {t : ValistAlign} (beside : Beside 0 s t) {front between rest : List Event}
    (front_none : .double ∉ front) (between_none : .double ∉ between)
    (agree : ((front ++ .double :: between ++ .double :: rest).foldl (fun s e => s.act emu mem e) s).written =
      ((front ++ .double :: between ++ .double :: rest).foldl
        (fun t e => t.act (vaStart emu st pos).reg_save_area mem e) t).written) :
    (emu.xmm 1).setWidth 64 = (emu.xmm 0).extractLsb' 64 64 := by
  have cut {σ : Type} (act : σ → Event → σ) (s : σ) := @List.foldl_append _ _ act s (front ++ .double :: between) (.double :: rest)
  rw [cut, cut] at agree
  exact (beside.once front_none between_none).second agree

end Agreement

section Pairs

/-- Registers that tell the second double from the high word of the first. -/
def apart : X64emu where
  regs _ := 0
  xmm i := if i = 1 then 1 else 0

variable {es : List Event} {st mystack pos : Nat}

theorem start_beside (emu : X64emu) : Beside 0 (⟨0, st, mystack, 0, 8, pos, []⟩ : Align)
    ((vaStart emu st pos).begin mystack) :=
  ⟨rfl, rfl, rfl, rfl, rfl, rfl, rfl⟩

theorem folds_agree_iff : (∀ (emu : X64emu) (mem : Nat → BitVec 64),
      (es.foldl (fun t e => t.act (vaStart emu st pos).reg_save_area mem e) ((vaStart emu st pos).begin mystack)).written =
        (es.foldl (fun s e => s.act emu mem e) (⟨0, st, mystack, 0, 8, pos, []⟩ : Align)).written) ↔
    es.count .double ≤ 1 := by
  by_cases member : .double ∈ es
  · obtain ⟨front, back, rfl, front_none⟩ := List.eq_append_cons_of_mem member
    have count : (front ++ Event.double :: back).count .double = back.count .double + 1 := by
      rw [List.count_append, List.count_eq_zero_of_not_mem front_none, List.count_cons_self, Nat.zero_add]
    rw [count]
    constructor
    · intro agree
      by_contra more
      have member : Event.double ∈ back := List.count_pos_iff.mp (by omega)
      obtain ⟨between, rest, rfl, between_none⟩ := List.eq_append_cons_of_mem member
      have agree := (agree apart fun _ => 0).symm
      rw [← List.cons_append, ← List.append_assoc] at agree
      exact absurd ((start_beside apart).twice front_none between_none agree) (by decide)
    · intro last emu mem
      have back_none : Event.double ∉ back := List.count_eq_zero.mp (by omega)
      exact ((start_beside emu).once front_none back_none).written
  · refine iff_of_true (fun emu mem => ?_) (by rw [List.count_eq_zero_of_not_mem member]; decide)
    exact ((start_beside emu).foldl member).written

/-- The cursors of the two `scanf` versions. -/
structure ScanfBeside (s : ScanfAlign) (t : ValistAlign) : Prop where
  st : t.st = s.st
  mystack : t.mystack = s.mystack
  ign : t.ign = s.ign
  written : t.written = s.written
  gprs : t.gprs = 8 * s.pos

theorem ScanfBeside.fetch {emu : X64emu} {mem : Nat → BitVec 64} {s : ScanfAlign} {t : ValistAlign}
    (beside : ScanfBeside s t) :
    ScanfBeside (s.fetch emu mem) (t.fetchInt (vaStart emu st pos).reg_save_area mem) := by
  obtain ⟨st_eq, mystack, ign, written, gprs⟩ := beside
  rw [ScanfAlign.fetch, fetchInt_vaStart gprs]
  split
  · refine ⟨st_eq, congrArg (· + 1) mystack, ign, ?_, rfl⟩
    dsimp only [ScanfAlign.put, ValistAlign.put]
    rw [written, mystack]
  · refine ⟨congrArg (· + 1) st_eq, congrArg (· + 1) mystack, ign, ?_, gprs⟩
    dsimp only [ScanfAlign.put, ValistAlign.put]
    rw [written, mystack, st_eq]

theorem ScanfBeside.act {emu : X64emu} {mem : Nat → BitVec 64} (e : Event) (s : ScanfAlign) (t : ValistAlign)
    (beside : ScanfBeside s t) :
    ScanfBeside (s.act emu mem e) (t.actScanf (vaStart emu st pos).reg_save_area mem e) := by
  cases e with
  | outside => exact ⟨beside.st, beside.mystack, rfl, beside.written, beside.gprs⟩
  | star => exact ⟨beside.st, beside.mystack, rfl, beside.written, beside.gprs⟩
  | integer | double | longDouble =>
    rw [ScanfAlign.act, ValistAlign.actScanf, beside.ign]
    split
    · exact beside.fetch
    · exact beside

theorem scanf_agrees (fmt : List Char) (emu : X64emu) (mem : Nat → BitVec 64) :
    (formatLoop (ValistAlign.actScanf (vaStart emu st pos).reg_save_area mem) fmt 0
      ((vaStart emu st pos).begin mystack)).written =
    (formatLoop (ScanfAlign.act emu mem) fmt 0 ⟨st, mystack, pos, false, []⟩).written := by
  have start : ScanfBeside ⟨st, mystack, pos, false, []⟩ ((vaStart emu st pos).begin mystack) :=
    ⟨rfl, rfl, rfl, rfl, rfl⟩
  exact (formatLoop_related ScanfBeside.act fmt 0 start).written

theorem printf_agrees_iff (fmt : List Char) (st mystack pos : Nat) : (∀ (emu : X64emu) (mem : Nat → BitVec 64),
      (formatLoop (ValistAlign.act (vaStart emu st pos).reg_save_area mem) fmt 0
        ((vaStart emu st pos).begin mystack)).written =
      (Align.loop emu mem fmt ⟨0, st, mystack, 0, 8, pos, []⟩).written) ↔
    (events fmt).count .double ≤ 1 := by
  rw [← @folds_agree_iff _ st mystack pos]
  refine forall₂_congr fun emu mem => ?_
  rw [formatLoop_eq, loop_written_eq emu mem fmt _ rfl]

/-- Of the four pairs, the `scanf` ones always agree, and the `printf` ones as long as the format takes no second number
from the vector registers. -/
theorem valist_agrees_iff (fmt : List Char) (st mystack pos : Nat) :
    ((∀ (emu : X64emu) (mem : Nat → BitVec 64),
      myStackAlignValist mem (some fmt) mystack (vaStart emu st pos) =
        myStackAlign emu mem (some fmt) st mystack 8 pos) ↔ (events fmt).count .double ≤ 1) ∧
    ((∀ (emu : X64emu) (mem : Nat → BitVec 64),
      myStackAlignWValist mem fmt mystack (vaStart emu st pos) = myStackAlignW emu mem fmt st mystack 8 pos) ↔
        (events fmt).count .double ≤ 1) ∧
    ∀ (emu : X64emu) (mem : Nat → BitVec 64),
      myStackAlignScanfValist mem (some fmt) mystack (vaStart emu st pos) =
        myStackAlignScanf emu mem (some fmt) st mystack pos ∧
      myStackAlignScanfWValist mem (some fmt) mystack (vaStart emu st pos) =
        myStackAlignScanfW emu mem (some fmt) st mystack pos :=
  ⟨printf_agrees_iff fmt st mystack pos, printf_agrees_iff fmt st mystack pos,
    fun emu mem => ⟨scanf_agrees fmt emu mem, scanf_agrees fmt emu mem⟩⟩

theorem events_two_doubles : events ['%', 'f', '%', 'f'] = [.outside, .double, .outside, .double] := by
  have percent (l : List Event) (rest : List Char) : formatLoop (fun e l => l ++ [e]) ('%' :: rest) 0 l =
      formatLoop (fun e l => l ++ [e]) rest 1 (l ++ [.outside]) :=
    formatLoop_next _ (rfl : turn '%' 0 = (1, true, some .outside)) rest l
  have double (l : List Event) (rest : List Char) : formatLoop (fun e l => l ++ [e]) ('f' :: rest) 1 l =
      formatLoop (fun e l => l ++ [e]) rest 0 (l ++ [.double]) :=
    (formatLoop_again _ (rfl : turn 'f' 1 = (11, false, none)) rest l).trans
      (formatLoop_next _ (rfl : turn 'f' 11 = (0, true, some .double)) rest l)
  rw [events, percent, double, percent, double, formatLoop]
  rfl

theorem valist_second_double : ¬ ∀ (fmt : List Char) (emu : X64emu) (mem : Nat → BitVec 64) (st mystack pos : Nat),
    pos ≤ 6 → myStackAlignValist mem (some fmt) mystack (vaStart emu st pos) =
      myStackAlign emu mem (some fmt) st mystack 8 pos := by
  intro agree
  have agrees : (formatLoop (ValistAlign.act _ _) ['%', 'f', '%', 'f'] 0 _).written =
      (Align.loop _ _ ['%', 'f', '%', 'f'] _).written :=
    agree ['%', 'f', '%', 'f'] apart (fun _ => 0) 0 0 1 (by decide)
  rw [formatLoop_eq, loop_written_eq _ _ _ _ rfl, events_two_doubles] at agrees
  exact absurd agrees (by decide)

end Pairs

end Box64.Libtools
