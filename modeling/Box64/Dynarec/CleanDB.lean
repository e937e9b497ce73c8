import Box64.Dynarec.DynamapInvariant

/-!
# Self-modifying code

Which blocks `cleanDBFromAddressRange` marks. A write to `[addr, addr+size)` should leave every
block that overlaps it marked and out of the jump table. The walk only starts from zones that own
a `direct[]` array, and only goes back to the `minstart` of such a zone.
-/

namespace Box64.Dynarec
open Custommem
open Function (update)

variable {nativeNext : Addr}

/-! ### What marking changes -/

/-- `t` is `s` with the blocks of `M` marked as well. -/
structure Marks (s t : Dynamap) (M : Nat → Prop) : Prop where
  dynmap : t.dynmap = s.dynmap
  fresh : t.fresh = s.fresh
  same : ∀ q, ∃ b, t.blocks q = { s.blocks q with needTest := b }
  test : ∀ q, (t.blocks q).needTest = true ↔ (s.blocks q).needTest = true ∨ M q

theorem Marks.refl (s : Dynamap) : Marks s s fun _ => False :=
  ⟨rfl, rfl, fun q => ⟨(s.blocks q).needTest, rfl⟩, fun _ => (or_false _).symm ▸ Iff.rfl⟩

theorem Marks.trans {s t u : Dynamap} {M N : Nat → Prop} (h : Marks s t M) (k : Marks t u N) :
    Marks s u fun q => M q ∨ N q := by
  refine ⟨k.dynmap.trans h.dynmap, k.fresh.trans h.fresh, fun q => ?_, fun q => ?_⟩
  · obtain ⟨b, hb⟩ := h.same q
    obtain ⟨c, hc⟩ := k.same q
    exact ⟨c, by rw [hc, hb]⟩
  · rw [k.test, h.test, or_assoc]

theorem Marks.congr {s t : Dynamap} {M N : Nat → Prop} (h : Marks s t M) (same : ∀ q, M q ↔ N q) :
    Marks s t N := by
  obtain rfl : M = N := funext fun q => propext (same q)
  exact h

theorem Marks.fatherOf {s t : Dynamap} {M : Nat → Prop} (h : Marks s t M) (p : Nat) :
    fatherOf t p = fatherOf s p := by
  obtain ⟨b, hb⟩ := h.same p
  rw [Dynarec.fatherOf, Dynarec.fatherOf, hb]

theorem Marks.markTest {s t : Dynamap} {M : Nat → Prop} (h : Marks s t M) (p : Nat) (addr : Addr)
    (size : BitVec 64) : markTest (t.blocks p) addr size = markTest (s.blocks p) addr size := by
  obtain ⟨b, hb⟩ := h.same p
  rw [hb]
  rfl

/-- A fold whose steps each mark a set of blocks marks all of them. -/
theorem foldl_marks {α : Type} {f : Dynamap → α → Dynamap} {M : α → Nat → Prop} {s : Dynamap} (l : List α)
    (step : ∀ a ∈ l, ∀ t N, WellFormed nativeNext t → Marks s t N →
      WellFormed nativeNext (f t a) ∧ Marks t (f t a) (M a))
    (wf : WellFormed nativeNext s) :
    WellFormed nativeNext (l.foldl f s) ∧ Marks s (l.foldl f s) fun q => ∃ a ∈ l, M a q := by
  have go : ∀ (l' : List α) (t : Dynamap) (N : Nat → Prop), (∀ a ∈ l', a ∈ l) → WellFormed nativeNext t →
      Marks s t N → WellFormed nativeNext (l'.foldl f t) ∧
        Marks s (l'.foldl f t) fun q => N q ∨ ∃ a ∈ l', M a q := by
    intro l'
    induction l' with
    | nil =>
      intro t N _ wf marks
      exact ⟨wf, marks.congr fun q => by simp⟩
    | cons a rest ih =>
      intro t N sub wf marks
      obtain ⟨wf', marks'⟩ := step a (sub a List.mem_cons_self) t N wf marks
      obtain ⟨wf'', marks''⟩ := ih _ _ (fun b hb => sub b (List.mem_cons_of_mem _ hb)) wf' (marks.trans marks')
      exact ⟨wf'', marks''.congr fun q => by simp [or_assoc]⟩
  obtain ⟨wf', marks⟩ := go l s _ (fun _ h => h) wf (Marks.refl s)
  exact ⟨wf', marks.congr fun q => by simp⟩

theorem setDefaults_entry {s : Dynamap} (tables : JumpTable.WellFormed nativeNext s.jmptbl) (l : List Nat) :
    JumpTable.WellFormed nativeNext (l.foldl (setDefault nativeNext) s).jmptbl ∧
      (l.foldl (setDefault nativeNext) s).dynmap = s.dynmap ∧
      (l.foldl (setDefault nativeNext) s).blocks = s.blocks ∧
      (l.foldl (setDefault nativeNext) s).fresh = s.fresh ∧
      ∀ a, (s.jmptbl.entry a = nativeNext ∨ ∃ p ∈ l, (s.blocks p).x64Addr = a) →
        (l.foldl (setDefault nativeNext) s).jmptbl.entry a = nativeNext := by
  induction l generalizing s with
  | nil => exact ⟨tables, rfl, rfl, rfl, fun a h => by simpa using h⟩
  | cons p rest ih =>
    obtain ⟨tables', dynmap, blocks, fresh, entry⟩ := ih (s := setDefault nativeNext s p)
      (JumpTable.setJumpTableDefault64_wellFormed tables _)
    refine ⟨tables', dynmap, blocks, fresh, fun a h => entry a ?_⟩
    have here := JumpTable.entry_setJumpTableDefault64 tables (s.blocks p).x64Addr a
    by_cases same : a = (s.blocks p).x64Addr
    · left
      rw [if_pos same] at here
      exact here
    · rw [if_neg same] at here
      rcases h with old | ⟨q, mem, at_⟩
      · left
        exact here.trans old
      · rcases List.mem_cons.mp mem with rfl | mem
        · exact absurd at_.symm same
        · exact Or.inr ⟨q, mem, at_⟩

theorem markDynablock_spec {s : Dynamap} {p : Nat} (wf : WellFormed nativeNext s) (below : p < s.fresh) :
    WellFormed nativeNext (markDynablock nativeNext s p) ∧
      Marks s (markDynablock nativeNext s p) fun q => q = fatherOf s p := by
  have father : fatherOf s p < s.fresh ∧ (s.blocks (fatherOf s p)).father = none := by
    unfold fatherOf
    cases h : (s.blocks p).father with
    | none => exact ⟨below, h⟩
    | some f => exact wf.father p f below h
  obtain ⟨belowF, top⟩ := father
  unfold markDynablock
  dsimp only
  generalize fatherOf s p = db at belowF top
  split
  case isTrue already =>
    refine ⟨wf, (Marks.refl s).dynmap, rfl, (Marks.refl s).same, fun q => ?_⟩
    constructor
    · exact Or.inl
    · rintro (h | rfl)
      · exact h
      · exact already
  case isFalse =>
    generalize hu : setDefault nativeNext (setBlock s db fun b => { b with needTest := true }) db = u
    have blocks : u.blocks = update s.blocks db { s.blocks db with needTest := true } := by rw [← hu]; rfl
    have own : u.jmptbl.entry (s.blocks db).x64Addr = nativeNext := by
      have := JumpTable.entry_setJumpTableDefault64 wf.tables (s.blocks db).x64Addr (s.blocks db).x64Addr
      rw [if_pos rfl] at this
      rw [← hu]
      simpa [setDefault] using this
    have older : ∀ a, s.jmptbl.entry a = nativeNext → u.jmptbl.entry a = nativeNext := by
      intro a default
      rw [← hu]
      exact (JumpTable.entry_setJumpTableDefault64 wf.tables _ a).trans (by rw [default, ite_self])
    have tables : JumpTable.WellFormed nativeNext u.jmptbl := by
      rw [← hu]
      exact JumpTable.setJumpTableDefault64_wellFormed wf.tables _
    obtain ⟨tables', dynmap', blocks', fresh', entry⟩ := setDefaults_entry tables (u.blocks db).sons
    have dynmap : u.dynmap = s.dynmap := by rw [← hu]; rfl
    have fresh : u.fresh = s.fresh := by rw [← hu]; rfl
    generalize (u.blocks db).sons.foldl (setDefault nativeNext) u = v at *
    have vblocks : v.blocks = update s.blocks db { s.blocks db with needTest := true } := blocks'.trans blocks
    have keep : ∀ q, (v.blocks q).x64Addr = (s.blocks q).x64Addr ∧ (v.blocks q).sons = (s.blocks q).sons ∧
        (v.blocks q).father = (s.blocks q).father := by
      intro q
      rw [vblocks]
      by_cases same : q = db
      · subst same; simp
      · simp [same]
    have ka := fun q => (keep q).1
    have ks := fun q => (keep q).2.1
    have kf := fun q => (keep q).2.2
    have vdynmap : v.dynmap = s.dynmap := dynmap'.trans dynmap
    have vfresh : v.fresh = s.fresh := fresh'.trans fresh
    refine ⟨⟨tables', ?_, ?_, ?_, ?_, ?_, ?_⟩, vdynmap, vfresh, fun q => ?_, fun q => ?_⟩
    · rw [vdynmap]; exact wf.zones
    · simp only [vdynmap, vfresh, ka]; exact wf.slots
    · simp only [vdynmap, vfresh, ka]; exact wf.home
    · simp only [vfresh, kf]; exact wf.father
    · simp only [vfresh, ks, kf]; exact wf.sons
    · intro q hq test
      simp only [ka, ks, kf]
      by_cases same : q = db
      · subst same
        refine ⟨top, entry _ (Or.inl own), fun r hr => entry _ (Or.inr ⟨r, ?_, ?_⟩)⟩
        · rw [blocks]; simpa using hr
        · rw [← ka r, blocks']
      · rw [vblocks, Function.update_of_ne same] at test
        obtain ⟨noFather, ownQ, sonsQ⟩ := wf.tested q (vfresh ▸ hq) test
        exact ⟨noFather, entry _ (Or.inl (older _ ownQ)), fun r hr => entry _ (Or.inl (older _ (sonsQ r hr)))⟩
    · rw [vblocks]
      by_cases same : q = db
      · subst same; exact ⟨true, by simp⟩
      · exact ⟨(s.blocks q).needTest, by simp [same]⟩
    · rw [vblocks]
      by_cases same : q = db
      · subst same; simp
      · simp [same]

/-! ### The walk over the zones -/

/-- Some block of family `f` is in the `direct[]` of `dynablocks` and passes the test of the walk. -/
def FoundIn (s : Dynamap) (dynablocks : Option Dynablocklist) (addr : Addr) (size : BitVec 64) (f : Nat) : Prop :=
  ∃ l d i p, dynablocks = some l ∧ l.direct = some d ∧ i < l.textsz ∧ d i = some p ∧
    markTest (s.blocks p) addr size = true ∧ fatherOf s p = f

theorem Marks.foundIn {s t : Dynamap} {M : Nat → Prop} (h : Marks s t M) (dynablocks : Option Dynablocklist)
    (addr : Addr) (size : BitVec 64) (f : Nat) :
    FoundIn t dynablocks addr size f ↔ FoundIn s dynablocks addr size f := by
  simp only [FoundIn, h.markTest, h.fatherOf]

theorem markDirectDynablock_spec (addr : Addr) (size : BitVec 64) {s : Dynamap} {z : Nat}
    {dynablocks : Option Dynablocklist} (wf : WellFormed nativeNext s) (list : dynablocks = s.dynmap z) :
    WellFormed nativeNext (markDirectDynablock nativeNext s dynablocks addr size) ∧
      Marks s (markDirectDynablock nativeNext s dynablocks addr size) (FoundIn s dynablocks addr size) := by
  have nothing : (∀ q, ¬FoundIn s dynablocks addr size q) → WellFormed nativeNext s ∧
      Marks s s (FoundIn s dynablocks addr size) :=
    fun absent => ⟨wf, (Marks.refl s).congr fun q => iff_of_false id (absent q)⟩
  cases dynablocks with
  | none => exact nothing fun q => by simp [FoundIn]
  | some l =>
    cases direct : l.direct with
    | none =>
      simp only [markDirectDynablock, direct]
      exact nothing fun q => by simp [FoundIn, direct]
    | some d =>
      have step : ∀ i ∈ List.range l.textsz, ∀ t N, WellFormed nativeNext t → Marks s t N →
          WellFormed nativeNext (markSlot nativeNext d addr size t i) ∧
            Marks t (markSlot nativeNext d addr size t i) fun q => ∃ p, d i = some p ∧
              markTest (s.blocks p) addr size = true ∧ fatherOf s p = q := by
        intro i _ t N wf' marks
        cases slot : d i with
        | none =>
          simp only [markSlot, slot]
          exact ⟨wf', (Marks.refl t).congr fun q => by simp⟩
        | some p =>
          have below : p < t.fresh := by
            rw [marks.fresh]
            exact (wf.slots z l d i p list.symm direct slot).1
          simp only [markSlot, slot, marks.markTest]
          split
          case isTrue test =>
            obtain ⟨wf'', marks'⟩ := markDynablock_spec wf' below
            refine ⟨wf'', marks'.congr fun q => ?_⟩
            rw [marks.fatherOf]
            simp only [Option.some.injEq, exists_eq_left', test, true_and]
            exact eq_comm
          case isFalse test => exact ⟨wf', (Marks.refl t).congr fun q => by simp [test]⟩
      obtain ⟨wf', marks⟩ := foldl_marks _ step wf
      simp only [markDirectDynablock, direct]
      exact ⟨wf', marks.congr fun q => by simp [FoundIn, direct]⟩

/-- The zones that `markRangeDynablock` looks at from the list `l` of zone `i`. -/
def WalkedFrom (l : Dynablocklist) (i : Nat) (addr : Addr) (z : Nat) : Prop :=
  l.direct ≠ none ∧ (z = i ∨ zone l.minstart % 2 ^ 32 ≤ z ∧ z < zone addr)

theorem mem_unsignedBelow {first bound : Nat} {zones : List Nat} (h : unsignedBelow first bound = some zones)
    (z : Nat) : z ∈ zones ↔ first % 2 ^ 32 ≤ z ∧ z < bound := by
  unfold unsignedBelow at h
  split at h
  · obtain rfl := Option.some.inj h
    rw [List.mem_range'_1]
    omega
  · cases h

theorem markRangeDynablock_spec {addr : Addr} (size : BitVec 64) {s : Dynamap} {i : Nat} {l : Dynablocklist}
    (wf : WellFormed nativeNext s) (list : getDB s i = some l)
    (returns : l.direct = none ∨ zone addr < 2 ^ 32) :
    ∃ t, markRangeDynablock nativeNext s l addr size = some t ∧ WellFormed nativeNext t ∧
      Marks s t fun f => ∃ z, WalkedFrom l i addr z ∧ FoundIn s (getDB s z) addr size f := by
  cases direct : l.direct with
  | none =>
    simp only [markRangeDynablock, direct]
    exact ⟨s, rfl, wf, (Marks.refl s).congr fun q => by simp [WalkedFrom, direct]⟩
  | some d =>
    have below : zone addr < 2 ^ 32 := returns.resolve_left (by simp [direct])
    obtain ⟨zones, hzones⟩ : ∃ zones, unsignedBelow (zone l.minstart) (zone addr) = some zones :=
      ⟨_, if_pos below⟩
    obtain ⟨wf', marks⟩ := markDirectDynablock_spec addr size wf
      (show some l = s.dynmap (i % 2 ^ 48) from list.symm)
    simp only [markRangeDynablock, direct, hzones, Option.map_some]
    generalize markDirectDynablock nativeNext s (some l) addr size = t at wf' marks
    have step : ∀ z ∈ zones, ∀ u N, WellFormed nativeNext u → Marks t u N →
        WellFormed nativeNext (markDirectDynablock nativeNext u (getDB u z) addr size) ∧
          Marks u (markDirectDynablock nativeNext u (getDB u z) addr size)
            (FoundIn t (getDB t z) addr size) := by
      intro z _ u N wf' marks
      obtain ⟨wf'', marks'⟩ := markDirectDynablock_spec addr size wf'
        (show getDB u z = u.dynmap (z % 2 ^ 48) from rfl)
      refine ⟨wf'', marks'.congr fun q => ?_⟩
      rw [marks.foundIn, getDB, getDB, marks.dynmap]
    obtain ⟨wf'', marks'⟩ := foldl_marks _ step wf'
    refine ⟨_, rfl, wf'', (marks.trans marks').congr fun f => ?_⟩
    have rest : ∀ z, getDB t z = getDB s z := fun z => by rw [getDB, getDB, marks.dynmap]
    simp only [rest, marks.foundIn, mem_unsignedBelow hzones]
    constructor
    · rintro (found | ⟨z, range, found⟩)
      · exact ⟨i, ⟨by simp [direct], Or.inl rfl⟩, by rw [list]; exact found⟩
      · exact ⟨z, ⟨by simp [direct], Or.inr range⟩, found⟩
    · rintro ⟨z, ⟨_, rfl | range⟩, found⟩
      · exact Or.inl (by rw [← list]; exact found)
      · exact Or.inr ⟨z, range, found⟩

theorem markRangeDynablock_diverges {s : Dynamap} {l : Dynablocklist} {addr : Addr} {size : BitVec 64}
    (direct : l.direct ≠ none) (high : ¬zone addr < 2 ^ 32) :
    markRangeDynablock nativeNext s l addr size = none := by
  cases h : l.direct with
  | none => exact absurd h direct
  | some d => simp only [markRangeDynablock, h, unsignedBelow, if_neg high, Option.map_none]

/-- The zones of the written range. -/
def Written (addr : Addr) (size : BitVec 64) (i : Nat) : Prop :=
  zone addr ≤ i ∧ i ≤ zone (addr + size - 1)

theorem mem_zonesFromTo {addr : Addr} {size : BitVec 64} {i : Nat} :
    i ∈ zonesFromTo (zone addr) (zone (addr + size - 1)) ↔ Written addr size i := by
  rw [zonesFromTo, List.mem_range'_1, Written]
  omega

/-- The zones the walk of `cleanDBFromAddressRange` visits. -/
def Walked (s : Dynamap) (addr : Addr) (size : BitVec 64) (z : Nat) : Prop :=
  ∃ i l, Written addr size i ∧ getDB s i = some l ∧ WalkedFrom l i addr z

/-- No written zone with a `direct[]` sends the 32-bit zone counter on a walk it cannot end. -/
def WalkEnds (s : Dynamap) (addr : Addr) (size : BitVec 64) : Prop :=
  ∀ i l, Written addr size i → getDB s i = some l → l.direct = none ∨ zone addr < 2 ^ 32

/-- One round of the loop, when it returns. -/
theorem cleanZone_spec {s : Dynamap} {addr : Addr} (size : BitVec 64) {i : Nat} (wf : WellFormed nativeNext s)
    (returns : ∀ l, getDB s i = some l → l.direct = none ∨ zone addr < 2 ^ 32) :
    ∃ t, cleanZone nativeNext addr size s i = some t ∧ WellFormed nativeNext t ∧
      Marks s t fun f => ∃ l z, getDB s i = some l ∧ WalkedFrom l i addr z ∧
        FoundIn s (getDB s z) addr size f := by
  unfold cleanZone
  cases list : getDB s i with
  | none => exact ⟨s, rfl, wf, (Marks.refl s).congr fun q => by simp⟩
  | some l =>
    obtain ⟨t, ht, wf', marks⟩ := markRangeDynablock_spec size wf list (returns l list)
    exact ⟨t, ht, wf', marks.congr fun q => by simp⟩

theorem cleanZones_spec {s : Dynamap} {addr : Addr} (size : BitVec 64) (zones : List Nat) {t : Dynamap}
    {N : Nat → Prop} (wf : WellFormed nativeNext t) (marks : Marks s t N)
    (returns : ∀ i ∈ zones, ∀ l, getDB s i = some l → l.direct = none ∨ zone addr < 2 ^ 32) :
    ∃ u, zones.foldlM (cleanZone nativeNext addr size) t = some u ∧ WellFormed nativeNext u ∧
      Marks s u fun f => N f ∨ ∃ i ∈ zones, ∃ l z, getDB s i = some l ∧ WalkedFrom l i addr z ∧
        FoundIn s (getDB s z) addr size f := by
  induction zones generalizing t N with
  | nil => exact ⟨t, rfl, wf, marks.congr fun q => by simp⟩
  | cons i rest ih =>
    have same : ∀ z, getDB t z = getDB s z := fun z => by rw [getDB, getDB, marks.dynmap]
    obtain ⟨v, hv, wf', marks'⟩ := cleanZone_spec size wf
      (fun l list => returns i List.mem_cons_self l ((same i).symm.trans list))
    obtain ⟨u, hu, wf'', marks''⟩ := ih wf' (marks.trans marks')
      (fun j hj => returns j (List.mem_cons_of_mem _ hj))
    refine ⟨u, by rw [List.foldlM_cons, hv]; exact hu, wf'', marks''.congr fun q => ?_⟩
    simp only [same, marks.foundIn, List.mem_cons, exists_eq_or_imp, or_assoc]

theorem cleanDBFromAddressRange_spec {s : Dynamap} {addr : Addr} {size : BitVec 64}
    (wf : WellFormed nativeNext s) (ends : WalkEnds s addr size) :
    ∃ t, cleanDBFromAddressRange nativeNext s addr size = some t ∧ WellFormed nativeNext t ∧
      Marks s t fun f => ∃ z, Walked s addr size z ∧ FoundIn s (getDB s z) addr size f := by
  obtain ⟨t, ht, wf', marks⟩ := cleanZones_spec size
    (zonesFromTo (zone addr) (zone (addr + size - 1))) wf (Marks.refl s)
    (fun i mem l list => ends i l (mem_zonesFromTo.mp mem) list)
  refine ⟨t, ht, wf', marks.congr fun f => ?_⟩
  simp only [false_or, mem_zonesFromTo, Walked]
  constructor
  · rintro ⟨i, written, l, z, list, walked, found⟩
    exact ⟨z, ⟨i, l, written, list, walked⟩, found⟩
  · rintro ⟨z, ⟨i, l, written, list, walked⟩, found⟩
    exact ⟨i, written, l, z, list, walked, found⟩

theorem cleanZones_diverges {s : Dynamap} {addr : Addr} {size : BitVec 64} {i : Nat} {l : Dynablocklist}
    (list : getDB s i = some l) (direct : l.direct ≠ none) (high : ¬zone addr < 2 ^ 32) (zones : List Nat)
    {t : Dynamap} {N : Nat → Prop} (wf : WellFormed nativeNext t) (marks : Marks s t N) (mem : i ∈ zones) :
    zones.foldlM (cleanZone nativeNext addr size) t = none := by
  induction zones generalizing t N with
  | nil => cases mem
  | cons j rest ih =>
    have same : ∀ z, getDB t z = getDB s z := fun z => by rw [getDB, getDB, marks.dynmap]
    rw [List.foldlM_cons]
    by_cases returns : ∀ m, getDB t j = some m → m.direct = none ∨ zone addr < 2 ^ 32
    · have elsewhere : i ≠ j := by
        rintro rfl
        exact (returns l ((same i).trans list)).elim direct high
      obtain ⟨v, hv, wf', marks'⟩ := cleanZone_spec size wf returns
      rw [hv]
      exact ih wf' (marks.trans marks') ((List.mem_cons.mp mem).resolve_left elsewhere)
    · simp only [not_forall, not_or] at returns
      obtain ⟨m, hm, stuck, _⟩ := returns
      rw [cleanZone, hm]
      simp only [markRangeDynablock_diverges stuck high]
      rfl

/-- A walk that cannot end does not return. -/
theorem cleanDBFromAddressRange_diverges {s : Dynamap} {addr : Addr} {size : BitVec 64}
    (wf : WellFormed nativeNext s) (stuck : ¬WalkEnds s addr size) :
    cleanDBFromAddressRange nativeNext s addr size = none := by
  simp only [WalkEnds, not_forall, not_or] at stuck
  obtain ⟨i, l, written, list, direct, high⟩ := stuck
  exact cleanZones_diverges list direct high _ wf (Marks.refl s) (mem_zonesFromTo.mpr written)

/-! ### Runs of the dynamap -/

inductive Op where
  | addDB (addr : Addr) (size : BitVec 64)
  | getBlock (addr : Addr) (filled : Filled)
  | clean (addr : Addr) (size : BitVec 64)

variable (nativeNext) in
def dynamap : Transition.System Dynamap Op where
  init s := s = initial nativeNext
  step s op t := match op with
    | .addDB addr size => t = addDBFromAddressRange s addr size
    | .getBlock addr filled => internalDBGetBlock nativeNext s addr filled = some t
    | .clean addr size => cleanDBFromAddressRange nativeNext s addr size = some t

theorem step_wellFormed {s t : Dynamap} {op : Op} (wf : WellFormed nativeNext s)
    (h : (dynamap nativeNext).step s op t) : WellFormed nativeNext t := by
  cases op with
  | addDB addr size =>
    obtain rfl : t = _ := h
    exact addDBFromAddressRange_wellFormed wf addr size
  | getBlock addr filled => exact internalDBGetBlock_wellFormed wf h
  | clean addr size =>
    change cleanDBFromAddressRange nativeNext s addr size = some t at h
    by_cases ends : WalkEnds s addr size
    · obtain ⟨u, hu, wf', _⟩ := cleanDBFromAddressRange_spec wf ends
      rw [h] at hu
      obtain rfl := Option.some.inj hu
      exact wf'
    · rw [cleanDBFromAddressRange_diverges wf ends] at h
      cases h

theorem reachable_wellFormed {s : Dynamap} (h : Transition.Reachable (dynamap nativeNext) s) :
    WellFormed nativeNext s :=
  h.invariant (fun _ h => h ▸ initial_wellFormed) fun _ _ _ wf step => step_wellFormed wf step

/-! ### Self-modifying code -/

/-- Father `f` can be reached from the `direct[]` array of some zone. -/
def InDirect (s : Dynamap) (f : Nat) : Prop :=
  ∃ z l d o p, s.dynmap z = some l ∧ l.direct = some d ∧ d o = some p ∧ fatherOf s p = f

/-- `[x64_addr, x64_addr+x64_size)` intersects `[addr, addr+size)`. -/
def Overlaps (b : Dynablock) (addr : Addr) (size : BitVec 64) : Prop :=
  b.x64Addr.toNat < addr.toNat + size.toNat ∧ addr.toNat < b.x64Addr.toNat + b.x64Size.toNat

variable (nativeNext) in
/-- Every father that overlaps the range needs a test and has no jump-table entry, nor have its sons. -/
def Invalidated (s : Dynamap) (addr : Addr) (size : BitVec 64) : Prop :=
  ∀ f, InDirect s f → Overlaps (s.blocks f) addr size →
    (s.blocks f).needTest = true ∧ s.jmptbl.entry (s.blocks f).x64Addr = nativeNext ∧
      ∀ q ∈ (s.blocks f).sons, s.jmptbl.entry (s.blocks q).x64Addr = nativeNext

/-- The walk for `[addr, addr+size)` ends, and passes by every overlapping father that is not marked yet:
the father or one of its sons is in the `direct[]` of a zone it visits. -/
def WalkCovers (s : Dynamap) (addr : Addr) (size : BitVec 64) : Prop :=
  WalkEnds s addr size ∧ ∀ f, InDirect s f → Overlaps (s.blocks f) addr size →
    (s.blocks f).needTest = true ∨ ∃ z, Walked s addr size z ∧ FoundIn s (getDB s z) addr size f

theorem Marks.inDirect {s t : Dynamap} {M : Nat → Prop} (h : Marks s t M) (f : Nat) :
    InDirect t f ↔ InDirect s f := by
  simp only [InDirect, h.dynmap, h.fatherOf]

theorem Marks.overlaps {s t : Dynamap} {M : Nat → Prop} (h : Marks s t M) (f : Nat) (addr : Addr)
    (size : BitVec 64) : Overlaps (t.blocks f) addr size ↔ Overlaps (s.blocks f) addr size := by
  obtain ⟨b, hb⟩ := h.same f
  rw [hb]
  rfl

theorem inDirect_below {s : Dynamap} {f : Nat} (wf : WellFormed nativeNext s) (h : InDirect s f) :
    f < s.fresh := by
  obtain ⟨z, l, d, o, p, list, direct, slot, rfl⟩ := h
  obtain ⟨below, _⟩ := wf.slots z l d o p list direct slot
  unfold fatherOf
  cases father : (s.blocks p).father with
  | none => exact below
  | some f => exact (wf.father p f below father).1

/-- In every reachable state, a write invalidates the blocks it overlaps exactly when the walk covers them. -/
theorem cleanDB_invalidates_iff {s : Dynamap} (h : Transition.Reachable (dynamap nativeNext) s) (addr : Addr)
    (size : BitVec 64) :
    (∃ t, cleanDBFromAddressRange nativeNext s addr size = some t ∧ Invalidated nativeNext t addr size) ↔
      WalkCovers s addr size := by
  have wf := reachable_wellFormed h
  constructor
  · rintro ⟨t, ht, invalidated⟩
    have ends : WalkEnds s addr size := by
      by_contra stuck
      rw [cleanDBFromAddressRange_diverges wf stuck] at ht
      cases ht
    obtain ⟨u, hu, _, marks⟩ := cleanDBFromAddressRange_spec wf ends
    rw [ht] at hu
    obtain rfl := Option.some.inj hu
    refine ⟨ends, fun f direct overlaps => ?_⟩
    exact (marks.test f).mp
      (invalidated f ((marks.inDirect f).mpr direct) ((marks.overlaps f addr size).mpr overlaps)).1
  · rintro ⟨ends, covers⟩
    obtain ⟨t, ht, wf', marks⟩ := cleanDBFromAddressRange_spec wf ends
    refine ⟨t, ht, fun f direct overlaps => ?_⟩
    have test := (marks.test f).mpr
      (covers f ((marks.inDirect f).mp direct) ((marks.overlaps f addr size).mp overlaps))
    obtain ⟨_, own, sons⟩ := wf'.tested f (inDirect_below wf' direct) test
    exact ⟨test, own, sons⟩

/-- Two zones, and a block that starts in the first and runs 16 bytes into the second. -/
def straddle : Option Dynamap :=
  internalDBGetBlock 0x42 (addDBFromAddressRange (initial 0x42) 0x10000 0x20000) 0x1FFF0
    { block := 0x7000, start := 0x1FFF0, x64Size := 0x20, sons := [] }

theorem straddle_reachable : ∃ s, straddle = some s ∧ Transition.Reachable (dynamap 0x42) s := by
  have created : straddle.isSome = true := by decide +kernel
  obtain ⟨s, h⟩ := Option.isSome_iff_exists.mp created
  exact ⟨s, h, .step (a := .getBlock 0x1FFF0 _) (.step (a := .addDB 0x10000 0x20000) (.initial rfl) rfl) h⟩

/-- A write to the first byte of the second zone is on the block, but that zone has no `direct[]`
array and the walk stops there. -/
theorem straddle_not_invalidated : ∃ s t, Transition.Reachable (dynamap 0x42) s ∧
    cleanDBFromAddressRange 0x42 s 0x20000 1 = some t ∧ ¬Invalidated 0x42 t 0x20000 1 := by
  obtain ⟨s, h, reachable⟩ := straddle_reachable
  have outcome : (straddle.bind fun s => (cleanDBFromAddressRange 0x42 s 0x20000 1).map fun t =>
      ((t.dynmap 1).bind (·.slot 0x1FFF0), (t.blocks 0).x64Addr, (t.blocks 0).x64Size,
        (t.blocks 0).needTest, fatherOf t 0)) = some (some 0, 0x1FFF0, 0x20, false, 0) := by decide +kernel
  rw [h] at outcome
  obtain ⟨t, cleaned, outcome⟩ := Option.map_eq_some_iff.mp outcome
  simp only [Prod.mk.injEq] at outcome
  obtain ⟨slot, start, size, test, father⟩ := outcome
  obtain ⟨l, list, slot⟩ := Option.bind_eq_some_iff.mp slot
  obtain ⟨d, direct, slot⟩ := slot_eq_some.mp slot
  refine ⟨s, t, reachable, cleaned, fun invalidated => ?_⟩
  have marked := (invalidated 0 ⟨1, l, d, _, 0, list, direct, slot, father⟩
    (by rw [Overlaps, start, size]; decide)).1
  rw [test] at marked
  cases marked

theorem cleanDB_invalidates_iff_straddle : ∃ s, straddle = some s ∧
    ((∃ t, cleanDBFromAddressRange 0x42 s 0x10000 0x10000 = some t ∧ Invalidated 0x42 t 0x10000 0x10000) ↔
      WalkCovers s 0x10000 0x10000) := by
  obtain ⟨s, h, reachable⟩ := straddle_reachable
  exact ⟨s, h, cleanDB_invalidates_iff reachable 0x10000 0x10000⟩

end Box64.Dynarec
