import Box64.Dynarec.Dynablock

/-!
# Well-formed dynamaps

Every block sits in the slot of its own address, sons and fathers know each other, and a block
that needs a test has no entry of its own left in the jump table. Adding zones and blocks keeps this.
-/

namespace Box64.Dynarec
open Custommem
open Function (update)

variable {nativeNext : Addr}

variable (nativeNext) in
structure WellFormed (s : Dynamap) : Prop where
  tables : JumpTable.WellFormed nativeNext s.jmptbl
  zones : ∀ z l, s.dynmap z = some l → z < 2 ^ 48 ∧ l.text = BitVec.ofNat 64 z <<< 16 ∧ l.textsz = 2 ^ 16
  slots : ∀ z l d o p, s.dynmap z = some l → l.direct = some d → d o = some p →
    p < s.fresh ∧ z = zone (s.blocks p).x64Addr ∧ o = ((s.blocks p).x64Addr - l.text).toNat
  home : ∀ p, p < s.fresh → ∃ l, s.dynmap (zone (s.blocks p).x64Addr) = some l ∧
    l.slot (s.blocks p).x64Addr = some p
  father : ∀ p f, p < s.fresh → (s.blocks p).father = some f → f < s.fresh ∧ (s.blocks f).father = none
  sons : ∀ p q, p < s.fresh → q ∈ (s.blocks p).sons → q < s.fresh ∧ (s.blocks q).father = some p
  tested : ∀ p, p < s.fresh → (s.blocks p).needTest = true →
    (s.blocks p).father = none ∧ s.jmptbl.entry (s.blocks p).x64Addr = nativeNext ∧
      ∀ q ∈ (s.blocks p).sons, s.jmptbl.entry (s.blocks q).x64Addr = nativeNext

theorem initial_wellFormed : WellFormed nativeNext (initial nativeNext) where
  tables := JumpTable.initial_wellFormed
  zones _ _ h := by simp [initial] at h
  slots _ _ _ _ _ h := by simp [initial] at h
  home _ h := absurd h (Nat.not_lt_zero _)
  father _ _ h := absurd h (Nat.not_lt_zero _)
  sons _ _ h := absurd h (Nat.not_lt_zero _)
  tested _ h := absurd h (Nat.not_lt_zero _)

/-! ### Zones and slots -/

theorem zone_lt (addr : Addr) : zone addr < 2 ^ 48 := by
  have := addr.isLt
  simp only [zone, BitVec.toNat_ushiftRight, Nat.shiftRight_eq_div_pow]
  omega

theorem text_toNat {z : Nat} (h : z < 2 ^ 48) : (BitVec.ofNat 64 z <<< 16).toNat = z * 2 ^ 16 := by
  simp only [BitVec.toNat_shiftLeft, BitVec.toNat_ofNat, Nat.shiftLeft_eq]
  omega

theorem getDB_zone (s : Dynamap) (addr : Addr) : getDB s (zone addr) = s.dynmap (zone addr) := by
  rw [getDB, Nat.mod_eq_of_lt (zone_lt addr)]

/-- A list covers only the addresses of its own zone. -/
theorem zone_of_covers {l : Dynablocklist} {z : Nat} {addr : Addr} (bound : z < 2 ^ 48)
    (text : l.text = BitVec.ofNat 64 z <<< 16) (size : l.textsz = 2 ^ 16) (h : l.covers addr = true) :
    z = zone addr := by
  have start := text_toNat bound
  rw [← text] at start
  have high := addr.isLt
  simp only [Dynablocklist.covers, size, decide_eq_true_eq, BitVec.le_def, BitVec.lt_def, BitVec.toNat_add,
    BitVec.toNat_ofNat, start] at h
  simp only [zone, BitVec.toNat_ushiftRight, Nat.shiftRight_eq_div_pow]
  omega

/-- Two addresses with the same zone and the same offset are equal. -/
theorem addr_of_zone_offset {text a b : Addr} (h : (a - text).toNat = (b - text).toNat) : a = b := by
  have same : a - text = b - text := BitVec.eq_of_toNat_eq h
  have := congrArg (· + text) same
  simpa using this

theorem slot_eq_some {l : Dynablocklist} {addr : Addr} {p : Nat} :
    l.slot addr = some p ↔ ∃ d, l.direct = some d ∧ d (addr - l.text).toNat = some p := by
  simp [Dynablocklist.slot, Option.bind_eq_some_iff]

/-- Different blocks start at different addresses. -/
theorem WellFormed.x64Addr_injective {s : Dynamap} (wf : WellFormed nativeNext s) {p q : Nat}
    (hp : p < s.fresh) (hq : q < s.fresh) (same : (s.blocks p).x64Addr = (s.blocks q).x64Addr) : p = q := by
  obtain ⟨l, list, slot⟩ := wf.home p hp
  obtain ⟨l', list', slot'⟩ := wf.home q hq
  rw [← same, list] at list'
  obtain rfl := Option.some.inj list'
  rw [← same, slot] at slot'
  exact Option.some.inj slot'

/-! ### Edits that keep the invariant -/

/-- Replacing a list by one with the same text and the same slots. -/
theorem WellFormed.setList {s : Dynamap} (wf : WellFormed nativeNext s) {z : Nat} {l : Dynablocklist}
    (k : Dynablocklist) (list : s.dynmap z = some l) (text : k.text = l.text) (size : k.textsz = l.textsz)
    (direct : k.direct = l.direct) :
    WellFormed nativeNext { s with dynmap := update s.dynmap z (some k) } := by
  have back : ∀ y m, update s.dynmap z (some k) y = some m →
      ∃ m', s.dynmap y = some m' ∧ m.text = m'.text ∧ m.textsz = m'.textsz ∧ m.direct = m'.direct := by
    intro y m h
    by_cases same : y = z
    · subst same
      rw [Function.update_self] at h
      obtain rfl := Option.some.inj h
      exact ⟨l, list, text, size, direct⟩
    · rw [Function.update_of_ne same] at h
      exact ⟨m, h, rfl, rfl, rfl⟩
  exact
    { tables := wf.tables
      zones := fun y m h => by
        obtain ⟨m', h', ht, hs, _⟩ := back y m h
        rw [ht, hs]
        exact wf.zones y m' h'
      slots := fun y m d o p h hd ho => by
        obtain ⟨m', h', ht, _, hd'⟩ := back y m h
        rw [ht]
        exact wf.slots y m' d o p h' (hd' ▸ hd) ho
      home := fun p hp => by
        obtain ⟨m, h, slot⟩ := wf.home p hp
        by_cases same : zone (s.blocks p).x64Addr = z
        · rw [same, list] at h
          obtain rfl := Option.some.inj h
          refine ⟨k, by simp only [same, Function.update_self], ?_⟩
          rw [Dynablocklist.slot, text, direct]
          exact slot
        · exact ⟨m, by simp only [Function.update_of_ne same, h], slot⟩
      father := wf.father
      sons := wf.sons
      tested := wf.tested }

/-- Changing a block in fields the invariant does not read. -/
theorem WellFormed.setBlock {s : Dynamap} (wf : WellFormed nativeNext s) (p : Nat) (f : Dynablock → Dynablock)
    (addr : ∀ b, (f b).x64Addr = b.x64Addr) (test : ∀ b, (f b).needTest = b.needTest)
    (sons : ∀ b, (f b).sons = b.sons) (father : ∀ b, (f b).father = b.father) :
    WellFormed nativeNext (setBlock s p f) := by
  have keep : ∀ q, ((Dynarec.setBlock s p f).blocks q).x64Addr = (s.blocks q).x64Addr ∧
      ((Dynarec.setBlock s p f).blocks q).needTest = (s.blocks q).needTest ∧
      ((Dynarec.setBlock s p f).blocks q).sons = (s.blocks q).sons ∧
      ((Dynarec.setBlock s p f).blocks q).father = (s.blocks q).father := by
    intro q
    by_cases same : q = p
    · subst same
      simp [addr, test, sons, father]
    · simp [same]
  have ka := fun q => (keep q).1
  have kt := fun q => (keep q).2.1
  have ks := fun q => (keep q).2.2.1
  have kf := fun q => (keep q).2.2.2
  refine ⟨wf.tables, wf.zones, ?_, ?_, ?_, ?_, ?_⟩
  all_goals simp only [setBlock_dynmap, setBlock_fresh, setBlock_jmptbl, ka, kt, ks, kf]
  · exact wf.slots
  · exact wf.home
  · exact wf.father
  · exact wf.sons
  · exact wf.tested

theorem WellFormed.setJmptbl {s : Dynamap} (wf : WellFormed nativeNext s) {t : JumpTable}
    (tables : JumpTable.WellFormed nativeNext t)
    (keep : ∀ p, p < s.fresh → (s.blocks (fatherOf s p)).needTest = true →
      s.jmptbl.entry (s.blocks p).x64Addr = nativeNext → t.entry (s.blocks p).x64Addr = nativeNext) :
    WellFormed nativeNext { s with jmptbl := t } :=
  { wf with
    tables := tables
    tested := fun p hp test => by
      obtain ⟨noFather, own, sons⟩ := wf.tested p hp test
      refine ⟨noFather, keep p hp ?_ own, fun q hq => ?_⟩
      · simpa only [fatherOf, noFather, Option.getD_none] using test
      · obtain ⟨below, father⟩ := wf.sons p q hp hq
        refine keep q below ?_ (sons q hq)
        simpa only [fatherOf, father, Option.getD_some] using test }

/-- A new block in an empty slot, alone or as the son of an unmarked father. -/
theorem WellFormed.insert {s : Dynamap} (wf : WellFormed nativeNext s) {z : Nat} {l : Dynablocklist}
    {addr : Addr} {b : Dynablock} (list : s.dynmap z = some l) (covers : l.covers addr = true)
    (empty : l.slot addr = none) (start : b.x64Addr = addr) (test : b.needTest = false) (sons : b.sons = [])
    (father : ∀ f, b.father = some f → f < s.fresh ∧ (s.blocks f).father = none) :
    WellFormed nativeNext (insertBlock s z l addr b) := by
  obtain ⟨bound, text, size⟩ := wf.zones z l list
  obtain rfl := zone_of_covers bound text size covers
  have other : ∀ p, p < s.fresh → p ≠ s.fresh := fun p hp => Nat.ne_of_lt hp
  have old : ∀ p, p < s.fresh → (insertBlock s (zone addr) l addr b).blocks p = s.blocks p :=
    fun p hp => by simp [insertBlock, Function.update_of_ne (other p hp)]
  have new : (insertBlock s (zone addr) l addr b).blocks s.fresh = b := by simp [insertBlock]
  have list' : (insertBlock s (zone addr) l addr b).dynmap (zone addr) = some { l with
      direct := some (update (l.direct.getD fun _ => none) (addr - l.text).toNat (some s.fresh)) } := by
    simp [insertBlock]
  have split : ∀ p, p < (insertBlock s (zone addr) l addr b).fresh → p < s.fresh ∨ p = s.fresh :=
    fun p hp => Nat.lt_succ_iff_lt_or_eq.mp hp
  refine ⟨wf.tables, ?_, ?_, ?_, ?_, ?_, ?_⟩
  · intro y m h
    by_cases same : y = zone addr
    · subst same
      simp only [insertBlock, Function.update_self, Option.some.injEq] at h
      subst h
      exact ⟨bound, text, size⟩
    · simp only [insertBlock, Function.update_of_ne same] at h
      exact wf.zones y m h
  · intro y m d o p h hd ho
    have oldSlot : ∀ m' d', s.dynmap y = some m' → m'.text = m.text → m'.direct = some d' → d' o = some p →
        p < s.fresh + 1 ∧ y = zone ((insertBlock s (zone addr) l addr b).blocks p).x64Addr ∧
          o = (((insertBlock s (zone addr) l addr b).blocks p).x64Addr - m.text).toNat := by
      intro m' d' h' ht hd' ho'
      obtain ⟨below, hz, offset⟩ := wf.slots y m' d' o p h' hd' ho'
      rw [old p below, ← ht]
      exact ⟨Nat.lt_succ_of_lt below, hz, offset⟩
    by_cases same : y = zone addr
    · subst same
      simp only [insertBlock, Function.update_self, Option.some.injEq] at h
      subst h
      simp only [Option.some.injEq] at hd
      subst hd
      by_cases here : o = (addr - l.text).toNat
      · subst here
        rw [Function.update_self, Option.some.injEq] at ho
        subst ho
        rw [new, start]
        exact ⟨Nat.lt_succ_self _, rfl, rfl⟩
      · rw [Function.update_of_ne here] at ho
        cases direct : l.direct with
        | none => rw [direct] at ho; cases ho
        | some d' => exact oldSlot l d' list rfl direct (by rwa [direct] at ho)
    · simp only [insertBlock, Function.update_of_ne same] at h
      exact oldSlot m d h rfl hd ho
  · intro p hp
    rcases split p hp with below | rfl
    · obtain ⟨m, h, slot⟩ := wf.home p below
      rw [old p below]
      by_cases same : zone (s.blocks p).x64Addr = zone addr
      · rw [same, list] at h
        obtain rfl := Option.some.inj h
        refine ⟨_, by rw [same]; exact list', ?_⟩
        obtain ⟨d, direct, at_⟩ := slot_eq_some.mp slot
        refine slot_eq_some.mpr ⟨_, rfl, ?_⟩
        have elsewhere : ((s.blocks p).x64Addr - l.text).toNat ≠ (addr - l.text).toNat := by
          intro same
          rw [addr_of_zone_offset same, empty] at slot
          cases slot
        dsimp only
        rw [Function.update_of_ne elsewhere, direct]
        exact at_
      · exact ⟨m, by simp only [insertBlock, Function.update_of_ne same, h], slot⟩
    · rw [new, start]
      refine ⟨_, list', slot_eq_some.mpr ⟨_, rfl, ?_⟩⟩
      dsimp only
      rw [Function.update_self]
  · intro p f hp hf
    have lift : f < s.fresh ∧ (s.blocks f).father = none →
        f < s.fresh + 1 ∧ ((insertBlock s (zone addr) l addr b).blocks f).father = none := by
      rintro ⟨below, top⟩
      rw [old f below]
      exact ⟨Nat.lt_succ_of_lt below, top⟩
    rcases split p hp with below | rfl
    · rw [old p below] at hf
      exact lift (wf.father p f below hf)
    · rw [new] at hf
      exact lift (father f hf)
  · intro p q hp hq
    rcases split p hp with below | rfl
    · rw [old p below] at hq
      obtain ⟨belowQ, hf⟩ := wf.sons p q below hq
      rw [old q belowQ]
      exact ⟨Nat.lt_succ_of_lt belowQ, hf⟩
    · rw [new, sons] at hq
      cases hq
  · intro p hp ht
    rcases split p hp with below | rfl
    · rw [old p below] at ht ⊢
      obtain ⟨top, own, inSons⟩ := wf.tested p below ht
      refine ⟨top, own, fun q hq => ?_⟩
      rw [old q (wf.sons p q below hq).1]
      exact inSons q hq
    · rw [new, test] at ht
      cases ht

/-! ### The operations -/

theorem addZone_wellFormed {s : Dynamap} (wf : WellFormed nativeNext s) (i : Nat) :
    WellFormed nativeNext (addZone s i) := by
  unfold addZone getDB
  split
  · exact wf
  case h_2 absent =>
  have bound : i % 2 ^ 48 < 2 ^ 48 := Nat.mod_lt _ (by decide)
  generalize i % 2 ^ 48 = z at absent bound
  exact
    { tables := wf.tables
      zones := fun y m h => by
        by_cases same : y = z
        · subst same
          simp only [Function.update_self, Option.some.injEq] at h
          subst h
          exact ⟨bound, rfl, rfl⟩
        · simp only [Function.update_of_ne same] at h
          exact wf.zones y m h
      slots := fun y m d o p h hd ho => by
        by_cases same : y = z
        · subst same
          simp only [Function.update_self, Option.some.injEq] at h
          subst h
          cases hd
        · simp only [Function.update_of_ne same] at h
          exact wf.slots y m d o p h hd ho
      home := fun p hp => by
        obtain ⟨m, h, slot⟩ := wf.home p hp
        have other : zone (s.blocks p).x64Addr ≠ z := by
          intro same
          rw [same, absent] at h
          cases h
        exact ⟨m, by simp only [Function.update_of_ne other, h], slot⟩
      father := wf.father
      sons := wf.sons
      tested := wf.tested }

theorem addDBFromAddressRange_wellFormed {s : Dynamap} (wf : WellFormed nativeNext s) (addr : Addr)
    (size : BitVec 64) : WellFormed nativeNext (addDBFromAddressRange s addr size) := by
  unfold addDBFromAddressRange
  induction zonesFromTo (zone addr) (zone (addr + size - 1)) generalizing s with
  | nil => exact wf
  | cons i rest ih => exact ih (addZone_wellFormed wf i)

theorem setBlock_insertBlock (s : Dynamap) (z : Nat) (l : Dynablocklist) (addr : Addr) (b : Dynablock)
    (f : Dynablock → Dynablock) :
    setBlock (insertBlock s z l addr b) s.fresh f = insertBlock s z l addr (f b) := by
  simp [setBlock, insertBlock]

/-- What a created block means: an empty slot of a list that covers the address. -/
theorem addNewDynablock_created {s t : Dynamap} {parent p : Nat} {addr : Addr}
    (h : addNewDynablock s parent addr = some (t, some p, true)) :
    ∃ z l, s.dynmap z = some l ∧ l.covers addr = true ∧ l.slot addr = none ∧ p = s.fresh ∧
      t = insertBlock s z l addr { parent := z } := by
  unfold addNewDynablock at h
  split at h
  · cases h
  · cases h
  case h_3 z owner =>
  split at h
  · cases h
  case h_2 l list =>
  split at h
  · cases h
  case h_2 empty =>
  simp only [Option.some.injEq, Prod.mk.injEq, and_true] at h
  refine ⟨z, l, list, ?_, empty, h.2.symm, h.1.symm⟩
  unfold ownerList at owner
  split at owner
  case isTrue covers =>
    obtain rfl := Option.some.inj (Option.some.inj owner)
    simpa [list] using covers
  case isFalse =>
    split at owner
    · cases owner
    case h_2 m listed =>
      split at owner
      case isTrue covers =>
        obtain rfl := Option.some.inj (Option.some.inj owner)
        rw [getDB_zone, list] at listed
        obtain rfl := Option.some.inj listed
        exact covers
      case isFalse => cases owner

theorem addNewDynablock_existing {s t : Dynamap} {parent : Nat} {addr : Addr} {r : Option Nat}
    (h : addNewDynablock s parent addr = some (t, r, false)) : t = s := by
  unfold addNewDynablock at h
  split at h
  · cases h
  · exact (Prod.mk.inj (Option.some.inj h)).1.symm
  split at h
  · exact (Prod.mk.inj (Option.some.inj h)).1.symm
  split at h
  · exact (Prod.mk.inj (Option.some.inj h)).1.symm
  · simp at h

/-- A father while its sons are being created. -/
structure Filling (s : Dynamap) (p : Nat) : Prop where
  below : p < s.fresh
  unmarked : (s.blocks p).needTest = false
  top : (s.blocks p).father = none

theorem addSon_wellFormed {s : Dynamap} {p son : Nat} (wf : WellFormed nativeNext s) (filling : Filling s p)
    (below : son < s.fresh) (father : (s.blocks son).father = some p) :
    WellFormed nativeNext (setBlock s p (·.addSon son)) ∧ Filling (setBlock s p (·.addSon son)) p := by
  have keep : ∀ q, ((setBlock s p (·.addSon son)).blocks q).x64Addr = (s.blocks q).x64Addr ∧
      ((setBlock s p (·.addSon son)).blocks q).needTest = (s.blocks q).needTest ∧
      ((setBlock s p (·.addSon son)).blocks q).father = (s.blocks q).father := by
    intro q
    by_cases same : q = p
    · subst same; simp [Dynablock.addSon]
    · simp [same]
  have ka := fun q => (keep q).1
  have kt := fun q => (keep q).2.1
  have kf := fun q => (keep q).2.2
  refine ⟨⟨wf.tables, wf.zones, ?_, ?_, ?_, ?_, ?_⟩, filling.below, ?_, ?_⟩
  all_goals simp only [setBlock_dynmap, setBlock_fresh, setBlock_jmptbl, ka, kt, kf]
  · exact wf.slots
  · exact wf.home
  · exact wf.father
  · intro q r hq hr
    by_cases same : q = p
    · subst same
      rw [setBlock_same] at hr
      rcases List.mem_append.mp hr with old | new
      · exact wf.sons q r hq old
      · obtain rfl := List.mem_singleton.mp new
        exact ⟨below, father⟩
    · rw [setBlock_other _ _ _ same] at hr
      exact wf.sons q r hq hr
  · intro q hq test
    have other : q ≠ p := by
      rintro rfl
      rw [filling.unmarked] at test
      cases test
    rw [setBlock_other _ _ _ other]
    exact wf.tested q hq test
  · exact filling.unmarked
  · exact filling.top

theorem fillSon_wellFormed {s t : Dynamap} {p : Nat} {stop : Addr} {son : Addr × Addr}
    (wf : WellFormed nativeNext s) (filling : Filling s p) (h : fillSon p stop s son = some t) :
    WellFormed nativeNext t ∧ Filling t p := by
  unfold fillSon at h
  split at h
  · cases h
  case h_2 u q created =>
    obtain ⟨z, l, list, covers, empty, rfl, rfl⟩ := addNewDynablock_created created
    obtain ⟨below, unmarked, top⟩ := filling
    have other : p ≠ s.fresh := Nat.ne_of_lt below
    rw [Option.some.injEq, setBlock_insertBlock] at h
    dsimp only at h
    generalize hb : (Dynablock.mk z son.2 son.1 (stop - son.1) false false [] (some p)) = b at h
    have inserted : WellFormed nativeNext (insertBlock s z l son.1 b) := by
      refine wf.insert list covers empty ?_ ?_ ?_ ?_ <;> subst hb
      · rfl
      · rfl
      · rfl
      · intro f hf
        obtain rfl := Option.some.inj hf
        exact ⟨below, top⟩
    have atP : (insertBlock s z l son.1 b).blocks p = s.blocks p := by
      simp [insertBlock, Function.update_of_ne other]
    have filling' : Filling (insertBlock s z l son.1 b) p :=
      ⟨Nat.lt_succ_of_lt below, by rw [atP]; exact unmarked, by rw [atP]; exact top⟩
    subst h
    exact addSon_wellFormed inserted filling' (Nat.lt_succ_self _) (by subst hb; simp [insertBlock])
  case h_3 u r b notNew same =>
    obtain rfl := Option.some.inj h
    cases b with
    | false =>
      obtain rfl := addNewDynablock_existing same
      exact ⟨wf, filling⟩
    | true =>
      cases r with
      | none =>
        unfold addNewDynablock at same
        repeat' split at same
        all_goals simp at same
      | some q => exact absurd rfl (notNew q rfl)

theorem fillSons_wellFormed {s t : Dynamap} {p : Nat} {stop : Addr} {sons : List (Addr × Addr)}
    (wf : WellFormed nativeNext s) (filling : Filling s p) (h : sons.foldlM (fillSon p stop) s = some t) :
    WellFormed nativeNext t ∧ Filling t p := by
  induction sons generalizing s with
  | nil =>
    obtain rfl := Option.some.inj h
    exact ⟨wf, filling⟩
  | cons son rest ih =>
    rw [List.foldlM_cons] at h
    obtain ⟨u, hu, h⟩ := Option.bind_eq_some_iff.mp h
    obtain ⟨wf', filling'⟩ := fillSon_wellFormed wf filling hu
    exact ih wf' filling' h

theorem lowerMinstart_wellFormed {s : Dynamap} (wf : WellFormed nativeNext s) (addr : Addr) (idx : Nat) :
    WellFormed nativeNext (lowerMinstart addr s idx) := by
  unfold lowerMinstart
  split
  · exact wf
  split
  case isTrue list _ => exact wf.setList _ list rfl rfl rfl
  · exact wf

theorem lowerMinstart_blocks (addr : Addr) (s : Dynamap) (idx : Nat) :
    (lowerMinstart addr s idx).blocks = s.blocks ∧ (lowerMinstart addr s idx).fresh = s.fresh := by
  unfold lowerMinstart
  repeat' split
  all_goals exact ⟨rfl, rfl⟩

theorem lowerMinstarts_wellFormed {s : Dynamap} (wf : WellFormed nativeNext s) (addr : Addr) (zones : List Nat) :
    WellFormed nativeNext (zones.foldl (lowerMinstart addr) s) ∧
      (zones.foldl (lowerMinstart addr) s).blocks = s.blocks ∧
      (zones.foldl (lowerMinstart addr) s).fresh = s.fresh := by
  induction zones generalizing s with
  | nil => exact ⟨wf, rfl, rfl⟩
  | cons i rest ih =>
    obtain ⟨wf', blocks, fresh⟩ := ih (lowerMinstart_wellFormed wf addr i)
    obtain ⟨blocks', fresh'⟩ := lowerMinstart_blocks addr s i
    exact ⟨wf', blocks.trans blocks', fresh.trans fresh'⟩

theorem updateHints_wellFormed {s t : Dynamap} {z : Nat} {addr : Addr} {x64Size : BitVec 64}
    (wf : WellFormed nativeNext s) (h : updateHints s z addr x64Size = some t) :
    WellFormed nativeNext t ∧ t.blocks = s.blocks ∧ t.fresh = s.fresh := by
  have wf' := lowerMinstart_wellFormed wf addr z
  obtain ⟨blocks, fresh⟩ := lowerMinstart_blocks addr s z
  unfold updateHints at h
  dsimp only at h
  split at h
  · obtain rfl := Option.some.inj h
    exact ⟨wf', blocks, fresh⟩
  case h_2 l list =>
    split at h
    · obtain ⟨zones, _, rfl⟩ := Option.map_eq_some_iff.mp h
      obtain ⟨wf'', blocks', fresh'⟩ := lowerMinstarts_wellFormed
        (wf'.setList { l with maxend := addr + blocksz x64Size } list rfl rfl rfl) addr zones
      exact ⟨wf'', blocks'.trans blocks, fresh'.trans fresh⟩
    · obtain rfl := Option.some.inj h
      exact ⟨wf', blocks, fresh⟩

/-- Entering an unmarked block or the son of one in the jump table. -/
theorem addJump_wellFormed {s : Dynamap} {p : Nat} (wf : WellFormed nativeNext s) (below : p < s.fresh)
    (unmarked : (s.blocks (fatherOf s p)).needTest = false) : WellFormed nativeNext (addJump nativeNext s p) := by
  refine wf.setJmptbl (JumpTable.addJumpTableIfDefault64_wellFormed wf.tables _ _) fun q hq test default => ?_
  rw [JumpTable.entry_addJumpTableIfDefault64 wf.tables, if_neg]
  · exact default
  · rintro ⟨same, -⟩
    obtain rfl := wf.x64Addr_injective hq below same
    rw [unmarked] at test
    cases test

theorem publish_wellFormed {s : Dynamap} {p : Nat} (wf : WellFormed nativeNext s) (filling : Filling s p) :
    WellFormed nativeNext (publish nativeNext s p) := by
  have unmarked : (s.blocks (fatherOf s p)).needTest = false := by
    rw [fatherOf, filling.top]
    exact filling.unmarked
  have sons : ∀ (l : List Nat) (u : Dynamap), WellFormed nativeNext u → u.fresh = s.fresh →
      (∀ q, (u.blocks q).father = (s.blocks q).father ∧ (u.blocks q).needTest = (s.blocks q).needTest) →
      (∀ q ∈ l, q < s.fresh ∧ (s.blocks q).father = some p) →
      WellFormed nativeNext (l.foldl (fun s son =>
        setBlock (addJump nativeNext s son) son fun b => { b with done := true }) u) := by
    intro l
    induction l with
    | nil => intro u wf' _ _ _; exact wf'
    | cons q rest ih =>
      intro u wf' fresh fields mem
      obtain ⟨belowQ, fatherQ⟩ := mem q List.mem_cons_self
      have free : (u.blocks (fatherOf u q)).needTest = false := by
        rw [fatherOf, (fields q).1, fatherQ, Option.getD_some, (fields p).2]
        exact filling.unmarked
      have entered := addJump_wellFormed wf' (fresh ▸ belowQ) free
      refine ih _ (entered.setBlock q _ (fun _ => rfl) (fun _ => rfl) (fun _ => rfl) (fun _ => rfl)) fresh ?_
        (fun r hr => mem r (List.mem_cons_of_mem _ hr))
      intro r
      by_cases same : r = q
      · subst same; simpa using fields r
      · simpa [same] using fields r
  unfold publish
  refine WellFormed.setBlock (sons _ _ (addJump_wellFormed wf filling.below unmarked) rfl
    (fun _ => ⟨rfl, rfl⟩) (fun q hq => wf.sons p q filling.below hq)) p _ ?_ ?_ ?_ ?_
  all_goals exact fun _ => rfl

theorem internalDBGetBlock_wellFormed {s t : Dynamap} {addr : Addr} {f : Filled}
    (wf : WellFormed nativeNext s) (h : internalDBGetBlock nativeNext s addr f = some t) :
    WellFormed nativeNext t := by
  unfold internalDBGetBlock at h
  split at h
  case h_2 => cases h
  case h_1 u p created =>
  obtain ⟨z, l, list, covers, empty, rfl, rfl⟩ := addNewDynablock_created created
  obtain ⟨v, filled, h⟩ := Option.bind_eq_some_iff.mp h
  rw [fillBlock64, setBlock_insertBlock, setBlock_insertBlock] at filled
  have inserted : WellFormed nativeNext (insertBlock s z l addr
      (Dynablock.mk z f.block addr f.x64Size false false [] none)) :=
    wf.insert list covers empty rfl rfl rfl (fun _ hf => by cases hf)
  have filling : Filling (insertBlock s z l addr
      (Dynablock.mk z f.block addr f.x64Size false false [] none)) s.fresh :=
    ⟨Nat.lt_succ_self _, by simp [insertBlock], by simp [insertBlock]⟩
  obtain ⟨wf', filling'⟩ := fillSons_wellFormed inserted filling filled
  split at h
  · obtain rfl := Option.some.inj h
    exact wf'
  · obtain ⟨w, hinted, h⟩ := Option.bind_eq_some_iff.mp h
    obtain rfl := Option.some.inj h
    obtain ⟨wf'', blocks, fresh⟩ := updateHints_wellFormed wf' hinted
    exact publish_wellFormed wf'' ⟨fresh ▸ filling'.below, blocks ▸ filling'.unmarked, blocks ▸ filling'.top⟩

end Box64.Dynarec
