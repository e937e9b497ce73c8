import Box64.Custommem.ProtectionMap
import Box64.Lib.Transition

/-!
# Write protection for translated code

`protectDB` takes the write permission from pages that hold translated code, and `unprotectDB`
gives it back. Of what the guest asked for, only `PROT_DYNAREC` in the recorded protection tells
that a write permission was taken.
-/

namespace Box64.Custommem

namespace MemProt

def protectDB (s : MemProt) (addr size : BitVec 64) : MemProt :=
  s.writePages addr size fun s i =>
    let prot := (s.page i).setWidth 32
    -- comes from malloc & co, so should not be able to execute
    let prot := if prot = 0 then PROT_READ ||| PROT_WRITE ||| PROT_EXEC else prot
    if prot &&& PROT_WRITE ≠ 0 then s.setPage i ((prot &&& ~~~PROT_WRITE ||| PROT_DYNAREC).setWidth 8) else s

/-- The table after `unprotectDB`; the translated blocks of the pages are dealt with elsewhere. -/
def unprotectDB (s : MemProt) (addr size : BitVec 64) : MemProt :=
  s.writePages addr size fun s i =>
    let prot := (s.page i).setWidth 32
    if prot &&& PROT_DYNAREC ≠ 0 then s.setPage i ((prot &&& ~~~PROT_DYNAREC ||| PROT_WRITE).setWidth 8) else s

/-- The loop of `isprotectedDB`. -/
def noneWritable (s : MemProt) (i : Nat) : Nat → Bool
  | 0 => true
  | n + 1 => if (s.page i).setWidth 32 &&& PROT_WRITE ≠ 0 then false else s.noneWritable (i + 1) n

def isprotectedDB (s : MemProt) (addr size : BitVec 64) : Bool :=
  let idx := pageOf addr
  let last := endPage addr size
  if last < idx then false else s.noneWritable idx (last + 1 - idx)

/-! ### Bytes -/

def protectByte (p : BitVec 8) : BitVec 8 :=
  if p = 0 then 0x85 else if p &&& 2 ≠ 0 then p &&& 0xFD ||| 0x80 else p

def unprotectByte (p : BitVec 8) : BitVec 8 := if p &&& 0x80 ≠ 0 then p &&& 0x7F ||| 2 else p

theorem setPage_self (s : MemProt) (i : Nat) : s.setPage i (s.page i) = s := by
  unfold setPage setByte page
  rw [Function.update_eq_self, Function.update_eq_self]

theorem protectDB_mapsRange {s : MemProt} (wf : WellFormed s) (addr size : BitVec 64) :
    MapsRange protectByte addr size s (s.protectDB addr size) := by
  refine writePages_mapsRange wf addr size _ ?_
  intro t i
  have byte : ∀ p : BitVec 8, protectByte p =
      (let prot := if p.setWidth 32 = 0 then PROT_READ ||| PROT_WRITE ||| PROT_EXEC else p.setWidth 32
       if prot &&& PROT_WRITE ≠ 0 then (prot &&& ~~~PROT_WRITE ||| PROT_DYNAREC).setWidth 8 else p) := by
    decide +kernel
  rw [byte]
  dsimp only
  generalize (if (t.page i).setWidth 32 = 0 then PROT_READ ||| PROT_WRITE ||| PROT_EXEC
    else (t.page i).setWidth 32) = prot
  split
  · rfl
  · exact (setPage_self t i).symm

theorem unprotectDB_mapsRange {s : MemProt} (wf : WellFormed s) (addr size : BitVec 64) :
    MapsRange unprotectByte addr size s (s.unprotectDB addr size) := by
  refine writePages_mapsRange wf addr size _ ?_
  intro t i
  have byte : ∀ p : BitVec 8, unprotectByte p =
      if p.setWidth 32 &&& PROT_DYNAREC ≠ 0 then (p.setWidth 32 &&& ~~~PROT_DYNAREC ||| PROT_WRITE).setWidth 8
      else p := by
    decide +kernel
  rw [byte]
  dsimp only
  split
  · rfl
  · exact (setPage_self t i).symm

/-- `isprotectedDB` holds of a range below 2^48 with no page recorded as writable. -/
theorem isprotectedDB_iff (s : MemProt) (addr size : BitVec 64) :
    s.isprotectedDB addr size = true ↔
      pageOf addr ≤ endPage addr size ∧ ∀ p, pageOf addr ≤ p → p ≤ endPage addr size → s.page p &&& 2 = 0 := by
  have byte : ∀ p : BitVec 8, (p.setWidth 32 &&& PROT_WRITE ≠ 0) ↔ p &&& 2 ≠ 0 := by decide +kernel
  have loop : ∀ n i, s.noneWritable i n = true ↔ ∀ p, i ≤ p → p < i + n → s.page p &&& 2 = 0 := by
    intro n
    induction n with
    | zero =>
      intro i
      exact ⟨fun _ p low high => absurd high (by omega), fun _ => rfl⟩
    | succ n ih =>
      intro i
      unfold noneWritable
      simp only [byte]
      split
      case isTrue writable =>
        refine ⟨fun stop => absurd stop Bool.false_ne_true, fun all => ?_⟩
        exact absurd (all i (Nat.le_refl i) (by omega)) writable
      case isFalse here =>
        rw [ih]
        constructor
        · intro rest p low high
          by_cases first : p = i
          · exact first ▸ not_not.mp here
          · exact rest p (by omega) (by omega)
        · intro all p low high
          exact all p (by omega) (by omega)
  unfold isprotectedDB
  dsimp only
  by_cases backwards : endPage addr size < pageOf addr
  · rw [if_pos backwards]
    exact ⟨fun stop => absurd stop Bool.false_ne_true, fun h => absurd h.1 (by omega)⟩
  · rw [if_neg backwards, loop]
    constructor
    · intro all
      exact ⟨by omega, fun p low high => all p low (by omega)⟩
    · intro h p low high
      exact h.2 p low (by omega)

end MemProt

open MemProt

/-! ### The history of a page -/

inductive GuardCall where
  | setProtection (addr size : BitVec 64) (prot : BitVec 32)
  | updateProtection (addr size : BitVec 64) (prot : BitVec 32)
  | protectDB (addr size : BitVec 64)
  | unprotectDB (addr size : BitVec 64)

/-- The table, and of one page the protection last asked for and whether a `protectDB` has come
after the last `unprotectDB`. -/
structure PageHistory where
  table : MemProt
  guest : Option (BitVec 32)
  held : Bool

/-- A call, as page `p` sees it. -/
def PageHistory.call (p : Nat) (s : PageHistory) : GuardCall → PageHistory
  | .setProtection addr size prot =>
    { s with
      table := s.table.setProtection addr size prot
      guest := if InRange addr size p then some prot else s.guest }
  | .updateProtection addr size prot =>
    { s with
      table := s.table.updateProtection addr size prot
      guest := if InRange addr size p then some prot else s.guest }
  | .protectDB addr size =>
    { s with
      table := s.table.protectDB addr size
      held := if InRange addr size p then true else s.held }
  | .unprotectDB addr size =>
    { s with
      table := s.table.unprotectDB addr size
      held := if InRange addr size p then false else s.held }

/-- The first call that covers the page gives it a protection other than none. -/
def Begins (p : Nat) (s : PageHistory) : GuardCall → Prop
  | .setProtection addr size prot => s.guest = none → InRange addr size p → prot ≠ 0
  | .updateProtection addr size _ | .protectDB addr size | .unprotectDB addr size =>
    s.guest = none → ¬InRange addr size p

/-- Every sequence of calls, as page `p` sees them. -/
def pageHistory (p : Nat) : Transition.System PageHistory GuardCall where
  init s := WellFormed s.table ∧ s.guest = none ∧ s.held = false
  step s c t := Begins p s c ∧ t = s.call p c

/-- Outside `protectDB` to `unprotectDB` the page has the protection last asked for; inside, it is
not recorded as writable. -/
def Transparent (p : Nat) (s : PageHistory) : Prop :=
  ∀ g, s.guest = some g →
    (s.held = false → (s.table.page p).setWidth 32 = g) ∧ (s.held = true → s.table.page p &&& 2 = 0)

/-- The calls for which write protection is transparent: a protection asked for has bits below
`PROT_DYNAREC` only, and no `PROT_WRITE` while the page is held; when the page is given back with
`PROT_DYNAREC` on it, the guest did ask for `PROT_WRITE`. -/
def Plain (p : Nat) (s : PageHistory) : GuardCall → Prop
  | .setProtection addr size prot | .updateProtection addr size prot =>
    InRange addr size p → prot < 0x80 ∧ (s.held = true → prot &&& PROT_WRITE = 0)
  | .protectDB _ _ => True
  | .unprotectDB addr size =>
    InRange addr size p → s.table.page p &&& 0x80 ≠ 0 → ∃ g, s.guest = some g ∧ g &&& PROT_WRITE ≠ 0

/-- The recorded byte `r` of a page whose guest asked for `g`, held or not. -/
def Recorded (held : Bool) (g r : BitVec 8) : Prop :=
  g &&& 0x80 = 0 ∧ (held = false → r = g) ∧
    (held = true → r &&& 2 = 0 ∧ (r &&& 0x80 = 0 → r = g) ∧
      (r &&& 0x80 ≠ 0 → g &&& 2 ≠ 0 → r = g &&& 0xFD ||| 0x80))

structure HistoryInvariant (p : Nat) (s : PageHistory) : Prop where
  wellFormed : WellFormed s.table
  unheld : s.guest = none → s.held = false
  recorded : ∀ g, s.guest = some g → g < 0x80 ∧ Recorded s.held (g.setWidth 8) (s.table.page p)

theorem guest_byte {g : BitVec 32} (small : g < 0x80) : (g.setWidth 8).setWidth 32 = g := by
  have bound := BitVec.lt_def.mp small
  have value : (0x80 : BitVec 32).toNat = 0x80 := rfl
  rw [value] at bound
  apply BitVec.eq_of_toNat_eq
  rw [BitVec.toNat_setWidth, BitVec.toNat_setWidth]
  omega

theorem guest_writes {g : BitVec 32} (small : g < 0x80) : g &&& PROT_WRITE ≠ 0 ↔ g.setWidth 8 &&& 2 ≠ 0 := by
  have byte : ∀ b : BitVec 8, b.setWidth 32 &&& PROT_WRITE ≠ 0 ↔ b &&& 2 ≠ 0 := by decide +kernel
  rw [← byte, guest_byte small]

theorem guest_low {g : BitVec 32} (small : g < 0x80) : g.setWidth 8 &&& 0x80 = 0 := by
  have byte : ∀ b : BitVec 8, b.setWidth 32 < (0x80 : BitVec 32) → b &&& 0x80 = 0 := by decide +kernel
  exact byte _ (by rwa [guest_byte small])

/-- The bit that stays when a protection is updated. -/
theorem dynarec_bit (r : BitVec 8) : r &&& 0x80 = 0 ∨ r &&& 0x80 = 0x80 := by
  revert r
  decide +kernel

theorem recorded_set {held : Bool} {g : BitVec 8} (low : g &&& 0x80 = 0) (quiet : held = true → g &&& 2 = 0) :
    Recorded held g g := by
  refine ⟨low, fun _ => rfl, fun h => ⟨quiet h, fun _ => rfl, fun dynarec => ?_⟩⟩
  exact absurd low dynarec

theorem recorded_update {held : Bool} {g h r : BitVec 8} (before : Recorded held g r) (low : h &&& 0x80 = 0)
    (quiet : held = true → h &&& 2 = 0) : Recorded held h (h ||| (r &&& 0x80)) := by
  obtain ⟨lowG, plain, -⟩ := before
  rcases dynarec_bit r with none | some
  · have same : h ||| 0 = h := BitVec.or_zero
    rw [none, same]
    exact recorded_set low quiet
  · cases held with
    | false =>
      rw [plain rfl, lowG] at some
      cases some
    | true =>
      have bits : ∀ h : BitVec 8, h &&& 2 = 0 → (h ||| 0x80) &&& 2 = 0 ∧ (h ||| 0x80) &&& 0x80 ≠ 0 := by
        decide +kernel
      have silent := quiet rfl
      obtain ⟨writable, dynarec⟩ := bits h silent
      rw [some]
      refine ⟨low, fun never => absurd never (by decide), fun _ => ⟨writable, ?_, ?_⟩⟩
      · exact fun zero => absurd zero dynarec
      · exact fun _ writes => absurd silent writes

theorem recorded_protect {held : Bool} {g r : BitVec 8} (before : Recorded held g r) :
    Recorded true g (protectByte r) := by
  obtain ⟨low, plain, kept⟩ := before
  have start : ∀ r : BitVec 8, r &&& 2 = 0 → (r &&& 0x80 = 0 → r = g) → (r &&& 0x80 ≠ 0 → g &&& 2 ≠ 0 →
      r = g &&& 0xFD ||| 0x80) → Recorded true g (protectByte r) := by
    intro r quiet same taken
    by_cases zero : r = 0
    · subst zero
      have here : (0 : BitVec 8) = g := same (by decide)
      subst here
      refine ⟨low, fun never => absurd never (by decide), fun _ => by decide⟩
    · have unchanged : protectByte r = r := by
        rw [protectByte, if_neg zero, if_neg (fun writes => writes quiet)]
      rw [unchanged]
      exact ⟨low, fun never => absurd never (by decide), fun _ => ⟨quiet, same, taken⟩⟩
  cases held with
  | true =>
    obtain ⟨quiet, same, taken⟩ := kept rfl
    exact start r quiet same taken
  | false =>
    obtain rfl := plain rfl
    by_cases writes : r &&& 2 ≠ 0
    · have bits : ∀ r : BitVec 8, r &&& 2 ≠ 0 → protectByte r = r &&& 0xFD ||| 0x80 ∧
          (r &&& 0xFD ||| 0x80) &&& 2 = 0 ∧ (r &&& 0xFD ||| 0x80) &&& 0x80 ≠ 0 := by decide +kernel
      obtain ⟨taken, quiet, dynarec⟩ := bits r writes
      rw [taken]
      refine ⟨low, fun never => absurd never (by decide), fun _ => ⟨quiet, ?_, fun _ _ => rfl⟩⟩
      exact fun zero => absurd zero dynarec
    · exact start r (not_not.mp writes) (fun _ => rfl) fun dynarec => absurd low dynarec

theorem recorded_unprotect {held : Bool} {g r : BitVec 8} (before : Recorded held g r)
    (asked : r &&& 0x80 ≠ 0 → g &&& 2 ≠ 0) : Recorded false g (unprotectByte r) := by
  obtain ⟨low, plain, kept⟩ := before
  have same : unprotectByte r = g := by
    by_cases dynarec : r &&& 0x80 ≠ 0
    · cases held with
      | false =>
        rw [plain rfl] at dynarec
        exact absurd low dynarec
      | true =>
        have bits : ∀ g : BitVec 8, g &&& 0x80 = 0 → g &&& 2 ≠ 0 → unprotectByte (g &&& 0xFD ||| 0x80) = g := by
          decide +kernel
        rw [(kept rfl).2.2 dynarec (asked dynarec)]
        exact bits g low (asked dynarec)
    · rw [unprotectByte, if_neg dynarec]
      cases held with
      | false => exact plain rfl
      | true => exact (kept rfl).2.1 (not_not.mp dynarec)
  rw [same]
  exact ⟨low, fun _ => rfl, fun never => absurd never (by decide)⟩

/-! ### Runs -/

theorem page_in_range {f : BitVec 8 → BitVec 8} {addr size : BitVec 64} {s t : MemProt} {p : Nat}
    (maps : MapsRange f addr size s t) (inside : InRange addr size p) : t.page p = f (s.page p) := by
  rw [maps.page p, if_pos]
  unfold InRange at inside
  unfold endPage
  split <;> omega

theorem page_out_of_range {f : BitVec 8 → BitVec 8} {addr size : BitVec 64} {s t : MemProt} {p : Nat}
    (maps : MapsRange f addr size s t) (outside : ¬InRange addr size p) : t.page p = s.page p := by
  rw [maps.page p, if_neg]
  unfold InRange at outside
  unfold endPage
  split <;> omega

/-- A call that the page is not in. -/
theorem HistoryInvariant.elsewhere {p : Nat} {s : PageHistory} {t : MemProt} (invariant : HistoryInvariant p s)
    (wf : WellFormed t) (same : t.page p = s.table.page p) : HistoryInvariant p { s with table := t } := by
  refine ⟨wf, invariant.unheld, fun g asked => ?_⟩
  dsimp only
  rw [same]
  exact invariant.recorded g asked

theorem call_invariant {p : Nat} {s : PageHistory} {c : GuardCall} (invariant : HistoryInvariant p s)
    (begins : Begins p s c) (plain : Plain p s c) : HistoryInvariant p (s.call p c) := by
  have wf := invariant.wellFormed
  cases c with
  | setProtection addr size prot =>
    have maps := setProtection_mapsRange wf addr size prot
    by_cases inside : InRange addr size p
    · obtain ⟨small, quiet⟩ := plain inside
      simp only [PageHistory.call, if_pos inside]
      refine ⟨maps.wellFormed, (fun never => by cases never), fun g asked => ?_⟩
      obtain rfl := Option.some.inj asked
      dsimp only
      rw [page_in_range maps inside]
      refine ⟨small, recorded_set (guest_low small) fun held => ?_⟩
      exact not_not.mp fun writes => (guest_writes small).mpr writes (quiet held)
    · simp only [PageHistory.call, if_neg inside]
      exact invariant.elsewhere maps.wellFormed (page_out_of_range maps inside)
  | updateProtection addr size prot =>
    have maps := updateProtection_mapsRange wf addr size prot
    by_cases inside : InRange addr size p
    · obtain ⟨small, quiet⟩ := plain inside
      simp only [PageHistory.call, if_pos inside]
      refine ⟨maps.wellFormed, (fun never => by cases never), fun g asked => ?_⟩
      obtain rfl := Option.some.inj asked
      dsimp only
      rw [page_in_range maps inside]
      cases before : s.guest with
      | none => exact absurd inside (begins before)
      | some h =>
        obtain ⟨-, recorded⟩ := invariant.recorded h before
        refine ⟨small, recorded_update recorded (guest_low small) fun held => ?_⟩
        exact not_not.mp fun writes => (guest_writes small).mpr writes (quiet held)
    · simp only [PageHistory.call, if_neg inside]
      exact invariant.elsewhere maps.wellFormed (page_out_of_range maps inside)
  | protectDB addr size =>
    have maps := protectDB_mapsRange wf addr size
    by_cases inside : InRange addr size p
    · simp only [PageHistory.call, if_pos inside]
      refine ⟨maps.wellFormed, fun none => absurd inside (begins none), fun g asked => ?_⟩
      obtain ⟨small, recorded⟩ := invariant.recorded g asked
      dsimp only
      rw [page_in_range maps inside]
      exact ⟨small, recorded_protect recorded⟩
    · simp only [PageHistory.call, if_neg inside]
      exact invariant.elsewhere maps.wellFormed (page_out_of_range maps inside)
  | unprotectDB addr size =>
    have maps := unprotectDB_mapsRange wf addr size
    by_cases inside : InRange addr size p
    · simp only [PageHistory.call, if_pos inside]
      refine ⟨maps.wellFormed, fun _ => rfl, fun g asked => ?_⟩
      obtain ⟨small, recorded⟩ := invariant.recorded g asked
      dsimp only
      rw [page_in_range maps inside]
      refine ⟨small, recorded_unprotect recorded fun dynarec => ?_⟩
      obtain ⟨h, last, writes⟩ := plain inside dynarec
      obtain rfl := Option.some.inj (asked.symm.trans last)
      exact (guest_writes small).mp writes
    · simp only [PageHistory.call, if_neg inside]
      exact invariant.elsewhere maps.wellFormed (page_out_of_range maps inside)

/-- Where every call is plain, write protection is transparent in every state reached. -/
theorem protectDB_transparent {p : Nat} {s : PageHistory}
    (h : Transition.Reachable ((pageHistory p).guard (Plain p)) s) : Transparent p s := by
  have invariant : HistoryInvariant p s := by
    refine h.invariant (P := HistoryInvariant p) ?_ ?_
    · rintro s ⟨wf, none, unheld⟩
      exact ⟨wf, fun _ => unheld, fun g asked => by rw [none] at asked; cases asked⟩
    · rintro s c t invariant ⟨plain, begins, rfl⟩
      exact call_invariant invariant begins plain
  intro g asked
  obtain ⟨small, -, same, quiet⟩ := invariant.recorded g asked
  refine ⟨fun unheld => ?_, fun held => (quiet held).1⟩
  rw [same unheld]
  exact guest_byte small

/-- The page at 0x10000 after `calls`, from an empty table. -/
def historyAfter (calls : List GuardCall) : PageHistory :=
  calls.foldl (PageHistory.call 0x10) ⟨initialMemProt, none, false⟩

def guestReadWrite : GuardCall := .setProtection 0x10000 0x1000 3
def guestReadOnly : GuardCall := .updateProtection 0x10000 0x1000 1
def pageHeld : GuardCall := .protectDB 0x10000 0x1000
def pageGivenBack : GuardCall := .unprotectDB 0x10000 0x1000

theorem historyAfter_held : Transition.Reachable (pageHistory 0x10) (historyAfter [guestReadWrite, pageHeld]) := by
  have start : Transition.Reachable (pageHistory 0x10) (historyAfter []) := .initial ⟨initial_wellFormed, rfl, rfl⟩
  have first : Transition.Reachable (pageHistory 0x10) (historyAfter [guestReadWrite]) :=
    start.step (a := guestReadWrite) ⟨fun _ _ => by decide, rfl⟩
  exact first.step (a := pageHeld) ⟨(fun none => by cases none), rfl⟩

/-- The guest makes a page read-only while it is held: it comes back as writable. -/
theorem protectDB_not_transparent :
    ∃ s, Transition.Reachable (pageHistory 0x10) s ∧ s.held = false ∧ s.guest = some 1 ∧ s.table.page 0x10 = 3 := by
  refine ⟨historyAfter [guestReadWrite, pageHeld, guestReadOnly, pageGivenBack], ?_, by decide +kernel,
    by decide +kernel, by decide +kernel⟩
  have updated : Transition.Reachable (pageHistory 0x10) (historyAfter [guestReadWrite, pageHeld, guestReadOnly]) :=
    historyAfter_held.step (a := guestReadOnly) ⟨(fun none => by cases none), rfl⟩
  exact updated.step (a := pageGivenBack) ⟨(fun none => by cases none), rfl⟩

/-- The page is held and given back with no change in between. -/
theorem protectDB_transparent_readWrite :
    Transparent 0x10 (historyAfter [guestReadWrite, pageHeld, pageGivenBack]) := by
  have start : Transition.Reachable ((pageHistory 0x10).guard (Plain 0x10)) (historyAfter []) :=
    .initial ⟨initial_wellFormed, rfl, rfl⟩
  have first : Transition.Reachable ((pageHistory 0x10).guard (Plain 0x10)) (historyAfter [guestReadWrite]) :=
    start.step (a := guestReadWrite) ⟨fun _ => ⟨by decide, (fun never => by cases never)⟩, fun _ _ => by decide, rfl⟩
  have held : Transition.Reachable ((pageHistory 0x10).guard (Plain 0x10)) (historyAfter [guestReadWrite, pageHeld]) :=
    first.step (a := pageHeld) ⟨trivial, (fun none => by cases none), rfl⟩
  exact protectDB_transparent
    (held.step (a := pageGivenBack) ⟨fun _ _ => ⟨3, rfl, by decide⟩, (fun none => by cases none), rfl⟩)

end Box64.Custommem
