import Box64.Custommem.MemProt

/-!
# The page protections as one flat map

The chunks stand for a map from every page to its protection. Each function of the table changes
that map on the pages of its range and nowhere else.
-/

namespace Box64.Custommem.MemProt

open Function (update)

/-! ### The loops that skip -/

theorem or_chunk_mask (i : Nat) : i ||| 65535 = i / 65536 * 65536 + 65535 := by
  apply Nat.eq_of_testBit_eq
  intro k
  have shifted : i / 65536 * 65536 + 65535 = 2 ^ 16 * (i / 65536) + 65535 := by omega
  rw [Nat.testBit_or, shifted, Nat.testBit_two_pow_mul_add _ (by decide)]
  have mask : (65535 : Nat).testBit k = decide (k < 16) := Nat.testBit_two_pow_sub_one 16 k
  split
  case isTrue low => simp [mask, low]
  case isFalse high =>
    have quotient : i / 65536 = i / 2 ^ 16 := rfl
    rw [mask, quotient, Nat.testBit_div_two_pow, Nat.sub_add_cancel (by omega)]
    simp [high]

/-- The rounds of the outer loops end with the chunk or the range, whichever is first. -/
theorem finish_spec {i last : Nat} (ordered : i ≤ last) :
    finish i last < 65536 ∧ i % 65536 ≤ finish i last ∧ i / 65536 * 65536 + finish i last ≤ last ∧
      i + (finish i last - i % 65536) = i / 65536 * 65536 + finish i last := by
  unfold finish
  rw [or_chunk_mask]
  split <;> omega

theorem allocLoop_mapped {prot : BitVec 32} {last : Nat} (fuel : Nat) {s : MemProt} {i : Nat} (wf : WellFormed s)
    (enough : last + 1 ≤ i + fuel) (owned : ∀ j, i ≤ j → j ≤ last → Owned s j) :
    Mapped (fun p => if p = 0 then prot.setWidth 8 else p) i (last + 1) s (allocLoop prot last fuel s i) := by
  induction fuel generalizing s i with
  | zero => exact Mapped.refl wf _ (by omega)
  | succ fuel ih =>
    unfold allocLoop
    dsimp only
    split
    case isFalse done => exact Mapped.refl wf _ (by omega)
    case isTrue ordered =>
      obtain ⟨small, start, inside, next⟩ := finish_spec ordered
      obtain ⟨round, pointers⟩ := forEach_mapped (s := s) (i := i % 65536)
        (f := fun p => if p = 0 then prot.setWidth 8 else p)
        (fun t ii => if t.chunk (s.memprot (i / 65536)) ii = 0 then
          t.setByte (s.memprot (i / 65536)) ii (prot.setWidth 8) else t)
        (i / 65536 * 65536) (finish i last + 1 - i % 65536) wf fun t ii wf' same low high => by
          have mine : Owned t i := by
            unfold Owned
            rw [same]
            exact owned i (Nat.le_refl i) ordered
          have byte : t.page (i / 65536 * 65536 + ii) = t.chunk (s.memprot (i / 65536)) ii := by
            have quotient : (i / 65536 * 65536 + ii) / 65536 = i / 65536 := by omega
            have offset : (i / 65536 * 65536 + ii) % 65536 = ii := by omega
            rw [page, quotient, offset, same]
          split
          case isTrue zero =>
            refine ⟨⟨setByte_wellFormed wf' (same ▸ mine), fun j => ?_⟩, rfl⟩
            rw [← same, page_setByte wf' mine (by omega)]
            by_cases here : j = i / 65536 * 65536 + ii
            · rw [if_pos here, if_pos (by omega), here, byte, if_pos zero]
            · rw [if_neg here, if_neg (by omega)]
          case isFalse used =>
            refine ⟨⟨wf', fun j => ?_⟩, rfl⟩
            split
            case isTrue here =>
              obtain rfl : j = i / 65536 * 65536 + ii := by omega
              rw [byte, if_neg used]
            · rfl
      have first : i / 65536 * 65536 + i % 65536 = i := by omega
      have stop : i + (finish i last + 1 - i % 65536) = i + (finish i last - i % 65536) + 1 := by omega
      rw [first, stop] at round
      refine round.trans (ih round.wellFormed (by omega) ?_) (by omega)
      intro j low high
      unfold Owned
      rw [pointers]
      exact owned j (by omega) high

theorem page_addMapMem (s : MemProt) (addr size : BitVec 64) (j : Nat) :
    (s.addMapMem addr size).page j = s.page j := by simp only [addMapMem, page]

theorem page_removeMapMem (s : MemProt) (addr size : BitVec 64) (j : Nat) :
    (s.removeMapMem addr size).page j = s.page j := by simp only [removeMapMem, page]

theorem allocProtection_mapsRange {s : MemProt} (wf : WellFormed s) (addr size : BitVec 64) (prot : BitVec 32) :
    MapsRange (fun p => if p = 0 then prot.setWidth 8 else p) addr size s (s.allocProtection addr size prot) := by
  have wf' : WellFormed (s.addMapMem addr size) := wf.mapmem _
  have same := page_addMapMem s addr size
  unfold allocProtection MapsRange
  dsimp only
  generalize s.addMapMem addr size = t at wf' same ⊢
  by_cases backwards : endPage addr size < pageOf addr
  · rw [if_pos backwards]
    refine ⟨wf', fun j => ?_⟩
    rw [if_neg (by omega), same]
  · rw [if_neg backwards]
    obtain ⟨wf'', pages, owned⟩ := allocChunks_wellFormed wf' (pageOf addr) (endPage addr size)
    have mapped : Mapped _ (pageOf addr) (endPage addr size + 1) _ (allocLoop prot _ _ _ _) :=
      allocLoop_mapped (endPage addr size + 1 - pageOf addr) wf'' (by omega) owned
    refine ⟨mapped.wellFormed, fun j => ?_⟩
    rw [mapped.page j, pages j, same]

theorem blockEmpty_iff (block : Nat → BitVec 8) : blockEmpty block = true ↔ ∀ o < 65536, block o = 0 := by
  simp [blockEmpty]

/-- One round of `freeProtection` in a chunk with a block of its own. -/
theorem clearRound_mapped {s : MemProt} (wf : WellFormed s) {i stop : Nat} (owned : Owned s i)
    (small : stop < 65536) :
    Mapped (fun _ => 0) i (i / 65536 * 65536 + stop + 1) s
      { s with
        chunk := update s.chunk (s.memprot (i / 65536)) (clear (s.chunk (s.memprot (i / 65536))) (i % 65536) stop)
        memprot := if blockEmpty (clear (s.chunk (s.memprot (i / 65536))) (i % 65536) stop) then
          update s.memprot (i / 65536) 0 else s.memprot } := by
  generalize hb : clear (s.chunk (s.memprot (i / 65536))) (i % 65536) stop = block
  have pointer : ∀ d, (if blockEmpty block then update s.memprot (i / 65536) 0 else s.memprot) d =
      if blockEmpty block ∧ d = i / 65536 then 0 else s.memprot d := by
    intro d
    by_cases empty : blockEmpty block = true <;> by_cases same : d = i / 65536 <;> simp [update, empty, same]
  have shared : ∀ o, update s.chunk (s.memprot (i / 65536)) block 0 o = 0 := by
    intro o
    rw [Function.update_of_ne (Ne.symm owned)]
    exact wf.zeros o
  refine ⟨⟨?_, ?_, shared⟩, ?_⟩
  · intro d
    have below := wf.below d
    dsimp only
    rw [pointer]
    split <;> omega
  · intro d e same used
    dsimp only at same used
    rw [pointer] at used
    rw [pointer, pointer] at same
    split at used
    · exact absurd rfl used
    case isFalse kept =>
      rw [if_neg kept] at same
      split at same
      · exact absurd same used
      · exact wf.apart d e same used
  · intro j
    have written : ∀ o < 65536, block o = if i % 65536 ≤ o ∧ o ≤ stop then 0 else
        s.chunk (s.memprot (i / 65536)) o := fun o _ => by rw [← hb, clear]
    unfold page
    dsimp only
    rw [pointer]
    by_cases chunk : j / 65536 = i / 65536
    · have range : (i % 65536 ≤ j % 65536 ∧ j % 65536 ≤ stop) ↔ (i ≤ j ∧ j < i / 65536 * 65536 + stop + 1) := by
        omega
      have byte := written (j % 65536) (by omega)
      simp only [range] at byte
      by_cases empty : blockEmpty block = true
      · rw [if_pos ⟨empty, chunk⟩, shared, chunk, ← byte]
        exact ((blockEmpty_iff block).mp empty _ (by omega)).symm
      · rw [if_neg (fun both => empty both.1), chunk, Function.update_self]
        exact byte
    · rw [if_neg (fun both => chunk both.2), Function.update_of_ne, if_neg (by omega)]
      intro same
      exact chunk (wf.apart _ _ same (fun zero => owned (same ▸ zero)))

theorem freeLoop_mapped {last : Nat} (fuel : Nat) {s : MemProt} {i : Nat} (wf : WellFormed s)
    (enough : last + 1 ≤ i + fuel) : Mapped (fun _ => 0) i (last + 1) s (freeLoop last fuel s i) := by
  induction fuel generalizing s i with
  | zero => exact Mapped.refl wf _ (by omega)
  | succ fuel ih =>
    unfold freeLoop
    dsimp only
    by_cases ordered : i ≤ last
    · rw [if_pos ordered]
      by_cases owned : s.memprot (i / 65536) ≠ 0
      · rw [if_pos owned]
        obtain ⟨small, start, inside, next⟩ := finish_spec ordered
        have round := clearRound_mapped wf owned small
        rw [← next] at round
        exact round.trans (ih round.wellFormed (by omega)) (by omega)
      · rw [if_neg owned]
        have zero : Mapped (fun _ => 0) i (i + 1) s s := by
          refine ⟨wf, fun j => ?_⟩
          split
          case isTrue here =>
            obtain rfl : j = i := by omega
            exact page_of_not_owned wf owned
          · rfl
        exact zero.trans (ih wf (by omega)) (by omega)
    · rw [if_neg ordered]
      exact Mapped.refl wf _ (by omega)

theorem freeProtection_mapsRange {s : MemProt} (wf : WellFormed s) (addr size : BitVec 64) :
    MapsRange (fun _ => 0) addr size s (s.freeProtection addr size) := by
  have wf' : WellFormed (s.removeMapMem addr size) := wf.mapmem _
  have same := page_removeMapMem s addr size
  unfold freeProtection MapsRange
  dsimp only
  generalize s.removeMapMem addr size = t at wf' same ⊢
  by_cases backwards : endPage addr size < pageOf addr
  · rw [if_pos backwards]
    refine ⟨wf', fun j => ?_⟩
    rw [if_neg (by omega), same]
  · rw [if_neg backwards]
    have mapped : Mapped _ (pageOf addr) (endPage addr size + 1) t _ :=
      freeLoop_mapped (endPage addr size + 1 - pageOf addr) wf' (by omega)
    refine ⟨mapped.wellFormed, fun j => ?_⟩
    rw [mapped.page j, same]

theorem setProtection_mapsRange {s : MemProt} (wf : WellFormed s) (addr size : BitVec 64) (prot : BitVec 32) :
    MapsRange (fun _ => prot.setWidth 8) addr size s (s.setProtection addr size prot) := by
  have wf' : WellFormed (s.addMapMem addr size) := wf.mapmem _
  have same := page_addMapMem s addr size
  unfold setProtection
  generalize s.addMapMem addr size = t at wf' same ⊢
  have mapped := writePages_mapsRange wf' addr size (f := fun _ => prot.setWidth 8) _ fun _ _ => rfl
  refine ⟨mapped.wellFormed, fun j => ?_⟩
  rw [mapped.page j, same]

/-- `updateProtection` stores the new protection and keeps the bit that tells a page was made
read-only for its translated code. -/
theorem updateProtection_mapsRange {s : MemProt} (wf : WellFormed s) (addr size : BitVec 64) (prot : BitVec 32) :
    MapsRange (fun p => prot.setWidth 8 ||| (p &&& 0x80)) addr size s (s.updateProtection addr size prot) := by
  have wf' : WellFormed (s.addMapMem addr size) := wf.mapmem _
  have same := page_addMapMem s addr size
  unfold updateProtection
  generalize s.addMapMem addr size = t at wf' same ⊢
  have mapped := writePages_mapsRange wf' addr size (f := fun p => prot.setWidth 8 ||| (p &&& 0x80))
    (fun s i => s.setPage i ((prot ||| ((s.page i).setWidth 32 &&& PROT_DYNAREC)).setWidth 8)) fun u i => by
      congr 1
      ext b
      simp [PROT_DYNAREC]
  refine ⟨mapped.wellFormed, fun j => ?_⟩
  rw [mapped.page j, same]

/-! ### The flat map -/

inductive Call where
  | setProtection (addr size : BitVec 64) (prot : BitVec 32)
  | allocProtection (addr size : BitVec 64) (prot : BitVec 32)
  | updateProtection (addr size : BitVec 64) (prot : BitVec 32)
  | freeProtection (addr size : BitVec 64)

def call (s : MemProt) : Call → MemProt
  | .setProtection addr size prot => s.setProtection addr size prot
  | .allocProtection addr size prot => s.allocProtection addr size prot
  | .updateProtection addr size prot => s.updateProtection addr size prot
  | .freeProtection addr size => s.freeProtection addr size

/-- The pages of a range below 2^48. -/
def InRange (addr size : BitVec 64) (p : Nat) : Prop :=
  pageOf addr ≤ p ∧ p ≤ pageOf (addr + size - 1) ∧ p < 2 ^ 36

instance (addr size : BitVec 64) (p : Nat) : Decidable (InRange addr size p) := by
  unfold InRange
  infer_instance

def onRange (addr size : BitVec 64) (f : BitVec 8 → BitVec 8) (m : Nat → BitVec 8) : Nat → BitVec 8 := fun p =>
  if InRange addr size p then f (m p) else m p

/-- What each call does to a map from pages to protections. A protection is a byte. -/
def flatCall (m : Nat → BitVec 8) : Call → Nat → BitVec 8
  | .setProtection addr size prot => onRange addr size (fun _ => prot.setWidth 8) m
  | .allocProtection addr size prot => onRange addr size (fun p => if p = 0 then prot.setWidth 8 else p) m
  | .updateProtection addr size prot => onRange addr size (fun p => prot.setWidth 8 ||| (p &&& 0x80)) m
  | .freeProtection addr size => onRange addr size (fun _ => 0) m

/-- For a range inside the 64-bit space these are the pages that hold one of its bytes. -/
theorem inRange_iff {addr size : BitVec 64} {p : Nat} (some : 0 < size.toNat)
    (inside : addr.toNat + size.toNat ≤ 2 ^ 64) :
    InRange addr size p ↔ p < 2 ^ 36 ∧ ∃ a, addr.toNat ≤ a ∧ a < addr.toNat + size.toNat ∧ a / 4096 = p := by
  have first : pageOf addr = addr.toNat / 4096 := by
    rw [pageOf, BitVec.toNat_ushiftRight, Nat.shiftRight_eq_div_pow]
  have final : (addr + size - 1).toNat = addr.toNat + size.toNat - 1 := by
    have hs := size.isLt
    have ha := addr.isLt
    have one : (1 : BitVec 64).toNat = 1 := rfl
    rw [BitVec.toNat_sub, BitVec.toNat_add, one]
    omega
  have last : pageOf (addr + size - 1) = (addr.toNat + size.toNat - 1) / 4096 := by
    rw [pageOf, BitVec.toNat_ushiftRight, Nat.shiftRight_eq_div_pow, final]
  unfold InRange
  rw [first, last]
  constructor
  · rintro ⟨low, high, tracked⟩
    refine ⟨tracked, max addr.toNat (p * 4096), Nat.le_max_left .., ?_, ?_⟩ <;> omega
  · rintro ⟨tracked, a, low, high, rfl⟩
    exact ⟨by omega, by omega, tracked⟩

/-- The table stands for the flat map `m`, which has no protection from 2^48 on. -/
def Represents (s : MemProt) (m : Nat → BitVec 8) : Prop :=
  WellFormed s ∧ (∀ p, s.page p = m p) ∧ ∀ p, 2 ^ 36 ≤ p → m p = 0

theorem MapsRange.represents {f : BitVec 8 → BitVec 8} {addr size : BitVec 64} {s t : MemProt}
    {m : Nat → BitVec 8} (represents : Represents s m) (maps : MapsRange f addr size s t) :
    Represents t (onRange addr size f m) := by
  obtain ⟨-, pages, untracked⟩ := represents
  have range : ∀ p, (pageOf addr ≤ p ∧ p < endPage addr size + 1) ↔ InRange addr size p := by
    intro p
    unfold InRange endPage
    split <;> omega
  refine ⟨maps.wellFormed, ?_, ?_⟩
  · intro p
    rw [maps.page p, onRange, pages]
    simp only [range]
  · intro p high
    rw [onRange, if_neg (fun inside => absurd inside.2.2 (by omega))]
    exact untracked p high

theorem call_represents {s : MemProt} {m : Nat → BitVec 8} (represents : Represents s m) (c : Call) :
    Represents (s.call c) (flatCall m c) := by
  have wf := represents.1
  cases c with
  | setProtection addr size prot => exact (setProtection_mapsRange wf addr size prot).represents represents
  | allocProtection addr size prot => exact (allocProtection_mapsRange wf addr size prot).represents represents
  | updateProtection addr size prot => exact (updateProtection_mapsRange wf addr size prot).represents represents
  | freeProtection addr size => exact (freeProtection_mapsRange wf addr size).represents represents

theorem calls_represents (calls : List Call) {s : MemProt} {m : Nat → BitVec 8} (represents : Represents s m) :
    Represents (calls.foldl call s) (calls.foldl flatCall m) := by
  induction calls generalizing s m with
  | nil => exact represents
  | cons c rest ih => exact ih (call_represents represents c)

theorem getProtection_represents {s : MemProt} {m : Nat → BitVec 8} (represents : Represents s m)
    (addr : BitVec 64) : s.getProtection addr = (m (pageOf addr)).setWidth 32 := by
  unfold getProtection
  split
  case isTrue high =>
    have untracked : 2 ^ 36 ≤ pageOf addr := by
      rw [pageOf, BitVec.toNat_ushiftRight, Nat.shiftRight_eq_div_pow]
      have bound := BitVec.le_def.mp high
      have value : (2 ^ 48 : BitVec 64).toNat = 2 ^ 48 := by decide
      rw [value] at bound
      omega
    rw [represents.2.2 _ untracked]
    rfl
  case isFalse low => rw [represents.2.1]

/-- Whatever the calls, the table answers as the flat map does. -/
theorem getProtection_flat (calls : List Call) (addr : BitVec 64) :
    (calls.foldl call initialMemProt).getProtection addr =
      ((calls.foldl flatCall fun _ => 0) (pageOf addr)).setWidth 32 := by
  have start : Represents initialMemProt fun _ => 0 := ⟨initial_wellFormed, fun _ => rfl, fun _ _ => rfl⟩
  exact getProtection_represents (calls_represents calls start) addr

/-- A protection with `PROT_GROWSDOWN` in it does not come back whole. -/
theorem setProtection_growsdown :
    (initialMemProt.setProtection 0x10000 0x1000 0x01000003).getProtection 0x10000 ≠ 0x01000003 := by
  decide +kernel

end Box64.Custommem.MemProt
