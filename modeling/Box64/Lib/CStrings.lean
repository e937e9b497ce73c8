import Box64.Lib.ByteMemory

/-!
# Strings and words in memory

NUL-terminated strings, and tables of words that end with a zero.
-/

namespace ByteMemory

/-- The characters of a string, the NUL at its end not among them. An `int` holds its size. -/
structure CStr where
  chars : List (BitVec 8)
  noNul : 0 ∉ chars
  short : chars.length + 1 < 2 ^ 31

/-- `strlen(s) + 1` -/
def CStr.bytes (s : CStr) : Nat := s.chars.length + 1

theorem CStr.bytes_int (s : CStr) : (BitVec.ofNat 32 s.bytes).toInt = s.bytes := by
  have short : s.bytes < 2 ^ 31 := s.short
  rw [BitVec.toInt_eq_toNat_of_lt]
  · rw [BitVec.toNat_ofNat, Nat.mod_eq_of_lt (by omega)]
  · rw [BitVec.toNat_ofNat]
    omega

/-- `memcpy(p, s, strlen(s) + 1)` -/
def putString (m : ByteMemory) (p : Nat) (s : CStr) : ByteMemory := fun b =>
  if p ≤ b ∧ b < p + s.bytes then s.chars.getD (b - p) 0 else m b

def StringAt (m : ByteMemory) (p : Nat) (s : CStr) : Prop := ∀ i < s.bytes, m (p + i) = s.chars.getD i 0

/-- The characters up to the first NUL. -/
def readString (m : ByteMemory) : Nat → Nat → Option (List (BitVec 8))
  | 0, _ => none
  | fuel + 1, p => if m p = 0 then some [] else (readString m fuel (p + 1)).map (m p :: ·)

variable {m m' : ByteMemory} {p : Nat}

theorem stringAt_putString (m : ByteMemory) (p : Nat) (s : CStr) : StringAt (putString m p s) p s := by
  intro i lt
  unfold putString
  rw [if_pos ⟨by omega, by omega⟩, Nat.add_sub_cancel_left]

theorem StringAt.congr {s : CStr} (at_p : StringAt m p s) (same : ∀ b, p ≤ b → m' b = m b) : StringAt m' p s := by
  intro i lt
  rw [same _ (by omega)]
  exact at_p i lt

theorem StringAt.readString {s : CStr} (at_p : StringAt m p s) {fuel : Nat} (enough : s.bytes ≤ fuel) :
    readString m fuel p = some s.chars := by
  obtain ⟨chars, noNul, short⟩ := s
  simp only [StringAt, CStr.bytes] at at_p enough
  dsimp only
  clear short
  induction chars generalizing p fuel with
  | nil =>
    obtain ⟨fuel, rfl⟩ := Nat.exists_eq_succ_of_ne_zero (show fuel ≠ 0 by omega)
    have nul := at_p 0 (by simp)
    unfold readString
    rw [if_pos (by simpa using nul)]
  | cons c chars ih =>
    rw [List.length_cons] at enough at_p
    obtain ⟨fuel, rfl⟩ := Nat.exists_eq_succ_of_ne_zero (show fuel ≠ 0 by omega)
    have first := at_p 0 (by omega)
    rw [Nat.add_zero, List.getD_cons_zero] at first
    have other : c ≠ 0 := fun nul => noNul (nul ▸ List.mem_cons_self)
    unfold readString
    rw [first, if_neg other, ih (fun mem => noNul (List.mem_cons_of_mem c mem)) ?_ (by omega), Option.map_some]
    intro i lt
    have next := at_p (i + 1) (by omega)
    rwa [List.getD_cons_succ, show p + (i + 1) = p + 1 + i by omega] at next

/-- The words of a list one behind the other. -/
def WordsAt (m : ByteMemory) : Nat → List Nat → Prop
  | _, [] => True
  | p, w :: ws => read m p 8 = w ∧ WordsAt m (p + 8) ws

/-- The words before the first zero, and where they end. -/
def readWords (m : ByteMemory) : Nat → Nat → Option (List Nat × Nat)
  | 0, _ => none
  | fuel + 1, p =>
    if read m p 8 = 0 then some ([], p + 8)
    else (readWords m fuel (p + 8)).map fun rest => (read m p 8 :: rest.1, rest.2)

theorem WordsAt.congr {ws : List Nat} (at_p : WordsAt m p ws) (same : ∀ b, p ≤ b → m' b = m b) : WordsAt m' p ws := by
  induction ws generalizing p with
  | nil => trivial
  | cons w ws ih =>
    refine ⟨?_, ih at_p.2 fun b le => same b (by omega)⟩
    rw [← at_p.1]
    exact read_congr fun b le _ => same b le

theorem WordsAt.append (ws : List Nat) {rest : List Nat} (at_p : WordsAt m p (ws ++ rest)) : WordsAt m (p + 8 * ws.length) rest := by
  induction ws generalizing p with
  | nil => exact at_p
  | cons w ws ih =>
    have next := ih at_p.2
    rwa [List.length_cons, show p + 8 * (ws.length + 1) = p + 8 + 8 * ws.length by omega]

theorem WordsAt.readWords {ws rest : List Nat} (at_p : WordsAt m p (ws ++ 0 :: rest)) (nonzero : ∀ w ∈ ws, w ≠ 0) {fuel : Nat}
    (enough : ws.length < fuel) : readWords m fuel p = some (ws, p + 8 * (ws.length + 1)) := by
  induction ws generalizing p fuel with
  | nil =>
    obtain ⟨fuel, rfl⟩ := Nat.exists_eq_succ_of_ne_zero (show fuel ≠ 0 by omega)
    unfold ByteMemory.readWords
    rw [if_pos at_p.1]
    rfl
  | cons w ws ih =>
    rw [List.length_cons] at enough
    obtain ⟨fuel, rfl⟩ := Nat.exists_eq_succ_of_ne_zero (show fuel ≠ 0 by omega)
    unfold ByteMemory.readWords
    rw [at_p.1, if_neg (nonzero w List.mem_cons_self),
      ih at_p.2 (fun w mem => nonzero w (List.mem_cons_of_mem _ mem)) (by omega), Option.map_some, List.length_cons,
      show p + 8 + 8 * (ws.length + 1) = p + 8 * (ws.length + 1 + 1) by omega]

end ByteMemory
