import Box64.Emu.Simd660F

/-!
# AES over whole ciphers

A program enciphers a block with `PXOR`, some rounds of `AESENC` and one `AESENCLAST`, and deciphers it with the round keys
in the other order, those of the middle rounds through `AESIMC`. In the interpreter the one undoes the other.
-/

namespace Box64.Emu.Run660F
open Lanes

/-! ### The field -/

theorem ffMultRounds_xor (n : Nat) (retval retval' a b b' : BitVec 8) :
    ffMultRounds n (retval ^^^ retval') a (b ^^^ b') = ffMultRounds n retval a b ^^^ ffMultRounds n retval' a b' := by
  induction n generalizing retval retval' a b b' with
  | zero => rfl
  | succ n ih =>
    have low : ∀ b : BitVec 8, b &&& 1 = 0 ∨ b &&& 1 = 1 := by decide
    have sum : (b ^^^ b') &&& 1 = (b &&& 1) ^^^ (b' &&& 1) := by
      ext
      simp [Bool.and_xor_distrib_right]
    unfold ffMultRounds
    dsimp only
    generalize (if a &&& 0x80 ≠ 0 then (a <<< 1) ^^^ 0x1b else a <<< 1) = next
    rw [BitVec.ushiftRight_xor_distrib, sum]
    rcases low b with zero | one <;> rcases low b' with zero' | one'
    · rw [zero, zero', if_neg (by decide), if_neg (by decide)]
      exact ih ..
    · rw [zero, one', if_pos (by decide), if_neg (by decide), if_pos rfl, BitVec.xor_assoc]
      exact ih ..
    · rw [one, zero', if_pos (by decide), if_pos rfl, if_neg (by decide), BitVec.xor_assoc, BitVec.xor_comm retval' a,
        ← BitVec.xor_assoc]
      exact ih ..
    · rw [one, one', if_neg (by decide), if_pos rfl, if_pos rfl,
        show retval ^^^ retval' = (retval ^^^ a) ^^^ (retval' ^^^ a) by
          rw [BitVec.xor_assoc, ← BitVec.xor_assoc a, BitVec.xor_comm a, BitVec.xor_assoc, BitVec.xor_self, BitVec.xor_zero]]
      exact ih ..

/-- `ff_mult` by a constant is linear. -/
theorem ffMult_xor (a b b' : BitVec 8) : ffMult a (b ^^^ b') = ffMult a b ^^^ ffMult a b' := ffMultRounds_xor 8 0 0 a b b'

/-- The products of a row of the inverse matrix with the columns of the matrix. -/
theorem column_product (x : BitVec 8) :
    ffMult 0x0E (ffMult 0x02 x) ^^^ ffMult 0x0B x ^^^ ffMult 0x0D x ^^^ ffMult 0x09 (ffMult 0x03 x) = x ∧
    ffMult 0x0E (ffMult 0x03 x) ^^^ ffMult 0x0B (ffMult 0x02 x) ^^^ ffMult 0x0D x ^^^ ffMult 0x09 x = 0#8 ∧
    ffMult 0x0E x ^^^ ffMult 0x0B (ffMult 0x03 x) ^^^ ffMult 0x0D (ffMult 0x02 x) ^^^ ffMult 0x09 x = 0#8 ∧
    ffMult 0x0E x ^^^ ffMult 0x0B x ^^^ ffMult 0x0D (ffMult 0x03 x) ^^^ ffMult 0x09 (ffMult 0x02 x) = 0#8 := by
  revert x
  decide +kernel

/-! ### The steps of a round, byte by byte -/

variable (v u gx : BitVec 128) {i : Nat}

theorem lane_permute (rows : List Nat) (lt : i < 16) : lane 8 (permute rows v) i = lane 8 v (rows.getD i 0) := by
  unfold permute
  rw [lane_eachLane (by decide) (fun _ _ _ _ _ => rfl) _ (by omega), if_pos lt]

theorem lane_substitute (table : List (BitVec 8)) (lt : i < 16) :
    lane 8 (substitute table v) i = look table (lane 8 v i) := by
  unfold substitute
  rw [lane_eachLane (by decide) (fun _ _ _ _ same => congrArg _ same) _ (by omega), if_pos lt]

theorem lane_mixColumns (lt : i < 16) :
    lane 8 (mixColumns v gx) i = mixByte (ffMult 0x02) (ffMult 0x03) id id v i := by
  unfold mixColumns
  rw [lane_eachLane (by decide) (fun _ _ _ _ _ => rfl) _ (by omega), if_pos lt]

theorem lane_invMixColumns (lt : i < 16) :
    lane 8 (invMixColumns v gx) i = mixByte (ffMult 0x0E) (ffMult 0x0B) (ffMult 0x0D) (ffMult 0x09) v i := by
  unfold invMixColumns
  rw [lane_eachLane (by decide) (fun _ _ _ _ _ => rfl) _ (by omega), if_pos lt]

theorem AESIMC_eq (key : BitVec 128) : AESIMC (some key) gx = invMixColumns key gx := rfl

theorem aesenclastState_eq : aesenclastState gx = substitute subbytes (permute shiftrows gx) := by
  apply ext_lane (w := 8) (m := 16) rfl
  intro i lt
  rw [lane_substitute _ _ lt]
  unfold aesenclastState
  rw [lane_eachLane (by decide) (fun _ _ _ _ _ => rfl) _ (by omega), if_pos lt]

theorem aesdeclastState_eq : aesdeclastState gx = substitute invsubbytes (permute invshiftrows gx) := by
  apply ext_lane (w := 8) (m := 16) rfl
  intro i lt
  rw [lane_substitute _ _ lt]
  unfold aesdeclastState
  rw [lane_eachLane (by decide) (fun _ _ _ _ _ => rfl) _ (by omega), if_pos lt]

theorem lane_xor (w : Nat) {n : Nat} (x y : BitVec n) (i : Nat) : lane w (x ^^^ y) i = lane w x i ^^^ lane w y i := by
  apply BitVec.eq_of_getLsbD_eq
  intro j lt
  rw [getLsbD_lane _ _ lt, BitVec.getLsbD_xor, BitVec.getLsbD_xor, getLsbD_lane _ _ lt, getLsbD_lane _ _ lt]

theorem xorKey_eq (key : BitVec 128) : xorKey (some key) gx = gx ^^^ key := by
  apply ext_lane (w := 64) (m := 2) rfl
  intro i lt
  unfold xorKey zipLanes
  rw [lane_eachLane (by decide) (fun _ _ _ _ same => by rw [same]; rfl) _ (by omega), if_pos lt, lane_xor]
  rfl

/-! ### Undoing the steps -/

theorem look_look (x : BitVec 8) : look invsubbytes (look subbytes x) = x := by
  revert x
  decide +kernel

theorem rows_inverse : ∀ i < 16, invshiftrows.getD i 0 < 16 ∧ shiftrows.getD (invshiftrows.getD i 0) 0 = i := by decide

/-- Shifting the rows and substituting the bytes is undone in the order in which it was done. -/
theorem unshift : substitute invsubbytes (permute invshiftrows (substitute subbytes (permute shiftrows v))) = v := by
  apply ext_lane (w := 8) (m := 16) rfl
  intro i lt
  obtain ⟨inside, back⟩ := rows_inverse i lt
  rw [lane_substitute _ _ lt, lane_permute _ _ lt, lane_substitute _ _ inside, lane_permute _ _ inside, look_look, back]

/-- Four sums of four, added up by columns. -/
theorem xor_transpose (a0 a1 a2 a3 b0 b1 b2 b3 c0 c1 c2 c3 d0 d1 d2 d3 : BitVec 8) :
    (a0 ^^^ a1 ^^^ a2 ^^^ a3) ^^^ (b0 ^^^ b1 ^^^ b2 ^^^ b3) ^^^ (c0 ^^^ c1 ^^^ c2 ^^^ c3) ^^^ (d0 ^^^ d1 ^^^ d2 ^^^ d3) =
      (a0 ^^^ b0 ^^^ c0 ^^^ d0) ^^^ (a1 ^^^ b1 ^^^ c1 ^^^ d1) ^^^ (a2 ^^^ b2 ^^^ c2 ^^^ d2) ^^^ (a3 ^^^ b3 ^^^ c3 ^^^ d3) := by
  ac_rfl

theorem invMixColumns_mixColumns (gx' : BitVec 128) : invMixColumns (mixColumns v gx) gx' = v := by
  apply ext_lane (w := 8) (m := 16) rfl
  intro i lt
  -- byte `k` of the column, counted from byte `i`
  let byte (k : Nat) : BitVec 8 := lane 8 v (i / 4 * 4 + (i + k) % 4)
  have inside : ∀ k, i / 4 * 4 + (i + k) % 4 < 16 := fun k => by omega
  have mixed : ∀ k, lane 8 (mixColumns v gx) (i / 4 * 4 + (i + k) % 4) =
      ffMult 0x02 (byte k) ^^^ ffMult 0x03 (byte (k + 1)) ^^^ byte (k + 2) ^^^ byte (k + 3) := by
    intro k
    rw [lane_mixColumns _ _ (inside k)]
    unfold mixByte
    dsimp only [byte, id]
    have column : (i / 4 * 4 + (i + k) % 4) / 4 * 4 = i / 4 * 4 := by omega
    have place : ∀ m, (i / 4 * 4 + (i + k) % 4 + m) % 4 = (i + (k + m)) % 4 := fun m => by omega
    rw [column, place, place, place, place, Nat.add_zero]
  have period : ∀ k, byte (k + 4) = byte k := fun k => by
    dsimp only [byte]
    rw [show (i + (k + 4)) % 4 = (i + k) % 4 by omega]
  have own : byte 0 = lane 8 v i := by
    dsimp only [byte]
    rw [show i / 4 * 4 + (i + 0) % 4 = i by omega]
  rw [lane_invMixColumns _ _ lt]
  unfold mixByte
  dsimp only
  rw [mixed, mixed, mixed, mixed]
  simp only [ffMult_xor]
  rw [period 0, period 1, period 2, ← own]
  obtain ⟨unit, -, -, -⟩ := column_product (byte 0)
  obtain ⟨-, next, -, -⟩ := column_product (byte 1)
  obtain ⟨-, -, third, -⟩ := column_product (byte 2)
  obtain ⟨-, -, -, fourth⟩ := column_product (byte 3)
  calc _ = (ffMult 0x0E (ffMult 0x02 (byte 0)) ^^^ ffMult 0x0B (byte 0) ^^^ ffMult 0x0D (byte 0) ^^^
          ffMult 0x09 (ffMult 0x03 (byte 0))) ^^^
        (ffMult 0x0E (ffMult 0x03 (byte 1)) ^^^ ffMult 0x0B (ffMult 0x02 (byte 1)) ^^^ ffMult 0x0D (byte 1) ^^^
          ffMult 0x09 (byte 1)) ^^^
        (ffMult 0x0E (byte 2) ^^^ ffMult 0x0B (ffMult 0x03 (byte 2)) ^^^ ffMult 0x0D (ffMult 0x02 (byte 2)) ^^^
          ffMult 0x09 (byte 2)) ^^^
        (ffMult 0x0E (byte 3) ^^^ ffMult 0x0B (byte 3) ^^^ ffMult 0x0D (ffMult 0x03 (byte 3)) ^^^
          ffMult 0x09 (ffMult 0x02 (byte 3))) := by
        rw [← xor_transpose]
        ac_rfl
    _ = byte 0 := by rw [unit, next, third, fourth, BitVec.xor_zero, BitVec.xor_zero, BitVec.xor_zero]

theorem invMixColumns_xor (gx' : BitVec 128) :
    invMixColumns (v ^^^ u) gx = invMixColumns v gx ^^^ invMixColumns u gx' := by
  apply ext_lane (w := 8) (m := 16) rfl
  intro i lt
  rw [lane_xor, lane_invMixColumns _ _ lt, lane_invMixColumns _ _ lt, lane_invMixColumns _ _ lt]
  unfold mixByte
  simp only [lane_xor, ffMult_xor]
  ac_rfl

/-- One round of deciphering takes the last round off: what is left is the `ShiftRows` and `SubBytes` of the round before. -/
theorem AESDEC_undoes (key unused : BitVec 128) :
    AESDEC (some (AESIMC (some key) unused)) (aesenclastState (AESENC (some key) v)) = aesenclastState v := by
  unfold AESDEC AESENC aesdecState aesencState
  rw [xorKey_eq, xorKey_eq, AESIMC_eq, aesenclastState_eq, aesenclastState_eq, unshift, invMixColumns_xor _ _ _ unused,
    invMixColumns_mixColumns, BitVec.xor_assoc, BitVec.xor_self, BitVec.xor_zero]

/-! ### Ciphers -/

/-- `PXOR` with the first key, `AESENC` with those of the middle rounds, `AESENCLAST` with the last one. -/
def encipher (first : BitVec 128) (middle : List (BitVec 128)) (last block : BitVec 128) : BitVec 128 :=
  AESENCLAST (some last) (middle.foldl (fun gx key => AESENC (some key) gx) (xorKey (some first) block))

/-- The keys in the other order, those of the middle rounds as `AESIMC` leaves them in a register that held `unused`. -/
def decipher (unused first : BitVec 128) (middle : List (BitVec 128)) (last block : BitVec 128) : BitVec 128 :=
  AESDECLAST (some first)
    (middle.reverse.foldl (fun gx key => AESDEC (some (AESIMC (some key) unused)) gx) (xorKey (some last) block))

theorem decipher_rounds (unused : BitVec 128) (middle : List (BitVec 128)) :
    middle.reverse.foldl (fun gx key => AESDEC (some (AESIMC (some key) unused)) gx)
      (aesenclastState (middle.foldl (fun gx key => AESENC (some key) gx) v)) = aesenclastState v := by
  induction middle using List.reverseRecOn with
  | nil => rfl
  | append_singleton middle key ih =>
    rw [List.reverse_append, List.reverse_singleton, List.singleton_append, List.foldl_cons, List.foldl_append,
      List.foldl_cons, List.foldl_nil, AESDEC_undoes]
    exact ih

/-- Whatever the round keys and however many, deciphering an enciphered block gives the block back. -/
theorem decipher_encipher (unused first : BitVec 128) (middle : List (BitVec 128)) (last block : BitVec 128) :
    decipher unused first middle last (encipher first middle last block) = block := by
  unfold decipher encipher
  have whitened : xorKey (some last) (AESENCLAST (some last)
      (middle.foldl (fun gx key => AESENC (some key) gx) (xorKey (some first) block))) =
      aesenclastState (middle.foldl (fun gx key => AESENC (some key) gx) (xorKey (some first) block)) := by
    unfold AESENCLAST
    rw [xorKey_eq, xorKey_eq, BitVec.xor_assoc, BitVec.xor_self, BitVec.xor_zero]
  rw [whitened, decipher_rounds]
  unfold AESDECLAST
  rw [aesdeclastState_eq, aesenclastState_eq, unshift, xorKey_eq, xorKey_eq, BitVec.xor_assoc, BitVec.xor_self,
    BitVec.xor_zero]

end Box64.Emu.Run660F
