import Box64.Tools.Box64Stack
import Mathlib.Data.List.Forall2
import Mathlib.Tactic.NormNum
import Mathlib.Tactic.Positivity

/-!
# Reading the first stack

A start routine that follows the System V layout finds on the stack of `SetupInitialStack` the arguments, the environment
and the auxiliary vector that went in, and `my_getauxval` finds each entry.
-/

namespace Box64.Tools
open ByteMemory

/-! ### What the layout says -/

structure Parsed where
  argv : List (List (BitVec 8))
  envv : List (List (BitVec 8))
  auxv : List (Nat × Nat)

/-- The pairs before the one of type 0. -/
def parseAux (mem : ByteMemory) : Nat → Nat → Option (List (Nat × Nat))
  | 0, _ => none
  | fuel + 1, p =>
    if read mem p 8 = 0 then some []
    else (parseAux mem fuel (p + 16)).map ((read mem p 8, read mem (p + 8) 8) :: ·)

/-- The number of arguments, pointers to them, a zero, pointers to the environment, a zero, the auxiliary vector. `none`
where the number is not that of the pointers. -/
def parse (mem : ByteMemory) (fuel rsp : Nat) : Option Parsed := do
  let (p_argv, p) ← readWords mem fuel (rsp + 8)
  let (p_envv, p) ← readWords mem fuel p
  let auxv ← parseAux mem fuel p
  let argv ← p_argv.mapM (readString mem fuel)
  let envv ← p_envv.mapM (readString mem fuel)
  if read mem rsp 8 = argv.length then some ⟨argv, envv, auxv⟩ else none

/-! ### Growing downwards -/

/-- `n` bytes pushed: nothing changes outside of them. -/
structure Grows (s s' : StackEmu) (n : Nat) : Prop where
  rsp : s'.rsp + n = s.rsp
  above : ∀ b, s.rsp ≤ b → s'.mem b = s.mem b
  below : ∀ b, b < s'.rsp → s'.mem b = s.mem b

theorem Grows.refl (s : StackEmu) : Grows s s 0 := ⟨rfl, fun _ _ => rfl, fun _ _ => rfl⟩

theorem Grows.trans {s t u : StackEmu} {m n : Nat} (first : Grows s t m) (second : Grows t u n) : Grows s u (m + n) := by
  have at_t := first.rsp
  have at_u := second.rsp
  refine ⟨by omega, ?_, ?_⟩
  · intro b le
    rw [second.above b (by omega), first.above b le]
  · intro b lt
    rw [second.below b lt, first.below b (by omega)]

theorem minus_eq {rsp n : Nat} (room : n ≤ rsp) (lt : rsp < 2 ^ 64) : minus rsp n = rsp - n := by
  unfold minus
  omega

section Steps
variable {s : StackEmu} (lt : s.rsp < 2 ^ 64)
include lt

theorem push64_grows (room : 8 ≤ s.rsp) (v : Nat) : Grows s (push64 s v) 8 := by
  unfold push64
  rw [minus_eq room lt]
  refine ⟨?_, fun b le => ?_, fun b low => ?_⟩
  · dsimp only
    omega
  · exact write_outside _ (by omega)
  · exact write_outside _ (Or.inl low)

theorem push64_words (room : 8 ≤ s.rsp) {v : Nat} (small : v < 2 ^ 64) {ws : List Nat} (words : WordsAt s.mem s.rsp ws) :
    WordsAt (push64 s v).mem (push64 s v).rsp (v :: ws) := by
  have grows := push64_grows lt room v
  refine ⟨?_, ?_⟩
  · unfold push64
    dsimp only
    rw [read_write_same]
    exact Nat.mod_eq_of_lt (small.trans_eq (by norm_num))
  · rw [grows.rsp]
    exact words.congr grows.above

theorem pushString_grows (str : CStr) (room : str.bytes ≤ s.rsp) : Grows s (pushString s str) str.bytes := by
  rw [pushString_eq]
  rw [minus_eq room lt]
  refine ⟨?_, fun b le => ?_, fun b low => ?_⟩
  · dsimp only
    omega
  · exact if_neg (by omega)
  · exact if_neg (by dsimp only at low; omega)

omit lt in
theorem pushString_at (s : StackEmu) (str : CStr) : StringAt (pushString s str).mem (pushString s str).rsp str :=
  stringAt_putString _ _ _

/-- Aligning takes less than the alignment, and as much as is missing. -/
theorem alignStack_grows {stackalign : BitVec 64} {k : Nat} (power : stackalign = BitVec.twoPow 64 k) (small : k < 64) :
    Grows s (alignStack stackalign s) (s.rsp % 2 ^ k) := by
  have down : (BitVec.ofNat 64 s.rsp &&& ~~~(stackalign - 1)).toNat = s.rsp - s.rsp % 2 ^ k := by
    have mask : (stackalign - 1).toNat = 2 ^ k - 1 := by
      have below : 2 ^ k < 2 ^ 64 := Nat.pow_lt_pow_right (by omega) small
      have pos : 0 < 2 ^ k := by positivity
      rw [power, BitVec.toNat_sub, BitVec.toNat_twoPow, show (1 : BitVec 64).toNat = 1 from rfl, Nat.mod_eq_of_lt below]
      omega
    apply Nat.eq_of_testBit_eq
    intro i
    have whole : s.rsp - s.rsp % 2 ^ k = s.rsp / 2 ^ k * 2 ^ k := by
      have := Nat.div_add_mod' s.rsp (2 ^ k)
      omega
    rw [whole, BitVec.testBit_toNat, BitVec.getLsbD_and, BitVec.getLsbD_not, ← BitVec.testBit_toNat, ← BitVec.testBit_toNat, mask,
      Nat.testBit_two_pow_sub_one, BitVec.toNat_ofNat, Nat.mod_eq_of_lt lt, Nat.testBit_mul_two_pow]
    by_cases low : i < k
    · simp [low, show ¬ k ≤ i by omega]
    · rw [Nat.testBit_div_two_pow, Nat.sub_add_cancel (by omega)]
      by_cases top : i < 64
      · simp [low, top, show k ≤ i by omega]
      · have out : s.rsp.testBit i = false := Nat.testBit_lt_two_pow (lt.trans_le (Nat.pow_le_pow_right (by omega) (by omega)))
        simp [out]
  have le := Nat.mod_le s.rsp (2 ^ k)
  unfold alignStack
  rw [down]
  refine ⟨?_, fun b le => ?_, fun b low => ?_⟩
  · dsimp only
    omega
  · exact fill_outside _ (by omega)
  · exact fill_outside _ (Or.inl low)

end Steps

/-! ### The texts -/

def textBytes (strs : List CStr) : Nat := (strs.map CStr.bytes).sum

/-- A string that lies in memory already pushed. -/
def Placed (s : StackEmu) (top p : Nat) (str : CStr) : Prop := StringAt s.mem p str ∧ s.rsp ≤ p ∧ p < top

theorem Placed.grows {s s' : StackEmu} {top p n : Nat} {str : CStr} (placed : Placed s top p str) (grows : Grows s s' n) :
    Placed s' top p str := by
  obtain ⟨here, above, below⟩ := placed
  have rsp := grows.rsp
  exact ⟨here.congr fun b le => grows.above b (by omega), by omega, below⟩

theorem placed_grows {s s' : StackEmu} {top n : Nat} {ps : List Nat} {strs : List CStr}
    (placed : List.Forall₂ (Placed s top) ps strs) (grows : Grows s s' n) : List.Forall₂ (Placed s' top) ps strs :=
  placed.imp fun _ _ here => here.grows grows

theorem pushString_placed {s : StackEmu} {top : Nat} {str : CStr} (lt : s.rsp < 2 ^ 64) (room : str.bytes ≤ s.rsp)
    (le : s.rsp ≤ top) : Placed (pushString s str) top (pushString s str).rsp str := by
  have rsp := (pushString_grows lt str room).rsp
  have pos : 0 < str.bytes := Nat.succ_pos _
  exact ⟨pushString_at s str, le_rfl, by omega⟩

theorem pushStrings_spec {s : StackEmu} (top : Nat) (strs : List CStr) (lt : s.rsp < 2 ^ 64) (room : textBytes strs ≤ s.rsp)
    (le : s.rsp ≤ top) : Grows s (pushStrings strs s).1 (textBytes strs) ∧
      List.Forall₂ (Placed (pushStrings strs s).1 top) (pushStrings strs s).2 strs := by
  induction strs with
  | nil => exact ⟨Grows.refl s, .nil⟩
  | cons str strs ih =>
    have sum : textBytes (str :: strs) = textBytes strs + str.bytes := Nat.add_comm _ _
    rw [sum] at room ⊢
    obtain ⟨grows, placed⟩ := ih (by omega)
    have rsp := grows.rsp
    have next := pushString_grows (s := (pushStrings strs s).1) (by omega) str (by omega)
    exact ⟨grows.trans next, .cons (pushString_placed (by omega) (by omega) (by omega)) (placed_grows placed next)⟩

/-! ### The words -/

theorem pushWords_spec {s : StackEmu} (ps : List Nat) (lt : s.rsp < 2 ^ 64) (room : 8 * ps.length ≤ s.rsp)
    (small : ∀ p ∈ ps, p < 2 ^ 64) {ws : List Nat} (words : WordsAt s.mem s.rsp ws) :
    Grows s (pushWords ps s) (8 * ps.length) ∧ WordsAt (pushWords ps s).mem (pushWords ps s).rsp (ps ++ ws) := by
  induction ps with
  | nil => exact ⟨Grows.refl s, words⟩
  | cons p ps ih =>
    rw [List.length_cons] at room ⊢
    obtain ⟨grows, before⟩ := ih (by omega) fun q mem => small q (List.mem_cons_of_mem p mem)
    have rsp := grows.rsp
    have lt' : (pushWords ps s).rsp < 2 ^ 64 := by omega
    have room' : 8 ≤ (pushWords ps s).rsp := by omega
    refine ⟨?_, push64_words lt' room' (small p List.mem_cons_self) before⟩
    rw [Nat.mul_succ]
    exact grows.trans (push64_grows lt' room' p)

/-- The words of pairs that were pushed one after the other. -/
def auxWords (entries : List (Nat × Nat)) : List Nat := entries.flatMap fun entry => [entry.1, entry.2]

theorem pushAux_spec {s : StackEmu} (entries : List (Nat × Nat)) (lt : s.rsp < 2 ^ 64) (room : 16 * entries.length ≤ s.rsp)
    (small : ∀ entry ∈ entries, entry.1 < 2 ^ 64 ∧ entry.2 < 2 ^ 64) {ws : List Nat} (words : WordsAt s.mem s.rsp ws) :
    Grows s (entries.foldl pushAux s) (16 * entries.length) ∧
      WordsAt (entries.foldl pushAux s).mem (entries.foldl pushAux s).rsp (auxWords entries.reverse ++ ws) := by
  induction entries generalizing s ws with
  | nil => exact ⟨Grows.refl s, words⟩
  | cons entry entries ih =>
    rw [List.length_cons] at room ⊢
    rw [List.foldl_cons]
    have fits := small entry List.mem_cons_self
    have value := push64_grows lt (show 8 ≤ s.rsp by omega) entry.2
    have rsp := value.rsp
    have type := push64_grows (s := push64 s entry.2) (by omega) (by omega) entry.1
    have both : Grows s (pushAux s entry) 16 := by
      unfold pushAux
      exact value.trans type
    have rsp' := both.rsp
    have words' : WordsAt (pushAux s entry).mem (pushAux s entry).rsp (entry.1 :: entry.2 :: ws) := by
      unfold pushAux
      exact push64_words (by omega) (by omega) fits.1 (push64_words lt (by omega) fits.2 words)
    obtain ⟨grows, after⟩ := ih (s := pushAux s entry) (by omega) (by omega)
      (fun e mem => small e (List.mem_cons_of_mem _ mem)) words'
    refine ⟨?_, ?_⟩
    · rw [Nat.mul_succ, Nat.add_comm]
      exact both.trans grows
    · rw [List.reverse_cons, auxWords, List.flatMap_append, List.append_assoc]
      exact after

/-! ### The whole stack -/

/-- The most bytes `SetupInitialStack` takes with an alignment of `2 ^ k`. -/
def footprint (l : Launch) (k : Nat) : Nat :=
  8 + l.arg0.bytes + textBytes l.envv + textBytes l.argv + x86_64.bytes + 32 + 2 * 2 ^ k +
    16 * 15 + 8 + 8 * l.envv.length + 8 + 8 * l.argv.length + 8

/-- Where `AT_RANDOM` points: to the words of the host, or to four pushed between `low` and `top`. -/
def RandomAt (l : Launch) (mem : ByteMemory) (low top p_random : Nat) : Prop :=
  if l.auxval 25 = 0 then low ≤ p_random ∧ p_random + 32 ≤ top ∧
    WordsAt mem p_random [(l.random 3).toNat, (l.random 2).toNat, (l.random 1).toNat, (l.random 0).toNat]
  else p_random = (l.auxval 25).toNat

/-- What lies in memory when the auxiliary vector comes. -/
structure Texts (l : Launch) (k : Nat) (s s' : StackEmu) (p_arg0 : Nat) (p_envv p_argv : List Nat) (p_x86_64 p_random : Nat) :
    Prop where
  grows : ∃ n ≤ 8 + l.arg0.bytes + textBytes l.envv + textBytes l.argv + x86_64.bytes + 32 + 2 * 2 ^ k, Grows s s' n
  aligned : s'.rsp % 2 ^ k = 0
  arg0 : Placed s' s.rsp p_arg0 l.arg0
  envv : List.Forall₂ (Placed s' s.rsp) p_envv l.envv
  argv : List.Forall₂ (Placed s' s.rsp) p_argv l.argv
  platform : Placed s' s.rsp p_x86_64 x86_64
  random : RandomAt l s'.mem s'.rsp s.rsp p_random

theorem pushRandom_spec (l : Launch) {s : StackEmu} (lt : s.rsp < 2 ^ 64) (room : 32 ≤ s.rsp) : ∃ n ≤ 32,
    Grows s (pushRandom l s) n ∧ (l.auxval 25 = 0 → n = 32 ∧ WordsAt (pushRandom l s).mem (pushRandom l s).rsp
      [(l.random 3).toNat, (l.random 2).toNat, (l.random 1).toNat, (l.random 0).toNat]) := by
  unfold pushRandom
  split
  · have first := push64_grows lt (by omega) (l.random 0).toNat
    have word := push64_words lt (by omega) (l.random 0).isLt (show WordsAt s.mem s.rsp [] from trivial)
    have rsp := first.rsp
    generalize push64 s (l.random 0).toNat = s₁ at first word rsp ⊢
    have lt₁ : s₁.rsp < 2 ^ 64 := by omega
    have second := push64_grows lt₁ (by omega) (l.random 1).toNat
    have words := push64_words lt₁ (by omega) (l.random 1).isLt word
    have rsp' := second.rsp
    generalize push64 s₁ (l.random 1).toNat = s₂ at second words rsp' ⊢
    have lt₂ : s₂.rsp < 2 ^ 64 := by omega
    have third := push64_grows lt₂ (by omega) (l.random 2).toNat
    have words' := push64_words lt₂ (by omega) (l.random 2).isLt words
    have rsp'' := third.rsp
    generalize push64 s₂ (l.random 2).toNat = s₃ at third words' rsp'' ⊢
    have lt₃ : s₃.rsp < 2 ^ 64 := by omega
    have last := push64_grows lt₃ (by omega) (l.random 3).toNat
    exact ⟨32, le_rfl, ((first.trans second).trans third).trans last,
      fun _ => ⟨rfl, push64_words lt₃ (by omega) (l.random 3).isLt words'⟩⟩
  · rename_i given
    exact ⟨0, by omega, Grows.refl s, fun zero => absurd zero given⟩

theorem alignStack_aligned {s : StackEmu} (lt : s.rsp < 2 ^ 64) {stackalign : BitVec 64} {k : Nat}
    (power : stackalign = BitVec.twoPow 64 k) (small : k < 64) : (alignStack stackalign s).rsp % 2 ^ k = 0 := by
  have rsp := (alignStack_grows lt power small).rsp
  have whole := Nat.div_add_mod s.rsp (2 ^ k)
  rw [show (alignStack stackalign s).rsp = 2 ^ k * (s.rsp / 2 ^ k) by omega]
  exact Nat.mul_mod_right _ _

theorem pushTexts_spec (l : Launch) {k : Nat} (power : l.stackalign = BitVec.twoPow 64 k) (small : k < 64) {s : StackEmu}
    (lt : s.rsp < 2 ^ 64) (room : footprint l k ≤ s.rsp) :
    Texts l k s (pushTexts l s).1 (pushTexts l s).2.1 (pushTexts l s).2.2.1 (pushTexts l s).2.2.2.1 (pushTexts l s).2.2.2.2.1
      (pushTexts l s).2.2.2.2.2 := by
  unfold footprint at room
  have pad : ∀ rsp, rsp % 2 ^ k < 2 ^ k := fun rsp => Nat.mod_lt _ (by positivity)
  unfold pushTexts
  dsimp only
  -- the zero and the program
  have grows₁ := push64_grows lt (by omega) 0
  have rsp₁ := grows₁.rsp
  generalize push64 s 0 = s₁ at grows₁ rsp₁ ⊢
  have lt₁ : s₁.rsp < 2 ^ 64 := by omega
  have grows₂ := pushString_grows lt₁ l.arg0 (by omega)
  have rsp₂ := grows₂.rsp
  have arg0 : Placed (pushString s₁ l.arg0) s.rsp (pushString s₁ l.arg0).rsp l.arg0 := pushString_placed lt₁ (by omega) (by omega)
  generalize pushString s₁ l.arg0 = s₂ at grows₂ rsp₂ arg0 ⊢
  have lt₂ : s₂.rsp < 2 ^ 64 := by omega
  -- the environment and the arguments
  obtain ⟨grows₃, envv⟩ := pushStrings_spec s.rsp l.envv lt₂ (by omega) (by omega)
  have rsp₃ := grows₃.rsp
  generalize pushStrings l.envv s₂ = pushed at grows₃ rsp₃ envv ⊢
  obtain ⟨s₃, p_envv⟩ := pushed
  dsimp only at grows₃ rsp₃ envv ⊢
  have lt₃ : s₃.rsp < 2 ^ 64 := by omega
  obtain ⟨grows₄, argv⟩ := pushStrings_spec s.rsp l.argv lt₃ (by omega) (by omega)
  have rsp₄ := grows₄.rsp
  generalize pushStrings l.argv s₃ = pushed at grows₄ rsp₄ argv ⊢
  obtain ⟨s₄, p_argv⟩ := pushed
  dsimp only at grows₄ rsp₄ argv ⊢
  have lt₄ : s₄.rsp < 2 ^ 64 := by omega
  -- aligned, the platform
  have grows₅ := alignStack_grows lt₄ power small
  have rsp₅ := grows₅.rsp
  have pad₅ := pad s₄.rsp
  generalize alignStack l.stackalign s₄ = s₅ at grows₅ rsp₅ ⊢
  have lt₅ : s₅.rsp < 2 ^ 64 := by omega
  have grows₆ := pushString_grows lt₅ x86_64 (by omega)
  have rsp₆ := grows₆.rsp
  have platform : Placed (pushString s₅ x86_64) s.rsp (pushString s₅ x86_64).rsp x86_64 :=
    pushString_placed lt₅ (by omega) (by omega)
  generalize pushString s₅ x86_64 = s₆ at grows₆ rsp₆ platform ⊢
  have lt₆ : s₆.rsp < 2 ^ 64 := by omega
  -- the random words, aligned again
  obtain ⟨n, le, grows₇, words⟩ := pushRandom_spec l lt₆ (by omega)
  have rsp₇ := grows₇.rsp
  generalize pushRandom l s₆ = s₇ at grows₇ words rsp₇ ⊢
  have lt₇ : s₇.rsp < 2 ^ 64 := by omega
  have grows₈ := alignStack_grows lt₇ power small
  have rsp₈ := grows₈.rsp
  have pad₈ := pad s₇.rsp
  have aligned := alignStack_aligned lt₇ power small
  generalize alignStack l.stackalign s₇ = s₈ at grows₈ rsp₈ aligned ⊢
  have after₄ := ((grows₅.trans grows₆).trans grows₇).trans grows₈
  have after₃ := grows₄.trans after₄
  have after₂ := grows₃.trans after₃
  refine ⟨⟨_, ?_, (grows₁.trans grows₂).trans after₂⟩, aligned, arg0.grows after₂, placed_grows envv after₃,
    placed_grows argv after₄, platform.grows (grows₇.trans grows₈), ?_⟩
  · omega
  · unfold RandomAt
    split
    · rename_i none
      obtain ⟨rfl, at_s₇⟩ := words none
      exact ⟨by omega, by omega, at_s₇.congr fun b le => grows₈.above b le⟩
    · rfl

/-! ### Reading it back -/

section Reading
variable {mem : ByteMemory} {p fuel : Nat} {es : List (Nat × Nat)} {rest : List Nat}

theorem parseAux_eq (words : WordsAt mem p (auxWords es ++ 0 :: rest)) (types : ∀ e ∈ es, e.1 ≠ 0) (enough : es.length < fuel) :
    parseAux mem fuel p = some es := by
  induction es generalizing p fuel with
  | nil =>
    obtain ⟨fuel, rfl⟩ := Nat.exists_eq_succ_of_ne_zero (show fuel ≠ 0 by omega)
    unfold parseAux
    rw [if_pos words.1]
  | cons e es ih =>
    rw [List.length_cons] at enough
    obtain ⟨fuel, rfl⟩ := Nat.exists_eq_succ_of_ne_zero (show fuel ≠ 0 by omega)
    obtain ⟨type, value, next⟩ := words
    unfold parseAux
    rw [type, value, if_neg (types e List.mem_cons_self),
      ih next (fun e mem => types e (List.mem_cons_of_mem _ mem)) (by omega)]
    rfl

/-- The value of the first entry of a type, 0 where there is none. -/
def lookupAux (es : List (Nat × Nat)) (type : Nat) : Nat := ((es.find? fun e => e.1 = type).map Prod.snd).getD 0

theorem getauxval_eq (words : WordsAt mem p (auxWords es ++ 0 :: rest)) (types : ∀ e ∈ es, e.1 ≠ 0) (enough : es.length < fuel)
    (type : Nat) : getauxval mem type fuel p = some (lookupAux es type) := by
  induction es generalizing p fuel with
  | nil =>
    obtain ⟨fuel, rfl⟩ := Nat.exists_eq_succ_of_ne_zero (show fuel ≠ 0 by omega)
    unfold getauxval
    rw [if_pos words.1]
    rfl
  | cons e es ih =>
    rw [List.length_cons] at enough
    obtain ⟨fuel, rfl⟩ := Nat.exists_eq_succ_of_ne_zero (show fuel ≠ 0 by omega)
    obtain ⟨first, value, next⟩ := words
    unfold getauxval
    rw [first, value, if_neg (types e List.mem_cons_self)]
    unfold lookupAux
    rw [List.find?_cons]
    by_cases same : e.1 = type
    · simp [same]
    · rw [if_neg same, ih next (fun e mem => types e (List.mem_cons_of_mem _ mem)) (by omega)]
      simp [same, lookupAux]

theorem mapM_readString {s : StackEmu} {top : Nat} {ps : List Nat} {strs : List CStr}
    (placed : List.Forall₂ (Placed s top) ps strs) (enough : textBytes strs ≤ fuel) :
    ps.mapM (readString s.mem fuel) = some (strs.map CStr.chars) := by
  induction placed with
  | nil => rfl
  | @cons p str ps strs here _ ih =>
    have sum : textBytes (str :: strs) = str.bytes + textBytes strs := rfl
    rw [List.mapM_cons, here.1.readString (by omega), ih (by omega)]
    rfl

theorem placed_ne_zero {s : StackEmu} {top : Nat} {ps : List Nat} {strs : List CStr}
    (placed : List.Forall₂ (Placed s top) ps strs) (pos : 0 < s.rsp) : ∀ p ∈ ps, p ≠ 0 ∧ p < top := by
  induction placed with
  | nil => simp
  | cons here _ ih =>
    intro p mem
    rcases List.mem_cons.mp mem with rfl | mem
    · have above := here.2.1
      exact ⟨by omega, here.2.2⟩
    · exact ih p mem

end Reading

theorem length_le_textBytes (strs : List CStr) : strs.length ≤ textBytes strs := by
  induction strs with
  | nil => exact le_rfl
  | cons str strs ih =>
    have sum : textBytes (str :: strs) = str.bytes + textBytes strs := rfl
    have pos : 0 < str.bytes := Nat.succ_pos _
    rw [List.length_cons]
    omega

/-- The entries that end up in front of the pair of zeros, the last one pushed first. -/
def Launch.entries (l : Launch) (p_x86_64 p_random p_arg0 : Nat) : List (Nat × Nat) :=
  (l.auxv p_x86_64 p_random p_arg0).tail.reverse

theorem auxv_reverse (l : Launch) (p_x86_64 p_random p_arg0 : Nat) :
    (l.auxv p_x86_64 p_random p_arg0).reverse = l.entries p_x86_64 p_random p_arg0 ++ [(0, 0)] := List.reverse_cons

theorem entries_types (l : Launch) (p_x86_64 p_random p_arg0 : Nat) : ∀ e ∈ l.entries p_x86_64 p_random p_arg0, e.1 ≠ 0 := by
  intro e mem
  rw [Launch.entries, List.mem_reverse] at mem
  simp only [Launch.auxv, List.tail_cons, List.mem_cons, List.not_mem_nil, or_false] at mem
  rcases mem with rfl | rfl | rfl | rfl | rfl | rfl | rfl | rfl | rfl | rfl | rfl | rfl | rfl | rfl <;>
    exact Nat.succ_ne_zero _

theorem auxv_small (l : Launch) {p_x86_64 p_random p_arg0 : Nat} (platform : p_x86_64 < 2 ^ 64) (random : p_random < 2 ^ 64)
    (arg0 : p_arg0 < 2 ^ 64) : ∀ e ∈ l.auxv p_x86_64 p_random p_arg0, e.1 < 2 ^ 64 ∧ e.2 < 2 ^ 64 := by
  intro e mem
  simp only [Launch.auxv, List.mem_cons, List.not_mem_nil, or_false] at mem
  rcases mem with rfl | rfl | rfl | rfl | rfl | rfl | rfl | rfl | rfl | rfl | rfl | rfl | rfl | rfl | rfl <;>
    refine ⟨by norm_num, ?_⟩ <;>
    first
    | exact BitVec.isLt _
    | exact platform
    | exact random
    | exact arg0
    | decide

/-! ### The whole run -/

/-- What the start routine finds: the words from the number of arguments on, over the texts. -/
structure Laid (l : Launch) (k : Nat) (s : StackEmu) (i : Initial) (p_arg0 : Nat) (p_envv p_argv : List Nat)
    (p_x86_64 p_random : Nat) : Prop where
  texts : ∃ s', Texts l k s s' p_arg0 p_envv p_argv p_x86_64 p_random ∧
    Grows s' i.stack (16 * 15 + 8 + 8 * l.envv.length + 8 + 8 * l.argv.length + 8)
  words : WordsAt i.stack.mem i.stack.rsp (l.argv.length :: (p_argv ++ 0 :: (p_envv ++ 0 ::
    (auxWords (l.entries p_x86_64 p_random p_arg0) ++ 0 :: [0]))))
  argv : i.argv = i.stack.rsp + 8
  envv : i.envv = i.argv + 8 * l.argv.length + 8
  auxvalStart : i.auxvalStart = if l.auxvalStart = 0 then i.envv + 8 * l.envv.length + 8 else l.auxvalStart

theorem setupInitialStack_laid (l : Launch) {k : Nat} (power : l.stackalign = BitVec.twoPow 64 k) (small : k < 64) {s : StackEmu}
    (lt : s.rsp < 2 ^ 64) (room : footprint l k < s.rsp) :
    ∃ p_arg0 p_envv p_argv p_x86_64 p_random, Laid l k s (setupInitialStack l s) p_arg0 p_envv p_argv p_x86_64 p_random := by
  have texts := pushTexts_spec l power small lt room.le
  unfold setupInitialStack
  unfold footprint at room
  generalize pushTexts l s = pushed at texts ⊢
  obtain ⟨s', p_arg0, p_envv, p_argv, p_x86_64, p_random⟩ := pushed
  dsimp only at texts ⊢
  refine ⟨p_arg0, p_envv, p_argv, p_x86_64, p_random, ?_⟩
  obtain ⟨n, le, grows⟩ := texts.grows
  have rsp := grows.rsp
  have lt' : s'.rsp < 2 ^ 64 := by omega
  have envc := texts.envv.length_eq
  have argc := texts.argv.length_eq
  have below : ∀ {ps strs}, List.Forall₂ (Placed s' s.rsp) ps strs → ∀ p ∈ ps, p < 2 ^ 64 := fun placed p mem =>
    (placed_ne_zero placed (by omega) p mem).2.trans lt
  have random : p_random < 2 ^ 64 := by
    have at_random := texts.random
    unfold RandomAt at at_random
    split at at_random
    · omega
    · exact at_random ▸ (l.auxval 25).isLt
  have small_aux := auxv_small l (texts.platform.2.2.trans lt) random (texts.arg0.2.2.trans lt)
  -- the auxiliary vector
  obtain ⟨grows₁, words₁⟩ := pushAux_spec _ lt' (by simp [Launch.auxv]; omega) small_aux
    (show WordsAt s'.mem s'.rsp [] from trivial)
  rw [auxv_reverse, show auxWords (l.entries p_x86_64 p_random p_arg0 ++ [(0, 0)]) ++ [] =
    auxWords (l.entries p_x86_64 p_random p_arg0) ++ 0 :: [0] by simp [auxWords]] at words₁
  have rsp₁ := grows₁.rsp
  generalize (l.auxv p_x86_64 p_random p_arg0).foldl pushAux s' = s₁ at grows₁ words₁ rsp₁ ⊢
  have count : (l.auxv p_x86_64 p_random p_arg0).length = 15 := rfl
  rw [count] at grows₁ rsp₁
  have lt₁ : s₁.rsp < 2 ^ 64 := by omega
  -- the environment
  have grows₂ := push64_grows lt₁ (by omega) 0
  have words₂ := push64_words (v := 0) lt₁ (by omega) (by norm_num) words₁
  have rsp₂ := grows₂.rsp
  generalize push64 s₁ 0 = s₂ at grows₂ words₂ rsp₂ ⊢
  have lt₂ : s₂.rsp < 2 ^ 64 := by omega
  obtain ⟨grows₃, words₃⟩ := pushWords_spec p_envv lt₂ (by omega) (below texts.envv) words₂
  have rsp₃ := grows₃.rsp
  generalize pushWords p_envv s₂ = s₃ at grows₃ words₃ rsp₃ ⊢
  have lt₃ : s₃.rsp < 2 ^ 64 := by omega
  -- the arguments and their number
  have grows₄ := push64_grows lt₃ (by omega) 0
  have words₄ := push64_words (v := 0) lt₃ (by omega) (by norm_num) words₃
  have rsp₄ := grows₄.rsp
  generalize push64 s₃ 0 = s₄ at grows₄ words₄ rsp₄ ⊢
  have lt₄ : s₄.rsp < 2 ^ 64 := by omega
  obtain ⟨grows₅, words₅⟩ := pushWords_spec p_argv lt₄ (by omega) (below texts.argv) words₄
  have rsp₅ := grows₅.rsp
  generalize pushWords p_argv s₄ = s₅ at grows₅ words₅ rsp₅ ⊢
  have lt₅ : s₅.rsp < 2 ^ 64 := by omega
  have many := length_le_textBytes l.argv
  have grows₆ := push64_grows lt₅ (by omega) l.argv.length
  have words₆ := push64_words (v := l.argv.length) lt₅ (by omega) (by omega) words₅
  have rsp₆ := grows₆.rsp
  generalize push64 s₅ l.argv.length = s₆ at grows₆ words₆ rsp₆ ⊢
  rw [envc] at grows₃ rsp₃
  rw [argc] at grows₅ rsp₅
  refine ⟨⟨s', texts, ?_⟩, words₆, ?_, ?_, ?_⟩
  · exact ((((grows₁.trans grows₂).trans grows₃).trans grows₄).trans grows₅).trans grows₆
  · dsimp only
    omega
  · dsimp only
    omega
  · dsimp only
    rw [show s₃.rsp + 8 * l.envv.length + 8 = s₁.rsp by omega]

theorem RandomAt.congr {l : Launch} {mem mem' : ByteMemory} {low low' top p_random : Nat} (at_p : RandomAt l mem low top p_random)
    (le : low' ≤ low) (same : ∀ b, low ≤ b → mem' b = mem b) : RandomAt l mem' low' top p_random := by
  unfold RandomAt at at_p ⊢
  split
  · rename_i none
    rw [if_pos none] at at_p
    obtain ⟨above, below, words⟩ := at_p
    exact ⟨by omega, below, words.congr fun b le' => same b (by omega)⟩
  · rename_i given
    rwa [if_neg given] at at_p

section Laid
variable {l : Launch} {k fuel p_arg0 p_x86_64 p_random : Nat} {s : StackEmu} {i : Initial} {p_envv p_argv : List Nat}
  (laid : Laid l k s i p_arg0 p_envv p_argv p_x86_64 p_random) (room : footprint l k < s.rsp)
include laid room

theorem Laid.takes : s.rsp ≤ i.stack.rsp + footprint l k ∧ 0 < i.stack.rsp := by
  obtain ⟨s', texts, grows⟩ := laid.texts
  obtain ⟨n, le, before⟩ := texts.grows
  have rsp := before.rsp
  have rsp' := grows.rsp
  unfold footprint at room ⊢
  omega

omit room in
theorem Laid.unchanged (b : Nat) (outside : b < i.stack.rsp ∨ s.rsp ≤ b) : i.stack.mem b = s.mem b := by
  obtain ⟨s', texts, grows⟩ := laid.texts
  obtain ⟨n, le, before⟩ := texts.grows
  have rsp := before.rsp
  have rsp' := grows.rsp
  rcases outside with low | high
  · rw [grows.below b low, before.below b (by omega)]
  · rw [grows.above b (by omega), before.above b high]

omit room in
/-- The words behind the pointers to the arguments, and those behind the pointers to the environment. -/
theorem Laid.rest : WordsAt i.stack.mem i.envv (p_envv ++ 0 :: (auxWords (l.entries p_x86_64 p_random p_arg0) ++ 0 :: [0])) ∧
    WordsAt i.stack.mem (i.envv + 8 * l.envv.length + 8) (auxWords (l.entries p_x86_64 p_random p_arg0) ++ 0 :: [0]) := by
  obtain ⟨s', texts, _⟩ := laid.texts
  obtain ⟨_, words⟩ := laid.words
  have at_envv := WordsAt.append (p_argv ++ [0]) (by simpa using words)
  have behind : i.stack.rsp + 8 + 8 * (p_argv ++ [0]).length = i.envv := by
    rw [laid.envv, laid.argv, List.length_append, texts.argv.length_eq, List.length_singleton]
    omega
  rw [behind] at at_envv
  have at_auxv := WordsAt.append (p_envv ++ [0]) (by simpa using at_envv)
  rw [List.length_append, texts.envv.length_eq, List.length_singleton, Nat.mul_succ, ← Nat.add_assoc] at at_auxv
  exact ⟨at_envv, at_auxv⟩

theorem Laid.parses (enough : footprint l k ≤ fuel) : parse i.stack.mem fuel i.stack.rsp =
    some ⟨l.argv.map CStr.chars, l.envv.map CStr.chars, l.entries p_x86_64 p_random p_arg0⟩ := by
  have base := (laid.takes room).2
  obtain ⟨at_envv, at_auxv⟩ := laid.rest
  obtain ⟨s', texts, grows⟩ := laid.texts
  obtain ⟨number, at_argv⟩ := laid.words
  have places := placed_grows texts.argv grows
  have places' := placed_grows texts.envv grows
  have argc := places.length_eq
  have envc := places'.length_eq
  have count : (l.entries p_x86_64 p_random p_arg0).length = 14 := rfl
  unfold footprint at enough
  unfold parse
  rw [at_argv.readWords (fun p mem => (placed_ne_zero places base p mem).1) (by omega), argc,
    show i.stack.rsp + 8 + 8 * (l.argv.length + 1) = i.envv by rw [laid.envv, laid.argv]; omega]
  simp only [Option.bind_eq_bind, Option.bind_some]
  rw [at_envv.readWords (fun p mem => (placed_ne_zero places' base p mem).1) (by omega), envc, Nat.mul_succ, ← Nat.add_assoc]
  simp only [Option.bind_some]
  rw [parseAux_eq at_auxv (entries_types l p_x86_64 p_random p_arg0) (by omega)]
  simp only [Option.bind_some]
  rw [mapM_readString places (by omega), mapM_readString places' (by omega)]
  simp only [Option.bind_some]
  rw [number, List.length_map, if_pos rfl]

omit room in
theorem Laid.looks_up (enough : footprint l k ≤ fuel) (none : l.auxvalStart = 0) (type : Nat) :
    myGetauxval i type fuel = some (lookupAux (l.entries p_x86_64 p_random p_arg0) type) := by
  have start := laid.auxvalStart
  have count : (l.entries p_x86_64 p_random p_arg0).length = 14 := rfl
  rw [if_pos none] at start
  unfold footprint at enough
  unfold myGetauxval
  rw [start]
  exact getauxval_eq (laid.rest).2 (entries_types l p_x86_64 p_random p_arg0) (by omega) type

omit room in
theorem Laid.strings (enough : footprint l k ≤ fuel) : readString i.stack.mem fuel p_arg0 = some l.arg0.chars ∧
    readString i.stack.mem fuel p_x86_64 = some x86_64.chars ∧ RandomAt l i.stack.mem i.stack.rsp s.rsp p_random := by
  obtain ⟨s', texts, grows⟩ := laid.texts
  have rsp := grows.rsp
  unfold footprint at enough
  exact ⟨(texts.arg0.grows grows).1.readString (by omega), (texts.platform.grows grows).1.readString (by omega),
    texts.random.congr (by omega) grows.above⟩

end Laid

theorem setupInitialStack_round_trip (l : Launch) {k : Nat} (power : l.stackalign = BitVec.twoPow 64 k) (small : k < 64)
    {s : StackEmu} (lt : s.rsp < 2 ^ 64) (room : footprint l k < s.rsp) {fuel : Nat} (enough : footprint l k ≤ fuel) :
    ∃ p_x86_64 p_random p_arg0, let i := setupInitialStack l s
      parse i.stack.mem fuel i.stack.rsp =
        some ⟨l.argv.map CStr.chars, l.envv.map CStr.chars, l.entries p_x86_64 p_random p_arg0⟩ ∧
      readString i.stack.mem fuel p_arg0 = some l.arg0.chars ∧
      readString i.stack.mem fuel p_x86_64 = some x86_64.chars ∧
      RandomAt l i.stack.mem i.stack.rsp s.rsp p_random ∧
      (l.auxvalStart = 0 → ∀ type, myGetauxval i type fuel = some (lookupAux (l.entries p_x86_64 p_random p_arg0) type)) ∧
      s.rsp ≤ i.stack.rsp + footprint l k ∧ ∀ b, b < i.stack.rsp ∨ s.rsp ≤ b → i.stack.mem b = s.mem b := by
  obtain ⟨p_arg0, p_envv, p_argv, p_x86_64, p_random, laid⟩ := setupInitialStack_laid l power small lt room
  obtain ⟨arg0, platform, random⟩ := laid.strings enough
  exact ⟨p_x86_64, p_random, p_arg0, laid.parses room enough, arg0, platform, random, laid.looks_up enough,
    (laid.takes room).1, laid.unchanged⟩

/-- `a x` with `e` in the environment, on a host without `AT_RANDOM`. -/
def twoWords : Launch where
  arg0 := ⟨[0x61], by decide, by decide⟩
  args := [⟨[0x78], by decide, by decide⟩]
  envv := [⟨[0x65], by decide, by decide⟩]
  stackalign := 16
  pagesize := 4096
  rip := 0x401000
  vsyscall := 0
  auxval := fun _ => 0
  random := fun _ => 7
  auxvalStart := 0

theorem setupInitialStack_round_trip_two_words : ∃ p_x86_64 p_random p_arg0,
    let i := setupInitialStack twoWords ⟨0x10000, fun _ => 0⟩
    parse i.stack.mem 1000 i.stack.rsp =
      some ⟨[[0x61], [0x78]], [[0x65]], twoWords.entries p_x86_64 p_random p_arg0⟩ := by
  obtain ⟨p_x86_64, p_random, p_arg0, parsed, _⟩ := setupInitialStack_round_trip twoWords (k := 4) (by decide) (by decide)
    (s := ⟨0x10000, fun _ => 0⟩) (by decide) (by decide) (show _ ≤ 1000 by decide)
  exact ⟨p_x86_64, p_random, p_arg0, parsed⟩

/-- The stack is aligned to 16 bytes for the start routine only where the numbers of arguments and of environment strings add
up to an odd number. -/
theorem setupInitialStack_aligned_iff (l : Launch) {k : Nat} (power : l.stackalign = BitVec.twoPow 64 k) (small : k < 64)
    (four : 4 ≤ k) {s : StackEmu} (lt : s.rsp < 2 ^ 64) (room : footprint l k < s.rsp) :
    (setupInitialStack l s).stack.rsp % 16 = 0 ↔ (l.argv.length + l.envv.length) % 2 = 1 := by
  obtain ⟨_, _, _, _, _, laid⟩ := setupInitialStack_laid l power small lt room
  obtain ⟨s', texts, grows⟩ := laid.texts
  have rsp := grows.rsp
  have aligned : s'.rsp % 16 = 0 := by
    have divides : 2 ^ 4 ∣ 2 ^ k := pow_dvd_pow 2 four
    exact Nat.mod_eq_zero_of_dvd (divides.trans (Nat.dvd_of_mod_eq_zero texts.aligned))
  omega

theorem setupInitialStack_aligned_iff_two_words : (setupInitialStack twoWords ⟨0x10000, fun _ => 0⟩).stack.rsp % 16 = 0 ↔
    (twoWords.argv.length + twoWords.envv.length) % 2 = 1 :=
  setupInitialStack_aligned_iff twoWords (k := 4) (by decide) (by decide) le_rfl (by decide) (by decide)

end Box64.Tools
