import Mathlib.Data.BitVec

/-!
# Byte-addressed memory

Little-endian reads and writes of any number of bytes, and what a write leaves alone.
-/

/-- The byte at each address. -/
abbrev ByteMemory := Nat → BitVec 8

namespace ByteMemory

/-- The number in the `n` bytes at `a`, low byte first. -/
def read (m : ByteMemory) (a : Nat) : Nat → Nat
  | 0 => 0
  | n + 1 => (m a).toNat + 256 * read m (a + 1) n

/-- `v` stored in the `n` bytes at `a`, low byte first. -/
def write (m : ByteMemory) (a n v : Nat) : ByteMemory := fun b =>
  if a ≤ b ∧ b < a + n then BitVec.ofNat 8 (v / 256 ^ (b - a)) else m b

/-- The `n` bytes of `src` at `c` copied to `a`, as by `memmove`. -/
def copy (m : ByteMemory) (a n : Nat) (src : ByteMemory) (c : Nat) : ByteMemory := fun b =>
  if a ≤ b ∧ b < a + n then src (c + (b - a)) else m b

/-- `n` bytes at `a` set to `v`. -/
def fill (m : ByteMemory) (a n : Nat) (v : BitVec 8) : ByteMemory := fun b =>
  if a ≤ b ∧ b < a + n then v else m b

/-- Only the bytes from `lo` up to `hi` may differ. -/
def ChangedIn (lo hi : Nat) (m m' : ByteMemory) : Prop := ∀ b, b < lo ∨ hi ≤ b → m' b = m b

theorem read_lt (m : ByteMemory) (a n : Nat) : read m a n < 256 ^ n := by
  induction n generalizing a with
  | zero => simp [read]
  | succ n ih =>
    have low := (m a).isLt
    have high := ih (a + 1)
    rw [read, Nat.pow_succ]
    omega

theorem read_congr {m m' : ByteMemory} {a n : Nat} (same : ∀ b, a ≤ b → b < a + n → m' b = m b) :
    read m' a n = read m a n := by
  induction n generalizing a with
  | zero => rfl
  | succ n ih =>
    rw [read, read, same a (Nat.le_refl _) (by omega), ih (fun b lo hi => same b (by omega) (by omega))]

theorem read_write_same (m : ByteMemory) (a n v : Nat) : read (write m a n v) a n = v % 256 ^ n := by
  induction n generalizing m a v with
  | zero => simp [read, Nat.mod_one]
  | succ n ih =>
    have rest : read (write m a (n + 1) v) (a + 1) n = read (write m (a + 1) n (v / 256)) (a + 1) n := by
      refine read_congr fun b lo hi => ?_
      have steps : b - a = (b - (a + 1)) + 1 := by omega
      rw [write, write, if_pos ⟨by omega, by omega⟩, if_pos ⟨lo, hi⟩, Nat.div_div_eq_div_mul, steps,
        Nat.pow_succ, Nat.mul_comm]
    have first : (write m a (n + 1) v a).toNat = v % 256 := by
      rw [write, if_pos ⟨Nat.le_refl _, by omega⟩]
      simp
    rw [read, rest, ih, first, Nat.pow_succ, Nat.mul_comm (256 ^ n) 256, Nat.mod_mul]

theorem write_outside (m : ByteMemory) {a n v b : Nat} (out : b < a ∨ a + n ≤ b) :
    write m a n v b = m b := by
  rw [write, if_neg (by omega)]

theorem read_write_disjoint (m : ByteMemory) {a n v c k : Nat} (apart : c + k ≤ a ∨ a + n ≤ c) :
    read (write m a n v) c k = read m c k :=
  read_congr fun b lo hi => write_outside m (by omega)

theorem copy_inside (m src : ByteMemory) {a n c b : Nat} (inside : a ≤ b ∧ b < a + n) :
    copy m a n src c b = src (c + (b - a)) := if_pos inside

theorem copy_outside (m src : ByteMemory) {a n c b : Nat} (out : b < a ∨ a + n ≤ b) : copy m a n src c b = m b :=
  if_neg (by omega)

theorem fill_inside (m : ByteMemory) {a n b : Nat} {v : BitVec 8} (inside : a ≤ b ∧ b < a + n) :
    fill m a n v b = v := if_pos inside

theorem fill_outside (m : ByteMemory) {a n b : Nat} {v : BitVec 8} (out : b < a ∨ a + n ≤ b) : fill m a n v b = m b :=
  if_neg (by omega)

/-! ### Frames -/

theorem ChangedIn.refl (lo hi : Nat) (m : ByteMemory) : ChangedIn lo hi m m := fun _ _ => rfl

theorem ChangedIn.trans {lo hi : Nat} {m m' m'' : ByteMemory} (first : ChangedIn lo hi m m')
    (second : ChangedIn lo hi m' m'') : ChangedIn lo hi m m'' :=
  fun b out => (second b out).trans (first b out)

theorem ChangedIn.mono {lo hi lo' hi' : Nat} {m m' : ByteMemory} (h : ChangedIn lo hi m m')
    (below : lo' ≤ lo) (above : hi ≤ hi') : ChangedIn lo' hi' m m' :=
  fun b out => h b (by omega)

theorem changedIn_write (m : ByteMemory) (a n v : Nat) {lo hi : Nat} (below : lo ≤ a)
    (above : a + n ≤ hi) : ChangedIn lo hi m (write m a n v) :=
  fun _ out => write_outside m (by omega)

theorem ChangedIn.read {lo hi : Nat} {m m' : ByteMemory} (h : ChangedIn lo hi m m') {c k : Nat}
    (apart : c + k ≤ lo ∨ hi ≤ c) : read m' c k = read m c k :=
  read_congr fun b _ _ => h b (by omega)

end ByteMemory
