import Box64.Emu.Tls
import Mathlib.Data.List.GetD

/-!
# TLS blocks over whole runs

Every thread finds in its block of a module the module's image and its own writes over it, however its area grows.
-/

namespace Box64.Emu.Tls

/-- The initial contents of a block. -/
def Stage.image : Stage → Nat → BitVec 8
  | .loaded file => fun off => file.getD off 0
  | _ => fun _ => 0

/-- The area has the block of an ELF: it was set up after the partition. -/
def Area.Has (a : Area) (e : Elf) : Prop := e.stage ≠ .added ∧ e.tlssize ≠ 0 ∧ 0 ≤ a.tlssize + e.tlsbase

instance (a : Area) (e : Elf) : Decidable (a.Has e) := inferInstanceAs (Decidable (_ ∧ _ ∧ _))

/-! ### The DTV -/

theorem int32_eq {x : Int} (low : -2 ^ 31 ≤ x) (high : x < 2 ^ 31) : int32 x = x := by
  rw [int32]
  exact Int.bmod_eq_of_le (by omega) (by omega)

section Dtv

open ByteMemory

variable (ptr : BitVec 64) (tlssize : Int) (tp : Nat)

theorem writeDtv_changedIn (i : Nat) (elfs : List Elf) (mem : ByteMemory) :
    ChangedIn (tp + POS_TLS + i * 16) (tp + POS_TLS + (i + elfs.length) * 16) mem
      (writeDtv ptr tlssize tp i elfs mem) := by
  induction elfs generalizing i mem with
  | nil => exact .refl _ _ _
  | cons e elfs ih =>
    rw [writeDtv, List.length_cons]
    have entry := (changedIn_write mem (tp + POS_TLS + i * 16) 8
      (ptr + BitVec.ofInt 64 (tlssize + int32 e.tlsbase)).toNat (Nat.le_refl _) (Nat.le_refl _)).mono
      (Nat.le_refl (tp + POS_TLS + i * 16)) (by omega : _ ≤ tp + POS_TLS + (i + (elfs.length + 1)) * 16)
    refine (entry.trans ?_).trans ((ih (i + 1) _).mono (by omega) (by omega))
    exact changedIn_write _ _ _ _ (by omega) (by omega)

theorem read_writeDtv {i k : Nat} {elfs : List Elf} {e : Elf} (mem : ByteMemory) (at_k : elfs[k]? = some e) :
    (writeDtv ptr tlssize tp i elfs mem).read (tp + POS_TLS + (i + k) * 16) 8 =
      (ptr + BitVec.ofInt 64 (tlssize + int32 e.tlsbase)).toNat := by
  induction elfs generalizing i k mem with
  | nil => cases at_k
  | cons e' elfs ih =>
    rw [writeDtv]
    cases k with
    | zero =>
      cases at_k
      rw [(writeDtv_changedIn ptr tlssize tp (i + 1) elfs _).read (.inl (by omega)),
        read_write_disjoint _ (.inl (by omega)), Nat.add_zero, read_write_same, Nat.mod_eq_of_lt]
      exact BitVec.isLt _
    | succ k =>
      have next : ∀ mem, _ := fun mem => ih (i := i + 1) (k := k) mem at_k
      rw [Nat.add_right_comm i 1 k] at next
      exact next _

end Dtv

section Setup

variable (context : Context) (fresh : Fresh)

theorem setupTLSData_below {b : Nat} (below : b < context.tlssize.toNat) :
    (setupTLSData context fresh).mem b = context.tlsdata b := by
  have dtv := writeDtv_changedIn fresh.ptr context.tlssize context.tlssize.toNat 0 context.elfs
  simp only [setupTLSData]
  rw [ByteMemory.write_outside _ (.inl (by omega)), dtv _ _ (.inl (by omega)),
    ByteMemory.write_outside _ (.inl (by omega)), ByteMemory.write_outside _ (.inl (by omega)),
    ByteMemory.write_outside _ (.inl below), ByteMemory.write_outside _ (.inl (by omega)),
    ByteMemory.fill_outside _ (.inl below), ByteMemory.copy_inside _ _ ⟨Nat.zero_le _, by omega⟩]
  congr 1
  omega

theorem setupTLSData_dtv {h : Nat} {e : Elf} (at_h : context.elfs[h]? = some e) :
    (setupTLSData context fresh).mem.read (context.tlssize.toNat + POS_TLS + h * 16) 8 =
      (fresh.ptr + BitVec.ofInt 64 (context.tlssize + int32 e.tlsbase)).toNat := by
  simp only [setupTLSData]
  rw [ByteMemory.read_write_disjoint _ (.inr (by simp only [POS_TLS]; omega))]
  have entry : ∀ mem, _ := fun mem => read_writeDtv fresh.ptr context.tlssize context.tlssize.toNat (i := 0) mem at_h
  rw [Nat.zero_add] at entry
  exact entry _

end Setup

/-! ### Invariant -/

/-- What an area has of the blocks: of each, all or nothing. -/
structure Matches (s : State) (t : Nat) (a : Area) : Prop where
  nonneg : 0 ≤ a.tlssize
  le : a.tlssize ≤ s.context.tlssize
  apart : ∀ (h : Nat) (e : Elf), s.context.elfs[h]? = some e → e.stage ≠ .added → e.tlssize ≠ 0 → ¬ a.Has e →
    a.tlssize + e.tlsbase + e.tlssize.toNat ≤ 0
  dtv : ∀ (h : Nat) (e : Elf), s.context.elfs[h]? = some e → a.Has e →
    a.mem.read (a.tlssize.toNat + POS_TLS + h * 16) 8 = (a.tlsdata + BitVec.ofInt 64 (a.tlssize + e.tlsbase)).toNat
  bytes : ∀ (h : Nat) (e : Elf), s.context.elfs[h]? = some e → a.Has e → ∀ off < e.tlssize.toNat,
    a.mem ((a.tlssize + e.tlsbase).toNat + off) = (s.written t h off).getD (e.stage.image off)

/-- The blocks of a context: below the thread pointer, apart, and in the template. -/
structure Blocks (c : Context) : Prop where
  nonneg : 0 ≤ c.tlssize
  small : c.tlssize < 2 ^ 31
  above : ∀ (h : Nat) (e : Elf), c.elfs[h]? = some e → e.stage ≠ .added → 0 ≤ c.tlssize + e.tlsbase
  below : ∀ (h : Nat) (e : Elf), c.elfs[h]? = some e → e.stage ≠ .added → e.tlsbase + e.tlssize.toNat ≤ 0
  apart : ∀ (h : Nat) (e : Elf) (h' : Nat) (e' : Elf), c.elfs[h]? = some e → c.elfs[h']? = some e' → e.stage ≠ .added → e'.stage ≠ .added → h ≠ h' →
    e.tlsbase + e.tlssize.toNat ≤ e'.tlsbase ∨ e'.tlsbase + e'.tlssize.toNat ≤ e.tlsbase
  template : ∀ (h : Nat) (e : Elf), c.elfs[h]? = some e → e.stage ≠ .added → ∀ off < e.tlssize.toNat,
    c.tlsdata ((c.tlssize + e.tlsbase).toNat + off) = e.stage.image off

structure Inv (s : State) : Prop where
  blocks : Blocks s.context
  areas : ∀ t a, s.area t = some a → Matches s t a
  /-- A block gets into an area with its image. -/
  ready : ∀ t a, s.area t = some a → ∀ (h : Nat) (e : Elf), s.context.elfs[h]? = some e → a.Has e → e.stage ≠ .partitioned
  written : ∀ t h off, s.written t h off ≠ none → ∃ (a : Area) (e : Elf), s.area t = some a ∧ s.context.elfs[h]? = some e ∧ a.Has e

/-! ### Areas -/

section Current

variable {s : State} {t : Nat}

theorem Blocks.int32_tlssize {c : Context} (blocks : Blocks c) : int32 c.tlssize = c.tlssize := by
  have := blocks.nonneg
  exact int32_eq (by omega) blocks.small

theorem Blocks.int32_tlsbase {c : Context} (blocks : Blocks c) {h : Nat} {e : Elf} (at_h : c.elfs[h]? = some e)
    (partitioned : e.stage ≠ .added) : int32 e.tlsbase = e.tlsbase := by
  have above := blocks.above h e at_h partitioned
  have below := blocks.below h e at_h partitioned
  have small := blocks.small
  exact int32_eq (by omega) (by omega)

theorem Inv.setup (inv : Inv s) (none : s.area t = none) (fresh : Fresh) :
    Matches s t (setupTLSData s.context fresh) := by
  have size : (setupTLSData s.context fresh).tlssize = s.context.tlssize := inv.blocks.int32_tlssize
  have nonneg := inv.blocks.nonneg
  refine ⟨size ▸ nonneg, size ▸ le_rfl, ?_, ?_, ?_⟩
  · intro h e at_h partitioned nonempty absent
    exact absurd ⟨partitioned, nonempty, size ▸ inv.blocks.above h e at_h partitioned⟩ absent
  · rintro h e at_h ⟨partitioned, -, -⟩
    rw [size, setupTLSData_dtv _ _ at_h, inv.blocks.int32_tlsbase at_h partitioned]
    rfl
  · rintro h e at_h ⟨partitioned, -, -⟩ off lt
    have below := inv.blocks.below h e at_h partitioned
    have above := inv.blocks.above h e at_h partitioned
    have unwritten : s.written t h off = .none := by
      by_contra wrote
      obtain ⟨a, -, area, -, -⟩ := inv.written t h off wrote
      cases none.symm.trans area
    rw [size, setupTLSData_below _ _ (by omega), unwritten]
    exact inv.blocks.template h e at_h partitioned off lt

theorem Inv.resize (inv : Inv s) {old : Area} (area : s.area t = some old) (fresh : Fresh) :
    ∃ a, resizeTLSData s.context old fresh = some a ∧ Matches s t a ∧ a.tlssize = s.context.tlssize := by
  have size : (setupTLSData s.context fresh).tlssize = s.context.tlssize := inv.blocks.int32_tlssize
  have nonneg := inv.blocks.nonneg
  obtain ⟨oldNonneg, oldLe, oldApart, -, oldBytes⟩ := inv.areas t old area
  refine ⟨_, if_neg (by omega), ⟨size ▸ nonneg, size ▸ le_rfl, ?_, ?_, ?_⟩, size⟩
  · intro h e at_h partitioned nonempty absent
    refine absurd ⟨partitioned, nonempty, ?_⟩ absent
    exact size ▸ inv.blocks.above h e at_h partitioned
  · rintro h e at_h ⟨partitioned, -, -⟩
    simp only [size]
    rw [ByteMemory.read_congr, setupTLSData_dtv _ _ at_h, inv.blocks.int32_tlsbase at_h partitioned]
    · rfl
    · intro b lo hi
      exact ByteMemory.copy_outside _ _ (.inr (by omega))
  · rintro h e at_h ⟨partitioned, nonempty, -⟩ off lt
    have below := inv.blocks.below h e at_h partitioned
    have above := inv.blocks.above h e at_h partitioned
    simp only [size]
    by_cases has : old.Has e
    · -- the block is in the old area, copied to the top
      have inside := has.2.2
      rw [← oldBytes h e at_h has off lt, ByteMemory.copy_inside _ _ (by omega)]
      congr 1
      omega
    · -- the block is new, below what is copied
      have outside := oldApart h e at_h partitioned nonempty has
      have unwritten : s.written t h off = none := by
        by_contra wrote
        obtain ⟨a, e', area', at_h', has'⟩ := inv.written t h off wrote
        cases area.symm.trans area'
        cases at_h.symm.trans at_h'
        exact has has'
      rw [ByteMemory.copy_outside _ _ (.inl (by omega)), setupTLSData_below _ _ (by omega), unwritten]
      exact inv.blocks.template h e at_h partitioned off lt

/-- A thread always gets an area, with all blocks. -/
theorem Inv.current (inv : Inv s) (t : Nat) (first second : Fresh) : ∃ a,
    currentArea s.context (s.area t) first second = some a ∧ Matches s t a ∧ a.tlssize = s.context.tlssize := by
  cases area : s.area t with
  | none =>
    have size : (setupTLSData s.context first).tlssize = s.context.tlssize := inv.blocks.int32_tlssize
    exact ⟨_, if_neg (not_not.mpr size), inv.setup area first, size⟩
  | some old =>
    by_cases same : old.tlssize = s.context.tlssize
    · exact ⟨old, if_neg (not_not.mpr same), inv.areas t old area, same⟩
    · obtain ⟨a, resized, right, size⟩ := inv.resize area second
      exact ⟨a, (if_pos same).trans resized, right, size⟩

end Current

/-! ### Steps -/

/-- The step leaves the total size an `int`, or sets up no area while the image of a block is missing. -/
def Op.Ok (s : State) : Op → Prop
  | .addPartition h => ∀ e, s.context.elfs[h]? = some e → s.context.tlssize + e.tlssize.toNat < 2 ^ 31
  | .getSeg33Base t _ _ => (∃ a, s.area t = some a ∧ a.tlssize = s.context.tlssize) ∨
      ∀ e ∈ s.context.elfs, e.stage = .partitioned → e.tlssize = 0
  | .getTLSPointer t h _ _ => (∃ e, s.context.elfs[h]? = some e ∧ e.tlssize = 0) ∨
      (∃ a, s.area t = some a ∧ a.tlssize = s.context.tlssize) ∨
      ∀ e ∈ s.context.elfs, e.stage = .partitioned → e.tlssize = 0
  | _ => True

theorem getElem?_set_cases {elfs : List Elf} {h k : Nat} {e e' : Elf} (at_k : (elfs.set h e)[k]? = some e') :
    (k = h ∧ e' = e) ∨ (k ≠ h ∧ elfs[k]? = some e') := by
  by_cases same : k = h
  · subst same
    have lt : k < elfs.length := by
      by_contra out
      rw [List.getElem?_eq_none (by rw [List.length_set]; omega)] at at_k
      cases at_k
    rw [List.getElem?_set_self lt] at at_k
    cases at_k
    exact .inl ⟨rfl, rfl⟩
  · rw [List.getElem?_set_ne (Ne.symm same)] at at_k
    exact .inr ⟨same, at_k⟩

section Partition

variable {c : Context} {h : Nat} {e : Elf}

theorem AddTLSPartition_eq (blocks : Blocks c) (fits : c.tlssize + e.tlssize.toNat < 2 ^ 31) :
    AddTLSPartition c (int32 e.tlssize.toNat) = some
      ({ c with
          tlsdata := (c.tlsdata.copy e.tlssize.toNat c.tlssize.toNat c.tlsdata 0).fill 0 e.tlssize.toNat 0
          tlssize := c.tlssize + e.tlssize.toNat },
        -(c.tlssize + e.tlssize.toNat)) := by
  have nonneg := blocks.nonneg
  have size : int32 e.tlssize.toNat = e.tlssize.toNat := int32_eq (by omega) (by omega)
  have base : int32 (-(c.tlssize + e.tlssize.toNat)) = -(c.tlssize + e.tlssize.toNat) :=
    int32_eq (by omega) (by omega)
  simp only [AddTLSPartition, size, blocks.int32_tlssize, base]
  rw [if_neg (by omega)]
  rfl

/-- A new block goes below all others. -/
theorem Blocks.partition (blocks : Blocks c) (fits : c.tlssize + e.tlssize.toNat < 2 ^ 31) :
    Blocks { c with
      tlsdata := (c.tlsdata.copy e.tlssize.toNat c.tlssize.toNat c.tlsdata 0).fill 0 e.tlssize.toNat 0
      tlssize := c.tlssize + e.tlssize.toNat
      elfs := c.elfs.set h { e with tlsbase := -(c.tlssize + e.tlssize.toNat), stage := .partitioned } } := by
  have nonneg := blocks.nonneg
  refine ⟨by dsimp only; omega, fits, ?_, ?_, ?_, ?_⟩
  · intro k x at_k partitioned
    dsimp only
    obtain ⟨rfl, rfl⟩ | ⟨-, at_k⟩ := getElem?_set_cases at_k
    · dsimp only
      omega
    · have := blocks.above k x at_k partitioned
      omega
  · intro k x at_k partitioned
    obtain ⟨rfl, rfl⟩ | ⟨-, at_k⟩ := getElem?_set_cases at_k
    · dsimp only
      omega
    · exact blocks.below k x at_k partitioned
  · intro k x k' x' at_k at_k' partitioned partitioned' other
    obtain ⟨rfl, rfl⟩ | ⟨-, old⟩ := getElem?_set_cases at_k <;>
      obtain ⟨rfl, rfl⟩ | ⟨-, old'⟩ := getElem?_set_cases at_k'
    · exact absurd rfl other
    · have := blocks.above k' x' old' partitioned'
      dsimp only
      omega
    · have := blocks.above k x old partitioned
      dsimp only
      omega
    · exact blocks.apart k x k' x' old old' partitioned partitioned' other
  · intro k x at_k partitioned off lt
    obtain ⟨rfl, rfl⟩ | ⟨-, at_k⟩ := getElem?_set_cases at_k
    · dsimp only at lt ⊢
      rw [ByteMemory.fill_inside _ (by omega)]
      rfl
    · have above := blocks.above k x at_k partitioned
      have below := blocks.below k x at_k partitioned
      dsimp only
      rw [ByteMemory.fill_outside _ (.inr (by omega)), ByteMemory.copy_inside _ _ (by omega),
        ← blocks.template k x at_k partitioned off lt]
      congr 1
      omega

/-- The image goes into its own block, which was zero. -/
theorem Blocks.load (blocks : Blocks c) (at_h : c.elfs[h]? = some e) (stage : e.stage = .partitioned)
    {file : List (BitVec 8)} {memsz : Nat} (fits : file.length ≤ memsz) (inside : memsz ≤ e.tlssize.toNat) :
    Blocks { loadImage c e.tlsbase file memsz with elfs := c.elfs.set h { e with stage := .loaded file } } := by
  have partitioned : e.stage ≠ .added := by
    rw [stage]
    exact Stage.noConfusion
  -- every block is where one was
  have back : ∀ (k : Nat) (x : Elf), (c.elfs.set h { e with stage := .loaded file })[k]? = some x → x.stage ≠ .added →
      ∃ y, c.elfs[k]? = some y ∧ y.stage ≠ .added ∧ y.tlsbase = x.tlsbase ∧ y.tlssize = x.tlssize := by
    intro k x at_k notAdded
    obtain ⟨rfl, rfl⟩ | ⟨-, at_k⟩ := getElem?_set_cases at_k
    · exact ⟨e, at_h, partitioned, rfl, rfl⟩
    · exact ⟨x, at_k, notAdded, rfl, rfl⟩
  refine ⟨blocks.nonneg, blocks.small, ?_, ?_, ?_, ?_⟩
  · intro k x at_k notAdded
    obtain ⟨y, at_k, notAdded, base, -⟩ := back k x at_k notAdded
    rw [← base]
    exact blocks.above k y at_k notAdded
  · intro k x at_k notAdded
    obtain ⟨y, at_k, notAdded, base, size⟩ := back k x at_k notAdded
    rw [← base, ← size]
    exact blocks.below k y at_k notAdded
  · intro k x k' x' at_k at_k' notAdded notAdded' other
    obtain ⟨y, at_k, notAdded, base, size⟩ := back k x at_k notAdded
    obtain ⟨y', at_k', notAdded', base', size'⟩ := back k' x' at_k' notAdded'
    rw [← base, ← size, ← base', ← size']
    exact blocks.apart k y k' y' at_k at_k' notAdded notAdded' other
  · intro k x at_k notAdded off lt
    have above := blocks.above h e at_h partitioned
    have below := blocks.below h e at_h partitioned
    dsimp only [loadImage]
    obtain ⟨rfl, rfl⟩ | ⟨other, at_k⟩ := getElem?_set_cases at_k
    · have zero := blocks.template k e at_h partitioned off lt
      dsimp only at lt ⊢
      change _ = file.getD off 0
      by_cases inFile : off < file.length
      · rw [ByteMemory.fill_outside _ (.inl (by omega)), ByteMemory.copy_inside _ _ (by omega)]
        congr 1
        omega
      · rw [List.getD_eq_default _ _ (by omega)]
        by_cases inMem : off < memsz
        · rw [ByteMemory.fill_inside _ (by omega)]
        · rw [ByteMemory.fill_outside _ (.inr (by omega)), ByteMemory.copy_outside _ _ (.inr (by omega)), zero, stage]
          rfl
    · have apart := blocks.apart h e k x at_h at_k partitioned notAdded (Ne.symm other)
      have aboveX := blocks.above k x at_k notAdded
      rw [ByteMemory.fill_outside _ (by omega), ByteMemory.copy_outside _ _ (by omega)]
      exact blocks.template k x at_k notAdded off lt

end Partition

section Step

variable {s s' : State}

/-- An ELF the loader is not done with has no block in any area. -/
theorem Inv.unwritten (inv : Inv s) {h : Nat} {e : Elf} (at_h : s.context.elfs[h]? = some e) {t off : Nat}
    (absent : ∀ a, s.area t = some a → ¬ a.Has e) : s.written t h off = none := by
  by_contra wrote
  obtain ⟨a, e', area, at_h', has⟩ := inv.written t h off wrote
  cases at_h.symm.trans at_h'
  exact absent a area has

theorem Inv.addElf (inv : Inv s) {tlssize : BitVec 64} (next : step s (.addElf tlssize) = some s') : Inv s' := by
  cases next
  obtain ⟨blocks, areas, ready, written⟩ := inv
  have old : ∀ {k : Nat} {x : Elf}, (s.context.elfs ++ [⟨tlssize, 0, .added⟩])[k]? = some x → x.stage ≠ .added →
      s.context.elfs[k]? = some x := by
    intro k x at_k notAdded
    rw [List.getElem?_append] at at_k
    split at at_k
    · exact at_k
    · rw [List.getElem?_singleton] at at_k
      split at at_k
      · cases at_k
        exact absurd rfl notAdded
      · cases at_k
  refine ⟨⟨blocks.nonneg, blocks.small, ?_, ?_, ?_, ?_⟩, ?_, ?_, ?_⟩
  · exact fun k x at_k notAdded => blocks.above k x (old at_k notAdded) notAdded
  · exact fun k x at_k notAdded => blocks.below k x (old at_k notAdded) notAdded
  · exact fun k x k' x' at_k at_k' notAdded notAdded' =>
      blocks.apart k x k' x' (old at_k notAdded) (old at_k' notAdded') notAdded notAdded'
  · exact fun k x at_k notAdded => blocks.template k x (old at_k notAdded) notAdded
  · intro t a area
    obtain ⟨nonneg, le, apart, dtv, bytes⟩ := areas t a area
    refine ⟨nonneg, le, ?_, ?_, ?_⟩
    · exact fun k x at_k notAdded => apart k x (old at_k notAdded) notAdded
    · exact fun k x at_k has => dtv k x (old at_k has.1) has
    · exact fun k x at_k has => bytes k x (old at_k has.1) has
  · exact fun t a area k x at_k has => ready t a area k x (old at_k has.1) has
  · intro t k off wrote
    obtain ⟨a, x, area, at_k, has⟩ := written t k off wrote
    have lt := (List.getElem?_eq_some_iff.mp at_k).1
    exact ⟨a, x, area, (List.getElem?_append_left lt).trans at_k, has⟩

theorem Inv.addPartition (inv : Inv s) {h : Nat} (ok : Op.Ok s (.addPartition h))
    (next : step s (.addPartition h) = some s') : Inv s' := by
  obtain ⟨e, at_h, next⟩ := Option.bind_eq_some_iff.mp next
  have fits := ok e at_h
  rw [AddTLSPartition_eq inv.blocks fits] at next
  simp only [Option.bind_eq_bind, Option.bind_some] at next
  split at next
  case isFalse => cases next
  case isTrue added =>
    cases next
    obtain ⟨blocks, areas, ready, written⟩ := inv
    -- no area reaches down to the new block
    have absent : ∀ t a, s.area t = some a →
        ¬ a.Has { e with tlsbase := -(s.context.tlssize + e.tlssize.toNat), stage := .partitioned } := by
      rintro t a area ⟨-, nonempty, inside⟩
      have le := (areas t a area).le
      have pos : e.tlssize.toNat ≠ 0 := fun zero => nonempty (BitVec.eq_of_toNat_eq zero)
      dsimp only at inside
      omega
    refine ⟨blocks.partition fits, ?_, ?_, ?_⟩
    · intro t a area
      obtain ⟨nonneg, le, apart, dtv, bytes⟩ := areas t a area
      refine ⟨nonneg, by dsimp only; omega, ?_, ?_, ?_⟩
      · intro k x at_k notAdded nonempty none
        obtain ⟨rfl, rfl⟩ | ⟨-, at_k⟩ := getElem?_set_cases at_k
        · dsimp only
          omega
        · exact apart k x at_k notAdded nonempty none
      · intro k x at_k has
        obtain ⟨rfl, rfl⟩ | ⟨-, at_k⟩ := getElem?_set_cases at_k
        · exact absurd has (absent t a area)
        · exact dtv k x at_k has
      · intro k x at_k has
        obtain ⟨rfl, rfl⟩ | ⟨-, at_k⟩ := getElem?_set_cases at_k
        · exact absurd has (absent t a area)
        · exact bytes k x at_k has
    · intro t a area k x at_k has
      obtain ⟨rfl, rfl⟩ | ⟨-, at_k⟩ := getElem?_set_cases at_k
      · exact absurd has (absent t a area)
      · exact ready t a area k x at_k has
    · intro t k off wrote
      obtain ⟨a, x, area, at_k, has⟩ := written t k off wrote
      have other : h ≠ k := by
        rintro rfl
        cases at_h.symm.trans at_k
        exact has.1 added
      exact ⟨a, x, area, (List.getElem?_set_ne other).trans at_k, has⟩

theorem Inv.loadImage (inv : Inv s) {h : Nat} {file : List (BitVec 8)} {memsz : Nat}
    (next : step s (.loadImage h file memsz) = some s') : Inv s' := by
  obtain ⟨e, at_h, next⟩ := Option.bind_eq_some_iff.mp next
  split at next
  case isFalse => cases next
  case isTrue enabled =>
    cases next
    obtain ⟨stage, fits, inside⟩ := enabled
    obtain ⟨blocks, areas, ready, written⟩ := inv
    -- an area with the block would have come before its image
    have absent : ∀ t a, s.area t = some a → ¬ a.Has { e with stage := .loaded file } := by
      rintro t a area ⟨-, nonempty, above⟩
      refine ready t a area h e at_h ⟨?_, nonempty, above⟩ stage
      rw [stage]
      exact Stage.noConfusion
    refine ⟨blocks.load at_h stage fits inside, ?_, ?_, ?_⟩
    · intro t a area
      obtain ⟨nonneg, le, apart, dtv, bytes⟩ := areas t a area
      refine ⟨nonneg, le, ?_, ?_, ?_⟩
      · intro k x at_k notAdded nonempty none
        obtain ⟨rfl, rfl⟩ | ⟨-, at_k⟩ := getElem?_set_cases at_k
        · refine apart k e at_h ?_ nonempty fun has => ready t a area k e at_h has stage
          rw [stage]
          exact Stage.noConfusion
        · exact apart k x at_k notAdded nonempty none
      · intro k x at_k has
        obtain ⟨rfl, rfl⟩ | ⟨-, at_k⟩ := getElem?_set_cases at_k
        · exact absurd has (absent t a area)
        · exact dtv k x at_k has
      · intro k x at_k has
        obtain ⟨rfl, rfl⟩ | ⟨-, at_k⟩ := getElem?_set_cases at_k
        · exact absurd has (absent t a area)
        · exact bytes k x at_k has
    · intro t a area k x at_k has
      obtain ⟨rfl, rfl⟩ | ⟨-, at_k⟩ := getElem?_set_cases at_k
      · exact absurd has (absent t a area)
      · exact ready t a area k x at_k has
    · intro t k off wrote
      obtain ⟨a, x, area, at_k, has⟩ := written t k off wrote
      have other : h ≠ k := by
        rintro rfl
        cases at_h.symm.trans at_k
        exact ready t a area h e at_h has stage
      exact ⟨a, x, area, (List.getElem?_set_ne other).trans at_k, has⟩

/-- A thread gets its area, with the image of every block in it. -/
theorem Inv.access (inv : Inv s) {t : Nat} {first second : Fresh} {a : Area}
    (ok : (∃ a, s.area t = some a ∧ a.tlssize = s.context.tlssize) ∨
      ∀ e ∈ s.context.elfs, e.stage = .partitioned → e.tlssize = 0)
    (gets : currentArea s.context (s.area t) first second = some a) :
    Inv { s with area := Function.update s.area t (some a) } := by
  obtain ⟨a', gets', right, size⟩ := inv.current t first second
  cases gets.symm.trans gets'
  refine ⟨inv.blocks, ?_, ?_, ?_⟩
  · intro u b area
    by_cases same : u = t
    · subst same
      cases (Function.update_self u (some a) s.area).symm.trans area
      exact ⟨right.nonneg, right.le, right.apart, right.dtv, right.bytes⟩
    · obtain ⟨nonneg, le, apart, dtv, bytes⟩ := inv.areas u b ((Function.update_of_ne same _ _).symm.trans area)
      exact ⟨nonneg, le, apart, dtv, bytes⟩
  · intro u b area h e at_h has
    by_cases same : u = t
    · subst same
      cases (Function.update_self u (some a) s.area).symm.trans area
      obtain ⟨old, area, size'⟩ | loaded := ok
      · -- nothing to set up
        rw [area, currentArea, Option.getD_some, if_neg (not_not.mpr size')] at gets
        cases gets
        exact inv.ready u a area h e at_h has
      · exact fun stage => has.2.1 (loaded e (List.mem_of_getElem? at_h) stage)
    · exact inv.ready u b ((Function.update_of_ne same _ _).symm.trans area) h e at_h has
  · intro u h off wrote
    obtain ⟨b, e, area, at_h, has⟩ := inv.written u h off wrote
    by_cases same : u = t
    · subst same
      have le := (inv.areas u b area).le
      have inside := has.2.2
      exact ⟨a, e, Function.update_self u _ _, at_h, has.1, has.2.1, by omega⟩
    · exact ⟨b, e, (Function.update_of_ne same _ _).trans area, at_h, has⟩

theorem Inv.getSeg33Base (inv : Inv s) {t : Nat} {first second : Fresh} (ok : Op.Ok s (.getSeg33Base t first second))
    (next : step s (.getSeg33Base t first second) = some s') : Inv s' := by
  obtain ⟨⟨ptr, base⟩, gets, next⟩ := Option.bind_eq_some_iff.mp next
  obtain ⟨a, current, same⟩ := Option.bind_eq_some_iff.mp gets
  cases same
  cases next
  exact inv.access ok current

theorem Inv.getTLSPointer (inv : Inv s) {t h : Nat} {first second : Fresh}
    (ok : Op.Ok s (.getTLSPointer t h first second))
    (next : step s (.getTLSPointer t h first second) = some s') : Inv s' := by
  obtain ⟨e, at_h, next⟩ := Option.bind_eq_some_iff.mp next
  obtain ⟨⟨ptr, base⟩, gets, next⟩ := Option.bind_eq_some_iff.mp next
  cases next
  rw [GetTLSPointer] at gets
  split at gets
  case isTrue empty =>
    cases gets
    rw [Function.update_eq_self]
    exact inv
  case isFalse nonempty =>
    obtain ⟨a, current, same⟩ := Option.bind_eq_some_iff.mp gets
    cases same
    refine inv.access ?_ current
    obtain ⟨e', at_h', empty⟩ | ok := ok
    · cases at_h.symm.trans at_h'
      exact absurd empty nonempty
    · exact ok

theorem Inv.write (inv : Inv s) {t h off : Nat} {v : BitVec 8} (next : step s (.write t h off v) = some s') :
    Inv s' := by
  obtain ⟨e, at_h, next⟩ := Option.bind_eq_some_iff.mp next
  obtain ⟨a, area, next⟩ := Option.bind_eq_some_iff.mp next
  split at next
  case isFalse => cases next
  case isTrue enabled =>
    cases next
    obtain ⟨notAdded, inBlock, inArea⟩ := enabled
    have nonempty : e.tlssize ≠ 0 := by
      rintro zero
      rw [zero] at inBlock
      exact absurd inBlock (Nat.not_lt_zero _)
    have below := inv.blocks.below h e at_h notAdded
    obtain ⟨nonneg, le, apart, dtv, bytes⟩ := inv.areas t a area
    refine ⟨inv.blocks, ?_, ?_, ?_⟩
    · intro u b area'
      by_cases same : u = t
      · subst same
        cases (Function.update_self u _ s.area).symm.trans area'
        refine ⟨nonneg, le, apart, ?_, ?_⟩
        · intro k x at_k has
          rw [← dtv k x at_k has]
          refine ByteMemory.read_congr ?_
          intro i lo hi
          exact Function.update_of_ne (by dsimp only at lo; omega) _ _
        · intro k x at_k has i lt
          have inside := has.2.2
          have old := bytes k x at_k has i lt
          dsimp only at inside ⊢
          rw [Function.update_self]
          by_cases sameElf : k = h
          · subst sameElf
            cases at_h.symm.trans at_k
            rw [Function.update_self]
            by_cases sameOff : i = off
            · subst sameOff
              rw [Function.update_self, Function.update_self]
              rfl
            · rw [Function.update_of_ne sameOff, Function.update_of_ne (by omega), old]
          · have disjoint := inv.blocks.apart k x h e at_k at_h has.1 notAdded sameElf
            rw [Function.update_of_ne sameElf, Function.update_of_ne (by omega), old]
      · obtain ⟨nonneg, le, apart, dtv, bytes⟩ := inv.areas u b ((Function.update_of_ne same _ _).symm.trans area')
        refine ⟨nonneg, le, apart, dtv, ?_⟩
        intro k x at_k has i lt
        dsimp only
        rw [Function.update_of_ne same]
        exact bytes k x at_k has i lt
    · intro u b area' k x at_k has
      by_cases same : u = t
      · subst same
        cases (Function.update_self u _ s.area).symm.trans area'
        exact inv.ready u a area k x at_k has
      · exact inv.ready u b ((Function.update_of_ne same _ _).symm.trans area') k x at_k has
    · intro u k i wrote
      dsimp only at wrote
      by_cases same : u = t
      · subst same
        rw [Function.update_self] at wrote
        by_cases sameElf : k = h
        · subst sameElf
          exact ⟨_, e, Function.update_self u _ _, at_h, notAdded, nonempty, inArea⟩
        · rw [Function.update_of_ne sameElf] at wrote
          obtain ⟨b, x, area', at_k, has⟩ := inv.written u k i wrote
          cases area.symm.trans area'
          exact ⟨_, x, Function.update_self u _ _, at_k, has⟩
      · rw [Function.update_of_ne same] at wrote
        obtain ⟨b, x, area', at_k, has⟩ := inv.written u k i wrote
        exact ⟨b, x, (Function.update_of_ne same _ _).trans area', at_k, has⟩

theorem Inv.step (inv : Inv s) {op : Op} (ok : op.Ok s) (next : step s op = some s') : Inv s' := by
  cases op with
  | addElf => exact inv.addElf next
  | addPartition => exact inv.addPartition ok next
  | loadImage => exact inv.loadImage next
  | getSeg33Base => exact inv.getSeg33Base ok next
  | getTLSPointer => exact inv.getTLSPointer ok next
  | write => exact inv.write next

end Step

/-! ### Main results -/

/-- The area serves a thread: its blocks lie inside, the DTV points to them, and each holds what the thread last wrote
there over the image of the module. -/
structure Serves (s : State) (t : Nat) (a : Area) : Prop where
  inside : ∀ (h : Nat) (e : Elf), s.context.elfs[h]? = some e → a.Has e →
    a.tlssize + e.tlsbase + e.tlssize.toNat ≤ a.tlssize
  dtv : ∀ (h : Nat) (e : Elf), s.context.elfs[h]? = some e → a.Has e →
    a.mem.read (a.tlssize.toNat + POS_TLS + h * 16) 8 = (a.tlsdata + BitVec.ofInt 64 (a.tlssize + e.tlsbase)).toNat
  bytes : ∀ (h : Nat) (e : Elf) (image : List (BitVec 8)), s.context.elfs[h]? = some e → e.stage = .loaded image →
    a.Has e → ∀ off < e.tlssize.toNat,
      a.mem ((a.tlssize + e.tlsbase).toNat + off) = (s.written t h off).getD (image.getD off 0)

structure Safe (s : State) : Prop where
  apart : ∀ (h : Nat) (e : Elf) (h' : Nat) (e' : Elf), s.context.elfs[h]? = some e → s.context.elfs[h']? = some e' →
    e.stage ≠ .added → e'.stage ≠ .added → h ≠ h' →
    e.tlsbase + e.tlssize.toNat ≤ e'.tlsbase ∨ e'.tlsbase + e'.tlssize.toNat ≤ e.tlsbase
  serves : ∀ t a, s.area t = some a → Serves s t a
  /-- Every thread can have an area with all blocks. -/
  grows : ∀ t first second, ∃ a, currentArea s.context (s.area t) first second = some a ∧ Serves s t a ∧
    ∀ e ∈ s.context.elfs, e.stage ≠ .added → e.tlssize ≠ 0 → a.Has e

theorem Matches.serves {s : State} {t : Nat} {a : Area} (right : Matches s t a) (blocks : Blocks s.context) :
    Serves s t a := by
  refine ⟨?_, right.dtv, ?_⟩
  · intro h e at_h has
    have below := blocks.below h e at_h has.1
    omega
  · intro h e image at_h stage has off lt
    have byte := right.bytes h e at_h has off lt
    rw [stage] at byte
    exact byte

theorem Inv.safe {s : State} (inv : Inv s) : Safe s := by
  refine ⟨inv.blocks.apart, fun t a area => (inv.areas t a area).serves inv.blocks, ?_⟩
  intro t first second
  obtain ⟨a, gets, right, size⟩ := inv.current t first second
  refine ⟨a, gets, right.serves inv.blocks, ?_⟩
  intro e mem notAdded nonempty
  obtain ⟨h, at_h⟩ := List.getElem?_of_mem mem
  exact ⟨notAdded, nonempty, size ▸ inv.blocks.above h e at_h notAdded⟩

theorem inv_start (canary vsyscall : BitVec 64) : Inv (start canary vsyscall) := by
  refine ⟨⟨le_rfl, (by decide : (0 : Int) < 2 ^ 31), ?_, ?_, ?_, ?_⟩, ?_, ?_, ?_⟩
  all_goals intros
  all_goals contradiction

/-- In every run in which the sizes add up to an `int` and no area is set up while the image of a module is missing,
the threads find their blocks. -/
theorem safe_of_allSteps (canary vsyscall : BitVec 64) (ops : List Op)
    (ok : Runs.AllSteps step (fun s op => op.Ok s) (start canary vsyscall) ops) :
    Runs.Always step Safe (start canary vsyscall) ops :=
  Runs.always_of_allSteps (fun _ inv => inv.safe) (fun _ _ _ inv good next => inv.step good next)
    (inv_start canary vsyscall) ops ok

def zeroes : Fresh := ⟨0, fun _ => 0⟩

/-- A module loaded, a thread that writes to its block, and another module, for which the area of the thread grows. -/
theorem safe_of_allSteps_two : Runs.Always step Safe (start 0 0)
    [.addElf 1, .addPartition 0, .loadImage 0 [1] 1, .getSeg33Base 0 zeroes zeroes, .write 0 0 0 2,
      .addElf 1, .addPartition 1, .loadImage 1 [3] 1, .getSeg33Base 0 zeroes zeroes] := by
  refine safe_of_allSteps 0 0 _ ?_
  refine .cons rfl trivial ?_
  refine .cons (Option.some_get (by decide)).symm ?_ ?_
  · rintro e ⟨⟩
    decide
  refine .cons (Option.some_get (by decide)).symm trivial ?_
  refine .cons (Option.some_get (by decide)).symm (.inr (by decide)) ?_
  refine .cons (Option.some_get (by decide)).symm trivial ?_
  refine .cons (Option.some_get (by decide)).symm trivial ?_
  refine .cons (Option.some_get (by decide)).symm ?_ ?_
  · rintro e ⟨⟩
    decide
  refine .cons (Option.some_get (by decide)).symm trivial ?_
  exact .cons (Option.some_get (by decide)).symm (.inr (by decide)) Runs.allSteps_nil

/-- Another thread's area is set up between the partition of a module and its image: it never gets the image. -/
theorem window_safe_not : ¬ Runs.Always step Safe (start 0 0)
    [.addElf 1, .addPartition 0, .getSeg33Base 0 zeroes zeroes, .loadImage 0 [1] 1] := by
  intro always
  have safe := always _ (List.prefix_refl _) _ rfl
  have byte := (safe.serves 0 _ rfl).bytes 0 _ [1] rfl rfl (by decide) 0 (by decide)
  revert byte
  decide

end Box64.Emu.Tls
