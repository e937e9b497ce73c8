import Mathlib.Data.BitVec

/-!
# Variadic arguments

A calling convention that passes a variadic argument in the next integer register, in the next vector register, or in
the overflow area once its registers are used up. Addresses count 8-byte words.
-/

namespace VarArgs

inductive Kind
  | integer
  | double
  | longDouble
  deriving DecidableEq

/-- Where an argument is, for integer registers `R` and vector registers `V`. -/
inductive Place (R V : Type)
  | integer (r : R)
  | vector (v : V)
  | stack (addr : Nat)
  | stack16 (addr : Nat)
  deriving DecidableEq

/-- The registers not used up, and the next word of the overflow area. -/
structure Cursor (R V : Type) where
  ints : List R
  vecs : List V
  overflow : Nat

/-- An argument in memory. -/
inductive Slot
  | word (v : BitVec 64)
  | longDouble (lo hi : BitVec 64)
  deriving DecidableEq

structure Args (R V : Type) where
  ints : R → BitVec 64
  vecs : V → BitVec 64
  stack : Nat → BitVec 64

/-- `addr` or the word after it, at a multiple of 16 bytes. -/
def align16 (addr : Nat) : Nat := if addr % 2 ≠ 0 then addr + 1 else addr

section Fetch

variable {R V : Type}

def Cursor.place (c : Cursor R V) : Kind → Place R V
  | .integer => match c.ints with
    | r :: _ => .integer r
    | [] => .stack c.overflow
  | .double => match c.vecs with
    | v :: _ => .vector v
    | [] => .stack c.overflow
  | .longDouble => .stack16 (align16 c.overflow)

def Cursor.after (c : Cursor R V) : Kind → Cursor R V
  | .integer => match c.ints with
    | _ :: ints => { c with ints }
    | [] => { c with overflow := c.overflow + 1 }
  | .double => match c.vecs with
    | _ :: vecs => { c with vecs }
    | [] => { c with overflow := c.overflow + 1 }
  | .longDouble => { c with overflow := align16 c.overflow + 2 }

/-- The places of a sequence of arguments. -/
def Cursor.places (c : Cursor R V) : List Kind → List (Place R V)
  | [] => []
  | k :: kinds => c.place k :: (c.after k).places kinds

def Args.value (args : Args R V) : Place R V → Slot
  | .integer r => .word (args.ints r)
  | .vector v => .word (args.vecs v)
  | .stack addr => .word (args.stack addr)
  | .stack16 addr => .longDouble (args.stack addr) (args.stack (addr + 1))

/-! ### Places are told apart by values -/

theorem Args.place_ext [DecidableEq R] [DecidableEq V] {p q : Place R V}
    (same : ∀ args : Args R V, args.value p = args.value q) : p = q := by
  -- a 1 in the place `p` and nowhere else
  cases p with
  | integer r =>
    have value := same ⟨Function.update (fun _ => 0) r 1, fun _ => 0, fun _ => 0⟩
    cases q <;> simp_all [Args.value, Function.update_apply]
  | vector v =>
    have value := same ⟨fun _ => 0, Function.update (fun _ => 0) v 1, fun _ => 0⟩
    cases q <;> simp_all [Args.value, Function.update_apply]
  | stack addr =>
    have value := same ⟨fun _ => 0, fun _ => 0, Function.update (fun _ => 0) addr 1⟩
    cases q <;> simp_all [Args.value, Function.update_apply]
  | stack16 addr =>
    have value := same ⟨fun _ => 0, fun _ => 0, Function.update (fun _ => 0) addr 1⟩
    cases q <;> simp_all [Args.value, Function.update_apply]

theorem Args.places_ext [DecidableEq R] [DecidableEq V] {ps qs : List (Place R V)}
    (same : ∀ args : Args R V, ps.map args.value = qs.map args.value) : ps = qs := by
  induction ps generalizing qs with
  | nil =>
    have := same ⟨fun _ => 0, fun _ => 0, fun _ => 0⟩
    exact (List.map_eq_nil_iff.mp this.symm).symm
  | cons p ps ih =>
    cases qs with
    | nil =>
      have := same ⟨fun _ => 0, fun _ => 0, fun _ => 0⟩
      cases this
    | cons q qs =>
      have heads : p = q := Args.place_ext fun args => (List.cons.inj (same args)).1
      have tails : ps = qs := ih fun args => (List.cons.inj (same args)).2
      rw [heads, tails]

end Fetch

/-! ### Arguments in memory -/

/-- The addresses of arguments that follow each other from `addr` on. -/
def layout (addr : Nat) : List Slot → List (Nat × Slot)
  | [] => []
  | .word v :: slots => (addr, .word v) :: layout (addr + 1) slots
  | .longDouble lo hi :: slots => (align16 addr, .longDouble lo hi) :: layout (align16 addr + 2) slots

theorem map_snd_layout (addr : Nat) (slots : List Slot) : (layout addr slots).map Prod.snd = slots := by
  induction slots generalizing addr with
  | nil => rfl
  | cons slot slots ih =>
    cases slot with
    | word v => rw [layout, List.map_cons, ih]
    | longDouble lo hi => rw [layout, List.map_cons, ih]

theorem layout_injective {addr : Nat} {slots slots' : List Slot} (same : layout addr slots = layout addr slots') :
    slots = slots' := by
  rw [← map_snd_layout addr slots, same, map_snd_layout]

end VarArgs
