import Mathlib.Data.BitVec
import Mathlib.Data.Fintype.Basic

/-!
# The cache of NEON registers

Which of the 24 NEON registers hold what of the x87 stack, the MMX and the SSE registers at the end of an instruction, before
its pops, and what the instruction has done to the stack.
-/

namespace Box64.Dynarec

open Function (update)

/-- `NEON_CACHE_NONE` to `NEON_CACHE_SCR`. -/
inductive CacheType
  | NONE
  | ST_D
  | ST_F
  | MM
  | XMMW
  | XMMR
  | SCR
  deriving DecidableEq

/-- `neon_cache_t`. -/
structure NeonSlot where
  t : CacheType
  n : BitVec 4
  deriving DecidableEq

namespace NeonSlot

/-- `v == 0`. -/
def empty : NeonSlot := ⟨.NONE, 0⟩

/-- A register of the x87 stack, single or double. -/
def isST (slot : NeonSlot) : Prop := slot.t = .ST_D ∨ slot.t = .ST_F

instance (slot : NeonSlot) : Decidable slot.isST := inferInstanceAs (Decidable (_ ∨ _))

end NeonSlot

/-- `XMM0`, the first register. -/
def XMM0 : Fin 24 := 0

/-- `X870` and `EMM0`. -/
def EMM0 : Fin 24 := 8

/-- `neoncache_t`; `none` stands for -1 in the caches of MMX and SSE registers, which hold the NEON register and for SSE whether
it is written. -/
structure NeonCache where
  neoncache : Fin 24 → NeonSlot
  stack : Int
  stack_next : Int
  stack_pop : Int
  stack_push : Int
  combined1 : Nat
  combined2 : Nat
  swapped : Bool
  barrier : Bool
  news : Fin 24 → Bool
  x87cache : Fin 8 → Int
  x87reg : Fin 8 → Option (Fin 24)
  mmxcache : Fin 8 → Option (Fin 24)
  ssecache : Fin 16 → Option (Fin 24 × Bool)
  fpuused : Fin 24 → Bool
  x87stack : Int
  mmxcount : Nat

namespace NeonCache

variable (c : NeonCache)

/-- `neoncache[i].t = NEON_CACHE_ST_D`. -/
def promote (i : Fin 24) : NeonCache := { c with neoncache := update c.neoncache i { c.neoncache i with t := .ST_D } }

/-- All but the types of the slots. -/
def frame : NeonCache := { c with neoncache := fun i => ⟨.NONE, (c.neoncache i).n⟩ }

theorem frame_promote (i : Fin 24) : (c.promote i).frame = c.frame := by
  simp only [frame, promote, NeonCache.mk.injEq, and_true]
  funext j
  by_cases same : j = i
  · subst same
    rw [Function.update_self]
  · rw [Function.update_of_ne same]

end NeonCache

end Box64.Dynarec
