import Box64.Dynarec.Unwind
import Mathlib.Logic.Equiv.Basic

/-!
# What an x87 instruction leaves to unwind

The slots of an exit cache are those of the entry cache shifted by the pushes, with the two that were swapped exchanged, next to
the new ones. Unwinding undoes one after the other.
-/

namespace Box64.Dynarec

open Function (update)

namespace NeonSlot

/-- The slot under the number that it has when `a` and `b` are swapped. -/
def renumber (a b : BitVec 4) (s : NeonSlot) : NeonSlot := if s.isST then { s with n := Equiv.swap a b s.n } else s

/-- The slot behind `P` pushes. -/
def shift (P : Nat) (s : NeonSlot) : NeonSlot := if s.isST then { s with n := s.n + BitVec.ofNat 4 P } else s

variable {a b : BitVec 4} {P : Nat} {s : NeonSlot}

@[simp] theorem renumber_t : (s.renumber a b).t = s.t := by
  unfold renumber
  split_ifs <;> rfl

@[simp] theorem renumber_isST : (s.renumber a b).isST ↔ s.isST := by rw [isST, isST, renumber_t]

theorem renumber_n (st : s.isST) : (s.renumber a b).n = Equiv.swap a b s.n := by rw [renumber, if_pos st]

@[simp] theorem renumber_renumber : (s.renumber a b).renumber a b = s := by
  by_cases st : s.isST
  · simp only [renumber, isST] at st ⊢
    simp [st]
  · rw [renumber, renumber, if_neg st, if_neg st]

theorem renumber_self : s.renumber a a = s := by
  unfold renumber
  split_ifs
  · rw [Equiv.swap_self]
    rfl
  · rfl

theorem renumber_comm : s.renumber a b = s.renumber b a := by rw [renumber, renumber, Equiv.swap_comm]

theorem renumber_empty : s.renumber a b = .empty ↔ s = .empty := by
  by_cases st : s.isST
  · have some_type : ∀ s : NeonSlot, s.isST → s ≠ .empty := by
      rintro s (t | t) rfl <;> cases t
    exact iff_of_false (some_type _ (renumber_isST.mpr st)) (some_type _ st)
  · rw [renumber, if_neg st]

/-- The slot without `P` pushes, as `neoncacheUnwind` sees it. -/
def unshift (P : Nat) (s : NeonSlot) : NeonSlot :=
  if s.isST then if s.n.toNat < P then .empty else { s with n := s.n - BitVec.ofNat 4 P } else s

/-- The slot before a swap that was recorded. -/
def unswap (swap : Option (BitVec 4 × BitVec 4)) (s : NeonSlot) : NeonSlot :=
  match swap with
  | none => s
  | some (a, b) => s.renumber a b

@[simp] theorem unswap_isST {swap : Option (BitVec 4 × BitVec 4)} : (s.unswap swap).isST ↔ s.isST := by
  cases swap with
  | none => rfl
  | some ab => exact renumber_isST

@[simp] theorem shift_isST : (s.shift P).isST ↔ s.isST := by
  unfold shift
  split_ifs <;> rfl

/-- A register that was in the cache before the pushes is found behind them, and comes back without them. -/
theorem Upgrades.unshift {s' : NeonSlot} (up : (s.shift P).Upgrades s') (small : s.isST → s.n.toNat < 8) (few : P ≤ 8) :
    s.Upgrades (s'.unshift P) := by
  have kind : s'.isST ↔ s.isST := up.isST_iff.trans shift_isST
  by_cases st : s.isST
  · rw [shift, if_pos st] at up
    obtain ⟨number, type⟩ := up
    simp only at number type
    have small := small st
    have above : ¬ s'.n.toNat < P := by
      rw [number, BitVec.toNat_add, BitVec.toNat_ofNat]
      omega
    rw [NeonSlot.unshift, if_pos (kind.mpr st), if_neg above, number]
    exact ⟨BitVec.add_sub_cancel .., type⟩
  · rw [shift, if_neg st] at up
    rw [NeonSlot.unshift, if_neg (kind.not.mpr st)]
    exact up

variable {s'' : NeonSlot} {s' : NeonSlot} {swap : Option (BitVec 4 × BitVec 4)}

theorem Upgrades.trans (up : s.Upgrades s') (up' : s'.Upgrades s'') : s.Upgrades s'' := by
  obtain ⟨number, type⟩ := up
  obtain ⟨number', type'⟩ := up'
  refine ⟨number'.trans number, ?_⟩
  obtain same | ⟨single, double⟩ | ⟨read, write⟩ := type
  · rwa [same] at type'
  · simp only [double, reduceCtorEq, false_and, or_false] at type'
    exact .inr (.inl ⟨single, type'⟩)
  · simp only [write, reduceCtorEq, false_and, or_false] at type'
    exact .inr (.inr ⟨read, type'⟩)

theorem Upgrades.renumber (up : s.Upgrades s') : (s.renumber a b).Upgrades (s'.renumber a b) := by
  refine ⟨?_, by rw [renumber_t, renumber_t]; exact up.2⟩
  unfold NeonSlot.renumber
  rw [if_congr up.isST_iff rfl rfl]
  split_ifs
  · exact congrArg (Equiv.swap a b) up.1
  · exact up.1

theorem Upgrades.unswap (up : s.Upgrades s') : (s.unswap swap).Upgrades (s'.unswap swap) := by
  cases swap with
  | none => exact up
  | some ab => exact up.renumber

theorem Upgrades.shift (up : s.Upgrades s') : (s.shift P).Upgrades (s'.shift P) := by
  unfold NeonSlot.shift
  rw [if_congr up.isST_iff rfl rfl]
  split_ifs
  · exact ⟨congrArg (· + BitVec.ofNat 4 P) up.1, up.2⟩
  · exact up

theorem shift_shift : (s.shift P).shift 1 = s.shift (P + 1) := by
  by_cases st : s.isST
  · have moved : (s.shift P).isST := shift_isST.mpr st
    rw [shift, if_pos moved, shift, if_pos st, shift, if_pos st]
    simp only [BitVec.add_assoc, BitVec.ofNat_add]
  · rw [shift, if_neg (shift_isST.not.mpr st), shift, if_neg st, shift, if_neg st]

theorem shift_zero : s.shift 0 = s := by
  unfold shift
  split_ifs
  · rw [BitVec.add_zero]
  · rfl

theorem empty_isST : ¬ NeonSlot.empty.isST := by decide

theorem unswap_empty : NeonSlot.empty.unswap swap = .empty := by
  cases swap with
  | none => rfl
  | some ab => exact renumber_empty.mpr rfl

theorem shift_eq_empty : s.shift P = .empty ↔ s = .empty := by
  constructor
  · intro empty
    have other : ¬ s.isST := by
      rw [← shift_isST (P := P), empty]
      exact empty_isST
    rwa [shift, if_neg other] at empty
  · rintro rfl
    exact if_neg empty_isST

theorem Upgrades.empty_iff (up : s.Upgrades s') : s' = .empty ↔ s = .empty := by
  constructor
  · rintro rfl
    exact up.empty
  · rintro rfl
    obtain ⟨number, same | ⟨single, -⟩ | ⟨read, -⟩⟩ := up
    · exact congrArg₂ NeonSlot.mk same number
    · cases single
    · cases read

end NeonSlot

namespace NeonCache

variable {c : NeonCache}

/-- No two slots of the x87 stack have one number. -/
def Distinct (c : NeonCache) : Prop :=
  ∀ i j, (c.neoncache i).isST → (c.neoncache j).isST → (c.neoncache i).n = (c.neoncache j).n → i = j

/-- The register `n` of the x87 stack is in the cache. -/
def Holds (c : NeonCache) (n : BitVec 4) : Prop := ∃ i, (c.neoncache i).isST ∧ (c.neoncache i).n = n

theorem exchangeSlots_eq (distinct : c.Distinct) {j₁ j₂ : Fin 24} (st₁ : (c.neoncache j₁).isST)
    (st₂ : (c.neoncache j₂).isST) :
    (c.exchangeSlots j₁ j₂).neoncache = fun i => (c.neoncache i).renumber (c.neoncache j₁).n (c.neoncache j₂).n := by
  funext i
  simp only [exchangeSlots]
  by_cases second : i = j₂
  · subst second
    rw [Function.update_self, NeonSlot.renumber, if_pos st₂, Equiv.swap_apply_right]
    by_cases same : i = j₁
    · subst same
      rw [Function.update_self]
    · rw [Function.update_of_ne same]
  · rw [Function.update_of_ne second]
    by_cases first : i = j₁
    · subst first
      rw [Function.update_self, NeonSlot.renumber, if_pos st₁, Equiv.swap_apply_left]
    · rw [Function.update_of_ne first, NeonSlot.renumber]
      split_ifs with st
      · have differs₁ : (c.neoncache i).n ≠ (c.neoncache j₁).n := fun same => first (distinct i j₁ st st₁ same)
        have differs₂ : (c.neoncache i).n ≠ (c.neoncache j₂).n := fun same => second (distinct i j₂ st st₂ same)
        rw [Equiv.swap_apply_of_ne_of_ne differs₁ differs₂]
      · rfl

/-- What the search finds has the numbers that it looks for; what it does not find is not there. -/
theorem findCombined_spec (l : List (Fin 24)) (a b : Option (Fin 24)) :
    (∀ j, (c.findCombined l a b).1 = some j →
      a = some j ∨ (c.neoncache j).isST ∧ (c.neoncache j).n.toNat = c.combined1) ∧
    (∀ j, (c.findCombined l a b).2 = some j →
      b = some j ∨ (c.neoncache j).isST ∧ (c.neoncache j).n.toNat ≠ c.combined1 ∧ (c.neoncache j).n.toNat = c.combined2) ∧
    ((c.findCombined l a b).1 = none → a = none ∧
      ∀ j ∈ l, (c.neoncache j).isST → (c.neoncache j).n.toNat ≠ c.combined1) ∧
    ((c.findCombined l a b).2 = none → b = none ∧
      ∀ j ∈ l, (c.neoncache j).isST → (c.neoncache j).n.toNat ≠ c.combined1 → (c.neoncache j).n.toNat ≠ c.combined2) := by
  fun_induction findCombined c l a b with
  | case1 a b => exact ⟨fun _ => .inl, fun _ => .inl, fun none => ⟨none, by simp⟩, fun none => ⟨none, by simp⟩⟩
  | case2 j rest a b miss st first ih =>
    obtain ⟨found₁, found₂, miss₁, miss₂⟩ := ih
    refine ⟨?_, found₂, (fun none => nomatch (miss₁ none).1), ?_⟩
    · intro i found
      obtain here | later := found₁ i found
      · cases here
        exact .inr ⟨st, first⟩
      · exact .inr later
    · intro none
      obtain ⟨none, absent⟩ := miss₂ none
      exact ⟨none, List.forall_mem_cons.mpr ⟨fun _ differs => absurd first differs, absent⟩⟩
  | case3 j rest a b miss st first second ih =>
    obtain ⟨found₁, found₂, miss₁, miss₂⟩ := ih
    refine ⟨found₁, ?_, ?_, fun none => nomatch (miss₂ none).1⟩
    · intro i found
      obtain here | later := found₂ i found
      · cases here
        exact .inr ⟨st, first, second⟩
      · exact .inr later
    · intro none
      obtain ⟨none, absent⟩ := miss₁ none
      exact ⟨none, List.forall_mem_cons.mpr ⟨fun _ => first, absent⟩⟩
  | case4 j rest a b miss st first second ih =>
    obtain ⟨found₁, found₂, miss₁, miss₂⟩ := ih
    refine ⟨found₁, found₂, ?_, ?_⟩
    · intro none
      obtain ⟨none, absent⟩ := miss₁ none
      exact ⟨none, List.forall_mem_cons.mpr ⟨fun _ => first, absent⟩⟩
    · intro none
      obtain ⟨none, absent⟩ := miss₂ none
      exact ⟨none, List.forall_mem_cons.mpr ⟨fun _ _ => second, absent⟩⟩
  | case5 j rest a b miss other ih =>
    obtain ⟨found₁, found₂, miss₁, miss₂⟩ := ih
    refine ⟨found₁, found₂, ?_, ?_⟩
    · intro none
      obtain ⟨none, absent⟩ := miss₁ none
      exact ⟨none, List.forall_mem_cons.mpr ⟨fun st => absurd st other, absent⟩⟩
    · intro none
      obtain ⟨none, absent⟩ := miss₂ none
      exact ⟨none, List.forall_mem_cons.mpr ⟨fun st => absurd st other, absent⟩⟩
  | case6 j rest a b both =>
    exact ⟨fun _ => .inl, fun _ => .inl, fun none => absurd (.inl none) both, fun none => absurd (.inr none) both⟩

/-- A swap that was recorded is undone. -/
theorem unwindSwap_of_swapped {a b : BitVec 4} (distinct : c.Distinct) (swapped : c.swapped = true)
    (combined1 : c.combined1 = a.toNat) (combined2 : c.combined2 = b.toNat) (holds₁ : c.Holds a) (holds₂ : c.Holds b) :
    c.unwindSwap.neoncache = fun i => (c.neoncache i).renumber a b := by
  obtain ⟨j₁, st₁, n₁⟩ := holds₁
  obtain ⟨j₂, st₂, n₂⟩ := holds₂
  obtain ⟨found₁, found₂, miss₁, miss₂⟩ := findCombined_spec (c := c) (List.finRange 24) none none
  have first : (c.findCombined (List.finRange 24) none none).1 = some j₁ := by
    cases result : (c.findCombined (List.finRange 24) none none).1 with
    | none => exact absurd (by rw [n₁, combined1]) ((miss₁ result).2 j₁ (List.mem_finRange j₁) st₁)
    | some j =>
      obtain here | ⟨st, n⟩ := found₁ j result
      · cases here
      · rw [combined1, BitVec.toNat_inj] at n
        rw [distinct j j₁ st st₁ (n.trans n₁.symm)]
  unfold unwindSwap
  rw [if_pos swapped]
  by_cases same : a = b
  · subst same
    have second : (c.findCombined (List.finRange 24) none none).2 = none := by
      cases result : (c.findCombined (List.finRange 24) none none).2 with
      | none => rfl
      | some j =>
        obtain here | ⟨-, differs, n⟩ := found₂ j result
        · cases here
        · exact absurd (n.trans (combined2.trans combined1.symm)) differs
    rw [show c.findCombined (List.finRange 24) none none = (some j₁, none) from Prod.ext first second]
    funext i
    exact NeonSlot.renumber_self.symm
  · have second : (c.findCombined (List.finRange 24) none none).2 = some j₂ := by
      cases result : (c.findCombined (List.finRange 24) none none).2 with
      | none =>
        refine absurd (by rw [n₂, combined2]) ((miss₂ result).2 j₂ (List.mem_finRange j₂) st₂ ?_)
        rw [n₂, combined1]
        exact fun equal => same (BitVec.eq_of_toNat_eq equal).symm
      | some j =>
        obtain here | ⟨st, -, n⟩ := found₂ j result
        · cases here
        · rw [combined2, BitVec.toNat_inj] at n
          rw [distinct j j₂ st st₂ (n.trans n₂.symm)]
    rw [show c.findCombined (List.finRange 24) none none = (some j₁, some j₂) from Prod.ext first second]
    have exchanged := exchangeSlots_eq distinct st₁ st₂
    rw [n₁, n₂] at exchanged
    exact exchanged

/-- The swap that the cache has recorded. -/
def Swapped (c : NeonCache) : Option (BitVec 4 × BitVec 4) → Prop
  | none => c.swapped = false
  | some (a, b) => c.swapped = true ∧ c.combined1 = a.toNat ∧ c.combined2 = b.toNat ∧ c.Holds a ∧ c.Holds b

/-- What an instruction leaves behind that has started from `e` without MMX registers, has made `P` pushes and the swap, if any,
and perhaps pops. -/
structure Exit (e : NeonCache) (swap : Option (BitVec 4 × BitVec 4)) (P : Nat) (c : NeonCache) : Prop where
  mmxcount : c.mmxcount = 0
  created : ∀ i, c.news i = true → e.neoncache i = .empty
  kept : ∀ i, c.news i = false → ((e.neoncache i).shift P).Upgrades ((c.neoncache i).unswap swap)
  distinct : c.Distinct
  registers : ∀ k reg, c.x87cache k ≠ -1 → c.x87reg k = some reg → (c.neoncache reg).isST
  stack_push : c.stack_push = P
  x87stack : c.x87stack + c.stack_pop = e.x87stack + P
  stack : c.stack = e.stack + P
  swapped : c.Swapped swap

theorem unwindPush_slot {P : Nat} (pushed : c.stack_push = P) (i : Fin 24) :
    c.unwindPush.neoncache i = (c.neoncache i).unshift P := by
  unfold unwindPush NeonSlot.unshift
  rw [pushed]
  by_cases none : P = 0
  · subst none
    rw [if_neg (by simp)]
    split_ifs with st below
    · omega
    · rw [BitVec.sub_zero]
    · rfl
  · rw [if_pos (by omega)]
    simp only [Int.ofNat_lt, BitVec.ofInt_natCast]

namespace Exit

variable {e : NeonCache} {swap : Option (BitVec 4 × BitVec 4)} {P : Nat} (exit : Exit e swap P c)

include exit

theorem unwindSwap_slots : c.unwindSwap.neoncache = fun i => (c.neoncache i).unswap swap := by
  cases swap with
  | none =>
    have unswapped : c.swapped = false := exit.swapped
    rw [unwindSwap, if_neg (by simp [unswapped])]
    rfl
  | some ab =>
    obtain ⟨swapped, combined1, combined2, holds₁, holds₂⟩ := exit.swapped
    exact unwindSwap_of_swapped exit.distinct swapped combined1 combined2 holds₁ holds₂

/-- Each slot is unwound to what it was before the instruction. -/
theorem unwind_slot (entry : e.Entry) (few : P ≤ 8) (i : Fin 24) :
    (e.neoncache i).Upgrades (c.unwindSwap.unwindNews.unwindPush.neoncache i) := by
  obtain ⟨news, -, -, push, -⟩ := unwindSwap_counters c
  have slot : c.unwindSwap.unwindNews.neoncache i = if c.news i then .empty else (c.neoncache i).unswap swap := by
    simp only [unwindNews]
    rw [news, exit.unwindSwap_slots]
  rw [unwindPush_slot (c := c.unwindSwap.unwindNews) (push.trans exit.stack_push), slot]
  split_ifs with new
  · rw [exit.created i new]
    exact .refl _
  · exact (exit.kept i (by simpa using new)).unshift (entry.st i) few

theorem recovers (entry : e.Entry) (few : P ≤ 8) : ∃ u, c.neoncacheUnwind = some u ∧ u.Describes ∧ Recovers e u := by
  have slots := exit.unwind_slot entry few
  obtain ⟨u, unwound, describes, same, x87stack, stack, stack_next⟩ :=
    neoncacheUnwind_describes (entry.toPlaced.of_upgrades fun i => .inr (slots i))
  have kept_stack : u.stack = e.stack := by
    have := exit.stack
    have := exit.stack_push
    omega
  refine ⟨u, unwound, describes, ?_⟩
  exact {
    slots := by
      rw [same]
      exact slots
    x87stack := by
      have := exit.x87stack
      have := exit.stack_push
      omega
    stack := kept_stack
    stack_next := by rw [stack_next, kept_stack, entry.stack_next] }

end Exit

end NeonCache
end Box64.Dynarec
