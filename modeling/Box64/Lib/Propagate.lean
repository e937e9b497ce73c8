import Mathlib.Algebra.BigOperators.Group.Finset.Basic
import Mathlib.Algebra.Order.BigOperators.Group.Finset
import Mathlib.Data.Fintype.Basic

/-!
# Backward propagation over a graph

Every node holds a value. A message to a node changes its value, and the node either keeps quiet or
sends a message of its own to its predecessors, one after the other, by recursion. The graph may be
cyclic, so a node can hear again while its own message is still being delivered.

Three rules: an invariant of all the values (`propagate_invariant`), what has been heard when a call
returns (`propagate_progress`, `propagateAll_settles`), and a bound on the recursion depth
(`propagate_terminates`).
-/

namespace Propagation

structure Flow (ν α μ : Type*) where
  pred : ν → List ν
  visit : ν → α → μ → α
  send : ν → α → μ → Option μ

namespace Flow

variable {ν α μ : Type*} [DecidableEq ν] (flow : Flow ν α μ)

/-- Delivery of one message, with a bound on the depth of the recursion. -/
def propagate : Nat → (ν → α) → ν → μ → Option (ν → α)
  | 0, _, _, _ => none
  | fuel + 1, values, i, m =>
    let values' := Function.update values i (flow.visit i (values i) m)
    match flow.send i (values i) m with
    | none => some values'
    | some out => (flow.pred i).foldlM (fun values p => propagate fuel values p out) values'

def propagateAll (fuel : Nat) (m : μ) (nodes : List ν) (values : ν → α) : Option (ν → α) :=
  nodes.foldlM (fun values i => flow.propagate fuel values i m) values

theorem foldlM_induct {σ β : Type*} {f : σ → β → Option σ} {P : σ → Prop} (l : List β)
    (step : ∀ s b s', b ∈ l → P s → f s b = some s' → P s') {s s' : σ} (start : P s)
    (run : l.foldlM f s = some s') : P s' := by
  induction l generalizing s with
  | nil =>
    obtain rfl : s = s' := by simpa using run
    exact start
  | cons b l ih =>
    obtain ⟨mid, first, rest⟩ : ∃ mid, f s b = some mid ∧ l.foldlM f mid = some s' := by
      simpa [List.foldlM_cons, Option.bind_eq_some_iff] using run
    exact ih (fun s b s' mem => step s b s' (List.mem_cons_of_mem _ mem))
      (step s b mid List.mem_cons_self start first) rest

/-- What one step of the recursion does. -/
theorem propagate_cases {fuel : Nat} {values values' : ν → α} {i : ν} {m : μ}
    (run : flow.propagate (fuel + 1) values i m = some values') :
    (flow.send i (values i) m = none ∧ values' = Function.update values i (flow.visit i (values i) m)) ∨
    ∃ out, flow.send i (values i) m = some out ∧
      (flow.pred i).foldlM (fun values p => flow.propagate fuel values p out)
        (Function.update values i (flow.visit i (values i) m)) = some values' := by
  rw [propagate] at run
  cases sent : flow.send i (values i) m with
  | none =>
    simp only [sent, Option.some.injEq] at run
    exact .inl ⟨rfl, run.symm⟩
  | some out =>
    simp only [sent] at run
    exact .inr ⟨out, rfl, run⟩

/-! ### Invariants -/

/-- An invariant of the values that every legitimate message keeps, when legitimate messages give rise
to legitimate ones only. -/
theorem propagate_invariant {P : (ν → α) → Prop} {Q : ν → μ → Prop}
    (visit : ∀ values i m, P values → Q i m → P (Function.update values i (flow.visit i (values i) m)))
    (send : ∀ values i m out p, P values → Q i m → flow.send i (values i) m = some out →
      p ∈ flow.pred i → Q p out)
    {fuel : Nat} {values values' : ν → α} {i : ν} {m : μ} (holds : P values) (legitimate : Q i m)
    (run : flow.propagate fuel values i m = some values') : P values' := by
  induction fuel generalizing values values' i m with
  | zero => nomatch run
  | succ fuel ih =>
    rcases flow.propagate_cases run with ⟨-, rfl⟩ | ⟨out, sent, loop⟩
    · exact visit values i m holds legitimate
    · apply foldlM_induct (flow.pred i) _ (visit values i m holds legitimate) loop
      intro values₁ p values₂ mem holds₁ call
      exact ih holds₁ (send values i m out p holds legitimate sent mem) call

theorem propagateAll_invariant {P : (ν → α) → Prop} {Q : ν → μ → Prop}
    (visit : ∀ values i m, P values → Q i m → P (Function.update values i (flow.visit i (values i) m)))
    (send : ∀ values i m out p, P values → Q i m → flow.send i (values i) m = some out →
      p ∈ flow.pred i → Q p out)
    {fuel : Nat} {m : μ} {nodes : List ν} {values values' : ν → α} (holds : P values)
    (legitimate : ∀ i, Q i m) (run : flow.propagateAll fuel m nodes values = some values') : P values' := by
  apply foldlM_induct nodes _ holds run
  intro values₁ i values₂ _ holds₁ call
  exact flow.propagate_invariant visit send holds₁ (legitimate i) call

/-! ### What has been heard -/

section Heard

variable {Valid : ν → α → Prop} {Heard : ν → α → μ → Prop} {out : ν → α → μ}
  (valid_visit : ∀ i a m, Valid i a → Valid i (flow.visit i a m))
  (heard_visit : ∀ i a m, Heard i (flow.visit i a m) m)
  (heard_mono : ∀ i a m m', Heard i a m → Heard i (flow.visit i a m') m)
  (send_out : ∀ i a m o, flow.send i a m = some o → o = out i (flow.visit i a m))
  (quiet : ∀ i a m, Valid i a → flow.send i a m = none → flow.visit i a m = a)

/-- The predecessors of `s` have heard what `s` has to say. -/
def Settled (Heard : ν → α → μ → Prop) (out : ν → α → μ) (values : ν → α) (s : ν) : Prop :=
  ∀ p ∈ flow.pred s, Heard p (values p) (out s (values s))

/-- Nothing heard is forgotten, and a node left unsettled was so before and has not changed. -/
structure Progress (Heard : ν → α → μ → Prop) (out : ν → α → μ) (values values' : ν → α) : Prop where
  heard : ∀ i m, Heard i (values i) m → Heard i (values' i) m
  settled : ∀ s, flow.Settled Heard out values' s ∨ (¬flow.Settled Heard out values s ∧ values' s = values s)

omit [DecidableEq ν] in
theorem Progress.refl (values : ν → α) : flow.Progress Heard out values values :=
  ⟨fun _ _ h => h, fun s => (Classical.em (flow.Settled Heard out values s)).imp_right fun h => ⟨h, rfl⟩⟩

omit [DecidableEq ν] in
theorem Progress.trans {values values₁ values₂ : ν → α} (first : flow.Progress Heard out values values₁)
    (second : flow.Progress Heard out values₁ values₂) : flow.Progress Heard out values values₂ where
  heard i m h := second.heard i m (first.heard i m h)
  settled s := by
    rcases second.settled s with done | ⟨open₁, same₁⟩
    · exact .inl done
    rcases first.settled s with done | ⟨open₀, same₀⟩
    · exact absurd done open₁
    · exact .inr ⟨open₀, same₁.trans same₀⟩

include valid_visit in
theorem update_valid {values : ν → α} (valid : ∀ j, Valid j (values j)) (i : ν) (m : μ) :
    ∀ j, Valid j (Function.update values i (flow.visit i (values i) m) j) := by
  rw [Function.forall_update_iff values Valid]
  exact ⟨valid_visit i _ m (valid i), fun j _ => valid j⟩

include valid_visit in
theorem propagate_valid {fuel : Nat} {values values' : ν → α} {i : ν} {m : μ}
    (valid : ∀ j, Valid j (values j)) (run : flow.propagate fuel values i m = some values') :
    ∀ j, Valid j (values' j) := by
  apply flow.propagate_invariant (P := fun values => ∀ j, Valid j (values j)) (Q := fun _ _ => True) _ _ valid
    trivial run
  · intro values i m valid _
    exact flow.update_valid valid_visit valid i m
  · exact fun _ _ _ _ _ _ _ _ _ => trivial

include valid_visit heard_visit heard_mono send_out quiet

/-- A call has its message heard, and leaves its node settled unless the node kept quiet. -/
theorem propagate_progress {fuel : Nat} {values values' : ν → α} {i : ν} {m : μ}
    (valid : ∀ j, Valid j (values j)) (run : flow.propagate fuel values i m = some values') :
    flow.Progress Heard out values values' ∧ Heard i (values' i) m ∧
      (flow.send i (values i) m = none ∨ flow.Settled Heard out values' i) := by
  induction fuel generalizing values values' i m with
  | zero => nomatch run
  | succ fuel ih =>
    rcases flow.propagate_cases run with ⟨sent, rfl⟩ | ⟨o, sent, loop⟩
    · have same : Function.update values i (flow.visit i (values i) m) = values := by
        rw [quiet i _ m (valid i) sent, Function.update_eq_self]
      have heard := heard_visit i (values i) m
      rw [quiet i _ m (valid i) sent] at heard
      rw [same]
      exact ⟨.refl flow values, heard, .inl sent⟩
    · -- the predecessors hear `o` one after the other, and none forgets it
      let visited := Function.update values i (flow.visit i (values i) m)
      have visited_i : visited i = flow.visit i (values i) m := Function.update_self ..
      have valid_visited : ∀ j, Valid j (visited j) := flow.update_valid valid_visit valid i m
      have loop_progress : ∀ (l : List ν) (start : ν → α), (∀ j, Valid j (start j)) →
          l.foldlM (fun values p => flow.propagate fuel values p o) start = some values' →
          flow.Progress Heard out start values' ∧ ∀ p ∈ l, Heard p (values' p) o := by
        intro l
        induction l with
        | nil =>
          intro start _ rest
          obtain rfl : start = values' := by simpa using rest
          exact ⟨.refl flow start, fun p mem => nomatch mem⟩
        | cons p l ih_loop =>
          intro start valid_start rest
          obtain ⟨mid, call, rest⟩ : ∃ mid, flow.propagate fuel start p o = some mid ∧
              l.foldlM (fun values p => flow.propagate fuel values p o) mid = some values' := by
            simpa [List.foldlM_cons, Option.bind_eq_some_iff] using rest
          obtain ⟨first, heard_p, -⟩ := ih valid_start call
          obtain ⟨others, heard_l⟩ := ih_loop mid (flow.propagate_valid valid_visit valid_start call) rest
          refine ⟨first.trans flow others, fun q mem => ?_⟩
          rcases List.mem_cons.mp mem with rfl | mem
          · exact others.heard q o heard_p
          · exact heard_l q mem
      obtain ⟨after, heard_all⟩ := loop_progress (flow.pred i) visited valid_visited loop
      have settled_i : flow.Settled Heard out values' i := by
        rcases after.settled i with done | ⟨-, same⟩
        · exact done
        · intro p mem
          have := heard_all p mem
          rwa [send_out i _ m o sent, ← visited_i, ← same] at this
      have heard_visited : ∀ j m', Heard j (values j) m' → Heard j (visited j) m' := by
        intro j m' heard
        by_cases eq : j = i
        · subst eq
          rw [visited_i]
          exact heard_mono j _ m' m heard
        · rwa [show visited j = values j from Function.update_of_ne eq ..]
      refine ⟨⟨fun j m' heard => after.heard j m' (heard_visited j m' heard), fun s => ?_⟩, ?_, .inr settled_i⟩
      · by_cases eq : s = i
        · exact .inl (eq ▸ settled_i)
        rcases after.settled s with done | ⟨still, same⟩
        · exact .inl done
        · have same_s : visited s = values s := Function.update_of_ne eq ..
          refine .inr ⟨fun settled => still fun p mem => ?_, same.trans same_s⟩
          rw [same_s]
          exact heard_visited p _ (settled p mem)
      · apply after.heard
        rw [visited_i]
        exact heard_visit i (values i) m

variable (Valid Heard out) in
/-- After a message to every node of `nodes`, each node is settled, or still has its first value and
would keep quiet about that message. -/
theorem propagateAll_settles {fuel : Nat} {m : μ} {nodes : List ν} {values values' : ν → α}
    (valid : ∀ j, Valid j (values j)) (run : flow.propagateAll fuel m nodes values = some values') :
    (∀ i ∈ nodes, Heard i (values' i) m) ∧ ∀ s ∈ nodes, flow.Settled Heard out values' s ∨
      (values' s = values s ∧ flow.send s (values s) m = none) := by
  have steps : ∀ (l : List ν) (start : ν → α), (∀ j, Valid j (start j)) →
      (∀ s, flow.Settled Heard out start s ∨ start s = values s) →
      l.foldlM (fun values i => flow.propagate fuel values i m) start = some values' →
      flow.Progress Heard out start values' ∧ (∀ i ∈ l, Heard i (values' i) m) ∧
        ∀ s ∈ l, flow.Settled Heard out values' s ∨
          (values' s = values s ∧ flow.send s (values s) m = none) := by
    intro l
    induction l with
    | nil =>
      intro start _ _ rest
      obtain rfl : start = values' := by simpa using rest
      exact ⟨.refl flow start, (fun _ mem => nomatch mem), (fun _ mem => nomatch mem)⟩
    | cons i l ih =>
      intro start valid_start origin rest
      obtain ⟨mid, call, rest⟩ : ∃ mid, flow.propagate fuel start i m = some mid ∧
          l.foldlM (fun values i => flow.propagate fuel values i m) mid = some values' := by
        simpa [List.foldlM_cons, Option.bind_eq_some_iff] using rest
      obtain ⟨first, heard_i, sent⟩ :=
        flow.propagate_progress valid_visit heard_visit heard_mono send_out quiet valid_start call
      have origin_mid : ∀ s, flow.Settled Heard out mid s ∨ mid s = values s := by
        intro s
        rcases first.settled s with done | ⟨still, same⟩
        · exact .inl done
        · exact .inr (same.trans ((origin s).resolve_left still))
      obtain ⟨others, heard_l, settled_l⟩ := ih mid (flow.propagate_valid valid_visit valid_start call) origin_mid rest
      refine ⟨first.trans flow others, fun j mem => ?_, fun s mem => ?_⟩
      · rcases List.mem_cons.mp mem with rfl | mem
        · exact others.heard j m heard_i
        · exact heard_l j mem
      · rcases List.mem_cons.mp mem with rfl | mem
        · rcases (first.trans flow others).settled s with done | ⟨still, same⟩
          · exact .inl done
          have start_s := (origin s).resolve_left still
          rcases sent with sent | settled
          · exact .inr ⟨same.trans start_s, start_s ▸ sent⟩
          · rcases others.settled s with done | ⟨still_mid, -⟩
            · exact .inl done
            · exact absurd settled still_mid
        · exact settled_l s mem
  exact (steps nodes values valid (fun _ => .inr rfl) run).2

end Heard

/-! ### Termination -/

section Height

variable [Fintype ν] {height : ν → α → Nat} {order : ν → Nat} {top : Nat}
  (order_le : ∀ i, order i ≤ top)
  (visit_le : ∀ i a m, height i (flow.visit i a m) ≤ height i a)
  (send_drop : ∀ i a m out, flow.send i a m = some out →
    height i (flow.visit i a m) < height i a ∨ ∀ p ∈ flow.pred i, order p < order i)

def totalHeight (height : ν → α → Nat) (values : ν → α) : Nat := ∑ i, height i (values i)

theorem totalHeight_update (height : ν → α → Nat) (values : ν → α) (i : ν) (a : α) :
    totalHeight height (Function.update values i a) + height i (values i) =
      totalHeight height values + height i a := by
  unfold totalHeight
  have new := Finset.add_sum_erase Finset.univ (fun j => height j (Function.update values i a j)) (Finset.mem_univ i)
  have old := Finset.add_sum_erase Finset.univ (fun j => height j (values j)) (Finset.mem_univ i)
  have rest : ∑ j ∈ Finset.univ.erase i, height j (Function.update values i a j) =
      ∑ j ∈ Finset.univ.erase i, height j (values j) := by
    apply Finset.sum_congr rfl
    intro j mem
    rw [Function.update_of_ne (Finset.ne_of_mem_erase mem)]
  simp only [Function.update_self] at new
  omega

include order_le visit_le send_drop

/-- A value can fall only so often, and between two falls the messages follow a descending order. -/
theorem propagate_terminates {fuel : Nat} (values : ν → α) (i : ν) (m : μ)
    (enough : totalHeight height values * (top + 1) + order i < fuel) :
    ∃ values', flow.propagate fuel values i m = some values' ∧
      totalHeight height values' ≤ totalHeight height values := by
  induction fuel generalizing values i m with
  | zero => exact absurd enough (Nat.not_lt_zero _)
  | succ fuel ih =>
    rw [propagate]
    have total := totalHeight_update height values i (flow.visit i (values i) m)
    have le := visit_le i (values i) m
    cases sent : flow.send i (values i) m with
    | none => exact ⟨_, rfl, by omega⟩
    | some out =>
      dsimp only
      generalize Function.update values i (flow.visit i (values i) m) = visited at total ⊢
      have room : ∀ p ∈ flow.pred i, totalHeight height visited * (top + 1) + order p < fuel := by
        intro p mem
        rcases send_drop i (values i) m out sent with fell | descends
        · have below : totalHeight height visited + 1 ≤ totalHeight height values := by omega
          have scaled := Nat.mul_le_mul_right (top + 1) below
          have := order_le p
          rw [Nat.add_mul] at scaled
          omega
        · have scaled := Nat.mul_le_mul_right (top + 1)
            (show totalHeight height visited ≤ totalHeight height values by omega)
          have := descends p mem
          omega
      have loop : ∀ (l : List ν) (start : ν → α), (∀ p ∈ l, p ∈ flow.pred i) →
          totalHeight height start ≤ totalHeight height visited →
          ∃ values', l.foldlM (fun values p => flow.propagate fuel values p out) start = some values' ∧
            totalHeight height values' ≤ totalHeight height start := by
        intro l
        induction l with
        | nil => exact fun start _ _ => ⟨start, rfl, Nat.le_refl _⟩
        | cons p l ih_loop =>
          intro start sub low
          have scaled := Nat.mul_le_mul_right (top + 1) low
          have := room p (sub p List.mem_cons_self)
          obtain ⟨mid, call, low_mid⟩ := ih start p out (by omega)
          obtain ⟨last, rest, low_last⟩ :=
            ih_loop mid (fun q mem => sub q (List.mem_cons_of_mem _ mem)) (low_mid.trans low)
          exact ⟨last, by rw [List.foldlM_cons, call]; exact rest, low_last.trans low_mid⟩
      obtain ⟨last, run, low⟩ := loop (flow.pred i) visited (fun p mem => mem) (Nat.le_refl _)
      exact ⟨last, run, by omega⟩

variable (height order) in
theorem propagateAll_terminates {fuel : Nat} (m : μ) (nodes : List ν) (values : ν → α)
    (enough : totalHeight height values * (top + 1) + top < fuel) :
    ∃ values', flow.propagateAll fuel m nodes values = some values' := by
  induction nodes generalizing values with
  | nil => exact ⟨values, rfl⟩
  | cons i nodes ih =>
    have := order_le i
    obtain ⟨mid, call, low⟩ :=
      flow.propagate_terminates order_le visit_le send_drop values i m
        (Nat.lt_of_le_of_lt (Nat.add_le_add_left this _) enough)
    have scaled := Nat.mul_le_mul_right (top + 1) low
    obtain ⟨last, rest⟩ := ih mid (by omega)
    exact ⟨last, by rw [propagateAll, List.foldlM_cons, call]; exact rest⟩

end Height

end Flow

end Propagation
