import Box64.Dynarec.PromoteDouble
import Box64.Lib.Marking

/-!
# The walks that promote

What each of the four walks takes from the floats, and what it leaves behind.
-/

namespace Box64.Dynarec.Promote

open Function (update)

/-! ### Walks that leave nothing behind -/

section Safety

variable (m : Nat) (start : Int) (T : Walker → Value → Prop) (d : Dyn)

/-- The slots of the floats that `T` tells are as the code takes them to be. -/
structure Recorded : Prop where
  numbers : ∀ w v, T w v → ∀ i j, ((d.cache m v.1).neoncache i).t = .ST_F → ((d.cache m v.1).neoncache j).t = .ST_F →
    (((d.cache m v.1).neoncache i).n.toNat : Int) = v.2 → (((d.cache m v.1).neoncache j).n.toNat : Int) = v.2 → i = j
  mirror : ∀ v, T .promote v → ∀ i, (d.n.neoncache i).t = .ST_F → ((d.n.neoncache i).n.toNat : Int) = v.2 →
    ((d.insts m).n.neoncache i).isST
  pushes : ∀ v, T .promote v → d.Float m v → (d.insts m).n.stack_push = d.n.stack_push

/-- At no float that `T` tells, a walk looks at the barrier of the wrong instruction or comes to the current instruction with
the wrong number. -/
structure Safe : Prop extends Recorded m T d where
  back : ∀ w u v, w = .promote ∨ w = .combined → T w v → Link m d u v → d.Float m u → d.Float m v →
    (d.insts v.1).n.barrier = false
  ahead : ∀ u v, T .combined u → Link m d u v → d.Float m u → d.Float m v → (d.insts v.1).n.barrier = false
  arrive : ∀ w u v, w = .combined ∨ w = .forward → T w u → Link m d u v → v.1 = m → d.Float m u → d.Float m v →
    v.2 = kept d u ∨ v = (m, start) ∨ Pair m d (m, start) v

/-- `T` tells the floats that a walk may go on to. -/
def Closed : Prop := ∀ w u w' v, T w u → d.Float m u → Walks m d w u w' v → T w' v

/-- The register that the walk started from, and the one paired with it, are doubles by now. -/
def Begun : Prop := ¬ d.Float m (m, start) ∧ ∀ v, Pair m d (m, start) v → ¬ d.Float m v

/-- The register is the one that the walk started from, or the one paired with it, or those are doubles by now. -/
def Early (a : Int) : Prop := Begun m start d ∨ a = start ∨ Pair m d (m, start) (m, a) ∧ ¬ d.Float m (m, start)

/-- What the walks need of the state they start in. -/
structure Ready : Prop where
  safe : Safe m start T d
  closed : Closed m T d
  begun : Begun m start d

/-- What is promoted from `d` to `d'` has been met, and all that must be like it is promoted too. -/
structure Settles (d d' : Dyn) : Prop where
  settled : Marking.Settled (Near m d) (d.Float m) (d'.Float m)
  met : ∀ k ≤ m, ∀ i, ((d.cache m k).neoncache i).t = .ST_F → ((d'.cache m k).neoncache i).t ≠ .ST_F →
    ∃ w, T w (k, ((d.cache m k).neoncache i).n.toNat)
  last : Promoted (d.insts m).n (d'.insts m).n

variable {m start T d} {d' : Dyn}

theorem Safe.progress (safe : Safe m start T d) (progress : Progress m d d') : Safe m start T d' := by
  have barrier : ∀ k, (d'.insts k).n.barrier = (d.insts k).n.barrier := fun k =>
    frame_field NeonCache.barrier (fun _ => rfl) (progress.frame k)
  have pop : ∀ k, (d'.insts k).n.stack_pop = (d.insts k).n.stack_pop := fun k =>
    frame_field NeonCache.stack_pop (fun _ => rfl) (progress.frame k)
  refine ⟨⟨?_, ?_, ?_⟩, ?_, ?_, ?_⟩
  · intro w v touched i j float float' number number'
    have promoted := progress.cache_promoted v.1
    rw [promoted.number] at number number'
    exact safe.numbers w v touched i j (promoted.float float) (promoted.float float') number number'
  · intro v touched i float number
    rw [progress.current.number] at number
    exact progress.isST (safe.mirror v touched i (progress.current.float float) number)
  · intro v touched float
    have push := frame_field NeonCache.stack_push (fun _ => rfl) (progress.frame m)
    have push' := frame_field NeonCache.stack_push (fun _ => rfl) progress.current.frame
    rw [push, push']
    exact safe.pushes v touched (progress.float float)
  · intro w u v which touched link float float'
    rw [barrier]
    exact safe.back w u v which touched (progress.link.mp link) (progress.float float) (progress.float float')
  · intro u v touched link float float'
    rw [barrier]
    exact safe.ahead u v touched (progress.link.mp link) (progress.float float) (progress.float float')
  · intro w u v which touched link last float float'
    rw [kept, pop, progress.pair]
    exact safe.arrive w u v which touched (progress.link.mp link) last (progress.float float) (progress.float float')

theorem Closed.progress (closed : Closed m T d) (progress : Progress m d d') : Closed m T d' :=
  fun w u w' v touched float walks => closed w u w' v touched (progress.float float) (progress.walks.mp walks)

theorem Begun.progress (begun : Begun m start d) (progress : Progress m d d') : Begun m start d' :=
  ⟨fun float => begun.1 (progress.float float),
    fun v pair float => begun.2 v (progress.pair.mp pair) (progress.float float)⟩

theorem Ready.progress (ready : Ready m start T d) (progress : Progress m d d') : Ready m start T d' :=
  ⟨ready.safe.progress progress, ready.closed.progress progress, ready.begun.progress progress⟩

theorem Settles.refl : Settles m T d d :=
  ⟨Marking.Settled.refl, fun _ _ _ float double => absurd float double, .refl _⟩

theorem Settles.trans {d'' : Dyn} (progress : Progress m d d') (progress' : Progress m d' d'') (first : Settles m T d d')
    (second : Settles m T d' d'') : Settles m T d d'' := by
  refine ⟨?_, ?_, first.last.trans second.last⟩
  · have settled := second.settled
    rw [progress.near] at settled
    exact first.settled.trans settled fun _ float => progress'.float float
  · intro k inside i float double
    by_cases still : ((d'.cache m k).neoncache i).t = .ST_F
    · have := second.met k inside i still double
      rwa [(progress.cache_promoted k).number] at this
    · exact first.met k inside i float still

/-- A walk has promoted `u`. -/
structure Visit (m : Nat) (start : Int) (T : Walker → Value → Prop) (w : Walker) (d d₁ : Dyn) (u : Value) : Prop where
  progress : Progress m d d₁
  fewer : d₁.floats m < d.floats m
  float : d.Float m u
  double : d₁.Cached m .ST_D u
  gone : Safe m start T d → T w u → ¬ d₁.Float m u
  only : ∀ v, d.Float m v → v ≠ u → d₁.Float m v
  slot : ∀ k ≤ m, ∀ i, ((d.cache m k).neoncache i).t = .ST_F → ((d₁.cache m k).neoncache i).t ≠ .ST_F →
    ((k, ((d.cache m k).neoncache i).n.toNat) : Value) = u
  last : Safe m start T d → T w u → Promoted (d.insts m).n (d₁.insts m).n

/-- What is taken from the floats by a write. -/
theorem taken (start : Int) (T : Walker → Value → Prop) (w : Walker) {k : Nat} {a : Int} {i : Fin 24}
    (here : d'.cache m k = (d.cache m k).promote i)
    (others : ∀ j ≠ k, d'.cache m j = d.cache m j) (found : (d.cache m k).getStF a = some i) :
    (Safe m start T d → T w (k, a) → ¬ d'.Float m (k, a)) ∧ (∀ v, d.Float m v → v ≠ (k, a) → d'.Float m v) ∧
      ∀ k' ≤ m, ∀ j, ((d.cache m k').neoncache j).t = .ST_F → ((d'.cache m k').neoncache j).t ≠ .ST_F →
        ((k', ((d.cache m k').neoncache j).n.toNat) : Value) = (k, a) := by
  obtain ⟨type, number⟩ := getStF_some found
  refine ⟨?_, ?_, ?_⟩
  · rintro safe touched ⟨-, j, type', number'⟩
    rw [here] at type' number'
    dsimp only at number'
    have other : j ≠ i := by
      rintro rfl
      rw [promote_self] at type'
      cases type'
    rw [promote_of_ne other] at type' number'
    exact other (safe.numbers w (k, a) touched j i type' type number' number)
  · rintro ⟨k', b⟩ ⟨inside, j, type', number'⟩ different
    dsimp only at inside type' number'
    refine ⟨inside, j, ?_⟩
    by_cases same : k' = k
    · subst same
      have other : j ≠ i := by
        rintro rfl
        exact different (Prod.ext rfl (number'.symm.trans number))
      rw [here, promote_of_ne other]
      exact ⟨type', number'⟩
    · rw [others k' same]
      exact ⟨type', number'⟩
  · intro k' _ j float double
    by_cases same : k' = k
    · subst same
      by_cases slot : j = i
      · rw [slot, number]
      · rw [here, promote_of_ne slot] at double
        exact absurd float double
    · rw [others k' same] at double
      exact absurd float double

theorem promoteInst_cache {k : Nat} (before : k < m) (i : Fin 24) :
    (d.promoteInst k i).cache m k = (d.cache m k).promote i ∧
      ∀ j ≠ k, (d.promoteInst k i).cache m j = d.cache m j := by
  constructor
  · rw [cache_of_lt before, cache_of_lt before, promoteInst_insts]
  · intro j other
    unfold Dyn.cache
    rw [promoteInst_other other]
    rfl

theorem promoteCurrent_cache (i : Fin 24) :
    (d.promoteCurrent m i).cache m m = (d.cache m m).promote i ∧
      ∀ j ≠ m, (d.promoteCurrent m i).cache m j = d.cache m j := by
  constructor
  · rw [cache_self, cache_self]
    rfl
  · intro j other
    unfold Dyn.cache
    rw [if_neg other, if_neg other, promoteCurrent_insts, promoteInst_other other]

theorem not_float_of_none {k : Nat} {a : Int} (missing : (d.cache m k).getStF a = none) : ¬ d.Float m (k, a) := by
  rintro ⟨-, i, type, number⟩
  exact getStF_none missing type number

theorem float_of_some {k : Nat} {a : Int} {i : Fin 24} (inside : k ≤ m) (found : (d.cache m k).getStF a = some i) :
    d.Float m (k, a) := by
  obtain ⟨type, number⟩ := getStF_some found
  exact ⟨inside, i, type, number⟩

theorem double_of_some {k : Nat} {a : Int} {i : Fin 24} (inside : k ≤ m) (here : d'.cache m k = (d.cache m k).promote i)
    (found : (d.cache m k).getStF a = some i) : d'.Cached m .ST_D (k, a) := by
  refine ⟨inside, i, ?_, ?_⟩
  · rw [here, promote_self]
  · rw [here, promote_self]
    exact (getStF_some found).2

theorem visit_inst {w : Walker} {k : Nat} {b : Int} {i : Fin 24} (before : k < m) (found : (d.insts k).n.getStF b = some i) :
    Visit m start T w d (d.promoteInst k i) (k, b) := by
  have type := (getStF_some found).1
  have found' : (d.cache m k).getStF b = some i := by rwa [cache_of_lt before]
  obtain ⟨here, others⟩ := promoteInst_cache (d := d) before i
  obtain ⟨gone, only, slot⟩ := taken start T w here others found'
  refine ⟨.promoteInst before.ne type, floats_promoteInst before type, float_of_some before.le found',
    double_of_some before.le here found', gone, only, slot, ?_⟩
  intro _ _
  rw [promoteInst_other before.ne']
  exact .refl _

theorem visit_current {b : Int} {i : Fin 24} (found : d.n.getStF b = some i) :
    Visit m start T .promote d (d.promoteCurrent m i) (m, b) := by
  obtain ⟨type, number⟩ := getStF_some found
  have found' : (d.cache m m).getStF b = some i := by rwa [cache_self]
  obtain ⟨here, others⟩ := promoteCurrent_cache (m := m) (d := d) i
  obtain ⟨gone, only, slot⟩ := taken start T .promote here others found'
  refine ⟨.promoteCurrent type, floats_promoteCurrent type, float_of_some le_rfl found', double_of_some le_rfl here found',
    gone, only, slot, ?_⟩
  intro safe touched
  rw [promoteCurrent_insts, promoteInst_insts]
  exact .promote (safe.mirror _ touched i type number).symm

/-- One value has become a double, and then all that it must be like. -/
theorem Visit.assemble {w : Walker} {d₁ d₂ : Dyn} {u : Value} (visit : Visit m start T w d d₁ u) (safe : Safe m start T d)
    (touched : T w u) (second : Progress m d₁ d₂) (third : Progress m d₂ d') (settles : Settles m T d₁ d₂)
    (settles' : Settles m T d₂ d') (ahead : ∀ v, Link m d u v → ¬ d'.Float m v) (behind : ∀ v, Link m d v u → ¬ d'.Float m v)
    (pairs : ∀ v, Pair m d u v → ¬ d'.Float m v) : Settles m T d d' ∧ ¬ d'.Float m u := by
  obtain ⟨settled, met, last⟩ := Settles.trans second third settles settles'
  refine ⟨⟨?_, ?_, (visit.last safe touched).trans last⟩, fun after => visit.gone safe touched ((second.trans third).float after)⟩
  · rw [visit.progress.near] at settled
    refine Marking.Settled.take visit.only ?_ settled
    rintro v (link | link | pair)
    · exact ahead v link
    · exact behind v link
    · exact pairs v pair
  · intro k inside i float double
    by_cases still : ((d₁.cache m k).neoncache i).t = .ST_F
    · have := met k inside i still double
      rwa [(visit.progress.cache_promoted k).number] at this
    · rw [visit.slot k inside i float still]
      exact ⟨w, touched⟩

end Safety

/-! ### The walks -/

section Walking

variable (m : Nat) (start : Int) (T : Walker → Value → Prop)

/-- What each walk does with enough steps: it ends, within the array, and takes its value and all that must be like it from the
floats. -/
structure Specs (fuel : Nat) : Prop where
  combined : ∀ d (k : Nat) a, m < d.size → k < m → 2 * d.floats m + 1 ≤ fuel →
    ∃ d', promoteDoubleCombined fuel d k m a = some d' ∧ Progress m d d' ∧
      (Ready m start T d → (d.insts k).n.Combines → (d.insts k).n.swapped = false → ¬ d.Float m (k, a) →
        (∀ w, Pair m d (k, a) w → T .combined w) →
        Settles m T d d' ∧ ∀ w, Pair m d (k, a) w → ¬ d'.Float m w)
  internal : ∀ d (k : Nat) a, m < d.size → k ≤ m → 2 * d.floats m + 2 ≤ fuel →
    ∃ d', promoteDoubleInternal fuel d (k - 1) m a = some d' ∧ Progress m d d' ∧
      (Ready m start T d →
        ((d.insts k).n.barrier = false → ∀ j, j + 1 = k → T .internal (j, a + (d.insts j).n.stack_pop)) →
        (∀ j, j + 1 = k → ∀ v, Link m d (j, a + (d.insts j).n.stack_pop) v → ¬ d.Float m v) →
        Settles m T d d' ∧
          ((d.insts k).n.barrier = false → ∀ j, j + 1 = k → ¬ d'.Float m (j, a + (d.insts j).n.stack_pop)))
  loop : ∀ d (k : Nat) a, m < d.size → k < m → 2 * d.floats m + 1 ≤ fuel →
    ∃ d', internalLoop fuel d k m a = some d' ∧ Progress m d d' ∧
      (Ready m start T d → T .internal (k, a + (d.insts k).n.stack_pop) →
        (∀ v, Link m d (k, a + (d.insts k).n.stack_pop) v → ¬ d.Float m v) →
        Settles m T d d' ∧ ¬ d'.Float m (k, a + (d.insts k).n.stack_pop))
  forward : ∀ d (k : Nat) a, m < d.size → k ≤ m → 2 * d.floats m + 2 ≤ fuel →
    ∃ d', promoteDoubleForward fuel d k m a = some d' ∧ Progress m d d' ∧
      (Ready m start T d →
        (0 ≤ a → k < m → T .forward (k, exchange (d.cache m k) (a + (d.cache m k).stack_push)) ∧
          ∀ v, Link m d v (k, exchange (d.cache m k) (a + (d.cache m k).stack_push)) → ¬ d.Float m v) →
        (0 ≤ a → k = m → T .promote (m, a)) →
        Settles m T d d' ∧
          (0 ≤ a → (k < m → ¬ d'.Float m (k, exchange (d.cache m k) (a + (d.cache m k).stack_push))) ∧
            (k = m → ¬ d'.Float m (m, a))))
  promote : ∀ d a, m < d.size → 2 * d.floats m + 1 ≤ fuel →
    ∃ d', promoteDouble fuel d m a = some d' ∧ Progress m d d' ∧
      (d.Float m (m, a) → d'.Cached m .ST_D (m, a) ∧ ∀ v, Pair m d (m, a) v → d.Float m v → d'.Cached m .ST_D v) ∧
      (Safe m start T d → Closed m T d → Early m start d a →
        (d.Float m (m, a) → T .promote (m, a)) → Settles m T d d' ∧ ¬ d'.Float m (m, a))

variable {m start T} {d d₂ : Dyn} {k j : Nat} {a b : Int}

theorem inst_of_lt (inside : k < d.size) : d.inst k = some (d.insts k) :=
  if_pos ⟨Int.natCast_nonneg k, Int.ofNat_lt.mpr inside⟩

/-- The values that a walk backwards from `u` and one forwards to it meet are linked to none but `u`. -/
theorem link_of_back {u v w : Value} (back : Back m d u v) (link : Link m d v w) : w = u := by
  obtain ⟨before, from_u⟩ := back
  obtain ⟨same, _, _, _, _, number⟩ := link
  have at_u : w.1 = u.1 := by omega
  rw [at_u, from_u, left, Int.add_sub_cancel, Int.sub_add_cancel, exchange_exchange] at number
  exact Prod.ext at_u number

theorem link_of_forward {u v : Value} (next : u.1 + 1 = k)
    (link : Link m d v (k, exchange (d.cache m k) (kept d u + (d.cache m k).stack_push))) : v = u := by
  obtain ⟨number, _⟩ := link.back
  have at_u : v.1 = u.1 := by
    have := link.1
    dsimp only at this
    omega
  dsimp only [left] at number
  rw [exchange_exchange, at_u] at number
  rw [number]
  refine Prod.ext rfl ?_
  dsimp only [kept]
  omega

theorem Specs.internal_succ {fuel : Nat} (specs : Specs m start T fuel) (d : Dyn) (k : Nat) (a : Int) (inside : m < d.size)
    (upto : k ≤ m) (enough : 2 * d.floats m + 2 ≤ fuel + 1) :
    ∃ d', promoteDoubleInternal (fuel + 1) d (k - 1) m a = some d' ∧ Progress m d d' ∧
      (Ready m start T d →
        ((d.insts k).n.barrier = false → ∀ j, j + 1 = k → T .internal (j, a + (d.insts j).n.stack_pop)) →
        (∀ j, j + 1 = k → ∀ v, Link m d (j, a + (d.insts j).n.stack_pop) v → ¬ d.Float m v) →
        Settles m T d d' ∧
          ((d.insts k).n.barrier = false → ∀ j, j + 1 = k → ¬ d'.Float m (j, a + (d.insts j).n.stack_pop))) := by
  rw [promoteDoubleInternal, Int.sub_add_cancel, inst_of_lt (upto.trans_lt inside), Option.bind_some]
  split_ifs with barrier
  · refine ⟨d, rfl, .refl, fun _ _ _ => ⟨.refl, fun no => ?_⟩⟩
    rw [barrier] at no
    cases no
  · cases k with
    | zero =>
      obtain ⟨fuel, rfl⟩ := Nat.exists_eq_add_one.mpr (show 0 < fuel by omega)
      refine ⟨d, ?_, .refl, fun _ _ _ => ⟨.refl, fun _ j none => by omega⟩⟩
      rw [internalLoop, if_pos (by decide)]
    | succ k =>
      obtain ⟨d', run, progress, settles⟩ := specs.loop d k a inside upto (by omega)
      refine ⟨d', ?_, progress, ?_⟩
      · rw [Int.natCast_succ, Int.add_sub_cancel]
        exact run
      · intro ready touched done
        obtain ⟨settled, taken⟩ := settles ready (touched (Bool.eq_false_of_not_eq_true barrier) k rfl) (done k rfl)
        refine ⟨settled, fun _ j same => ?_⟩
        obtain rfl : j = k := by omega
        exact taken

/-- Back from a value that has been promoted, by the test of the barrier behind it. -/
theorem Specs.go_back {fuel : Nat} (specs : Specs m start T fuel) (inside : m < d.size) (upto : k ≤ m)
    (progress : Progress m d d₂) (enough : 2 * d₂.floats m + 2 ≤ fuel) :
    ∃ d', promoteDoubleInternal fuel d₂ (k - 1) m (left m d (k, b)) = some d' ∧ Progress m d₂ d' ∧
      (Ready m start T d₂ → ((d.insts k).n.barrier = false → ∀ v, Back m d (k, b) v → T .internal v) →
        ¬ d₂.Float m (k, b) →
        Settles m T d₂ d' ∧ ((d.insts k).n.barrier = false → ∀ v, Link m d v (k, b) → ¬ d'.Float m v)) := by
  have inside₂ : m < d₂.size := by
    rw [progress.size]
    exact inside
  obtain ⟨d', run, second, settles⟩ := specs.internal d₂ k (left m d (k, b)) inside₂ upto enough
  refine ⟨d', run, second, ?_⟩
  intro ready touched gone
  have pop : ∀ j, (d₂.insts j).n.stack_pop = (d.insts j).n.stack_pop := fun j =>
    frame_field NeonCache.stack_pop (fun _ => rfl) (progress.frame j)
  have barrier : (d₂.insts k).n.barrier = (d.insts k).n.barrier :=
    frame_field NeonCache.barrier (fun _ => rfl) (progress.frame k)
  simp only [pop, barrier] at settles
  obtain ⟨settled, taken⟩ := settles ready (fun opened j before => touched opened _ ⟨before, rfl⟩) (by
    intro j before v link
    rw [progress.link] at link
    rw [link_of_back ⟨before, rfl⟩ link]
    exact gone)
  refine ⟨settled, ?_⟩
  intro opened v link
  rw [link.back.1]
  exact taken opened v.1 link.1

/-- Forward from a value that has been promoted. -/
theorem Specs.go_forward {fuel : Nat} (specs : Specs m start T fuel) {w : Walker} (which : w = .combined ∨ w = .forward)
    (inside : m < d.size) (before : k < m) (progress : Progress m d d₂) (enough : 2 * d₂.floats m + 2 ≤ fuel) :
    ∃ d', promoteDoubleForward fuel d₂ (k + 1) m (kept d (k, b)) = some d' ∧ Progress m d₂ d' ∧
      (Safe m start T d → Ready m start T d₂ → T w (k, b) → d.Float m (k, b) → ¬ d₂.Float m (k, b) →
        (∀ v, Forth m d (k, b) v → T .forward v) → (∀ v, Arrives m d (k, b) v → T .promote v) →
        Settles m T d₂ d' ∧ ∀ v, Link m d (k, b) v → ¬ d'.Float m v) := by
  have inside₂ : m < d₂.size := by
    rw [progress.size]
    exact inside
  obtain ⟨d', run, second, settles⟩ := specs.forward d₂ (k + 1) (kept d (k, b)) inside₂ before enough
  refine ⟨d', run, second, ?_⟩
  intro safe ready touched float gone forth arrives
  have push : (d₂.cache m (k + 1)).stack_push = (d.cache m (k + 1)).stack_push :=
    frame_field NeonCache.stack_push (fun _ => rfl) (progress.cache (k + 1))
  rw [push, exchange_congr (progress.cache (k + 1))] at settles
  obtain ⟨settled, taken⟩ := settles ready
    (fun nonneg earlier => ⟨forth _ ⟨rfl, earlier, nonneg, rfl⟩, fun v link => by
      rw [progress.link] at link
      rw [link_of_forward (show ((k, b) : Value).1 + 1 = k + 1 from rfl) link]
      exact gone⟩)
    (fun nonneg last => arrives _ ⟨last, nonneg, rfl⟩)
  refine ⟨settled, ?_⟩
  intro v link after
  have there : d.Float m v := progress.float (second.float after)
  have nonneg : 0 ≤ kept d (k, b) := link.2.2.2.2.1
  have number := link.2.2.2.2.2
  have next : v.1 = k + 1 := link.1.symm
  rw [next] at number
  rcases Nat.lt_or_eq_of_le before with earlier | last
  · refine (taken nonneg).1 earlier ?_
    have same : v = (k + 1, exchange (d.cache m (k + 1)) (kept d (k, b) + (d.cache m (k + 1)).stack_push)) :=
      Prod.ext next number
    rw [← same]
    exact after
  · rcases safe.arrive w (k, b) v which touched link (next.trans last) float there with same | same | pair
    · refine (taken nonneg).2 last ?_
      have same : v = (m, kept d (k, b)) := Prod.ext (next.trans last) same
      rw [← same]
      exact after
    · rw [same] at after
      exact ready.begun.1 (second.float after)
    · exact ready.begun.2 v (progress.pair.mpr pair) (second.float after)

/-- The other register of a pair, in the code's words. -/
theorem Pair.other {w : Value} (before : k < m) (pair : Pair m d (k, a) w) :
    (a = (d.insts k).n.combined1 ∨ a = (d.insts k).n.combined2) ∧
      w = (k, if a = (d.insts k).n.combined1 then ((d.insts k).n.combined2 : Int) else (d.insts k).n.combined1) := by
  obtain ⟨same, _, _, _, which⟩ := pair
  dsimp only at same which
  rw [cache_of_lt before] at which
  refine ⟨which.imp And.left And.left, Prod.ext same.symm ?_⟩
  split_ifs with first
  · omega
  · omega

/-- The part of `promoteDoubleCombined` that goes back from the other register, which has been promoted. -/
theorem Specs.combined_back {fuel : Nat} (specs : Specs m start T fuel) {d₁ : Dyn} (inside : m < d.size) (before : k < m)
    (visit : Visit m start T .combined d d₁ (k, b)) (enough : 2 * d₁.floats m + 2 ≤ fuel) :
    ∃ d₂, (if (d.insts k).n.barrier then some d₁
        else promoteDoubleInternal fuel d₁ (k - 1) m (b - (d.insts k).n.stack_push)) = some d₂ ∧ Progress m d₁ d₂ ∧
      (Ready m start T d → (d.insts k).n.swapped = false → T .combined (k, b) → Settles m T d₁ d₂ ∧
        ((d.insts k).n.barrier = false → ∀ v, Link m d v (k, b) → ¬ d₂.Float m v)) := by
  have inside₁ : m < d₁.size := by
    rw [visit.progress.size]
    exact inside
  by_cases barrier : (d.insts k).n.barrier
  · refine ⟨d₁, by rw [if_pos barrier], .refl, fun _ _ _ => ⟨.refl, fun opened => ?_⟩⟩
    rw [barrier] at opened
    cases opened
  by_cases swapped : (d.insts k).n.swapped
  · obtain ⟨d₂, run, progress, -⟩ := specs.internal d₁ k (b - (d.insts k).n.stack_push) inside₁ before.le enough
    refine ⟨d₂, by rw [if_neg barrier, run], progress, fun _ unswapped => ?_⟩
    exact absurd (swapped.symm.trans unswapped) (by decide)
  obtain ⟨d₂, run, progress, settles⟩ := specs.go_back inside before.le visit.progress enough
  rw [left, cache_of_lt before, exchange, if_neg fun both => swapped both.2] at run
  refine ⟨d₂, by rw [if_neg barrier, run], progress, fun ready _ touched => ?_⟩
  refine settles (ready.progress visit.progress) (fun opened v back => ?_) (visit.gone ready.safe touched)
  exact ready.closed .combined _ .internal v touched visit.float ⟨back, opened⟩

/-- The part of `promoteDoubleCombined` that goes forward from it. -/
theorem Specs.combined_forth {fuel : Nat} (specs : Specs m start T fuel) {d₁ : Dyn} (inside : m < d.size) (before : k < m)
    (visit : Visit m start T .combined d d₁ (k, b)) (second : Progress m d₁ d₂) (enough : 2 * d₂.floats m + 2 ≤ fuel) :
    ∃ d', (if b - (d.insts k).n.stack_pop ≥ 0 then
        (d₂.inst (k + 1)).bind fun next =>
          if next.n.barrier then some d₂ else promoteDoubleForward fuel d₂ (k + 1) m (b - (d.insts k).n.stack_pop)
      else some d₂) = some d' ∧ Progress m d₂ d' ∧
      (Ready m start T d → T .combined (k, b) → Settles m T d₂ d' ∧ ((d.insts (k + 1)).n.barrier = false →
        ∀ v, Link m d (k, b) v → ¬ d'.Float m v)) := by
  have both := visit.progress.trans second
  have inside₂ : m < d₂.size := by
    rw [both.size]
    exact inside
  have barrier : (d₂.insts (k + 1)).n.barrier = (d.insts (k + 1)).n.barrier :=
    frame_field NeonCache.barrier (fun _ => rfl) (both.frame (k + 1))
  by_cases nonneg : b - (d.insts k).n.stack_pop ≥ 0
  swap
  · refine ⟨d₂, by rw [if_neg nonneg], .refl, fun _ _ => ⟨.refl, fun _ v link => ?_⟩⟩
    exact absurd link.2.2.2.2.1 nonneg
  have at_next : d₂.inst ((k : Int) + 1) = some (d₂.insts (k + 1)) := inst_of_lt (show k + 1 < d₂.size by omega)
  rw [if_pos nonneg, at_next, Option.bind_some, barrier]
  split_ifs with blocked
  · exact ⟨d₂, rfl, .refl, fun _ _ => ⟨.refl, fun opened => absurd (blocked.symm.trans opened) (by decide)⟩⟩
  have opened := Bool.eq_false_of_not_eq_true blocked
  obtain ⟨d', run, third, settles⟩ := specs.go_forward (.inl rfl) inside before both enough
  refine ⟨d', run, third, fun ready touched => ?_⟩
  obtain ⟨settled, ahead⟩ := settles ready.safe ((ready.progress visit.progress).progress second) touched visit.float
    (fun after => visit.gone ready.safe touched (second.float after))
    (fun v forth => ready.closed .combined _ .forward v touched visit.float ⟨forth, by rw [← forth.1]; exact opened⟩)
    (fun v arrives => ready.closed .combined _ .promote v touched visit.float ⟨arrives, by rw [← arrives.1]; exact opened⟩)
  exact ⟨settled, fun _ => ahead⟩

theorem Specs.combined_succ {fuel : Nat} (specs : Specs m start T fuel) (d : Dyn) (k : Nat) (a : Int) (inside : m < d.size)
    (before : k < m) (enough : 2 * d.floats m + 1 ≤ fuel + 1) :
    ∃ d', promoteDoubleCombined (fuel + 1) d k m a = some d' ∧ Progress m d d' ∧
      (Ready m start T d → (d.insts k).n.Combines → (d.insts k).n.swapped = false → ¬ d.Float m (k, a) →
        (∀ w, Pair m d (k, a) w → T .combined w) →
        Settles m T d d' ∧ ∀ w, Pair m d (k, a) w → ¬ d'.Float m w) := by
  rw [promoteDoubleCombined, inst_of_lt (before.trans inside), Option.bind_some]
  by_cases which : a = (d.insts k).n.combined1 ∨ a = (d.insts k).n.combined2
  swap
  · rw [if_neg which]
    exact ⟨d, rfl, .refl, fun _ _ _ _ _ => ⟨.refl, fun w pair => absurd (pair.other before).1 which⟩⟩
  rw [if_pos which]
  have other : ∀ w, Pair m d (k, a) w → w = _ := fun w pair => (pair.other before).2
  have paired : (d.insts k).n.Combines → (d.insts k).n.swapped = false → Pair m d (k, a)
      (k, if a = (d.insts k).n.combined1 then ((d.insts k).n.combined2 : Int) else (d.insts k).n.combined1) := by
    intro combines swapped
    refine ⟨rfl, before.le, ?_, ?_, ?_⟩
    all_goals rw [cache_of_lt before]
    · exact combines
    · exact swapped
    · split_ifs with first
      · exact .inl ⟨first, rfl⟩
      · exact .inr ⟨which.resolve_left first, rfl⟩
  dsimp only
  generalize (if a = (d.insts k).n.combined1 then ((d.insts k).n.combined2 : Int) else (d.insts k).n.combined1) = b
    at other paired ⊢
  rcases found : (d.insts k).n.getStF b with _ | i
  · refine ⟨d, rfl, .refl, fun _ _ _ _ _ => ⟨.refl, fun w pair => ?_⟩⟩
    rw [other w pair]
    exact not_float_of_none (by rwa [cache_of_lt before])
  dsimp only
  have visit : Visit m start T .combined d (d.promoteInst k i) (k, b) := visit_inst before found
  have fewer := visit.fewer
  obtain ⟨d₂, run, second, behind⟩ := specs.combined_back inside before visit (by omega)
  have fewer₂ := second.floats_le
  obtain ⟨d', run', third, ahead⟩ := specs.combined_forth inside before visit second (by omega)
  have rest := visit.progress.trans (second.trans third)
  rw [run, Option.bind_some]
  refine ⟨d', run', rest, ?_⟩
  intro ready combines swapped done prepared
  have partner := paired combines swapped
  have touched := prepared _ partner
  obtain ⟨settled, behind⟩ := behind ready swapped touched
  obtain ⟨settled', ahead⟩ := ahead ready touched
  obtain ⟨settles, gone⟩ := visit.assemble ready.safe touched second third settled settled' (by
      intro v link after
      have opened := ready.safe.ahead _ v touched link visit.float (rest.float after)
      rw [← link.1] at opened
      exact ahead opened v link after) (by
      intro v link after
      have opened := ready.safe.back .combined v _ (.inr rfl) touched link (rest.float after) visit.float
      exact behind opened v link (third.float after)) (by
      intro v pair after
      rw [pair.unique partner.symm] at after
      exact done (rest.float after))
  refine ⟨settles, fun w pair => ?_⟩
  rw [other w pair]
  exact gone

/-- A register has been promoted that an instruction combines without a swap, and then the other one. -/
theorem Specs.pair {fuel : Nat} (specs : Specs m start T fuel) {w : Walker} {i : Fin 24} (inside : m < d.size)
    (before : k < m) (visit : Visit m start T w d (d.promoteInst k i) (k, b)) (enough : 2 * d.floats m + 1 ≤ fuel + 1) :
    ∃ d', promoteDoubleCombined fuel (d.promoteInst k i) k m b = some d' ∧ Progress m (d.promoteInst k i) d' ∧
      (Ready m start T d → T w (k, b) → (∀ v, Pair m d (k, b) v → T .combined v) → (d.insts k).n.Combines →
        (d.insts k).n.swapped = false →
        Settles m T (d.promoteInst k i) d' ∧ ∀ v, Pair m d (k, b) v → ¬ d'.Float m v) := by
  have first := visit.progress
  have fewer := visit.fewer
  obtain ⟨d', run, progress, settles⟩ := specs.combined (d.promoteInst k i) k b inside before (by omega)
  refine ⟨d', run, progress, ?_⟩
  intro ready touched pairs combines swapped
  rw [promoteInst_insts] at settles
  obtain ⟨settled, taken⟩ := settles (ready.progress first) combines swapped (visit.gone ready.safe touched)
    fun v pair => pairs v (first.pair.mp pair)
  exact ⟨settled, fun v pair => taken v (first.pair.mpr pair)⟩

/-- What `internalLoop` makes of the other register of a pair. -/
theorem Specs.loop_combined {fuel : Nat} (specs : Specs m start T fuel) {i : Fin 24} (inside : m < d.size) (before : k < m)
    (visit : Visit m start T .internal d (d.promoteInst k i) (k, b)) (enough : 2 * d.floats m + 1 ≤ fuel + 1) :
    ∃ d₂, (if (d.insts k).n.Combines then
        if (d.insts k).n.swapped then some (d.promoteInst k i, (d.insts k).n.other b)
        else (promoteDoubleCombined fuel (d.promoteInst k i) k m b).map fun d => (d, b)
      else some (d.promoteInst k i, b)) = some (d₂, exchange (d.insts k).n b) ∧ Progress m (d.promoteInst k i) d₂ ∧
      (Ready m start T d → T .internal (k, b) →
        Settles m T (d.promoteInst k i) d₂ ∧ ∀ v, Pair m d (k, b) v → ¬ d₂.Float m v) := by
  by_cases combines : (d.insts k).n.Combines
  swap
  · refine ⟨d.promoteInst k i, ?_, .refl, fun _ _ => ⟨.refl, ?_⟩⟩
    · rw [if_neg combines, exchange, if_neg fun both => combines both.1]
    · rintro v ⟨_, _, combines', _⟩
      rw [cache_of_lt before] at combines'
      exact absurd combines' combines
  rw [if_pos combines]
  by_cases swapped : (d.insts k).n.swapped
  · refine ⟨d.promoteInst k i, ?_, .refl, fun _ _ => ⟨.refl, ?_⟩⟩
    · rw [if_pos swapped, exchange, if_pos ⟨combines, swapped⟩]
    · rintro v ⟨_, _, _, unswapped, _⟩
      rw [cache_of_lt before, swapped] at unswapped
      cases unswapped
  obtain ⟨d₂, run, progress, settles⟩ := specs.pair inside before visit enough
  refine ⟨d₂, ?_, progress, fun ready touched => ?_⟩
  · rw [if_neg swapped, run, exchange, if_neg fun both => swapped both.2]
    rfl
  · exact settles ready touched (fun v pair => ready.closed .internal _ .combined v touched visit.float pair) combines
      (Bool.eq_false_of_not_eq_true swapped)

/-- The rest of the loop, from the instruction before. -/
theorem Specs.loop_rest {fuel : Nat} (specs : Specs m start T fuel) {d₁ : Dyn} (inside : m < d.size) (before : k < m)
    (visit : Visit m start T .internal d d₁ (k, b)) (second : Progress m d₁ d₂) (enough : 2 * d₂.floats m + 1 ≤ fuel) :
    ∃ d', (if (k : Int) - 1 < 0 ∨ exchange (d.insts k).n b - (d.insts k).n.stack_push < 0 then some d₂
        else (d₂.inst (k - 1)).bind fun previous =>
          if previous.n.barrier then some d₂
          else internalLoop fuel d₂ (k - 1) m (exchange (d.insts k).n b - (d.insts k).n.stack_push)) = some d' ∧
      Progress m d₂ d' ∧
      (Ready m start T d → T .internal (k, b) → Settles m T d₂ d' ∧ ∀ v, Link m d v (k, b) → ¬ d'.Float m v) := by
  have both := visit.progress.trans second
  have number : exchange (d.insts k).n b - (d.insts k).n.stack_push = left m d (k, b) := by rw [left, cache_of_lt before]
  rw [number]
  -- what keeps the walk from going on, and what it is then that no value is linked to this one
  have stop : (∀ v, ¬ Link m d v (k, b)) → Progress m d₂ d₂ ∧ (Ready m start T d → T .internal (k, b) →
      Settles m T d₂ d₂ ∧ ∀ v, Link m d v (k, b) → ¬ d₂.Float m v) :=
    fun none => ⟨.refl, fun _ _ => ⟨.refl, fun v link => absurd link (none v)⟩⟩
  by_cases ends : (k : Int) - 1 < 0 ∨ left m d (k, b) < 0
  · rw [if_pos ends]
    refine ⟨d₂, rfl, stop ?_⟩
    intro v link
    have nonneg := link.back.2
    have := link.1
    dsimp only at this
    omega
  rw [if_neg ends]
  rw [not_or, not_lt, not_lt] at ends
  obtain ⟨j, rfl⟩ : ∃ j, k = j + 1 := Nat.exists_eq_add_one.mpr (by omega)
  have next : ((j + 1 : Nat) : Int) - 1 = j := by omega
  have before_j : j < m := by omega
  have inside₂ : m < d₂.size := by
    rw [both.size]
    exact inside
  have barrier : (d₂.insts j).n.barrier = (d.insts j).n.barrier :=
    frame_field NeonCache.barrier (fun _ => rfl) (both.frame j)
  rw [next, inst_of_lt (before_j.trans inside₂), Option.bind_some, barrier]
  split_ifs with blocked
  · refine ⟨d₂, rfl, stop ?_⟩
    intro v link
    have at_j : v.1 = j := Nat.succ.inj link.1
    have opened := link.2.2.2.1
    rw [at_j, blocked] at opened
    cases opened
  obtain ⟨d', run, third, settles⟩ := specs.loop d₂ j (left m d (j + 1, b)) inside₂ before_j enough
  have pop : (d₂.insts j).n.stack_pop = (d.insts j).n.stack_pop :=
    frame_field NeonCache.stack_pop (fun _ => rfl) (both.frame j)
  rw [pop] at settles
  refine ⟨d', run, third, fun ready touched => ?_⟩
  have back : Back m d (j + 1, b) (j, left m d (j + 1, b) + (d.insts j).n.stack_pop) := ⟨rfl, rfl⟩
  obtain ⟨settled, taken⟩ := settles (ready.progress both)
    (ready.closed .internal _ .internal _ touched visit.float ⟨back, ends.2, Bool.eq_false_of_not_eq_true blocked⟩) (by
      intro v link
      rw [both.link] at link
      rw [link_of_back back link]
      exact fun after => visit.gone ready.safe touched (second.float after))
  refine ⟨settled, ?_⟩
  intro v link
  have at_j : v.1 = j := Nat.succ.inj link.1
  rw [link.back.1, at_j]
  exact taken

theorem Specs.loop_succ {fuel : Nat} (specs : Specs m start T fuel) (d : Dyn) (k : Nat) (a : Int) (inside : m < d.size)
    (before : k < m) (enough : 2 * d.floats m + 1 ≤ fuel + 1) :
    ∃ d', internalLoop (fuel + 1) d k m a = some d' ∧ Progress m d d' ∧
      (Ready m start T d → T .internal (k, a + (d.insts k).n.stack_pop) →
        (∀ v, Link m d (k, a + (d.insts k).n.stack_pop) v → ¬ d.Float m v) →
        Settles m T d d' ∧ ¬ d'.Float m (k, a + (d.insts k).n.stack_pop)) := by
  rw [internalLoop, if_neg (by omega), inst_of_lt (before.trans inside), Option.bind_some]
  dsimp only
  generalize a + (d.insts k).n.stack_pop = b
  rcases found : (d.insts k).n.getStF b with _ | i
  · refine ⟨d, rfl, .refl, fun _ _ _ => ⟨.refl, ?_⟩⟩
    exact not_float_of_none (by rwa [cache_of_lt before])
  dsimp only
  have visit : Visit m start T .internal d (d.promoteInst k i) (k, b) := visit_inst before found
  have fewer := visit.fewer
  obtain ⟨d₂, run, second, paired⟩ := specs.loop_combined inside before visit enough
  have fewer₂ := second.floats_le
  obtain ⟨d', run', third, behind⟩ := specs.loop_rest inside before visit second (by omega)
  have rest := visit.progress.trans (second.trans third)
  rw [run, Option.bind_some]
  refine ⟨d', run', rest, ?_⟩
  intro ready touched done
  obtain ⟨settled, pairs⟩ := paired ready touched
  obtain ⟨settled', behind⟩ := behind ready touched
  exact visit.assemble ready.safe touched second third settled settled' (fun v link after => done v link (rest.float after))
    behind fun v pair after => pairs v pair (third.float after)

/-- What `promoteDoubleForward` makes of the other register of a pair. -/
theorem Specs.forward_combined {fuel : Nat} (specs : Specs m start T fuel) {i : Fin 24} (inside : m < d.size) (before : k < m)
    (visit : Visit m start T .forward d (d.promoteInst k i) (k, b)) (enough : 2 * d.floats m + 1 ≤ fuel + 1) :
    ∃ d₂, (if (d.insts k).n.Combines ∧ ¬ (d.insts k).n.swapped then
        promoteDoubleCombined fuel (d.promoteInst k i) k m b
      else some (d.promoteInst k i)) = some d₂ ∧ Progress m (d.promoteInst k i) d₂ ∧
      (Ready m start T d → T .forward (k, b) →
        Settles m T (d.promoteInst k i) d₂ ∧ ∀ v, Pair m d (k, b) v → ¬ d₂.Float m v) := by
  by_cases combines : (d.insts k).n.Combines ∧ ¬ (d.insts k).n.swapped
  · obtain ⟨d₂, run, progress, settles⟩ := specs.pair inside before visit enough
    refine ⟨d₂, by rw [if_pos combines, run], progress, fun ready touched => ?_⟩
    exact settles ready touched (fun v pair => ready.closed .forward _ .combined v touched visit.float pair) combines.1
      (Bool.eq_false_of_not_eq_true combines.2)
  · refine ⟨d.promoteInst k i, by rw [if_neg combines], .refl, fun _ _ => ⟨.refl, ?_⟩⟩
    rintro v ⟨_, _, combines', swapped, _⟩
    rw [cache_of_lt before] at combines' swapped
    exact absurd ⟨combines', by rw [swapped]; decide⟩ combines

/-- The rest of the loop, from the instruction behind. -/
theorem Specs.forward_rest {fuel : Nat} (specs : Specs m start T fuel) {d₁ : Dyn} (inside : m < d.size) (before : k < m)
    (visit : Visit m start T .forward d d₁ (k, b)) (second : Progress m d₁ d₂) (enough : 2 * d₂.floats m + 2 ≤ fuel) :
    ∃ d', promoteDoubleForward fuel d₂ (if (d.insts k).has_next ∧ ¬ (d.insts k).n.barrier then (k : Int) + 1 else -1) m
        (b - (d.insts k).n.stack_pop) = some d' ∧ Progress m d₂ d' ∧
      (Ready m start T d → T .forward (k, b) → Settles m T d₂ d' ∧ ∀ v, Link m d (k, b) v → ¬ d'.Float m v) := by
  have both := visit.progress.trans second
  by_cases goes : (d.insts k).has_next ∧ ¬ (d.insts k).n.barrier
  · obtain ⟨d', run, third, settles⟩ := specs.go_forward (.inr rfl) inside before both enough
    refine ⟨d', by rw [if_pos goes]; exact run, third, fun ready touched => ?_⟩
    have opened := Bool.eq_false_of_not_eq_true goes.2
    exact settles ready.safe (ready.progress both) touched visit.float
      (fun after => visit.gone ready.safe touched (second.float after))
      (fun v forth => ready.closed .forward _ .forward v touched visit.float ⟨forth, goes.1, opened⟩)
      (fun v arrives => ready.closed .forward _ .promote v touched visit.float ⟨arrives, goes.1, opened⟩)
  · obtain ⟨fuel, rfl⟩ := Nat.exists_eq_add_one.mpr (show 0 < fuel by omega)
    refine ⟨d₂, ?_, .refl, fun _ _ => ⟨.refl, ?_⟩⟩
    · rw [if_neg goes, promoteDoubleForward, if_neg (by omega), if_neg (by omega)]
    · rintro v ⟨_, _, has_next, opened, _⟩
      exact absurd ⟨has_next, by rw [opened]; decide⟩ goes

theorem Specs.forward_succ {fuel : Nat} (specs : Specs m start T fuel) (d : Dyn) (k : Nat) (a : Int) (inside : m < d.size)
    (upto : k ≤ m) (enough : 2 * d.floats m + 2 ≤ fuel + 1) :
    ∃ d', promoteDoubleForward (fuel + 1) d k m a = some d' ∧ Progress m d d' ∧
      (Ready m start T d →
        (0 ≤ a → k < m → T .forward (k, exchange (d.cache m k) (a + (d.cache m k).stack_push)) ∧
          ∀ v, Link m d v (k, exchange (d.cache m k) (a + (d.cache m k).stack_push)) → ¬ d.Float m v) →
        (0 ≤ a → k = m → T .promote (m, a)) →
        Settles m T d d' ∧
          (0 ≤ a → (k < m → ¬ d'.Float m (k, exchange (d.cache m k) (a + (d.cache m k).stack_push))) ∧
            (k = m → ¬ d'.Float m (m, a)))) := by
  rw [promoteDoubleForward]
  by_cases walks : (k : Int) ≠ -1 ∧ (k : Int) < m ∧ a ≥ 0
  · have before : k < m := Int.ofNat_lt.mp walks.2.1
    rw [if_pos walks, inst_of_lt (before.trans inside), Option.bind_some, cache_of_lt before]
    have swap : (if (d.insts k).n.Combines ∧ (d.insts k).n.swapped then (d.insts k).n.other (a + (d.insts k).n.stack_push)
      else a + (d.insts k).n.stack_push) = exchange (d.insts k).n (a + (d.insts k).n.stack_push) := rfl
    dsimp only
    rw [swap]
    generalize exchange (d.insts k).n (a + (d.insts k).n.stack_push) = b
    rcases found : (d.insts k).n.getStF b with _ | i
    · refine ⟨d, rfl, .refl, fun _ _ _ => ⟨.refl, fun _ => ⟨fun _ => ?_, fun last => absurd last before.ne⟩⟩⟩
      exact not_float_of_none (by rwa [cache_of_lt before])
    dsimp only
    have visit : Visit m start T .forward d (d.promoteInst k i) (k, b) := visit_inst before found
    have fewer := visit.fewer
    obtain ⟨d₂, run, second, paired⟩ := specs.forward_combined inside before visit (by omega)
    have fewer₂ := second.floats_le
    obtain ⟨d', run', third, ahead⟩ := specs.forward_rest inside before visit second (by omega)
    have rest := visit.progress.trans (second.trans third)
    rw [run, Option.bind_some]
    refine ⟨d', run', rest, ?_⟩
    intro ready prepared _
    obtain ⟨touched, behind⟩ := prepared walks.2.2 before
    obtain ⟨settled, pairs⟩ := paired ready touched
    obtain ⟨settled', ahead⟩ := ahead ready touched
    obtain ⟨settles, gone⟩ := visit.assemble ready.safe touched second third settled settled' ahead
      (fun v link after => behind v link (rest.float after)) fun v pair after => pairs v pair (third.float after)
    exact ⟨settles, fun _ => ⟨fun _ => gone, fun last => absurd last before.ne⟩⟩
  · rw [if_neg walks]
    by_cases last : k = m
    · subst last
      rw [if_pos rfl]
      obtain ⟨d', run, progress, -, settles⟩ := specs.promote d a inside (by omega)
      refine ⟨d', run, progress, ?_⟩
      intro ready _ touched
      have nonneg (float : d.Float k (k, a)) : 0 ≤ a := by
        obtain ⟨-, i, -, number⟩ := float
        exact (Int.natCast_nonneg _).trans_eq number
      obtain ⟨settled, gone⟩ := settles ready.safe ready.closed (.inl ready.begun) fun float => touched (nonneg float) rfl
      exact ⟨settled, fun _ => ⟨fun before => absurd before (Nat.lt_irrefl _), fun _ => gone⟩⟩
    · rw [if_neg (by omega)]
      refine ⟨d, rfl, .refl, fun _ _ _ => ⟨.refl, fun nonneg => ?_⟩⟩
      omega

end Walking

/-! ### The current instruction -/

section Current

variable {m : Nat} {start : Int} {T : Walker → Value → Prop} {d d₂ : Dyn} {a : Int}

theorem pair_current {a b : Int} (combines : d.n.Combines) (swapped : d.n.swapped = false)
    (which : a = d.n.combined1 ∧ b = d.n.combined2 ∨ a = d.n.combined2 ∧ b = d.n.combined1) : Pair m d (m, a) (m, b) := by
  refine ⟨rfl, le_rfl, ?_⟩
  rw [cache_self]
  exact ⟨combines, swapped, which⟩

theorem begun_of_partner {d₁ : Dyn} (progress : Progress m d d₁) (pair : Pair m d (m, start) (m, a))
    (begun : ¬ d.Float m (m, start)) (gone : ¬ d₁.Float m (m, a)) : Begun m start d₁ := by
  refine ⟨fun float => begun (progress.float float), fun v pair' => ?_⟩
  rw [(progress.pair.mp pair').unique pair]
  exact gone

/-- The register that the current instruction combines with `a`, which has been promoted. -/
theorem Specs.promote_partner {fuel : Nat} (specs : Specs m start T fuel) {d₁ : Dyn} (inside : m < d.size)
    (visit : Visit m start T .promote d d₁ (m, a)) (enough : 2 * d₁.floats m + 1 ≤ fuel) {b : Int}
    (pair : Pair m d (m, a) (m, b)) :
    ∃ d₂, promoteDouble fuel d₁ m b = some d₂ ∧ Progress m d₁ d₂ ∧
      (∀ v, Pair m d (m, a) v → d.Float m v → d₂.Cached m .ST_D v) ∧
      (Safe m start T d → Closed m T d → T .promote (m, a) → Early m start d a →
        Settles m T d₁ d₂ ∧ ∀ v, Pair m d (m, a) v → ¬ d₂.Float m v) := by
  have first := visit.progress
  have inside₁ : m < d₁.size := by
    rw [first.size]
    exact inside
  obtain ⟨d₂, run, progress, doubles, settles⟩ := specs.promote d₁ b inside₁ enough
  refine ⟨d₂, run, progress, ?_, ?_⟩
  · intro v pair' float
    by_cases same : v = (m, a)
    · rw [same]
      exact progress.double visit.double
    · obtain rfl := pair'.unique pair
      exact (doubles (visit.only _ float same)).1
  intro safe closed touched early
  have gone := visit.gone safe touched
  have early' : Early m start d₁ b := by
    rcases early with begun | rfl | partner
    · exact .inl (begun.progress first)
    · exact .inr (.inr ⟨first.pair.mpr pair, gone⟩)
    · exact .inl (begun_of_partner first partner.1 partner.2 gone)
  obtain ⟨settled, taken⟩ := settles (safe.progress first) (closed.progress first) early'
    fun _ => closed .promote _ .promote _ touched visit.float pair
  refine ⟨settled, fun v pair' => ?_⟩
  rw [pair'.unique pair]
  exact taken

/-- What `promoteDouble` makes of the other register of a pair. -/
theorem Specs.promote_combined {fuel : Nat} (specs : Specs m start T fuel) {d₁ : Dyn} (inside : m < d.size)
    (visit : Visit m start T .promote d d₁ (m, a)) (enough : 2 * d₁.floats m + 1 ≤ fuel) :
    ∃ d₂, (if d.n.Combines then
        if d.n.swapped then some (d₁, d.n.other a)
        else
          (if (d.n.combined1 : Int) = a then promoteDouble fuel d₁ m d.n.combined2
            else if (d.n.combined2 : Int) = a then promoteDouble fuel d₁ m d.n.combined1
            else some d₁).map fun d => (d, a)
      else some (d₁, a)) = some (d₂, exchange d.n a) ∧ Progress m d₁ d₂ ∧
      (∀ v, Pair m d (m, a) v → d.Float m v → d₂.Cached m .ST_D v) ∧
      (Safe m start T d → Closed m T d → T .promote (m, a) → Early m start d a →
        Settles m T d₁ d₂ ∧ ∀ v, Pair m d (m, a) v → ¬ d₂.Float m v) := by
  -- what is to be shown where no register is paired
  have alone (none : ∀ v, ¬ Pair m d (m, a) v) : Progress m d₁ d₁ ∧ (∀ v, Pair m d (m, a) v → d.Float m v → d₁.Cached m .ST_D v) ∧
      (Safe m start T d → Closed m T d → T .promote (m, a) → Early m start d a →
        Settles m T d₁ d₁ ∧ ∀ v, Pair m d (m, a) v → ¬ d₁.Float m v) :=
    ⟨.refl, fun v pair => absurd pair (none v), fun _ _ _ _ => ⟨.refl, fun v pair => absurd pair (none v)⟩⟩
  by_cases combines : d.n.Combines
  swap
  · refine ⟨d₁, ?_, alone ?_⟩
    · rw [if_neg combines, exchange, if_neg fun both => combines both.1]
    · rintro v ⟨_, _, combines', _⟩
      rw [cache_self] at combines'
      exact combines combines'
  by_cases swapped : d.n.swapped
  · refine ⟨d₁, ?_, alone ?_⟩
    · rw [if_pos combines, if_pos swapped, exchange, if_pos ⟨combines, swapped⟩]
    · rintro v ⟨_, _, _, unswapped, _⟩
      rw [cache_self, swapped] at unswapped
      cases unswapped
  have kept : exchange d.n a = a := if_neg fun both => swapped both.2
  rw [if_pos combines, if_neg swapped, kept]
  have unswapped := Bool.eq_false_of_not_eq_true swapped
  by_cases one : (d.n.combined1 : Int) = a
  · obtain ⟨d₂, run, rest⟩ := specs.promote_partner inside visit enough (pair_current combines unswapped (.inl ⟨one.symm, rfl⟩))
    exact ⟨d₂, by rw [if_pos one, run]; rfl, rest⟩
  by_cases two : (d.n.combined2 : Int) = a
  · obtain ⟨d₂, run, rest⟩ := specs.promote_partner inside visit enough (pair_current combines unswapped (.inr ⟨two.symm, rfl⟩))
    exact ⟨d₂, by rw [if_neg one, if_pos two, run]; rfl, rest⟩
  · refine ⟨d₁, by rw [if_neg one, if_neg two]; rfl, alone ?_⟩
    rintro v ⟨_, _, _, _, which⟩
    rw [cache_self] at which
    rcases which with ⟨same, _⟩ | ⟨same, _⟩
    · exact one same.symm
    · exact two same.symm

/-- The rest of `promoteDouble`, from the instruction before. -/
theorem Specs.promote_rest {fuel : Nat} (specs : Specs m start T fuel) {d₁ : Dyn} (inside : m < d.size)
    (visit : Visit m start T .promote d d₁ (m, a)) (second : Progress m d₁ d₂) (enough : 2 * d₂.floats m + 2 ≤ fuel) :
    ∃ d', (if (m : Int) = 0 ∨ exchange d.n a - (d.insts m).n.stack_push < 0 then some d₂
        else promoteDoubleInternal fuel d₂ (m - 1) m (exchange d.n a - (d.insts m).n.stack_push)) = some d' ∧
      Progress m d₂ d' ∧
      (Safe m start T d → Closed m T d → Begun m start d₂ → T .promote (m, a) →
        Settles m T d₂ d' ∧ ∀ v, Link m d v (m, a) → ¬ d'.Float m v) := by
  have both := visit.progress.trans second
  have pushed (safe : Safe m start T d) (touched : T .promote (m, a)) :
      exchange d.n a - (d.insts m).n.stack_push = left m d (m, a) := by
    rw [left, cache_self, safe.pushes _ touched visit.float]
  by_cases ends : (m : Int) = 0 ∨ exchange d.n a - (d.insts m).n.stack_push < 0
  · rw [if_pos ends]
    refine ⟨d₂, rfl, .refl, fun safe _ _ touched => ⟨.refl, fun v link => ?_⟩⟩
    rw [pushed safe touched] at ends
    have nonneg := link.back.2
    have := link.1
    dsimp only at this
    omega
  rw [if_neg ends]
  by_cases pushes : (d.insts m).n.stack_push = d.n.stack_push
  swap
  · have inside₂ : m < d₂.size := by
      rw [both.size]
      exact inside
    obtain ⟨d', run', third, -⟩ := specs.internal d₂ m (exchange d.n a - (d.insts m).n.stack_push) inside₂ le_rfl enough
    exact ⟨d', run', third, fun safe _ _ touched => absurd (safe.pushes _ touched visit.float) pushes⟩
  have number : exchange d.n a - (d.insts m).n.stack_push = left m d (m, a) := by rw [left, cache_self, pushes]
  rw [number] at ends ⊢
  rw [not_or, not_lt] at ends
  obtain ⟨d', run', third, settles⟩ := specs.go_back inside le_rfl both enough
  refine ⟨d', run', third, fun safe closed begun touched => ?_⟩
  have ready : Ready m start T d₂ := ⟨safe.progress both, closed.progress both, begun⟩
  obtain ⟨settled, behind⟩ := settles ready
    (fun opened v back => closed .promote _ .internal v touched visit.float ⟨back, ends.2, opened⟩)
    (fun after => visit.gone safe touched (second.float after))
  refine ⟨settled, fun v link after => ?_⟩
  have there := both.float (third.float after)
  exact behind (safe.back .promote v (m, a) (.inl rfl) touched link there visit.float) v link after

theorem Specs.promote_succ {fuel : Nat} (specs : Specs m start T fuel) (d : Dyn) (a : Int) (inside : m < d.size)
    (enough : 2 * d.floats m + 1 ≤ fuel + 1) :
    ∃ d', promoteDouble (fuel + 1) d m a = some d' ∧ Progress m d d' ∧
      (d.Float m (m, a) → d'.Cached m .ST_D (m, a) ∧ ∀ v, Pair m d (m, a) v → d.Float m v → d'.Cached m .ST_D v) ∧
      (Safe m start T d → Closed m T d → Early m start d a →
        (d.Float m (m, a) → T .promote (m, a)) → Settles m T d d' ∧ ¬ d'.Float m (m, a)) := by
  rw [promoteDouble]
  rcases found : d.n.getStF a with _ | i
  · have none : ¬ d.Float m (m, a) := not_float_of_none (by rwa [cache_self])
    exact ⟨d, rfl, .refl, fun float => absurd float none, fun _ _ _ _ => ⟨.refl, none⟩⟩
  dsimp only
  rw [inst_of_lt inside, Option.bind_some]
  have visit : Visit m start T .promote d (d.promoteCurrent m i) (m, a) := visit_current found
  have fewer := visit.fewer
  obtain ⟨d₂, run, second, doubles, paired⟩ := specs.promote_combined inside visit (by omega)
  have fewer₂ := second.floats_le
  obtain ⟨d', run', third, behind⟩ := specs.promote_rest inside visit second (by omega)
  have both := visit.progress.trans second
  rw [run, Option.bind_some]
  refine ⟨d', run', both.trans third, fun _ => ⟨(second.trans third).double visit.double, fun v pair float =>
    third.double (doubles v pair float)⟩, ?_⟩
  intro safe closed early touched
  have touched := touched visit.float
  have gone := visit.gone safe touched
  obtain ⟨settled, pairs⟩ := paired safe closed touched early
  have begun : Begun m start d₂ := by
    rcases early with begun | rfl | partner
    · exact begun.progress both
    · exact ⟨fun after => gone (second.float after), fun v pair => pairs v (both.pair.mp pair)⟩
    · exact (begun_of_partner visit.progress partner.1 partner.2 gone).progress second
  obtain ⟨settled', behind⟩ := behind safe closed begun touched
  refine visit.assemble safe touched second third settled settled' ?_ behind fun v pair after => pairs v pair (third.float after)
  intro v link
  have := link.1
  have inside := link.2.1
  dsimp only at this
  omega

end Current

end Box64.Dynarec.Promote
