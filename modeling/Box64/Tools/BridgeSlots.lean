import Box64.Tools.Bridge

/-!
# Bridge slots are handed out once

The slot counters against the slots handed out, over any interleaving of the threads.
-/

namespace Box64.Tools

open ByteMemory

/-! ### The bytes of a slot -/

/-- Filling a slot changes its own bytes only. -/
theorem writeSlot_changedIn (m : ByteMemory) (sz : Nat) (call : BridgeCall) :
    ChangedIn (slotSize * sz) (slotSize * sz + slotSize) m (writeSlot m sz call) := by
  cases call with
  | addBridge w fnc N =>
    simp only [writeSlot, slotSize]
    iterate 6 refine ChangedIn.trans ?_ (changedIn_write _ _ _ _ (by omega) (by omega))
    exact changedIn_write _ _ _ _ (by omega) (by omega)
  | addVSyscall num =>
    simp only [writeSlot, slotSize]
    iterate 4 refine ChangedIn.trans ?_ (changedIn_write _ _ _ _ (by omega) (by omega))
    exact changedIn_write _ _ _ _ (by omega) (by omega)

/-- The return size is a value of the 16-bit field it is kept in. -/
def BridgeCall.Fits : BridgeCall → Prop
  | addBridge _ _ N => N.toNat < 2 ^ 16
  | addVSyscall _ => True

instance : (call : BridgeCall) → Decidable call.Fits
  | .addBridge _ _ _ => inferInstanceAs (Decidable (_ < _))
  | .addVSyscall _ => instDecidableTrue

theorem kept_writeSlot (m : ByteMemory) (sz : Nat) (call : BridgeCall) :
    Kept (writeSlot m sz call) sz call ↔ call.Fits := by
  cases call with
  | addBridge w fnc N =>
    have code : (if N ≠ 0 then 0xC2 else 0xC3) % 256 ^ 1 = if N ≠ 0 then 0xC2 else 0xC3 := by
      split <;> rfl
    have wrapper : w.toNat % 256 ^ 8 = w.toNat := Nat.mod_eq_of_lt w.isLt
    have function : fnc.toNat % 256 ^ 8 = fnc.toNat := Nat.mod_eq_of_lt fnc.isLt
    simp only [Kept, writeSlot, BridgeCall.Fits]
    rw [read_write_disjoint _ (by omega), read_write_disjoint _ (by omega), read_write_disjoint _ (by omega),
      read_write_same, read_write_disjoint _ (by omega), read_write_disjoint _ (by omega), read_write_same,
      read_write_disjoint _ (by omega), read_write_same, read_write_same, code, wrapper, function]
    omega
  | addVSyscall num =>
    have number : num.toNat % 256 ^ 4 = num.toNat := Nat.mod_eq_of_lt num.isLt
    simp only [Kept, writeSlot, BridgeCall.Fits]
    rw [read_write_disjoint _ (by omega), read_write_disjoint _ (by omega), read_write_disjoint _ (by omega),
      read_write_same, number]
    exact iff_of_true rfl trivial

/-- What happens outside a slot does not matter to it. -/
theorem Kept.frame {m m' : ByteMemory} {sz lo hi : Nat} {call : BridgeCall} (kept : Kept m sz call)
    (changed : ChangedIn lo hi m m') (apart : slotSize * sz + slotSize ≤ lo ∨ hi ≤ slotSize * sz) : Kept m' sz call := by
  rw [slotSize] at apart
  cases call with
  | addBridge w fnc N =>
    simp only [Kept, slotSize] at kept ⊢
    rwa [changed.read (by omega), changed.read (by omega), changed.read (by omega), changed.read (by omega)]
  | addVSyscall num =>
    simp only [Kept, slotSize] at kept ⊢
    rwa [changed.read (by omega)]

/-! ### Counters and slots -/

/-- The slot a thread has read and not yet taken. -/
def Thread.pending : Thread → Option (Nat × Nat)
  | picked _ b sz => some (b, sz)
  | checked _ b sz => some (b, sz)
  | _ => none

/-- The slots handed out are those below the counters, and no thread is ahead of them. -/
structure BridgeState.Inv (s : BridgeState) : Prop where
  last_lt : s.bridge.last < s.bridge.count
  room : ∀ b, (s.bridge.brick b).sz ≤ NBRICK
  fresh : ∀ b, s.bridge.count ≤ b → (s.bridge.brick b).sz = 0
  taken : ∀ b sz, (b, sz) ∈ s.handed.map Handed.slot ↔ sz < (s.bridge.brick b).sz
  distinct : (s.handed.map Handed.slot).Nodup
  kept : ∀ h ∈ s.handed, Kept (s.bridge.brick h.b).b h.sz h.call
  pending : ∀ t b sz, (s.thread t).pending = some (b, sz) →
    b < s.bridge.count ∧ sz ≤ (s.bridge.brick b).sz ∧ sz < NBRICK

namespace BridgeState

variable {s : BridgeState}

theorem Inv.safe (inv : s.Inv) : s.Safe := by
  refine ⟨inv.distinct, ?_, inv.kept⟩
  intro h mem
  have below := (inv.taken h.b h.sz).mp (List.mem_map_of_mem mem)
  exact Nat.lt_of_lt_of_le below (inv.room h.b)

theorem initialState_inv : initialState.Inv where
  last_lt := Nat.zero_lt_one
  room _ := Nat.zero_le _
  fresh _ _ := rfl
  taken _ _ := iff_of_false List.not_mem_nil (Nat.not_lt_zero _)
  distinct := List.nodup_nil
  kept _ mem := absurd mem List.not_mem_nil
  pending _ _ _ h := nomatch h

/-- Moving a thread that stays behind the counters. -/
theorem Inv.setThread (inv : s.Inv) (t : Nat) {th : Thread}
    (behind : ∀ b sz, th.pending = some (b, sz) → b < s.bridge.count ∧ sz ≤ (s.bridge.brick b).sz ∧ sz < NBRICK) :
    (s.setThread t th).Inv := by
  refine ⟨inv.last_lt, inv.room, inv.fresh, inv.taken, inv.distinct, inv.kept, ?_⟩
  intro t' b sz pending
  by_cases same : t' = t
  · subst same
    simp only [BridgeState.setThread, Function.update_self] at pending
    exact behind b sz pending
  · simp only [BridgeState.setThread, Function.update_of_ne same] at pending
    exact inv.pending t' b sz pending

/-- The first region keeps the counters. -/
theorem Inv.pick (inv : s.Inv) (t : Nat) (c : BridgeCall) : (s.pick t c).Inv := by
  by_cases full : (s.bridge.brick s.bridge.last).sz = NBRICK
  · simp only [BridgeState.pick, Bridge.pick, if_pos full]
    have empty : (s.bridge.brick s.bridge.count).sz = 0 := inv.fresh _ (Nat.le_refl _)
    have counters : ∀ b, (Function.update s.bridge.brick s.bridge.count newBrick b).sz = (s.bridge.brick b).sz := by
      intro b
      by_cases same : b = s.bridge.count
      · rw [same, Function.update_self, empty]
        rfl
      · rw [Function.update_of_ne same]
    have grown : BridgeState.Inv { s with bridge := {
        brick := Function.update s.bridge.brick s.bridge.count newBrick
        count := s.bridge.count + 1, last := s.bridge.count } } := by
      constructor <;> dsimp only
      · exact Nat.lt_succ_self _
      · intro b
        rw [counters]
        exact inv.room b
      · intro b above
        rw [counters]
        exact inv.fresh b (by omega)
      · intro b sz
        rw [counters]
        exact inv.taken b sz
      · exact inv.distinct
      · intro h mem
        have other : h.b ≠ s.bridge.count := by
          intro same
          have below := (inv.taken h.b h.sz).mp (List.mem_map_of_mem mem)
          rw [same, empty] at below
          exact Nat.not_lt_zero _ below
        rw [Function.update_of_ne other]
        exact inv.kept h mem
      · intro t b sz pending
        obtain ⟨old, le, lt⟩ := inv.pending t b sz pending
        rw [counters]
        exact ⟨by omega, le, lt⟩
    apply grown.setThread t
    intro b sz pending
    obtain ⟨rfl, rfl⟩ := Prod.mk.inj (Option.some.inj pending)
    dsimp only
    rw [counters, empty]
    exact ⟨Nat.lt_succ_self _, Nat.le_refl _, by decide⟩
  · simp only [BridgeState.pick, Bridge.pick, if_neg full]
    apply inv.setThread t
    intro b sz pending
    obtain ⟨rfl, rfl⟩ := Prod.mk.inj (Option.some.inj pending)
    have room := inv.room s.bridge.last
    exact ⟨inv.last_lt, Nat.le_refl _, by omega⟩

/-- The counter is still what the thread read, when it takes the slot; its return size fits its field. -/
def TakeOk (s : BridgeState) : Nat × Action → Prop
  | (t, .commit) =>
    match s.thread t with
    | .checked c b sz => (s.bridge.brick b).sz = sz ∧ c.Fits
    | _ => True
  | _ => True

/-- The second region takes the slot at the counter. -/
theorem Inv.take (inv : s.Inv) {b sz : Nat} {c : BridgeCall} (at_counter : (s.bridge.brick b).sz = sz)
    (inside : sz < NBRICK) (exists_brick : b < s.bridge.count) (fits : c.Fits) : (s.take b sz c).Inv := by
  have counter : ∀ b', ((s.take b sz c).bridge.brick b').sz =
      if b' = b then sz + 1 else (s.bridge.brick b').sz := by
    intro b'
    simp only [BridgeState.take, Bridge.take, Function.update_apply]
    split
    case isTrue => exact congrArg Nat.succ at_counter
    case isFalse => rfl
  have slots : (s.take b sz c).handed.map Handed.slot = s.handed.map Handed.slot ++ [(b, sz)] := by
    rw [BridgeState.take, List.map_append]
    rfl
  have new : (b, sz) ∉ s.handed.map Handed.slot := by
    rw [inv.taken, at_counter]
    exact Nat.lt_irrefl sz
  refine ⟨inv.last_lt, ?_, ?_, ?_, ?_, ?_, ?_⟩
  · intro b'
    rw [counter]
    split
    · exact inside
    · exact inv.room b'
  · intro b' above
    rw [counter, if_neg (by rintro rfl; exact absurd exists_brick (Nat.not_lt.mpr above))]
    exact inv.fresh b' above
  · intro b' sz'
    rw [slots, counter, List.mem_append, inv.taken, List.mem_singleton, Prod.mk.injEq]
    by_cases same : b' = b
    · subst same
      rw [if_pos rfl, at_counter]
      omega
    · rw [if_neg same]
      exact ⟨fun h => h.resolve_right fun new => same new.1, Or.inl⟩
  · rw [slots]
    exact List.Nodup.append inv.distinct (List.nodup_singleton _) (List.disjoint_singleton.mpr new)
  · intro h mem
    rcases List.mem_append.mp mem with old | mem
    · have was := inv.kept h old
      by_cases same : h.b = b
      · have below := (inv.taken h.b h.sz).mp (List.mem_map_of_mem old)
        rw [same, at_counter] at below
        have memory : ((s.take b sz c).bridge.brick h.b).b = writeSlot (s.bridge.brick b).b sz c := by
          simp only [BridgeState.take, Bridge.take, same, Function.update_self]
        rw [memory]
        rw [same] at was
        apply was.frame (writeSlot_changedIn _ sz c)
        left
        rw [slotSize]
        omega
      · simp only [BridgeState.take, Bridge.take, Function.update_of_ne same]
        exact was
    · obtain rfl := List.mem_singleton.mp mem
      simp only [BridgeState.take, Bridge.take, Function.update_self]
      exact (kept_writeSlot _ sz c).mpr fits
  · intro t b' sz' pending
    obtain ⟨old, le, lt⟩ := inv.pending t b' sz' pending
    refine ⟨old, ?_, lt⟩
    rw [counter]
    split
    case isTrue same =>
      rw [same, at_counter] at le
      exact Nat.le_succ_of_le le
    case isFalse => exact le

theorem step_inv {label : Nat × Action} {s' : BridgeState} (inv : s.Inv) (ok : s.TakeOk label)
    (next : s.step label = some s') : s'.Inv := by
  obtain ⟨t, action⟩ := label
  cases action with
  | call c =>
    simp only [step] at next
    split at next
    · cases next
      exact inv.pick t c
    · cases next
  | retry =>
    simp only [step] at next
    split at next
    · cases next
      exact inv.pick t _
    · cases next
  | check =>
    simp only [step] at next
    split at next
    case h_1 c b sz here =>
      cases next
      apply inv.setThread t
      intro b' sz' pending
      apply inv.pending t b' sz'
      rw [here]
      split at pending
      · cases pending
      · exact pending
    case h_2 => cases next
  | commit =>
    simp only [step] at next
    split at next
    case h_1 c b sz here =>
      cases next
      simp only [TakeOk, here] at ok
      obtain ⟨exists_brick, -, inside⟩ := inv.pending t b sz (by rw [here]; rfl)
      exact (inv.take ok.1 inside exists_brick ok.2).setThread t (fun b' sz' pending => nomatch pending)
    case h_2 => cases next

/-- A slot taken behind the counter is taken a second time. -/
theorem step_unsafe {label : Nat × Action} {s' : BridgeState} (inv : s.Inv) (bad : ¬ s.TakeOk label)
    (next : s.step label = some s') : ¬ s'.Safe := by
  obtain ⟨t, action⟩ := label
  cases action with
  | call c => exact absurd trivial bad
  | retry => exact absurd trivial bad
  | check => exact absurd trivial bad
  | commit =>
    simp only [step] at next
    split at next
    case h_1 c b sz here =>
      cases next
      intro safe
      obtain ⟨-, behind, -⟩ := inv.pending t b sz (by rw [here]; rfl)
      simp only [TakeOk, here] at bad
      have handed : Handed.mk c b sz ∈ (s.take b sz c).handed := List.mem_append_right _ List.mem_cons_self
      have fits : c.Fits := by
        have kept := safe.kept _ handed
        simp only [setThread, BridgeState.take, Bridge.take, Function.update_self] at kept
        exact (kept_writeSlot _ sz c).mp kept
      have taken : (b, sz) ∈ s.handed.map Handed.slot := by
        rw [inv.taken]
        rcases Nat.lt_or_eq_of_le behind with below | same
        · exact below
        · exact absurd ⟨same.symm, fits⟩ bad
      have twice : (s.handed.map Handed.slot ++ [(b, sz)]).Nodup := by
        have distinct := safe.distinct
        rwa [show ((s.take b sz c).setThread t .idle).handed = s.handed ++ [Handed.mk c b sz] from rfl,
          List.map_append] at distinct
      exact (List.nodup_append.mp twice).2.2 _ taken _ List.mem_cons_self rfl
    case h_2 => cases next

/-! ### Runs -/

/-- Over any run of any threads, the slots handed out stay distinct, inside their brick and as they were filled,
exactly if every slot is taken at the counter its thread read, with a return size that fits. -/
theorem slots_safe_iff (labels : List (Nat × Action)) :
    Runs.Always step Safe initialState labels ↔ Runs.AllSteps step TakeOk initialState labels := by
  have safe : ∀ s, Inv s → Safe s := fun s inv => inv.safe
  apply Runs.always_iff_allSteps safe
  · exact fun s label s' inv ok next => step_inv inv ok next
  · exact fun s label s' inv bad next => step_unsafe inv bad next
  · exact initialState_inv

/-- Two threads that check the counter before either takes the slot. -/
def racingCalls : List (Nat × Action) :=
  [(0, .call (.addBridge 0x1000 0x2000 0)), (1, .call (.addVSyscall 39)),
    (0, .check), (1, .check), (0, .commit), (1, .commit)]

theorem racingCalls_unsafe : ¬ Runs.Always step Safe initialState racingCalls := by
  have slots : (Runs.exec step initialState racingCalls).map (fun s => s.handed.map Handed.slot) =
      some [(0, 0), (0, 0)] := rfl
  intro always
  obtain ⟨s, reached, twice⟩ := Option.map_eq_some_iff.mp slots
  have distinct := (always racingCalls (List.prefix_refl _) s reached).distinct
  rw [twice] at distinct
  exact absurd distinct (by decide)

end BridgeState

end Box64.Tools
