import Box64.Include.KhashRehash

/-!
# A hash table is a finite map

Each operation of `khash.h` keeps the invariant and does to the entries what it does to a map, in every run along which
the doubling of the buckets stays within the 32 bits of `khint_t`.
-/

namespace Box64.Khash
open OpenAddressing
open Function (update)

variable {κ ν : Type} {hash : κ → BitVec 32} {h : Kh κ ν} {key : κ}

/-! ### Taking a bucket -/

theorem Inv.size_le (inv : Inv hash h) : h.size ≤ h.nOccupied := by
  rw [inv.size, inv.occupied]
  apply Finset.card_le_card
  intro i mem
  rw [Finset.mem_filter, acIseither_eq, Bool.or_eq_false_iff] at mem
  exact Finset.mem_filter.mpr ⟨mem.1, mem.2.1⟩

section Occupy
variable {n x : Nat} {flag : Flags} {keys : Nat → κ}

theorem acIseither_setIsbothFalse (j : Nat) : acIseither (acSetIsbothFalse flag x) j = (acIseither flag j && decide (j ≠ x)) := by
  rw [acIseither_eq, acIseither_eq, acIsempty_setIsbothFalse, acIsdel_setIsbothFalse, Bool.and_or_distrib_right]

theorem cellsOf_setIsbothFalse (lt : x < n) :
    cellsOf n (acSetIsbothFalse flag x) (update keys x key) = (cellsOf n flag keys).insert x key := by
  have inside : ∀ {b : Bool} (j : Nat), (j < n ∧ (b && decide (j ≠ x)) = false) = (j < n ∧ b = false ∨ j = x) := by
    intro b j
    rw [Bool.and_eq_false_iff, decide_eq_false_iff_not, not_not]
    apply propext
    constructor
    · rintro ⟨below, clear | same⟩
      · exact Or.inl ⟨below, clear⟩
      · exact Or.inr same
    · rintro (⟨below, clear⟩ | rfl)
      · exact ⟨below, Or.inl clear⟩
      · exact ⟨lt, Or.inr rfl⟩
  apply Cells.ext
  · funext j
    change (j < n ∧ acIsempty _ j = false) = (j < n ∧ _ ∨ j = x)
    rw [acIsempty_setIsbothFalse, inside]
  · funext j
    change (j < n ∧ acIseither _ j = false) = (j < n ∧ _ ∨ j = x)
    rw [acIseither_setIsbothFalse, inside]
  · rfl

theorem liveCount_setIsbothFalse (lt : x < n) (dead : acIseither flag x = true) :
    liveCount n (acSetIsbothFalse flag x) = liveCount n flag + 1 := by
  apply card_insert_bucket lt (by simp [dead])
  intro j
  rw [acIseither_setIsbothFalse, Bool.and_eq_false_iff, decide_eq_false_iff_not, not_not]

theorem usedCount_setIsbothFalse (lt : x < n) (empty : acIsempty flag x = true) :
    usedCount n (acSetIsbothFalse flag x) = usedCount n flag + 1 := by
  apply card_insert_bucket lt (by simp [empty])
  intro j
  rw [acIsempty_setIsbothFalse, Bool.and_eq_false_iff, decide_eq_false_iff_not, not_not]

theorem usedCount_setIsbothFalse_of_used (used : acIsempty flag x = false) :
    usedCount n (acSetIsbothFalse flag x) = usedCount n flag := by
  unfold usedCount
  congr 1
  ext j
  rw [Finset.mem_filter, Finset.mem_filter, acIsempty_setIsbothFalse, Bool.and_eq_false_iff, decide_eq_false_iff_not, not_not]
  refine and_congr_right fun _ => ⟨?_, Or.inl⟩
  rintro (clear | rfl)
  · exact clear
  · exact used

end Occupy

theorem Kh.holds_iff : h.cells.Holds key ↔ ∃ v, h.Entry key v := by
  constructor
  · rintro ⟨i, live, same⟩
    exact ⟨h.vals i, i, live, same, rfl⟩
  · rintro ⟨v, i, live, same, -⟩
    exact ⟨i, live, same⟩

theorem Inv.setVal (inv : Inv hash h) (vals : Nat → ν) : Inv hash { h with vals := vals } :=
  ⟨inv.sized, inv.size, inv.occupied, inv.bounded, inv.ordered⟩

/-- What `kh_put` leaves in the table and in bucket `x`. -/
structure Putted (hash : κ → BitVec 32) (h : Kh κ ν) (key : κ) (h' : Kh κ ν) (x : Nat) (ret : Int) : Prop where
  inv : Inv hash h'
  here : h'.cells.live x ∧ h'.keys x = key
  others : ∀ k v, k ≠ key → (h'.Entry k v ↔ h.Entry k v)
  code : 0 ≤ ret ∧ (ret = 0 ↔ h.cells.Holds key)
  size : h'.size = if ret = 0 then h.size else h.size + 1

/-- Below 2^30 entries the resize of `kh_put` leaves a bucket to take, unless it gets no memory. -/
theorem makeRoom_spec (inv : Inv hash h) (small : h.size < 2 ^ 30) (alloc : Bool) : ∃ h' ret,
    makeRoom hash h alloc = some (h', ret) ∧ Inv hash h' ∧ (∀ k v, h'.Entry k v ↔ h.Entry k v) ∧ h'.size = h.size ∧
    (h' = h ∧ ret = -1 ∧ alloc = false ∨ ret = 0 ∧ h'.nOccupied < h'.upperBound) := by
  unfold makeRoom
  split
  · rename_i full
    have le := inv.size_le
    have bounded := inv.bounded
    -- in either branch the size asked for has room for the entries
    have enough : ∃ newNBuckets, h.size < hashUpper (roundup newNBuckets) ∧
        (if h.size <<< 1 % 2 ^ 32 < h.nBuckets then khResize hash h (h.nBuckets - 1) alloc
          else khResize hash h (h.nBuckets + 1) alloc) = khResize hash h newNBuckets alloc := by
      rw [Nat.shiftLeft_eq]
      rcases inv.sized with ⟨zero, upper⟩ | ⟨k, two, top, buckets, upper⟩
      · have four : hashUpper (roundup (0 + 1)) = 3 := by decide
        rw [zero, if_neg (by omega)]
        exact ⟨0 + 1, by omega, rfl⟩
      · have four : 2 ^ 2 ≤ 2 ^ k := Nat.pow_le_pow_right (by omega) two
        rw [upper] at bounded
        rw [buckets]
        split
        · refine ⟨2 ^ k - 1, ?_, rfl⟩
          rw [roundup_pred two top]
          unfold hashUpper
          omega
        · have below : k ≤ 30 := by
            by_contra above
            have := Nat.pow_le_pow_right (show 0 < 2 by omega) (show 31 ≤ k by omega)
            omega
          refine ⟨2 ^ k + 1, ?_, rfl⟩
          rw [roundup_succ two below, pow_succ]
          unfold hashUpper at bounded ⊢
          omega
    obtain ⟨newNBuckets, fits, same⟩ := enough
    rw [same]
    obtain ⟨h', ret, ran, inv', entries, size, outcome⟩ := khResize_spec inv newNBuckets alloc
    refine ⟨h', ret, ran, inv', entries, size, ?_⟩
    rcases outcome with ⟨-, -, tight⟩ | failed | room
    · omega
    · exact Or.inl failed
    · exact Or.inr room
  · rename_i room
    exact ⟨h, 0, rfl, inv, fun _ _ => Iff.rfl, rfl, Or.inr ⟨rfl, by omega⟩⟩

theorem occupy_spec (inv : Inv hash h) (room : h.nOccupied < h.upperBound) {x : Nat} (lt : x < h.nBuckets)
    (bucket : h.cells.live x ∧ h.keys x = key ∨
      ¬ h.cells.live x ∧ ¬ h.cells.Holds key ∧ Along (way hash h.nBuckets key) h.cells.used x) :
    Putted hash h key (occupy h key x).1 x (occupy h key x).2 := by
  -- taking a bucket without an entry
  have take : ∀ nOccupied, ¬ h.cells.live x → ¬ h.cells.Holds key → Along (way hash h.nBuckets key) h.cells.used x →
      nOccupied = usedCount h.nBuckets (acSetIsbothFalse h.flags x) → nOccupied ≤ h.upperBound → ∀ ret : Int, 0 < ret →
      Putted hash h key ⟨h.nBuckets, h.size + 1, nOccupied, h.upperBound, acSetIsbothFalse h.flags x, update h.keys x key, h.vals⟩
        x ret := by
    intro nOccupied dead absent along occupied bounded ret pos
    have dead' : acIseither h.flags x = true := by
      rw [← Bool.not_eq_false]
      exact fun live => dead ⟨lt, live⟩
    have cells : cellsOf h.nBuckets (acSetIsbothFalse h.flags x) (update h.keys x key) = h.cells.insert x key :=
      cellsOf_setIsbothFalse lt
    refine ⟨⟨inv.sized, ?_, occupied, bounded, ?_⟩, ?_, ?_, ⟨pos.le, ?_⟩, by rw [if_neg pos.ne']⟩
    · dsimp only
      rw [liveCount_setIsbothFalse lt dead', inv.size]
    · change Cells.Ordered _ (cellsOf _ _ _)
      rw [cells]
      exact inv.ordered.insert dead absent along
    · change (cellsOf _ _ _).live x ∧ update h.keys x key x = key
      rw [cells, Function.update_self]
      exact ⟨Or.inr rfl, rfl⟩
    · intro k v ne
      refine exists_congr fun i => ?_
      change (cellsOf _ _ _).live i ∧ update h.keys x key i = k ∧ h.vals i = v ↔ _
      rw [cells]
      by_cases same : i = x
      · subst same
        rw [Function.update_self]
        exact ⟨fun there => absurd there.2.1.symm ne, fun there => absurd there.1 dead⟩
      · rw [Function.update_of_ne same]
        refine and_congr_left fun _ => ⟨fun there => there.resolve_right same, Or.inl⟩
    · exact ⟨fun zero => absurd zero pos.ne', fun held => absurd held absent⟩
  unfold occupy
  cases empty : acIsempty h.flags x
  · rw [if_neg (by simp)]
    cases del : acIsdel h.flags x
    · have live : h.cells.live x := ⟨lt, by rw [acIseither_eq, empty, del]; rfl⟩
      have same : h.keys x = key := by
        rcases bucket with found | ⟨dead, -⟩
        · exact found.2
        · exact absurd live dead
      rw [if_neg (by simp)]
      exact ⟨inv, ⟨live, same⟩, fun _ _ _ => Iff.rfl, ⟨le_rfl, fun _ => ⟨x, live, same⟩, fun _ => rfl⟩, rfl⟩
    · have dead : ¬ h.cells.live x := fun live => by
        have := live.2
        rw [acIseither_eq, del, Bool.or_true] at this
        exact absurd this (by decide)
      rw [if_pos rfl]
      obtain ⟨-, absent, along⟩ := bucket.resolve_left fun found => dead found.1
      exact take h.nOccupied dead absent along (by rw [usedCount_setIsbothFalse_of_used empty, inv.occupied]) inv.bounded 2
        (by decide)
  · have dead : ¬ h.cells.live x := fun live => by
      have := live.2
      rw [acIseither_eq, empty, Bool.true_or] at this
      exact absurd this (by decide)
    rw [if_pos rfl]
    obtain ⟨-, absent, along⟩ := bucket.resolve_left fun found => dead found.1
    exact take (h.nOccupied + 1) dead absent along (by rw [usedCount_setIsbothFalse lt empty, inv.occupied]) room 1 (by decide)

/-! ### Giving entries up -/

/-- An entry given up. -/
theorem khDel_spec (inv : Inv hash h) {x : Nat} (live : h.cells.live x) :
    Inv hash (khDel h x) ∧ ∀ k v, (khDel h x).Entry k v ↔ h.Entry k v ∧ k ≠ h.keys x := by
  have lt : x < h.nBuckets := live.1
  have chosen : khDel h x = { h with flags := acSetIsdelTrue h.flags x, size := h.size - 1 } := by
    unfold khDel
    rw [if_pos (by simp [live.2, lt.ne])]
  have still : ∀ j, acIseither (acSetIsdelTrue h.flags x) j = (acIseither h.flags j || decide (j = x)) := by
    intro j
    rw [acIseither_eq, acIseither_eq, acIsempty_setIsdelTrue, acIsdel_setIsdelTrue, Bool.or_assoc]
  have cells : cellsOf h.nBuckets (acSetIsdelTrue h.flags x) h.keys =
      { h.cells with live := fun j => h.cells.live j ∧ j ≠ x } := by
    apply Cells.ext
    · funext j
      change (j < h.nBuckets ∧ acIsempty _ j = false) = (j < h.nBuckets ∧ _)
      rw [acIsempty_setIsdelTrue]
    · funext j
      change (j < h.nBuckets ∧ acIseither _ j = false) = ((j < h.nBuckets ∧ _) ∧ j ≠ x)
      rw [still, Bool.or_eq_false_iff, decide_eq_false_iff_not, and_assoc]
    · rfl
  have fewer : liveCount h.nBuckets h.flags = liveCount h.nBuckets (acSetIsdelTrue h.flags x) + 1 :=
    liveCount_setIsdelTrue lt live.2
  rw [chosen]
  refine ⟨⟨inv.sized, ?_, ?_, inv.bounded, ?_⟩, ?_⟩
  · dsimp only
    rw [inv.size]
    omega
  · rw [inv.occupied]
    unfold usedCount
    simp only [acIsempty_setIsdelTrue]
  · change Cells.Ordered _ (cellsOf _ _ _)
    rw [cells]
    exact inv.ordered.erase x
  · intro k v
    constructor
    · rintro ⟨i, there, same, same'⟩
      change (cellsOf _ _ _).live i at there
      rw [cells] at there
      refine ⟨⟨i, there.1, same, same'⟩, ?_⟩
      rintro rfl
      exact there.2 (inv.ordered.distinct i x there.1 live same)
    · rintro ⟨⟨i, there, same, same'⟩, ne⟩
      refine ⟨i, ?_, same, same'⟩
      change (cellsOf _ _ _).live i
      rw [cells]
      refine ⟨there, ?_⟩
      rintro rfl
      exact ne same.symm

theorem khDel_end (h : Kh κ ν) : khDel h h.nBuckets = h := by
  unfold khDel
  rw [if_neg (by simp)]

theorem khClear_spec (inv : Inv hash h) : Inv hash (khClear h) ∧ ∀ k v, ¬ (khClear h).Entry k v := by
  unfold khClear
  split
  · have dead : ∀ i, ¬ (cellsOf h.nBuckets memsetAa h.keys).live i := by
      rintro i ⟨-, live⟩
      rw [acIseither_eq, acIsempty_memsetAa, Bool.true_or] at live
      exact absurd live (by decide)
    refine ⟨⟨inv.sized, ?_, ?_, Nat.zero_le _, ?_⟩, ?_⟩
    · symm
      dsimp only
      unfold liveCount
      rw [Finset.card_eq_zero, Finset.filter_eq_empty_iff]
      exact fun i mem live => dead i ⟨Finset.mem_range.mp mem, live⟩
    · exact usedCount_memsetAa.symm
    · exact ⟨fun i live => absurd live (dead i), fun i _ live => absurd live (dead i), fun i live => absurd live (dead i)⟩
    · rintro k v ⟨i, live, -⟩
      exact dead i live
  · rename_i none
    refine ⟨inv, ?_⟩
    rintro k v ⟨i, live, -⟩
    have := live.1
    omega

theorem khInit_inv [Inhabited κ] [Inhabited ν] : Inv hash (khInit : Kh κ ν) := by
  have dead : ∀ i, ¬ i < (khInit : Kh κ ν).nBuckets := fun i => Nat.not_lt_zero i
  exact ⟨Or.inl ⟨rfl, rfl⟩, rfl, rfl, le_rfl, fun i live => absurd live.1 (dead i), fun i _ live => absurd live.1 (dead i),
    fun i live => absurd live.1 (dead i)⟩

/-! ### Putting and storing -/

variable [DecidableEq κ]

variable (key) in
/-- `kh_put` has the key in the bucket it returns, and tells whether it was there before. -/
theorem khPut_spec (inv : Inv hash h) (small : h.size < 2 ^ 30) (alloc : Bool) : ∃ h' x ret,
    khPut hash h key alloc = some (h', x, ret) ∧ (h' = h ∧ ret = -1 ∧ alloc = false ∨ Putted hash h key h' x ret) := by
  obtain ⟨h₁, r, made, inv₁, entries, size, outcome⟩ := makeRoom_spec inv small alloc
  unfold khPut
  rw [made]
  simp only [Option.bind_eq_bind, Option.bind_some]
  rcases outcome with ⟨rfl, rfl, failed⟩ | ⟨rfl, room⟩
  · exact ⟨_, _, _, by rw [if_pos (by decide)], Or.inl ⟨rfl, rfl, failed⟩⟩
  · rw [if_neg (by decide)]
    rcases inv₁.sized with ⟨-, upper⟩ | ⟨k, two, -, buckets, upper⟩
    · omega
    · have lt := hashUpper_lt two
      obtain ⟨x, below, chosen, bucket⟩ := putBucket_spec key inv₁ buckets (by rw [← inv₁.occupied]; omega)
      rw [chosen]
      have put := occupy_spec inv₁ room below (by rw [buckets]; exact bucket)
      refine ⟨_, x, _, rfl, Or.inr ⟨put.inv, put.here, fun k v ne => (put.others k v ne).trans (entries k v),
        ⟨put.code.1, put.code.2.trans ?_⟩, put.size.trans (by rw [size])⟩⟩
      rw [Kh.holds_iff, Kh.holds_iff]
      exact exists_congr fun v => entries key v

/-- A stored value is the one entry of its key. -/
theorem entry_setVal (inv : Inv hash h) {x : Nat} (here : h.cells.live x ∧ h.keys x = key) (val : ν) (k : κ) (v : ν) :
    Kh.Entry { h with vals := update h.vals x val } k v ↔ if k = key then v = val else h.Entry k v := by
  split
  · rename_i same
    subst same
    constructor
    · rintro ⟨i, live, same, rfl⟩
      have eq := inv.ordered.distinct i x live here.1 (same.trans here.2.symm)
      subst eq
      exact Function.update_self ..
    · rintro rfl
      exact ⟨x, here.1, here.2, Function.update_self ..⟩
  · rename_i other
    refine exists_congr fun i => and_congr_right fun _ => and_congr_right fun same => ?_
    have ne : i ≠ x := by
      rintro rfl
      exact other (same.symm.trans here.2)
    dsimp only
    rw [Function.update_of_ne ne]

/-! ### Runs -/

/-- The table keeps exactly the entries of the map. -/
def Represents (h : Kh κ ν) (m : κ → Option ν) : Prop := ∀ k v, h.Entry k v ↔ m k = some v

variable (hash) in
/-- What each operation on the table `h` does to a map. A `put` stores its value unless it returns -1 in `*ret`, and that only
where it gets no memory. -/
def Meaning (h : Kh κ ν) : Op κ ν → (κ → Option ν) → (κ → Option ν) → Prop
  | .put key val alloc, m, m' => ∃ h' x ret, khPut hash h key alloc = some (h', x, ret) ∧
      (ret = -1 → alloc = false) ∧ m' = if ret = -1 then m else update m key (some val)
  | .del key, m, m' => m' = update m key none
  | .clear, _, m' => m' = fun _ => none
  | .resize _ _, m, m' => m' = m

variable (hash) in
/-- What a list of operations makes of the empty map. -/
inductive Denotes [Inhabited κ] [Inhabited ν] : List (Op κ ν) → (κ → Option ν) → Prop
  | nil : Denotes [] fun _ => none
  | snoc {ops : List (Op κ ν)} {m m' : κ → Option ν} {h : Kh κ ν} (op : Op κ ν) :
      Denotes ops m → Runs.exec (step hash) khInit ops = some h → Meaning hash h op m m' → Denotes (ops ++ [op]) m'

/-- One operation on the table is the operation on the map, and adds one entry at most. -/
theorem step_refines (inv : Inv hash h) {m : κ → Option ν} (rep : Represents h m) (small : h.size < 2 ^ 30) (op : Op κ ν) :
    ∃ h' m', step hash h op = some h' ∧ Inv hash h' ∧ Meaning hash h op m m' ∧ Represents h' m' ∧ h'.size ≤ h.size + 1 := by
  cases op with
  | put key val alloc =>
    obtain ⟨h', x, ret, ran, outcome⟩ := khPut_spec key inv small alloc
    unfold step putValue
    dsimp only
    rw [ran]
    simp only [Option.bind_eq_bind, Option.bind_some]
    rcases outcome with ⟨rfl, rfl, failed⟩ | put
    · exact ⟨_, m, rfl, inv, ⟨_, x, _, ran, fun _ => failed, (if_pos rfl).symm⟩, rep, Nat.le_succ _⟩
    · have stored : ret ≠ -1 := fun failed => absurd put.code.1 (by rw [failed]; decide)
      rw [if_neg (not_lt.mpr put.code.1)]
      refine ⟨_, update m key (some val), rfl, put.inv.setVal _,
        ⟨_, x, _, ran, fun failed => absurd failed stored, (if_neg stored).symm⟩, ?_, ?_⟩
      · intro k v
        rw [entry_setVal put.inv put.here]
        by_cases same : k = key
        · subst same
          rw [if_pos rfl, Function.update_self, Option.some_inj, eq_comm]
        · rw [if_neg same, Function.update_of_ne same, put.others k v same]
          exact rep k v
      · have size := put.size
        dsimp only
        split at size <;> omega
  | del key =>
    obtain ⟨x, got, outcome⟩ := khGet_spec key inv
    unfold step delKey
    dsimp only
    rw [got]
    rcases outcome with ⟨live, same⟩ | ⟨rfl, absent⟩
    · obtain ⟨inv', entries⟩ := khDel_spec inv live
      refine ⟨_, update m key none, rfl, inv', rfl, ?_, ?_⟩
      · intro k v
        rw [entries, same, rep]
        by_cases eq : k = key
        · subst eq
          simp
        · rw [Function.update_of_ne eq]
          exact and_iff_left eq
      · unfold khDel
        split
        · exact (Nat.sub_le _ _).trans (Nat.le_succ _)
        · exact Nat.le_succ _
    · refine ⟨_, update m key none, rfl, ?_, rfl, ?_, ?_⟩
      · rw [khDel_end]
        exact inv
      · rw [khDel_end]
        intro k v
        by_cases eq : k = key
        · subst eq
          rw [Function.update_self]
          refine iff_of_false (fun entry => absent (Kh.holds_iff.mpr ⟨v, entry⟩)) (by simp)
        · rw [Function.update_of_ne eq]
          exact rep k v
      · rw [khDel_end]
        exact Nat.le_succ _
  | clear =>
    obtain ⟨inv', none⟩ := khClear_spec inv
    refine ⟨_, fun _ => Option.none, rfl, inv', rfl, fun k v => iff_of_false (none k v) (by simp), ?_⟩
    unfold khClear
    split
    · exact Nat.zero_le _
    · exact Nat.le_succ _
  | resize newNBuckets alloc =>
    obtain ⟨h', ret, ran, inv', entries, size, -⟩ := khResize_spec inv newNBuckets alloc
    refine ⟨h', m, by rw [step, ran]; rfl, inv', rfl, fun k v => (entries k v).trans (rep k v), by omega⟩

/-- Every run that never holds 2^30 entries goes through and leaves a table that represents what it means. -/
theorem exec_represents [Inhabited κ] [Inhabited ν] (ops : List (Op κ ν))
    (small : Runs.Always (step hash) (fun h => h.size < 2 ^ 30) khInit ops) :
    ∃ h m, Runs.exec (step hash) khInit ops = some h ∧ Inv hash h ∧ Denotes hash ops m ∧ Represents h m := by
  have whole : ∃ h, Runs.exec (step hash) khInit ops = some h ∧
      (Runs.exec (step hash) khInit ops = some h ∧ Inv hash h ∧ ∃ m, Denotes hash ops m ∧ Represents h m) := by
    apply Runs.exec_covers (P := fun done h => Runs.exec (step hash) khInit done = some h ∧ Inv hash h ∧
      ∃ m, Denotes hash done m ∧ Represents h m)
    · refine ⟨rfl, khInit_inv, fun _ => none, .nil, fun k v => iff_of_false ?_ (by simp)⟩
      rintro ⟨i, live, -⟩
      exact absurd live.1 (Nat.not_lt_zero i)
    · rintro done op rest h whole ⟨ran, inv, m, means, rep⟩
      have few := small done ⟨op :: rest, whole.symm⟩ h ran
      obtain ⟨h', m', next, inv', meaning, rep', -⟩ := step_refines inv rep few op
      refine ⟨h', next, ?_, inv', m', .snoc op means ran meaning, rep'⟩
      rw [Runs.exec_append, ran]
      simp [Runs.exec, next]
  obtain ⟨h, ran, -, inv, m, means, rep⟩ := whole
  exact ⟨h, m, ran, inv, means, rep⟩

theorem getValue_spec (inv : Inv hash h) {m : κ → Option ν} (rep : Represents h m) (key : κ) :
    getValue hash h key = some (m key) := by
  obtain ⟨x, got, outcome⟩ := khGet_spec key inv
  unfold getValue
  rw [got, Option.map_some, Option.some_inj]
  rcases outcome with ⟨live, same⟩ | ⟨rfl, absent⟩
  · rw [if_neg live.1.ne]
    exact ((rep key (h.vals x)).mp ⟨x, live, same, rfl⟩).symm
  · rw [if_pos rfl]
    cases value : m key with
    | none => rfl
    | some v => exact absurd (Kh.holds_iff.mpr ⟨v, (rep key v).mpr value⟩) absent

/-- Runs of fewer than 2^30 operations never hold that many entries. -/
theorem small_of_length [Inhabited κ] [Inhabited ν] (ops : List (Op κ ν)) (short : ops.length < 2 ^ 30) :
    Runs.Always (step hash) (fun h => h.size < 2 ^ 30) khInit ops := by
  intro before pre
  have le := pre.length_le
  have bounded : ∀ before : List (Op κ ν), before.length < 2 ^ 30 → ∃ h m, Runs.exec (step hash) khInit before = some h ∧
      Inv hash h ∧ Represents h m ∧ h.size ≤ before.length := by
    intro before
    induction before using List.reverseRecOn with
    | nil =>
      refine fun _ => ⟨khInit, fun _ => none, rfl, khInit_inv, fun k v => iff_of_false ?_ (by simp), Nat.zero_le _⟩
      rintro ⟨i, live, -⟩
      exact absurd live.1 (Nat.not_lt_zero i)
    | append_singleton before op ih =>
      intro short
      rw [List.length_append, List.length_singleton] at short ⊢
      obtain ⟨h, m, ran, inv, rep, size⟩ := ih (by omega)
      obtain ⟨h', m', next, inv', -, rep', grown⟩ := step_refines inv rep (by omega) op
      refine ⟨h', m', ?_, inv', rep', by omega⟩
      rw [Runs.exec_append, ran]
      simp [Runs.exec, next]
  obtain ⟨h, m, ran, -, -, size⟩ := bounded before (by omega)
  intro t there
  rw [ran, Option.some_inj] at there
  subst there
  omega

/-- After every run, looking a key up terminates and gives what the operations before have made of it. -/
theorem kh_refines_map [Inhabited κ] [Inhabited ν] (hash : κ → BitVec 32) (ops : List (Op κ ν))
    (small : Runs.Always (step hash) (fun h => h.size < 2 ^ 30) khInit ops) :
    ∃ h m, Runs.exec (step hash) khInit ops = some h ∧ Denotes hash ops m ∧ ∀ key, getValue hash h key = some (m key) := by
  obtain ⟨h, m, ran, inv, means, rep⟩ := exec_represents ops small
  exact ⟨h, m, ran, means, getValue_spec inv rep⟩

theorem kh_refines_map_two_puts : ∃ h m,
    Runs.exec (step khInt64HashFunc) khInit [.put 0x400000 1 true, .put 0x500000 2 true] = some h ∧
    Denotes khInt64HashFunc [.put 0x400000 1 true, .put 0x500000 2 true] m ∧
    ∀ key, getValue khInt64HashFunc h key = some (m key : Option Nat) :=
  kh_refines_map khInt64HashFunc [.put 0x400000 1 true, .put 0x500000 2 true] (small_of_length _ (by decide))

/-- After every run, `kh_foreach` comes past each entry exactly once, and `kh_size` is their number. -/
theorem kh_foreach_visits [Inhabited κ] [Inhabited ν] (hash : κ → BitVec 32) (ops : List (Op κ ν))
    (small : Runs.Always (step hash) (fun h => h.size < 2 ^ 30) khInit ops) :
    ∃ h m, Runs.exec (step hash) khInit ops = some h ∧ Denotes hash ops m ∧ ((khForeach h).map Prod.fst).Nodup ∧
      (khForeach h).length = h.size ∧ ∀ key val, (key, val) ∈ khForeach h ↔ m key = some val := by
  obtain ⟨h, m, ran, inv, means, rep⟩ := exec_represents ops small
  have visited : ∀ i, i ∈ (List.range h.nBuckets).filter (fun i => !acIseither h.flags i) ↔ h.cells.live i := by
    intro i
    rw [List.mem_filter, List.mem_range, Bool.not_eq_true']
    rfl
  refine ⟨h, m, ran, means, ?_, ?_, ?_⟩
  · unfold khForeach
    rw [List.map_map]
    apply (List.nodup_range.filter _).map_on
    intro i mem j mem' same
    exact inv.ordered.distinct i j ((visited i).mp mem) ((visited j).mp mem') same
  · unfold khForeach
    rw [List.length_map, inv.size]
    unfold liveCount
    rw [← List.toFinset_card_of_nodup (List.nodup_range.filter _)]
    congr 1
    ext i
    rw [List.mem_toFinset, visited, Finset.mem_filter, Finset.mem_range]
    rfl
  · intro key val
    rw [← rep key val]
    unfold khForeach
    rw [List.mem_map]
    constructor
    · rintro ⟨i, mem, same⟩
      obtain ⟨rfl, rfl⟩ := Prod.mk.inj same
      exact ⟨i, (visited i).mp mem, rfl, rfl⟩
    · rintro ⟨i, live, rfl, rfl⟩
      exact ⟨i, (visited i).mpr live, rfl⟩

theorem kh_foreach_visits_put_del : ∃ h m,
    Runs.exec (step khInt64HashFunc) khInit [.put 0x400000 1 true, .del 0x400000] = some h ∧
    Denotes khInt64HashFunc [.put 0x400000 1 true, .del 0x400000] m ∧ ((khForeach h).map Prod.fst).Nodup ∧
    (khForeach h).length = h.size ∧
    ∀ key (val : Nat), (key, val) ∈ khForeach h ↔ m key = some val :=
  kh_foreach_visits khInt64HashFunc [.put 0x400000 1 true, .del 0x400000] (small_of_length _ (by decide))

end Box64.Khash
