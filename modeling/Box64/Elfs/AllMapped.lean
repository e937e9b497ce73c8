import Box64.Elfs.AllocMemory

/-!
# What the loads of an ELF find mapped

The loops of `AllocElfMemory` over the blocks that its table leaves, and what `LoadElfMemory` writes afterwards.
-/

namespace Box64.Elfs

/-! ### The mappings -/

section Mappings

variable {dyn : Bool} {mmap : Nat → BitVec 64} {length : Nat} {blocks rest : List Block} {head : Alloc} {i : Nat}

/-- Blocks that are all mapped where they are asked for. -/
theorem mapBlocks_honoured
    (honoured : ∀ j b, rest[j]? = some b → mmap (i + j) ≠ MAP_FAILED ∧ (b.offs ≠ 0 → mmap (i + j) = b.offs)) :
    mapBlocks dyn mmap length blocks i rest head =
      some (some { head with multiblock := head.multiblock ++ (List.range rest.length).map fun j => mmap (i + j) }) := by
  induction rest generalizing i head with
  | nil => simp [mapBlocks]
  | cons b rest ih =>
    obtain ⟨mapped, hint⟩ : mmap i ≠ MAP_FAILED ∧ (b.offs ≠ 0 → mmap i = b.offs) := honoured 0 b rfl
    have still : ¬ (b.offs ≠ 0 ∧ mmap i ≠ b.offs) := fun moved => moved.2 (hint moved.1)
    have later : ∀ j c, rest[j]? = some c →
        mmap (i + 1 + j) ≠ MAP_FAILED ∧ (c.offs ≠ 0 → mmap (i + 1 + j) = c.offs) := by
      intro j c found
      have := honoured (j + 1) c found
      rwa [← Nat.add_assoc, Nat.add_right_comm] at this
    have next : mapBlocks dyn mmap length blocks (i + 1) rest { head with multiblock := head.multiblock ++ [mmap i] } = _ :=
      ih later
    rw [mapBlocks, if_neg mapped, if_neg still, next, List.length_cons, List.range_succ_eq_map]
    simp [Function.comp_def, Nat.add_comm, Nat.add_left_comm]

theorem mapBlocks_refused
    (refused : ∃ j b, rest[j]? = some b ∧ (mmap (i + j) = MAP_FAILED ∨ b.offs ≠ 0 ∧ mmap (i + j) ≠ b.offs)) :
    mapBlocks false mmap length blocks i rest head = some none := by
  induction rest generalizing i head with
  | nil => exact absurd refused (by simp)
  | cons b rest ih =>
    rw [mapBlocks]
    by_cases failed : mmap i = MAP_FAILED
    · rw [if_pos failed]
    by_cases moved : b.offs ≠ 0 ∧ mmap i ≠ b.offs
    · rw [if_neg failed, if_pos moved, if_neg Bool.false_ne_true]
    rw [if_neg failed, if_neg moved]
    refine ih ?_
    obtain ⟨j, c, found, answer⟩ := refused
    cases j with
    | zero =>
      obtain rfl := Option.some.inj found
      exact absurd answer (not_or.mpr ⟨failed, moved⟩)
    | succ j =>
      refine ⟨j, c, found, ?_⟩
      rwa [← Nat.add_assoc, Nat.add_right_comm] at answer

/-- The loop over the entries reads the arrays at the index of every `PT_LOAD`. -/
theorem adjust_reads {p delta : BitVec 64} {j : Nat} {entries : List Elf64_Phdr}
    (runs : adjust length blocks p j entries delta ≠ none) (k : Nat) (e : Elf64_Phdr) (found : entries[k]? = some e)
    (load : e.p_type = PT_LOAD) : j + k < length := by
  induction entries generalizing j k delta with
  | nil => cases found
  | cons first entries ih =>
    have next (delta : BitVec 64) (runs : adjust length blocks p (j + 1) entries delta ≠ none) (k : Nat)
        (found : entries[k]? = some e) : j + (k + 1) < length := by
      have := ih runs k found
      omega
    rw [adjust] at runs
    by_cases here : first.p_type = PT_LOAD
    · rw [if_pos here] at runs
      by_cases room : j < length
      · cases k with
        | zero => exact room
        | succ k =>
          by_contra outside
          refine runs ?_
          have none (delta : BitVec 64) : adjust length blocks p (j + 1) entries delta = none := by
            by_contra runs
            exact outside (next delta runs k found)
          rw [readBlock, if_pos room]
          simp [none]
      · rw [readBlock, if_neg room] at runs
        exact absurd rfl runs
    · cases k with
      | zero =>
        obtain rfl := Option.some.inj found
        exact absurd load here
      | succ k =>
        rw [if_neg here] at runs
        refine next delta (fun none => runs ?_) k found
        simp [none]

/-- Past the last block, the arrays hold zeros and the loop changes nothing. -/
theorem adjust_past (blocks : List Block) {p delta : BitVec 64} {j : Nat} {loads others : List Elf64_Phdr}
    (past : blocks.length ≤ j) (room : j + loads.length ≤ length) (rest : ∀ e ∈ others, e.p_type ≠ PT_LOAD) :
    adjust length blocks p j (loads ++ others) delta = some (loads ++ others, delta) := by
  induction loads generalizing j with
  | nil =>
    rw [List.nil_append]
    clear room
    induction others generalizing j with
    | nil => rfl
    | cons e others ih =>
      obtain ⟨here, later⟩ := List.forall_mem_cons.mp rest
      rw [adjust, if_neg here, ih later (Nat.le_succ_of_le past)]
      rfl
  | cons e loads ih =>
    rw [List.length_cons] at room
    have read : readBlock length blocks j = some ⟨0, 0⟩ := by
      rw [readBlock, if_pos (by omega), List.getD_eq_getElem?_getD, List.getElem?_eq_none past]
      rfl
    have outside : ¬ (e.p_vaddr ≥ (⟨0, 0⟩ : Block).offs ∧ e.p_vaddr < (⟨0, 0⟩ : Block).stop) := by
      simp [Block.stop]
    have next := ih (j := j + 1) (Nat.le_succ_of_le past) (by omega)
    rw [List.cons_append, adjust, read]
    simp only [Option.bind_eq_bind, Option.bind_some, if_neg outside, next, ite_self]

theorem adjust_outside {p : BitVec 64} {e : Elf64_Phdr} {loads others : List Elf64_Phdr} {b : Block}
    (load : e.p_type = PT_LOAD) (outside : ¬ (e.p_vaddr ≥ b.offs ∧ e.p_vaddr < b.stop))
    (room : loads.length + 1 ≤ length) (rest : ∀ e ∈ others, e.p_type ≠ PT_LOAD) :
    adjust length [b] p 0 (e :: (loads ++ others)) 0 = some (e :: (loads ++ others), 0) := by
  have read : readBlock length [b] 0 = some b := by
    rw [readBlock, if_pos (by omega)]
    rfl
  rw [adjust, if_pos load, read]
  simp only [Option.bind_eq_bind, Option.bind_some, if_neg outside]
  rw [adjust_past [b] (Nat.le_refl 1) (by omega) rest]
  rfl

/-- The only block of a table that begins with its loads. -/
theorem adjust_first {p : BitVec 64} {e : Elf64_Phdr} {loads others : List Elf64_Phdr} {b : Block}
    (load : e.p_type = PT_LOAD) (inside : e.p_vaddr ≥ b.offs ∧ e.p_vaddr < b.stop)
    (room : loads.length + 1 ≤ length) (rest : ∀ e ∈ others, e.p_type ≠ PT_LOAD) :
    adjust length [b] p 0 (e :: (loads ++ others)) 0 =
      some ({ e with p_vaddr := e.p_vaddr - b.offs + p } :: (loads ++ others), p - b.offs) := by
  have read : readBlock length [b] 0 = some b := by
    rw [readBlock, if_pos (by omega)]
    rfl
  rw [adjust, if_pos load, read]
  simp only [Option.bind_eq_bind, Option.bind_some, if_pos inside, if_true]
  rw [adjust_past [b] (Nat.le_refl 1) (by omega) rest]
  rfl

end Mappings

/-! ### Every load is mapped -/

section Main

variable {dyn : Bool} {mmap : Nat → BitVec 64} {PHEntries : List Elf64_Phdr}

theorem mem_placed {e : Elf64_Phdr} : e ∈ (PHEntries.filter fun e => e.Placed) ↔ e ∈ PHEntries ∧ e.Placed := by
  simp

theorem Sorted.placed (sorted : Sorted PHEntries) : (PHEntries.filter fun e => e.Placed).Pairwise fun e f =>
    e.p_vaddr.toNat ≤ f.p_vaddr.toNat := by
  have split : (PHEntries.filter fun e => e.Placed) =
      (PHEntries.filter fun e => e.p_type = PT_LOAD).filter fun e => e.p_flags ≠ 0 := by
    rw [List.filter_filter]
    refine List.filter_congr fun e _ => ?_
    by_cases load : e.p_type = PT_LOAD <;> simp [Elf64_Phdr.Placed, load]
  rw [split]
  refine (List.Pairwise.filter _ sorted).imp ?_
  intro e f order
  omega

/-- The blocks of a tidy table are its stretches. -/
theorem Tidy.built (tidy : Tidy dyn PHEntries) (sorted : Sorted PHEntries) :
    (PHEntries.filter fun e => e.Placed) = [] ∧ stretches dyn PHEntries = [] ∧ multiblocks dyn PHEntries = [] ∨
      ∃ front last, stretches dyn PHEntries = front ++ [last] ∧
        multiblocks dyn PHEntries = front.map Stretch.block ++ [last.block] ∧
        Built dyn (PHEntries.filter fun e => e.Placed) (front.map Stretch.block) last.block := by
  by_cases nothing : (PHEntries.filter fun e => e.Placed) = []
  · refine .inl ⟨nothing, ?_, ?_⟩
    · rw [stretches, nothing]
      rfl
    · rw [multiblocks, nothing]
      rfl
  · obtain ⟨before, last, widened, placed, built⟩ := built_place dyn
      (fun e mem => tidy.below e (mem_placed.mp mem).1 (mem_placed.mp mem).2) sorted.placed tidy.noReachBack nothing
    refine .inr ⟨before.reverse, last, ?_, placed, built⟩
    rw [stretches, widened, List.reverse_cons]

theorem Tidy.multiblocks (tidy : Tidy dyn PHEntries) (sorted : Sorted PHEntries) :
    Elfs.multiblocks dyn PHEntries = (stretches dyn PHEntries).map Stretch.block := by
  obtain ⟨-, none, blocks⟩ | ⟨front, last, same, blocks, -⟩ := tidy.built sorted
  · rw [none, blocks]
    rfl
  · rw [same, blocks, List.map_append]
    rfl

theorem Tidy.apart (tidy : Tidy dyn PHEntries) (sorted : Sorted PHEntries) :
    (Elfs.multiblocks dyn PHEntries).Pairwise Block.Apart := by
  obtain ⟨-, -, blocks⟩ | ⟨front, last, -, blocks, built⟩ := tidy.built sorted
  · rw [blocks]
    exact List.Pairwise.nil
  · rw [blocks]
    exact built.apart.imp fun order => .inl (Nat.le_of_lt order)

theorem Tidy.single (tidy : Tidy true PHEntries) (sorted : Sorted PHEntries) {i : Nat} {s : Stretch}
    (found : (stretches true PHEntries)[i]? = some s) : i = 0 ∧ stretches true PHEntries = [s] := by
  obtain ⟨-, none, -⟩ | ⟨front, last, same, -, built⟩ := tidy.built sorted
  · rw [none] at found
    cases found
  · obtain rfl : front = [] := List.map_eq_nil_iff.mp (built.single rfl)
    rw [same] at found ⊢
    have here : i < 1 := (List.getElem?_eq_some_iff.mp found).1
    obtain rfl : i = 0 := by omega
    exact ⟨rfl, by rw [Option.some.inj found]; rfl⟩

theorem indices (dyn : Bool) (PHEntries : List Elf64_Phdr) : (multiblocks dyn PHEntries).length ≤ allocated PHEntries := by
  have := blocks_length dyn (PHEntries.filter fun e => e.Placed) []
  rw [allocated, List.countP_eq_length_filter]
  simpa [multiblocks] using this

/-- What is loaded is mapped where the stretches hold it, if all is moved by the same distance. -/
theorem mapped_iff (mmap : Nat → BitVec 64) (head : Alloc) (tidy : Tidy dyn PHEntries) (sorted : Sorted PHEntries)
    (loads : loadElfMemory head = (PHEntries.filter fun e => e.p_type = PT_LOAD).map fun e => (e.p_paddr + head.delta, e.p_memsz))
    (mappings : ∀ i s, (stretches dyn PHEntries)[i]? = some s → head.multiblock[i]? = some (mmap i))
    (moved : ∀ e ∈ PHEntries, e.p_type = PT_LOAD → e.p_memsz ≠ 0 → ∀ i s, (stretches dyn PHEntries)[i]? = some s →
      head.delta = mmap i - s.home (mmap i)) :
    Mapped (allocated PHEntries) (multiblocks dyn PHEntries) head ↔
      ∀ e ∈ PHEntries, e.p_type = PT_LOAD → e.p_memsz ≠ 0 → ∃ (i : Nat) (s : Stretch),
        (stretches dyn PHEntries)[i]? = some s ∧ Inside e.p_paddr e.p_memsz (s.home (mmap i)) (s.high - s.low) := by
  have shift (a delta p home : BitVec 64) (by_delta : delta = p - home) : a + delta - p = a - home := by
    rw [by_delta]
    bv_omega
  constructor
  · intro mapped e there load full
    have range : (e.p_paddr + head.delta, e.p_memsz) ∈ loadElfMemory head := by
      rw [loads]
      exact List.mem_map.mpr ⟨e, List.mem_filter.mpr ⟨there, decide_eq_true load⟩, rfl⟩
    obtain ⟨i, b, p, found, mapping, inside⟩ := mapped.loaded _ range full
    rw [tidy.multiblocks sorted, List.getElem?_map, Option.map_eq_some_iff] at found
    obtain ⟨s, found, rfl⟩ := found
    obtain rfl := Option.some.inj (mapping.symm.trans (mappings i s found))
    refine ⟨i, s, found, ?_⟩
    rwa [Inside, shift _ _ _ _ (moved e there load full i s found)] at inside
  · intro covered
    refine ⟨?_, tidy.apart sorted, indices dyn PHEntries⟩
    intro range mem full
    rw [loads] at mem
    obtain ⟨e, there, rfl⟩ := List.mem_map.mp mem
    obtain ⟨there, load⟩ := List.mem_filter.mp there
    have load := of_decide_eq_true load
    obtain ⟨i, s, found, inside⟩ := covered e there load full
    refine ⟨i, s.block, mmap i, ?_, mappings i s found, ?_⟩
    · rw [tidy.multiblocks sorted, List.getElem?_map, found]
      rfl
    · rwa [Inside, shift _ _ _ _ (moved e there load full i s found)]

/-- All blocks are mapped, those that ask for an address there. -/
def Honoured (dyn : Bool) (mmap : Nat → BitVec 64) (PHEntries : List Elf64_Phdr) : Prop :=
  ∀ i s, (stretches dyn PHEntries)[i]? = some s → mmap i ≠ MAP_FAILED ∧ (s.low ≠ 0 → mmap i = s.low)

theorem Honoured.alloc (honoured : Honoured dyn mmap PHEntries) (tidy : Tidy dyn PHEntries) (sorted : Sorted PHEntries) :
    allocElfMemory dyn mmap PHEntries = some (some ⟨PHEntries, 0, (List.range (stretches dyn PHEntries).length).map mmap⟩) := by
  have answers : ∀ j b, ((stretches dyn PHEntries).map Stretch.block)[j]? = some b →
      mmap (0 + j) ≠ MAP_FAILED ∧ (b.offs ≠ 0 → mmap (0 + j) = b.offs) := by
    intro j b found
    rw [List.getElem?_map, Option.map_eq_some_iff] at found
    obtain ⟨s, found, rfl⟩ := found
    rw [Nat.zero_add]
    exact honoured j s found
  rw [allocElfMemory, tidy.multiblocks sorted, mapBlocks_honoured answers]
  simp

theorem Honoured.iff (honoured : Honoured dyn mmap PHEntries) (tidy : Tidy dyn PHEntries) (sorted : Sorted PHEntries) :
    AllMapped dyn mmap PHEntries ↔ Loadable dyn mmap PHEntries := by
  rw [AllMapped, honoured.alloc tidy sorted]
  have still (i : Nat) (s : Stretch) (found : (stretches dyn PHEntries)[i]? = some s) : s.home (mmap i) = mmap i := by
    by_cases null : s.low = 0
    · rw [Stretch.home, if_pos null]
    · rw [Stretch.home, if_neg null, (honoured i s found).2 null]
  have place := mapped_iff mmap ⟨PHEntries, 0, (List.range (stretches dyn PHEntries).length).map mmap⟩
    tidy sorted rfl
    (fun i s found => by
      have lt := (List.getElem?_eq_some_iff.mp found).1
      rw [List.getElem?_map, List.getElem?_range lt]
      rfl)
    (fun e _ _ _ i s found => by
      rw [still i s found, BitVec.sub_self]
      rfl)
  refine place.trans ⟨fun covered => ⟨covered, ?_⟩, Loadable.covered⟩
  intro dynamic s mem low moved
  subst dynamic
  obtain ⟨i, found⟩ := List.getElem?_of_mem mem
  obtain ⟨rfl, -⟩ := tidy.single sorted found
  exact absurd ((honoured 0 s found).2 low) moved

theorem Refused.alloc (refused : Refused dyn mmap PHEntries) (tidy : Tidy dyn PHEntries) (sorted : Sorted PHEntries) :
    allocElfMemory dyn mmap PHEntries = some none := by
  obtain ⟨i, s, found, answer⟩ := refused
  rw [allocElfMemory, tidy.multiblocks sorted]
  cases kind : dyn with
  | false =>
    subst kind
    refine mapBlocks_refused ⟨i, s.block, ?_, ?_⟩
    · rw [List.getElem?_map, found]
      rfl
    · rw [Nat.zero_add]
      exact answer.imp_right fun elsewhere => elsewhere.2
  | true =>
    subst kind
    obtain ⟨rfl, same⟩ := tidy.single sorted found
    have failed : mmap 0 = MAP_FAILED := answer.resolve_right nofun
    rw [same, List.map_singleton]
    change mapBlocks _ _ _ _ 0 [s.block] _ = _
    rw [mapBlocks, if_pos failed]


theorem filter_loads {loads others : List Elf64_Phdr} (all : ∀ e ∈ loads, e.Placed)
    (rest : ∀ e ∈ others, e.p_type ≠ PT_LOAD) : ((loads ++ others).filter fun e => e.Placed) = loads := by
  rw [List.filter_append, List.filter_eq_self.mpr, List.filter_eq_nil_iff.mpr, List.append_nil]
  · exact fun e mem placed => rest e mem (of_decide_eq_true placed).1
  · exact fun e mem => decide_eq_true (all e mem)

/-- The indices of the `PT_LOAD` entries stay below the number of those that get memory. -/
theorem loadsFirst_of_reads (reads : ∀ (k : Nat) e, PHEntries[k]? = some e → e.p_type = PT_LOAD → k < allocated PHEntries) :
    LoadsFirst PHEntries := by
  have others : ∀ e ∈ PHEntries.drop (allocated PHEntries), e.p_type ≠ PT_LOAD := by
    intro e mem load
    obtain ⟨k, found⟩ := List.getElem?_of_mem mem
    rw [List.getElem?_drop] at found
    have := reads _ e found load
    omega
  have split := (List.take_append_drop (allocated PHEntries) PHEntries).symm
  refine ⟨PHEntries.take (allocated PHEntries), PHEntries.drop (allocated PHEntries), split, ?_, others⟩
  have count : (PHEntries.take (allocated PHEntries)).countP (fun e => e.Placed) = allocated PHEntries := by
    have none : (PHEntries.drop (allocated PHEntries)).countP (fun e => e.Placed) = 0 :=
      List.countP_eq_zero.mpr fun e mem placed => others e mem (of_decide_eq_true placed).1
    have sum : (PHEntries.take (allocated PHEntries)).countP (fun e => e.Placed) +
        (PHEntries.drop (allocated PHEntries)).countP (fun e => e.Placed) = allocated PHEntries := by
      rw [← List.countP_append, List.take_append_drop, allocated]
    rwa [none, Nat.add_zero] at sum
  have all := List.countP_eq_length.mp (Nat.le_antisymm List.countP_le_length
    ((List.length_take_le _ _).trans count.ge))
  exact fun e mem => of_decide_eq_true (all e mem)

/-- The first entry is in the only block, if any is loaded. -/
theorem first_inside {last : Block} {first e : Elf64_Phdr} {loads : List Elf64_Phdr}
    (built : Built true (first :: loads) [] last) (below : ∀ e ∈ first :: loads, e.Below)
    (sorted : (first :: loads).Pairwise fun e f => e.p_vaddr.toNat ≤ f.p_vaddr.toNat) (mem : e ∈ first :: loads)
    (full : e.p_memsz ≠ 0) : first.p_vaddr ≥ last.offs ∧ first.p_vaddr < last.stop := by
  obtain ⟨b, here, low, -⟩ := built.covers first List.mem_cons_self
  obtain rfl := List.mem_singleton.mp here
  obtain ⟨c, here, -, high⟩ := built.covers e mem
  obtain rfl := List.mem_singleton.mp here
  have order : first.p_vaddr.toNat ≤ e.p_vaddr.toNat := by
    obtain rfl | later := List.mem_cons.mp mem
    · exact Nat.le_refl _
    · exact (List.pairwise_cons.mp sorted).1 e later
  have reach := Elf64_Phdr.le_bend (below e mem)
  have size : e.p_memsz.toNat ≠ 0 := fun none => full (BitVec.eq_of_toNat_eq none)
  refine ⟨BitVec.le_def.mpr low, BitVec.lt_def.mpr ?_⟩
  rw [Block.stop_toNat (built.last_top below)]
  omega

/-- A shared object is not where it was asked for. -/
structure Moved (mmap : Nat → BitVec 64) (PHEntries : List Elf64_Phdr) (s : Stretch) : Prop where
  single : stretches true PHEntries = [s]
  mapped : mmap 0 ≠ MAP_FAILED
  low : s.low ≠ 0
  elsewhere : mmap 0 ≠ s.low

variable {s : Stretch}

theorem Moved.alloc (moved : Moved mmap PHEntries s) (tidy : Tidy true PHEntries) (sorted : Sorted PHEntries) :
    allocElfMemory true mmap PHEntries = (adjust (allocated PHEntries) [s.block] (mmap 0) 0 PHEntries 0).map fun after =>
      some ⟨after.1, after.2, [mmap 0]⟩ := by
  rw [allocElfMemory, tidy.multiblocks sorted, moved.single, List.map_singleton]
  rw [mapBlocks, if_neg moved.mapped, if_pos ⟨moved.low, moved.elsewhere⟩, if_pos rfl]
  cases adjust (allocated PHEntries) [s.block] (mmap 0) 0 PHEntries 0 <;> rfl

theorem Moved.loadsFirst (moved : Moved mmap PHEntries s) (tidy : Tidy true PHEntries) (sorted : Sorted PHEntries)
    (runs : allocElfMemory true mmap PHEntries ≠ none) : LoadsFirst PHEntries := by
  rw [moved.alloc tidy sorted, ne_eq, Option.map_eq_none_iff] at runs
  refine loadsFirst_of_reads fun k e found load => ?_
  have := adjust_reads runs k e found load
  omega

/-- The distance that the loop sets, where something is loaded. -/
theorem Moved.adjusts (moved : Moved mmap PHEntries s) (tidy : Tidy true PHEntries) (sorted : Sorted PHEntries)
    (first : LoadsFirst PHEntries) : ∃ after, adjust (allocated PHEntries) [s.block] (mmap 0) 0 PHEntries 0 = some after ∧
      (∀ ps, loadElfMemory ⟨after.1, after.2, ps⟩ =
        (PHEntries.filter fun e => e.p_type = PT_LOAD).map fun e => (e.p_paddr + after.2, e.p_memsz)) ∧
      ∀ e ∈ PHEntries, e.p_type = PT_LOAD → e.p_memsz ≠ 0 → after.2 = mmap 0 - s.low := by
  obtain ⟨-, none, -⟩ | ⟨front, last, same, -, built⟩ := tidy.built sorted
  · exact absurd (moved.single.symm.trans none) nofun
  obtain rfl : front = [] := List.map_eq_nil_iff.mp (built.single rfl)
  obtain rfl : s = last := List.singleton_inj.mp (moved.single.symm.trans same)
  obtain ⟨loads, others, rfl, all, rest⟩ := first
  have below : ∀ e ∈ loads, e.Below := fun e mem => tidy.below e (List.mem_append_left _ mem) (all e mem)
  have count : allocated (loads ++ others) = loads.length := by
    rw [allocated, List.countP_eq_length_filter, filter_loads all rest]
  have placed := sorted.placed
  rw [filter_loads all rest] at built placed
  cases loads with
  | nil =>
    obtain ⟨e, mem, -⟩ := built.lows s.block (List.mem_singleton_self _)
    exact absurd mem List.not_mem_nil
  | cons first loads =>
    have load := (all first List.mem_cons_self).1
    have room : loads.length + 1 ≤ allocated (first :: (loads ++ others)) := count.ge
    change ∃ after, adjust (allocated (first :: (loads ++ others))) _ _ 0 (first :: (loads ++ others)) 0 = some after ∧ _
    by_cases inside : first.p_vaddr ≥ s.block.offs ∧ first.p_vaddr < s.block.stop
    · refine ⟨_, adjust_first load inside room rest, ?_, fun _ _ _ _ => rfl⟩
      intro ps
      simp [loadElfMemory, load]
    · refine ⟨_, adjust_outside load inside room rest, fun ps => rfl, ?_⟩
      intro e mem type full
      obtain mem | other := List.mem_append.mp mem
      · exact absurd (first_inside built below placed mem full) inside
      · exact absurd type (rest e other)

theorem Moved.iff (moved : Moved mmap PHEntries s) (tidy : Tidy true PHEntries) (sorted : Sorted PHEntries) :
    AllMapped true mmap PHEntries ↔ Loadable true mmap PHEntries := by
  have home : s.home (mmap 0) = s.low := if_neg moved.low
  have place (first : LoadsFirst PHEntries) : AllMapped true mmap PHEntries ↔
      ∀ e ∈ PHEntries, e.p_type = PT_LOAD → e.p_memsz ≠ 0 → ∃ (i : Nat) (s : Stretch),
        (stretches true PHEntries)[i]? = some s ∧ Inside e.p_paddr e.p_memsz (s.home (mmap i)) (s.high - s.low) := by
    obtain ⟨after, adjusted, loads, delta⟩ := moved.adjusts tidy sorted first
    rw [AllMapped, moved.alloc tidy sorted, adjusted]
    refine mapped_iff mmap ⟨after.1, after.2, [mmap 0]⟩ tidy sorted (loads _) ?_ ?_
    · intro i t found
      obtain ⟨rfl, -⟩ := tidy.single sorted found
      rfl
    · intro e mem type full i t found
      obtain ⟨rfl, same⟩ := tidy.single sorted found
      obtain rfl := List.singleton_inj.mp (moved.single.symm.trans same)
      rw [home]
      exact delta e mem type full
  constructor
  · intro mapped
    have runs : allocElfMemory true mmap PHEntries ≠ none := by
      intro faults
      rw [AllMapped, faults] at mapped
      exact mapped
    have first := moved.loadsFirst tidy sorted runs
    exact ⟨(place first).mp mapped, fun _ _ _ _ _ => first⟩
  · intro loadable
    refine (place (loadable.movable rfl s ?_ moved.low moved.elsewhere)).mpr loadable.covered
    rw [moved.single]
    exact List.mem_singleton_self _

end Main

/-- A load without memory of its own, inside of the only block. -/
example : Loadable true (fun _ => 0x400000) [⟨PT_LOAD, 5, 0x400000, 0x400000, 0x1000, 0x1000⟩,
    ⟨PT_LOAD, 0, 0x402000, 0x402000, 0x800, 0x1000⟩, ⟨PT_LOAD, 6, 0x404000, 0x404000, 0x800, 0x1000⟩] :=
  ⟨fun e mem _ _ => ⟨0, _, rfl, by decide +revert⟩,
    fun _ s mem _ elsewhere => absurd ((by decide : ∀ s ∈ stretches true _, (0x400000 : BitVec 64) = s.low) s mem) elsewhere⟩

end Box64.Elfs
