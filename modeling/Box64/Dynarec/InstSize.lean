import Mathlib.Algebra.Order.Ring.Nat
import Mathlib.Data.List.Basic
import Mathlib.Tactic.Common

/-!
# From a native address back to the guest instruction

`FillBlock64` records the size of every translated instruction in `instsize`, a table of pairs of
4-bit counters, and `getX64Address` walks that table to find the guest address of a native one.
`addInst` cuts an instruction into several entries, of which only the first has a guest size; the
decoder takes a zero guest size as the sign of a continuation, and the end mark is `(0, 0)`.

`getX64Address_exact_iff` says for which native addresses the two agree.
-/

namespace Box64.Dynarec

/-- An entry of `instsize`: guest bytes and native words, four bits each. -/
structure InstSize where
  x64 : BitVec 4
  nat : BitVec 4
  deriving DecidableEq, Repr

/-- The table under construction: `size` is the number of entries written, `cap` the room allocated. -/
structure InstTable where
  insts : List InstSize
  cap : Nat
  deriving DecidableEq, Repr

def InstTable.size (table : InstTable) : Nat := table.insts.length

/-- The value a 4-bit counter takes of what is left to record. -/
def nibble (left : Nat) : BitVec 4 := if left > 15 then 15 else BitVec.ofNat 4 left

/-- The `while(toadd)` loop of `addInst`. -/
def addEntries (x64_size native_size : Nat) : Nat → List InstSize
  | 0 => []
  | toadd + 1 =>
    let entry : InstSize := { x64 := nibble x64_size, nat := nibble native_size }
    entry :: addEntries (x64_size - entry.x64.toNat) (native_size - entry.nat.toNat) toadd

def toadd (x64_size native_size : Nat) : Nat :=
  if x64_size > native_size then 1 + x64_size / 15 else 1 + native_size / 15

def addInst (table : InstTable) (x64_size native_size : Nat) : InstTable :=
  let toadd := toadd x64_size native_size
  { cap := if table.size + toadd > table.cap then table.size + toadd else table.cap
    insts := table.insts ++ addEntries x64_size native_size toadd }

/-- A translated instruction: `x64.size`, and `size`, the bytes of native code emitted for it. -/
structure Inst where
  x64_size : Nat
  size : Nat
  x64_size_pos : 1 ≤ x64_size
  x64_size_le : x64_size ≤ 15
  size_words : 4 ∣ size

/-- The room `FillBlock64` asks for before it fills the table. -/
def initialCap (insts : List Inst) : Nat :=
  insts.foldl (fun cap inst => cap + (1 + (if inst.x64_size > inst.size then inst.x64_size else inst.size) / 15)) 1

def fillInstSize (insts : List Inst) : InstTable :=
  let table := insts.foldl (fun table inst => addInst table inst.x64_size (inst.size / 4))
    { insts := [], cap := initialCap insts }
  addInst table 0 0    -- the "end of block" mark

/-- The inner loop of `getX64Address`, from `instsize[i]` on: the sizes summed up, and the entries from
the next one with a guest size. `none` is a read past the end mark. -/
def regroup (x64sz armsz : Nat) : List InstSize → Option (Nat × Nat × List InstSize)
  | entry :: next :: rest =>
    let x64sz := x64sz + entry.x64.toNat
    let armsz := armsz + entry.nat.toNat * 4
    if next.x64 = 0 then regroup x64sz armsz (next :: rest) else some (x64sz, armsz, next :: rest)
  | _ => none

theorem length_of_regroup {x64sz armsz : Nat} {entries rest : List InstSize} {x n : Nat}
    (grouped : regroup x64sz armsz entries = some (x, n, rest)) : rest.length < entries.length := by
  fun_induction regroup x64sz armsz entries with
  | case1 _ _ entry next tail _ _ _ ih => exact Nat.lt_succ_of_lt (ih grouped)
  | case2 _ _ entry next tail _ _ _ =>
    simp only [Option.some.injEq, Prod.mk.injEq] at grouped
    obtain ⟨-, -, rfl⟩ := grouped
    exact Nat.lt_succ_self _
  | case3 => nomatch grouped

/-- `uintptr_t` arithmetic. -/
def uintptrAdd (addr off : Nat) : Nat := (addr + off) % 2 ^ 64

/-- The outer loop of `getX64Address`. -/
def walkInstSize (arm_addr x64addr armaddr : Nat) (entries : List InstSize) : Option Nat :=
  match _grouped : regroup 0 0 entries with
  | none => none
  | some (x64sz, armsz, rest) =>
    if arm_addr ≥ armaddr ∧ arm_addr < uintptrAdd armaddr armsz then some x64addr
    else
      let armaddr := uintptrAdd armaddr armsz
      let x64addr := uintptrAdd x64addr x64sz
      if arm_addr = armaddr then some x64addr
      else match rest with
        | [] => none
        | entry :: rest =>
          if entry.x64 ≠ 0 ∨ entry.nat ≠ 0 then walkInstSize arm_addr x64addr armaddr (entry :: rest)
          else some x64addr
termination_by entries.length
decreasing_by exact length_of_regroup _grouped

/-- What `getX64Address` reads of a dynablock. -/
structure InstMap where
  x64_addr : Nat
  block : Nat
  instsize : List InstSize

def getX64Address (db : InstMap) (arm_addr : Nat) : Option Nat :=
  walkInstSize arm_addr db.x64_addr db.block db.instsize

/-! ### What the encoder writes -/

def endMark : InstSize := { x64 := 0, nat := 0 }

def Inst.entries (inst : Inst) : List InstSize :=
  addEntries inst.x64_size (inst.size / 4) (toadd inst.x64_size (inst.size / 4))

theorem lt_toadd (x64_size native_size : Nat) : native_size < 15 * toadd x64_size native_size := by
  unfold toadd
  split <;> omega

theorem toadd_pos (x64_size native_size : Nat) : 0 < toadd x64_size native_size := by
  unfold toadd
  split <;> omega

theorem toNat_nibble (left : Nat) : (nibble left).toNat = min left 15 := by
  unfold nibble
  split
  case isTrue more =>
    show 15 = _
    omega
  case isFalse fits =>
    rw [BitVec.toNat_ofNat]
    omega

theorem fillInstSize_insts (insts : List Inst) :
    (fillInstSize insts).insts = insts.flatMap Inst.entries ++ [endMark] := by
  have fold : ∀ (table : InstTable),
      (insts.foldl (fun table inst => addInst table inst.x64_size (inst.size / 4)) table).insts =
        table.insts ++ insts.flatMap Inst.entries := by
    induction insts with
    | nil => simp
    | cons inst insts ih =>
      intro table
      rw [List.foldl_cons, ih, List.flatMap_cons, ← List.append_assoc]
      rfl
  show InstTable.insts (List.foldl _ _ insts) ++ [endMark] = _
  rw [fold, List.nil_append]

/-! ### One group of entries -/

theorem Inst.entries_eq (inst : Inst) :
    ∃ (first : InstSize) (native_size k : Nat), inst.entries = first :: addEntries 0 native_size k ∧
      native_size ≤ 15 * k ∧ first.x64.toNat = inst.x64_size ∧
      first.nat.toNat * 4 + native_size * 4 = inst.size := by
  have words : inst.size / 4 * 4 = inst.size := Nat.div_mul_cancel inst.size_words
  have room := lt_toadd inst.x64_size (inst.size / 4)
  have x64 : (nibble inst.x64_size).toNat = inst.x64_size := by
    rw [toNat_nibble, Nat.min_eq_left inst.x64_size_le]
  obtain ⟨k, succ⟩ : ∃ k, toadd inst.x64_size (inst.size / 4) = k + 1 :=
    Nat.exists_eq_add_one.mpr (toadd_pos _ _)
  rw [succ] at room
  have nat := toNat_nibble (inst.size / 4)
  refine ⟨⟨nibble inst.x64_size, nibble (inst.size / 4)⟩, inst.size / 4 - (nibble (inst.size / 4)).toNat, k,
    ?_, ?_, x64, ?_⟩
  · rw [Inst.entries, succ, addEntries, x64, Nat.sub_self]
  · omega
  · show (nibble (inst.size / 4)).toNat * 4 + _ = _
    omega

/-- Entries with no guest size continue the group they follow, up to the next instruction. -/
theorem regroup_next (x64sz armsz native_size k : Nat) (room : native_size ≤ 15 * k)
    (entry next : InstSize) (rest : List InstSize) (starts : next.x64 ≠ 0) :
    regroup x64sz armsz (entry :: (addEntries 0 native_size k ++ next :: rest)) =
      some (x64sz + entry.x64.toNat, armsz + entry.nat.toNat * 4 + native_size * 4, next :: rest) := by
  induction k generalizing x64sz armsz native_size entry with
  | zero =>
    obtain rfl : native_size = 0 := Nat.le_zero.mp room
    show regroup _ _ (entry :: next :: rest) = _
    rw [regroup, if_neg starts, Nat.zero_mul, Nat.add_zero]
  | succ k ih =>
    have nat := toNat_nibble native_size
    have left : (nibble native_size).toNat * 4 + (native_size - (nibble native_size).toNat) * 4 =
        native_size * 4 := by omega
    show regroup _ _ (entry :: ⟨nibble 0, nibble native_size⟩ ::
      (addEntries 0 (native_size - (nibble native_size).toNat) k ++ _)) = _
    rw [regroup, if_pos (show nibble 0 = 0 by decide), ih _ _ _ (by omega)]
    show some (_ + 0, _ + (nibble native_size).toNat * 4 + _, _) = _
    rw [Nat.add_assoc (armsz + _), left, Nat.add_zero]

/-- The end mark is one more continuation: the loop runs past it. -/
theorem regroup_endMark (x64sz armsz native_size k : Nat) (entry : InstSize) :
    regroup x64sz armsz (entry :: (addEntries 0 native_size k ++ [endMark])) = none := by
  induction k generalizing x64sz armsz native_size entry with
  | zero => rfl
  | succ k ih =>
    show regroup _ _ (entry :: _ :: (addEntries 0 _ k ++ _)) = _
    rw [regroup, if_pos (show nibble 0 = 0 by decide), ih]

/-! ### The walk over the instructions -/

/-- What the outer loop returns, in terms of the instructions that were encoded. -/
def recovered (arm_addr x64addr armaddr : Nat) : List Inst → Option Nat
  | inst :: next :: rest =>
    if arm_addr ≥ armaddr ∧ arm_addr < armaddr + inst.size then some x64addr
    else if arm_addr = armaddr + inst.size then some (x64addr + inst.x64_size)
    else recovered arm_addr (x64addr + inst.x64_size) (armaddr + inst.size) (next :: rest)
  | _ => none

theorem recovered_cons {arm_addr x64addr armaddr : Nat} (inst : Inst) {insts : List Inst} (more : insts ≠ []) :
    recovered arm_addr x64addr armaddr (inst :: insts) =
      if arm_addr ≥ armaddr ∧ arm_addr < armaddr + inst.size then some x64addr
      else if arm_addr = armaddr + inst.size then some (x64addr + inst.x64_size)
      else recovered arm_addr (x64addr + inst.x64_size) (armaddr + inst.size) insts := by
  cases insts with
  | nil => exact absurd rfl more
  | cons next rest => rfl

def x64Total (insts : List Inst) : Nat := (insts.map Inst.x64_size).sum

def nativeTotal (insts : List Inst) : Nat := (insts.map Inst.size).sum

@[simp] theorem x64Total_cons (inst : Inst) (insts : List Inst) :
    x64Total (inst :: insts) = inst.x64_size + x64Total insts := List.sum_cons

@[simp] theorem nativeTotal_cons (inst : Inst) (insts : List Inst) :
    nativeTotal (inst :: insts) = inst.size + nativeTotal insts := List.sum_cons

theorem walkInstSize_past {arm_addr x64addr armaddr : Nat} {entries : List InstSize}
    (past : regroup 0 0 entries = none) : walkInstSize arm_addr x64addr armaddr entries = none := by
  rw [walkInstSize]
  split
  · rfl
  · next grouped => exact absurd (past.symm.trans grouped) (by simp)

theorem walkInstSize_group {arm_addr x64addr armaddr x n : Nat} {entries rest : List InstSize} {next : InstSize}
    (group : regroup 0 0 entries = some (x, n, next :: rest)) (starts : next.x64 ≠ 0) :
    walkInstSize arm_addr x64addr armaddr entries =
      if arm_addr ≥ armaddr ∧ arm_addr < uintptrAdd armaddr n then some x64addr
      else if arm_addr = uintptrAdd armaddr n then some (uintptrAdd x64addr x)
      else walkInstSize arm_addr (uintptrAdd x64addr x) (uintptrAdd armaddr n) (next :: rest) := by
  rw [walkInstSize]
  split
  · next grouped => exact absurd (group.symm.trans grouped) (by simp)
  · next x' n' rest' grouped =>
    obtain ⟨rfl, rfl, rfl⟩ : x = x' ∧ n = n' ∧ next :: rest = rest' := by
      simpa using group.symm.trans grouped
    simp only [if_pos (Or.inl starts : next.x64 ≠ 0 ∨ next.nat ≠ 0)]

theorem walkInstSize_eq (insts : List Inst) (arm_addr x64addr armaddr : Nat)
    (x64_fits : x64addr + x64Total insts < 2 ^ 64) (native_fits : armaddr + nativeTotal insts < 2 ^ 64)
    (some_inst : insts ≠ []) :
    walkInstSize arm_addr x64addr armaddr (insts.flatMap Inst.entries ++ [endMark]) =
      recovered arm_addr x64addr armaddr insts := by
  induction insts generalizing x64addr armaddr with
  | nil => exact absurd rfl some_inst
  | cons inst insts ih =>
    obtain ⟨first, native_size, k, entries, room, x64, nat⟩ := inst.entries_eq
    rw [List.flatMap_cons, entries]
    cases insts with
    | nil =>
      -- the loop does not stop at the end mark
      rw [List.flatMap_nil, List.append_nil, List.cons_append]
      exact walkInstSize_past (regroup_endMark 0 0 native_size k first)
    | cons next rest =>
      obtain ⟨next_first, next_size, next_k, next_entries, -, next_x64, -⟩ := next.entries_eq
      have next_starts : next_first.x64 ≠ 0 := by
        intro zero
        have pos := next.x64_size_pos
        rw [zero] at next_x64
        exact absurd next_x64 (Nat.ne_of_lt pos)
      obtain ⟨tail, shape⟩ : ∃ tail, (next :: rest).flatMap Inst.entries ++ [endMark] = next_first :: tail := by
        rw [List.flatMap_cons, next_entries]
        exact ⟨_, rfl⟩
      have group := regroup_next 0 0 native_size k room first next_first tail next_starts
      simp only [Nat.zero_add, x64, nat] at group
      simp only [x64Total_cons, nativeTotal_cons] at x64_fits native_fits
      have x64_next : uintptrAdd x64addr inst.x64_size = x64addr + inst.x64_size :=
        Nat.mod_eq_of_lt (by omega)
      have arm_next : uintptrAdd armaddr inst.size = armaddr + inst.size := Nat.mod_eq_of_lt (by omega)
      have walk := ih (x64addr + inst.x64_size) (armaddr + inst.size)
        (by simp only [x64Total_cons]; omega) (by simp only [nativeTotal_cons]; omega) (by simp)
      rw [shape] at walk
      rw [List.append_assoc, List.cons_append, shape, walkInstSize_group group next_starts, x64_next, arm_next,
        walk, recovered_cons inst (by simp)]

theorem nativeTotal_take_succ (insts : List Inst) (k : Nat) :
    nativeTotal (insts.take k) ≤ nativeTotal (insts.take (k + 1)) := by
  induction insts generalizing k with
  | nil => simp
  | cons inst insts ih =>
    cases k with
    | zero => exact Nat.zero_le _
    | succ k => simpa using ih k

theorem x64Total_take_pos (insts : List Inst) {k : Nat} (pos : 0 < k) (more : insts ≠ []) :
    0 < x64Total (insts.take k) := by
  obtain ⟨k, rfl⟩ := Nat.exists_eq_add_one.mpr pos
  cases insts with
  | nil => exact absurd rfl more
  | cons inst insts =>
    rw [List.take_succ_cons, x64Total_cons]
    exact Nat.lt_add_right _ inst.x64_size_pos

/-- When the walk is right about an address in the native code of instruction `k`: that instruction is
not the last one, unless the address ends the previous one, and the previous one, if the walk has passed
another before, has native code. -/
theorem recovered_eq_iff (insts : List Inst) (arm_addr x64addr armaddr k : Nat) (inside : k < insts.length)
    (low : armaddr + nativeTotal (insts.take k) ≤ arm_addr)
    (high : arm_addr < armaddr + nativeTotal (insts.take (k + 1))) :
    recovered arm_addr x64addr armaddr insts = some (x64addr + x64Total (insts.take k)) ↔
      (k + 1 = insts.length → 0 < k ∧ arm_addr = armaddr + nativeTotal (insts.take k)) ∧
      (arm_addr = armaddr + nativeTotal (insts.take k) →
        k ≤ 1 ∨ nativeTotal (insts.take (k - 1)) < nativeTotal (insts.take k)) := by
  induction insts generalizing x64addr armaddr k with
  | nil => simp at inside
  | cons inst insts ih =>
    by_cases more : insts = []
    · -- a single instruction is never found
      obtain rfl : k = 0 := by simpa [more] using inside
      simp [more, recovered]
    rw [recovered_cons inst more]
    have length_pos : 0 < insts.length := List.length_pos_of_ne_nil more
    cases k with
    | zero =>
      have range : arm_addr ≥ armaddr ∧ arm_addr < armaddr + inst.size := by
        simpa [nativeTotal] using And.intro low high
      simp [range, x64Total, more]
    | succ k =>
      have inside' : k < insts.length := Nat.lt_of_succ_lt_succ inside
      simp only [List.take_succ_cons, nativeTotal_cons, x64Total_cons, List.length_cons, ← Nat.add_assoc]
        at low high ⊢
      have outside : ¬(arm_addr ≥ armaddr ∧ arm_addr < armaddr + inst.size) := by omega
      rw [if_neg outside]
      by_cases starts : arm_addr = armaddr + inst.size
      · -- the walk stops in front of the second instruction
        have none_between : nativeTotal (insts.take k) = 0 := by omega
        rw [if_pos starts, none_between]
        cases k with
        | zero => simp [starts, x64Total]
        | succ k =>
          have pos : 0 < x64Total (insts.take (k + 1)) := x64Total_take_pos insts k.succ_pos more
          have before := nativeTotal_take_succ insts k
          simp only [Nat.add_sub_cancel, List.take_succ_cons, nativeTotal_cons]
          constructor
          · intro same
            have := Option.some.inj same
            exfalso
            omega
          · rintro ⟨-, right⟩
            have := right starts
            omega
      · rw [if_neg starts, ih _ _ k inside' low high]
        cases k with
        | zero => simp [nativeTotal, starts, eq_comm]
        | succ k =>
          simp only [Nat.add_sub_cancel, List.take_succ_cons, nativeTotal_cons]
          constructor
          · rintro ⟨last, right⟩
            refine ⟨fun eq => ⟨Nat.succ_pos _, (last (by omega)).2⟩, fun eq => .inr ?_⟩
            rcases right eq with first | grows
            · obtain rfl : k = 0 := by omega
              show inst.size + 0 < _
              omega
            · omega
          · rintro ⟨last, right⟩
            refine ⟨fun eq => ⟨Nat.succ_pos _, (last (by omega)).2⟩, fun eq => .inr ?_⟩
            have := right eq
            omega

/-! ### A finished block -/

/-- A block that `FillBlock64` has finished, in the address space with the guest code it translates. -/
structure Translation where
  x64_addr : Nat
  block : Nat
  insts : List Inst
  x64_fits : x64_addr + x64Total insts < 2 ^ 64
  native_fits : block + nativeTotal insts < 2 ^ 64

def Translation.instMap (t : Translation) : InstMap :=
  { x64_addr := t.x64_addr, block := t.block, instsize := (fillInstSize t.insts).insts }

/-- The guest address of instruction `k`. -/
def Translation.x64Start (t : Translation) (k : Nat) : Nat := t.x64_addr + x64Total (t.insts.take k)

/-- The native address of instruction `k`. -/
def Translation.nativeStart (t : Translation) (k : Nat) : Nat := t.block + nativeTotal (t.insts.take k)

theorem getX64Address_eq_recovered (t : Translation) (arm_addr : Nat) (more : t.insts ≠ []) :
    getX64Address t.instMap arm_addr = recovered arm_addr t.x64_addr t.block t.insts := by
  have walk := walkInstSize_eq t.insts arm_addr t.x64_addr t.block t.x64_fits t.native_fits more
  rw [← fillInstSize_insts] at walk
  exact walk

/-- `getX64Address` finds the instruction `k` that `arm_addr` belongs to, without reading past the end
mark, if and only if `k` is not the last instruction, or `arm_addr` is its first address and there is one
before it; and, where `arm_addr` is the first address of a third or later instruction, the one before it
has native code. -/
theorem getX64Address_exact_iff (t : Translation) (k arm_addr : Nat) (inst : k < t.insts.length)
    (low : t.nativeStart k ≤ arm_addr) (high : arm_addr < t.nativeStart (k + 1)) :
    getX64Address t.instMap arm_addr = some (t.x64Start k) ↔
      (k + 1 = t.insts.length → 0 < k ∧ arm_addr = t.nativeStart k) ∧
      (arm_addr = t.nativeStart k → k ≤ 1 ∨ t.nativeStart (k - 1) < t.nativeStart k) := by
  rw [getX64Address_eq_recovered t arm_addr (List.ne_nil_of_length_pos (Nat.zero_lt_of_lt inst))]
  show recovered _ _ _ _ = some (t.x64_addr + x64Total (t.insts.take k)) ↔ _
  rw [recovered_eq_iff t.insts arm_addr t.x64_addr t.block k inst low high]
  simp only [Translation.nativeStart, Nat.add_lt_add_iff_left]

/-- `push rbp; nop; pop rbp; ret`, where the `nop` has no native code. -/
def pushNopPopRet : Translation where
  x64_addr := 0x401000
  block := 0x30000000
  insts := [⟨1, 4, by decide, by decide, by decide⟩, ⟨1, 0, by decide, by decide, by decide⟩,
    ⟨1, 8, by decide, by decide, by decide⟩, ⟨1, 8, by decide, by decide, by decide⟩]
  x64_fits := by decide
  native_fits := by decide

theorem getX64Address_exact_iff_pop :
    getX64Address pushNopPopRet.instMap 0x30000008 = some 0x401002 :=
  (getX64Address_exact_iff pushNopPopRet 2 0x30000008 (by decide) (by decide) (by decide)).mpr (by decide)

/-- The first address of the `pop` is taken for the `nop`, and in the `ret` the table is read past its
end mark. -/
theorem getX64Address_not_exact :
    (pushNopPopRet.nativeStart 2 = 0x30000004 ∧ pushNopPopRet.x64Start 2 = 0x401002 ∧
      getX64Address pushNopPopRet.instMap 0x30000004 = some 0x401001) ∧
    (pushNopPopRet.nativeStart 3 = 0x3000000C ∧ pushNopPopRet.nativeStart 4 = 0x30000014 ∧
      getX64Address pushNopPopRet.instMap 0x30000010 = none) := by
  rw [getX64Address_eq_recovered _ _ (by decide), getX64Address_eq_recovered _ _ (by decide)]
  decide

end Box64.Dynarec
