import Box64.Lib.Runs
import Mathlib.Data.BitVec
import Mathlib.Logic.Function.Basic

/-!
# Constructors and destructors

`RunElfInit`, `RunDeferedElfInit` and `RunElfFini` on any set of ELFs. The functions that they call may call them again,
so what is left to do of each call is a frame on a stack, and a run alternates between the code that asks and the loops.
-/

namespace Box64.Elfs

open Runs

structure Elf where
  initentry : BitVec 64
  delta : BitVec 64
  /-- What `initarray` points to, as 64-bit elements, and `finiarray` below. -/
  initarray : List (BitVec 64)
  finientry : BitVec 64
  finiarray : List (BitVec 64)

/-- An element of the array as `Elf32_Addr`: half of a 64-bit one. -/
def elf32At (addr : List (BitVec 64)) (i : Nat) : BitVec 64 :=
  (((addr.getD (i / 2) 0) >>> (32 * (i % 2))).setWidth 32).setWidth 64

/-- How many elements there are from `int i=finiarray_sz-1` down to 0. -/
def Elf.finiCount (elf : Elf) : Nat :=
  (((BitVec.ofNat 64 elf.finiarray.length - 1).setWidth 32).toInt + 1).toNat

/-- What a call has left to do. -/
inductive Frame (H : Type) where
  /-- `RunElfInit`, from `initentry` at 0 or the element `i` at `i + 1`. -/
  | init (h : H) (i : Nat)
  /-- `RunDeferedElfInit`, with the rest of its list. -/
  | flush (list : List H)
  /-- `RunElfFini`, with the elements below `i` and `finientry`. -/
  | fini (h : H) (i : Nat)
  | finished (h : H)

inductive Event (H : Type) where
  | initRequested (h : H)
  | initCalled (h : H) (p : BitVec 64)
  | initDone (h : H)
  | finiRequested (h : H)
  | finiCalled (h : H) (p : BitVec 64)

structure Loader (H : Type) where
  init_done : H → Bool
  fini_done : H → Bool
  deferedInit : Bool
  deferedInitList : List H
  frames : List (Frame H)
  /-- A function that the top frame has called is running, or the code that asks first. -/
  outside : Bool
  log : List (Event H)

inductive Request (H : Type) where
  | init (h : H)
  | runDefered
  | fini (h : H)
  /-- `deferedInit = 1`, as in `dlopen`. -/
  | defer
  /-- The function that is running returns. -/
  | ret
  | proceed

namespace Loader

variable {H : Type} [DecidableEq H] (elf : H → Elf)

def put (s : Loader H) (event : Event H) : Loader H := { s with log := s.log ++ [event] }

/-- A loop that comes to its next element, and calls it or not. -/
def callIf (s : Loader H) (frame : Frame H) (rest : List (Frame H)) (c : Prop) [Decidable c] (event : Event H) :
    Loader H :=
  if c then { s with frames := frame :: rest, log := s.log ++ [event], outside := true }
  else { s with frames := frame :: rest }

def push (s : Loader H) (frame : Frame H) : Loader H := { s with frames := frame :: s.frames, outside := false }

/-- The frame below the top one goes on, where that is the loop of `RunDeferedElfInit`. -/
def pop (s : Loader H) (rest : List (Frame H)) : Loader H where
  __ := s
  frames := rest
  outside := match rest with
    | .flush _ :: _ => false
    | _ => true

def runElfInit (s : Loader H) (h : H) : Loader H :=
  if s.init_done h then s
  else if s.deferedInit then { s with deferedInitList := s.deferedInitList ++ [h] }
  else s.push (.init h 0)

def runDeferedElfInit (s : Loader H) : Loader H :=
  if ¬ s.deferedInit then s
  else
    let s' := { s with deferedInit := false, deferedInitList := [] }
    if s.deferedInitList = [] then s' else s'.push (.flush s.deferedInitList)

def runElfFini (s : Loader H) (h : H) : Loader H :=
  if s.fini_done h then s
  else { s with fini_done := Function.update s.fini_done h true }.push (.fini h (elf h).finiCount)

/-- The top frame goes on, to the next function that it calls or one element further. -/
def proceed (s : Loader H) : Option (Loader H) :=
  match s.frames with
  | [] => none
  | .init h 0 :: rest =>
    some (s.callIf (.init h 1) rest ((elf h).initentry ≠ 0) (.initCalled h ((elf h).initentry + (elf h).delta)))
  | .init h (i + 1) :: rest =>
    match (elf h).initarray[i]? with
    | some addr => some (s.callIf (.init h (i + 2)) rest (addr ≠ 0) (.initCalled h addr))
    | none =>
      let s := { s with
        init_done := Function.update s.init_done h true, fini_done := Function.update s.fini_done h false }
      some ((s.put (.initDone h)).pop rest)
  | .flush [] :: rest => some (s.pop rest)
  | .flush (h :: list) :: rest => some (runElfInit { s with frames := .flush list :: rest } h)
  | .fini h (i + 1) :: rest => some (s.callIf (.fini h i) rest True (.finiCalled h (elf32At (elf h).finiarray i)))
  | .fini h 0 :: rest =>
    some (s.callIf (.finished h) rest ((elf h).finientry ≠ 0) (.finiCalled h ((elf h).finientry + (elf h).delta)))
  | .finished h :: rest => some ({ s with init_done := Function.update s.init_done h false }.pop rest)

def step (s : Loader H) (request : Request H) : Option (Loader H) :=
  match request with
  | .proceed => if s.outside then none else s.proceed elf
  | .ret => if s.outside ∧ s.frames ≠ [] then some { s with outside := false } else none
  | .init h => if s.outside then some ((s.put (.initRequested h)).runElfInit h) else none
  | .runDefered => if s.outside then some s.runDeferedElfInit else none
  | .fini h => if s.outside then some ((s.put (.finiRequested h)).runElfFini elf h) else none
  | .defer => if s.outside then some { s with deferedInit := true } else none

def start (deferedInit : Bool) : Loader H where
  init_done _ := false
  fini_done _ := false
  deferedInit := deferedInit
  deferedInitList := []
  frames := []
  outside := true
  log := []

end Loader

section CallIf

variable {H : Type} {s : Loader H} {frame : Frame H} {rest : List (Frame H)} {c : Prop} [Decidable c] {event : Event H}

namespace Loader

theorem callIf_frames : (s.callIf frame rest c event).frames = frame :: rest := by
  unfold callIf
  split <;> rfl

theorem callIf_init_done : (s.callIf frame rest c event).init_done = s.init_done := by
  unfold callIf
  split <;> rfl

theorem callIf_fini_done : (s.callIf frame rest c event).fini_done = s.fini_done := by
  unfold callIf
  split <;> rfl

theorem callIf_list : (s.callIf frame rest c event).deferedInitList = s.deferedInitList := by
  unfold callIf
  split <;> rfl

theorem callIf_log : (s.callIf frame rest c event).log = s.log ++ if c then [event] else [] := by
  unfold callIf
  split
  · rfl
  · exact (List.append_nil _).symm

end Loader

end CallIf

/-! ### What is promised -/

namespace Elf

/-- The constructors, in order; a null element is none. -/
def inits (elf : Elf) : List (BitVec 64) :=
  (if elf.initentry ≠ 0 then [elf.initentry + elf.delta] else []) ++ elf.initarray.filter (· ≠ 0)

def finiLast (elf : Elf) : List (BitVec 64) := if elf.finientry ≠ 0 then [elf.finientry + elf.delta] else []

/-- The destructors, in order. -/
def finis (elf : Elf) : List (BitVec 64) := elf.finiarray.reverse ++ elf.finiLast

end Elf

/-- The account of one ELF: what has happened since `RunElfFini` was last called on it, and its destructors so far. -/
structure Account where
  inits : List (BitVec 64)
  requested : Bool
  completed : Bool
  /-- How many calls of `RunElfFini` came after a completed init and no other call. -/
  served : Nat
  finis : List (BitVec 64)

section Account

variable {H : Type} [DecidableEq H]

def Account.record (h : H) (account : Account) : Event H → Account
  | .initRequested k => if k = h then { account with requested := true } else account
  | .initCalled k p => if k = h then { account with inits := account.inits ++ [p] } else account
  | .initDone k => if k = h then { account with completed := true } else account
  | .finiRequested k =>
    if k = h then
      { account with
        inits := []
        requested := false
        completed := false
        served := account.served + if account.completed then 1 else 0 }
    else account
  | .finiCalled k p => if k = h then { account with finis := account.finis ++ [p] } else account

def account (h : H) (log : List (Event H)) : Account := log.foldl (Account.record h) ⟨[], false, false, 0, []⟩

end Account

namespace Loader

variable {H : Type} [DecidableEq H] (elf : H → Elf)

/-- An init of the ELF has been put off and not been run. -/
def Pending (s : Loader H) (h : H) : Prop := h ∈ s.deferedInitList ∨ ∃ list, .flush list ∈ s.frames ∧ h ∈ list

def Initing (s : Loader H) (h : H) : Prop := ∃ i, .init h i ∈ s.frames

def Finishing (s : Loader H) (h : H) : Prop := (∃ i, .fini h i ∈ s.frames) ∨ .finished h ∈ s.frames

/-- The destructors that a call of `RunElfFini` has not come to. -/
def finisLeft (s : Loader H) (h : H) : List (BitVec 64) :=
  s.frames.flatMap fun
    | .fini k i => if k = h then ((elf h).finiarray.take i).reverse ++ (elf h).finiLast else []
    | _ => []

/-- Since `RunElfFini` was last called, the constructors of the ELF have been called in order and each at most once, and
all of them if that was asked for and is not put off or going on. The destructors have been called in order, once for
each completed init that `RunElfFini` was called after, apart from those it is about to call. -/
structure Served (s : Loader H) (h : H) : Prop where
  once : (account h s.log).inits <+: (elf h).inits
  exactly : (account h s.log).requested = true → ¬ s.Pending h → ¬ s.Initing h → (account h s.log).inits = (elf h).inits
  finis : (account h s.log).finis ++ s.finisLeft elf h =
    (List.replicate (account h s.log).served (elf h).finis).flatten

end Loader

/-- The halves of the elements, read as the elements: nothing but a first element below 2^32 may be set. -/
def Elf.FiniReads (elf : Elf) : Prop :=
  match elf.finiarray with
  | [] => True
  | first :: rest => first.toNat < 2 ^ 32 ∧ (∀ addr ∈ rest, addr = 0) ∧ rest.length < 2 ^ 31

namespace Loader

variable {H : Type} [DecidableEq H] (elf : H → Elf)

/-- `RunElfInit` comes neither while the ELF is in `RunElfFini` nor, unless it is put off, in `RunElfInit`. -/
def InitFine (s : Loader H) (h : H) : Prop := ¬ s.Finishing h ∧ (s.Initing h → s.deferedInit = true)

/-- `RunElfFini` does not come while the ELF is in `RunElfInit`, nor before the first init, and it reads the elements of
its array where it calls them. -/
def FiniFine (s : Loader H) (h : H) : Prop :=
  ¬ s.Initing h ∧ (s.init_done h = true ∨ s.fini_done h = true) ∧ (s.fini_done h = false → (elf h).FiniReads)

def Fine (s : Loader H) (request : Request H) : Prop :=
  match request with
  | .init h => s.InitFine h
  | .fini h => s.FiniFine elf h
  | .proceed =>
    match s.frames with
    | .flush (h :: _) :: _ => s.InitFine h
    | _ => True
  | _ => True

end Loader

/-! ### What an ELF goes through -/

/-- The constructors from `initentry` at 0 or the element `i` at `i + 1`. -/
def Elf.initsFrom (elf : Elf) : Nat → List (BitVec 64)
  | 0 => elf.inits
  | i + 1 => (elf.initarray.drop i).filter (· ≠ 0)

/-- The destructors below `i`, and the last one. -/
def Elf.finisFrom (elf : Elf) (i : Nat) : List (BitVec 64) := (elf.finiarray.take i).reverse ++ elf.finiLast

section Calls

variable {elf : Elf} {i : Nat}

theorem Elf.initsFrom_zero : elf.initsFrom 0 =
    (if elf.initentry ≠ 0 then [elf.initentry + elf.delta] else []) ++ elf.initsFrom 1 := rfl

theorem Elf.initsFrom_some {addr : BitVec 64} (here : elf.initarray[i]? = some addr) :
    elf.initsFrom (i + 1) = (if addr ≠ 0 then [addr] else []) ++ elf.initsFrom (i + 2) := by
  obtain ⟨lt, rfl⟩ := List.getElem?_eq_some_iff.mp here
  rw [initsFrom, initsFrom, List.drop_eq_getElem_cons lt, List.filter_cons]
  by_cases null : elf.initarray[i] = 0#64
  · simp [null]
  · simp [null]

theorem Elf.initsFrom_none (past : elf.initarray[i]? = none) : elf.initsFrom (i + 1) = [] := by
  rw [initsFrom, List.drop_eq_nil_of_le (List.getElem?_eq_none_iff.mp past)]
  rfl

theorem getD_null {rest : List (BitVec 64)} (null : ∀ addr ∈ rest, addr = 0) : rest.getD i 0 = 0 := by
  rw [List.getD_eq_getElem?_getD]
  cases found : rest[i]? with
  | none => rfl
  | some addr => exact null addr (List.mem_of_getElem? found)

theorem elf32At_cons {first : BitVec 64} {rest : List (BitVec 64)} (low : first.toNat < 2 ^ 32)
    (null : ∀ addr ∈ rest, addr = 0) : elf32At (first :: rest) i = (first :: rest).getD i 0 := by
  unfold elf32At
  match i with
  | 0 =>
    apply BitVec.eq_of_toNat_eq
    simp
    omega
  | 1 =>
    rw [List.getD_cons_succ, getD_null null]
    apply BitVec.eq_of_toNat_eq
    simp [Nat.shiftRight_eq_div_pow]
    omega
  | i + 2 =>
    have half : (i + 2) / 2 = i / 2 + 1 := by omega
    rw [half, List.getD_cons_succ, List.getD_cons_succ, getD_null null, getD_null null]
    simp

theorem Elf.elf32At_eq (reads : elf.FiniReads) (lt : i < elf.finiarray.length) :
    elf32At elf.finiarray i = elf.finiarray.getD i 0 := by
  unfold FiniReads at reads
  split at reads
  · rename_i empty
    simp [empty] at lt
  · rename_i first rest array
    rw [array]
    exact elf32At_cons reads.1 reads.2.1

theorem Elf.finiCount_eq (reads : elf.FiniReads) : elf.finiCount = elf.finiarray.length := by
  unfold FiniReads at reads
  split at reads
  · rename_i empty
    rw [finiCount, empty]
    decide
  · rename_i first rest array
    have count : BitVec.ofNat 64 (rest.length + 1) - 1 = BitVec.ofNat 64 rest.length := by
      rw [BitVec.ofNat_add]
      exact BitVec.add_sub_cancel ..
    rw [finiCount, array, List.length_cons, count, BitVec.toInt_eq_toNat_of_lt]
    · simp
      omega
    · simp
      omega

theorem Elf.finisFrom_succ (reads : elf.FiniReads) (lt : i < elf.finiarray.length) :
    elf.finisFrom (i + 1) = elf32At elf.finiarray i :: elf.finisFrom i := by
  rw [finisFrom, finisFrom, List.take_add_one, List.reverse_append, elf32At_eq reads lt, List.getElem?_eq_getElem lt,
    List.getD_eq_getElem?_getD, List.getElem?_eq_getElem lt]
  rfl

end Calls

namespace Loader

variable {H : Type} [DecidableEq H]

def owned (h : H) : Frame H → Bool
  | .init k _ => k = h
  | .flush _ => false
  | .fini k _ => k = h
  | .finished k => k = h

/-- The frames of an ELF. -/
def own (s : Loader H) (h : H) : List (Frame H) := s.frames.filter (owned h)

variable (elf : H → Elf)

/-- Where an ELF is, if `pending` holds while an init that was asked for has not begun. -/
inductive Phase (s : Loader H) (h : H) (pending : Prop) : Prop where
  | idle (frames : s.own h = []) (done : s.init_done h = false) (inits : (account h s.log).inits = [])
      (completed : (account h s.log).completed = false) (requested : (account h s.log).requested = true → pending)
      (finis : (account h s.log).finis = (List.replicate (account h s.log).served (elf h).finis).flatten)
  | initing (i : Nat) (frames : s.own h = [.init h i]) (done : s.init_done h = false)
      (inits : (account h s.log).inits ++ (elf h).initsFrom i = (elf h).inits)
      (completed : (account h s.log).completed = false)
      (finis : (account h s.log).finis = (List.replicate (account h s.log).served (elf h).finis).flatten)
  | inited (frames : s.own h = []) (done : s.init_done h = true) (open_ : s.fini_done h = false)
      (inits : (account h s.log).inits = (elf h).inits) (completed : (account h s.log).completed = true)
      (finis : (account h s.log).finis = (List.replicate (account h s.log).served (elf h).finis).flatten)
  | finiing (i : Nat) (frames : s.own h = [.fini h i]) (done : s.init_done h = true) (closed : s.fini_done h = true)
      (inits : (account h s.log).inits = []) (completed : (account h s.log).completed = false)
      (requested : (account h s.log).requested = false) (reads : (elf h).FiniReads) (le : i ≤ (elf h).finiarray.length)
      (finis : (account h s.log).finis ++ (elf h).finisFrom i =
        (List.replicate (account h s.log).served (elf h).finis).flatten)
  | finished (frames : s.own h = [.finished h]) (done : s.init_done h = true) (closed : s.fini_done h = true)
      (inits : (account h s.log).inits = []) (completed : (account h s.log).completed = false)
      (requested : (account h s.log).requested = false)
      (finis : (account h s.log).finis = (List.replicate (account h s.log).served (elf h).finis).flatten)

variable {elf} {s s' : Loader H} {h k : H} {pending pending' : Prop}

theorem Phase.congr (phase : s.Phase elf h pending) (frames : s'.own h = s.own h)
    (done : s'.init_done h = s.init_done h) (fini : s'.fini_done h = s.fini_done h)
    (log : account h s'.log = account h s.log) (pends : pending → pending') : s'.Phase elf h pending' := by
  cases phase with
  | idle f d i c r l => exact .idle (frames.trans f) (done.trans d) (log ▸ i) (log ▸ c) (fun q => pends (r (log ▸ q))) (log ▸ l)
  | initing j f d i c l => exact .initing j (frames.trans f) (done.trans d) (log ▸ i) (log ▸ c) (log ▸ l)
  | inited f d o i c l => exact .inited (frames.trans f) (done.trans d) (fini.trans o) (log ▸ i) (log ▸ c) (log ▸ l)
  | finiing j f d o i c r e le l =>
    exact .finiing j (frames.trans f) (done.trans d) (fini.trans o) (log ▸ i) (log ▸ c) (log ▸ r) e le (log ▸ l)
  | finished f d o i c r l =>
    exact .finished (frames.trans f) (done.trans d) (fini.trans o) (log ▸ i) (log ▸ c) (log ▸ r) (log ▸ l)

theorem account_append (log : List (Event H)) (event : Event H) :
    account h (log ++ [event]) = (account h log).record h event := by
  rw [account, List.foldl_append]
  rfl

theorem mem_own {f : Frame H} : f ∈ s.own h ↔ f ∈ s.frames ∧ owned h f = true := List.mem_filter

theorem initing_iff : s.Initing h ↔ ∃ i, .init h i ∈ s.own h := by
  simp [Initing, mem_own, owned]

theorem finishing_iff : s.Finishing h ↔ (∃ i, .fini h i ∈ s.own h) ∨ .finished h ∈ s.own h := by
  simp [Finishing, mem_own, owned]

theorem not_initing (apart : s.own h = []) : ¬ s.Initing h := by
  simp [initing_iff, apart]

theorem not_finishing (apart : s.own h = []) : ¬ s.Finishing h := by
  simp [finishing_iff, apart]

theorem finisLeft_eq : s.finisLeft elf h = (s.own h).flatMap fun
    | .fini _ i => (elf h).finisFrom i
    | _ => [] := by
  unfold finisLeft own
  induction s.frames with
  | nil => rfl
  | cons f rest ih =>
    rw [List.flatMap_cons, List.filter_cons, ih]
    cases f with
    | flush list => rfl
    | init j i => by_cases same : j = h <;> simp [owned, same]
    | finished j => by_cases same : j = h <;> simp [owned, same]
    | fini j i => by_cases same : j = h <;> simp [owned, same, Elf.finisFrom]

theorem Phase.served (phase : s.Phase elf h (s.Pending h)) : s.Served elf h := by
  cases phase with
  | idle frames done inits completed requested finis =>
    refine ⟨?_, ?_, ?_⟩
    · rw [inits]
      exact List.nil_prefix
    · intro asked settled
      exact absurd (requested asked) settled
    · rw [finisLeft_eq, frames, List.flatMap_nil, List.append_nil, finis]
  | initing i frames done inits completed finis =>
    refine ⟨?_, ?_, ?_⟩
    · exact ⟨_, inits⟩
    · intro asked settled finished
      exact absurd (initing_iff.mpr ⟨i, frames ▸ List.mem_singleton_self _⟩) finished
    · rw [finisLeft_eq, frames, List.flatMap_singleton, List.append_nil, finis]
  | inited frames done open_ inits completed finis =>
    refine ⟨?_, ?_, ?_⟩
    · rw [inits]
    · exact fun _ _ _ => inits
    · rw [finisLeft_eq, frames, List.flatMap_nil, List.append_nil, finis]
  | finiing i frames done closed inits completed requested reads le finis =>
    refine ⟨?_, ?_, ?_⟩
    · rw [inits]
      exact List.nil_prefix
    · intro asked
      exact absurd (asked.symm.trans requested) nofun
    · rw [finisLeft_eq, frames, List.flatMap_singleton, finis]
  | finished frames done closed inits completed requested finis =>
    refine ⟨?_, ?_, ?_⟩
    · rw [inits]
      exact List.nil_prefix
    · intro asked
      exact absurd (asked.symm.trans requested) nofun
    · rw [finisLeft_eq, frames, List.flatMap_singleton, List.append_nil, finis]

theorem owned_init {i : Nat} : owned h (.init h i) = true := decide_eq_true rfl

theorem owned_fini {i : Nat} : owned h (.fini h i) = true := decide_eq_true rfl

theorem owned_finished : owned h (.finished h) = true := decide_eq_true rfl

theorem own_push {f : Frame H} (owns : owned h f = true) : (s.push f).own h = f :: s.own h :=
  List.filter_cons_of_pos owns

theorem own_push_other {f : Frame H} (other : ¬ owned h f = true) : (s.push f).own h = s.own h :=
  List.filter_cons_of_neg other

theorem phase_runElfInit (phase : s.Phase elf h pending) (fine : s.InitFine h) :
    (s.runElfInit h).Phase elf h ((s.runElfInit h).Pending h) := by
  obtain ⟨settled, putOff⟩ := fine
  unfold runElfInit
  cases phase with
  | idle frames done inits completed requested finis =>
    rw [done, if_neg Bool.false_ne_true]
    split
    · exact .idle frames done inits completed (fun _ => .inl (by simp)) finis
    · refine .initing 0 ?_ done ?_ completed finis
      · rw [own_push owned_init, frames]
      · rw [show (account h (s.push (.init h 0)).log).inits = [] from inits]
        rfl
  | initing i frames done inits completed finis =>
    have deferred := putOff (initing_iff.mpr ⟨i, frames ▸ List.mem_singleton_self _⟩)
    rw [done, if_neg Bool.false_ne_true, if_pos deferred]
    exact .initing i frames done inits completed finis
  | inited frames done open_ inits completed finis =>
    rw [if_pos done]
    exact .inited frames done open_ inits completed finis
  | finiing i frames =>
    exact absurd (finishing_iff.mpr (.inl ⟨i, frames ▸ List.mem_singleton_self _⟩)) settled
  | finished frames =>
    exact absurd (finishing_iff.mpr (.inr (frames ▸ List.mem_singleton_self _))) settled

theorem phase_initRequested (settled : ¬ s.Finishing h) (phase : s.Phase elf h pending) :
    (s.put (.initRequested h)).Phase elf h True := by
  have log : account h (s.put (.initRequested h)).log = { account h s.log with requested := true } :=
    (account_append _ _).trans (if_pos rfl)
  cases phase with
  | idle frames done inits completed requested finis =>
    exact .idle frames done (by rw [log, inits]) (by rw [log, completed]) (fun _ => trivial) (by rw [log, finis])
  | initing i frames done inits completed finis =>
    exact .initing i frames done (by rw [log, inits]) (by rw [log, completed]) (by rw [log, finis])
  | inited frames done open_ inits completed finis =>
    exact .inited frames done open_ (by rw [log, inits]) (by rw [log, completed]) (by rw [log, finis])
  | finiing i frames =>
    exact absurd (finishing_iff.mpr (.inl ⟨i, frames ▸ List.mem_singleton_self _⟩)) settled
  | finished frames =>
    exact absurd (finishing_iff.mpr (.inr (frames ▸ List.mem_singleton_self _))) settled

theorem phase_runElfInit_other (other : k ≠ h) (phase : s.Phase elf k (s.Pending k)) :
    (s.runElfInit h).Phase elf k ((s.runElfInit h).Pending k) := by
  unfold runElfInit
  split
  · exact phase
  split
  · refine phase.congr rfl rfl rfl rfl ?_
    rintro (listed | ⟨list, frame, mem⟩)
    · exact .inl (List.mem_append_left _ listed)
    · exact .inr ⟨list, frame, mem⟩
  · refine phase.congr ?_ rfl rfl rfl ?_
    · exact own_push_other (by simpa [owned] using other.symm)
    · rintro (listed | ⟨list, frame, mem⟩)
      · exact .inl listed
      · exact .inr ⟨list, List.mem_cons_of_mem _ frame, mem⟩

/-- An event of one ELF is not in the account of another. -/
theorem account_other {event : Event H} (other : ∀ account : Account, account.record k event = account) :
    account k (s.put event).log = account k s.log := (account_append s.log event).trans (other _)

theorem phase_runElfFini (phase : s.Phase elf h (s.Pending h)) (fine : s.FiniFine elf h) :
    ((s.put (.finiRequested h)).runElfFini elf h).Phase elf h
      (((s.put (.finiRequested h)).runElfFini elf h).Pending h) := by
  obtain ⟨settled, begun, reads⟩ := fine
  have log : account h (s.put (.finiRequested h)).log =
      { account h s.log with
        inits := []
        requested := false
        completed := false
        served := (account h s.log).served + if (account h s.log).completed then 1 else 0 } := by
    refine (account_append s.log _).trans ?_
    simp [Account.record]
  unfold runElfFini
  cases phase with
  | idle frames done inits completed requested finis =>
    have closed : s.fini_done h = true := begun.resolve_left (by simp [done])
    rw [completed] at log
    have closed' : (s.put (.finiRequested h)).fini_done h = true := closed
    rw [if_pos closed']
    exact .idle frames done (by rw [log]) (by rw [log]) (by simp [log]) (by rw [log]; exact finis)
  | initing i frames =>
    exact absurd (initing_iff.mpr ⟨i, frames ▸ List.mem_singleton_self _⟩) settled
  | inited frames done open_ inits completed finis =>
    rw [completed] at log
    have open' : (s.put (.finiRequested h)).fini_done h ≠ true := by
      rw [show (s.put (.finiRequested h)).fini_done h = false from open_]
      exact Bool.false_ne_true
    have readable := reads open_
    rw [if_neg open']
    refine .finiing _ ?_ done (Function.update_self ..) ?_ ?_ ?_ readable (Elf.finiCount_eq readable).le ?_
    · rw [own_push owned_fini]
      exact congrArg _ frames
    · exact congrArg Account.inits log
    · exact congrArg Account.completed log
    · exact congrArg Account.requested log
    · refine (congrArg (fun account : Account => account.finis ++ _) log).trans ?_
      refine Eq.trans ?_ (congrArg (fun account : Account =>
        (List.replicate account.served (elf h).finis).flatten) log).symm
      rw [Elf.finiCount_eq readable, Elf.finisFrom, List.take_length, if_pos rfl, List.replicate_succ', List.flatten_append,
        List.flatten_singleton, finis]
      rfl
  | finiing i frames done closed inits completed requested readable le finis =>
    have closed' : (s.put (.finiRequested h)).fini_done h = true := closed
    rw [completed] at log
    rw [if_pos closed']
    exact .finiing i frames done closed (by rw [log]) (by rw [log]) (by rw [log]) readable le (by rw [log]; exact finis)
  | finished frames done closed inits completed requested finis =>
    have closed' : (s.put (.finiRequested h)).fini_done h = true := closed
    rw [completed] at log
    rw [if_pos closed']
    exact .finished frames done closed (by rw [log]) (by rw [log]) (by rw [log]) (by rw [log]; exact finis)

theorem phase_runElfFini_other (other : k ≠ h) (phase : s.Phase elf k (s.Pending k)) :
    ((s.put (.finiRequested h)).runElfFini elf h).Phase elf k
      (((s.put (.finiRequested h)).runElfFini elf h).Pending k) := by
  have log : account k (s.put (.finiRequested h)).log = account k s.log :=
    account_other fun _ => if_neg other.symm
  unfold runElfFini
  split
  · exact phase.congr rfl rfl rfl log id
  · refine phase.congr ?_ rfl (Function.update_of_ne other ..) log ?_
    · exact own_push_other (by simpa [owned] using other.symm)
    · rintro (listed | ⟨list, frame, mem⟩)
      · exact .inl listed
      · exact .inr ⟨list, List.mem_cons_of_mem _ frame, mem⟩

/-- The frames below the top one of an ELF are not its own. -/
theorem own_rest {f : Frame H} {rest : List (Frame H)} (frames : s.frames = f :: rest) (owns : owned h f = true)
    {g : Frame H} (one : s.own h = [g]) : g = f ∧ rest.filter (owned h) = [] := by
  rw [own, frames, List.filter_cons_of_pos owns, List.cons.injEq] at one
  exact ⟨one.1.symm, one.2⟩

theorem own_ne_nil {f : Frame H} {rest : List (Frame H)} (frames : s.frames = f :: rest) (owns : owned h f = true) :
    s.own h ≠ [] := by
  rw [own, frames, List.filter_cons_of_pos owns]
  exact List.cons_ne_nil _ _

/-- The top frame gives way to others of its ELF. -/
theorem phase_below {f : Frame H} {rest : List (Frame H)} (frames : s.frames = f :: rest) (other : ¬ owned k f = true)
    (plain : ∀ list, f = .flush list → k ∉ list) (phase : s.Phase elf k (s.Pending k))
    (own' : s'.own k = rest.filter (owned k)) (kept : ∀ g ∈ rest, g ∈ s'.frames)
    (list : s'.deferedInitList = s.deferedInitList) (done : s'.init_done k = s.init_done k)
    (fini : s'.fini_done k = s.fini_done k) (log : account k s'.log = account k s.log) :
    s'.Phase elf k (s'.Pending k) := by
  refine phase.congr ?_ done fini log ?_
  · rw [own', own, frames, List.filter_cons_of_neg other]
  · rintro (listed | ⟨l, frame, mem⟩)
    · exact .inl (list ▸ listed)
    · rw [frames, List.mem_cons] at frame
      obtain top | below := frame
      · exact absurd mem (plain l top.symm)
      · exact .inr ⟨l, kept _ below, mem⟩

/-! ### The loops -/

section Loops

variable {i j : Nat} {rest : List (Frame H)} {c : Prop} [Decidable c] {p : BitVec 64}

variable {frame : Frame H} {event : Event H}

theorem account_callIf : account h (s.callIf frame rest c event).log =
    if c then (account h s.log).record h event else account h s.log := by
  rw [callIf_log]
  split
  · exact account_append _ _
  · rw [List.append_nil]

theorem own_callIf (owns : owned h frame = true) (below : rest.filter (owned h) = []) :
    (s.callIf frame rest c event).own h = [frame] := by
  rw [own, callIf_frames, List.filter_cons_of_pos owns, below]

/-- The ELFs other than the one that the loop is about. -/
theorem phase_callIf_other {f : Frame H} (frames : s.frames = f :: rest) (top : ¬ owned k f = true)
    (plain : ∀ list, f ≠ .flush list) (next : ¬ owned k frame = true)
    (apart : (account k s.log).record k event = account k s.log) (phase : s.Phase elf k (s.Pending k)) :
    (s.callIf frame rest c event).Phase elf k ((s.callIf frame rest c event).Pending k) := by
  refine phase_below frames top (fun list same => absurd same (plain list)) phase ?_ ?_ callIf_list
    (congrFun callIf_init_done k) (congrFun callIf_fini_done k) ?_
  · rw [own, callIf_frames, List.filter_cons_of_neg next]
  · intro g mem
    rw [callIf_frames]
    exact List.mem_cons_of_mem _ mem
  · rw [account_callIf, apart, ite_self]

theorem account_initCalled : account h (s.callIf frame rest c (.initCalled h p)).log =
    { account h s.log with inits := (account h s.log).inits ++ if c then [p] else [] } := by
  rw [account_callIf]
  split
  · exact if_pos rfl
  · rw [List.append_nil]

theorem account_finiCalled : account h (s.callIf frame rest c (.finiCalled h p)).log =
    { account h s.log with finis := (account h s.log).finis ++ if c then [p] else [] } := by
  rw [account_callIf]
  split
  · exact if_pos rfl
  · rw [List.append_nil]

theorem phase_init_next (frames : s.frames = .init h i :: rest)
    (next : (elf h).initsFrom i = (if c then [p] else []) ++ (elf h).initsFrom j)
    (phase : s.Phase elf h pending) :
    (s.callIf (.init h j) rest c (.initCalled h p)).Phase elf h pending' := by
  cases phase with
  | idle none => exact absurd none (own_ne_nil frames owned_init)
  | inited none => exact absurd none (own_ne_nil frames owned_init)
  | finiing _ one => exact absurd (own_rest frames owned_init one).1 nofun
  | finished one => exact absurd (own_rest frames owned_init one).1 nofun
  | initing l one done inits completed finis =>
    obtain ⟨same, below⟩ := own_rest frames owned_init one
    cases same
    refine .initing j (own_callIf owned_init below) ((congrFun callIf_init_done h).trans done) ?_ ?_ ?_
    · rw [account_initCalled, List.append_assoc, ← next, inits]
    · rw [account_initCalled, completed]
    · rw [account_initCalled, finis]

theorem phase_init_done (frames : s.frames = .init h i :: rest) (past : (elf h).initsFrom i = [])
    (phase : s.Phase elf h pending) :
    (({ s with init_done := Function.update s.init_done h true, fini_done := Function.update s.fini_done h false }.put
      (.initDone h)).pop rest).Phase elf h pending' := by
  cases phase with
  | idle none => exact absurd none (own_ne_nil frames owned_init)
  | inited none => exact absurd none (own_ne_nil frames owned_init)
  | finiing _ one => exact absurd (own_rest frames owned_init one).1 nofun
  | finished one => exact absurd (own_rest frames owned_init one).1 nofun
  | initing l one done inits completed finis =>
    obtain ⟨same, below⟩ := own_rest frames owned_init one
    cases same
    have log : account h (s.log ++ [.initDone h]) = { account h s.log with completed := true } :=
      (account_append _ _).trans (if_pos rfl)
    rw [past, List.append_nil] at inits
    refine .inited below (Function.update_self ..) (Function.update_self ..) ?_ ?_ ?_
    · exact (congrArg Account.inits log).trans inits
    · exact congrArg Account.completed log
    · refine (congrArg Account.finis log).trans (finis.trans ?_)
      exact (congrArg (fun account : Account => (List.replicate account.served (elf h).finis).flatten) log).symm

theorem phase_fini_next (frames : s.frames = .fini h (i + 1) :: rest) (phase : s.Phase elf h pending) :
    (s.callIf (.fini h i) rest True (.finiCalled h (elf32At (elf h).finiarray i))).Phase elf h pending' := by
  cases phase with
  | idle none => exact absurd none (own_ne_nil frames owned_fini)
  | inited none => exact absurd none (own_ne_nil frames owned_fini)
  | initing _ one => exact absurd (own_rest frames owned_fini one).1 nofun
  | finished one => exact absurd (own_rest frames owned_fini one).1 nofun
  | finiing l one done closed inits completed requested reads le finis =>
    obtain ⟨same, below⟩ := own_rest frames owned_fini one
    cases same
    refine .finiing i (own_callIf owned_fini below) ((congrFun callIf_init_done h).trans done)
      ((congrFun callIf_fini_done h).trans closed) ?_ ?_ ?_ reads (Nat.le_of_succ_le le) ?_
    · rw [account_finiCalled, inits]
    · rw [account_finiCalled, completed]
    · rw [account_finiCalled, requested]
    · rw [account_finiCalled, if_pos trivial, List.append_assoc, ← finis, Elf.finisFrom_succ reads le]
      rfl

theorem phase_fini_last (frames : s.frames = .fini h 0 :: rest) (phase : s.Phase elf h pending) :
    (s.callIf (.finished h) rest ((elf h).finientry ≠ 0)
      (.finiCalled h ((elf h).finientry + (elf h).delta))).Phase elf h pending' := by
  cases phase with
  | idle none => exact absurd none (own_ne_nil frames owned_fini)
  | inited none => exact absurd none (own_ne_nil frames owned_fini)
  | initing _ one => exact absurd (own_rest frames owned_fini one).1 nofun
  | finished one => exact absurd (own_rest frames owned_fini one).1 nofun
  | finiing l one done closed inits completed requested reads le finis =>
    obtain ⟨same, below⟩ := own_rest frames owned_fini one
    cases same
    refine .finished (own_callIf owned_finished below) ((congrFun callIf_init_done h).trans done)
      ((congrFun callIf_fini_done h).trans closed) ?_ ?_ ?_ ?_
    · rw [account_finiCalled, inits]
    · rw [account_finiCalled, completed]
    · rw [account_finiCalled, requested]
    · rw [account_finiCalled, ← finis]
      rfl

theorem phase_finished (frames : s.frames = .finished h :: rest) (phase : s.Phase elf h pending) :
    ({ s with init_done := Function.update s.init_done h false }.pop rest).Phase elf h pending' := by
  cases phase with
  | idle none => exact absurd none (own_ne_nil frames owned_finished)
  | inited none => exact absurd none (own_ne_nil frames owned_finished)
  | initing _ one => exact absurd (own_rest frames owned_finished one).1 nofun
  | finiing _ one => exact absurd (own_rest frames owned_finished one).1 nofun
  | finished one done closed inits completed requested finis =>
    obtain ⟨-, below⟩ := own_rest frames owned_finished one
    exact .idle below (Function.update_self ..) inits completed
      (fun asked => absurd (asked.symm.trans requested) nofun) finis

end Loops

/-! ### Steps and runs -/

section Steps

variable {request : Request H}

/-- Where every ELF is in one of the phases. -/
def Sound (elf : H → Elf) (s : Loader H) : Prop := ∀ h, s.Phase elf h (s.Pending h)

theorem sound_runElfInit (sound : s.Sound elf) (fine : s.InitFine h) :
    ((s.put (.initRequested h)).runElfInit h).Sound elf := by
  intro k
  by_cases same : k = h
  · subst same
    exact phase_runElfInit (phase_initRequested fine.1 (sound k)) fine
  · refine phase_runElfInit_other same ((sound k).congr rfl rfl rfl ?_ id)
    exact account_other fun _ => if_neg (Ne.symm same)

theorem sound_runDeferedElfInit (sound : s.Sound elf) : s.runDeferedElfInit.Sound elf := by
  intro k
  unfold runDeferedElfInit
  split
  · exact sound k
  split
  · rename_i empty
    refine (sound k).congr rfl rfl rfl rfl ?_
    rintro (listed | frame)
    · rw [empty] at listed
      exact absurd listed List.not_mem_nil
    · exact .inr frame
  · refine (sound k).congr (own_push_other Bool.false_ne_true) rfl rfl rfl ?_
    rintro (listed | ⟨list, frame, mem⟩)
    · exact .inr ⟨_, List.mem_cons_self, listed⟩
    · exact .inr ⟨list, List.mem_cons_of_mem _ frame, mem⟩

theorem sound_runElfFini (sound : s.Sound elf) (fine : s.FiniFine elf h) :
    ((s.put (.finiRequested h)).runElfFini elf h).Sound elf := by
  intro k
  by_cases same : k = h
  · subst same
    exact phase_runElfFini (sound k) fine
  · exact phase_runElfFini_other same (sound k)

/-- The loop of `RunDeferedElfInit`. -/
theorem sound_flush {list rest} (frames : s.frames = .flush (h :: list) :: rest) (sound : s.Sound elf)
    (fine : s.InitFine h) : (runElfInit { s with frames := .flush list :: rest } h).Sound elf := by
  intro k
  have own_eq (k : H) : ({ s with frames := .flush list :: rest } : Loader H).own k = s.own k := by
    rw [own, own, frames]
    rfl
  by_cases same : k = h
  · subst same
    have begun : Phase elf { s with frames := .flush list :: rest } k True :=
      (sound k).congr (own_eq k) rfl rfl rfl fun _ => trivial
    refine phase_runElfInit begun ?_
    rw [InitFine, finishing_iff, initing_iff] at fine ⊢
    rw [own_eq]
    exact fine
  · refine phase_runElfInit_other same ((sound k).congr (own_eq k) rfl rfl rfl ?_)
    rintro (listed | ⟨l, frame, mem⟩)
    · exact .inl listed
    · rw [frames, List.mem_cons] at frame
      obtain top | below := frame
      · cases top
        exact .inr ⟨list, List.mem_cons_self, List.mem_of_ne_of_mem same mem⟩
      · exact .inr ⟨l, List.mem_cons_of_mem _ below, mem⟩

/-- The other ELFs, where the top frame of one is left. -/
theorem phase_pop_other {f : Frame H} {rest : List (Frame H)} (frames : s.frames = f :: rest)
    (top : ¬ owned k f = true) (plain : ∀ list, f = .flush list → k ∉ list) (done : s'.init_done k = s.init_done k)
    (fini : s'.fini_done k = s.fini_done k) (list : s'.deferedInitList = s.deferedInitList)
    (log : account k s'.log = account k s.log) (phase : s.Phase elf k (s.Pending k)) :
    (s'.pop rest).Phase elf k ((s'.pop rest).Pending k) :=
  phase_below frames top plain phase rfl (fun _ mem => mem) list done fini log

theorem sound_proceed (sound : s.Sound elf) (fine : s.Fine elf .proceed) (next : s.proceed elf = some s') :
    s'.Sound elf := by
  unfold proceed at next
  intro k
  split at next
  · cases next
  · rename_i h rest frames
    cases next
    by_cases same : k = h
    · subst same
      exact phase_init_next frames Elf.initsFrom_zero (sound k)
    · have other : ∀ i, ¬ owned k (.init h i) = true := fun i => by simpa [owned] using Ne.symm same
      exact phase_callIf_other frames (other 0) nofun (other 1) (if_neg (Ne.symm same)) (sound k)
  · rename_i h i rest frames
    have other (i : Nat) (ne : k ≠ h) : ¬ owned k (.init h i) = true := by simpa [owned] using ne.symm
    split at next
    · rename_i addr here
      cases next
      by_cases same : k = h
      · subst same
        exact phase_init_next frames (Elf.initsFrom_some here) (sound k)
      · exact phase_callIf_other frames (other _ same) nofun (other _ same) (if_neg (Ne.symm same)) (sound k)
    · rename_i past
      cases next
      by_cases same : k = h
      · subst same
        exact phase_init_done frames (Elf.initsFrom_none past) (sound k)
      · refine phase_pop_other frames (other _ same) nofun (Function.update_of_ne same ..)
          (Function.update_of_ne same ..) rfl ?_ (sound k)
        exact (account_append _ _).trans (if_neg (Ne.symm same))
  · rename_i rest frames
    cases next
    refine phase_pop_other frames Bool.false_ne_true ?_ rfl rfl rfl rfl (sound k)
    rintro _ ⟨⟩
    exact List.not_mem_nil
  · rename_i h list rest frames
    cases next
    have here : s.InitFine h := by
      rw [Fine, frames] at fine
      exact fine
    exact sound_flush frames sound here k
  · rename_i h i rest frames
    cases next
    by_cases same : k = h
    · subst same
      exact phase_fini_next frames (sound k)
    · have other : ∀ i, ¬ owned k (.fini h i) = true := fun i => by simpa [owned] using Ne.symm same
      exact phase_callIf_other frames (other _) nofun (other _) (if_neg (Ne.symm same)) (sound k)
  · rename_i h rest frames
    cases next
    by_cases same : k = h
    · subst same
      exact phase_fini_last frames (sound k)
    · have other : ¬ owned k (.fini h 0) = true := by simpa [owned] using Ne.symm same
      have last : ¬ owned k (.finished h) = true := by simpa [owned] using Ne.symm same
      exact phase_callIf_other frames other nofun last (if_neg (Ne.symm same)) (sound k)
  · rename_i h rest frames
    cases next
    by_cases same : k = h
    · subst same
      exact phase_finished frames (sound k)
    · have last : ¬ owned k (.finished h) = true := by simpa [owned] using Ne.symm same
      exact phase_pop_other frames last nofun (Function.update_of_ne same ..) rfl rfl rfl (sound k)

theorem sound_step (sound : s.Sound elf) (fine : s.Fine elf request) (next : s.step elf request = some s') :
    s'.Sound elf := by
  cases request with
  | proceed =>
    obtain ⟨-, next⟩ := Option.ite_none_left_eq_some.mp next
    exact sound_proceed sound fine next
  | ret =>
    obtain ⟨-, ⟨⟩⟩ := Option.ite_none_right_eq_some.mp next
    exact fun k => (sound k).congr rfl rfl rfl rfl id
  | init h =>
    obtain ⟨-, ⟨⟩⟩ := Option.ite_none_right_eq_some.mp next
    exact sound_runElfInit sound fine
  | runDefered =>
    obtain ⟨-, ⟨⟩⟩ := Option.ite_none_right_eq_some.mp next
    exact sound_runDeferedElfInit sound
  | fini h =>
    obtain ⟨-, ⟨⟩⟩ := Option.ite_none_right_eq_some.mp next
    exact sound_runElfFini sound fine
  | defer =>
    obtain ⟨-, ⟨⟩⟩ := Option.ite_none_right_eq_some.mp next
    exact fun k => (sound k).congr rfl rfl rfl rfl id

end Steps

end Loader

/-- In every run whose steps are fine, every ELF gets its constructors and destructors. -/
theorem served_always {H : Type} [DecidableEq H] (elf : H → Elf) (deferedInit : Bool) (requests : List (Request H))
    (fine : AllSteps (Loader.step elf) (Loader.Fine elf) (Loader.start deferedInit) requests) :
    Always (Loader.step elf) (fun s => ∀ h, s.Served elf h) (Loader.start deferedInit) requests := by
  refine always_of_allSteps (fun s (sound : Loader.Sound elf s) h => (sound h).served) ?_ ?_ requests fine
  · exact fun s request s' sound fine next => Loader.sound_step sound fine next
  · exact fun h => .idle rfl rfl rfl rfl nofun rfl

/-- One constructor and one destructor, with the init put off. -/
theorem served_always_one : Always (Loader.step fun _ : Unit => (⟨0, 0, [0x1000], 0, [0x2000]⟩ : Elf))
    (fun s => ∀ h, s.Served (fun _ => ⟨0, 0, [0x1000], 0, [0x2000]⟩) h) (Loader.start true)
    [.init (), .runDefered, .proceed, .proceed, .proceed, .ret, .proceed, .proceed, .fini (), .proceed] := by
  refine served_always _ true _ ?_
  refine .cons rfl ⟨Loader.not_finishing rfl, fun _ => rfl⟩ ?_
  refine .cons rfl trivial ?_
  refine .cons rfl ⟨Loader.not_finishing rfl, fun initing => absurd initing (Loader.not_initing rfl)⟩ ?_
  refine .cons rfl trivial (.cons rfl trivial (.cons rfl trivial (.cons rfl trivial (.cons rfl trivial ?_))))
  refine .cons rfl ⟨Loader.not_initing rfl, .inl rfl, fun _ => ⟨by decide, nofun, by decide⟩⟩ ?_
  exact .cons rfl trivial allSteps_nil

/-- Of two destructors, a null one is called for the second. -/
theorem second_destructor_lost : ¬ ∀ (elf : Unit → Elf) (deferedInit : Bool) (requests : List (Request Unit)),
    Always (Loader.step elf) (fun s => ∀ h, s.Served elf h) (Loader.start deferedInit) requests := by
  intro always
  have served := always (fun _ => ⟨0, 0, [], 0, [0x401000, 0x401010]⟩) false
    [.init (), .proceed, .proceed, .fini (), .proceed] _ (List.prefix_refl _) _ rfl ()
  exact absurd served.finis (by decide)

end Box64.Elfs
