import Box64.Emu.ModRm

/-!
# Operands relative to `R_RIP`

The interpreter's way from the bytes of an instruction to the case that takes its operand, and where an operand relative
to `R_RIP` is then sought: the address is made before the immediate behind it is read.
-/

namespace Box64.Emu

open BitVec Memory

abbrev Byte := BitVec 8

/-! ### Decoding -/

/-- The functions with a `switch` over opcodes. -/
inductive OpMap
  | Run
  | Run0F
  | RunF20F
  | RunF30F
  | Run66
  | Run660F
  | RunF0
  | Run66F0
  | Run64
  | Run6664
  | Run67
  | Run670F
  | Run67660F
  deriving DecidableEq

namespace OpMap

def fetch : OpMap → Encoding → Option Fetch
  | Run => Encoding.Run
  | Run0F => Encoding.Run0F
  | RunF20F => Encoding.RunF20F
  | RunF30F => Encoding.RunF30F
  | Run66 => Encoding.Run66
  | Run660F => Encoding.Run660F
  | RunF0 => Encoding.RunF0
  | Run66F0 => Encoding.Run66F0
  | Run64 => Encoding.Run64
  | Run6664 => Encoding.Run6664
  | Run67 => Encoding.Run67
  | Run670F => Encoding.Run670F
  | Run67660F => Encoding.Run67660F

/-- The opcodes after which another one is read. -/
def readsOpcode2 (map : OpMap) (opcode : Byte) : Bool :=
  match map with
  | Run0F | Run660F => opcode = 0x38 ∨ opcode = 0x3A
  | RunF0 | Run66F0 | Run64 | Run6664 => opcode = 0x0F
  | _ => false

end OpMap

/-- A case with an operand in memory, and the bytes behind `ModRM`. -/
structure Decoded where
  map : OpMap
  encoding : Encoding
  fetch : Fetch
  rest : List Byte

namespace OpMap

variable (map : OpMap) (rex : Rex) (rep : Nat)

/-- The `case` of an opcode, up to `nextop = F8`. -/
def caseOf (opcode opcode2 : Byte) : List Byte → Option Decoded
  | [] => none
  | nextop :: rest =>
    let e : Encoding := ⟨rex, rep, opcode, opcode2, nextop⟩
    if nextop &&& 0xC0 = 0xC0 then none else (map.fetch e).map fun f => ⟨map, e, f, rest⟩

/-- The `switch`, once `opcode` is read. -/
def switch (opcode : Byte) (bytes : List Byte) : Option Decoded :=
  if map.readsOpcode2 opcode then
    match bytes with
    | [] => none
    | opcode2 :: bytes => map.caseOf rex rep opcode opcode2 bytes
  else map.caseOf rex rep opcode 0 bytes

end OpMap

/-! ### Prefixes -/

/-- `while(opcode>=0x40 && opcode<=0x4f)`; the last one counts. -/
def readRex (rex : Rex) : List Byte → Rex × List Byte
  | [] => (rex, [])
  | b :: bytes => if b &&& 0xF0 = 0x40 then readRex ⟨b⟩ bytes else (rex, b :: bytes)

/-- `while((opcode==0xF2) || (opcode==0xF3))`. -/
def readRep (rep : Nat) : List Byte → Nat × List Byte
  | [] => (rep, [])
  | b :: bytes => if b = 0xF2 ∨ b = 0xF3 then readRep (b.toNat - 0xF1) bytes else (rep, b :: bytes)

theorem readRex_length (rex : Rex) (bytes : List Byte) : (readRex rex bytes).2.length ≤ bytes.length := by
  induction bytes generalizing rex with
  | nil => exact Nat.le_refl 0
  | cons b bytes ih =>
    rw [readRex]
    split
    · exact (ih ⟨b⟩).trans (Nat.le_succ _)
    · exact Nat.le_refl _

/-! ### The functions -/

def withOpcode (f : Byte → List Byte → Option Decoded) : List Byte → Option Decoded
  | [] => none
  | b :: bytes => f b bytes

def decode0F (map : OpMap) (rex : Rex) (rep : Nat) : List Byte → Option Decoded := withOpcode (map.switch rex rep)

def decode6664 (bytes : List Byte) : Option Decoded :=
  let (rex, bytes) := readRex ⟨0⟩ bytes
  withOpcode (OpMap.Run6664.switch rex 0) bytes

/-- `RunF0` and, after `0x66`, `Run66F0`, which hands on to `RunF0` with `rex.w`. -/
def decodeF0 (after66 : Bool) (bytes : List Byte) : Option Decoded :=
  match _read : readRex ⟨0⟩ bytes with
  | (_, []) => none
  | (rex, b :: rest) =>
    if after66 then if rex.w then decodeF0 false rest else OpMap.Run66F0.switch rex 0 b rest
    else if b = 0x66 then decodeF0 true rest
    else OpMap.RunF0.switch rex 0 b rest
termination_by bytes.length
decreasing_by
  all_goals
    have shorter := readRex_length ⟨0⟩ bytes
    rw [_read] at shorter
    exact shorter

def decode64 (bytes : List Byte) : Option Decoded :=
  let (rex, bytes) := readRex ⟨0⟩ bytes
  let (rep, bytes) := readRep 0 bytes
  withOpcode (fun b bytes => if b = 0x66 then decode6664 bytes else OpMap.Run64.switch rex rep b bytes) bytes

def decode66 (rep : Nat) (bytes : List Byte) : Option Decoded :=
  let bytes := bytes.dropWhile fun b => b = 0x2E ∨ b = 0x66
  let (rep, bytes) := readRep rep bytes
  let (rex, bytes) := readRex ⟨0⟩ bytes
  withOpcode (fun b bytes =>
    if b = 0x0F then decode0F .Run660F rex 0 bytes
    else if b = 0x64 then decode6664 bytes
    else if b = 0xF0 then decodeF0 true bytes
    else OpMap.Run66.switch rex rep b bytes) bytes

def decode6766 (bytes : List Byte) : Option Decoded :=
  let bytes := bytes.dropWhile fun b => b = 0x2E ∨ b = 0x66
  let (_, bytes) := readRep 0 bytes
  let (rex, bytes) := readRex ⟨0⟩ bytes
  withOpcode (fun b bytes => if b = 0x0F then decode0F .Run67660F rex 0 bytes else none) bytes

def decode67 (rep : Nat) (bytes : List Byte) : Option Decoded :=
  let bytes := bytes.dropWhile fun b => b = 0x67
  let (rex, bytes) := readRex ⟨0⟩ bytes
  let (rep, bytes) := readRep rep bytes
  withOpcode (fun b bytes =>
    if b = 0x0F then decode0F .Run670F rex rep bytes
    else if b = 0x66 then decode6766 bytes
    else OpMap.Run67.switch rex rep b bytes) bytes

/-- One pass of the loop of `Run`. -/
def decodeRun (bytes : List Byte) : Option Decoded :=
  let (rep, bytes) := readRep 0 bytes
  let bytes := bytes.dropWhile fun b => b = 0x3E
  let (rex, bytes) := readRex ⟨0⟩ bytes
  withOpcode (fun b bytes =>
    if b = 0x0F then decode0F (if rep = 1 then .RunF20F else if rep = 2 then .RunF30F else .Run0F) rex 0 bytes
    else if b = 0x64 ∨ b = 0x65 then decode64 bytes
    else if b = 0x66 then decode66 rep bytes
    else if b = 0x67 then decode67 rep bytes
    else if b = 0xF0 then decodeF0 false bytes
    else OpMap.Run.switch rex rep b bytes) bytes

/-! ### Addresses -/

section Address

variable (emu : X64Emu) (code : Memory) (rex : Rex) (m delta : BitVec 8) (R_RIP : BitVec 64)

/-- The address from the segment's `base` on, and `R_RIP` after it. -/
def GetECommonO (base : BitVec 64) : BitVec 64 × BitVec 64 :=
  if m ≤ 7 then
    if m = 4 then
      let (sib, R_RIP) := Fetch8 code R_RIP
      let (base, R_RIP) :=
        if sib &&& 7 = 5 then
          let (disp, R_RIP) := Fetch32s code R_RIP
          (base + disp.signExtend 64, R_RIP)
        else (base + emu.regs (AddressForm.regNumber sib rex.b), R_RIP)
      (base + (emu.sbiidx (AddressForm.regNumber (sib >>> 3) rex.x) <<< (sib >>> 6).toNat), R_RIP)
    else if m = 5 then
      let (disp, R_RIP) := Fetch32s code R_RIP
      (base + disp.signExtend 64 + R_RIP + delta.setWidth 64, R_RIP)
    else (base + emu.regs (AddressForm.regNumber m rex.b), R_RIP)
  else
    let (base, R_RIP) :=
      if m &&& 7 = 4 then
        let (sib, R_RIP) := Fetch8 code R_RIP
        (base + emu.regs (AddressForm.regNumber sib rex.b) +
          (emu.sbiidx (AddressForm.regNumber (sib >>> 3) rex.x) <<< (sib >>> 6).toNat), R_RIP)
      else (base + emu.regs (AddressForm.regNumber m rex.b), R_RIP)
    let (disp, R_RIP) := fetchDisp code R_RIP m
    (base + disp, R_RIP)

end Address

namespace Decoded

variable (d : Decoded) (emu : X64Emu) (code : Memory) (tlsdata R_RIP : BitVec 64)

/-- The segment's address, where the case adds it. -/
def base : BitVec 64 :=
  match d.fetch.geted with
  | .offs => tlsdata
  | .near | .near32 => 0

/-- The operand's address, and `R_RIP` once the immediate is read; `R_RIP` behind `ModRM` at first. -/
def operand : BitVec 64 × BitVec 64 :=
  let m := d.encoding.nextop &&& 0xC7
  let (ed, R_RIP) :=
    match d.fetch.geted with
    | .near => GetECommon emu code d.encoding.rex m d.fetch.delta R_RIP
    | .offs => GetECommonO emu code d.encoding.rex m d.fetch.delta R_RIP tlsdata
    | .near32 => GetECommon32O emu code d.encoding.rex m d.fetch.delta R_RIP 0
  (ed, R_RIP + BitVec.ofNat 64 d.fetch.imm.bytes)

/-- `SHLD`, `SHRD`, `PINSRW` and `PEXTRW` of `Run0F`; `SHLD`, `SHRD` and the bit tests of `Run660F`. -/
def LosesImmediate : Prop :=
  match d.map with
  | .Run0F => d.encoding.op ∈ [0xA4, 0xAC, 0xC4, 0xC5]
  | .Run660F => d.encoding.op ∈ [0xA4, 0xAC, 0xBA]
  | _ => False

end Decoded

/-! ### What is decoded is a case -/

/-- A function that decodes nothing but cases of the maps. -/
def Decodes (f : List Byte → Option Decoded) : Prop :=
  ∀ bytes d, f bytes = some d → d.map.fetch d.encoding = some d.fetch

theorem decodes_caseOf (map : OpMap) (rex : Rex) (rep : Nat) (b b2 : Byte) : Decodes (map.caseOf rex rep b b2) := by
  intro bytes d decoded
  cases bytes with
  | nil => cases decoded
  | cons nextop rest =>
    simp only [OpMap.caseOf] at decoded
    split at decoded
    · cases decoded
    · obtain ⟨f, fetch, rfl⟩ := Option.map_eq_some_iff.mp decoded
      exact fetch

theorem decodes_switch (map : OpMap) (rex : Rex) (rep : Nat) (b : Byte) : Decodes (map.switch rex rep b) := by
  intro bytes d decoded
  simp only [OpMap.switch] at decoded
  split at decoded
  · cases bytes with
    | nil => cases decoded
    | cons b2 bytes => exact decodes_caseOf map rex rep b b2 bytes d decoded
  · exact decodes_caseOf map rex rep b 0 bytes d decoded

theorem decodes_withOpcode {f : Byte → List Byte → Option Decoded} (decodes : ∀ b, Decodes (f b)) :
    Decodes (withOpcode f) := by
  intro bytes d decoded
  cases bytes with
  | nil => cases decoded
  | cons b bytes => exact decodes b bytes d decoded

theorem decodes_decodeF0 (after66 : Bool) : Decodes (decodeF0 after66) := by
  intro bytes d decoded
  fun_induction decodeF0 after66 bytes with
  | case1 => cases decoded
  | case2 =>
    rename_i ih
    exact ih decoded
  | case3 => exact decodes_switch _ _ _ _ _ d decoded
  | case4 =>
    rename_i ih
    exact ih decoded
  | case5 => exact decodes_switch _ _ _ _ _ d decoded

theorem decodes_decode0F (map : OpMap) (rex : Rex) (rep : Nat) : Decodes (decode0F map rex rep) :=
  decodes_withOpcode fun b => decodes_switch map rex rep b

theorem decodes_decode6664 : Decodes decode6664 := fun _ =>
  decodes_withOpcode (fun b => decodes_switch _ _ _ b) _

theorem decodes_decode64 : Decodes decode64 := by
  intro bytes
  refine decodes_withOpcode (fun b bytes d decoded => ?_) _
  split at decoded
  · exact decodes_decode6664 bytes d decoded
  · exact decodes_switch _ _ _ b bytes d decoded

theorem decodes_decode66 (rep : Nat) : Decodes (decode66 rep) := by
  intro bytes
  refine decodes_withOpcode (fun b bytes d decoded => ?_) _
  split at decoded
  · exact decodes_decode0F _ _ _ bytes d decoded
  split at decoded
  · exact decodes_decode6664 bytes d decoded
  split at decoded
  · exact decodes_decodeF0 true bytes d decoded
  · exact decodes_switch _ _ _ b bytes d decoded

theorem decodes_decode6766 : Decodes decode6766 := by
  intro bytes
  refine decodes_withOpcode (fun b bytes d decoded => ?_) _
  split at decoded
  · exact decodes_decode0F _ _ _ bytes d decoded
  · cases decoded

theorem decodes_decode67 (rep : Nat) : Decodes (decode67 rep) := by
  intro bytes
  refine decodes_withOpcode (fun b bytes d decoded => ?_) _
  split at decoded
  · exact decodes_decode0F _ _ _ bytes d decoded
  split at decoded
  · exact decodes_decode6766 bytes d decoded
  · exact decodes_switch _ _ _ b bytes d decoded

theorem decodes_decodeRun : Decodes decodeRun := by
  intro bytes
  refine decodes_withOpcode (fun b bytes d decoded => ?_) _
  split at decoded
  · exact decodes_decode0F _ _ _ bytes d decoded
  split at decoded
  · exact decodes_decode64 bytes d decoded
  split at decoded
  · exact decodes_decode66 _ bytes d decoded
  split at decoded
  · exact decodes_decode67 _ bytes d decoded
  split at decoded
  · exact decodes_decodeF0 false bytes d decoded
  · exact decodes_switch _ _ _ b bytes d decoded

/-! ### `delta` and the immediate -/

section Delta

/-- The byte of an operand relative to `R_RIP` is none of those `nextop` is compared with. -/
theorem nextop_ne : ∀ nextop : Byte, nextop &&& 0xC7 = 5 → nextop ≠ 0xA4 ∧ nextop ≠ 0xAC := by decide

variable {e : Encoding} {f : Fetch}

/-- `delta` counts the bytes of the immediate. -/
def Fetch.Counts (f : Fetch) : Prop := f.delta.toNat = f.imm.bytes

instance (f : Fetch) : Decidable f.Counts := inferInstanceAs (Decidable (_ = _))

theorem counts_Run (accepted : e.Run = some f) : f.Counts := by
  unfold Encoding.Run at accepted
  repeat' split at accepted
  all_goals first
    | cases accepted; rfl
    | cases accepted

theorem counts_Run0F (relative : e.nextop &&& 0xC7 = 5) (accepted : e.Run0F = some f) :
    f.Counts ↔ e.op ∉ [0xA4, 0xAC, 0xC4, 0xC5] := by
  obtain ⟨ne, ne'⟩ := nextop_ne e.nextop relative
  have shld : e.opcode = 0xA4 ↔ e.op = 0xA4 := toNat_inj.symm
  have shrd : e.opcode = 0xAC ↔ e.op = 0xAC := toNat_inj.symm
  unfold Encoding.Run0F at accepted
  simp only [if_neg ne, if_neg ne', shld, shrd] at accepted
  repeat' split at accepted
  all_goals cases accepted
  all_goals first
    | omega
    | exact iff_of_true rfl (by simp; omega)
    | exact iff_of_false (by decide) (by simp; omega)
    | exact iff_of_true rfl (by simp; exact ⟨‹_›, ‹_›, ‹_›, ‹_›⟩)

theorem counts_Run660F (relative : e.nextop &&& 0xC7 = 5) (accepted : e.Run660F = some f) :
    f.Counts ↔ e.op ∉ [0xA4, 0xAC, 0xBA] := by
  obtain ⟨ne, ne'⟩ := nextop_ne e.nextop relative
  have shld : e.opcode = 0xA4 ↔ e.op = 0xA4 := toNat_inj.symm
  have shrd : e.opcode = 0xAC ↔ e.op = 0xAC := toNat_inj.symm
  unfold Encoding.Run660F at accepted
  simp only [if_neg ne, if_neg ne', shld, shrd] at accepted
  repeat' split at accepted
  all_goals cases accepted
  all_goals first
    | omega
    | exact iff_of_true rfl (by simp; omega)
    | exact iff_of_false (by decide) (by simp; omega)
    | exact iff_of_true rfl (by simp; exact ⟨‹_›, ‹_›, ‹_›⟩)

theorem counts_RunF0 (accepted : e.RunF0 = some f) : f.Counts := by
  have long : e.opcode = 0x81 ↔ e.op = 0x81 := toNat_inj.symm
  have short : e.opcode = 0x83 ↔ e.op = 0x83 := toNat_inj.symm
  unfold Encoding.RunF0 at accepted
  simp only [long, short] at accepted
  repeat' split at accepted
  all_goals cases accepted
  all_goals first
    | omega
    | rfl

/-- The maps but for `Run0F` and `Run660F` pass the right number. -/
theorem counts_of_others {map : OpMap} (other : map ≠ .Run0F ∧ map ≠ .Run660F) (accepted : map.fetch e = some f) :
    f.Counts := by
  cases map with
  | Run => exact counts_Run accepted
  | Run0F => exact absurd rfl other.1
  | Run660F => exact absurd rfl other.2
  | RunF0 => exact counts_RunF0 accepted
  | _ =>
    simp only [OpMap.fetch, Encoding.RunF20F, Encoding.RunF30F, Encoding.Run66, Encoding.Run66F0, Encoding.Run64,
      Encoding.Run6664, Encoding.Run67, Encoding.Run670F, Encoding.Run67660F] at accepted
    repeat' split at accepted
    all_goals first
      | cases accepted; rfl
      | cases accepted

end Delta

/-! ### Where the operand is -/

namespace Decoded

variable (d : Decoded) (emu : X64Emu) (code : Memory) (tlsdata R_RIP : BitVec 64)

theorem operand_of_relative (relative : d.encoding.nextop &&& 0xC7 = 5) :
    d.operand emu code tlsdata R_RIP =
      (d.base tlsdata + (load 32 code R_RIP).signExtend 64 + (R_RIP + 4) + d.fetch.delta.setWidth 64,
        R_RIP + 4 + BitVec.ofNat 64 d.fetch.imm.bytes) := by
  rw [operand, relative, base]
  cases d.fetch.geted with
  | near => simp [GetECommon, Fetch32s]
  | offs => simp [GetECommonO, Fetch32s]
  | near32 => simp [GetECommon32O, Fetch32s]

/-- The operand is at its displacement from the next instruction just when `delta` counts the immediate. -/
theorem operand_iff (relative : d.encoding.nextop &&& 0xC7 = 5) :
    (d.operand emu code tlsdata R_RIP).1 =
        d.base tlsdata + (d.operand emu code tlsdata R_RIP).2 + (load 32 code R_RIP).signExtend 64 ↔
      d.fetch.Counts := by
  have short : d.fetch.imm.bytes < 2 ^ 64 := by cases d.fetch.imm <;> decide
  have same : d.fetch.delta.setWidth 64 = BitVec.ofNat 64 d.fetch.imm.bytes ↔ d.fetch.Counts := by
    rw [← toNat_inj, toNat_setWidth, toNat_ofNat, Nat.mod_eq_of_lt short, Fetch.Counts]
    exact ⟨fun eq => by omega, fun eq => by omega⟩
  rw [operand_of_relative d emu code tlsdata R_RIP relative, ← same]
  generalize d.fetch.delta.setWidth 64 = delta
  generalize BitVec.ofNat 64 d.fetch.imm.bytes = imm
  generalize (load 32 code R_RIP).signExtend 64 = disp
  have regroup : d.base tlsdata + (R_RIP + 4 + imm) + disp = d.base tlsdata + disp + (R_RIP + 4) + imm := by ac_rfl
  rw [regroup]
  exact add_right_inj _

theorem counts_iff (accepted : d.map.fetch d.encoding = some d.fetch) (relative : d.encoding.nextop &&& 0xC7 = 5) :
    d.fetch.Counts ↔ ¬ d.LosesImmediate := by
  rw [LosesImmediate]
  split
  next map =>
    rw [map] at accepted
    exact counts_Run0F relative accepted
  next map =>
    rw [map] at accepted
    exact counts_Run660F relative accepted
  next other other' => exact iff_of_true (counts_of_others ⟨other, other'⟩ accepted) id

/-- The operand of an instruction that `Run` decodes is at its displacement from the next instruction, that is, `delta`
counts the bytes of the immediate, but for those of `LosesImmediate`. -/
theorem ripRelative_iff {bytes : List Byte} (decoded : decodeRun bytes = some d)
    (relative : d.encoding.nextop &&& 0xC7 = 5) (start : BitVec 64) :
    let operand := d.operand emu code tlsdata (start + BitVec.ofNat 64 (bytes.length - d.rest.length))
    let disp := load 32 code (start + BitVec.ofNat 64 (bytes.length - d.rest.length))
    (operand.1 = d.base tlsdata + operand.2 + disp.signExtend 64 ↔ ¬ d.LosesImmediate) ∧
      (d.fetch.delta.toNat = d.fetch.imm.bytes ↔ ¬ d.LosesImmediate) := by
  have counts := d.counts_iff (decodes_decodeRun bytes d decoded) relative
  exact ⟨(d.operand_iff emu code tlsdata _ relative).trans counts, counts⟩

/-- `ror dword ptr [rip], 1` with its count as an immediate. -/
theorem ripRelative_iff_ror :
    ∃ d, decodeRun [0xC1, 0x0D] = some d ∧ d.fetch.delta.toNat = d.fetch.imm.bytes := by
  refine ⟨⟨.Run, ⟨⟨0⟩, 0, 0xC1, 0, 0x0D⟩, (GETE 1).before .F8, []⟩, rfl, ?_⟩
  exact (ripRelative_iff _ ⟨fun _ => 0, ⟨false, false, false, false, false, false⟩, .d_none, 0, 0, 0⟩ (fun _ => 0) 0
    (show decodeRun [0xC1, 0x0D] = some _ from rfl) (by decide) 0).2.mpr id

/-- `shld dword ptr [rip], eax, 8` looks for its operand a byte too low. -/
theorem shld_loses_immediate :
    ∃ d, decodeRun [0x0F, 0xA4, 0x05] = some d ∧ d.encoding.nextop &&& 0xC7 = 5 ∧
      (d.operand ⟨fun _ => 0, ⟨false, false, false, false, false, false⟩, .d_none, 0, 0, 0⟩ (fun _ => 0) 0 0x1003).1 ≠
        d.base 0 +
          (d.operand ⟨fun _ => 0, ⟨false, false, false, false, false, false⟩, .d_none, 0, 0, 0⟩ (fun _ => 0) 0 0x1003).2 +
          (load 32 (fun _ => 0) 0x1003).signExtend 64 := by
  refine ⟨⟨.Run0F, ⟨⟨0⟩, 0, 0xA4, 0, 0x05⟩, (GETE 0).before .F8, []⟩, rfl, by decide, fun eq => ?_⟩
  rw [operand_iff _ _ _ _ _ (by decide)] at eq
  exact absurd eq (by decide)

end Decoded

end Box64.Emu
