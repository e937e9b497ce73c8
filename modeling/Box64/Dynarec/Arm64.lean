import Box64.Emu.UpdateFlags
import Box64.Lib.CarryChain

/-!
# Emitted ARM64 code

The instructions the flag computing emitters use, on a host state of the registers, the condition flags and the
fields of `x64emu_t` that hold the pending operation. `xFlags` holds the emulated flags, `xEmu` points to the
emulated state.
-/

namespace Box64.Arm64

open BitVec CarryChain Emu

/-! ### Host state -/

abbrev Reg := Fin 32

def xEmu : Reg := 0
def x1 : Reg := 1
def x2 : Reg := 2
def xRAX : Reg := 10
def xFlags : Reg := 26
def xRIP : Reg := 27
def xZR : Reg := 31

theorem guest_lt (r : Fin 16) : xRAX.val + r.val < 32 := by
  have small := r.isLt
  simp only [xRAX]
  omega

structure Nzcv where
  N : Bool
  Z : Bool
  C : Bool
  V : Bool

inductive Cond
  | cEQ
  | cNE
  | cCS
  | cCC
  | cVS
  deriving DecidableEq

def Nzcv.holds (f : Nzcv) : Cond → Bool
  | .cEQ => f.Z
  | .cNE => !f.Z
  | .cCS => f.C
  | .cCC => !f.C
  | .cVS => f.V

/-- The fields of `x64emu_t` that emitted code writes. -/
inductive EmuField
  | df
  | op1
  | op2
  | res
  deriving DecidableEq

structure Cpu where
  regs : Reg → BitVec 64
  nzcv : Nzcv
  fields : EmuField → BitVec 64

/-- What emitted code reads of the host: the parity table, one word for 32 values, at `GetParityTab()`. -/
structure Host where
  word : BitVec 64 → BitVec 32
  GetParityTab : BitVec 64
  word_parityTab : ∀ i < 8, word (GetParityTab + BitVec.ofNat 64 (4 * i)) = x86emu_parity_tab.getD i 0

/-- A host with the parity table at address 0. -/
def tableHost : Host where
  word address := x86emu_parity_tab.getD (address.toNat / 4) 0
  GetParityTab := 0
  word_parityTab := by decide

/-- The operand size of the `w` and of the `x` form of an instruction. -/
def opWidth : Bool → Width
  | false => .w32
  | true => .w64

def opSize (sf : Bool) : Nat := (opWidth sf).bits

theorem opSize_le (sf : Bool) : opSize sf ≤ 64 := (opWidth sf).bits_le

theorem opSize_pos (sf : Bool) : 0 < opSize sf := (opWidth sf).bits_pos

def Cpu.get (m : Cpu) (sf : Bool) (r : Reg) : BitVec (opSize sf) := if r = xZR then 0 else low _ (m.regs r)

/-- A `w` form clears the upper half of its destination. -/
def Cpu.set (m : Cpu) {n : Nat} (r : Reg) (v : BitVec n) : Cpu :=
  if r = xZR then m else { m with regs := Function.update m.regs r (v.setWidth 64) }

/-! ### Instructions -/

inductive Shift
  | lsl
  | lsr
  | asr
  | ror

def Shift.eval {n : Nat} : Shift → BitVec n → Nat → BitVec n
  | lsl, x, k => x <<< k
  | lsr, x, k => x >>> k
  | asr, x, k => x.sshiftRight k
  | ror, x, k => x.rotateRight k

inductive AluOp
  | ADD
  | SUB
  | ADC
  | SBC
  | AND
  | BIC
  | ORR
  | ORN
  | EOR

/-- The second operand: a register, a shifted register or a constant. -/
inductive Operand2
  | reg (rm : Reg)
  | shifted (rm : Reg) (kind : Shift) (k : Nat)
  | imm (v : BitVec 64)

inductive Inst
  /-- `MOVZw`, `MOV32w`, `MOV64x` and `MOV64xw`, the constant whole. -/
  | MOV (rd : Reg) (imm : BitVec 64)
  | alu (op : AluOp) (setFlags sf : Bool) (rd rn : Reg) (src : Operand2)
  | shift (kind : Shift) (sf : Bool) (rd rn : Reg) (k : Nat)
  | shiftv (kind : Shift) (sf : Bool) (rd rn rm : Reg)
  | BFI (sf : Bool) (rd rn : Reg) (lsb width : Nat)
  | UBFX (sf : Bool) (rd rn : Reg) (lsb width : Nat)
  | CSETw (rd : Reg) (cond : Cond)
  | CSELw (rd rn rm : Reg) (cond : Cond)
  /-- `STRB_U12`, `STRH_U12`, `STRw_U12` or `STRx_U12` at a field of the emulated state. -/
  | STR (size : Width) (rt : Reg) (field : EmuField)
  | LDRw_REG_LSL2 (rt rn rm : Reg)
  /-- A branch forward, over bytes of code counted from the branch itself. -/
  | Bcond (cond : Cond) (offset : Nat)
  /-- A branch to the end of the instruction's code. -/
  | B_NEXT (cond : Cond)

def Operand2.eval (m : Cpu) (sf : Bool) : Operand2 → BitVec (opSize sf)
  | reg rm => m.get sf rm
  | shifted rm kind k => kind.eval (m.get sf rm) k
  | imm v => low _ v

def addWithCarry {n : Nat} (x y : BitVec n) (c : Bool) : BitVec n × Nzcv :=
  let r := addc x y c
  (r, { N := r.msb, Z := r == 0, C := decide (2 ^ n ≤ x.toNat + y.toNat + c.toNat),
        V := decide (SignedOverflow n (x.toInt + y.toInt + c.toNat)) })

def logic {n : Nat} (r : BitVec n) : BitVec n × Nzcv := (r, { N := r.msb, Z := r == 0, C := false, V := false })

def AluOp.eval {n : Nat} (c : Bool) (x y : BitVec n) : AluOp → BitVec n × Nzcv
  | ADD => addWithCarry x y false
  | SUB => addWithCarry x (~~~y) true
  | ADC => addWithCarry x y c
  | SBC => addWithCarry x (~~~y) c
  | AND => logic (x &&& y)
  | BIC => logic (x &&& ~~~y)
  | ORR => logic (x ||| y)
  | ORN => logic (x ||| ~~~y)
  | EOR => logic (x ^^^ y)

/-- The low `width` bits of `y` put into `x` at `lsb`. -/
def bitfieldInsert {n : Nat} (x y : BitVec n) (lsb width : Nat) : BitVec n :=
  let mask := lowMask n width <<< lsb
  (x &&& ~~~mask) ||| ((y <<< lsb) &&& mask)

def Cpu.alu (m : Cpu) (op : AluOp) (setFlags sf : Bool) (rd rn : Reg) (src : Operand2) : Cpu :=
  let (r, f) := op.eval m.nzcv.C (m.get sf rn) (src.eval m sf)
  let m := m.set rd r
  if setFlags then { m with nzcv := f } else m

/-- The effect of an instruction that is not a branch. -/
def Inst.effect (host : Host) (m : Cpu) : Inst → Cpu
  | MOV rd imm => m.set rd imm
  | alu op setFlags sf rd rn src => m.alu op setFlags sf rd rn src
  | shift kind sf rd rn k => m.set rd (kind.eval (m.get sf rn) k)
  | shiftv kind sf rd rn rm => m.set rd (kind.eval (m.get sf rn) ((m.get sf rm).toNat % opSize sf))
  | BFI sf rd rn lsb width => m.set rd (bitfieldInsert (m.get sf rd) (m.get sf rn) lsb width)
  | UBFX sf rd rn lsb width => m.set rd ((m.get sf rn >>> lsb) &&& lowMask _ width)
  | CSETw rd cond => m.set rd (ofBool (m.nzcv.holds cond))
  | CSELw rd rn rm cond => m.set rd (if m.nzcv.holds cond then m.get false rn else m.get false rm)
  | STR size rt field =>
    { m with fields := Function.update m.fields field (setLow (m.fields field) (low size.bits (m.get true rt))) }
  | LDRw_REG_LSL2 rt rn rm => m.set rt (host.word (m.get true rn + (m.get true rm <<< 2)))
  | Bcond _ _ | B_NEXT _ => m

/-! ### Running code -/

/-- Runs code after the given number of its instructions; every instruction has four bytes. -/
def run (host : Host) : Nat → List Inst → Cpu → Cpu
  | _, [], m => m
  | skip + 1, _ :: rest, m => run host skip rest m
  | 0, .Bcond cond offset :: rest, m => run host (if m.nzcv.holds cond then offset / 4 - 1 else 0) rest m
  | 0, .B_NEXT cond :: rest, m => if m.nzcv.holds cond then m else run host 0 rest m
  | 0, i :: rest, m => run host 0 rest (i.effect host m)

def exec (host : Host) (code : List Inst) (m : Cpu) : Cpu := run host 0 code m

/-! ### Reading back what was written -/

namespace Cpu

variable (m : Cpu) {n : Nat} (r : Reg) (v : BitVec n)

theorem set_regs (real : r ≠ xZR) : (m.set r v).regs r = v.setWidth 64 := by
  rw [set, if_neg real]
  exact Function.update_self r _ _

theorem set_regs_of_ne {r q : Reg} (ne : q ≠ r) : (m.set r v).regs q = m.regs q := by
  rw [set]
  split
  case isTrue => rfl
  case isFalse => exact Function.update_of_ne ne _ _

@[simp] theorem set_nzcv : (m.set r v).nzcv = m.nzcv := by
  rw [set]
  split <;> rfl

@[simp] theorem set_fields : (m.set r v).fields = m.fields := by
  rw [set]
  split <;> rfl

theorem get_of_ne (sf : Bool) (real : r ≠ xZR) : m.get sf r = low _ (m.regs r) := if_neg real

@[simp] theorem get_xZR (sf : Bool) : m.get sf xZR = 0 := if_pos rfl

@[simp] theorem set_xZR : m.set xZR v = m := if_pos rfl

end Cpu

/-! ### Straight code -/

def Inst.isBranch : Inst → Bool
  | Bcond _ _ | B_NEXT _ => true
  | _ => false

/-- Code without branches. -/
def Straight (code : List Inst) : Prop := (code.all fun i => !i.isBranch) = true

theorem straight_cons_iff {i : Inst} {code : List Inst} :
    Straight (i :: code) ↔ i.isBranch = false ∧ Straight code := by
  rw [Straight, List.all_cons, Bool.and_eq_true, Bool.not_eq_true']
  rfl

section Exec

variable (host : Host) (m : Cpu)

@[simp] theorem exec_nil : exec host [] m = m := rfl

theorem exec_cons {i : Inst} (rest : List Inst) (straight : i.isBranch = false) :
    exec host (i :: rest) m = exec host rest (i.effect host m) := by
  cases i with
  | Bcond | B_NEXT => cases straight
  | _ => rfl

theorem exec_append {a : List Inst} (straight : Straight a) (b : List Inst) :
    exec host (a ++ b) m = exec host b (exec host a m) := by
  induction a generalizing m with
  | nil => rfl
  | cons i a ih =>
    obtain ⟨head, tail⟩ := straight_cons_iff.mp straight
    rw [List.cons_append, exec_cons host m _ head, exec_cons host m _ head]
    exact ih _ tail

end Exec

end Box64.Arm64
