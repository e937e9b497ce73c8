import Box64.Emu.FlagLemmas
import Box64.Emu.ShiftFlags
import Box64.Emu.ProductFlags
import Box64.Lib.Runs

/-!
# Lazy flags against eager flags

The interpreter beside a machine that computes the flags after each instruction. At any point of a run,
`UpdateFlags` must show every flag that machine has a value for.
-/

namespace Box64.Emu

open Runs

/-- One instruction of a run: a primitive on operands of its width, or a load into a general register. -/
inductive Instruction
  | mov (r : Fin 16) (v : BitVec 64)
  | add (w : Width) (d s : BitVec w.bits)
  | sub (w : Width) (d s : BitVec w.bits)
  | and (w : Width) (d s : BitVec w.bits)
  | or (w : Width) (d s : BitVec w.bits)
  | xor (w : Width) (d s : BitVec w.bits)
  | cmp (w : Width) (d s : BitVec w.bits)
  | test (w : Width) (d s : BitVec w.bits)
  | inc (w : Width) (d : BitVec w.bits)
  | dec (w : Width) (d : BitVec w.bits)
  | neg (w : Width) (s : BitVec w.bits)
  | not (w : Width) (s : BitVec w.bits)
  | adc (w : Width) (d s : BitVec w.bits)
  | sbb (w : Width) (d s : BitVec w.bits)
  | shl (w : Width) (d : BitVec w.bits) (s : BitVec 8)
  | shr (w : Width) (d : BitVec w.bits) (s : BitVec 8)
  | sar (w : Width) (d : BitVec w.bits) (s : BitVec 8)
  | rol (w : Width) (d : BitVec w.bits) (s : BitVec 8)
  | ror (w : Width) (d : BitVec w.bits) (s : BitVec 8)
  | rcl (w : Width) (d : BitVec w.bits) (s : BitVec 8)
  | rcr (w : Width) (d : BitVec w.bits) (s : BitVec 8)
  | shld (w : Width) (wide : w ≠ .w8) (d fill : BitVec w.bits) (s : BitVec 8)
  | shrd (w : Width) (wide : w ≠ .w8) (d fill : BitVec w.bits) (s : BitVec 8)
  | mul (w : Width) (s : BitVec w.bits)
  | imulAcc (w : Width) (s : BitVec w.bits)
  | imul (w : Width) (wide : w ≠ .w8) (d s : BitVec w.bits)

namespace Instruction

/-- The state the primitive leaves; its operands are given, so its value is not kept. -/
def lazily (emu : X64Emu) : Instruction → X64Emu
  | mov r v => emu.setReg r v
  | add w d s => (Emu.add w emu d s).2
  | sub w d s => (Emu.sub w emu d s).2
  | and w d s => (Emu.and w emu d s).2
  | or w d s => (Emu.or w emu d s).2
  | xor w d s => (Emu.xor w emu d s).2
  | cmp w d s => (Emu.cmp w emu d s).2
  | test w d s => Emu.test w emu d s
  | inc w d => (Emu.inc w emu d).2
  | dec w d => (Emu.dec w emu d).2
  | neg w s => (Emu.neg w emu s).2
  | not w s => (Emu.not w emu s).2
  | adc w d s => (Emu.adc w emu d s).2
  | sbb w d s => (Emu.sbb w emu d s).2
  | shl w d s => (Emu.shl w emu d s).2
  | shr w d s => (Emu.shr w emu d s).2
  | sar w d s => (Emu.sar w emu d s).2
  | rol w d s => (Emu.rol w emu d s).2
  | ror w d s => (Emu.ror w emu d s).2
  | rcl w d s => (Emu.rcl w emu d s).2
  | rcr w d s => (Emu.rcr w emu d s).2
  | shld w _ d fill s => (Emu.shld w emu d fill s).2
  | shrd w _ d fill s => (Emu.shrd w emu d fill s).2
  | mul w s => Emu.mul w emu s
  | imulAcc w s => Emu.imulAcc w emu s
  | imul w _ d s => (Emu.imul w emu d s).2

/-- The flags of the processor after the instruction. -/
def eagerly (emu : X64Emu) (ref : EagerFlags) : Instruction → EagerFlags
  | mov _ _ | not _ _ => ref
  | add _ d s => eagerAdd ref d s false
  | sub _ d s | cmp _ d s => eagerSub ref d s false
  | and _ d s | test _ d s => eagerLogic ref (d &&& s)
  | or _ d s => eagerLogic ref (d ||| s)
  | xor _ d s => eagerLogic ref (d ^^^ s)
  | inc _ d => eagerInc ref d
  | dec _ d => eagerDec ref d
  | neg _ s => eagerSub ref 0 s false
  | adc _ d s => withCarry ref.CF fun c => eagerAdd ref d s c
  | sbb _ d s => withCarry ref.CF fun c => eagerSub ref d s c
  | shl w d s => eagerShl ref d (maskedCount w s).toNat
  | shr w d s => eagerShr ref d (maskedCount w s).toNat
  | sar w d s => eagerSar ref d (maskedCount w s).toNat
  | rol w d s => eagerRol ref d (maskedCount w s).toNat
  | ror w d s => eagerRor ref d (maskedCount w s).toNat
  | rcl w d s => eagerRcl ref d (maskedCount w s).toNat
  | rcr w d s => eagerRcr ref d (maskedCount w s).toNat
  | shld w _ d fill s => eagerShld ref d fill (maskedCount w s).toNat
  | shrd w _ d fill s => eagerShrd ref d fill (maskedCount w s).toNat
  | mul w s => eagerMul (low w.bits (emu.regs _RAX)) s
  | imulAcc w s => eagerImul (low w.bits (emu.regs _RAX)) s
  | imul _ _ d s => eagerImul d s

/-- What an instruction needs of the stored flags and of its operands. `inc` and `dec` take the stored carry for
the carry before them, a shift by 0 the stored flags for the flags before it (clearing `OF` where it goes left or
takes two operands), and `sar` by 1 leaves the stored `OF` alone. The carry of a 16-bit `shrd` by 16 is lost. -/
def Ready (emu : X64Emu) (ref : EagerFlags) : Instruction → Prop
  | inc w _ => Allows ref.CF (shrWorkaround w emu).eflags.CF
  | dec _ _ => Allows ref.CF emu.eflags.CF
  | shl w _ s | shld w _ _ _ s => (maskedCount w s).toNat = 0 → ref.Agrees { emu.eflags with OF := false }
  | shr w _ s => (maskedCount w s).toNat = 0 → ref.Agrees emu.eflags
  | sar w _ s =>
    ((maskedCount w s).toNat = 0 → ref.Agrees emu.eflags) ∧ ((maskedCount w s).toNat = 1 → emu.eflags.OF = false)
  | shrd w _ d _ s =>
    ((maskedCount w s).toNat = 0 → ref.Agrees { emu.eflags with OF := false }) ∧
      ((maskedCount w s).toNat = w.bits → d.msb = false)
  | _ => True

end Instruction

/-! ### Runs of both machines -/

structure Machines where
  emu : X64Emu
  ref : EagerFlags

/-- Both machines with the flags `UpdateFlags` gives. -/
def Machines.start (emu : X64Emu) : Machines := ⟨emu, (deferedFlags emu).toEager⟩

def Machines.step (m : Machines) (i : Instruction) : Option Machines := some ⟨i.lazily m.emu, i.eagerly m.emu m.ref⟩

/-- After `UpdateFlags` the interpreter's flags are the processor's. -/
def Machines.Shows (m : Machines) : Prop := m.ref.Agrees (updateFlags m.emu).eflags

def Machines.Ready (m : Machines) (i : Instruction) : Prop := i.Ready m.emu m.ref

theorem Machines.start_shows (emu : X64Emu) : (Machines.start emu).Shows := X64Flags.toEager_agrees _

theorem split_count {P Q : Prop} {cnt : Nat} (zero : cnt = 0 → (P ↔ Q)) (nonzero : cnt ≠ 0 → P) :
    P ↔ (cnt = 0 → Q) := by
  by_cases is_zero : cnt = 0
  · exact (zero is_zero).trans ⟨fun q _ => q, fun q => q is_zero⟩
  · exact ⟨fun _ eq => absurd eq is_zero, fun _ => nonzero is_zero⟩

section Step

variable (w : Width) (emu : X64Emu) (ref : EagerFlags) (d fill : BitVec w.bits) (s : BitVec 8)

theorem shl_agrees_iff : (eagerShl ref d (maskedCount w s).toNat).Agrees (deferedFlags (shl w emu d s).2) ↔
    ((maskedCount w s).toNat = 0 → ref.Agrees { emu.eflags with OF := false }) := by
  refine split_count ?_ (shl_agrees w emu ref d s)
  intro zero
  rw [shl_zero w emu d s zero, eagerShl, if_pos zero]

theorem shr_agrees_iff : (eagerShr ref d (maskedCount w s).toNat).Agrees (deferedFlags (shr w emu d s).2) ↔
    ((maskedCount w s).toNat = 0 → ref.Agrees emu.eflags) := by
  refine split_count ?_ (shr_agrees w emu ref d s)
  intro zero
  rw [shr_zero w emu d s zero, eagerShr, if_pos zero]

theorem shld_agrees_iff :
    (eagerShld ref d fill (maskedCount w s).toNat).Agrees (deferedFlags (shld w emu d fill s).2) ↔
      ((maskedCount w s).toNat = 0 → ref.Agrees { emu.eflags with OF := false }) := by
  refine split_count ?_ (shld_agrees w emu ref d fill s)
  intro zero
  rw [shld_zero w emu d fill s zero, eagerShld, if_pos zero]

theorem sar_agrees_iff_ready : (eagerSar ref d (maskedCount w s).toNat).Agrees (deferedFlags (sar w emu d s).2) ↔
    ((maskedCount w s).toNat = 0 → ref.Agrees emu.eflags) ∧ ((maskedCount w s).toNat = 1 → emu.eflags.OF = false) := by
  by_cases zero : (maskedCount w s).toNat = 0
  · have not_one : (maskedCount w s).toNat ≠ 1 := by omega
    rw [sar_zero w emu d s zero, eagerSar, if_pos zero]
    exact ⟨fun agrees => ⟨fun _ => agrees, fun one => absurd one not_one⟩, fun ready => ready.1 zero⟩
  · rw [sar_agrees_iff w emu ref d s zero]
    exact ⟨fun clear => ⟨fun eq => absurd eq zero, clear⟩, fun ready => ready.2⟩

theorem shrd_agrees_iff_ready :
    (eagerShrd ref d fill (maskedCount w s).toNat).Agrees (deferedFlags (shrd w emu d fill s).2) ↔
      ((maskedCount w s).toNat = 0 → ref.Agrees { emu.eflags with OF := false }) ∧
        ((maskedCount w s).toNat = w.bits → d.msb = false) := by
  have pos := w.bits_pos
  by_cases zero : (maskedCount w s).toNat = 0
  · have not_whole : (maskedCount w s).toNat ≠ w.bits := by omega
    rw [shrd_zero w emu d fill s zero, eagerShrd, if_pos zero]
    exact ⟨fun agrees => ⟨fun _ => agrees, fun whole => absurd whole not_whole⟩, fun ready => ready.1 zero⟩
  · rw [shrd_agrees_iff w emu ref d fill s zero]
    exact ⟨fun clear => ⟨fun eq => absurd eq zero, clear⟩, fun ready => ready.2⟩

end Step

/-- From agreement, an instruction keeps agreement exactly if it was ready. -/
theorem Machines.shows_iff_ready (m : Machines) (shows : m.Shows) (i : Instruction) :
    (Machines.mk (i.lazily m.emu) (i.eagerly m.emu m.ref)).Shows ↔ m.Ready i := by
  have carry := shows.CF
  cases i with
  | mov r v => exact iff_of_true shows trivial
  | not w s => exact iff_of_true shows trivial
  | add w d s => exact iff_of_true (add_agrees w m.emu m.ref d s) trivial
  | sub w d s => exact iff_of_true (sub_agrees w m.emu m.ref d s) trivial
  | and w d s => exact iff_of_true (and_agrees w m.emu m.ref d s) trivial
  | or w d s => exact iff_of_true (or_agrees w m.emu m.ref d s) trivial
  | xor w d s => exact iff_of_true (xor_agrees w m.emu m.ref d s) trivial
  | cmp w d s => exact iff_of_true (cmp_agrees w m.emu m.ref d s) trivial
  | test w d s => exact iff_of_true (test_agrees w m.emu m.ref d s) trivial
  | inc w d => exact inc_agrees_iff w m.emu m.ref d
  | dec w d => exact dec_agrees_iff w m.emu m.ref d
  | neg w s => exact iff_of_true (neg_agrees w m.emu m.ref s) trivial
  | adc w d s => exact iff_of_true (adc_agrees w m.emu m.ref d s carry) trivial
  | sbb w d s => exact iff_of_true (sbb_agrees w m.emu m.ref d s carry) trivial
  | shl w d s => exact shl_agrees_iff w m.emu m.ref d s
  | shr w d s => exact shr_agrees_iff w m.emu m.ref d s
  | sar w d s => exact sar_agrees_iff_ready w m.emu m.ref d s
  | rol w d s => exact iff_of_true (rol_agrees w m.emu m.ref d s shows) trivial
  | ror w d s => exact iff_of_true (ror_agrees w m.emu m.ref d s shows) trivial
  | rcl w d s => exact iff_of_true (rcl_agrees w m.emu m.ref d s shows) trivial
  | rcr w d s => exact iff_of_true (rcr_agrees w m.emu m.ref d s shows) trivial
  | shld w _ d fill s => exact shld_agrees_iff w m.emu m.ref d fill s
  | shrd w _ d fill s => exact shrd_agrees_iff_ready w m.emu m.ref d fill s
  | mul w s => exact iff_of_true (mul_agrees w m.emu s) trivial
  | imulAcc w s => exact iff_of_true (imulAcc_agrees w m.emu s) trivial
  | imul w _ d s => exact iff_of_true (imul_agrees w m.emu d s) trivial

/-- Lazy flags refine eager flags at every point of a run exactly if every instruction of the run found the stored
flags it reads or keeps up to date. -/
theorem lazy_refines_eager_iff (emu : X64Emu) (program : List Instruction) :
    Always Machines.step Machines.Shows (Machines.start emu) program ↔
      AllSteps Machines.step Machines.Ready (Machines.start emu) program := by
  refine always_iff_allSteps (fun _ shows => shows) ?_ ?_ (Machines.start_shows emu) program
  · intro m i m' shows ready next
    cases next
    exact (m.shows_iff_ready shows i).mpr ready
  · intro m i m' shows stale next after
    cases next
    exact stale ((m.shows_iff_ready shows i).mp after)

/-- `ADD AL, 1` on 0xff sets the carry, but leaves it pending, and `DEC` then drops it. -/
theorem add_dec_not_refines :
    ¬ ∀ (emu : X64Emu) (program : List Instruction),
      Always Machines.step Machines.Shows (Machines.start emu) program := by
  intro refines
  let emu : X64Emu := ⟨fun _ => 0, ⟨false, false, false, false, false, false⟩, .d_none, 0, 0, 0⟩
  have shows := refines emu [.add .w8 0xff 1, .dec .w8 0] _ (List.prefix_refl _) _ rfl
  have carry := shows.CF
  revert carry
  decide

end Box64.Emu
