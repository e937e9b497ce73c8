import Box64.Dynarec.PromoteDouble
import Box64.Lib.Runs

/-!
# What an instruction does to the cache of NEON registers

The helpers by which the emitters get registers of the x87 stack, MMX and SSE registers, and the sequences of them that the
translation of one instruction makes. None of them gets x87 registers and MMX or SSE registers both. A helper has no result
where it would leave an array.
-/

namespace Box64.Dynarec

open Function (update)

namespace NeonCache

variable (c : NeonCache)

/-- `fpu_free_reg`. -/
def fpuFreeReg (reg : Fin 24) : NeonCache :=
  { c with
    fpuused := update c.fpuused reg false
    neoncache := if (c.neoncache reg).isST then c.neoncache else update c.neoncache reg .empty }

/-- What the three `fpu_get_reg` functions do with the register they choose. -/
def getReg (i : Fin 24) (t : CacheType) (n : BitVec 4) : NeonCache :=
  { c with
    fpuused := update c.fpuused i true
    neoncache := update c.neoncache i ⟨t, n⟩
    news := update c.news i true }

/-- `fpu_get_reg_x87`, which takes the first free register from `X870` on. -/
def fpuGetRegX87 (t : CacheType) (n : BitVec 4) : Option (NeonCache × Fin 24) :=
  ((List.finRange 24).find? fun i : Fin 24 => 8 ≤ (i : Nat) ∧ ¬ c.fpuused i).map fun i => (c.getReg i t n, i)

/-- `EMM0 + emm`. -/
def emmReg (emm : Fin 8) : Fin 24 := ⟨8 + emm, by omega⟩

/-- `XMM8 + xmm - 8` or `XMM0 + xmm`. -/
def xmmReg (xmm : Fin 16) : Fin 24 := if above : 7 < (xmm : Nat) then ⟨16 + xmm - 8, by omega⟩ else ⟨xmm, by omega⟩

/-- `fpu_get_reg_emm`. -/
def fpuGetRegEmm (emm : Fin 8) : NeonCache := c.getReg (emmReg emm) .MM (BitVec.ofNat 4 emm)

/-- `fpu_get_reg_xmm`. -/
def fpuGetRegXmm (t : CacheType) (xmm : Fin 16) : NeonCache := c.getReg (xmmReg xmm) t (BitVec.ofNat 4 xmm)

/-- What `mmx_purgecache` does with an entry of `mmxcache`. -/
def mmxFree (i : Fin 8) : NeonCache :=
  match c.mmxcache i with
  | none => c
  | some reg => { c.fpuFreeReg reg with mmxcache := update c.mmxcache i none }

/-- `mmx_purgecache`, for good (`next` is 0). -/
def mmxPurgecache : NeonCache :=
  if c.mmxcount = 0 then c else (List.finRange 8).foldl mmxFree { c with mmxcount := 0 }

/-- The first entry of `x87cache` that is -1. -/
def freeEntry : Option (Fin 8) := (List.finRange 8).find? fun i => c.x87cache i = -1

/-- `NEON_CACHE_ST_D` or `NEON_CACHE_ST_F`. -/
def stType (double : Bool) : CacheType := if double then .ST_D else .ST_F

/-- The pass over the block: `STEP` is 1, or `X87_ST0` is read from what an earlier pass has recorded. -/
inductive Pass
  | one
  | other (x87_st0 : Bool)
  deriving DecidableEq

/-- What both pushes do to the registers in the cache and the counters. -/
def pushAll : NeonCache :=
  { c with
    x87stack := c.x87stack + 1
    stack := c.stack + 1
    stack_next := c.stack_next + 1
    stack_push := c.stack_push + 1
    neoncache := fun j => if (c.neoncache j).isST then { c.neoncache j with n := (c.neoncache j).n + 1 } else c.neoncache j
    x87cache := fun i => if c.x87cache i ≠ -1 then c.x87cache i + 1 else -1 }

/-- `x87_do_push`; where no entry is free the register is -1 and nothing is cached. -/
def x87DoPush (pass : Pass) (double : Bool) : Option NeonCache :=
  let c := c.mmxPurgecache
  match c.freeEntry with
  | none => some c.pushAll
  | some i =>
    (c.pushAll.fpuGetRegX87 (stType double) 0).map fun (c, ret) =>
      let t := match pass with
        -- need to check if reg is compatible with float
        | .one => if (ret : Nat) > 15 then .ST_D else stType double
        | .other x87_st0 => stType x87_st0
      { c with
        x87cache := update c.x87cache i 0
        x87reg := update c.x87reg i (some ret)
        neoncache := update c.neoncache ret { c.neoncache ret with t := t } }

/-- `x87_stackcount`. -/
def x87Stackcount : NeonCache :=
  if c.x87stack = 0 then c
  else
    let c := c.mmxPurgecache
    -- reset x87stack, but not the stack count of neoncache
    { c with x87stack := 0, stack_next := c.stack_next - c.stack, stack := 0 }

/-- `x87_do_push_empty`, which is given a scratch register or not. -/
def x87DoPushEmpty (s1 : Bool) : NeonCache :=
  let c := c.mmxPurgecache.pushAll
  if s1 then c.x87Stackcount else c

/-- What `x87_do_pop` does with an entry of `x87cache`. -/
def popEntry (i : Fin 8) : Option NeonCache :=
  if c.x87cache i ≠ -1 then
    let c := { c with x87cache := update c.x87cache i (c.x87cache i - 1) }
    if c.x87cache i = -1 then (c.x87reg i).map fun reg => { c.fpuFreeReg reg with x87reg := update c.x87reg i none }
    else some c
  else some c

/-- `x87_do_pop`. -/
def x87DoPop : Option NeonCache :=
  let c := c.mmxPurgecache
  Runs.exec popEntry { c with x87stack := c.x87stack - 1, stack_next := c.stack_next - 1, stack_pop := c.stack_pop + 1 }
    (List.finRange 8)

/-- What `neoncache_promote_double` does to the register it is called for; those it goes on to are upgrades of their own. -/
def promoteST (st : BitVec 4) : NeonCache :=
  match c.getStF st.toNat with
  | none => c
  | some i => c.promote i

/-- `x87_get_current_cache`, on the entry that it finds. -/
def x87GetCurrentCache (pass : Pass) (st : BitVec 4) (double : Bool) (i : Fin 8) : Option NeonCache :=
  if pass = .one ∧ double then (c.x87reg i).map fun reg => if (c.neoncache reg).t = .ST_F then c.promoteST st else c
  else some c

/-- `x87_get_cache`, with the entry that holds the register. -/
def x87GetCache (pass : Pass) (st : BitVec 4) (double : Bool) : Option (NeonCache × Fin 8) :=
  let c := c.mmxPurgecache
  match (List.finRange 8).find? fun i => c.x87cache i = st.toNat with
  | some i => (c.x87GetCurrentCache pass st double i).map fun c => (c, i)
  | none =>
    c.freeEntry.bind fun ret =>
      (c.fpuGetRegX87 (stType double) st).map fun (c, reg) =>
        ({ c with x87cache := update c.x87cache ret st.toNat, x87reg := update c.x87reg ret (some reg) }, ret)

/-- `x87_get_neoncache`. -/
def x87GetNeoncache (st : BitVec 4) : Option (Fin 24) :=
  (List.finRange 24).find? fun ii => (c.neoncache ii).isST ∧ (c.neoncache ii).n = st

/-- The numbers of two slots exchanged. -/
def exchangeSlots (j₁ j₂ : Fin 24) : NeonCache :=
  let renamed := update c.neoncache j₁ { c.neoncache j₁ with n := (c.neoncache j₂).n }
  { c with neoncache := update renamed j₂ { renamed j₂ with n := (c.neoncache j₁).n } }

/-- `x87_swapreg`; the two booleans are `X87_ST(a)` and `X87_ST(b)`. -/
def x87Swapreg (pass : Pass) (a : BitVec 4) (double_a : Bool) (b : BitVec 4) (double_b : Bool) : Option NeonCache :=
  (c.x87GetCache pass b double_b).bind fun (c, i₁) =>
    (c.x87GetCache pass a double_a).bind fun (c, i₂) =>
      let c := { c with x87cache := update (update c.x87cache i₁ (c.x87cache i₂)) i₂ (c.x87cache i₁) }
      (c.x87GetNeoncache b).bind fun j₁ =>
        (c.x87GetNeoncache a).map fun j₂ =>
          -- mark as swapped
          { c.exchangeSlots j₁ j₂ with swapped := true, combined1 := a.toNat, combined2 := b.toNat }

/-- `isx87Empty`. -/
def isx87Empty : Prop := ∀ i, c.x87cache i = -1

instance : Decidable c.isx87Empty := inferInstanceAs (Decidable (∀ _, _))

/-- What `x87_purgecache` does with an entry of `x87cache`. -/
def x87Free (i : Fin 8) : Option NeonCache :=
  if c.x87cache i ≠ -1 then
    (c.x87reg i).map fun reg =>
      { c.fpuFreeReg reg with x87reg := update c.x87reg i none, x87cache := update c.x87cache i (-1) }
  else some c

/-- `x87_purgecache`, for good and less the promotions. -/
def x87Purgecache : Option NeonCache :=
  if c.isx87Empty ∧ c.x87stack = 0 then some c    -- nothing to do
  else (Runs.exec x87Free { c with x87stack := 0 } (List.finRange 8)).map fun c => { c with stack_next := 0 }

/-- `mmx_get_reg` and `mmx_get_reg_empty`. -/
def mmxGetReg (a : Fin 8) : Option NeonCache :=
  (if c.x87stack = 0 ∧ c.isx87Empty then c.x87Purgecache else some c).map fun c =>
    if c.mmxcache a ≠ none then c
    else
      let c := { c with mmxcount := c.mmxcount + 1 }
      { c.fpuGetRegEmm a with mmxcache := update c.mmxcache a (some (emmReg a)) }

/-- `sse_get_reg`, and with `forwrite` `sse_get_reg_empty`. -/
def sseGetReg (a : Fin 16) (forwrite : Bool) : NeonCache :=
  match c.ssecache a with
  | some (reg, _) =>
    if forwrite then
      { c with
        ssecache := update c.ssecache a (some (reg, true))
        neoncache := update c.neoncache reg { c.neoncache reg with t := .XMMW } }
    else c
  | none =>
    { c.fpuGetRegXmm (if forwrite then .XMMW else .XMMR) a with ssecache := update c.ssecache a (some (xmmReg a, forwrite)) }

/-- A register that is cached as a float becomes one that is cached as a double. -/
def upgrade (i : Fin 24) : NeonCache := if (c.neoncache i).t = .ST_F then c.promote i else c

end NeonCache

open NeonCache

/-- An operation of the x87 emitters on the cache. -/
inductive X87Op
  | push (double : Bool)
  | pushEmpty (s1 : Bool)
  | get (st : BitVec 4) (double : Bool)
  | upgrade (i : Fin 24)
  | swap (a : BitVec 4) (double_a : Bool) (b : BitVec 4) (double_b : Bool)
  | pop

namespace X87Op

/-- The pushes. -/
def isPush : X87Op → Prop
  | push _ => True
  | pushEmpty _ => True
  | _ => False

/-- The stack is synched behind the push. -/
def syncs : X87Op → Prop
  | pushEmpty s1 => s1 = true
  | _ => False

instance (op : X87Op) : Decidable op.syncs := by
  cases op <;> unfold syncs <;> infer_instance

/-- Gets and upgrades. -/
def isUse : X87Op → Prop
  | get _ _ => True
  | upgrade _ => True
  | _ => False

/-- All operations but upgrades, which call no helper. -/
def touches : X87Op → Prop
  | upgrade _ => False
  | _ => True

def step (pass : Pass) (c : NeonCache) : X87Op → Option NeonCache
  | push double => c.x87DoPush pass double
  | pushEmpty s1 => some (c.x87DoPushEmpty s1)
  | get st double => (c.x87GetCache pass st double).map (·.1)
  | upgrade i => some (c.upgrade i)
  | swap a double_a b double_b => c.x87Swapreg pass a double_a b double_b
  | pop => c.x87DoPop

end X87Op

/-- `x87_swapreg` of an instruction. -/
structure Swap where
  a : BitVec 4
  double_a : Bool
  b : BitVec 4
  double_b : Bool

/-- An instruction on the x87 stack: pushes, uses with one swap at most, and pops. None pushes more often than the numbers of
the slots have room for. -/
structure X87Instruction where
  pushes : List X87Op
  before : List X87Op
  swap : Option Swap
  after : List X87Op
  pops : Nat
  pushes_push : ∀ op ∈ pushes, op.isPush
  few : pushes.length ≤ 8
  before_use : ∀ op ∈ before, op.isUse
  after_use : ∀ op ∈ after, op.isUse

/-- The operations in the order in which they are made. -/
def X87Instruction.ops (ins : X87Instruction) : List X87Op :=
  ins.pushes ++ ins.before ++ (ins.swap.toList.map fun s => .swap s.a s.double_a s.b s.double_b) ++ ins.after ++
    List.replicate ins.pops .pop

/-- An operation of the MMX and SSE emitters on the cache. -/
inductive SimdOp
  | mmx (a : Fin 8)
  | sse (a : Fin 16) (forwrite : Bool)

namespace SimdOp

def step (c : NeonCache) : SimdOp → Option NeonCache
  | mmx a => c.mmxGetReg a
  | sse a forwrite => some (c.sseGetReg a forwrite)

/-- The register is in the cache. -/
def Cached (c : NeonCache) : SimdOp → Prop
  | mmx a => c.mmxcache a ≠ none
  | sse a _ => c.ssecache a ≠ none

/-- The NEON register that it is cached in. -/
def reg : SimdOp → Fin 24
  | mmx a => emmReg a
  | sse a _ => xmmReg a

end SimdOp

/-- What the translation of an instruction does to the cache. -/
inductive Instruction
  | x87 (ins : X87Instruction)
  | simd (ops : List SimdOp)

/-- The cache after the operations of an instruction, which is recorded as its exit cache. -/
def Instruction.run (pass : Pass) (e : NeonCache) : Instruction → Option NeonCache
  | x87 ins => Runs.exec (X87Op.step pass) e ins.ops
  | simd ops => Runs.exec SimdOp.step e ops

end Box64.Dynarec
