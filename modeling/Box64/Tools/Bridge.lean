import Box64.Lib.ByteMemory
import Box64.Lib.Runs

/-!
# Bridges

`AddBridge` and `AddVSyscall` hand out the slots of a list of bricks to any number of threads. Each call is the
steps that other threads can come between: the region under the mutex that reads the slot counter, the check of
the counter without the mutex, and the region under the mutex that takes the slot.
-/

namespace Box64.Tools

/-- The slots in a brick. -/
def NBRICK : Nat := 4096 / 32

/-- `sizeof(onebridge_t)`. -/
def slotSize : Nat := 32

/-- `brick_t`: the page of slots `b`, and the number `sz` of those taken. -/
structure Brick where
  b : ByteMemory
  sz : Nat

/-- `bridge_t`, its bricks numbered in the order of the list. -/
structure Bridge where
  brick : Nat → Brick
  count : Nat
  last : Nat

/-- What a thread asks for: `AddBridge` with its wrapper, function and return size, or `AddVSyscall`. -/
inductive BridgeCall
  | addBridge (w fnc : BitVec 64) (N : BitVec 32)
  | addVSyscall (num : BitVec 32)

/-- `NewBrick`: a page of zeroes. -/
def newBrick : Brick := ⟨fun _ => 0, 0⟩

def newBridge : Bridge where
  brick _ := newBrick
  count := 1
  last := 0

/-! ### The steps of a call -/

/-- The first region: `b` and `sz`, with a new brick where the last one is full. -/
def Bridge.pick (bridge : Bridge) : Bridge × Nat × Nat :=
  if (bridge.brick bridge.last).sz = NBRICK then
    let b := bridge.count
    let bridge := { brick := Function.update bridge.brick b newBrick, count := bridge.count + 1, last := b }
    (bridge, b, (bridge.brick b).sz)
  else
    (bridge, bridge.last, (bridge.brick bridge.last).sz)

/-- The fields of `b->b[sz]` the second region writes. -/
def writeSlot (m : ByteMemory) (sz : Nat) : BridgeCall → ByteMemory
  | .addBridge w fnc N =>
    let slot := slotSize * sz
    let m := ((m.write slot 1 0xCC).write (slot + 1) 1 'S'.toNat).write (slot + 2) 1 'C'.toNat
    let m := (m.write (slot + 3) 8 w.toNat).write (slot + 11) 8 fnc.toNat
    (m.write (slot + 19) 1 (if N ≠ 0 then 0xC2 else 0xC3)).write (slot + 20) 2 N.toNat
  | .addVSyscall num =>
    let slot := slotSize * sz
    let m := (m.write slot 1 0xB8).write (slot + 1) 4 num.toNat
    ((m.write (slot + 5) 1 0x0F).write (slot + 6) 1 0x05).write (slot + 7) 1 0xC3

/-- The second region. -/
def Bridge.take (bridge : Bridge) (b sz : Nat) (call : BridgeCall) : Bridge :=
  let brick := bridge.brick b
  { bridge with brick := Function.update bridge.brick b ⟨writeSlot brick.b sz call, brick.sz + 1⟩ }

/-- Where a thread is: outside, at the start of the loop, past the first region, or out of the loop. -/
inductive Thread
  | idle
  | retry (call : BridgeCall)
  | picked (call : BridgeCall) (b sz : Nat)
  | checked (call : BridgeCall) (b sz : Nat)

/-- A slot handed out. -/
structure Handed where
  call : BridgeCall
  b : Nat
  sz : Nat

structure BridgeState where
  bridge : Bridge
  thread : Nat → Thread
  handed : List Handed

def initialState : BridgeState := ⟨newBridge, fun _ => .idle, []⟩

inductive Action
  | call (c : BridgeCall)
  | retry
  | check
  | commit

namespace BridgeState

def setThread (s : BridgeState) (t : Nat) (th : Thread) : BridgeState :=
  { s with thread := Function.update s.thread t th }

def pick (s : BridgeState) (t : Nat) (c : BridgeCall) : BridgeState :=
  let (bridge, b, sz) := s.bridge.pick
  { s with bridge }.setThread t (.picked c b sz)

def take (s : BridgeState) (b sz : Nat) (c : BridgeCall) : BridgeState :=
  { s with bridge := s.bridge.take b sz c, handed := s.handed ++ [Handed.mk c b sz] }

/-- One step of thread `t`. -/
def step (s : BridgeState) : Nat × Action → Option BridgeState
  | (t, .call c) =>
    match s.thread t with
    | .idle => some (s.pick t c)
    | _ => none
  | (t, .retry) =>
    match s.thread t with
    | .retry c => some (s.pick t c)
    | _ => none
  | (t, .check) =>
    match s.thread t with
    | .picked c b sz =>
      -- between the regions the pages are unprotected, which reads the counter again but decides nothing
      some (s.setThread t (if sz ≠ (s.bridge.brick b).sz then .retry c else .checked c b sz))
    | _ => none
  | (t, .commit) =>
    match s.thread t with
    | .checked c b sz =>
      some ((s.take b sz c).setThread t .idle)
    | _ => none

end BridgeState

/-! ### Slots -/

def Handed.slot (h : Handed) : Nat × Nat := (h.b, h.sz)

/-- The slot still holds what its call put there. -/
def Kept (m : ByteMemory) (sz : Nat) : BridgeCall → Prop
  | .addBridge w fnc N =>
    let slot := slotSize * sz
    m.read (slot + 3) 8 = w.toNat ∧ m.read (slot + 11) 8 = fnc.toNat ∧
      m.read (slot + 19) 1 = (if N ≠ 0 then 0xC2 else 0xC3) ∧ m.read (slot + 20) 2 = N.toNat
  | .addVSyscall num => m.read (slotSize * sz + 1) 4 = num.toNat

instance (m : ByteMemory) (sz : Nat) (call : BridgeCall) : Decidable (Kept m sz call) := by
  cases call
  · exact inferInstanceAs (Decidable (_ ∧ _ ∧ _ ∧ _))
  · exact inferInstanceAs (Decidable (_ = _))

/-- No slot is handed out twice or beyond its brick, and each keeps what its caller gave it. -/
structure BridgeState.Safe (s : BridgeState) : Prop where
  distinct : (s.handed.map Handed.slot).Nodup
  inside : ∀ h ∈ s.handed, h.sz < NBRICK
  kept : ∀ h ∈ s.handed, Kept (s.bridge.brick h.b).b h.sz h.call

end Box64.Tools
