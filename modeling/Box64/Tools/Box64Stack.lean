import Box64.Lib.CStrings

/-!
# The first stack of the program

`box64stack.c` lays the arguments, the environment and the auxiliary vector out on the emulated stack before the program
starts, and `auxval.c` reads the vector back.
-/

namespace Box64.Tools
open ByteMemory

/-- `R_RSP` and the memory it points into. -/
structure StackEmu where
  rsp : Nat
  mem : ByteMemory

/-- `R_RSP -= n` -/
def minus (rsp n : Nat) : Nat := (rsp + (2 ^ 64 - n)) % 2 ^ 64

def push64 (s : StackEmu) (v : Nat) : StackEmu :=
  let rsp := minus s.rsp 8
  ⟨rsp, write s.mem rsp 8 v⟩

def pushString (s : StackEmu) (str : CStr) : StackEmu :=
  let sz := (BitVec.ofNat 32 str.bytes).toInt.toNat
  let rsp := minus s.rsp sz
  ⟨rsp, putString s.mem rsp str⟩

theorem pushString_eq (s : StackEmu) (str : CStr) :
    pushString s str = ⟨minus s.rsp str.bytes, putString s.mem (minus s.rsp str.bytes) str⟩ := by
  rw [pushString, str.bytes_int, Int.toNat_natCast]

/-- `tmp = R_RSP & ~(stackalign-1); memset(tmp, 0, R_RSP-tmp); R_RSP = tmp;` -/
def alignStack (stackalign : BitVec 64) (s : StackEmu) : StackEmu :=
  let tmp := (BitVec.ofNat 64 s.rsp &&& ~~~(stackalign - 1)).toNat
  ⟨tmp, fill s.mem tmp (s.rsp - tmp) 0⟩

/-- `for (int i=n-1; i>=0; --i) { PushString(emu, strs[i]); ps[i] = R_RSP; }` -/
def pushStrings : List CStr → StackEmu → StackEmu × List Nat
  | [], s => (s, [])
  | str :: strs, s =>
    let (s, ps) := pushStrings strs s
    let s := pushString s str
    (s, s.rsp :: ps)

/-- `for (int i=n-1; i>=0; --i) Push(emu, ps[i]);` -/
def pushWords (ps : List Nat) (s : StackEmu) : StackEmu := ps.foldr (fun p s => push64 s p) s

/-- What is there before the program starts. `argv` is `arg0 :: args`, `auxval` is `real_getauxval`, and `random` has what
`random()` returns each time. -/
structure Launch where
  arg0 : CStr
  args : List CStr
  envv : List CStr
  stackalign : BitVec 64
  pagesize : BitVec 64
  rip : BitVec 64
  vsyscall : BitVec 64
  auxval : Nat → BitVec 64
  random : Nat → BitVec 64
  auxvalStart : Nat

def Launch.argv (l : Launch) : List CStr := l.arg0 :: l.args

/-- `"x86_64"` -/
def x86_64 : CStr := ⟨[0x78, 0x38, 0x36, 0x5f, 0x36, 0x34], by decide, by decide⟩

/-- The pairs of the auxiliary vector in the order they are pushed, each the type and the value. -/
def Launch.auxv (l : Launch) (p_x86_64 p_random p_arg0 : Nat) : List (Nat × Nat) :=
  [(0, 0),
    (6, l.pagesize.toNat),
    (8, 0),
    (9, l.rip.toNat),
    (11, (l.auxval 11).toNat),
    (12, (l.auxval 12).toNat),
    (13, (l.auxval 13).toNat),
    (14, (l.auxval 14).toNat),
    (15, p_x86_64),
    (16, 1 <<< 0 ||| 1 <<< 1 ||| 1 <<< 2 ||| 1 <<< 3 ||| 1 <<< 4 ||| 1 <<< 8 ||| 1 <<< 15 ||| 1 <<< 16 ||| 1 <<< 23 |||
      1 <<< 25 ||| 1 <<< 26),
    (23, (l.auxval 23).toNat),
    (25, p_random),
    (26, 0),
    (31, p_arg0),
    (32, l.vsyscall.toNat)]

def pushAux (s : StackEmu) (entry : Nat × Nat) : StackEmu := push64 (push64 s entry.2) entry.1

/-- The stack, and the fields of the context that point into it. -/
structure Initial where
  stack : StackEmu
  auxvalStart : Nat
  envv : Nat
  argv : Nat

/-- `for (int i=0; i<4; ++i) Push(emu, random());`, where the host has no `AT_RANDOM`. -/
def pushRandom (l : Launch) (s : StackEmu) : StackEmu :=
  if l.auxval 25 = 0 then
    push64 (push64 (push64 (push64 s (l.random 0).toNat) (l.random 1).toNat) (l.random 2).toNat) (l.random 3).toNat
  else s

/-- The part up to the auxiliary vector, with `p_arg0`, `p_envv`, `p_argv`, `p_x86_64` and `p_random`. -/
def pushTexts (l : Launch) (s : StackEmu) : StackEmu × Nat × List Nat × List Nat × Nat × Nat :=
  let s := push64 s 0
  let s := pushString s l.arg0
  let p_arg0 := s.rsp
  let (s, p_envv) := pushStrings l.envv s
  let (s, p_argv) := pushStrings l.argv s
  let s := alignStack l.stackalign s
  let s := pushString s x86_64
  let p_x86_64 := s.rsp
  let s := pushRandom l s
  let p_random := if l.auxval 25 = 0 then s.rsp else (l.auxval 25).toNat
  (alignStack l.stackalign s, p_arg0, p_envv, p_argv, p_x86_64, p_random)

def setupInitialStack (l : Launch) (s : StackEmu) : Initial :=
  let (s, p_arg0, p_envv, p_argv, p_x86_64, p_random) := pushTexts l s
  let s := (l.auxv p_x86_64 p_random p_arg0).foldl pushAux s
  let auxvalStart := if l.auxvalStart = 0 then s.rsp else l.auxvalStart
  let s := pushWords p_envv (push64 s 0)
  let envv := s.rsp
  let s := pushWords p_argv (push64 s 0)
  let argv := s.rsp
  ⟨push64 s l.argv.length, auxvalStart, envv, argv⟩

/-- `my_getauxval`, with the number of pairs it may read. -/
def getauxval (mem : ByteMemory) (type : Nat) : Nat → Nat → Option Nat
  | 0, _ => none
  | fuel + 1, p =>
    if read mem p 8 = 0 then some 0
    else if read mem p 8 = type then some (read mem (p + 8) 8)
    else getauxval mem type fuel (p + 16)

def myGetauxval (i : Initial) (type fuel : Nat) : Option Nat := getauxval i.stack.mem type fuel i.auxvalStart

end Box64.Tools
