import Box64.Dynarec.AddressCode
import Box64.Emu.Address

/-!
# Addresses in emitted code

`geted` and, under the address-size prefix, `geted32`, which emit the computation of a memory operand's address and may
leave a displacement to the access itself, and `fakeed`, which only goes over the operand's bytes.
-/

namespace Box64.Arm64

open BitVec Memory Emu AddressForm

/-- The register that holds a general register of the guest. -/
def guest (r : Fin 16) : Reg := ⟨xRAX.val + r.val, guest_lt r⟩

/-! ### The emitters -/

/-- The arguments that do not come from the code bytes. -/
structure GetedSite where
  rex : Rex
  /-- 0 for none. -/
  hint : Reg
  absmax : BitVec 32
  mask : BitVec 32
  s : Bool
  delta : BitVec 32

/-- What an emitter returns and leaves in `*ed`, `*fixaddress` and `dyn->last_ip`. -/
structure Geted where
  code : List AddrInst
  ed : Reg
  fixaddress : BitVec 64
  addr : BitVec 64
  last_ip : BitVec 64

namespace GetedSite

variable (site : GetedSite)

def ret : Reg := if site.hint > 0 then site.hint else x2

def scratch : Reg := if site.hint > 0 ∧ site.hint < xRAX then site.hint else x2

def absmin : BitVec 32 := if site.s then -site.absmax else 0

/-- A displacement that the access can add itself. -/
def Folds (tmp : BitVec 64) : Prop :=
  ¬ tmp.slt (site.absmin.signExtend 64) ∧ ¬ (site.absmax.signExtend 64).slt tmp ∧ tmp &&& site.mask.setWidth 64 = 0

instance (tmp : BitVec 64) : Decidable (site.Folds tmp) := inferInstanceAs (Decidable (_ ∧ _))

variable (code : Memory) (nextop : BitVec 8) (addr last_ip : BitVec 64)

/-- `mod` 0 with a SIB byte, in the `x` form and in the `w` form. -/
def getedSib (sf : Bool) : Geted :=
  let (sib, addr) := Fetch8 code addr
  let sib_reg := regNumber (sib >>> 3) site.rex.x
  let lsl := (sib >>> 6).toNat
  if sib &&& 7 = 5 then
    let (disp, addr) := Fetch32s code addr
    let tmp := disp.signExtend 64
    if sib_reg ≠ 4 then
      if tmp ≠ 0 ∧ ¬ site.Folds tmp then
        { code := MOV64x site.scratch tmp ++ [ADD_REG_LSL sf site.ret site.scratch (guest sib_reg) lsl]
          ed := site.ret, fixaddress := 0, addr, last_ip }
      else
        { code := [.plain (.shift .lsl sf site.ret (guest sib_reg) lsl)]
          ed := site.ret, fixaddress := tmp, addr, last_ip }
    else { code := MOV64x site.ret tmp, ed := site.ret, fixaddress := 0, addr, last_ip }
  else if sib_reg ≠ 4 then
    { code := [ADD_REG_LSL sf site.ret (guest (regNumber sib site.rex.b)) (guest sib_reg) lsl]
      ed := site.ret, fixaddress := 0, addr, last_ip }
  else { code := [], ed := guest (regNumber sib site.rex.b), fixaddress := 0, addr, last_ip }

/-- A base, an index that is not there without a SIB byte or if `sib_reg` is 4, and a displacement, in the `x` form and in
the `w` form; `MOV` is `MOV64x` or `MOV32w`. -/
def addDisp (sf : Bool) (MOV : Reg → BitVec 64 → List AddrInst) (base : Reg) (index : Option Reg) (lsl : Nat)
    (i64 : BitVec 64) : Geted :=
  if i64 = 0 ∨ site.Folds i64 then
    match index with
    | some index =>
      { code := [ADD_REG_LSL sf site.ret base index lsl], ed := site.ret, fixaddress := i64, addr, last_ip }
    | none => { code := [], ed := base, fixaddress := i64, addr, last_ip }
  else
    let sub := i64.slt 0
    let i64 := if sub then -i64 else i64
    if i64.slt 0x1000 then
      let sum :=
        match index with
        | some index =>
          [ADD_REG_LSL sf site.scratch base index lsl, ADDSUB_U12 sub sf site.ret site.scratch i64]
        | none => [ADDSUB_U12 sub sf site.ret base i64]
      { code := sum, ed := site.ret, fixaddress := 0, addr, last_ip }
    else
      let sum :=
        match index with
        | some index =>
          [if sub then ADDSUB_REG true sf site.scratch base site.scratch
            else ADDSUB_REG false sf site.scratch site.scratch base,
            ADD_REG_LSL sf site.ret site.scratch index lsl]
        | none => [ADDSUB_REG sub sf site.ret base site.scratch]
      { code := MOV site.scratch i64 ++ sum, ed := site.ret, fixaddress := 0, addr, last_ip }

/-- `mod` 1 and 2. -/
def getedDisp (sf : Bool) (MOV : Reg → BitVec 64 → List AddrInst) : Geted :=
  let (sib, addr) := if nextop &&& 7 = 4 then Fetch8 code addr else (0, addr)
  let sib_reg := regNumber (sib >>> 3) site.rex.x
  let (i64, addr) := fetchDisp code addr nextop
  let base := guest (regNumber (if nextop &&& 7 = 4 then sib else nextop) site.rex.b)
  let index := if nextop &&& 7 = 4 ∧ sib_reg ≠ 4 then some (guest sib_reg) else none
  site.addDisp addr last_ip sf MOV base index (sib >>> 6).toNat i64

/-- A displacement from the next instruction, behind its bytes. -/
def getedIp (tmp : BitVec 64) : Geted :=
  let next := addr + site.delta.signExtend 64
  let (ip, new_ip) := GETIP last_ip next
  if site.absmin.signExtend 64 ≤ tmp ∧ tmp ≤ site.absmax.signExtend 64 ∧ tmp &&& site.mask.setWidth 64 = 0 then
    { code := ip, ed := xRIP, fixaddress := tmp, addr, last_ip := new_ip }
  else if tmp < 0x1000 then
    { code := ip ++ [ADDSUB_U12 false true site.ret xRIP tmp], ed := site.ret, fixaddress := 0, addr, last_ip := new_ip }
  else if tmp + addr + site.delta.signExtend 64 < 0x1000000000000 then
    { code := MOV64x site.ret (tmp + next), ed := site.ret, fixaddress := 0, addr, last_ip }
  else
    { code := MOV64x site.ret tmp ++ ip ++ [ADDSUB_REG false true site.ret site.ret xRIP]
      ed := site.ret, fixaddress := 0, addr, last_ip := new_ip }

def geted : Geted :=
  if nextop &&& 0xC0 = 0 then
    if nextop &&& 7 = 4 then site.getedSib code addr last_ip true
    else if nextop &&& 7 = 5 then
      let (disp, addr) := Fetch32s code addr
      site.getedIp addr last_ip (disp.signExtend 64)
    else { code := [], ed := guest (regNumber nextop site.rex.b), fixaddress := 0, addr, last_ip }
  else site.getedDisp code nextop addr last_ip true MOV64x

def geted32 : Geted :=
  if nextop &&& 0xC0 = 0 then
    if nextop &&& 7 = 4 then site.getedSib code addr last_ip false
    else if nextop &&& 7 = 5 then
      let (tmp, addr) := Fetch32s code addr
      let (ip, last_ip) := GETIP last_ip (addr + site.delta.signExtend 64)
      { code := MOV32w site.ret tmp ++ ip ++ [ADDSUB_REG false false site.ret site.ret xRIP]
        ed := site.ret, fixaddress := 0, addr, last_ip }
    else
      let ret := guest (regNumber nextop site.rex.b)
      { code := if ret = site.hint then [.plain (.alu .ORR false false site.hint xZR (.reg ret))] else []
        ed := ret, fixaddress := 0, addr, last_ip }
  else site.getedDisp code nextop addr last_ip false fun rd i64 => MOV32w rd (i64.setWidth 32)

end GetedSite

/-- The address behind the operand. -/
def fakeed (code : Memory) (addr : BitVec 64) (nextop : BitVec 8) : BitVec 64 :=
  if nextop &&& 0xC0 = 0xC0 then addr
  else if nextop &&& 0xC0 = 0 then
    if nextop &&& 7 = 4 then
      let (sib, addr) := Fetch8 code addr
      if sib &&& 7 = 5 then addr + 4 else addr
    else if nextop &&& 7 = 5 then addr + 4
    else addr
  else
    let addr := if nextop &&& 7 = 4 then addr + 1 else addr
    if nextop &&& 0x80 ≠ 0 then addr + 4 else addr + 1

end Box64.Arm64
