import Box64.Lib.Runs
import Mathlib.Data.BitVec
import Mathlib.Logic.Function.Basic

/-!
# The hash tables of `khash.h`

Symbols, bridges, dynablocks and thread stacks are all kept in tables of this one macro header: open addressing with steps
of growing length, two flag bits a bucket, and a resize that moves the entries inside the arrays they lie in.
-/

namespace Box64.Khash
open Function (update)

/-! ### Flags -/

/-- `khint32_t *flags`: two bits a bucket, sixteen buckets a word. -/
abbrev Flags := Nat → BitVec 32

def acIsempty (flag : Flags) (i : Nat) : Bool := (flag (i >>> 4) >>> ((i &&& 0xf) <<< 1)) &&& 2 != 0

def acIsdel (flag : Flags) (i : Nat) : Bool := (flag (i >>> 4) >>> ((i &&& 0xf) <<< 1)) &&& 1 != 0

def acIseither (flag : Flags) (i : Nat) : Bool := (flag (i >>> 4) >>> ((i &&& 0xf) <<< 1)) &&& 3 != 0

def acSetIsemptyFalse (flag : Flags) (i : Nat) : Flags :=
  update flag (i >>> 4) (flag (i >>> 4) &&& ~~~((2 : BitVec 32) <<< ((i &&& 0xf) <<< 1)))

def acSetIsbothFalse (flag : Flags) (i : Nat) : Flags :=
  update flag (i >>> 4) (flag (i >>> 4) &&& ~~~((3 : BitVec 32) <<< ((i &&& 0xf) <<< 1)))

def acSetIsdelTrue (flag : Flags) (i : Nat) : Flags :=
  update flag (i >>> 4) (flag (i >>> 4) ||| (1 : BitVec 32) <<< ((i &&& 0xf) <<< 1))

/-- `memset(flags, 0xaa, …)`. -/
def memsetAa : Flags := fun _ => 0xaaaaaaaa

/-- `kh_int64_hash_func`. -/
def khInt64HashFunc (key : BitVec 64) : BitVec 32 := (key >>> 33 ^^^ key ^^^ key <<< 11).setWidth 32

/-! ### Tables -/

/-- `kh_##name##_t`. What lies in `keys` and `vals` outside of the entries is whatever was there. -/
structure Kh (κ ν : Type) where
  nBuckets : Nat
  size : Nat
  nOccupied : Nat
  upperBound : Nat
  flags : Flags
  keys : Nat → κ
  vals : Nat → ν

variable {κ ν : Type}

/-- `kh_init`: a `calloc`, so the three arrays are null. -/
def khInit [Inhabited κ] [Inhabited ν] : Kh κ ν := ⟨0, 0, 0, 0, fun _ => 0, fun _ => default, fun _ => default⟩

def kroundup32 (x : BitVec 32) : BitVec 32 :=
  let x := x - 1
  let x := x ||| x >>> 1
  let x := x ||| x >>> 2
  let x := x ||| x >>> 4
  let x := x ||| x >>> 8
  let x := x ||| x >>> 16
  x + 1

/-- `(khint_t)(new_n_buckets * __ac_HASH_UPPER + 0.5)`. The product of 0.77 and a power of two is the `double` 0.77 with
another exponent, and no sum comes near an integer: for the 30 sizes there are the result is that of the fraction. -/
def hashUpper (newNBuckets : Nat) : Nat := (77 * newNBuckets + 50) / 100

def khClear (h : Kh κ ν) : Kh κ ν :=
  if h.nBuckets ≠ 0 then { h with flags := memsetAa, size := 0, nOccupied := 0 } else h

variable (hash : κ → BitVec 32)

/-! ### Resizing -/

/-- The arrays while the entries move, with the flags of the old buckets and those of the new ones. -/
structure Rehash (κ ν : Type) where
  flags : Flags
  newFlags : Flags
  keys : Nat → κ
  vals : Nat → ν

/-- `while (!__ac_isempty(new_flags, i)) i = (i + (++step)) & new_mask;` -/
def emptyLoop (newFlags : Flags) (newMask : Nat) : Nat → Nat → Nat → Option Nat
  | 0, _, _ => none
  | fuel + 1, i, step =>
    if acIsempty newFlags i then some i else emptyLoop newFlags newMask fuel ((i + (step + 1)) &&& newMask) (step + 1)

/-- The `while (1)` of `kh_resize`: the entry in hand takes the first empty bucket of its way, and an old entry that lies
there is the next one in hand. -/
def kickOut (nBuckets newNBuckets : Nat) : Nat → Rehash κ ν → κ → ν → Option (Rehash κ ν)
  | 0, _, _, _ => none
  | fuel + 1, r, key, val => do
    let newMask := newNBuckets - 1
    let i ← emptyLoop r.newFlags newMask (2 * newNBuckets) ((hash key).toNat &&& newMask) 0
    let s : Rehash κ ν :=
      { r with
        newFlags := acSetIsemptyFalse r.newFlags i, keys := update r.keys i key, vals := update r.vals i val }
    if i < nBuckets && !acIseither r.flags i then
      kickOut nBuckets newNBuckets fuel { s with flags := acSetIsdelTrue r.flags i } (r.keys i) (r.vals i)
    else some s

/-- One round of the loop over the old buckets. -/
def moveBucket (nBuckets newNBuckets : Nat) (r : Rehash κ ν) (j : Nat) : Option (Rehash κ ν) :=
  if !acIseither r.flags j then
    kickOut hash nBuckets newNBuckets (nBuckets + 1) { r with flags := acSetIsdelTrue r.flags j } (r.keys j) (r.vals j)
  else some r

/-- `kh_resize`, with what it returns. `alloc` says whether the memory it asks for is there: where it is not, the table
keeps its entries and -1 is returned. The `krealloc` that makes the arrays smaller is not checked and is taken to succeed. -/
def khResize (h : Kh κ ν) (newNBuckets : Nat) (alloc : Bool) : Option (Kh κ ν × Int) :=
  let newNBuckets := (kroundup32 (BitVec.ofNat 32 newNBuckets)).toNat
  let newNBuckets := if newNBuckets < 4 then 4 else newNBuckets
  if hashUpper newNBuckets ≤ h.size then some (h, 0)
  else if !alloc then some (h, -1)
  else do
    let r ← (List.range h.nBuckets).foldlM (moveBucket hash h.nBuckets newNBuckets) ⟨h.flags, memsetAa, h.keys, h.vals⟩
    some (⟨newNBuckets, h.size, h.size, hashUpper newNBuckets, r.newFlags, r.keys, r.vals⟩, 0)

/-! ### Getting -/

variable [DecidableEq κ]

section Get
variable (h : Kh κ ν) (key : κ)

/-- The condition of the `while` loops of `kh_get` and `kh_put`. -/
def goesOn (i : Nat) : Bool := !acIsempty h.flags i && (acIsdel h.flags i || h.keys i ≠ key)

/-- The loop of `kh_get`. It is back at its first bucket after `2 * n_buckets - 1` steps at the latest. -/
def getLoop (last : Nat) : Nat → Nat → Nat → Option Nat
  | 0, _, _ => none
  | fuel + 1, i, step =>
    if goesOn h key i then
      let i := (i + (step + 1)) &&& (h.nBuckets - 1)
      if i = last then some h.nBuckets else getLoop last fuel i (step + 1)
    else some (if acIseither h.flags i then h.nBuckets else i)

def khGet : Option Nat :=
  if h.nBuckets ≠ 0 then
    let i := (hash key).toNat &&& (h.nBuckets - 1)
    getLoop h key i (2 * h.nBuckets) i 0
  else some 0

end Get

/-! ### Putting and deleting -/

/-- The loop of `kh_put`. The result is `x`, `i` and `site`. -/
def putLoop (h : Kh κ ν) (key : κ) (last : Nat) : Nat → Nat → Nat → Nat → Option (Nat × Nat × Nat)
  | 0, _, _, _ => none
  | fuel + 1, i, step, site =>
    if goesOn h key i then
      let site := if acIsdel h.flags i then i else site
      let i := (i + (step + 1)) &&& (h.nBuckets - 1)
      if i = last then some (site, i, site) else putLoop h key last fuel i (step + 1) site
    else some (h.nBuckets, i, site)

/-- The bucket `kh_put` chooses. -/
def putBucket (h : Kh κ ν) (key : κ) : Option Nat :=
  let i := (hash key).toNat &&& (h.nBuckets - 1)
  if acIsempty h.flags i then some i
  else do
    let (x, i, site) ← putLoop h key i (2 * h.nBuckets) i 0 h.nBuckets
    some (if x = h.nBuckets then if acIsempty h.flags i && site ≠ h.nBuckets then site else i else x)

/-- The end of `kh_put`, with `*ret`. -/
def occupy (h : Kh κ ν) (key : κ) (x : Nat) : Kh κ ν × Int :=
  if acIsempty h.flags x then
    ({ h with keys := update h.keys x key, flags := acSetIsbothFalse h.flags x
              size := h.size + 1, nOccupied := h.nOccupied + 1 }, 1)
  else if acIsdel h.flags x then
    ({ h with keys := update h.keys x key, flags := acSetIsbothFalse h.flags x, size := h.size + 1 }, 2)
  else (h, 0)

/-- The `kh_resize` at the start of `kh_put`. -/
def makeRoom (h : Kh κ ν) (alloc : Bool) : Option (Kh κ ν × Int) :=
  if h.upperBound ≤ h.nOccupied then
    if h.size <<< 1 % 2 ^ 32 < h.nBuckets then khResize hash h (h.nBuckets - 1) alloc
    else khResize hash h (h.nBuckets + 1) alloc
  else some (h, 0)

/-- `kh_put`: the table, the bucket and `*ret`. -/
def khPut (h : Kh κ ν) (key : κ) (alloc : Bool) : Option (Kh κ ν × Nat × Int) := do
  let (h, r) ← makeRoom hash h alloc
  if r < 0 then some (h, h.nBuckets, -1)
  else
    let x ← putBucket hash h key
    let (h, ret) := occupy h key x
    some (h, x, ret)

def khDel (h : Kh κ ν) (x : Nat) : Kh κ ν :=
  if x ≠ h.nBuckets && !acIseither h.flags x then { h with flags := acSetIsdelTrue h.flags x, size := h.size - 1 }
  else h

/-- `kh_foreach`, as the list of what it visits. -/
def khForeach (h : Kh κ ν) : List (κ × ν) :=
  ((List.range h.nBuckets).filter fun i => !acIseither h.flags i).map fun i => (h.keys i, h.vals i)

/-! ### What the callers do -/

/-- `k = kh_put(…); if(ret>=0) kh_value(…, k) = val`, `k = kh_get(…); kh_del(…, k)`, `kh_clear` and `kh_resize`. -/
inductive Op (κ ν : Type)
  | put (key : κ) (val : ν) (alloc : Bool)
  | del (key : κ)
  | clear
  | resize (newNBuckets : Nat) (alloc : Bool)

def putValue (h : Kh κ ν) (key : κ) (val : ν) (alloc : Bool) : Option (Kh κ ν) := do
  let (h, x, ret) ← khPut hash h key alloc
  some (if ret < 0 then h else { h with vals := update h.vals x val })

def delKey (h : Kh κ ν) (key : κ) : Option (Kh κ ν) := (khGet hash h key).map (khDel h)

/-- `k = kh_get(…)`, and the value there unless `k` is `kh_end`. -/
def getValue (h : Kh κ ν) (key : κ) : Option (Option ν) :=
  (khGet hash h key).map fun x => if x = h.nBuckets then none else some (h.vals x)

def step (h : Kh κ ν) : Op κ ν → Option (Kh κ ν)
  | .put key val alloc => putValue hash h key val alloc
  | .del key => delKey hash h key
  | .clear => some (khClear h)
  | .resize newNBuckets alloc => (khResize hash h newNBuckets alloc).map Prod.fst

end Box64.Khash
