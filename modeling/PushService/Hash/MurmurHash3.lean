import Mathlib.Data.Option.Basic
import PushService.Bytes
import PushService.Hash.BlockHash
import PushService.Hash.Mixing

/-!
# MurmurHash3

The three functions of `MurmurHash3.cpp`, as they read the memory: full blocks as words in the byte
order of the machine, counted by an `int` that in the two functions for x86 runs from minus the
number of blocks up to zero, and then the bytes that are left, by a `switch` whose cases fall
through.

A `none` is undefined behaviour: a read outside the memory, or the counter running over.
-/

namespace PushService.MurmurHash3

open Words

variable {w : ℕ} {σ τ : Type*}

/-! ## Reading the memory -/

/-- `data[i]`. -/
def byteAt (data : Bytes) (i : ℤ) : Option UInt8 := if 0 ≤ i then data[i.toNat]? else none

/-- The `n` bytes from `data[i]` on. -/
def bytesAt (data : Bytes) (i : ℤ) : ℕ → Option Bytes
  | 0 => some []
  | n + 1 => do
    let b ← byteAt data i
    let rest ← bytesAt data (i + 1) n
    some (b :: rest)

/-- `p[i]`, with `p` at `data + blocks`, a pointer to words of `n` bytes. -/
def getblock (w n : ℕ) (order : ByteOrder) (data : Bytes) (blocks i : ℤ) : Option (BitVec w) :=
  (bytesAt data (blocks + n * i) n).map fun b ↦ ofBytes w (order.lowFirst b)

def getblock32 : ByteOrder → Bytes → ℤ → ℤ → Option (BitVec 32) := getblock 32 4

def getblock64 : ByteOrder → Bytes → ℤ → ℤ → Option (BitVec 64) := getblock 64 8

/-- The cases `n` to 1 of the `switch`: the bytes from the last to the first, each in its place. -/
def xorBytes (data : Bytes) (tail : ℤ) : ℕ → BitVec w → Option (BitVec w)
  | 0, k => some k
  | n + 1, k => do
    let b ← byteAt data (tail + n)
    xorBytes data tail n (k ^^^ BitVec.ofNat w b.toNat <<< (8 * n))

/-- The part of the `switch` for one word: the bytes with the numbers from `lo` to `hi`, as far as
there are such among the `r` at `tail`, then the mixing of the word and its way into the state. -/
def tailInto (data : Bytes) (tail : ℤ) (r lo hi : ℕ) (mix : BitVec w → BitVec w) (h : BitVec w) :
    Option (BitVec w) :=
  if lo < r then do
    let k ← xorBytes data (tail + lo) (min r hi - lo) 0
    some (h ^^^ mix k)
  else some h

/-! ## The loops over the blocks -/

/-- `for (int i = …; i; i++)`. -/
def untilZero (body : ℤ → σ → Option σ) (i : ℤ) (h : σ) : Option σ :=
  if i = 0 then some h
  else do
    let h' ← body i h
    if i + 1 < 2 ^ 31 then untilZero body (i + 1) h' else none
termination_by (2 ^ 31 - i).toNat

/-- `for (int i = …; i < n; i++)`. -/
def upTo (n : ℤ) (body : ℤ → σ → Option σ) (i : ℤ) (h : σ) : Option σ :=
  if i < n then do
    let h' ← body i h
    upTo n body (i + 1) h'
  else some h
termination_by (n - i).toNat

/-! ## Mixing -/

/-- `k *= c; k = ROTL(k, r); k *= c'`. -/
def mixKey (c : BitVec w) (r : ℕ) (c' k : BitVec w) : BitVec w := rotl (k * c) r * c'

def fmix32 (h : BitVec 32) : BitVec 32 :=
  xorShift 16 (xorShift 13 (xorShift 16 h * 0x85ebca6b) * 0xc2b2ae35)

def fmix64 (k : BitVec 64) : BitVec 64 :=
  xorShift 33 (xorShift 33 (xorShift 33 k * 0xff51afd7ed558ccd) * 0xc4ceb9fe1a85ec53)

/-! ## `MurmurHash3_x86_32` -/

namespace X86_32

def mixK1 : BitVec 32 → BitVec 32 := mixKey 0xcc9e2d51 15 0x1b873593

/-- The body of the loop, once the block is read. -/
def body (h1 k1 : BitVec 32) : BitVec 32 := rotl (h1 ^^^ mixK1 k1) 13 * 5 + 0xe6546b64

def readBody (order : ByteOrder) (data : Bytes) (blocks i : ℤ) (h1 : BitVec 32) :
    Option (BitVec 32) := do
  let k1 ← getblock32 order data blocks i
  some (body h1 k1)

end X86_32

def murmurHash3_x86_32 (order : ByteOrder) (data : Bytes) (len : ℤ) (seed : BitVec 32) :
    Option (BitVec 32) := do
  let nblocks := len.tdiv 4
  let tail := nblocks * 4
  let h1 ← untilZero (X86_32.readBody order data tail) (-nblocks) seed
  let h1 ← tailInto data tail (len % 4).toNat 0 4 X86_32.mixK1 h1
  some (fmix32 (h1 ^^^ BitVec.ofInt 32 len))

/-! ## `MurmurHash3_x86_128` -/

namespace X86_128

@[ext]
structure State where
  h1 : BitVec 32
  h2 : BitVec 32
  h3 : BitVec 32
  h4 : BitVec 32
  deriving DecidableEq, Repr

def mixK1 : BitVec 32 → BitVec 32 := mixKey 0x239b961b 15 0xab0e9789
def mixK2 : BitVec 32 → BitVec 32 := mixKey 0xab0e9789 16 0x38b34ae5
def mixK3 : BitVec 32 → BitVec 32 := mixKey 0x38b34ae5 17 0xa1e38b93
def mixK4 : BitVec 32 → BitVec 32 := mixKey 0xa1e38b93 18 0x239b961b

def body (h : State) (k1 k2 k3 k4 : BitVec 32) : State :=
  let h1 := (rotl (h.h1 ^^^ mixK1 k1) 19 + h.h2) * 5 + 0x561ccd1b
  let h2 := (rotl (h.h2 ^^^ mixK2 k2) 17 + h.h3) * 5 + 0x0bcaa747
  let h3 := (rotl (h.h3 ^^^ mixK3 k3) 15 + h.h4) * 5 + 0x96cd1c35
  -- the first word is already the new one here
  let h4 := (rotl (h.h4 ^^^ mixK4 k4) 13 + h1) * 5 + 0x32ac3b17
  ⟨h1, h2, h3, h4⟩

def readBody (order : ByteOrder) (data : Bytes) (blocks i : ℤ) (h : State) : Option State := do
  let k1 ← getblock32 order data blocks (i * 4 + 0)
  let k2 ← getblock32 order data blocks (i * 4 + 1)
  let k3 ← getblock32 order data blocks (i * 4 + 2)
  let k4 ← getblock32 order data blocks (i * 4 + 3)
  some (body h k1 k2 k3 k4)

/-- `h1 += h2; h1 += h3; h1 += h4; h2 += h1; h3 += h1; h4 += h1`. -/
def addUp (h : State) : State :=
  let h1 := h.h1 + h.h2 + h.h3 + h.h4
  ⟨h1, h.h2 + h1, h.h3 + h1, h.h4 + h1⟩

def map (f : BitVec 32 → BitVec 32) (h : State) : State := ⟨f h.h1, f h.h2, f h.h3, f h.h4⟩

def finalize (len : BitVec 32) (h : State) : State := addUp (map fmix32 (addUp (map (· ^^^ len) h)))

end X86_128

def murmurHash3_x86_128 (order : ByteOrder) (data : Bytes) (len : ℤ) (seed : BitVec 32) :
    Option X86_128.State := do
  let nblocks := len.tdiv 16
  let tail := nblocks * 16
  let h ← untilZero (X86_128.readBody order data tail) (-nblocks) ⟨seed, seed, seed, seed⟩
  let r := (len % 16).toNat
  let h4 ← tailInto data tail r 12 16 X86_128.mixK4 h.h4
  let h3 ← tailInto data tail r 8 12 X86_128.mixK3 h.h3
  let h2 ← tailInto data tail r 4 8 X86_128.mixK2 h.h2
  let h1 ← tailInto data tail r 0 4 X86_128.mixK1 h.h1
  some (X86_128.finalize (BitVec.ofInt 32 len) ⟨h1, h2, h3, h4⟩)

/-! ## `MurmurHash3_x64_128` -/

namespace X64_128

@[ext]
structure State where
  h1 : BitVec 64
  h2 : BitVec 64
  deriving DecidableEq, Repr

def mixK1 : BitVec 64 → BitVec 64 := mixKey 0x87c37b91114253d5 31 0x4cf5ad432745937f
def mixK2 : BitVec 64 → BitVec 64 := mixKey 0x4cf5ad432745937f 33 0x87c37b91114253d5

def body (h : State) (k1 k2 : BitVec 64) : State :=
  let h1 := (rotl (h.h1 ^^^ mixK1 k1) 27 + h.h2) * 5 + 0x52dce729
  -- the first word is already the new one here
  let h2 := (rotl (h.h2 ^^^ mixK2 k2) 31 + h1) * 5 + 0x38495ab5
  ⟨h1, h2⟩

def readBody (order : ByteOrder) (data : Bytes) (blocks i : ℤ) (h : State) : Option State := do
  let k1 ← getblock64 order data blocks (i * 2 + 0)
  let k2 ← getblock64 order data blocks (i * 2 + 1)
  some (body h k1 k2)

/-- `h1 += h2; h2 += h1`. -/
def addUp (h : State) : State :=
  let h1 := h.h1 + h.h2
  ⟨h1, h.h2 + h1⟩

def map (f : BitVec 64 → BitVec 64) (h : State) : State := ⟨f h.h1, f h.h2⟩

def finalize (len : BitVec 64) (h : State) : State := addUp (map fmix64 (addUp (map (· ^^^ len) h)))

end X64_128

def murmurHash3_x64_128 (order : ByteOrder) (data : Bytes) (len : ℤ) (seed : BitVec 32) :
    Option X64_128.State := do
  let nblocks := len.tdiv 16
  let h ← upTo nblocks (X64_128.readBody order data 0) 0 ⟨seed.setWidth 64, seed.setWidth 64⟩
  let tail := nblocks * 16
  let r := (len % 16).toNat
  let h2 ← tailInto data tail r 8 16 X64_128.mixK2 h.h2
  let h1 ← tailInto data tail r 0 8 X64_128.mixK1 h.h1
  -- the length, an `int`, is widened with its sign
  some (X64_128.finalize (BitVec.ofInt 64 len) ⟨h1, h2⟩)

end PushService.MurmurHash3
