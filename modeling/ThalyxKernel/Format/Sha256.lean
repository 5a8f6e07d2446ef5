/-
The guest's SHA-256: `user/k4fmt/src/sha256.rs`.

The program runs with overflow checks, so it is a computation that stops at an index out of
range.  It is compared with the standard in three steps: one compression is the standard's,
an update is the bytes absorbed one by one, and the padding makes whole blocks.  Together
they say that the digest depends on the bytes alone, whichever way they were cut.
-/
import ThalyxKernel.Lib.Checked
import ThalyxKernel.Lib.SecureHash

namespace Thalyx.Wire

open Checked

abbrev U32 := BitVec 32

/-! ### The program -/

/-- The round constants. -/
def K : Vector U32 64 := #v[
  0x428a2f98, 0x71374491, 0xb5c0fbcf, 0xe9b5dba5, 0x3956c25b, 0x59f111f1, 0x923f82a4, 0xab1c5ed5,
  0xd807aa98, 0x12835b01, 0x243185be, 0x550c7dc3, 0x72be5d74, 0x80deb1fe, 0x9bdc06a7, 0xc19bf174,
  0xe49b69c1, 0xefbe4786, 0x0fc19dc6, 0x240ca1cc, 0x2de92c6f, 0x4a7484aa, 0x5cb0a9dc, 0x76f988da,
  0x983e5152, 0xa831c66d, 0xb00327c8, 0xbf597fc7, 0xc6e00bf3, 0xd5a79147, 0x06ca6351, 0x14292967,
  0x27b70a85, 0x2e1b2138, 0x4d2c6dfc, 0x53380d13, 0x650a7354, 0x766a0abb, 0x81c2c92e, 0x92722c85,
  0xa2bfe8a1, 0xa81a664b, 0xc24b8b70, 0xc76c51a3, 0xd192e819, 0xd6990624, 0xf40e3585, 0x106aa070,
  0x19a4c116, 0x1e376c08, 0x2748774c, 0x34b0bcb5, 0x391c0cb3, 0x4ed8aa4a, 0x5b9cca4f, 0x682e6ff3,
  0x748f82ee, 0x78a5636f, 0x84c87814, 0x8cc70208, 0x90befffa, 0xa4506ceb, 0xbef9a3f7, 0xc67178f2]

/-- The initial hash value. -/
def H0 : Vector U32 8 := #v[
  0x6a09e667, 0xbb67ae85, 0x3c6ef372, 0xa54ff53a, 0x510e527f, 0x9b05688c, 0x1f83d9ab, 0x5be0cd19]

structure Sha256 where
  state : Vector U32 8
  block : Vector UInt8 64
  filled : Nat
  length : BitVec 64

namespace Sha256

def new : Sha256 where
  state := H0
  block := Vector.replicate 64 0
  filled := 0
  length := 0

/-- `u32::from_be_bytes` of the four bytes of `block` at `index * 4`. -/
def wordAt (block : Vector UInt8 64) (index : Nat) : Option U32 := do
  let first ← mul index 4
  let b0 ← block[first]?
  let b1 ← block[(← add first 1)]?
  let b2 ← block[(← add first 2)]?
  let b3 ← block[(← add first 3)]?
  return BitVec.ofNat 32 (fromBigEndian [b0, b1, b2, b3])

/-- `w[index - back]`. -/
def earlier (w : Vector U32 64) (index back : Nat) : Option U32 := do
  w[(← sub index back)]?

/-- The two loops that fill `w`. -/
def loadWord (block : Vector UInt8 64) (w : Vector U32 64) (index : Nat) :
    Option (Vector U32 64) := do
  store w index (← wordAt block index)

def expandWord (w : Vector U32 64) (index : Nat) : Option (Vector U32 64) := do
  let w15 ← earlier w index 15
  let s0 := w15.rotateRight 7 ^^^ w15.rotateRight 18 ^^^ (w15 >>> 3)
  let w2 ← earlier w index 2
  let s1 := w2.rotateRight 17 ^^^ w2.rotateRight 19 ^^^ (w2 >>> 10)
  store w index ((← earlier w index 16) + s0 + (← earlier w index 7) + s1)

def messageSchedule (block : Vector UInt8 64) : Option (Vector U32 64) := do
  let w ← (List.range' 0 16).foldlM (loadWord block) (Vector.replicate 64 0)
  (List.range' 16 48).foldlM expandWord w

/-- The variables `a` to `h`. -/
structure Variables where
  a : U32
  b : U32
  c : U32
  d : U32
  e : U32
  f : U32
  g : U32
  h : U32

def turn (w : Vector U32 64) (v : Variables) (index : Nat) : Option Variables := do
  let s1 := v.e.rotateRight 6 ^^^ v.e.rotateRight 11 ^^^ v.e.rotateRight 25
  let ch := (v.e &&& v.f) ^^^ (~~~v.e &&& v.g)
  let t1 := v.h + s1 + ch + (← K[index]?) + (← w[index]?)
  let s0 := v.a.rotateRight 2 ^^^ v.a.rotateRight 13 ^^^ v.a.rotateRight 22
  let maj := (v.a &&& v.b) ^^^ (v.a &&& v.c) ^^^ (v.b &&& v.c)
  let t2 := s0 + maj
  return { h := v.g, g := v.f, f := v.e, e := v.d + t1, d := v.c, c := v.b, b := v.a, a := t1 + t2 }

def compress (hasher : Sha256) (block : Vector UInt8 64) : Option Sha256 := do
  let w ← messageSchedule block
  let s := hasher.state
  let start : Variables := ⟨s[0], s[1], s[2], s[3], s[4], s[5], s[6], s[7]⟩
  let v ← (List.range' 0 64).foldlM (turn w) start
  let next : Vector U32 8 := #v[v.a, v.b, v.c, v.d, v.e, v.f, v.g, v.h]
  return { hasher with state := s.zipWith (· + ·) next }

/-- Compresses the buffer once it is full. -/
def compressFull (hasher : Sha256) : Option Sha256 :=
  if hasher.filled = 64 then do
    let hasher ← hasher.compress hasher.block
    return { hasher with filled := 0 }
  else some hasher

/-- The part of `update` that fills up what an earlier call left. -/
def topUp (hasher : Sha256) (rest : List UInt8) : Option (Sha256 × List UInt8) :=
  if hasher.filled > 0 then do
    let want ← sub 64 hasher.filled
    let take := if rest.length < want then rest.length else want
    let stop ← add hasher.filled take
    let block ← copyInto hasher.block hasher.filled stop (← slice rest 0 take)
    let rest ← slice rest take rest.length
    let hasher ← compressFull { hasher with block, filled := stop }
    return (hasher, rest)
  else some (hasher, rest)

/-- The loop of `update` over whole blocks of its argument. -/
def wholeBlocks (hasher : Sha256) (rest : List UInt8) : Option (Sha256 × List UInt8) :=
  if _ : rest.length ≥ 64 then do
    let block ← copyInto (Vector.replicate 64 0) 0 64 (rest.take 64)
    let hasher ← hasher.compress block
    wholeBlocks hasher (rest.drop 64)
  else some (hasher, rest)
termination_by rest.length
decreasing_by
  rw [List.length_drop]
  omega

/-- The end of `update`. -/
def keepRest (hasher : Sha256) (rest : List UInt8) : Option Sha256 :=
  if rest ≠ [] then do
    let block ← copyInto hasher.block 0 rest.length rest
    return { hasher with block, filled := rest.length }
  else some hasher

def update (hasher : Sha256) (data : List UInt8) : Option Sha256 := do
  let hasher := { hasher with length := hasher.length + BitVec.ofNat 64 data.length }
  let (hasher, rest) ← hasher.topUp data
  let (hasher, rest) ← hasher.wholeBlocks rest
  hasher.keepRest rest

def updateRaw (hasher : Sha256) (data : List UInt8) : Option Sha256 :=
  data.foldlM (fun hasher byte => do
    let block ← store hasher.block hasher.filled byte
    let filled ← add hasher.filled 1
    compressFull { hasher with block, filled }) hasher

/-- The loop of `finish`, for as many turns as it may take. -/
def zeroFill : Nat → Sha256 → Option Sha256
  | 0, _ => none
  | turns + 1, hasher =>
    if hasher.filled ≠ 56 then do
      zeroFill turns (← hasher.updateRaw [0x00])
    else some hasher

/-- The bytes of the state. -/
def writeState (state : Vector U32 8) : Option (Vector UInt8 32) :=
  (List.range' 0 8).foldlM (fun out index => do
    let word ← state[index]?
    let start ← mul index 4
    let stop ← add start 4
    copyInto out start stop (bigEndian 4 word.toNat)) (Vector.replicate 32 0)

def finish (hasher : Sha256) : Option (Vector UInt8 32) := do
  let bits := hasher.length * 8
  let hasher ← hasher.updateRaw [0x80]
  let hasher ← zeroFill 64 hasher
  let hasher ← hasher.updateRaw (bigEndian 8 bits.toNat)
  writeState hasher.state

/-- The hash value a state holds. -/
def wordsOf (s : Vector U32 8) : Fips.Words := ⟨s[0], s[1], s[2], s[3], s[4], s[5], s[6], s[7]⟩

/-- A computation over the pieces, in order. -/
def digestOf (pieces : List (List UInt8)) : Option (Vector UInt8 32) := do
  (← pieces.foldlM update new).finish

end Sha256

end Thalyx.Wire
