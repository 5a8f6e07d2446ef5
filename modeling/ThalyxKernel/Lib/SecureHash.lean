/-
SHA-256 as FIPS 180-4 defines it, over bit strings.

The constants are not a table: they are the fractions of the square and cube roots the
standard derives them from.  The words, the padding, the message schedule and the
compression are the standard's, so a program's digest can be compared with this one.
-/
import ThalyxKernel.Lib.Absorb
import ThalyxKernel.Lib.Bits

namespace Thalyx.Fips

/-! ### Words (§3.2, §4.1.2) -/

abbrev Word := BitVec 32

def shr (n : Nat) (x : Word) : Word := x >>> n

def rotr (n : Nat) (x : Word) : Word := (x >>> n) ||| (x <<< (32 - n))

def ch (x y z : Word) : Word := (x &&& y) ^^^ (~~~x &&& z)

def maj (x y z : Word) : Word := (x &&& y) ^^^ (x &&& z) ^^^ (y &&& z)

def bigSigma0 (x : Word) : Word := rotr 2 x ^^^ rotr 13 x ^^^ rotr 22 x

def bigSigma1 (x : Word) : Word := rotr 6 x ^^^ rotr 11 x ^^^ rotr 25 x

def smallSigma0 (x : Word) : Word := rotr 7 x ^^^ rotr 18 x ^^^ shr 3 x

def smallSigma1 (x : Word) : Word := rotr 17 x ^^^ rotr 19 x ^^^ shr 10 x

/-! ### Constants (§4.2.2, §5.3.3) -/

/-- The primes below 312, which are the first sixty-four. -/
def firstPrimes : List Nat :=
  (List.range 312).filter fun p => 2 ≤ p ∧ ∀ d ∈ List.range p, 2 ≤ d → ¬ d ∣ p

/-- The first 32 bits of the fractional part of the `k`-th root of `p`. -/
def rootFraction (k p : Nat) : Nat :=
  Nat.findGreatest (fun r => r ^ k ≤ p * (2 ^ 32) ^ k) (p * 2 ^ 32) % 2 ^ 32

theorem rootFraction_eq {k p whole fraction : Nat} (hfraction : fraction < 2 ^ 32)
    (hbound : whole * 2 ^ 32 + fraction ≤ p * 2 ^ 32)
    (hlow : (whole * 2 ^ 32 + fraction) ^ k ≤ p * (2 ^ 32) ^ k)
    (hhigh : p * (2 ^ 32) ^ k < (whole * 2 ^ 32 + fraction + 1) ^ k) :
    rootFraction k p = fraction := by
  have hroot : Nat.findGreatest (fun r => r ^ k ≤ p * (2 ^ 32) ^ k) (p * 2 ^ 32)
      = whole * 2 ^ 32 + fraction := by
    rw [Nat.findGreatest_eq_iff]
    refine ⟨hbound, fun _ => hlow, ?_⟩
    intro r hr _ hle
    exact absurd (Nat.lt_of_lt_of_le hhigh (Nat.pow_le_pow_left hr k)) (Nat.not_lt.mpr hle)
  rw [rootFraction, hroot, Nat.mul_comm, Nat.mul_add_mod, Nat.mod_eq_of_lt hfraction]

def roundConstant (t : Nat) : Word := BitVec.ofNat 32 (rootFraction 3 (firstPrimes.getD t 0))

def initialWord (i : Nat) : Word := BitVec.ofNat 32 (rootFraction 2 (firstPrimes.getD i 0))

/-! ### Padding and parsing (§5.1.1, §5.2.1) -/

/-- The zeros the padding of `l` bits has between its one and the length. -/
def paddingZeros (l : Nat) : Nat := (447 + 512 - l % 512) % 512

theorem paddingZeros_least (l : Nat) :
    (l + 1 + paddingZeros l) % 512 = 448
      ∧ ∀ k, (l + 1 + k) % 512 = 448 → paddingZeros l ≤ k := by
  unfold paddingZeros
  refine ⟨by omega, fun k hk => by omega⟩

def padded (message : List Bool) : List Bool :=
  message ++ true :: (List.replicate (paddingZeros message.length) false
    ++ bitsOf 64 message.length)

theorem length_padded (message : List Bool) :
    (padded message).length = 512 * ((padded message).length / 512) := by
  have hzeros := (paddingZeros_least message.length).1
  simp only [padded, List.length_append, List.length_cons, List.length_replicate,
    length_bitsOf]
  omega

/-- The blocks of the padded message. -/
def messageBlocks (message : List Bool) : List (List Bool) :=
  blocks 512 ((padded message).length / 512) (padded message)

/-- Word `j` of a block. -/
def blockWord (block : List Bool) (j : Nat) : Word :=
  BitVec.ofNat 32 (ofBits ((block.drop (32 * j)).take 32))

/-! ### Compression (§6.2.2) -/

/-- The eight working variables, and a hash value. -/
structure Words where
  a : Word
  b : Word
  c : Word
  d : Word
  e : Word
  f : Word
  g : Word
  h : Word
deriving DecidableEq

def initialHash : Words where
  a := initialWord 0
  b := initialWord 1
  c := initialWord 2
  d := initialWord 3
  e := initialWord 4
  f := initialWord 5
  g := initialWord 6
  h := initialWord 7

/-- The message schedule of a block whose words are `m`. -/
def schedule (m : Nat → Word) (t : Nat) : Word :=
  if t < 16 then m t
  else smallSigma1 (schedule m (t - 2)) + schedule m (t - 7)
    + smallSigma0 (schedule m (t - 15)) + schedule m (t - 16)

variable {m : Nat → Word}

theorem schedule_word {t : Nat} (h : t < 16) : schedule m t = m t := by
  rw [schedule, if_pos h]

theorem schedule_recurrence {t : Nat} (h : 16 ≤ t) :
    schedule m t = smallSigma1 (schedule m (t - 2)) + schedule m (t - 7)
      + smallSigma0 (schedule m (t - 15)) + schedule m (t - 16) := by
  rw [schedule, if_neg (by omega)]

def round (w : Nat → Word) (v : Words) (t : Nat) : Words :=
  let t1 := v.h + bigSigma1 v.e + ch v.e v.f v.g + roundConstant t + w t
  let t2 := bigSigma0 v.a + maj v.a v.b v.c
  { a := t1 + t2, b := v.a, c := v.b, d := v.c, e := v.d + t1, f := v.e, g := v.f, h := v.g }

def Words.add (v u : Words) : Words where
  a := v.a + u.a
  b := v.b + u.b
  c := v.c + u.c
  d := v.d + u.d
  e := v.e + u.e
  f := v.f + u.f
  g := v.g + u.g
  h := v.h + u.h

def compress (hash : Words) (block : List Bool) : Words :=
  ((List.range 64).foldl (round (schedule (blockWord block))) hash).add hash

/-! ### The digest -/

def Words.bits (v : Words) : List Bool :=
  [v.a, v.b, v.c, v.d, v.e, v.f, v.g, v.h].flatMap fun word => bitsOf 32 word.toNat

def sha256 (message : List Bool) : List Bool :=
  ((messageBlocks message).foldl compress initialHash).bits

end Thalyx.Fips
