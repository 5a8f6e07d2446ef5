/-
Numbers, bytes and bits, most significant first.

A byte string and the bit string it stands for hold the same number, and the encoding of a
number into bytes is its encoding into eight times as many bits.
-/
import ThalyxKernel.Lib.Layout

namespace Thalyx

open List

/-! ### Bits -/

/-- The `width` low bits of `n`, most significant first. -/
def bitsOf : Nat → Nat → List Bool
  | 0, _ => []
  | width + 1, n => n.testBit width :: bitsOf width n

/-- The number whose bits these are, most significant first. -/
def ofBits (bits : List Bool) : Nat :=
  bits.foldl (fun n bit => 2 * n + bit.toNat) 0

@[simp] theorem length_bitsOf (width n : Nat) : (bitsOf width n).length = width := by
  induction width with
  | zero => rfl
  | succ width ih => rw [bitsOf, length_cons, ih]

theorem bitsOf_add (high low n : Nat) :
    bitsOf (high + low) n = bitsOf high (n / 2 ^ low) ++ bitsOf low n := by
  induction high with
  | zero => rw [Nat.zero_add, bitsOf, nil_append]
  | succ high ih =>
    rw [Nat.succ_add, bitsOf, bitsOf, ih, cons_append, Nat.testBit_div_two_pow]

theorem bitsOf_mod (width n : Nat) : bitsOf width (n % 2 ^ width) = bitsOf width n := by
  have hbelow : ∀ {below : Nat}, below ≤ width →
      bitsOf below (n % 2 ^ width) = bitsOf below n := by
    intro below
    induction below with
    | zero => intro _; rfl
    | succ below ih =>
      intro hle
      rw [bitsOf, bitsOf, ih (by omega), Nat.testBit_mod_two_pow]
      simp [show below < width by omega]
  exact hbelow (Nat.le_refl _)

theorem ofBits_concat (bits : List Bool) (bit : Bool) :
    ofBits (bits ++ [bit]) = 2 * ofBits bits + bit.toNat := by
  simp [ofBits]

theorem ofBits_bitsOf (width n : Nat) : ofBits (bitsOf width n) = n % 2 ^ width := by
  induction width generalizing n with
  | zero => simp [bitsOf, ofBits, Nat.mod_one]
  | succ width ih =>
    have hlow : bitsOf 1 n = [n.testBit 0] := rfl
    rw [bitsOf_add width 1 n, hlow, ofBits_concat, ih, Nat.pow_one, Nat.pow_succ',
      Nat.mod_mul, Nat.testBit_zero]
    rcases Nat.mod_two_eq_zero_or_one n with h | h
    · simp [h]
    · simp [h]
      omega

/-! ### Bytes -/

/-- The `width` bytes of `n`, most significant first. -/
def bigEndian (width n : Nat) : List UInt8 := (littleEndian width n).reverse

/-- The number whose bytes these are, most significant first. -/
def fromBigEndian (bytes : List UInt8) : Nat := fromLittleEndian bytes.reverse

@[simp] theorem length_bigEndian (width n : Nat) : (bigEndian width n).length = width := by
  rw [bigEndian, length_reverse, length_littleEndian]

theorem bigEndian_fromBigEndian (bytes : List UInt8) :
    bigEndian bytes.length (fromBigEndian bytes) = bytes := by
  have h := littleEndian_fromLittleEndian bytes.reverse
  rw [length_reverse] at h
  rw [bigEndian, fromBigEndian, h, reverse_reverse]

theorem fromBigEndian_lt (bytes : List UInt8) : fromBigEndian bytes < 256 ^ bytes.length := by
  have h := fromLittleEndian_lt bytes.reverse
  rwa [length_reverse] at h

/-- The bits a byte string stands for. -/
def bitString (bytes : List UInt8) : List Bool :=
  bytes.flatMap fun byte => bitsOf 8 byte.toNat

theorem bitString_append (a b : List UInt8) : bitString (a ++ b) = bitString a ++ bitString b := by
  simp [bitString]

@[simp] theorem length_bitString (bytes : List UInt8) :
    (bitString bytes).length = 8 * bytes.length := by
  induction bytes with
  | nil => rfl
  | cons byte rest ih =>
    have hcons : bitString (byte :: rest) = bitsOf 8 byte.toNat ++ bitString rest := rfl
    rw [hcons, length_append, length_bitsOf, ih, length_cons]
    omega

theorem take_bitString (bytes : List UInt8) (n : Nat) :
    (bitString bytes).take (8 * n) = bitString (bytes.take n) := by
  by_cases h : n ≤ bytes.length
  · have hlen : (bitString (bytes.take n)).length = 8 * n := by
      rw [length_bitString, length_take, Nat.min_eq_left h]
    conv_lhs => rw [← take_append_drop n bytes, bitString_append]
    exact take_left' hlen
  · have hle : bytes.length ≤ n := by omega
    rw [take_of_length_le hle, take_of_length_le (by rw [length_bitString]; omega)]

theorem drop_bitString (bytes : List UInt8) (n : Nat) :
    (bitString bytes).drop (8 * n) = bitString (bytes.drop n) := by
  have hsplit : bitString bytes = bitString (bytes.take n) ++ bitString (bytes.drop n) := by
    rw [← bitString_append, take_append_drop]
  refine @List.append_cancel_left _ ((bitString bytes).take (8 * n)) _ _ ?_
  rw [take_append_drop, take_bitString, ← hsplit]

theorem bitString_replicate_zero (n : Nat) :
    bitString (List.replicate n 0) = List.replicate (8 * n) false := by
  induction n with
  | zero => rfl
  | succ n ih =>
    have hone : bitString [0] = List.replicate 8 false := rfl
    rw [replicate_succ, ← singleton_append, bitString_append, ih, hone,
      ← replicate_add, Nat.mul_succ, Nat.add_comm]

theorem bitString_bigEndian (width n : Nat) :
    bitString (bigEndian width n) = bitsOf (8 * width) n := by
  induction width generalizing n with
  | zero => rfl
  | succ width ih =>
    have hstep : bigEndian (width + 1) n = bigEndian width (n / 256) ++ [UInt8.ofNat n] := by
      rw [bigEndian, littleEndian, reverse_cons, bigEndian]
    have hlast : bitString [UInt8.ofNat n] = bitsOf 8 n := by
      rw [← bitsOf_mod 8 n]
      simp [bitString]
    rw [hstep, bitString_append, ih, hlast, Nat.mul_succ, bitsOf_add]
    rfl

theorem ofBits_bitString (bytes : List UInt8) : ofBits (bitString bytes) = fromBigEndian bytes := by
  conv_lhs => rw [← bigEndian_fromBigEndian bytes]
  rw [bitString_bigEndian, ofBits_bitsOf, Nat.pow_mul]
  exact Nat.mod_eq_of_lt (fromBigEndian_lt bytes)

theorem bitString_injective : Function.Injective bitString := by
  intro a b h
  have hlen : a.length = b.length := by
    have := congrArg List.length h
    rw [length_bitString, length_bitString] at this
    omega
  have hnumber : fromBigEndian a = fromBigEndian b := by
    rw [← ofBits_bitString, ← ofBits_bitString, h]
  rw [← bigEndian_fromBigEndian a, ← bigEndian_fromBigEndian b, hlen, hnumber]

end Thalyx
