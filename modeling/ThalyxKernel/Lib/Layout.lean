/-
Fixed-size byte layouts.

A plain structure of a binary format occupies a fixed number of bytes, every value has
one encoding, and every run of that many bytes is the encoding of one value.  `Layout`
is a pair of functions together with the proofs of these three facts, so a structure
whose fields leave a gap, overlap or have two spellings cannot be given one.

Layouts are built from the little-endian integers and the byte arrays by `pair` and
`via`: a structure is laid out as the product of its fields, in order.

The second half is about buffers: what reading at an offset finds in a buffer that was
written piece by piece from its front.
-/
import Mathlib.Data.List.GetD
import Mathlib.Data.Vector.Basic
import Mathlib.Logic.Equiv.Basic
import Mathlib.Tactic.Ring

namespace Thalyx

/-! ### Little-endian numbers -/

/-- The `width` bytes of `n`, least significant first. -/
def littleEndian : Nat → Nat → List UInt8
  | 0, _ => []
  | width + 1, n => UInt8.ofNat n :: littleEndian width (n / 256)

/-- The number whose bytes these are, least significant first. -/
def fromLittleEndian : List UInt8 → Nat
  | [] => 0
  | byte :: rest => byte.toNat + 256 * fromLittleEndian rest

@[simp] theorem length_littleEndian (width n : Nat) : (littleEndian width n).length = width := by
  induction width generalizing n with
  | zero => rfl
  | succ width ih => rw [littleEndian, List.length_cons, ih]

theorem fromLittleEndian_littleEndian (width n : Nat) :
    fromLittleEndian (littleEndian width n) = n % 256 ^ width := by
  induction width generalizing n with
  | zero => rw [littleEndian, fromLittleEndian, Nat.pow_zero, Nat.mod_one]
  | succ width ih =>
    rw [littleEndian, fromLittleEndian, ih, Nat.pow_succ', Nat.mod_mul]
    rfl

theorem littleEndian_fromLittleEndian (bytes : List UInt8) :
    littleEndian bytes.length (fromLittleEndian bytes) = bytes := by
  induction bytes with
  | nil => rfl
  | cons byte rest ih =>
    have hbyte : byte.toNat < 256 := byte.toNat_lt
    have hdiv : (byte.toNat + 256 * fromLittleEndian rest) / 256 = fromLittleEndian rest := by
      omega
    rw [List.length_cons, fromLittleEndian, littleEndian, hdiv, ih]
    congr 1
    apply UInt8.toNat_inj.mp
    rw [UInt8.toNat_ofNat']
    omega

theorem fromLittleEndian_lt (bytes : List UInt8) : fromLittleEndian bytes < 256 ^ bytes.length := by
  induction bytes with
  | nil => exact Nat.one_pos
  | cons byte rest ih =>
    have hbyte : byte.toNat < 256 := byte.toNat_lt
    rw [fromLittleEndian, List.length_cons, Nat.pow_succ']
    omega

/-! ### Layouts -/

/-- A type whose values are exactly the runs of `size` bytes. -/
structure Layout (α : Type) where
  size : Nat
  encode : α → List UInt8
  decode : List UInt8 → α
  length_encode : ∀ a, (encode a).length = size
  decode_encode : ∀ a, decode (encode a) = a
  encode_decode : ∀ bytes, bytes.length = size → encode (decode bytes) = bytes

namespace Layout

variable {α β : Type}

theorem encode_injective (l : Layout α) : Function.Injective l.encode :=
  Function.LeftInverse.injective l.decode_encode

/-- The numbers below `256 ^ width`, through a type that counts them. -/
def number (width : Nat) (toNat : α → Nat) (ofNat : Nat → α)
    (hof : ∀ a, ofNat (toNat a) = a) (hto : ∀ n, toNat (ofNat n) = n % 256 ^ width) :
    Layout α where
  size := width
  encode a := littleEndian width (toNat a)
  decode bytes := ofNat (fromLittleEndian bytes)
  length_encode _ := length_littleEndian ..
  decode_encode a := by
    have hlt : toNat a % 256 ^ width = toNat a := by
      rw [← hto, hof]
    rw [fromLittleEndian_littleEndian, hlt, hof]
  encode_decode bytes h := by
    have hlt : fromLittleEndian bytes < 256 ^ width := h ▸ fromLittleEndian_lt bytes
    rw [hto, Nat.mod_eq_of_lt hlt, ← h, littleEndian_fromLittleEndian]

def u16 : Layout UInt16 :=
  number 2 UInt16.toNat UInt16.ofNat (fun _ => UInt16.ofNat_toNat) fun _ => UInt16.toNat_ofNat'

def u32 : Layout UInt32 :=
  number 4 UInt32.toNat UInt32.ofNat (fun _ => UInt32.ofNat_toNat) fun _ => UInt32.toNat_ofNat'

def u64 : Layout UInt64 :=
  number 8 UInt64.toNat UInt64.ofNat (fun _ => UInt64.ofNat_toNat) fun _ => UInt64.toNat_ofNat'

/-- The bytes themselves. -/
def array (n : Nat) : Layout (Vector UInt8 n) where
  size := n
  encode v := v.toList
  decode bytes := Vector.ofFn fun i => bytes.getD i 0
  length_encode v := v.length_toList
  decode_encode v := by
    apply Vector.ext
    intro i hi
    rw [Vector.getElem_ofFn, List.getD_eq_getElem _ _ (by simpa using hi), Vector.getElem_toList]
  encode_decode bytes h := by
    apply List.ext_getElem (by simp [h])
    intro i hi hi'
    rw [Vector.getElem_toList, Vector.getElem_ofFn, List.getD_eq_getElem _ _ hi']

/-- One after the other. -/
def pair (a : Layout α) (b : Layout β) : Layout (α × β) where
  size := a.size + b.size
  encode p := a.encode p.1 ++ b.encode p.2
  decode bytes := (a.decode (bytes.take a.size), b.decode (bytes.drop a.size))
  length_encode p := by rw [List.length_append, a.length_encode, b.length_encode]
  decode_encode p := by
    rw [List.take_left' (a.length_encode _), List.drop_left' (a.length_encode _),
      a.decode_encode, b.decode_encode]
  encode_decode bytes h := by
    rw [a.encode_decode _ (by rw [List.length_take]; omega),
      b.encode_decode _ (by rw [List.length_drop]; omega), List.take_append_drop]

/-- A type laid out as another one it is the same as. -/
def via (l : Layout β) (e : α ≃ β) : Layout α where
  size := l.size
  encode a := l.encode (e a)
  decode bytes := e.symm (l.decode bytes)
  length_encode _ := l.length_encode _
  decode_encode a := by rw [l.decode_encode, e.symm_apply_apply]
  encode_decode bytes h := by rw [e.apply_symm_apply, l.encode_decode bytes h]

/-! ### Reading at an offset -/

/-- The value at `offset`, or nothing where the buffer is too short. -/
def readFrom (l : Layout α) (bytes : List UInt8) (offset : Nat) : Option α :=
  if offset + l.size > bytes.length then none
  else some (l.decode ((bytes.drop offset).take l.size))

theorem readFrom_append (l : Layout α) (before after : List UInt8) (a : α) :
    l.readFrom (before ++ (l.encode a ++ after)) before.length = some a := by
  have hlen : (l.encode a).length = l.size := l.length_encode a
  unfold readFrom
  rw [if_neg (by simp only [List.length_append]; omega), List.drop_left,
    List.take_left' hlen, l.decode_encode]

theorem readFrom_front (l : Layout α) (after : List UInt8) (a : α) :
    l.readFrom (l.encode a ++ after) 0 = some a :=
  l.readFrom_append [] after a

variable {bytes : List UInt8}

theorem readFrom_eq_some {l : Layout α} {offset : Nat} {a : α}
    (h : l.readFrom bytes offset = some a) :
    offset + l.size ≤ bytes.length ∧ (bytes.drop offset).take l.size = l.encode a := by
  unfold readFrom at h
  split at h
  · cases h
  · rename_i hle
    refine ⟨Nat.le_of_not_lt hle, ?_⟩
    rw [← Option.some.inj h, l.encode_decode _ (by rw [List.length_take, List.length_drop]; omega)]

theorem take_of_readFrom {l : Layout α} {offset : Nat} {a : α}
    (h : l.readFrom bytes offset = some a) :
    bytes.take (offset + l.size) = bytes.take offset ++ l.encode a := by
  rw [List.take_add, (readFrom_eq_some h).2]

end Layout

/-! ### Writing into a buffer -/

/-- The buffer with the bytes from `offset` on replaced. -/
def splice (out : List UInt8) (offset : Nat) (bytes : List UInt8) : List UInt8 :=
  out.take offset ++ (bytes ++ out.drop (offset + bytes.length))

variable {bytes out : List UInt8}

theorem length_splice {offset : Nat}
    (h : offset + bytes.length ≤ out.length) : (splice out offset bytes).length = out.length := by
  unfold splice
  simp only [List.length_append, List.length_take, List.length_drop]
  omega

theorem take_splice {offset : Nat} (h : offset ≤ out.length) :
    (splice out offset bytes).take (offset + bytes.length) = out.take offset ++ bytes := by
  unfold splice
  have hlen : (out.take offset).length = offset := by
    rw [List.length_take]
    omega
  rw [List.take_append, List.take_of_length_le (by omega), hlen, Nat.add_sub_cancel_left,
    List.take_left]

end Thalyx
