/-
Plain structures whose memory is their encoding: `Pod` of `user/k4fmt`.
-/
import ThalyxKernel.Format.Object
import ThalyxKernel.Lib.Checked
import ThalyxKernel.Lib.Layout

namespace Thalyx.Wire

/-- A 32-byte digest. -/
abbrev Digest := Vector UInt8 32

/-- `Pod::write_to`: the structure's bytes at `offset` of the buffer.  An offset that
overflows is past the end of every buffer. -/
def writeTo {α : Type} (l : Layout α) (a : α) (out : Bytes) (offset : Nat) :
    Except FormatError Bytes :=
  if offset + l.size > out.length then .error .tooSmall
  else .ok (splice out offset (l.encode a))

theorem writeTo_of_room {α : Type} {l : Layout α} {a : α} {out : Bytes} {offset : Nat}
    (h : offset + l.size ≤ out.length) :
    writeTo l a out offset = .ok (splice out offset (l.encode a)) :=
  if_neg (Nat.not_lt.mpr h)

/-- `out[start..stop].copy_from_slice(bytes)`, which stops the program where the range is not
in the buffer or has another length. -/
def copyAt (out : Bytes) (start stop : Nat) (bytes : Bytes) : Option Bytes :=
  if start ≤ stop ∧ stop ≤ out.length ∧ bytes.length = stop - start then
    some (splice out start bytes)
  else none

theorem copyAt_eq {out bytes : Bytes} {start stop : Nat} (h : start ≤ stop)
    (hstop : stop ≤ out.length) (hlen : bytes.length = stop - start) :
    copyAt out start stop bytes = some (splice out start bytes) := if_pos ⟨h, hstop, hlen⟩

end Thalyx.Wire
