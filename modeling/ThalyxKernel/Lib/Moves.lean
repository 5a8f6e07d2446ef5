/-
Stretches of one memory put into another.

A memory is a function from addresses to what is there.  `move` is a copy between two of them,
in the way a device or a processor makes it, and the lemmas say what it leaves, when two of them
may change places, and when what is copied may be taken from elsewhere.  For a buffer that is a
list, `splice` is the copy, and what it leaves is said of the slices that are read again.
-/
import ThalyxKernel.Lib.Layout

namespace Thalyx

open List

variable {β : Type}

/-- A memory after `len` cells of a source, from `start` on, are put at `place`. -/
def move (memory source : Nat → β) (place start len : Nat) : Nat → β :=
  fun k => if place ≤ k ∧ k < place + len then source (start + (k - place)) else memory k

variable {memory source source' : Nat → β} {place start len place' start' len' k : Nat}

theorem move_inside (h : k < len) :
    move memory source place start len (place + k) = source (start + k) := by
  unfold move
  rw [if_pos ⟨by omega, by omega⟩, Nat.add_sub_cancel_left]

theorem move_outside (h : k < place ∨ place + len ≤ k) :
    move memory source place start len k = memory k :=
  if_neg (by omega)

theorem move_apart {a : Nat} (hapart : place + len ≤ a ∨ a + len' ≤ place) (h : k < len') :
    move memory source place start len (a + k) = memory (a + k) :=
  move_outside (by omega)

theorem move_congr (h : ∀ k < len, source (start + k) = source' (start' + k)) :
    move memory source place start len = move memory source' place start' len := by
  funext k
  unfold move
  split
  · rename_i hin
    exact h (k - place) (by omega)
  · rfl

theorem move_comm (hapart : place + len ≤ place' ∨ place' + len' ≤ place) :
    move (move memory source place start len) source' place' start' len'
      = move (move memory source' place' start' len') source place start len := by
  funext k
  unfold move
  by_cases hfirst : place ≤ k ∧ k < place + len
  · rw [if_neg (by omega), if_pos hfirst, if_pos hfirst]
  · rw [if_neg hfirst, if_neg hfirst]

/-! ### Buffers -/

section Buffers

variable {out bytes : List UInt8} {offset : Nat}

theorem getElem?_splice (h : offset + bytes.length ≤ out.length) (k : Nat) :
    (splice out offset bytes)[k]? =
      if offset ≤ k ∧ k < offset + bytes.length then bytes[k - offset]? else out[k]? := by
  have hfront : (out.take offset).length = offset := by
    rw [length_take]
    omega
  unfold splice
  by_cases hbefore : k < offset
  · rw [if_neg (by omega), getElem?_append_left (by omega), getElem?_take_of_lt hbefore]
  rw [getElem?_append_right (by omega), hfront]
  by_cases hinside : k < offset + bytes.length
  · rw [if_pos (by omega), getElem?_append_left (by omega)]
  · rw [if_neg (by omega), getElem?_append_right (by omega), getElem?_drop]
    congr 1
    omega

theorem slice_splice (h : offset + bytes.length ≤ out.length) :
    ((splice out offset bytes).drop offset).take bytes.length = bytes := by
  apply ext_getElem?
  intro k
  by_cases hk : k < bytes.length
  · rw [getElem?_take_of_lt hk, getElem?_drop, getElem?_splice h,
      if_pos (by omega), Nat.add_sub_cancel_left]
  · rw [getElem?_eq_none (by rw [length_take]; omega),
      getElem?_eq_none (by omega)]

theorem slice_splice_apart {start len : Nat} (h : offset + bytes.length ≤ out.length)
    (hapart : start + len ≤ offset ∨ offset + bytes.length ≤ start) :
    ((splice out offset bytes).drop start).take len = (out.drop start).take len := by
  apply ext_getElem?
  intro k
  by_cases hk : k < len
  · rw [getElem?_take_of_lt hk, getElem?_take_of_lt hk, getElem?_drop,
      getElem?_drop, getElem?_splice h, if_neg (by omega)]
  · rw [getElem?_eq_none (by rw [length_take]; omega),
      getElem?_eq_none (by rw [length_take]; omega)]

theorem slice_take {front start len : Nat} (after : List UInt8) (hlen : start + len ≤ front)
    (hfront : front ≤ out.length) :
    ((out.take front ++ after).drop start).take len = (out.drop start).take len := by
  apply ext_getElem?
  intro k
  by_cases hk : k < len
  · rw [getElem?_take_of_lt hk, getElem?_take_of_lt hk, getElem?_drop,
      getElem?_drop, getElem?_append_left (by rw [length_take]; omega),
      getElem?_take_of_lt (by omega)]
  · rw [getElem?_eq_none (by rw [length_take]; omega),
      getElem?_eq_none (by rw [length_take]; omega)]

end Buffers

end Thalyx
