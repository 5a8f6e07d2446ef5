/-
A block device with a volatile write cache.

A read answers the newest write, but until the cache has been flushed a power loss may
leave any of the writes made since, or the block as it was, or half of a write.  So a
block is kept here with everything it may hold after a power loss, and a power loss picks
one content for each block, independently of the others.  Nothing is assumed about what
the blocks hold; what half of a write looks like is a parameter of the write.
-/
import Mathlib.Logic.Function.Basic

namespace Thalyx

variable {β : Type}

/-- One block: what a read of it answers, and what else a power loss may leave in it. -/
structure Cell (β : Type) where
  current : β
  older : List β

namespace Cell

/-- What the block may hold after a power loss. -/
def possible (c : Cell β) : List β := c.current :: c.older

/-- A write that is in the cache: the block may still lose it, whole or in part. -/
def write (torn x : β) (c : Cell β) : Cell β := ⟨x, torn :: c.possible⟩

/-- A block that holds `x` whatever happens. -/
def settled (x : β) : Cell β := ⟨x, []⟩

end Cell

/-- A device: its blocks by number. -/
abbrev Device (β : Type) := Nat → Cell β

namespace Device

def read (d : Device β) (b : Nat) : β := (d b).current

def write (d : Device β) (torn : β) (b : Nat) (x : β) : Device β :=
  Function.update d b ((d b).write torn x)

/-- Everything acknowledged so far becomes durable. -/
def flush (d : Device β) : Device β := fun b => .settled (d.read b)

/-- A power loss: `pick` says which of its possible contents each block keeps. -/
def crash (d : Device β) (pick : Nat → Nat) : Device β := fun b =>
  .settled ((d b).possible.getD (pick b) (d.read b))

/-- A block that holds `x` now and after any power loss. -/
def Holds (d : Device β) (b : Nat) (x : β) : Prop := d b = .settled x

variable {d : Device β} {torn x y : β} {b c : Nat}

@[simp] theorem read_write_self : (d.write torn b x).read b = x := by
  simp [read, write, Cell.write]

theorem read_write_of_ne (h : c ≠ b) : (d.write torn b x).read c = d.read c := by
  simp [read, write, h]

theorem write_of_ne (h : c ≠ b) : d.write torn b x c = d c := by
  simp [write, h]

@[simp] theorem read_flush : d.flush.read b = d.read b := rfl

theorem read_mem_possible : d.read b ∈ (d b).possible := List.mem_cons_self

theorem mem_possible_write (h : y ∈ (d.write torn b x c).possible) :
    (c = b ∧ y = x) ∨ y = torn ∨ y ∈ (d c).possible := by
  by_cases hc : c = b
  · subst hc
    simp only [write, Function.update_self, Cell.write, Cell.possible, List.mem_cons] at h
    rcases h with rfl | rfl | h
    · exact .inl ⟨rfl, rfl⟩
    · exact .inr (.inl rfl)
    · exact .inr (.inr (List.mem_cons.mpr h))
  · rw [write_of_ne hc] at h
    exact .inr (.inr h)

theorem mem_possible_flush (h : y ∈ (d.flush b).possible) : y = d.read b := by
  simpa [flush, Cell.possible, Cell.settled] using h

variable {pick : Nat → Nat}

theorem crash_mem : (d.crash pick).read b ∈ (d b).possible := by
  unfold read crash Cell.settled
  dsimp only
  rw [List.getD_eq_getElem?_getD]
  cases hget : (d b).possible[pick b]? with
  | none => exact read_mem_possible
  | some z => exact List.mem_of_getElem? hget

theorem mem_possible_crash (h : y ∈ (d.crash pick b).possible) : y = (d.crash pick).read b := by
  simpa [crash, read, Cell.possible, Cell.settled] using h

namespace Holds

theorem read_eq (h : d.Holds b x) : d.read b = x := by
  unfold read
  rw [h]
  rfl

theorem possible_eq (h : d.Holds b x) (hy : y ∈ (d b).possible) : y = x := by
  rw [h] at hy
  simpa [Cell.possible, Cell.settled] using hy

theorem write_of_ne (h : d.Holds b x) (hne : b ≠ c) : (d.write torn c y).Holds b x := by
  unfold Holds
  rw [Device.write_of_ne hne]
  exact h

protected theorem flush (h : d.Holds b x) : d.flush.Holds b x := by
  unfold Holds Device.flush
  rw [h.read_eq]

protected theorem crash (h : d.Holds b x) (pick : Nat → Nat) : (d.crash pick).Holds b x := by
  have hx : (d.crash pick).read b = x := h.possible_eq crash_mem
  unfold Holds
  rw [← hx]
  rfl

end Holds

theorem holds_flush : d.flush.Holds b (d.read b) := rfl

end Device

end Thalyx
