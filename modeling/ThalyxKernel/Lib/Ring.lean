/-
Ring buffers.

A ring is an array of `n` cells, the index of the oldest occupied one and how many are
occupied; the occupied cells go round from the oldest.  What a ring stands for is the list of
their contents, oldest first: `push` appends to it, `drop` takes from its front, and
`dropWhile` is the loop that drops while the oldest element meets a test.
-/
import Mathlib.Algebra.Order.Ring.Nat
import Mathlib.Data.Nat.ModEq
import Mathlib.Logic.Function.Basic

namespace Thalyx

open List Function

/-- A ring of `n` cells. -/
structure Ring (α : Type) (n : Nat) where
  cells : Nat → α
  head : Nat
  count : Nat
  head_lt : head < n
  count_le : count ≤ n

namespace Ring

variable {α : Type} {n : Nat}

/-- The cell `offset` places after the oldest. -/
def index (r : Ring α n) (offset : Nat) : Nat := (r.head + offset) % n

/-- What the ring holds, oldest first. -/
def contents (r : Ring α n) : List α := (List.range r.count).map fun i => r.cells (r.index i)

@[simp] theorem length_contents (r : Ring α n) : r.contents.length = r.count := by
  simp [contents]

/-- A ring whose cells all hold `x`, none of them occupied. -/
def clear (x : α) (hn : 0 < n) : Ring α n := ⟨fun _ => x, 0, 0, hn, Nat.zero_le n⟩

@[simp] theorem contents_clear (x : α) (hn : 0 < n) : (clear x hn).contents = [] := rfl

/-- One more element, in the first cell that is free. -/
def push (r : Ring α n) (x : α) (h : r.count < n) : Ring α n where
  cells := Function.update r.cells (r.index r.count) x
  head := r.head
  count := r.count + 1
  head_lt := r.head_lt
  count_le := h

/-- The ring without its oldest element. -/
def drop (r : Ring α n) : Ring α n where
  cells := r.cells
  head := (r.head + 1) % n
  count := r.count - 1
  head_lt := Nat.mod_lt _ (Nat.zero_lt_of_lt r.head_lt)
  count_le := le_trans (Nat.sub_le _ _) r.count_le

theorem index_ne (r : Ring α n) {i j : Nat} (hij : i < j) (hj : j < n) : r.index i ≠ r.index j := by
  have hhead := r.head_lt
  intro heq
  have hdvd : n ∣ (r.head + j) - (r.head + i) := (Nat.modEq_iff_dvd' (by omega)).mp heq
  have hle : n ≤ (r.head + j) - (r.head + i) := Nat.le_of_dvd (by omega) hdvd
  omega

theorem contents_push (r : Ring α n) (x : α) (h : r.count < n) :
    (r.push x h).contents = r.contents ++ [x] := by
  unfold contents
  rw [show (r.push x h).count = r.count + 1 from rfl, range_succ, map_append]
  congr 1
  · apply map_congr_left
    intro i hi
    have hne : r.index i ≠ r.index r.count := r.index_ne (List.mem_range.mp hi) h
    show update r.cells (r.index r.count) x (r.index i) = _
    rw [update_of_ne hne]
  · show [update r.cells (r.index r.count) x (r.index r.count)] = [x]
    rw [update_self]

theorem index_drop (r : Ring α n) (i : Nat) : r.drop.index i = r.index (i + 1) := by
  show ((r.head + 1) % n + i) % n = (r.head + (i + 1)) % n
  rw [Nat.mod_add_mod, Nat.add_right_comm, Nat.add_assoc]

theorem contents_drop (r : Ring α n) (h : 0 < r.count) :
    r.contents = r.cells r.head :: r.drop.contents := by
  obtain ⟨k, hk⟩ : ∃ k, r.count = k + 1 := ⟨r.count - 1, by omega⟩
  have hdrop : r.drop.count = k := by
    show r.count - 1 = k
    omega
  unfold contents
  rw [hk, hdrop, range_succ_eq_map, map_cons, map_map]
  congr 1
  · rw [index, Nat.add_zero, Nat.mod_eq_of_lt r.head_lt]
  · apply map_congr_left
    intro i _
    show r.cells (r.index (i + 1)) = r.cells (r.drop.index i)
    rw [index_drop]

/-- Drops while the oldest element meets `p`, at most `fuel` times; the ring left and how many
were dropped. -/
def dropWhile (p : α → Bool) : Nat → Ring α n → Ring α n × Nat
  | 0, r => (r, 0)
  | fuel + 1, r =>
    if r.count = 0 then (r, 0)
    else if p (r.cells r.head) then
      ((dropWhile p fuel r.drop).1, (dropWhile p fuel r.drop).2 + 1)
    else (r, 0)

theorem dropWhile_spec (p : α → Bool) (fuel : Nat) (r : Ring α n) (hfuel : r.count ≤ fuel) :
    (dropWhile p fuel r).1.contents = r.contents.dropWhile p ∧
      (dropWhile p fuel r).2 = (r.contents.takeWhile p).length := by
  induction fuel generalizing r with
  | zero =>
    have hempty : r.contents = [] := List.length_eq_zero_iff.mp (by simp; omega)
    simp [dropWhile, hempty]
  | succ fuel ih =>
    by_cases hzero : r.count = 0
    · have hempty : r.contents = [] := List.length_eq_zero_iff.mp (by simpa using hzero)
      simp [dropWhile, hzero, hempty]
    · have hcons := r.contents_drop (Nat.pos_of_ne_zero hzero)
      by_cases hp : p (r.cells r.head) = true
      · have hless : r.drop.count ≤ fuel := by
          show r.count - 1 ≤ fuel
          omega
        obtain ⟨hcontents, hdropped⟩ := ih r.drop hless
        rw [hcons, dropWhile_cons_of_pos hp, takeWhile_cons_of_pos hp]
        simp [dropWhile, hzero, hp, hcontents, hdropped]
      · rw [hcons, dropWhile_cons_of_neg hp, takeWhile_cons_of_neg hp, ← hcons]
        simp [dropWhile, hzero, hp]

end Ring

end Thalyx
