/-
Consuming a sequence in blocks, however it is cut.

An absorber takes elements one at a time, keeps those that do not yet fill a block, and
takes a step with every block that is full.  What it has done after a sequence depends on
the sequence alone: `absorb_append` says that cutting it changes nothing, and
`absorb_blocks` that it has taken the blocks of the sequence in order.
-/
import Mathlib.Data.List.Basic
import Mathlib.Tactic.Common

namespace Thalyx

open List

variable {α σ : Type}

/-- The first `count` blocks of `n` elements. -/
def blocks (n : Nat) : Nat → List α → List (List α)
  | 0, _ => []
  | count + 1, xs => xs.take n :: blocks n count (xs.drop n)

/-- A state, and the elements that do not yet fill a block. -/
structure Absorber (α σ : Type) where
  state : σ
  pending : List α

namespace Absorber

variable (n : Nat) (step : σ → List α → σ)

def push (a : Absorber α σ) (x : α) : Absorber α σ :=
  if a.pending.length + 1 = n then ⟨step a.state (a.pending ++ [x]), []⟩
  else ⟨a.state, a.pending ++ [x]⟩

def absorb (a : Absorber α σ) (xs : List α) : Absorber α σ :=
  xs.foldl (push n step) a

variable {n step}

@[simp] theorem absorb_nil (a : Absorber α σ) : absorb n step a [] = a := rfl

@[simp] theorem absorb_cons (a : Absorber α σ) (x : α) (xs : List α) :
    absorb n step a (x :: xs) = absorb n step (push n step a x) xs := rfl

theorem absorb_append (a : Absorber α σ) (xs ys : List α) :
    absorb n step a (xs ++ ys) = absorb n step (absorb n step a xs) ys :=
  foldl_append

variable {a : Absorber α σ} {xs : List α}

theorem absorb_short (h : a.pending.length + xs.length < n) :
    absorb n step a xs = ⟨a.state, a.pending ++ xs⟩ := by
  induction xs generalizing a with
  | nil => simp
  | cons x xs ih =>
    rw [length_cons] at h
    have hpush : push n step a x = ⟨a.state, a.pending ++ [x]⟩ := if_neg (by omega)
    rw [absorb_cons, hpush, ih (by simp; omega)]
    simp

theorem absorb_fill (h : a.pending.length + xs.length = n)
    (hne : xs ≠ []) : absorb n step a xs = ⟨step a.state (a.pending ++ xs), []⟩ := by
  have hsplit : xs = xs.dropLast ++ [xs.getLast hne] := (dropLast_append_getLast hne).symm
  have hlen : xs.length = xs.dropLast.length + 1 := by
    rw [length_dropLast]
    have := List.length_pos_iff.mpr hne
    omega
  have hkept : absorb n step a xs.dropLast = ⟨a.state, a.pending ++ xs.dropLast⟩ :=
    absorb_short (by omega)
  conv_lhs => rw [hsplit]
  rw [absorb_append, hkept, absorb_cons, absorb_nil, push,
    if_pos (by rw [length_append]; omega), append_assoc, ← hsplit]

theorem absorb_blocks {count : Nat} (hn : 0 < n) (h : xs.length = n * count)
    (s : σ) : absorb n step ⟨s, []⟩ xs = ⟨(blocks n count xs).foldl step s, []⟩ := by
  induction count generalizing xs s with
  | zero =>
    have hnil : xs = [] := List.length_eq_zero_iff.mp (by simpa using h)
    simp [hnil, blocks]
  | succ count ih =>
    rw [Nat.mul_succ] at h
    have hfirst : (xs.take n).length = n := by rw [length_take]; omega
    have hne : xs.take n ≠ [] := by
      intro hnil
      rw [hnil, length_nil] at hfirst
      omega
    conv_lhs => rw [← take_append_drop n xs]
    rw [absorb_append, absorb_fill (by simpa using hfirst) hne,
      ih (by rw [length_drop]; omega), blocks, foldl_cons, nil_append]

theorem pending_push (a : Absorber α σ) (x : α) :
    (push n step a x).pending.length
      = if a.pending.length + 1 = n then 0 else a.pending.length + 1 := by
  unfold push
  split <;> simp

theorem pending_absorb (h : a.pending.length < n) (xs : List α) :
    (absorb n step a xs).pending.length = (a.pending.length + xs.length) % n := by
  induction xs generalizing a with
  | nil => simpa using (Nat.mod_eq_of_lt h).symm
  | cons x xs ih =>
    have hlen := @pending_push _ _ n step a x
    rw [absorb_cons, length_cons]
    by_cases hfull : a.pending.length + 1 = n
    · rw [if_pos hfull] at hlen
      rw [ih (by omega), hlen, show a.pending.length + (xs.length + 1) = 0 + xs.length + n by
        omega, Nat.add_mod_right]
    · rw [if_neg hfull] at hlen
      rw [ih (by omega), hlen, Nat.add_right_comm, Nat.add_assoc]

end Absorber

end Thalyx
