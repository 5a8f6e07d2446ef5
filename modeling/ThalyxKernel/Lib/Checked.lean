/-
Code that stops rather than go on wrong.

With overflow checks on, an addition that does not fit, a subtraction below zero and an
index outside a buffer end the program.  Such code is a computation in `Option`, where
`none` is the panic, and a proof that it answers `some` is a proof that it never panics.

Every operation has one lemma that says when it does not panic and what it then answers;
`loop` does the same for a counted loop, from what one turn preserves.
-/
import Mathlib.Data.List.GetD
import Mathlib.Data.Vector.Basic
import Mathlib.Tactic.Common

namespace Thalyx.Checked

open Vector

variable {α σ : Type}

/-! ### `usize` arithmetic -/

/-- How many values a `usize` has. -/
def usizeValues : Nat := 2 ^ 64

def add (a b : Nat) : Option Nat := if a + b < usizeValues then some (a + b) else none

def sub (a b : Nat) : Option Nat := if b ≤ a then some (a - b) else none

def mul (a b : Nat) : Option Nat := if a * b < usizeValues then some (a * b) else none

variable {a b n start : Nat}

theorem add_eq (h : a + b < usizeValues) : add a b = some (a + b) := if_pos h

theorem sub_eq (h : b ≤ a) : sub a b = some (a - b) := if_pos h

theorem mul_eq (h : a * b < usizeValues) : mul a b = some (a * b) := if_pos h

/-! ### Slices -/

/-- `bytes[from..to]`. -/
def slice (xs : List α) (start stop : Nat) : Option (List α) :=
  if start ≤ stop ∧ stop ≤ xs.length then some ((xs.take stop).drop start) else none

variable {index stop : Nat}

theorem slice_eq {xs : List α} (h : start ≤ stop) (hle : stop ≤ xs.length) :
    slice xs start stop = some ((xs.take stop).drop start) := if_pos ⟨h, hle⟩

/-- `buffer[start..stop].copy_from_slice(xs)`. -/
def copyInto {n : Nat} (buffer : Vector α n) (start stop : Nat) (xs : List α) :
    Option (Vector α n) :=
  if start ≤ stop ∧ stop ≤ n ∧ xs.length = stop - start then
    some (Vector.ofFn fun i =>
      if start ≤ i.val ∧ i.val < stop then xs.getD (i.val - start) buffer[i] else buffer[i])
  else none

theorem copyInto_eq (buffer : Vector α n) {xs : List α}
    (hstart : start ≤ stop) (hstop : stop ≤ n) (hlen : xs.length = stop - start) :
    ∃ copied, copyInto buffer start stop xs = some copied
      ∧ copied.toList.take stop = buffer.toList.take start ++ xs := by
  refine ⟨_, if_pos ⟨hstart, hstop, hlen⟩, ?_⟩
  apply List.ext_getElem
  · simp only [List.length_take, List.length_append, length_toList]
    omega
  · intro i hi hi'
    have hlt : i < stop := by
      rw [List.length_take] at hi
      omega
    rw [List.getElem_take, getElem_toList, getElem_ofFn]
    dsimp only
    by_cases hbefore : i < start
    · rw [if_neg (by omega), List.getElem_append_left (by simp; omega), List.getElem_take,
        getElem_toList]
      rfl
    · have hwithin : i - start < xs.length := by omega
      rw [if_pos ⟨by omega, hlt⟩, List.getD_eq_getElem _ _ hwithin,
        List.getElem_append_right (by simp; omega)]
      congr 1
      simp only [List.length_take, length_toList]
      omega

/-- `buffer[at] = x`. -/
def store {n : Nat} (buffer : Vector α n) (index : Nat) (x : α) : Option (Vector α n) :=
  if h : index < n then some (buffer.set index x h) else none

variable {buffer : Vector α n}

theorem store_eq {x : α} (h : index < n) :
    store buffer index x = some (buffer.set index x h) := dif_pos h

theorem take_set {x : α} (h : index < n) :
    (buffer.set index x h).toList.take (index + 1) = buffer.toList.take index ++ [x] := by
  apply List.ext_getElem
  · simp only [List.length_take, List.length_append, length_toList, List.length_singleton]
    omega
  · intro i hi hi'
    have hlt : i < index + 1 := by
      rw [List.length_take] at hi
      omega
    rw [List.getElem_take, getElem_toList]
    by_cases hat : i = index
    · subst hat
      rw [getElem_set_self, List.getElem_append_right (by simp)]
      simp
    · rw [getElem_set_ne h _ (Ne.symm hat), List.getElem_append_left (by simp; omega),
        List.getElem_take, getElem_toList]

/-! ### Loops -/

theorem loop {f : σ → Nat → Option σ} (P : Nat → σ → Prop) {count : Nat} {s : σ}
    (hstart : P start s)
    (hturn : ∀ i, start ≤ i → i < start + count → ∀ s, P i s → ∃ s', f s i = some s' ∧ P (i + 1) s') :
    ∃ s', (List.range' start count).foldlM f s = some s' ∧ P (start + count) s' := by
  induction count generalizing start s with
  | zero => exact ⟨s, rfl, hstart⟩
  | succ count ih =>
    obtain ⟨t, ht, hP⟩ := hturn start (Nat.le_refl _) (by omega) s hstart
    obtain ⟨s', hs', hP'⟩ := ih hP fun i hle hlt => hturn i (by omega) (by omega)
    refine ⟨s', ?_, by rwa [Nat.add_right_comm] at hP'⟩
    rw [List.range'_succ, List.foldlM_cons, ht]
    exact hs'

end Thalyx.Checked
