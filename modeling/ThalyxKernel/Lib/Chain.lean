/-
Singly linked chains in a table.

The cells of a table name their successors.  `Chain next start l` says that following `next`
from `start` meets exactly the cells of `l`, in that order, and then stops.  A chain is
determined by where it starts, and so it never comes back to a cell: a cell met twice would
start two chains of different lengths.

The three edits a queue makes are here as what they do to the chain: a cell linked behind the
last, the first one taken off, one taken out of the middle.
-/
import Mathlib.Data.List.Basic
import Mathlib.Logic.Function.Basic

namespace Thalyx

open Function List

variable {α : Type}

/-- Following `next` from `start` meets `l` and stops. -/
def Chain (next : α → Option α) : Option α → List α → Prop
  | start, [] => start = none
  | start, a :: rest => start = some a ∧ Chain next (next a) rest

namespace Chain

variable {next next' : α → Option α} {start : Option α} {l l' : List α} {a b : α}

theorem head? (h : Chain next start l) : start = l.head? := by
  cases l with
  | nil => exact h
  | cons a rest => exact h.1

theorem congr (h : Chain next start l) (hnext : ∀ a ∈ l, next' a = next a) :
    Chain next' start l := by
  induction l generalizing start with
  | nil => exact h
  | cons a rest ih =>
    refine ⟨h.1, ?_⟩
    rw [hnext a mem_cons_self]
    exact ih h.2 fun b hb => hnext b (mem_cons_of_mem a hb)

theorem unique (h : Chain next start l) (h' : Chain next start l') : l = l' := by
  induction l generalizing start l' with
  | nil =>
    cases l' with
    | nil => rfl
    | cons b rest => exact absurd (h.symm.trans h'.1) (by simp)
  | cons a rest ih =>
    cases l' with
    | nil => exact absurd (h.1.symm.trans h') (by simp)
    | cons b rest' =>
      have hab : a = b := Option.some.inj (h.1.symm.trans h'.1)
      subst hab
      rw [ih h.2 h'.2]

theorem suffix {before : List α} (h : Chain next start (before ++ l)) : Chain next l.head? l := by
  induction before generalizing start with
  | nil =>
    have hstart := h.head?
    rw [nil_append] at h hstart
    rw [← hstart]
    exact h
  | cons a rest ih => exact ih h.2

/-- **A chain meets no cell twice.** -/
theorem nodup (h : Chain next start l) : l.Nodup := by
  induction l generalizing start with
  | nil => exact nodup_nil
  | cons a rest ih =>
    refine List.nodup_cons.mpr ⟨?_, ih h.2⟩
    intro hmem
    obtain ⟨before, after, rfl⟩ := append_of_mem hmem
    have hlong : Chain next (some a) (a :: (before ++ a :: after)) := ⟨rfl, h.2⟩
    have hshort : Chain next (some a) (a :: after) := h.2.suffix
    have hlength := congrArg List.length (hlong.unique hshort)
    simp only [length_cons, length_append] at hlength
    omega

/-! ### Edits -/

variable [DecidableEq α]

theorem update_of_notMem (h : Chain next start l) (ha : a ∉ l) (x : Option α) :
    Chain (update next a x) start l := by
  refine h.congr fun b hb => update_of_ne ?_ _ _
  rintro rfl
  exact ha hb

theorem link (h : Chain next start (l ++ [b])) (ha : a ∉ l ++ [b]) (hnext : next a = none) :
    Chain (update next b (some a)) start (l ++ [b] ++ [a]) := by
  have hab : a ≠ b := by
    rintro rfl
    exact ha (by simp)
  induction l generalizing start with
  | nil =>
    refine ⟨h.1, ?_⟩
    rw [update_self]
    refine ⟨rfl, ?_⟩
    rw [update_of_ne hab]
    exact hnext
  | cons c rest ih =>
    have hcb : c ≠ b := by
      rintro rfl
      exact (List.nodup_cons.mp h.nodup).1 (by simp)
    refine ⟨h.1, ?_⟩
    rw [update_of_ne hcb]
    exact ih h.2 fun hmem => ha (mem_cons_of_mem c hmem)

theorem unlink {after : List α} (h : Chain next start (l ++ b :: a :: after)) :
    Chain (update next b (next a)) start (l ++ b :: after) := by
  induction l generalizing start with
  | nil =>
    have hb : b ∉ a :: after := (List.nodup_cons.mp h.nodup).1
    refine ⟨h.1, ?_⟩
    rw [update_self]
    exact h.2.2.update_of_notMem (fun hmem => hb (mem_cons_of_mem a hmem)) _
  | cons c rest ih =>
    have hcb : c ≠ b := by
      rintro rfl
      exact (List.nodup_cons.mp h.nodup).1 (by simp)
    refine ⟨h.1, ?_⟩
    rw [update_of_ne hcb]
    exact ih h.2

end Chain

end Thalyx
