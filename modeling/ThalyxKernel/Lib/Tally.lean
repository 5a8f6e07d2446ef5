/-
Sums over a finite family of which one member changes.

A concurrent counter is accounted for by adding up what every participant has put into
it.  One step changes one participant, so its effect on the sum is the difference that
participant makes; `tally_update` says so without subtraction.  The measure may look at
which member it measures.
-/
import Mathlib.Algebra.Order.BigOperators.Group.Finset

namespace Thalyx

open Finset Function

variable {ι α : Type} [Fintype ι]

/-- What a family adds up to, under a measure of its members. -/
def tally (measure : ι → α → Nat) (family : ι → α) : Nat := ∑ i, measure i (family i)

theorem tally_update [DecidableEq ι] (measure : ι → α → Nat) (family : ι → α) (i : ι) (x : α) :
    tally measure (update family i x) + measure i (family i) =
      tally measure family + measure i x := by
  have hold := Finset.add_sum_erase univ (fun j => measure j (family j)) (mem_univ i)
  have hnew := Finset.add_sum_erase univ
    (fun j => measure j (update family i x j)) (mem_univ i)
  have hrest : ∑ j ∈ univ.erase i, measure j (update family i x j) =
      ∑ j ∈ univ.erase i, measure j (family j) := by
    refine Finset.sum_congr rfl ?_
    intro j hj
    rw [update_of_ne (Finset.ne_of_mem_erase hj)]
  simp only [update_self] at hnew
  unfold tally
  omega

theorem le_tally (measure : ι → α → Nat) (family : ι → α) (i : ι) :
    measure i (family i) ≤ tally measure family := by
  have hpos : ∀ j ∈ univ, 0 ≤ measure j (family j) := fun _ _ => Nat.zero_le _
  exact Finset.single_le_sum hpos (mem_univ i)

variable {measure : ι → α → Nat} {family : ι → α}

theorem tally_le_tally {measure' : ι → α → Nat}
    (h : ∀ i, measure i (family i) ≤ measure' i (family i)) :
    tally measure family ≤ tally measure' family :=
  Finset.sum_le_sum fun i _ => h i

theorem tally_congr {family' : ι → α} (h : ∀ i, measure i (family i) = measure i (family' i)) :
    tally measure family = tally measure family' :=
  Finset.sum_congr rfl fun i _ => h i

theorem tally_eq_zero (h : ∀ i, measure i (family i) = 0) : tally measure family = 0 :=
  Finset.sum_eq_zero fun i _ => h i

end Thalyx
