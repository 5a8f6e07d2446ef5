/-
Pages.

Memory is mapped in pages of `p` bytes.  A run of pages is its first address and how many it
has; what a range of bytes touches is the run from the start rounded down to the end rounded
up.  Two runs that begin on page boundaries share a page exactly when their ranges meet.
-/
import Mathlib.Algebra.Order.Ring.Nat
import Mathlib.Tactic.Common

namespace Thalyx.Pages

variable {p : Nat}

/-- An address rounded down to a page boundary. -/
def down (p a : Nat) : Nat := a / p * p

/-- `a.div_ceil(p)`. -/
def divCeil (a p : Nat) : Nat := (a + p - 1) / p

/-- An address rounded up to a page boundary. -/
def up (p a : Nat) : Nat := divCeil a p * p

/-- The addresses of `n` pages from `first` on. -/
def run (p first n : Nat) : List Nat := (List.range n).map fun i => first + i * p

/-- The pages that the bytes of a range lie in. -/
def touched (p start length : Nat) : List Nat :=
  run p (down p start) (divCeil (start + length) p - start / p)

variable {a b first n : Nat}

theorem mem_run {x : Nat} : x ∈ run p first n ↔ ∃ i < n, x = first + i * p := by
  simp only [run, List.mem_map, List.mem_range]
  constructor
  · rintro ⟨i, hi, rfl⟩
    exact ⟨i, hi, rfl⟩
  · rintro ⟨i, hi, rfl⟩
    exact ⟨i, hi, rfl⟩

theorem down_le (p a : Nat) : down p a ≤ a := Nat.div_mul_le_self a p

theorem lt_down_add (hp : 0 < p) (a : Nat) : a < down p a + p := by
  have hdiv := Nat.lt_div_mul_add hp (a := a)
  exact hdiv

theorem dvd_down (p a : Nat) : p ∣ down p a := Nat.dvd_mul_left p (a / p)

theorem dvd_up (p a : Nat) : p ∣ up p a := Nat.dvd_mul_left p (divCeil a p)

theorem down_of_dvd (h : p ∣ a) : down p a = a := Nat.div_mul_cancel h

theorem down_add_mul (hp : 0 < p) (a i : Nat) : down p (a + i * p) = down p a + i * p := by
  rw [down, down, Nat.add_mul_div_right _ _ hp, Nat.add_mul]

theorem down_add_of_dvd (hp : 0 < p) (a : Nat) (h : p ∣ b) : down p (a + b) = down p a + b := by
  obtain ⟨k, rfl⟩ := h
  rw [Nat.mul_comm, down_add_mul hp]

theorem le_up (hp : 0 < p) (a : Nat) : a ≤ up p a := by
  have hdiv := Nat.lt_div_mul_add hp (a := a + p - 1)
  unfold up divCeil
  omega

theorem up_lt (hp : 0 < p) (a : Nat) : up p a < a + p := by
  have hdiv := Nat.div_mul_le_self (a + p - 1) p
  unfold up divCeil
  omega

theorem up_le_iff (hp : 0 < p) (hb : p ∣ b) : up p a ≤ b ↔ a ≤ b := by
  constructor
  · exact (le_up hp a).trans
  · intro hab
    obtain ⟨k, rfl⟩ := hb
    have hup := up_lt hp a
    obtain ⟨m, hm⟩ := dvd_up p a
    rw [hm] at hup ⊢
    have hless : p * m < p * (k + 1) := by
      rw [Nat.mul_succ]
      omega
    exact Nat.mul_le_mul_left p (Nat.lt_succ_iff.mp (Nat.lt_of_mul_lt_mul_left hless))

theorem up_add_of_dvd (hp : 0 < p) (a : Nat) (h : p ∣ b) : up p (a + b) = up p a + b := by
  obtain ⟨k, rfl⟩ := h
  have hshift : a + p * k + p - 1 = a + p - 1 + k * p := by
    rw [Nat.mul_comm p k]
    omega
  rw [up, divCeil, hshift, Nat.add_mul_div_right _ _ hp, Nat.add_mul, up, divCeil,
    Nat.mul_comm p k]

/-- **Two runs of pages meet exactly when their ranges do.** -/
theorem runs_meet_iff (hp : 0 < p) {m : Nat} (ha : p ∣ a) (hb : p ∣ b) :
    (∃ x ∈ run p a n, x ∈ run p b m) ↔ a < b + m * p ∧ b < a + n * p ∧ 0 < n ∧ 0 < m := by
  obtain ⟨k, rfl⟩ := ha
  obtain ⟨l, rfl⟩ := hb
  have hscale : ∀ u v w : Nat, p * u < p * v + w * p ↔ u < v + w := by
    intro u v w
    rw [Nat.mul_comm w p, ← Nat.mul_add]
    exact Nat.mul_lt_mul_left hp
  rw [hscale, hscale]
  constructor
  · rintro ⟨x, hx, hy⟩
    obtain ⟨i, hi, rfl⟩ := mem_run.mp hx
    obtain ⟨j, hj, heq⟩ := mem_run.mp hy
    have hsum : k + i = l + j := by
      rw [Nat.mul_comm i p, Nat.mul_comm j p, ← Nat.mul_add, ← Nat.mul_add] at heq
      exact Nat.eq_of_mul_eq_mul_left hp heq
    omega
  · rintro ⟨hkl, hlk, hn, hm⟩
    -- The later of the two starts is a page of both.
    rcases Nat.le_total k l with hle | hle
    · refine ⟨p * l, mem_run.mpr ⟨l - k, by omega, ?_⟩, mem_run.mpr ⟨0, hm, by simp⟩⟩
      rw [Nat.mul_comm (l - k) p, ← Nat.mul_add, Nat.add_sub_cancel' hle]
    · refine ⟨p * k, mem_run.mpr ⟨0, hn, by simp⟩, mem_run.mpr ⟨k - l, by omega, ?_⟩⟩
      rw [Nat.mul_comm (k - l) p, ← Nat.mul_add, Nat.add_sub_cancel' hle]

theorem run_within_iff {low high : Nat} (hn : 0 < n) :
    (∀ x ∈ run p first n, low ≤ x ∧ x + p ≤ high) ↔ low ≤ first ∧ first + n * p ≤ high := by
  constructor
  · intro h
    obtain ⟨hlow, -⟩ := h first (mem_run.mpr ⟨0, hn, by simp⟩)
    obtain ⟨-, hhigh⟩ := h (first + (n - 1) * p) (mem_run.mpr ⟨n - 1, by omega, rfl⟩)
    refine ⟨hlow, ?_⟩
    rwa [Nat.add_assoc, ← Nat.succ_mul, Nat.succ_eq_add_one, Nat.sub_add_cancel hn] at hhigh
  · rintro ⟨hlow, hhigh⟩ x hx
    obtain ⟨i, hi, rfl⟩ := mem_run.mp hx
    have hlast : (i + 1) * p ≤ n * p := Nat.mul_le_mul_right p hi
    rw [Nat.succ_mul] at hlast
    omega

theorem map_down_eq_run (hp : 0 < p) (a n : Nat) :
    (List.range n).map (fun i => down p (a + i * p)) = run p (down p a) n := by
  apply List.map_congr_left
  intro i _
  exact down_add_mul hp a i

theorem down_add_touched (hp : 0 < p) (start length : Nat) :
    down p start + (divCeil (start + length) p - start / p) * p = up p (start + length) := by
  have hle : start / p ≤ divCeil (start + length) p := by
    apply Nat.div_le_div_right
    omega
  rw [down, ← Nat.add_mul, Nat.add_sub_cancel' hle, up]

theorem touched_pos (hp : 0 < p) (start : Nat) {length : Nat} (h : 0 < length) :
    0 < divCeil (start + length) p - start / p := by
  have hend := down_add_touched hp start length
  have hstart := down_le p start
  have hup := le_up hp (start + length)
  by_contra hzero
  have heq : divCeil (start + length) p - start / p = 0 := by omega
  rw [heq] at hend
  omega

end Thalyx.Pages
