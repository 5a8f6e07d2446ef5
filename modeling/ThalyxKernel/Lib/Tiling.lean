/-
Pieces laid end to end.

A row of pieces, each of some extent, covers an interval of addresses.  `lay` says where
each piece starts; two pieces of one row are the same piece or do not overlap, and
replacing some neighbouring pieces by others of the same extent moves nothing else.
-/
import Mathlib.Algebra.BigOperators.Group.List.Basic
import Mathlib.Algebra.Order.Ring.Nat
import Mathlib.Tactic.Common

namespace Thalyx.Tiling

open List

variable {α : Type} (extent : α → Nat)

/-- The pieces with the addresses they start at, the first one at `start`. -/
def lay : Nat → List α → List (Nat × α)
  | _, [] => []
  | start, x :: rest => (start, x) :: lay (start + extent x) rest

/-- What the pieces cover together. -/
def span (pieces : List α) : Nat := (pieces.map extent).sum

@[simp] theorem span_nil : span extent [] = 0 := rfl

@[simp] theorem span_cons (x : α) (pieces : List α) :
    span extent (x :: pieces) = extent x + span extent pieces := rfl

@[simp] theorem span_append (before after : List α) :
    span extent (before ++ after) = span extent before + span extent after := by
  rw [span, map_append, sum_append]
  rfl

@[simp] theorem lay_nil (start : Nat) : lay extent start [] = [] := rfl

@[simp] theorem lay_cons (start : Nat) (x : α) (pieces : List α) :
    lay extent start (x :: pieces) = (start, x) :: lay extent (start + extent x) pieces := rfl

@[simp] theorem lay_append (start : Nat) (before after : List α) :
    lay extent start (before ++ after)
      = lay extent start before ++ lay extent (start + span extent before) after := by
  induction before generalizing start with
  | nil => rfl
  | cons x before ih =>
    rw [cons_append, lay_cons, lay_cons, ih, span_cons, Nat.add_assoc, cons_append]

@[simp] theorem map_snd_lay (start : Nat) (pieces : List α) :
    (lay extent start pieces).map Prod.snd = pieces := by
  induction pieces generalizing start with
  | nil => rfl
  | cons x rest ih => rw [lay_cons, map_cons, ih]

variable {extent} {start a b : Nat} {x y : α} {pieces : List α}

theorem mem_of_mem_lay (h : (a, x) ∈ lay extent start pieces) : x ∈ pieces := by
  rw [← map_snd_lay extent start pieces]
  exact List.mem_map.mpr ⟨(a, x), h, rfl⟩

theorem within_of_mem_lay (h : (a, x) ∈ lay extent start pieces) :
    start ≤ a ∧ a + extent x ≤ start + span extent pieces := by
  induction pieces generalizing start with
  | nil => simp at h
  | cons y rest ih =>
    rw [span_cons]
    rcases List.mem_cons.mp h with heq | hmem
    · obtain ⟨rfl, rfl⟩ := Prod.mk.inj heq
      omega
    · have hrest := ih hmem
      omega

theorem split_of_mem_lay (h : (a, x) ∈ lay extent start pieces) :
    ∃ before after, pieces = before ++ x :: after ∧ a = start + span extent before := by
  induction pieces generalizing start with
  | nil => simp at h
  | cons y rest ih =>
    rcases List.mem_cons.mp h with heq | hmem
    · obtain ⟨rfl, rfl⟩ := Prod.mk.inj heq
      exact ⟨[], rest, rfl, rfl⟩
    · obtain ⟨before, after, rfl, rfl⟩ := ih hmem
      exact ⟨y :: before, after, rfl, by rw [span_cons, Nat.add_assoc]⟩

theorem apart_of_mem_lay (ha : (a, x) ∈ lay extent start pieces)
    (hb : (b, y) ∈ lay extent start pieces) :
    (a = b ∧ x = y) ∨ a + extent x ≤ b ∨ b + extent y ≤ a := by
  induction pieces generalizing start with
  | nil => simp at ha
  | cons z rest ih =>
    rw [lay_cons, mem_cons, Prod.mk.injEq] at ha hb
    rcases ha with ⟨rfl, rfl⟩ | ha
    · rcases hb with ⟨rfl, rfl⟩ | hb
      · exact .inl ⟨rfl, rfl⟩
      · exact .inr (.inl (within_of_mem_lay hb).1)
    · rcases hb with ⟨rfl, rfl⟩ | hb
      · exact .inr (.inr (within_of_mem_lay ha).1)
      · exact ih ha hb

theorem dvd_of_mem_lay {k : Nat} (hstart : k ∣ start) (hextent : ∀ x ∈ pieces, k ∣ extent x)
    (h : (a, x) ∈ lay extent start pieces) : k ∣ a := by
  induction pieces generalizing start with
  | nil => simp at h
  | cons y rest ih =>
    rcases List.mem_cons.mp h with heq | hmem
    · obtain ⟨rfl, rfl⟩ := Prod.mk.inj heq
      exact hstart
    · apply ih (Nat.dvd_add hstart (hextent y mem_cons_self)) _ hmem
      intro z hz
      exact hextent z (mem_cons_of_mem _ hz)

end Thalyx.Tiling
