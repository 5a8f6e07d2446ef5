/-
Maps kept as lists in the order of their keys.

An entry carries its own key.  `put` goes past the smaller keys and then replaces the entry
of an equal key or stands in front of the first greater one, and on a list whose keys ascend
that is the update of a map: the keys go on ascending, the key just put reads as what was
put under it, and every other key reads as before.
-/
import Mathlib.Data.List.Basic

namespace Thalyx.Keyed

open List

variable {κ β : Type} [LT κ] [DecidableEq κ] [DecidableLT κ] (key : β → κ)

/-- The keys ascend. -/
def Ascending (entries : List β) : Prop := entries.Pairwise fun a b => key a < key b

/-- What is under a key. -/
def get (k : κ) (entries : List β) : Option β := entries.find? fun e => decide (key e = k)

/-- An entry put under its key. -/
def put (entry : β) : List β → List β
  | [] => [entry]
  | held :: rest =>
    if key held = key entry then entry :: rest
    else if key entry < key held then entry :: held :: rest
    else held :: put entry rest

variable {key} {entry held : β} {entries rest : List β} {k : κ}

omit [LT κ] [DecidableLT κ] in
theorem get_cons :
    get key k (held :: rest) = if key held = k then some held else get key k rest := by
  unfold get
  rw [find?_cons]
  by_cases h : key held = k
  · simp [h]
  · simp [h]

omit [LT κ] [DecidableLT κ] in
theorem get_eq_none : get key k entries = none ↔ ∀ e ∈ entries, key e ≠ k := by
  simp [get]

theorem put_split (entry : β) (entries : List β) :
    ∃ low high, entries = low ++ high ∧
      (∀ e ∈ low, key e ≠ key entry ∧ ¬ key entry < key e) ∧
      ((∃ held rest, high = held :: rest ∧ key held = key entry ∧
          put key entry entries = low ++ entry :: rest) ∨
        ((∀ held rest, high = held :: rest → key entry < key held) ∧
          put key entry entries = low ++ entry :: high)) := by
  induction entries with
  | nil => exact ⟨[], [], rfl, by simp, .inr ⟨by simp, rfl⟩⟩
  | cons held rest ih =>
    unfold put
    by_cases heq : key held = key entry
    · rw [if_pos heq]
      exact ⟨[], held :: rest, rfl, by simp, .inl ⟨held, rest, rfl, heq, rfl⟩⟩
    rw [if_neg heq]
    by_cases hlt : key entry < key held
    · rw [if_pos hlt]
      refine ⟨[], held :: rest, rfl, by simp, .inr ⟨?_, rfl⟩⟩
      intro held' rest' h
      obtain ⟨rfl, rfl⟩ := cons.inj h
      exact hlt
    rw [if_neg hlt]
    obtain ⟨low, high, hsplit, hlow, hput⟩ := ih
    refine ⟨held :: low, high, by rw [hsplit, cons_append], ?_, ?_⟩
    · exact forall_mem_cons.mpr ⟨⟨heq, hlt⟩, hlow⟩
    · rcases hput with ⟨held', rest', hhigh, hsame, hput⟩ | ⟨hgreater, hput⟩
      · exact .inl ⟨held', rest', hhigh, hsame, by rw [hput, cons_append]⟩
      · exact .inr ⟨hgreater, by rw [hput, cons_append]⟩

theorem mem_put {e : β} (h : e ∈ put key entry entries) : e = entry ∨ e ∈ entries := by
  induction entries with
  | nil => exact .inl (mem_singleton.mp h)
  | cons held rest ih =>
    unfold put at h
    split at h
    · rcases mem_cons.mp h with rfl | h
      · exact .inl rfl
      · exact .inr (mem_cons_of_mem held h)
    split at h
    · exact mem_cons.mp h
    · rcases mem_cons.mp h with rfl | h
      · exact .inr mem_cons_self
      · rcases ih h with rfl | h
        · exact .inl rfl
        · exact .inr (mem_cons_of_mem held h)

/-- **What is put is read back, and every other key reads as before.** -/
theorem get_put (key : β → κ) (entry : β) (entries : List β) (k : κ) :
    get key k (put key entry entries) =
      if k = key entry then some entry else get key k entries := by
  induction entries with
  | nil =>
    rw [put, get_cons]
    simp only [eq_comm]
  | cons held rest ih =>
    unfold put
    by_cases heq : key held = key entry
    · rw [if_pos heq, get_cons, get_cons, heq]
      by_cases hk : key entry = k
      · simp [hk]
      · simp [hk, Ne.symm hk]
    rw [if_neg heq]
    by_cases hlt : key entry < key held
    · rw [if_pos hlt, get_cons]
      by_cases hk : key entry = k
      · simp [hk]
      · simp [hk, Ne.symm hk]
    · rw [if_neg hlt, get_cons, get_cons, ih]
      by_cases hk : k = key entry
      · subst hk
        simp [heq]
      · simp [hk]

/-! ### Where the order is one -/

section Order

omit [DecidableEq κ] [DecidableLT κ] in
theorem ne_of_lt [Std.Irrefl (α := κ) (· < ·)] {a b : κ} (h : a < b) : a ≠ b := by
  rintro rfl
  exact Std.Irrefl.irrefl (r := fun x y : κ => x < y) a h

omit [DecidableEq κ] [DecidableLT κ] in
theorem lt_of_ne [Std.Trichotomous (α := κ) (· < ·)] {a b : κ} (hne : a ≠ b) (h : ¬ b < a) :
    a < b := by
  by_contra hlt
  exact hne (Std.Trichotomous.trichotomous (r := fun x y : κ => x < y) a b hlt h)

variable [Trans (α := κ) (· < ·) (· < ·) (· < ·)]

theorem ascending_put [Std.Trichotomous (α := κ) (· < ·)] (h : Ascending key entries) :
    Ascending key (put key entry entries) := by
  induction entries with
  | nil => exact pairwise_singleton _ _
  | cons held rest ih =>
    obtain ⟨hhead, hrest⟩ := pairwise_cons.mp h
    unfold put
    by_cases heq : key held = key entry
    · rw [if_pos heq]
      refine pairwise_cons.mpr ⟨fun e he => ?_, hrest⟩
      rw [← heq]
      exact hhead e he
    rw [if_neg heq]
    by_cases hlt : key entry < key held
    · rw [if_pos hlt]
      refine pairwise_cons.mpr ⟨fun e he => ?_, h⟩
      rcases mem_cons.mp he with rfl | he
      · exact hlt
      · exact Trans.trans hlt (hhead e he)
    · rw [if_neg hlt]
      refine pairwise_cons.mpr ⟨fun e he => ?_, ih hrest⟩
      rcases mem_put he with rfl | he
      · exact lt_of_ne heq hlt
      · exact hhead e he

end Order

end Thalyx.Keyed
