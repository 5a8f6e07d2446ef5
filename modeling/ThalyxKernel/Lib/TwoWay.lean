/-
Doubly linked lists threaded through nodes that something else owns.

The links are two functions on nodes, and `null` ends the list in both directions.
`Linked` says which nodes a list goes through, and what each operation does to it is
stated by what the new links are on the nodes alone, so that a client whose links are
words of a memory only has to say which words it wrote.
-/
import Mathlib.Data.List.Nodup
import Mathlib.Tactic.Common

namespace Thalyx.TwoWay

open List

variable {ν : Type} {null : ν} {next prev next' prev' : ν → ν}

/-- Starting at `head`, whose back link is `back`, the links go through `nodes` and end. -/
def Linked (null : ν) (next prev : ν → ν) : ν → ν → List ν → Prop
  | _, head, [] => head = null
  | back, head, a :: rest =>
    head = a ∧ a ≠ null ∧ prev a = back ∧ Linked null next prev a (next a) rest

variable {a back head : ν} {after before nodes : List ν}

theorem Linked.congr
    (h : Linked null next prev back head nodes) (hnext : ∀ a ∈ nodes, next' a = next a)
    (hprev : ∀ a ∈ nodes, prev' a = prev a) : Linked null next' prev' back head nodes := by
  induction nodes generalizing back head with
  | nil => exact h
  | cons a rest ih =>
    obtain ⟨hhead, hne, hback, hrest⟩ := h
    refine ⟨hhead, hne, (hprev a mem_cons_self).trans hback, ?_⟩
    rw [hnext a mem_cons_self]
    apply ih hrest
    · intro b hb
      exact hnext b (mem_cons_of_mem _ hb)
    · intro b hb
      exact hprev b (mem_cons_of_mem _ hb)

theorem Linked.ne_null (h : Linked null next prev back head nodes) : ∀ a ∈ nodes, a ≠ null := by
  induction nodes generalizing back head with
  | nil => simp
  | cons b rest ih =>
    obtain ⟨-, hne, -, hrest⟩ := h
    intro a ha
    rcases List.mem_cons.mp ha with rfl | ha
    · exact hne
    · exact ih hrest a ha

theorem Linked.head_eq (h : Linked null next prev back head nodes) : head = nodes.headD null := by
  cases nodes with
  | nil => exact h
  | cons a rest => exact h.1

theorem Linked.next_eq
    (h : Linked null next prev back head (before ++ a :: after)) : next a = after.headD null := by
  induction before generalizing back head with
  | nil => exact h.2.2.2.head_eq
  | cons b before ih => exact ih h.2.2.2

theorem Linked.prev_eq (h : Linked null next prev back head (before ++ a :: after)) :
    prev a = before.getLastD back := by
  induction before generalizing back head with
  | nil => exact h.2.2.1
  | cons b before ih => rw [ih h.2.2.2, getLastD_cons]

variable [DecidableEq ν]

theorem Linked.push (h : Linked null next prev null head nodes)
    (hnull : a ≠ null) (hnodup : nodes.Nodup) (hnext : next' a = head) (hprev : prev' a = null)
    (hnexts : ∀ b ∈ nodes, next' b = next b)
    (hprevs : ∀ b ∈ nodes, prev' b = if b = head then a else prev b) :
    Linked null next' prev' null a (a :: nodes) := by
  refine ⟨rfl, hnull, hprev, ?_⟩
  rw [hnext]
  cases nodes with
  | nil => exact h
  | cons b rest =>
    obtain ⟨rfl, hne, -, hrest⟩ := h
    refine ⟨rfl, hne, ?_, ?_⟩
    · rw [hprevs head mem_cons_self, if_pos rfl]
    rw [hnexts head mem_cons_self]
    apply hrest.congr
    · intro c hc
      exact hnexts c (mem_cons_of_mem _ hc)
    · intro c hc
      rw [hprevs c (mem_cons_of_mem _ hc), if_neg]
      intro heq
      exact (List.nodup_cons.mp hnodup).1 (heq ▸ hc)

theorem Linked.unlink (h : Linked null next prev back head (before ++ a :: after))
    (hnodup : (back :: before ++ a :: after).Nodup)
    (hnexts : ∀ b ∈ before ++ after, next' b = if b = prev a then next a else next b)
    (hprevs : ∀ b ∈ before ++ after, prev' b = if b = next a then prev a else prev b) :
    Linked null next' prev' back (if before = [] then next a else head) (before ++ after) := by
  induction before generalizing back head with
  | nil =>
    obtain ⟨-, -, hback, hrest⟩ := h
    rw [if_pos rfl]
    cases after with
    | nil => exact hrest
    | cons b rest =>
      obtain ⟨hb, hne, -, hrest⟩ := hrest
      simp only [nil_append, cons_append, nodup_cons, mem_cons,
        not_or] at hnodup hnexts hprevs
      refine ⟨hb, hne, ?_, ?_⟩
      · rw [hprevs b (.inl rfl), if_pos hb.symm, hback]
      rw [hnexts b (.inl rfl), if_neg (by rw [hback]; exact Ne.symm hnodup.1.2.1)]
      apply hrest.congr
      · intro c hc
        rw [hnexts c (.inr hc), if_neg]
        rintro rfl
        exact hnodup.1.2.2 (hback ▸ hc)
      · intro c hc
        rw [hprevs c (.inr hc), if_neg]
        rintro rfl
        exact hnodup.2.2.1 (hb ▸ hc)
  | cons b before ih =>
    have hlast := h.prev_eq
    have hfirst := h.next_eq
    obtain ⟨hhead, hne, hback, hrest⟩ := h
    have hinner : (b :: before ++ a :: after).Nodup := (List.nodup_cons.mp hnodup).2
    have hb : b ∉ before ++ a :: after := (List.nodup_cons.mp hinner).1
    have hafter : b ≠ next a := by
      rw [hfirst]
      cases after with
      | nil => exact hne
      | cons c rest =>
        rintro rfl
        exact hb (by simp)
    rw [if_neg (cons_ne_nil _ _)]
    refine ⟨hhead, hne, ?_, ?_⟩
    · rw [hprevs b (by simp), if_neg hafter, hback]
    have hnext : next' b = if before = [] then next a else next b := by
      rw [hnexts b (by simp), hlast, getLastD_cons]
      congr 1
      cases before with
      | nil => simp
      | cons c rest =>
        simp only [cons_ne_nil, iff_false, eq_iff_iff]
        intro heq
        apply hb
        rw [heq, getLastD_cons]
        exact mem_append_left _ getLastD_mem_cons
    rw [hnext]
    apply ih hrest hinner
    · intro c hc
      exact hnexts c (mem_cons_of_mem _ hc)
    · intro c hc
      exact hprevs c (mem_cons_of_mem _ hc)

/-- Walking the next links from `block` for at most `fuel` nodes to the first that `p` holds of:
`null` if there is none, and nothing at all if the walk has not ended by then. -/
def seek (null : ν) (next : ν → ν) (p : ν → Bool) : Nat → ν → Option ν
  | 0, _ => none
  | fuel + 1, a =>
    if a = null then some null else if p a then some a else seek null next p fuel (next a)

theorem Linked.seek {p : ν → Bool} {fuel : Nat}
    (h : Linked null next prev back head nodes) (hfuel : nodes.length < fuel) :
    TwoWay.seek null next p fuel head = some ((nodes.find? p).getD null) := by
  induction nodes generalizing back head fuel with
  | nil =>
    obtain ⟨fuel, rfl⟩ := Nat.exists_eq_add_one.mpr hfuel
    have hhead : head = null := h
    rw [TwoWay.seek, if_pos hhead]
    rfl
  | cons a rest ih =>
    obtain ⟨rfl, hne, -, hrest⟩ := h
    obtain ⟨fuel, rfl⟩ := Nat.exists_eq_add_one.mpr (Nat.zero_lt_of_lt hfuel)
    rw [TwoWay.seek, if_neg hne, find?_cons]
    by_cases hp : p head = true
    · rw [if_pos hp, hp]
      rfl
    · rw [if_neg hp, Bool.eq_false_iff.mpr hp]
      exact ih hrest (by simpa using hfuel)

end Thalyx.TwoWay
