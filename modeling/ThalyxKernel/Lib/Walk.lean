/-
A bounded breadth-first walk over a graph that is discovered as it goes.

The graph is a partial function from a node to its children, and the walk stops with an
error where that function does or where more nodes are queued than there is room for.
What the walk answers depends only on the children of the nodes it answers, which is
what lets a walk over one store be repeated over another.

A node is queued once for every node it is a child of, and only then looked for among those
seen.  So what the room has to hold is not the nodes there are but the edges between them.
-/
import Mathlib.Data.List.Nodup
import Mathlib.Logic.Relation

namespace Thalyx

open List

variable {α ε : Type} [DecidableEq α]

/-- `walk children full room steps queue queued seen`: the nodes reached, in the order they
were taken off the queue.  `queued` counts what was ever put on the queue, `room` bounds
it, and `steps` bounds the nodes taken off it. -/
def walk (children : α → Except ε (List α)) (full : ε) (room : Nat) :
    Nat → List α → Nat → List α → Except ε (List α)
  | _, [], _, seen => .ok seen
  | 0, _ :: _, _, _ => .error full
  | steps + 1, a :: queue, queued, seen =>
    if a ∈ seen then walk children full room steps queue queued seen
    else
      match children a with
      | .error e => .error e
      | .ok next =>
        if room < queued + next.length then .error full
        else walk children full room steps (queue ++ next) (queued + next.length)
          (seen ++ [a])

variable {children children' : α → Except ε (List α)} {full : ε} {room steps queued : Nat}
  {queue seen reached : List α}

/-- What holds where a walk is done, and is carried back over a node seen before and over a
node taken with its children, holds where a walk that is answered starts. -/
theorem walk_induction {motive : List α → Nat → List α → Prop}
    (h : walk children full room steps queue queued seen = .ok reached)
    (done : ∀ queued, motive [] queued reached)
    (again : ∀ a queue queued seen, a ∈ seen → motive queue queued seen →
      motive (a :: queue) queued seen)
    (fresh : ∀ a queue queued seen next, a ∉ seen → children a = .ok next →
      queued + next.length ≤ room →
      motive (queue ++ next) (queued + next.length) (seen ++ [a]) →
      motive (a :: queue) queued seen) : motive queue queued seen := by
  induction steps generalizing queue queued seen with
  | zero =>
    cases queue with
    | nil =>
      simp only [walk, Except.ok.injEq] at h
      exact h ▸ done queued
    | cons a queue => simp [walk] at h
  | succ steps ih =>
    cases queue with
    | nil =>
      simp only [walk, Except.ok.injEq] at h
      exact h ▸ done queued
    | cons a queue =>
      unfold walk at h
      split at h
      · rename_i hold
        exact again a queue queued seen hold (ih h)
      · rename_i hnew
        split at h
        · cases h
        · rename_i next hnext
          split at h
          · cases h
          · rename_i hfits
            exact fresh a queue queued seen next hnew hnext (Nat.le_of_not_lt hfits) (ih h)

theorem seen_subset_of_walk (h : walk children full room steps queue queued seen = .ok reached) :
    seen ⊆ reached := by
  refine walk_induction (motive := fun _ _ seen => seen ⊆ reached) h ?_ ?_ ?_
  · exact fun _ => List.Subset.refl _
  · exact fun _ _ _ _ _ ih => ih
  · exact fun _ _ _ _ _ _ _ _ ih => List.Subset.trans (subset_append_left _ _) ih

/-- **A walk depends only on the children of the nodes it answers.** -/
theorem walk_congr (h : walk children full room steps queue queued seen = .ok reached)
    (hsame : ∀ a ∈ reached, a ∉ seen → children' a = children a) :
    walk children' full room steps queue queued seen = .ok reached := by
  induction steps generalizing queue queued seen with
  | zero =>
    cases queue with
    | nil => simpa only [walk] using h
    | cons a queue => simp [walk] at h
  | succ steps ih =>
    cases queue with
    | nil => simpa only [walk] using h
    | cons a queue =>
      unfold walk at h ⊢
      by_cases hseen : a ∈ seen
      · rw [if_pos hseen] at h ⊢
        exact ih h hsame
      · rw [if_neg hseen] at h ⊢
        cases hc : children a with
        | error e => simp [hc] at h
        | ok next =>
          simp only [hc] at h
          split at h
          · cases h
          · rename_i hroom
            -- the node just taken off the queue is answered, so its children agree
            have ha : a ∈ reached := seen_subset_of_walk h (by simp)
            rw [hsame a ha hseen, hc]
            simp only [if_neg hroom]
            refine ih h ?_
            intro b hb hnew
            exact hsame b hb fun hold => hnew (mem_append_left _ hold)

theorem walk_closed (h : walk children full room steps queue queued seen = .ok reached)
    (hseen : ∀ a ∈ seen, ∃ next, children a = .ok next ∧ ∀ b ∈ next, b ∈ seen ∨ b ∈ queue) :
    (∀ a ∈ queue, a ∈ reached) ∧
      ∀ a ∈ reached, ∃ next, children a = .ok next ∧ ∀ b ∈ next, b ∈ reached := by
  suffices hboth : seen ⊆ reached ∧ ((∀ a ∈ seen, ∃ next, children a = .ok next ∧
      ∀ b ∈ next, b ∈ seen ∨ b ∈ queue) → (∀ a ∈ queue, a ∈ reached) ∧
        ∀ a ∈ reached, ∃ next, children a = .ok next ∧ ∀ b ∈ next, b ∈ reached) from
    hboth.2 hseen
  refine walk_induction (motive := fun queue _ seen => seen ⊆ reached ∧
    ((∀ a ∈ seen, ∃ next, children a = .ok next ∧ ∀ b ∈ next, b ∈ seen ∨ b ∈ queue) →
      (∀ a ∈ queue, a ∈ reached) ∧
        ∀ a ∈ reached, ∃ next, children a = .ok next ∧ ∀ b ∈ next, b ∈ reached)) h ?_ ?_ ?_
  · refine fun _ => ⟨List.Subset.refl _, fun hseen => ⟨by simp, fun a ha => ?_⟩⟩
    obtain ⟨next, hnext, hin⟩ := hseen a ha
    exact ⟨next, hnext, fun b hb => (hin b hb).elim id fun hq => by cases hq⟩
  · rintro a queue queued seen hold ⟨hsub, ih⟩
    refine ⟨hsub, fun hseen => ?_⟩
    obtain ⟨hq, hclosed⟩ := ih fun x hx => by
      obtain ⟨next, hnext, hin⟩ := hseen x hx
      refine ⟨next, hnext, fun b hb => ?_⟩
      rcases hin b hb with hs | hs
      · exact .inl hs
      · rcases mem_cons.mp hs with rfl | hs
        · exact .inl hold
        · exact .inr hs
    exact ⟨forall_mem_cons.mpr ⟨hsub hold, hq⟩, hclosed⟩
  · rintro a queue queued seen next - hc - ⟨hsub, ih⟩
    refine ⟨List.Subset.trans (subset_append_left _ _) hsub, fun hseen => ?_⟩
    obtain ⟨hq, hclosed⟩ := ih fun x hx => by
      rcases mem_append.mp hx with hx | hx
      · obtain ⟨more, hmore, hin⟩ := hseen x hx
        refine ⟨more, hmore, fun b hb => ?_⟩
        rcases hin b hb with hs | hs
        · exact .inl (mem_append_left _ hs)
        · rcases mem_cons.mp hs with rfl | hs
          · exact .inl (by simp)
          · exact .inr (mem_append_left _ hs)
      · rw [mem_singleton.mp hx]
        exact ⟨next, hc, fun b hb => .inr (mem_append_right _ hb)⟩
    exact ⟨forall_mem_cons.mpr
      ⟨hsub (by simp), fun x hx => hq x (mem_append_left _ hx)⟩, hclosed⟩

/-! ### What a walk reaches, and when it gets there -/

/-- Children a node has, with repetitions. -/
def degree (children : α → Except ε (List α)) (a : α) : Nat :=
  match children a with
  | .error _ => 0
  | .ok next => next.length

/-- Children the nodes of a list have together. -/
def degrees (children : α → Except ε (List α)) : List α → Nat
  | [] => 0
  | a :: rest => degree children a + degrees children rest

/-- One node is a child of another. -/
def Child (children : α → Except ε (List α)) (a b : α) : Prop :=
  ∃ next, children a = .ok next ∧ b ∈ next

theorem walk_nodup (h : walk children full room steps queue queued seen = .ok reached)
    (hseen : seen.Nodup) : reached.Nodup := by
  revert hseen
  refine walk_induction (motive := fun _ _ seen => seen.Nodup → reached.Nodup) h ?_ ?_ ?_
  · exact fun _ => id
  · exact fun _ _ _ _ _ ih => ih
  · intro a _ _ seen _ hnew _ _ ih hseen
    refine ih (nodup_append.mpr ⟨hseen, nodup_singleton a, ?_⟩)
    rintro b hb c hc rfl
    exact hnew (mem_singleton.mp hc ▸ hb)

/-- **A walk answers nothing outside a set that is closed under children.** -/
theorem walk_least {P : α → Prop}
    (h : walk children full room steps queue queued seen = .ok reached)
    (hqueue : ∀ a ∈ queue, P a) (hseen : ∀ a ∈ seen, P a)
    (hclosed : ∀ a b, P a → Child children a b → P b) : ∀ a ∈ reached, P a := by
  revert hqueue hseen
  refine walk_induction (motive := fun queue _ seen => (∀ a ∈ queue, P a) → (∀ a ∈ seen, P a) →
    ∀ a ∈ reached, P a) h ?_ ?_ ?_
  · exact fun _ _ hseen => hseen
  · exact fun _ _ _ _ _ ih hqueue hseen => ih (forall_mem_cons.mp hqueue).2 hseen
  · intro a queue _ seen next _ hnext _ ih hqueue hseen
    obtain ⟨ha, hrest⟩ := forall_mem_cons.mp hqueue
    refine ih (forall_mem_append.mpr ⟨hrest, ?_⟩) (forall_mem_append.mpr ⟨hseen, ?_⟩)
    · exact fun b hb => hclosed a b ha ⟨next, hnext, hb⟩
    · exact forall_mem_singleton.mpr ha

theorem walk_within (h : walk children full room steps queue queued seen = .ok reached)
    (hroom : queued ≤ room) :
    ∃ new, reached = seen ++ new ∧ queued + degrees children new ≤ room := by
  revert hroom
  refine walk_induction (motive := fun _ queued seen => queued ≤ room →
    ∃ new, reached = seen ++ new ∧ queued + degrees children new ≤ room) h ?_ ?_ ?_
  · exact fun _ hroom => ⟨[], (append_nil _).symm, hroom⟩
  · exact fun _ _ _ _ _ ih => ih
  · intro a _ queued seen next _ hnext hfits ih _
    obtain ⟨new, hnew, hle⟩ := ih hfits
    refine ⟨a :: new, by rw [hnew, append_assoc, singleton_append], ?_⟩
    simp only [degrees, degree, hnext]
    omega

/-- **A walk that does not get there met a node whose children are not known, or more nodes
than there is room for.** -/
theorem walk_error {P : α → Prop} {e : ε}
    (h : walk children full room steps queue queued seen = .error e)
    (hsteps : room + queue.length ≤ steps + queued) (hqueue : ∀ a ∈ queue, P a)
    (hclosed : ∀ a b, P a → Child children a b → P b) :
    (∃ a, P a ∧ ∃ e, children a = .error e) ∨
      ∃ new : List α, new.Nodup ∧ (∀ a ∈ new, a ∉ seen ∧ P a) ∧
        room < queued + degrees children new := by
  induction steps generalizing queue queued seen with
  | zero =>
    cases queue with
    | nil => simp [walk] at h
    | cons a queue =>
      refine .inr ⟨[], nodup_nil, fun a ha => absurd ha not_mem_nil, ?_⟩
      simp only [length_cons] at hsteps
      simp only [degrees]
      omega
  | succ steps ih =>
    cases queue with
    | nil => simp [walk] at h
    | cons a queue =>
      have ha : P a := hqueue a mem_cons_self
      have hrest : ∀ b ∈ queue, P b := fun b hb => hqueue b (mem_cons_of_mem a hb)
      simp only [length_cons] at hsteps
      unfold walk at h
      split at h
      · exact ih h (by omega) hrest
      · rename_i hnew
        split at h
        · rename_i e' herr
          exact .inl ⟨a, ha, e', herr⟩
        · rename_i next hnext
          split at h
          · rename_i hfull
            refine .inr ⟨[a], nodup_singleton a, ?_, ?_⟩
            · intro b hb
              rw [mem_singleton.mp hb]
              exact ⟨hnew, ha⟩
            · simp only [degrees, degree, hnext]
              omega
          · have hqueue' : ∀ b ∈ queue ++ next, P b := by
              intro b hb
              rcases mem_append.mp hb with hb | hb
              · exact hrest b hb
              · exact hclosed a b ha ⟨next, hnext, hb⟩
            rcases ih h (by rw [length_append]; omega) hqueue' with hbad | hbig
            · exact .inl hbad
            · obtain ⟨new, hnodup, hin, hlt⟩ := hbig
              have hfresh : ∀ b ∈ new, b ∉ seen ∧ b ≠ a := by
                intro b hb
                have hb := (hin b hb).1
                rw [mem_append, mem_singleton, not_or] at hb
                exact hb
              refine .inr ⟨a :: new, ?_, ?_, ?_⟩
              · exact nodup_cons.mpr ⟨fun hmem => (hfresh a hmem).2 rfl, hnodup⟩
              · intro b hb
                rcases mem_cons.mp hb with rfl | hb
                · exact ⟨hnew, ha⟩
                · exact ⟨(hfresh b hb).1, (hin b hb).2⟩
              · simp only [degrees, degree, hnext]
                omega

omit [DecidableEq α] in
theorem degrees_append (xs ys : List α) :
    degrees children (xs ++ ys) = degrees children xs + degrees children ys := by
  induction xs with
  | nil => simp [degrees]
  | cons a rest ih =>
    rw [cons_append, degrees, degrees, ih]
    omega

omit [DecidableEq α] in
theorem degrees_le {xs ys : List α} (hnodup : xs.Nodup) (hsub : xs ⊆ ys) :
    degrees children xs ≤ degrees children ys := by
  induction xs generalizing ys with
  | nil => exact Nat.zero_le _
  | cons a rest ih =>
    obtain ⟨hnew, hrest⟩ := nodup_cons.mp hnodup
    obtain ⟨before, after, rfl⟩ := append_of_mem (hsub mem_cons_self)
    have hle : degrees children rest ≤ degrees children (before ++ after) := by
      refine ih hrest ?_
      intro b hb
      have hmem := hsub (mem_cons_of_mem a hb)
      rw [mem_append, mem_cons] at hmem
      rw [mem_append]
      rcases hmem with hmem | rfl | hmem
      · exact .inl hmem
      · exact absurd hb hnew
      · exact .inr hmem
    rw [degrees_append] at hle
    rw [degrees_append, degrees, degrees]
    omega

open Relation in
theorem reached_of_walk {root a : α} (h : walk children full room steps [root] 1 [] = .ok reached)
    (ha : ReflTransGen (Child children) root a) : a ∈ reached := by
  obtain ⟨hqueue, hknown⟩ := walk_closed h fun a ha => absurd ha not_mem_nil
  induction ha with
  | refl => exact hqueue root mem_cons_self
  | tail _ hstep ih =>
    obtain ⟨next, hnext, hin⟩ := hstep
    obtain ⟨next', hnext', hsub⟩ := hknown _ ih
    rw [hnext, Except.ok.injEq] at hnext'
    exact hsub _ (hnext' ▸ hin)

open Relation in
/-- **A walk from one node gets there exactly when the children of everything it reaches are
known and there is room for all of them.**  It then answers what it reaches. -/
theorem walk_ok {root : α} (hroom : 1 ≤ room) (hsteps : room ≤ steps) :
    (∃ reached, walk children full room steps [root] 1 [] = .ok reached) ↔
      (∀ a, ReflTransGen (Child children) root a → ∃ next, children a = .ok next) ∧
        ∀ nodes : List α, nodes.Nodup → (∀ a ∈ nodes, ReflTransGen (Child children) root a) →
          1 + degrees children nodes ≤ room := by
  constructor
  · rintro ⟨reached, h⟩
    obtain ⟨-, hknown⟩ := walk_closed h fun a ha => absurd ha not_mem_nil
    have hall : ∀ a, ReflTransGen (Child children) root a → a ∈ reached := fun _ => reached_of_walk h
    refine ⟨fun a ha => ?_, fun nodes hnodup hnodes => ?_⟩
    · obtain ⟨next, hnext, -⟩ := hknown a (hall a ha)
      exact ⟨next, hnext⟩
    · obtain ⟨new, hnew, hle⟩ := walk_within h hroom
      rw [nil_append] at hnew
      have hsub : degrees children nodes ≤ degrees children new :=
        degrees_le hnodup fun a ha => hnew ▸ hall a (hnodes a ha)
      omega
  · rintro ⟨hknown, hfits⟩
    cases h : walk children full room steps [root] 1 [] with
    | ok reached => exact ⟨reached, rfl⟩
    | error e =>
      exfalso
      rcases walk_error (P := ReflTransGen (Child children) root) h
        (by simp only [length_singleton]; omega)
        (fun a ha => mem_singleton.mp ha ▸ .refl) (fun a b ha hb => ha.tail hb) with
        ⟨a, ha, e, herr⟩ | ⟨new, hnodup, hnew, hlt⟩
      · obtain ⟨next, hnext⟩ := hknown a ha
        rw [hnext] at herr
        cases herr
      · have := hfits new hnodup fun a ha => (hnew a ha).2
        omega

open Relation in
theorem mem_walk {root : α} (h : walk children full room steps [root] 1 [] = .ok reached) (a : α) :
    a ∈ reached ↔ ReflTransGen (Child children) root a := by
  constructor
  · exact walk_least (P := ReflTransGen (Child children) root) h
      (fun b hb => mem_singleton.mp hb ▸ .refl) (fun b hb => absurd hb not_mem_nil)
      (fun b c hb hc => hb.tail hc) a
  · exact reached_of_walk h

end Thalyx
