/-
Transition systems, their runs and their invariants.

A system is a set of initial states and a labelled step relation.  `Reachable` is what
runs from an initial state lead to, and `Runs` relates the two ends of any stretch of a
run.  `System.within` keeps only the steps that meet a condition on the state they are
taken in, which is how a result about every run whose steps are of a certain kind is
stated: it is a result about every state the restricted system reaches.

Each induction over runs is made here once; a client proves what one step does.
-/
import Mathlib.Logic.Relation

namespace Thalyx

open Option

/-- A transition system over states `σ` with steps labelled by `α`. -/
structure System (σ α : Type) where
  init : σ → Prop
  step : σ → α → σ → Prop

namespace System

variable {σ α : Type}

/-- The system with only the steps that meet `ok`. -/
def within (S : System σ α) (ok : σ → α → Prop) : System σ α where
  init := S.init
  step s a s' := ok s a ∧ S.step s a s'

/-- The states runs lead to. -/
inductive Reachable (S : System σ α) : σ → Prop where
  | init {s : σ} : S.init s → Reachable S s
  | step {s s' : σ} {a : α} : Reachable S s → S.step s a s' → Reachable S s'

/-- One state leads to another by some steps. -/
inductive Runs (S : System σ α) : σ → σ → Prop where
  | refl (s : σ) : Runs S s s
  | step {s t u : σ} {a : α} : Runs S s t → S.step t a u → Runs S s u

variable {s s' : σ}
variable {S : System σ α}

/-- **What holds initially and is kept by every step holds of every reachable state.** -/
theorem Reachable.invariant {I : σ → Prop} (hinit : ∀ s, S.init s → I s)
    (hstep : ∀ s a s', I s → S.step s a s' → I s') (h : S.Reachable s) : I s := by
  induction h with
  | init hs => exact hinit _ hs
  | step _ hs ih => exact hstep _ _ _ ih hs

theorem Runs.invariant {I : σ → Prop}
    (hstep : ∀ s a s', I s → S.step s a s' → I s') (h : S.Runs s s') (hs : I s) : I s' := by
  induction h with
  | refl => exact hs
  | step _ hst ih => exact hstep _ _ _ ih hst

theorem Reachable.of_runs (h : S.Reachable s) (hr : S.Runs s s') : S.Reachable s' := by
  induction hr with
  | refl => exact h
  | step _ hst ih => exact ih.step hst

/-- The states a list of labels leads to, for a system given by a partial function. -/
def exec (f : σ → α → Option σ) : List α → σ → Option σ
  | [], s => some s
  | a :: rest, s => (f s a).bind (exec f rest)

/-- The system of a partial step function. -/
def ofStep (init : σ → Prop) (f : σ → α → Option σ) : System σ α where
  init := init
  step s a s' := f s a = some s'

variable {init : σ → Prop} {f : σ → α → Option σ} {as : List α}

theorem reachable_of_exec (hs : (ofStep init f).Reachable s) (h : exec f as s = some s') :
    (ofStep init f).Reachable s' := by
  induction as generalizing s with
  | nil => exact some.inj h ▸ hs
  | cons a rest ih =>
    obtain ⟨t, ht, hrest⟩ := bind_eq_some_iff.mp h
    exact ih (hs.step ht) hrest

variable {ok : σ → α → Prop}

theorem reachable_within_of_exec (hs : ((ofStep init f).within ok).Reachable s)
    (hok : ∀ a ∈ as, ∀ t, ok t a) (h : exec f as s = some s') :
    ((ofStep init f).within ok).Reachable s' := by
  induction as generalizing s with
  | nil => exact some.inj h ▸ hs
  | cons a rest ih =>
    obtain ⟨t, ht, hrest⟩ := bind_eq_some_iff.mp h
    refine ih (hs.step ⟨hok a List.mem_cons_self s, ht⟩) ?_ hrest
    intro b hb
    exact hok b (List.mem_cons_of_mem _ hb)

/-- A step function that refuses what does not meet `ok`. -/
def guarded (ok : σ → α → Prop) [∀ s a, Decidable (ok s a)] (f : σ → α → Option σ) (s : σ) (a : α) :
    Option σ :=
  if ok s a then f s a else none

theorem reachable_within_of_tested {test : σ → α → Prop} [∀ s a, Decidable (test s a)]
    (hs : ((ofStep init f).within ok).Reachable s) (hok : ∀ a ∈ as, ∀ t, test t a → ok t a)
    (h : exec (guarded test f) as s = some s') : ((ofStep init f).within ok).Reachable s' := by
  induction as generalizing s with
  | nil => exact some.inj h ▸ hs
  | cons a rest ih =>
    obtain ⟨t, ht, hrest⟩ := bind_eq_some_iff.mp h
    unfold guarded at ht
    split at ht
    · rename_i htest
      refine ih (hs.step ⟨hok a List.mem_cons_self s htest, ht⟩) ?_ hrest
      intro b hb
      exact hok b (List.mem_cons_of_mem _ hb)
    · exact absurd ht (by simp)

theorem reachable_within_of_guarded [∀ s a, Decidable (ok s a)]
    (hs : ((ofStep init f).within ok).Reachable s) (h : exec (guarded ok f) as s = some s') :
    ((ofStep init f).within ok).Reachable s' :=
  reachable_within_of_tested hs (fun _ _ _ => id) h

end System

end Thalyx
