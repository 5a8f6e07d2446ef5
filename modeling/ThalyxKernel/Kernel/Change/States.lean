/-
Changes of state in the tree of scopes.

A barrier, a promotion and a retirement each pass over the table once and change the state of
the scopes that meet a condition.  The condition of a scope looks at its own state, at who is
above whom, and at counters, none of which the pass changes before it gets there; so the
result is as if every scope had been looked at in the table the pass began with.
-/
import ThalyxKernel.Kernel.Change.Core

namespace Thalyx.Kernel

/-- Two tables that differ in the states of scopes in use. -/
def Scopes.Restated (t t' : Scopes) : Prop :=
  ∀ i, ∃ state, t' i = { t i with state } ∧ (state = .empty ↔ (t i).state = .empty)

namespace Scopes

variable {t t' u : Scopes}

theorem Restated.refl (t : Scopes) : Restated t t := fun i => ⟨(t i).state, rfl, Iff.rfl⟩

theorem Restated.trans (h : Restated t t') (h' : Restated t' u) : Restated t u := by
  intro i
  obtain ⟨state, hi, he⟩ := h i
  obtain ⟨state', hi', he'⟩ := h' i
  refine ⟨state', by rw [hi', hi], ?_⟩
  rw [he', hi]
  exact he

theorem Restated.parent (h : Restated t t') (i : ScopeId) : (t' i).parent = (t i).parent := by
  obtain ⟨state, hi, -⟩ := h i
  rw [hi]

theorem Restated.empty_iff (h : Restated t t') (i : ScopeId) :
    (t' i).state = .empty ↔ (t i).state = .empty := by
  obtain ⟨state, hi, he⟩ := h i
  rw [hi]
  exact he

theorem Restated.isWithin (h : Restated t t') (root i : ScopeId) :
    t'.isWithin root i = t.isWithin root i := by
  unfold Scopes.isWithin
  rw [chain_congr h.parent]

theorem Restated.perimeter (h : Restated t t') (root : ScopeId) :
    t'.perimeter root = t.perimeter root := by
  refine List.filter_congr fun i _ => ?_
  rw [h.isWithin]
  congr 1
  rw [Bool.eq_iff_iff]
  simp [bne_iff_ne, h.empty_iff i]

theorem Restated.pending (h : Restated t t') (root : ScopeId) :
    t'.pending root = t.pending root := by
  have hcounters : ∀ i, (t' i).threads = (t i).threads ∧
      (t' i).invocationsPending = (t i).invocationsPending ∧
      (t' i).effectsPending = (t i).effectsPending ∧ (t' i).mapsPending = (t i).mapsPending := by
    intro i
    obtain ⟨state, hi, -⟩ := h i
    rw [hi]
    exact ⟨rfl, rfl, rfl, rfl⟩
  unfold Scopes.pending
  rw [h.perimeter]
  simp only [hcounters]

theorem restated_setState {i : ScopeId} {state : ScopeState} (hstate : state ≠ .empty)
    (hi : (t i).state ≠ .empty) : Restated t (t.setState i state) := by
  intro j
  by_cases hj : j = i
  · subst hj
    exact ⟨state, Function.update_self _ _ _, by simp [hstate, hi]⟩
  · exact ⟨(t j).state, Function.update_of_ne hj _ _, Iff.rfl⟩

end Scopes

namespace Machine

variable {s : Machine}

theorem setScopeState_scopes (s : Machine) (i : ScopeId) (state : ScopeState) :
    (s.setScopeState i state).scopes = s.scopes.setState i state := by
  unfold setScopeState
  dsimp only
  split
  · rename_i h
    funext j
    by_cases hj : j = i
    · subst hj
      simp [Scopes.setState, Scopes.set, ← h]
    · simp [Scopes.setState, Scopes.set, hj]
  · rfl

theorem setScopeState_rest (s : Machine) (i : ScopeId) (state : ScopeState) :
    ∃ fenced, s.setScopeState i state =
      { s with scopes := s.scopes.setState i state, fenced } := by
  have hscopes := s.setScopeState_scopes i state
  unfold setScopeState at hscopes ⊢
  dsimp only at hscopes ⊢
  split
  · rename_i h
    rw [if_pos h] at hscopes
    exact ⟨s.fenced, by rw [← hscopes]⟩
  · exact ⟨_, rfl⟩

/-- A pass over some scopes in turn. -/
def restate (p : Scopes → ScopeId → Bool) (state : ScopeState) (l : List ScopeId) (s : Machine) :
    Machine :=
  l.foldl (fun s i => if p s.scopes i then s.setScopeState i state else s) s

/-- What a condition on a scope may look at. -/
structure Settled (p : Scopes → ScopeId → Bool) : Prop where
  used : ∀ t i, p t i = true → (t i).state ≠ .empty
  same : ∀ t t' i, Scopes.Restated t t' → (t' i).state = (t i).state → p t' i = p t i

/-- **A pass changes the scopes that meet its condition**, as seen before it. -/
theorem restate_spec {p : Scopes → ScopeId → Bool} {state : ScopeState} (hp : Settled p)
    (hstate : state ≠ .empty) {l : List ScopeId} (hl : l.Nodup) (s : Machine) :
    Scopes.Restated s.scopes (restate p state l s).scopes ∧
      (∃ fenced, restate p state l s =
        { s with scopes := (restate p state l s).scopes, fenced }) ∧
      ∀ i, ((restate p state l s).scopes i).state =
        if i ∈ l ∧ p s.scopes i then state else (s.scopes i).state := by
  induction l generalizing s with
  | nil => exact ⟨Scopes.Restated.refl _, ⟨s.fenced, rfl⟩, fun i => by simp [restate]⟩
  | cons j rest ih =>
    obtain ⟨hj, hrest⟩ := List.nodup_cons.mp hl
    obtain ⟨hr, ⟨fenced, heq⟩, hs⟩ :=
      ih hrest (if p s.scopes j then s.setScopeState j state else s)
    have hcons : restate p state (j :: rest) s =
        restate p state rest (if p s.scopes j then s.setScopeState j state else s) := rfl
    rw [hcons]
    by_cases hpj : p s.scopes j = true
    · rw [if_pos hpj] at hr heq hs ⊢
      obtain ⟨fenced', hset⟩ := s.setScopeState_rest j state
      have hone : Scopes.Restated s.scopes (s.setScopeState j state).scopes := by
        rw [setScopeState_scopes]
        exact Scopes.restated_setState hstate (hp.used _ _ hpj)
      refine ⟨hone.trans hr, ⟨fenced, ?_⟩, ?_⟩
      · rw [heq, hset]
      · intro i
        rw [hs i, setScopeState_scopes]
        by_cases hij : i = j
        · subst hij
          have hself : ((s.scopes.setState i state) i).state = state := by
            simp [Scopes.setState, Scopes.set]
          simp [hj, hpj, hself]
        · have hother : ((s.scopes.setState j state) i).state = (s.scopes i).state := by
            simp [Scopes.setState, Scopes.set, hij]
          have hpi : p (s.scopes.setState j state) i = p s.scopes i := by
            rw [setScopeState_scopes] at hone
            exact hp.same _ _ i hone hother
          simp [hij, hpi, hother]
    · rw [if_neg hpj] at hr heq hs ⊢
      refine ⟨hr, ⟨fenced, heq⟩, ?_⟩
      intro i
      rw [hs i]
      by_cases hij : i = j
      · subst hij
        simp [hj, hpj]
      · simp [hij]

/-! ### The three passes -/

/-- What a barrier fences. -/
def openWithin (root : ScopeId) (t : Scopes) (i : ScopeId) : Bool :=
  (t i).state == .opened && t.isWithin root i

/-- What a retirement retires. -/
def usedWithin (root : ScopeId) (t : Scopes) (i : ScopeId) : Bool :=
  (t i).state != .empty && t.isWithin root i

theorem placeBarrier_eq (s : Machine) (root : ScopeId) :
    s.placeBarrier root = restate (openWithin root) .fenced (List.finRange maxScopes) s := by
  unfold placeBarrier restate openWithin
  simp only [Bool.and_eq_true, beq_iff_eq]

theorem advanceQuiescence_eq (s : Machine) :
    s.advanceQuiescence = restate Scopes.drained .quiescent (List.finRange maxScopes) s := rfl

theorem retireScopes_eq (s : Machine) (root : ScopeId) :
    s.retireScopes root = restate (usedWithin root) .retired (List.finRange maxScopes) s := by
  unfold retireScopes restate usedWithin
  simp only [Bool.and_eq_true, bne_iff_ne]

theorem settled_openWithin (root : ScopeId) : Settled (openWithin root) where
  used t i h := by
    have hopen : (t i).state = .opened := by
      simp only [openWithin, Bool.and_eq_true, beq_iff_eq] at h
      exact h.1
    simp [hopen]
  same t t' i h hs := by rw [openWithin, openWithin, hs, h.isWithin]

theorem settled_drained : Settled Scopes.drained where
  used t i h := by
    have hfenced : (t i).state = .fenced := by
      simp only [Scopes.drained, Bool.and_eq_true, beq_iff_eq] at h
      exact h.1
    simp [hfenced]
  same t t' i h hs := by rw [Scopes.drained, Scopes.drained, hs, h.pending]

theorem settled_usedWithin (root : ScopeId) : Settled (usedWithin root) where
  used t i h := by
    simp only [usedWithin, Bool.and_eq_true, bne_iff_ne] at h
    exact h.1
  same t t' i h hs := by rw [usedWithin, usedWithin, hs, h.isWithin]

end Machine

end Thalyx.Kernel
