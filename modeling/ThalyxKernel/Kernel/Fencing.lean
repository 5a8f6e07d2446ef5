/-
Fencing a subtree: `fence_lineage` of `kernel/src/obj.rs`.

The nodes lie in a flat table, and a pass goes over it in the table's order, so a node is
fenced in the pass in which its parent already is: in the same one when the parent lies
before it, in the next when it lies after.  Two facts are needed of the passes.

  * They fence nothing outside the subtree: what they fence has a fenced parent, and where the
    descendants of fenced nodes were fenced to begin with that parent was fenced just now.
  * They fence the whole subtree: a pass reaches at least one level further down, and depths
    are bounded by the number of passes.

`fenceSweeps` is the loop as the source has it, with the count it reports and the stop at a
pass that changed nothing.
-/
import ThalyxKernel.Kernel.Change.Lineage

namespace Thalyx.Kernel

open Function

/-! ### Forests -/

/-- Parents are in use, one level up, and no node lies deeper than the interface allows. -/
structure Forest (t : GrantId → Grant) : Prop where
  parent : ∀ g p, (t g).used = true → (t g).parent = some p →
    (t p).used = true ∧ (t g).depth = (t p).depth + 1
  depth : ∀ g, (t g).used = true → (t g).depth ≤ maxDeriveDepth

/-- A node in use below a fenced one is fenced. -/
def FencedBelow (t : GrantId → Grant) : Prop :=
  ∀ g p, (t g).used = true → (t g).parent = some p → (t p).fenced = true → (t g).fenced = true

/-- The used nodes of the subtree of `root`, itself among them. -/
inductive Descends (t : GrantId → Grant) (root : GrantId) : GrantId → Prop where
  | root : (t root).used = true → Descends t root root
  | child {g p : GrantId} : (t g).used = true → (t g).parent = some p → Descends t root p →
      Descends t root g

variable {t t' u : GrantId → Grant} {root g p : GrantId}

theorem Descends.used (h : Descends t root g) : (t g).used = true := by
  cases h with
  | root hg => exact hg
  | child hg _ _ => exact hg

theorem Descends.depth_le (hforest : Forest t) (h : Descends t root g) :
    (t root).depth ≤ (t g).depth := by
  induction h with
  | root => exact le_refl _
  | child hg hp _ ih =>
    have hdepth := (hforest.parent _ _ hg hp).2
    omega

/-! ### What a pass changes -/

/-- Nothing but more nodes fenced. -/
structure Raised (t t' : GrantId → Grant) : Prop where
  only : ∀ g, t' g = { t g with fenced := (t' g).fenced }
  more : ∀ g, (t g).fenced = true → (t' g).fenced = true

namespace Raised

theorem refl (t : GrantId → Grant) : Raised t t := ⟨fun _ => rfl, fun _ => id⟩

theorem trans (h : Raised t t') (h' : Raised t' u) : Raised t u where
  only g := by
    rw [h'.only g, h.only g]
  more g hg := h'.more g (h.more g hg)

theorem used (h : Raised t t') (g : GrantId) : (t' g).used = (t g).used := by
  rw [h.only g]

theorem parent (h : Raised t t') (g : GrantId) : (t' g).parent = (t g).parent := by
  rw [h.only g]

theorem depth (h : Raised t t') (g : GrantId) : (t' g).depth = (t g).depth := by
  rw [h.only g]

theorem same (h : Raised t t') {g : GrantId} (hg : (t' g).fenced = true → (t g).fenced = true) :
    t' g = t g := by
  have hiff : (t' g).fenced = (t g).fenced := Bool.eq_iff_iff.mpr ⟨hg, h.more g⟩
  rw [h.only g, hiff]

end Raised

theorem raised_fence (t : GrantId → Grant) (g : GrantId) :
    Raised t (Function.update t g { t g with fenced := true }) where
  only k := by
    by_cases hk : k = g
    · subst hk
      simp
    · simp [update_of_ne hk]
  more k hfenced := by
    by_cases hk : k = g
    · subst hk
      simp
    · simpa [update_of_ne hk] using hfenced

/-- One node of a pass: fenced when it is in use and its parent is fenced. -/
def fenceNode (t : GrantId → Grant) (g : GrantId) : GrantId → Grant :=
  if (t g).used && !(t g).fenced && (t g).parent.any fun p => (t p).fenced then
    Function.update t g { t g with fenced := true }
  else t

theorem fencePass_eq (t : GrantId → Grant) :
    fencePass t = (List.finRange maxGrants).foldl fenceNode t := rfl

theorem raised_fenceNode (t : GrantId → Grant) (g : GrantId) : Raised t (fenceNode t g) := by
  unfold fenceNode
  split
  · exact raised_fence t g
  · exact .refl t

theorem fenceNode_fenced (hg : (t g).used = true) (hp : (t g).parent = some p)
    (hfenced : (t p).fenced = true) : (fenceNode t g g).fenced = true := by
  unfold fenceNode
  by_cases hdone : (t g).fenced = true
  · simp [hdone]
  · simp [hg, hp, hfenced, hdone]

theorem fenced_of_fenceNode {k : GrantId} (h : (fenceNode t g k).fenced = true) :
    (t k).fenced = true ∨
      (t k).used = true ∧ ∃ p, (t k).parent = some p ∧ (t p).fenced = true := by
  unfold fenceNode at h
  split at h
  · rename_i hcond
    by_cases hk : k = g
    · subst hk
      simp only [Bool.and_eq_true, Option.any_eq_true] at hcond
      exact Or.inr ⟨hcond.1.1, hcond.2⟩
    · rw [update_of_ne hk] at h
      exact Or.inl h
  · exact Or.inl h

theorem raised_fold (l : List GrantId) (t : GrantId → Grant) : Raised t (l.foldl fenceNode t) := by
  induction l generalizing t with
  | nil => exact .refl t
  | cons g rest ih => exact (raised_fenceNode t g).trans (ih _)

theorem fold_fenced {l : List GrantId} (hmem : g ∈ l) (hg : (t g).used = true)
    (hp : (t g).parent = some p) (hfenced : (t p).fenced = true) :
    (l.foldl fenceNode t g).fenced = true := by
  induction l generalizing t with
  | nil => exact absurd hmem (by simp)
  | cons k rest ih =>
    have hstep := raised_fenceNode t k
    rw [List.foldl_cons]
    rcases List.mem_cons.mp hmem with rfl | hrest
    · exact (raised_fold rest _).more g (fenceNode_fenced hg hp hfenced)
    · apply ih hrest
      · rw [hstep.used]
        exact hg
      · rw [hstep.parent]
        exact hp
      · exact hstep.more p hfenced

variable {Q : GrantId → Prop}

theorem fold_inside (l : List GrantId)
    (hclosed : ∀ g p, (t g).used = true → (t g).parent = some p → Q p → Q g)
    (hin : ∀ g, (t g).fenced = true → Q g) (g : GrantId)
    (hg : (l.foldl fenceNode t g).fenced = true) : Q g := by
  induction l generalizing t with
  | nil => exact hin g hg
  | cons k rest ih =>
    have hstep := raised_fenceNode t k
    apply ih (t := fenceNode t k) _ _ hg
    · intro g p hused hparent hQ
      rw [hstep.used] at hused
      rw [hstep.parent] at hparent
      exact hclosed g p hused hparent hQ
    · intro g hfenced
      rcases fenced_of_fenceNode hfenced with hold | ⟨hused, p, hparent, hpf⟩
      · exact hin g hold
      · exact hclosed g p hused hparent (hin p hpf)

theorem fencePass_settled (h : FencedBelow t) : fencePass t = t := by
  rw [fencePass_eq]
  generalize List.finRange maxGrants = l
  funext g
  exact (raised_fold l t).same (fold_inside l h (fun _ => id) g)

/-! ### The passes together -/

theorem raised_passes (n : Nat) (t : GrantId → Grant) : Raised t (fencePass^[n] t) := by
  induction n with
  | zero => exact .refl t
  | succ n ih =>
    rw [iterate_succ_apply']
    exact ih.trans (raised_fold _ _)

theorem passes_fenced (hforest : Forest t) (hroot : (t root).fenced = true) (n : Nat)
    (h : Descends t root g) (hdepth : (t g).depth ≤ (t root).depth + n) :
    (fencePass^[n] t g).fenced = true := by
  induction n generalizing g with
  | zero =>
    cases h with
    | root => exact hroot
    | child hg hp hdown =>
      have hlevel := (hforest.parent _ _ hg hp).2
      have hbelow := hdown.depth_le hforest
      omega
  | succ n ih =>
    have hraised := raised_passes n t
    rw [iterate_succ_apply']
    cases h with
    | root => exact (raised_fold _ _).more _ (hraised.more _ hroot)
    | @child g p hg hp hdown =>
      have hlevel := (hforest.parent _ _ hg hp).2
      have hparent := ih hdown (by omega)
      rw [fencePass_eq]
      apply fold_fenced (List.mem_finRange g) _ _ hparent
      · rw [hraised.used]
        exact hg
      · rw [hraised.parent]
        exact hp

theorem passes_inside (n : Nat)
    (hclosed : ∀ g p, (t g).used = true → (t g).parent = some p → Q p → Q g)
    (hin : ∀ g, (t g).fenced = true → Q g) (g : GrantId)
    (hg : (fencePass^[n] t g).fenced = true) : Q g := by
  induction n generalizing g with
  | zero => exact hin g hg
  | succ n ih =>
    have hraised := raised_passes n t
    rw [iterate_succ_apply'] at hg
    apply fold_inside _ _ ih g hg
    intro g p hused hparent hQ
    rw [hraised.used] at hused
    rw [hraised.parent] at hparent
    exact hclosed g p hused hparent hQ

/-- The table as the passes find it. -/
def fenceRoot (t : GrantId → Grant) (root : GrantId) : GrantId → Grant :=
  if (t root).used then Function.update t root { t root with fenced := true } else t

theorem fenceLineage_eq (t : GrantId → Grant) (root : GrantId) :
    fenceLineage t root = fencePass^[maxDeriveDepth] (fenceRoot t root) := rfl

theorem raised_fenceRoot (t : GrantId → Grant) (root : GrantId) : Raised t (fenceRoot t root) := by
  unfold fenceRoot
  split
  · exact raised_fence t root
  · exact .refl t

theorem Descends.congr (hraised : Raised t t') (h : Descends t root g) : Descends t' root g := by
  induction h with
  | root hg =>
    apply Descends.root
    rw [hraised.used]
    exact hg
  | child hg hp _ ih =>
    apply Descends.child _ _ ih
    · rw [hraised.used]
      exact hg
    · rw [hraised.parent]
      exact hp

theorem Forest.congr (hraised : Raised t t') (h : Forest t) : Forest t' where
  parent g p hg hp := by
    rw [hraised.used] at hg
    rw [hraised.parent] at hp
    rw [hraised.used, hraised.depth, hraised.depth]
    exact h.parent g p hg hp
  depth g hg := by
    rw [hraised.used] at hg
    rw [hraised.depth]
    exact h.depth g hg

theorem raised_fenceLineage (t : GrantId → Grant) (root : GrantId) :
    Raised t (fenceLineage t root) :=
  (raised_fenceRoot t root).trans (raised_passes _ _)

theorem fenceLineage_fenced (hforest : Forest t) (hbelow : FencedBelow t)
    (hused : (t root).used = true) (g : GrantId) :
    (fenceLineage t root g).fenced = true ↔ (t g).fenced = true ∨ Descends t root g := by
  have hraised := raised_fenceRoot t root
  constructor
  · intro hg
    rw [fenceLineage_eq] at hg
    apply passes_inside (Q := fun g => (t g).fenced = true ∨ Descends t root g) _ _ _ g hg
    · intro g p hgused hp hQ
      rw [hraised.used] at hgused
      rw [hraised.parent] at hp
      rcases hQ with hfenced | hdown
      · exact Or.inl (hbelow g p hgused hp hfenced)
      · exact Or.inr (.child hgused hp hdown)
    · intro g hfenced
      by_cases hgr : g = root
      · subst hgr
        exact Or.inr (.root hused)
      · simp only [fenceRoot, hused, ↓reduceIte, update_of_ne hgr] at hfenced
        exact Or.inl hfenced
  · rintro (hfenced | hdown)
    · exact (raised_fenceLineage t root).more g hfenced
    · have hroot : (fenceRoot t root root).fenced = true := by
        simp [fenceRoot, hused]
      apply passes_fenced (hforest.congr hraised) hroot _ (hdown.congr hraised)
      have hdepth := hforest.depth g hdown.used
      rw [hraised.depth]
      omega

/-! ### The loop of the source -/

/-- A pass and how many nodes it fenced. -/
def fenceSweep (t : GrantId → Grant) : (GrantId → Grant) × Nat :=
  (List.finRange maxGrants).foldl
    (fun a g =>
      if (a.1 g).used && !(a.1 g).fenced && (a.1 g).parent.any fun p => (a.1 p).fenced then
        (Function.update a.1 g { a.1 g with fenced := true }, a.2 + 1)
      else a) (t, 0)

/-- At most `n` passes, up to the first that fences nothing. -/
def fenceSweeps : Nat → (GrantId → Grant) → Nat → (GrantId → Grant) × Nat
  | 0, t, changed => (t, changed)
  | n + 1, t, changed =>
    let (t', fenced) := fenceSweep t
    if fenced = 0 then (t', changed) else fenceSweeps n t' (changed + fenced)

/-- `fence_lineage` and what it answers. -/
def fenceLineageCount (t : GrantId → Grant) (root : GrantId) : (GrantId → Grant) × Nat :=
  if (t root).used && !(t root).fenced then
    fenceSweeps maxDeriveDepth (Function.update t root { t root with fenced := true }) 1
  else fenceSweeps maxDeriveDepth t 0

theorem fenceSweep_fold (l : List GrantId) (t : GrantId → Grant) (n : Nat) :
    let r := l.foldl
      (fun a g =>
        if (a.1 g).used && !(a.1 g).fenced && (a.1 g).parent.any fun p => (a.1 p).fenced then
          (Function.update a.1 g { a.1 g with fenced := true }, a.2 + 1)
        else a) (t, n)
    r.1 = l.foldl fenceNode t ∧ n ≤ r.2 ∧ (r.2 = n → r.1 = t) := by
  induction l generalizing t n with
  | nil => exact ⟨rfl, le_refl n, fun _ => rfl⟩
  | cons g rest ih =>
    rw [List.foldl_cons, List.foldl_cons]
    by_cases hcond : ((t g).used && !(t g).fenced &&
        (t g).parent.any fun p => (t p).fenced) = true
    · obtain ⟨hfst, hle, -⟩ := ih (fenceNode t g) (n + 1)
      simp only [hcond, ↓reduceIte, fenceNode] at hfst hle ⊢
      refine ⟨hfst, by omega, ?_⟩
      intro heq
      omega
    · simp only [hcond, fenceNode]
      exact ih t n

theorem fenceSweep_fst (t : GrantId → Grant) : (fenceSweep t).1 = fencePass t :=
  (fenceSweep_fold (List.finRange maxGrants) t 0).1

theorem fencePass_of_zero (h : (fenceSweep t).2 = 0) : fencePass t = t := by
  rw [← fenceSweep_fst]
  exact (fenceSweep_fold (List.finRange maxGrants) t 0).2.2 h

theorem fenceSweeps_fst (n : Nat) (t : GrantId → Grant) (changed : Nat) :
    (fenceSweeps n t changed).1 = fencePass^[n] t := by
  induction n generalizing t changed with
  | zero => rfl
  | succ n ih =>
    simp only [fenceSweeps, iterate_succ_apply]
    split
    · rename_i hzero
      rw [fenceSweep_fst, fencePass_of_zero hzero]
      exact (iterate_fixed (fencePass_of_zero hzero) n).symm
    · rw [ih, fenceSweep_fst]

theorem fenceLineageCount_fst (t : GrantId → Grant) (root : GrantId) :
    (fenceLineageCount t root).1 = fenceLineage t root := by
  unfold fenceLineageCount
  rw [fenceLineage_eq]
  by_cases hused : (t root).used = true
  · by_cases hfenced : (t root).fenced = true
    · have hsame : fenceRoot t root = t := by
        have hnode : { t root with fenced := true } = t root := by
          rw [← hfenced]
        unfold fenceRoot
        rw [if_pos hused, hnode, update_eq_self]
      simp only [hfenced, Bool.not_true, Bool.and_false, Bool.false_eq_true, ↓reduceIte]
      rw [fenceSweeps_fst, hsame]
    · simp only [hused, hfenced, Bool.not_false, Bool.and_self, ↓reduceIte, fenceSweeps_fst,
        fenceRoot]
  · simp only [hused, Bool.false_and, Bool.false_eq_true, ↓reduceIte, fenceSweeps_fst,
      fenceRoot]

/-! ### What is refused afterwards -/

/-- The subtree of `root` fenced in the table `t`, and nothing else. -/
structure FencesExactly (s : Machine) (root : GrantId) (t : GrantId → Grant) : Prop where
  fenced : ∀ g, (t g).fenced = true ↔ (s.grants g).fenced = true ∨ Descends s.grants root g
  /-- No other field of a node changes. -/
  others : ∀ g, t g = { s.grants g with fenced := (t g).fenced }
  /-- A further pass would find nothing to fence. -/
  settled : fencePass t = t
  refused : ∀ g now, Descends s.grants root g →
    { s with grants := t }.lineageStatus g now = .scopeClosed
  unchanged : ∀ g now, ¬ Descends s.grants root g →
    { s with grants := t }.lineageStatus g now = s.lineageStatus g now

theorem lineageStatus_fenced {s : Machine} (hused : (s.grants g).used = true)
    (hfenced : (s.grants g).fenced = true) (now : Nat) : s.lineageStatus g now = .scopeClosed := by
  have hnode : s.nodeStatus now (s.grants g) = .scopeClosed := by
    simp [Machine.nodeStatus, hused, hfenced]
  simp only [Machine.lineageStatus, Machine.walkLineage, hnode]

theorem walkLineage_outside {s : Machine} {t : GrantId → Grant}
    (hsame : ∀ g, ¬ Descends s.grants root g → t g = s.grants g) (now n : Nat)
    (g : Option GrantId) (hout : ∀ k, g = some k → ¬ Descends s.grants root k) :
    { s with grants := t }.walkLineage now n g = s.walkLineage now n g := by
  induction n generalizing g with
  | zero => cases g <;> rfl
  | succ n ih =>
    cases g with
    | none => rfl
    | some k =>
      have hk := hout k rfl
      have hnode : { s with grants := t }.nodeStatus now (t k) =
          s.nodeStatus now (s.grants k) := by
        rw [hsame k hk]
        rfl
      simp only [Machine.walkLineage, hnode]
      split
      · rename_i hok
        rw [hsame k hk]
        apply ih
        intro p hp hdown
        -- The walk goes on only from a node in use.
        have hused : (s.grants k).used = true := by
          by_contra hfree
          rw [Bool.not_eq_true] at hfree
          simp [Machine.nodeStatus, hfree] at hok
        exact hk (.child hused hp hdown)
      · rfl

/-- **`fence_lineage` fences the subtree and nothing else**: its used nodes are fenced beside
those that were, no other field changes, every lineage through the subtree is refused and every
other is answered as before. -/
theorem fenceLineage_exact (s : Machine) (root : GrantId) (hforest : Forest s.grants)
    (hbelow : FencedBelow s.grants) (hused : (s.grants root).used = true) :
    FencesExactly s root (fenceLineageCount s.grants root).1 := by
  rw [fenceLineageCount_fst]
  have hraised := raised_fenceLineage s.grants root
  have hfenced := fenceLineage_fenced hforest hbelow hused
  have hsame : ∀ g, ¬ Descends s.grants root g → fenceLineage s.grants root g = s.grants g := by
    intro g hout
    apply hraised.same
    intro hg
    exact ((hfenced g).mp hg).resolve_right hout
  refine ⟨hfenced, hraised.only, ?_, ?_, ?_⟩
  · -- Every child of a fenced node is fenced by now.
    have hclosed : FencedBelow (fenceLineage s.grants root) := by
      intro g p hgused hp hpf
      rw [hraised.used] at hgused
      rw [hraised.parent] at hp
      rw [hfenced]
      rcases (hfenced p).mp hpf with hold | hdown
      · exact Or.inl (hbelow g p hgused hp hold)
      · exact Or.inr (.child hgused hp hdown)
    exact fencePass_settled hclosed
  · intro g now hdown
    apply lineageStatus_fenced
    · show (fenceLineage s.grants root g).used = true
      rw [hraised.used]
      exact hdown.used
    · exact (hfenced g).mpr (Or.inr hdown)
  · intro g now hout
    apply walkLineage_outside hsame
    rintro k ⟨⟩
    exact hout

/-- A root in the middle of the table, a child before it and a grandchild after, and a grant of
another tree. -/
def sampleForest (g : GrantId) : Grant :=
  if g = 9 then { Grant.empty with used := true }
  else if g = 4 then { Grant.empty with used := true, parent := some 9, depth := 1 }
  else if g = 30 then { Grant.empty with used := true, parent := some 4, depth := 2 }
  else { Grant.empty with used := g = 7 }

theorem fenceLineage_exact_sample :
    FencesExactly { Hardware.small.blank with grants := sampleForest } 9
      (fenceLineageCount sampleForest 9).1 := by
  have hparent : ∀ g p, (sampleForest g).parent = some p → g = 4 ∧ p = 9 ∨ g = 30 ∧ p = 4 := by
    intro g p hp
    unfold sampleForest at hp
    split_ifs at hp with h9 h4 h30
    · exact absurd hp (by simp [Grant.empty])
    · exact Or.inl ⟨h4, (Option.some.inj hp).symm⟩
    · exact Or.inr ⟨h30, (Option.some.inj hp).symm⟩
    · exact absurd hp (by simp [Grant.empty])
  have hdepth : ∀ g, (sampleForest g).depth ≤ maxDeriveDepth := by
    intro g
    unfold sampleForest
    split_ifs <;> exact Nat.le_of_ble_eq_true rfl
  refine fenceLineage_exact { Hardware.small.blank with grants := sampleForest } 9
    ⟨?_, fun g _ => hdepth g⟩ ?_ rfl
  · intro g p _ hp
    rcases hparent g p hp with ⟨rfl, rfl⟩ | ⟨rfl, rfl⟩ <;> exact ⟨rfl, rfl⟩
  · intro g p _ hp hfenced
    rcases hparent g p hp with ⟨rfl, rfl⟩ | ⟨rfl, rfl⟩ <;> exact absurd hfenced (by decide)

end Thalyx.Kernel
