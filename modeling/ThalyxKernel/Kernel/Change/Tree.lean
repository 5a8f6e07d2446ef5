/-
The tree of scopes.

A scope is made below an open one and collected when nothing is left below it, so a parent is
always there and is the scope it was.  A barrier, a promotion and a retirement pass over the
whole table, and each of them reaches a scope below every scope it reaches, or finds it further
on already: that is why no scope is behind its parent.
-/
import ThalyxKernel.Kernel.Change.Work
import ThalyxKernel.Lib.Tally
import Mathlib.Algebra.BigOperators.Group.Finset.Piecewise

namespace Thalyx.Kernel

open Function List

/-- The order of a scope's life. -/
def ScopeState.rank : ScopeState → Nat
  | .empty => 0
  | .opened => 1
  | .fenced => 2
  | .quiescent => 3
  | .retired => 4

theorem ScopeState.rank_pos {state : ScopeState} (h : state ≠ .empty) : 0 < state.rank := by
  cases state <;> first | exact absurd rfl h | decide

theorem ScopeState.rank_le (state : ScopeState) : state.rank ≤ ScopeState.retired.rank := by
  cases state <;> decide

namespace Scopes

variable {t t' : Scopes} {i p : ScopeId}

/-! ### The invariant -/

/-- A scope is below its parent: the parent is in use, older, one step up, and no further on. -/
structure Under (t : Scopes) (i p : ScopeId) : Prop where
  used : (t p).state ≠ .empty
  older : (t p).id < (t i).id
  depth : (t i).depth = (t p).depth + 1
  order : (t p).state.rank ≤ (t i).state.rank

/-- Whether a scope is a child of `p`, counted. -/
def childOf (p : ScopeId) (_ : ScopeId) (node : Scope) : Nat :=
  if node.state ≠ .empty ∧ node.parent = some p then 1 else 0

/-- Whether a scope is behind a barrier, counted. -/
def isFenced (_ : ScopeId) (node : Scope) : Nat := if node.state = .fenced then 1 else 0

/-- The scopes of a table as a tree. -/
structure Tree (t : Scopes) : Prop where
  under : ∀ i p, (t i).state ≠ .empty → (t i).parent = some p → t.Under i p
  depth : ∀ i, (t i).state ≠ .empty → (t i).depth < maxScopeDepth
  children : ∀ p, (t p).state ≠ .empty → (t p).children = tally (childOf p) t

/-! ### Chains -/

theorem Tree.chainUpTo_closed (h : t.Tree) {n : Nat} {k i p : ScopeId} (hk : (t k).state ≠ .empty)
    (hn : (t k).depth < n) (hi : i ∈ t.chainUpTo n k) (hp : (t i).parent = some p) :
    p ∈ t.chainUpTo n k := by
  induction n generalizing k with
  | zero => omega
  | succ n ih =>
    unfold chainUpTo at hi ⊢
    rcases List.mem_cons.mp hi with rfl | hi
    · have hunder := h.under i p hk hp
      have hdepth := hunder.depth
      rw [hp]
      refine mem_cons_of_mem _ ?_
      obtain ⟨m, rfl⟩ : ∃ m, n = m + 1 := ⟨n - 1, by omega⟩
      unfold chainUpTo
      exact mem_cons_self
    · cases hq : (t k).parent with
      | none =>
        rw [hq] at hi
        cases hi
      | some q =>
        rw [hq] at hi
        have hunder := h.under k q hk hq
        have hdepth := hunder.depth
        exact mem_cons_of_mem _ (ih hunder.used (by omega) hi)

theorem Tree.isWithin_parent (h : t.Tree) {k : ScopeId} (hk : (t k).state ≠ .empty)
    (hi : t.isWithin i k = true) (hp : (t i).parent = some p) : t.isWithin p k = true := by
  unfold isWithin chain at hi ⊢
  rw [contains_iff_mem] at hi ⊢
  have hdepth := h.depth k hk
  exact h.chainUpTo_closed hk (by omega) hi hp

theorem Tree.isWithin_child (h : t.Tree) {root : ScopeId} (hi : (t i).state ≠ .empty)
    (hp : (t i).parent = some p) (hr : t.isWithin root p = true) : t.isWithin root i = true := by
  unfold isWithin chain at hr ⊢
  rw [contains_iff_mem] at hr ⊢
  have hunder := h.under i p hi hp
  have hdepth := h.depth i hi
  have hup := hunder.depth
  have hroom : (t p).depth < maxScopeDepth := by omega
  -- The chain of the parent is complete one step before its limit.
  have hshort : ∀ {n : Nat} {k : ScopeId}, (t k).state ≠ .empty → (t k).depth < n →
      ∀ j ∈ t.chainUpTo (n + 1) k, j ∈ t.chainUpTo n k := by
    intro n
    induction n with
    | zero => intro k _ hk; omega
    | succ n ih =>
      intro k hk hn j hj
      unfold chainUpTo at hj ⊢
      rcases List.mem_cons.mp hj with rfl | hj
      · exact mem_cons_self
      · cases hq : (t k).parent with
        | none =>
          rw [hq] at hj
          cases hj
        | some q =>
          rw [hq] at hj
          have hunder' := h.under k q hk hq
          have hdepth' := hunder'.depth
          exact mem_cons_of_mem _ (ih hunder'.used (by omega) j hj)
  unfold chainUpTo
  rw [hp]
  exact mem_cons_of_mem _ (hshort hunder.used hroom root hr)

theorem Tree.chain_opened (h : t.Tree) {n : Nat} {k : ScopeId} (hk : (t k).state = .opened) :
    ∀ j ∈ t.chainUpTo n k, (t j).state = .opened := by
  induction n generalizing k with
  | zero =>
    intro j hj
    cases hj
  | succ n ih =>
    intro j hj
    unfold chainUpTo at hj
    rcases List.mem_cons.mp hj with rfl | hj
    · exact hk
    · cases hq : (t k).parent with
      | none =>
        rw [hq] at hj
        cases hj
      | some q =>
        rw [hq] at hj
        have hunder := h.under k q (by simp [hk]) hq
        have horder := hunder.order
        have hopen : (t q).state = .opened := by
          rw [hk] at horder
          have hpos := ScopeState.rank_pos hunder.used
          cases hs : (t q).state <;> rw [hs] at horder hpos <;> simp_all [ScopeState.rank]
        exact ih hopen j hj

/-- **A scope is open as a whole exactly when it is open itself.** -/
theorem Tree.isOpen_iff (h : t.Tree) (k : ScopeId) : t.isOpen k = true ↔ (t k).state = .opened := by
  unfold isOpen
  rw [all_eq_true]
  constructor
  · intro hall
    simpa using hall k (t.mem_chain_self k)
  · intro hk j hj
    simpa using h.chain_opened hk j hj

/-! ### Each change keeps it -/

theorem Tree.of_place (h : t.Tree) (hp : ∀ i, (t' i).place = (t i).place) : t'.Tree := by
  have hstate : ∀ i, (t' i).state = (t i).state := fun i => congrArg ScopePlace.state (hp i)
  have hid : ∀ i, (t' i).id = (t i).id := fun i => congrArg ScopePlace.id (hp i)
  have hparent : ∀ i, (t' i).parent = (t i).parent := fun i => congrArg ScopePlace.parent (hp i)
  have hdepth : ∀ i, (t' i).depth = (t i).depth := fun i => congrArg ScopePlace.depth (hp i)
  have hchildren : ∀ i, (t' i).children = (t i).children :=
    fun i => congrArg ScopePlace.children (hp i)
  refine ⟨?_, ?_, ?_⟩
  · intro i p hi hip
    rw [hstate] at hi
    rw [hparent] at hip
    have hunder := h.under i p hi hip
    refine ⟨?_, ?_, ?_, ?_⟩
    · rw [hstate]
      exact hunder.used
    · rw [hid, hid]
      exact hunder.older
    · rw [hdepth, hdepth]
      exact hunder.depth
    · rw [hstate, hstate]
      exact hunder.order
  · intro i hi
    rw [hstate] at hi
    rw [hdepth]
    exact h.depth i hi
  · intro p hi
    rw [hstate] at hi
    rw [hchildren, h.children p hi]
    refine tally_congr fun i => ?_
    unfold childOf
    rw [hstate, hparent]

theorem Tree.opened (h : t.Tree) {node : Scope} (hi : (t i).state = .empty)
    (hp : (t p).state = .opened) (hd : (t p).depth + 1 < maxScopeDepth)
    (hnode : node.place = ⟨.opened, node.id, some p, (t p).depth + 1, 0⟩)
    (hid : (t p).id < node.id) :
    (Scopes.set (update t i node) p
      fun node => { node with children := node.children + 1 }).Tree := by
  have hne : i ≠ p := by
    rintro rfl
    rw [hi] at hp
    cases hp
  have hnstate : node.state = .opened := congrArg ScopePlace.state hnode
  have hnparent : node.parent = some p := congrArg ScopePlace.parent hnode
  have hndepth : node.depth = (t p).depth + 1 := congrArg ScopePlace.depth hnode
  have hnchildren : node.children = 0 := congrArg ScopePlace.children hnode
  generalize ht : Scopes.set (update t i node) p
    (fun node => { node with children := node.children + 1 }) = u
  have hself : u i = node := by
    rw [← ht]
    simp [set, hne]
  have hup : u p = { t p with children := (t p).children + 1 } := by
    rw [← ht]
    simp [set, Ne.symm hne]
  have hother : ∀ j, j ≠ i → j ≠ p → u j = t j := by
    intro j hji hjp
    rw [← ht]
    simp [set, hji, hjp]
  have hsame : ∀ j, j ≠ i → (u j).state = (t j).state ∧ (u j).id = (t j).id ∧
      (u j).parent = (t j).parent ∧ (u j).depth = (t j).depth := by
    intro j hj
    by_cases hjp : j = p
    · subst hjp
      rw [hup]
      exact ⟨rfl, rfl, rfl, rfl⟩
    · rw [hother j hj hjp]
      exact ⟨rfl, rfl, rfl, rfl⟩
  -- Nothing was below the empty slot.
  have hbarren : ∀ j, (t j).state ≠ .empty → (t j).parent ≠ some i := by
    intro j hj hji
    exact (h.under j i hj hji).used hi
  refine ⟨?_, ?_, ?_⟩
  · intro j q hj hq
    by_cases hji : j = i
    · subst hji
      rw [hself, hnparent] at hq
      obtain rfl := Option.some.inj hq
      obtain ⟨hstate, hid', -, hdepth⟩ := hsame p (Ne.symm hne)
      refine ⟨?_, ?_, ?_, ?_⟩
      · rw [hstate, hp]
        decide
      · rw [hid', hself]
        exact hid
      · rw [hdepth, hself]
        exact hndepth
      · rw [hstate, hself, hnstate, hp]
    · obtain ⟨hstate, hid', hparent, hdepth⟩ := hsame j hji
      rw [hstate] at hj
      rw [hparent] at hq
      have hqi : q ≠ i := by
        rintro rfl
        exact hbarren j hj hq
      obtain ⟨hstate', hid'', -, hdepth'⟩ := hsame q hqi
      have hunder := h.under j q hj hq
      refine ⟨?_, ?_, ?_, ?_⟩
      · rw [hstate']
        exact hunder.used
      · rw [hid', hid'']
        exact hunder.older
      · rw [hdepth, hdepth']
        exact hunder.depth
      · rw [hstate, hstate']
        exact hunder.order
  · intro j hj
    by_cases hji : j = i
    · subst hji
      rw [hself, hndepth]
      exact hd
    · obtain ⟨hstate, -, -, hdepth⟩ := hsame j hji
      rw [hdepth]
      exact h.depth j (hstate ▸ hj)
  · intro q hq
    have hmoved : tally (childOf q) u = tally (childOf q) (update t i node) := by
      refine tally_congr fun j => ?_
      by_cases hji : j = i
      · subst hji
        rw [hself, update_self]
      · obtain ⟨hstate, -, hparent, -⟩ := hsame j hji
        unfold childOf
        rw [hstate, hparent, update_of_ne hji]
    have hsum := tally_update (childOf q) t i node
    have hnone : childOf q i (t i) = 0 := by simp [childOf, hi]
    rw [← hmoved, hnone] at hsum
    by_cases hqi : q = i
    · subst hqi
      have hzero : tally (childOf q) t = 0 := by
        refine tally_eq_zero fun j => ?_
        unfold childOf
        rw [if_neg]
        rintro ⟨hj, hjq⟩
        exact hbarren j hj hjq
      have hnot : childOf q q node = 0 := by simp [childOf, hnparent, Ne.symm hne]
      rw [hself, hnchildren]
      omega
    · by_cases hqp : q = p
      · subst hqp
        have hone : childOf q i node = 1 := by simp [childOf, hnparent, hnstate]
        have hcount := h.children q (by rw [hp]; decide)
        rw [hup]
        show (t q).children + 1 = _
        omega
      · have hzero : childOf q i node = 0 := by simp [childOf, hnparent, Ne.symm hqp]
        obtain ⟨hstate, -⟩ := hsame q hqi
        rw [hother q hqi hqp, h.children q (hstate ▸ hq)]
        omega

theorem Tree.collected (h : t.Tree) (hi : (t i).state ≠ .empty) (hc : t.hasChild i = false) :
    (Scopes.reset (match (t i).parent with
      | some p => t.set p fun node => { node with children := node.children - 1 }
      | none => t) i).Tree := by
  have hbarren : ∀ j, (t j).state ≠ .empty → (t j).parent ≠ some i := by
    intro j hj hji
    have hno : ¬ (t.hasChild i = true) := by simp [hc]
    refine hno ?_
    unfold hasChild
    rw [any_eq_true]
    exact ⟨j, mem_finRange j, by simp [hj, hji]⟩
  have hparent : (t i).parent ≠ some i := hbarren i hi
  generalize ht : Scopes.reset (match (t i).parent with
      | some p => t.set p fun node => { node with children := node.children - 1 }
      | none => t) i = u
  have hself : u i = .empty := by
    rw [← ht]
    exact update_self _ _ _
  have hother : ∀ j, j ≠ i → u j =
      if (t i).parent = some j then { t j with children := (t j).children - 1 } else t j := by
    intro j hj
    rw [← ht]
    cases hp : (t i).parent with
    | none => simp [reset, set, hj]
    | some p =>
      by_cases hjp : j = p
      · subst hjp
        simp [reset, set, hj]
      · simp [reset, set, hj, hjp, Ne.symm hjp]
  have hsame : ∀ j, j ≠ i → (u j).state = (t j).state ∧ (u j).id = (t j).id ∧
      (u j).parent = (t j).parent ∧ (u j).depth = (t j).depth := by
    intro j hj
    rw [hother j hj]
    split <;> exact ⟨rfl, rfl, rfl, rfl⟩
  have hleft : ∀ j, (u j).state ≠ .empty → j ≠ i := by
    rintro j hj rfl
    exact hj (by rw [hself]; rfl)
  refine ⟨?_, ?_, ?_⟩
  · intro j q hj hq
    obtain ⟨hstate, hid, hpar, hdepth⟩ := hsame j (hleft j hj)
    rw [hstate] at hj
    rw [hpar] at hq
    have hqi : q ≠ i := by
      rintro rfl
      exact hbarren j hj hq
    obtain ⟨hstate', hid', -, hdepth'⟩ := hsame q hqi
    have hunder := h.under j q hj hq
    refine ⟨?_, ?_, ?_, ?_⟩
    · rw [hstate']
      exact hunder.used
    · rw [hid, hid']
      exact hunder.older
    · rw [hdepth, hdepth']
      exact hunder.depth
    · rw [hstate, hstate']
      exact hunder.order
  · intro j hj
    obtain ⟨hstate, -, -, hdepth⟩ := hsame j (hleft j hj)
    rw [hdepth]
    exact h.depth j (hstate ▸ hj)
  · intro q hq
    have hqi := hleft q hq
    have hmoved : tally (childOf q) u = tally (childOf q) (update t i .empty) := by
      refine tally_congr fun j => ?_
      by_cases hji : j = i
      · subst hji
        rw [hself, update_self]
      · obtain ⟨hstate, -, hpar, -⟩ := hsame j hji
        unfold childOf
        rw [hstate, hpar, update_of_ne hji]
    have hsum := tally_update (childOf q) t i .empty
    have hgone : childOf q i Scope.empty = 0 := by simp [childOf, Scope.empty]
    rw [← hmoved, hgone] at hsum
    obtain ⟨hstate, -⟩ := hsame q hqi
    have hcount := h.children q (hstate ▸ hq)
    rw [hother q hqi]
    by_cases hpar : (t i).parent = some q
    · have hone : childOf q i (t i) = 1 := by simp [childOf, hi, hpar]
      rw [if_pos hpar]
      show (t q).children - 1 = _
      omega
    · have hzero : childOf q i (t i) = 0 := by simp [childOf, hpar]
      rw [if_neg hpar]
      omega

theorem Tree.restated (h : t.Tree) (hr : Restated t t') {p : ScopeId → Bool} {state : ScopeState}
    (hs : ∀ i, (t' i).state = if p i then state else (t i).state)
    (hforward : ∀ i, p i = true → (t i).state.rank ≤ state.rank)
    (hdown : ∀ i q, (t i).state ≠ .empty → (t i).parent = some q → p q = true →
      p i = true ∨ state.rank ≤ (t i).state.rank) : t'.Tree := by
  have hid : ∀ i, (t' i).id = (t i).id := by
    intro i
    obtain ⟨_, hi, -⟩ := hr i
    rw [hi]
  have hdepth : ∀ i, (t' i).depth = (t i).depth := by
    intro i
    obtain ⟨_, hi, -⟩ := hr i
    rw [hi]
  have hchildren : ∀ i, (t' i).children = (t i).children := by
    intro i
    obtain ⟨_, hi, -⟩ := hr i
    rw [hi]
  have hused : ∀ i, (t' i).state ≠ .empty ↔ (t i).state ≠ .empty :=
    fun i => not_congr (hr.empty_iff i)
  refine ⟨?_, ?_, ?_⟩
  · intro i q hi hq
    rw [hused] at hi
    rw [hr.parent] at hq
    have hunder := h.under i q hi hq
    refine ⟨(hused q).mpr hunder.used, ?_, ?_, ?_⟩
    · rw [hid, hid]
      exact hunder.older
    · rw [hdepth, hdepth]
      exact hunder.depth
    · rw [hs, hs]
      have horder := hunder.order
      by_cases hpq : p q = true
      · rcases hdown i q hi hq hpq with hpi | hle
        · rw [if_pos hpq, if_pos hpi]
        · rw [if_pos hpq]
          split
          · exact le_rfl
          · exact hle
      · rw [if_neg hpq]
        split
        · rename_i hpi
          exact horder.trans (hforward i hpi)
        · exact horder
  · intro i hi
    rw [hused] at hi
    rw [hdepth]
    exact h.depth i hi
  · intro q hq
    rw [hused] at hq
    rw [hchildren, h.children q hq]
    refine tally_congr fun i => ?_
    unfold childOf
    rw [hr.parent]
    simp only [hused i]

end Scopes

namespace Machine

variable {s t u : Machine}

/-! ### The tree of a machine -/

/-- The scopes are a tree of scopes already counted, and the barriers are counted. -/
structure Planted (s : Machine) : Prop where
  tree : s.scopes.Tree
  bound : ∀ i, (s.scopes i).state ≠ .empty → (s.scopes i).id < s.nextObjectId
  fenced : s.fenced = tally Scopes.isFenced s.scopes

/-- A scope in use afterwards is one from before, with its parent and no earlier in its life,
or is newer than all of those. -/
structure Keeps (s t : Machine) : Prop where
  nextObjectId : s.nextObjectId ≤ t.nextObjectId
  scopes : ∀ i, (t.scopes i).state ≠ .empty →
    ((s.scopes i).state ≠ .empty ∧ (t.scopes i).id = (s.scopes i).id ∧
      (t.scopes i).parent = (s.scopes i).parent ∧
      (s.scopes i).state.rank ≤ (t.scopes i).state.rank) ∨ s.nextObjectId ≤ (t.scopes i).id

theorem Keeps.refl (s : Machine) : Keeps s s :=
  ⟨le_rfl, fun _ hi => .inl ⟨hi, rfl, rfl, le_rfl⟩⟩

theorem Keeps.trans (h : Keeps s t) (h' : Keeps t u) : Keeps s u := by
  refine ⟨h.nextObjectId.trans h'.nextObjectId, ?_⟩
  intro i hi
  rcases h'.scopes i hi with ⟨hused, hid, hparent, hrank⟩ | hnew
  · rcases h.scopes i hused with ⟨hused', hid', hparent', hrank'⟩ | hnew
    · exact .inl ⟨hused', hid.trans hid', hparent.trans hparent', hrank'.trans hrank⟩
    · refine .inr ?_
      rw [hid]
      exact hnew
  · exact .inr (h.nextObjectId.trans hnew)

theorem Planted.of_place (h : s.Planted) (hp : ∀ i, (t.scopes i).place = (s.scopes i).place)
    (hf : t.fenced = s.fenced) (hn : s.nextObjectId ≤ t.nextObjectId) : t.Planted ∧ Keeps s t := by
  have hstate : ∀ i, (t.scopes i).state = (s.scopes i).state :=
    fun i => congrArg ScopePlace.state (hp i)
  have hid : ∀ i, (t.scopes i).id = (s.scopes i).id := fun i => congrArg ScopePlace.id (hp i)
  have hparent : ∀ i, (t.scopes i).parent = (s.scopes i).parent :=
    fun i => congrArg ScopePlace.parent (hp i)
  refine ⟨⟨h.tree.of_place hp, ?_, ?_⟩, hn, ?_⟩
  · intro i hi
    rw [hstate] at hi
    rw [hid]
    exact (h.bound i hi).trans_le hn
  · rw [hf, h.fenced]
    refine tally_congr fun i => ?_
    unfold Scopes.isFenced
    rw [hstate]
  · intro i hi
    rw [hstate] at hi
    exact .inl ⟨hi, hid i, hparent i, by rw [hstate]⟩

theorem Planted.of_aloof (h : s.Planted) (ha : Aloof s t) : t.Planted ∧ Keeps s t :=
  h.of_place ha.scopes ha.fenced ha.nextObjectId

theorem Planted.openScope (h : s.Planted) {i p : ScopeId} (limits : Limits)
    (hi : (s.scopes i).state = .empty) (hp : (s.scopes p).state = .opened)
    (hd : (s.scopes p).depth + 1 < maxScopeDepth) :
    (s.counted.openScope i p s.nextObjectId ((s.scopes p).depth + 1) limits).Planted ∧
      Keeps s (s.counted.openScope i p s.nextObjectId ((s.scopes p).depth + 1) limits) := by
  have hne : i ≠ p := by
    rintro rfl
    rw [hi] at hp
    cases hp
  have hscopes : (s.counted.openScope i p s.nextObjectId ((s.scopes p).depth + 1) limits).scopes =
      Scopes.set (update s.scopes i
        { Scope.empty with
          state := .opened
          id := s.nextObjectId
          parent := some p
          depth := (s.scopes p).depth + 1
          limits }) p fun node => { node with children := node.children + 1 } := rfl
  have hself : (Scopes.set (update s.scopes i
        { Scope.empty with
          state := .opened
          id := s.nextObjectId
          parent := some p
          depth := (s.scopes p).depth + 1
          limits }) p fun node => { node with children := node.children + 1 }) i =
      { Scope.empty with
          state := .opened
          id := s.nextObjectId
          parent := some p
          depth := (s.scopes p).depth + 1
          limits } := by
    simp [Scopes.set, hne]
  have hnext : (s.counted.openScope i p s.nextObjectId ((s.scopes p).depth + 1) limits).nextObjectId =
      s.nextObjectId + 1 := rfl
  have hfenced : (s.counted.openScope i p s.nextObjectId ((s.scopes p).depth + 1) limits).fenced =
      s.fenced := rfl
  have hother : ∀ j, j ≠ i → ∀ node, (Scopes.set (update s.scopes i node) p
      (fun node => { node with children := node.children + 1 }) j).state = (s.scopes j).state ∧
      (Scopes.set (update s.scopes i node) p
        (fun node => { node with children := node.children + 1 }) j).id = (s.scopes j).id ∧
      (Scopes.set (update s.scopes i node) p
        (fun node => { node with children := node.children + 1 }) j).parent =
          (s.scopes j).parent := by
    intro j hj node
    by_cases hjp : j = p
    · subst hjp
      simp [Scopes.set, hj]
    · simp [Scopes.set, hj, hjp]
  refine ⟨⟨?_, ?_, ?_⟩, ?_, ?_⟩
  · rw [hscopes]
    exact h.tree.opened hi hp hd rfl (h.bound p (by rw [hp]; decide))
  · intro j hj
    rw [hnext]
    rw [hscopes] at hj ⊢
    by_cases hji : j = i
    · subst hji
      rw [hself]
      exact Nat.lt_succ_self _
    · obtain ⟨hstate, hid, -⟩ := hother j hji _
      rw [hid]
      exact Nat.lt_succ_of_lt (h.bound j (hstate ▸ hj))
  · rw [hfenced, hscopes, h.fenced]
    refine tally_congr fun j => ?_
    unfold Scopes.isFenced
    by_cases hji : j = i
    · subst hji
      rw [hself, hi]
      rfl
    · rw [(hother j hji _).1]
  · rw [hnext]
    exact Nat.le_succ _
  · intro j hj
    rw [hscopes] at hj ⊢
    by_cases hji : j = i
    · subst hji
      rw [hself]
      exact .inr le_rfl
    · obtain ⟨hstate, hid, hparent⟩ := hother j hji _
      rw [hstate] at hj
      exact .inl ⟨hj, hid, hparent, by rw [hstate]⟩

theorem Planted.collectRetired (h : s.Planted) {i : ScopeId} (hc : s.retiredCollectable i = true) :
    (s.collectRetired i).Planted ∧ Keeps s (s.collectRetired i) := by
  simp only [retiredCollectable, Bool.and_eq_true, beq_iff_eq, Bool.not_eq_true'] at hc
  obtain ⟨⟨⟨hretired, -⟩, -⟩, hbarren⟩ := hc
  have hused : (s.scopes i).state ≠ .empty := by simp [hretired]
  have htree := h.tree.collected hused hbarren
  generalize ht : Scopes.reset (match (s.scopes i).parent with
      | some p => s.scopes.set p fun node => { node with children := node.children - 1 }
      | none => s.scopes) i = scopes at htree
  have hscopes : (s.collectRetired i).scopes = scopes := ht
  have hself : scopes i = .empty := by
    rw [← ht]
    exact update_self _ _ _
  have hother : ∀ j, j ≠ i → (scopes j).state = (s.scopes j).state ∧
      (scopes j).id = (s.scopes j).id ∧ (scopes j).parent = (s.scopes j).parent := by
    intro j hj
    rw [← ht]
    cases hp : (s.scopes i).parent with
    | none => simp [Scopes.reset, Scopes.set, hj]
    | some p =>
      by_cases hjp : j = p
      · subst hjp
        simp [Scopes.reset, Scopes.set, hj]
      · simp [Scopes.reset, Scopes.set, hj, hjp]
  have hleft : ∀ j, (scopes j).state ≠ .empty → j ≠ i := by
    rintro j hj rfl
    exact hj (by rw [hself]; rfl)
  refine ⟨⟨?_, ?_, ?_⟩, le_rfl, ?_⟩
  · rw [hscopes]
    exact htree
  · intro j hj
    rw [hscopes] at hj ⊢
    obtain ⟨hstate, hid, -⟩ := hother j (hleft j hj)
    rw [hid]
    exact h.bound j (hstate ▸ hj)
  · show s.fenced = tally Scopes.isFenced (s.collectRetired i).scopes
    rw [hscopes, h.fenced]
    refine tally_congr fun j => ?_
    unfold Scopes.isFenced
    by_cases hji : j = i
    · subst hji
      rw [hself, hretired]
      rfl
    · rw [(hother j hji).1]
  · intro j hj
    rw [hscopes] at hj ⊢
    obtain ⟨hstate, hid, hparent⟩ := hother j (hleft j hj)
    rw [hstate] at hj
    exact .inl ⟨hj, hid, hparent, by rw [hstate]⟩

theorem setScopeState_fenced (s : Machine) (i : ScopeId) (state : ScopeState)
    (h : s.fenced = tally Scopes.isFenced s.scopes) :
    (s.setScopeState i state).fenced = tally Scopes.isFenced (s.setScopeState i state).scopes := by
  rw [setScopeState_scopes]
  have hsum := tally_update Scopes.isFenced s.scopes i { s.scopes i with state }
  have hset : s.scopes.setState i state =
      update s.scopes i { s.scopes i with state } := rfl
  rw [← hset] at hsum
  have hle := le_tally Scopes.isFenced s.scopes i
  unfold setScopeState
  dsimp only
  unfold Scopes.isFenced at hsum hle h ⊢
  dsimp only at hsum
  by_cases hsame : (s.scopes i).state = state
  · rw [if_pos hsame]
    rw [hsame] at hsum
    omega
  · rw [if_neg hsame]
    dsimp only
    by_cases hwas : (s.scopes i).state = .fenced
    · have hnot : state ≠ .fenced := fun heq => hsame (hwas.trans heq.symm)
      rw [if_pos hwas] at hsum hle ⊢
      rw [if_neg hnot] at hsum ⊢
      omega
    · rw [if_neg hwas] at hsum ⊢
      split
      · rename_i his
        rw [if_pos his] at hsum
        omega
      · rename_i hnot
        rw [if_neg hnot] at hsum
        omega

variable {p : Scopes → ScopeId → Bool} {state : ScopeState}

theorem restate_fenced (l : List ScopeId)
    (s : Machine) (h : s.fenced = tally Scopes.isFenced s.scopes) :
    (restate p state l s).fenced = tally Scopes.isFenced (restate p state l s).scopes := by
  induction l generalizing s with
  | nil => exact h
  | cons i rest ih =>
    refine ih _ ?_
    dsimp only
    split
    · exact s.setScopeState_fenced i state h
    · exact h

theorem Planted.restate (h : s.Planted) (hp : Settled p) (hstate : state ≠ .empty)
    (hforward : ∀ i, p s.scopes i = true → (s.scopes i).state.rank ≤ state.rank)
    (hdown : ∀ i q, (s.scopes i).state ≠ .empty → (s.scopes i).parent = some q →
      p s.scopes q = true → p s.scopes i = true ∨ state.rank ≤ (s.scopes i).state.rank) :
    (restate p state (List.finRange maxScopes) s).Planted ∧
      Keeps s (restate p state (List.finRange maxScopes) s) := by
  obtain ⟨hr, ⟨fenced, heq⟩, hs⟩ := restate_spec hp hstate (nodup_finRange maxScopes) s
  have hfenced := @restate_fenced p state (List.finRange maxScopes) s h.fenced
  generalize Machine.restate p state (List.finRange maxScopes) s = u at hr heq hs hfenced ⊢
  have hstates : ∀ i, (u.scopes i).state = if p s.scopes i then state else (s.scopes i).state := by
    intro i
    rw [hs i]
    simp [mem_finRange]
  have hid : ∀ i, (u.scopes i).id = (s.scopes i).id := by
    intro i
    obtain ⟨_, hi, -⟩ := hr i
    rw [hi]
  have hnext : u.nextObjectId = s.nextObjectId := by rw [heq]
  refine ⟨⟨h.tree.restated hr hstates hforward hdown, ?_, hfenced⟩, hnext.ge, ?_⟩
  · intro i hi
    rw [hid, hnext]
    exact h.bound i fun hempty => hi ((hr.empty_iff i).mpr hempty)
  · intro i hi
    refine .inl ⟨fun hempty => hi ((hr.empty_iff i).mpr hempty), hid i, hr.parent i, ?_⟩
    rw [hstates i]
    split
    · rename_i hpi
      exact hforward i hpi
    · exact le_rfl

/-! ### The three passes -/

theorem Planted.placeBarrier (h : s.Planted) (root : ScopeId) :
    (s.placeBarrier root).Planted ∧ Keeps s (s.placeBarrier root) := by
  rw [placeBarrier_eq]
  refine h.restate (settled_openWithin root) (by decide) ?_ ?_
  · intro i hi
    simp only [openWithin, Bool.and_eq_true, beq_iff_eq] at hi
    rw [hi.1]
    decide
  · intro i q hi hq hp
    simp only [openWithin, Bool.and_eq_true, beq_iff_eq] at hp ⊢
    by_cases hopened : (s.scopes i).state = .opened
    · exact .inl ⟨hopened, h.tree.isWithin_child hi hq hp.2⟩
    · refine .inr ?_
      cases hs : (s.scopes i).state <;> simp_all [ScopeState.rank]

theorem drained_child (h : s.scopes.Tree) {i q : ScopeId}
    (hq : (s.scopes i).parent = some q) (hp : s.scopes.pending q = ⟨0, 0, 0, 0⟩) :
    s.scopes.pending i = ⟨0, 0, 0, 0⟩ := by
  have hsub : ∀ k ∈ s.scopes.perimeter i, k ∈ s.scopes.perimeter q := by
    intro k hk
    simp only [Scopes.perimeter, mem_filter, mem_finRange, true_and, Bool.and_eq_true,
      bne_iff_ne] at hk ⊢
    exact ⟨hk.1, h.isWithin_parent hk.1 hk.2 hq⟩
  have hsum : ∀ f : ScopeId → Nat, ((s.scopes.perimeter q).map f).sum = 0 →
      ((s.scopes.perimeter i).map f).sum = 0 := by
    intro f hf
    simp only [sum_eq_zero_iff, mem_map, forall_exists_index, and_imp,
      forall_apply_eq_imp_iff₂] at hf ⊢
    exact fun k hk => hf k (hsub k hk)
  simp only [Scopes.pending, Scopes.Pending.mk.injEq] at hp ⊢
  exact ⟨hsum _ hp.1, hsum _ hp.2.1, hsum _ hp.2.2.1, hsum _ hp.2.2.2⟩

theorem Planted.advanceQuiescence (h : s.Planted) :
    s.advanceQuiescence.Planted ∧ Keeps s s.advanceQuiescence := by
  rw [advanceQuiescence_eq]
  refine h.restate settled_drained (by decide) ?_ ?_
  · intro i hi
    simp only [Scopes.drained, Bool.and_eq_true, beq_iff_eq] at hi
    rw [hi.1]
    decide
  · intro i q hi hq hp
    simp only [Scopes.drained, Bool.and_eq_true, beq_iff_eq] at hp ⊢
    have horder := (h.tree.under i q hi hq).order
    rw [hp.1] at horder
    by_cases hfenced : (s.scopes i).state = .fenced
    · exact .inl ⟨hfenced, drained_child h.tree hq hp.2⟩
    · refine .inr ?_
      cases hs : (s.scopes i).state <;> simp_all [ScopeState.rank]

theorem Planted.retireScopes (h : s.Planted) (root : ScopeId) :
    (s.retireScopes root).Planted ∧ Keeps s (s.retireScopes root) := by
  rw [retireScopes_eq]
  refine h.restate (settled_usedWithin root) (by decide) ?_ ?_
  · intro i _
    exact ScopeState.rank_le _
  · intro i q hi hq hp
    simp only [usedWithin, Bool.and_eq_true, bne_iff_ne] at hp ⊢
    exact .inl ⟨hi, h.tree.isWithin_child hi hq hp.2⟩

end Machine

open Machine

variable {s t : Machine}
variable {drops : Machine → EndpointId → Prop}

/-- **Every change keeps the tree of scopes.** -/
theorem Change.planted (h : Change drops s t) (hs : s.Planted) : t.Planted ∧ Keeps s t := by
  cases h with
  | aside h => exact hs.of_aloof (.aside h)
  | identity h hn => exact hs.of_aloof (.of_core h hn)
  | @capInstall _ domain object g at? handle h _ _ =>
    have hstands := s.capInstall_stands domain object (some g) at?
    rw [h] at hstands
    exact hs.of_aloof (.of_stands hstands)
  | @capRelease domain slot _ => exact hs.of_aloof (.of_stands (s.capReleaseSlot_stands domain slot))
  | grantAlloc h _ => exact hs.of_aloof (.of_stands (grantAlloc_stands h))
  | openScope limits hi hp hd => exact hs.openScope limits hi hp hd
  | collectRetired hc => exact hs.collectRetired hc
  | placeBarrier root => exact hs.placeBarrier root
  | advanceQuiescence => exact hs.advanceQuiescence
  | retireScopes root => exact hs.retireScopes root
  | publish _ =>
    exact hs.of_aloof (Aloof.trans (.of_core (n := s.nextObjectId + 1) rfl (Nat.le_succ _))
      (s.counted.publish_aloof _ _ _ _ _ _ _ _ _ _ _))
  | deliver h _ _ => exact hs.of_aloof (deliver_aloof h)
  | discharge _ => exact hs.of_aloof (s.releaseInvocation_aloof _)
  | withdrawUndelivered root =>
    exact hs.of_aloof (s.withdrawAll_aloof fun s i => s.dischargeFenced_aloof i)
  | withdrawOrigin domain =>
    exact hs.of_aloof (s.withdrawAll_aloof fun s i => s.releaseInvocation_aloof i)
  | fenceLineage root =>
    generalize Kernel.fenceLineage s.grants root = grants
    exact hs.of_place (fun _ => rfl) rfl le_rfl
  | @openFaultChannel i endpoint e _ _ _ _ => exact hs.of_aloof (s.openFaultChannel_aloof i endpoint e)
  | dropFaultChannel i => exact hs.of_aloof (s.dropFaultChannel_aloof i)
  | @recordMap record target memory object request before _ _ =>
    exact hs.of_aloof (s.recordMap_aloof record target memory object request before)
  | withdrawMap m => exact hs.of_aloof (s.withdrawMapDeferring_aloof m)
  | _ => exact hs.of_place (fun _ => rfl) rfl le_rfl

theorem Path.planted (h : Path drops s t) (hs : s.Planted) : t.Planted ∧ Keeps s t := by
  induction h with
  | refl => exact ⟨hs, .refl s⟩
  | tail _ hc ih =>
    obtain ⟨hplanted, hkeeps⟩ := hc.planted ih.1
    exact ⟨hplanted, ih.2.trans hkeeps⟩

/-! ### Runs -/

theorem Hardware.rooted_planted (hw : Hardware) : hw.rooted.Planted := by
  have hroot : (hw.rooted.scopes Boot.root).place = ⟨.opened, 1, none, 0, 0⟩ := by
    simp [Hardware.rooted, setScope, Scopes.set, Scope.place, Scope.empty]
  have hothers : ∀ i, i ≠ Boot.root → hw.rooted.scopes i = .empty := by
    intro i hi
    simp [Hardware.rooted, setScope, Scopes.set, hi]
    rfl
  have honly : ∀ i, (hw.rooted.scopes i).state ≠ .empty → i = Boot.root := by
    intro i hi
    by_contra hne
    exact hi (by rw [hothers i hne]; rfl)
  have hparent : ∀ i, (hw.rooted.scopes i).parent = none := by
    intro i
    by_cases hi : i = Boot.root
    · subst hi
      exact congrArg ScopePlace.parent hroot
    · rw [hothers i hi]
      rfl
  refine ⟨⟨?_, ?_, ?_⟩, ?_, ?_⟩
  · intro i p _ hp
    rw [hparent] at hp
    cases hp
  · intro i hi
    obtain rfl := honly i hi
    have hdepth : (hw.rooted.scopes Boot.root).depth = 0 := congrArg ScopePlace.depth hroot
    rw [hdepth]
    decide
  · intro p hp
    obtain rfl := honly p hp
    have hchildren : (hw.rooted.scopes Boot.root).children = 0 := congrArg ScopePlace.children hroot
    rw [hchildren]
    refine (tally_eq_zero fun i => ?_).symm
    simp [Scopes.childOf, hparent]
  · intro i hi
    obtain rfl := honly i hi
    have hid : (hw.rooted.scopes Boot.root).id = 1 := congrArg ScopePlace.id hroot
    rw [hid]
    exact Nat.lt_succ_self 1
  · refine (tally_eq_zero fun i => ?_).symm
    unfold Scopes.isFenced
    by_cases hi : i = Boot.root
    · subst hi
      have hstate : (hw.rooted.scopes Boot.root).state = .opened := congrArg ScopePlace.state hroot
      simp [hstate]
    · rw [hothers i hi]
      rfl

theorem reachable_planted (h : kernel.Reachable s) : s.InOrder ∧ s.Planted :=
  reachable_invariant (fun hw => hw.rooted_planted) (fun _ _ _ hs hc => (hc.planted hs).1) h

theorem runs_keeps (hs : kernel.Reachable s) (h : kernel.Runs s t) : Keeps s t := by
  induction h with
  | refl => exact .refl s
  | @step u v a hruns hstep ih =>
    obtain ⟨horder, hplanted⟩ := reachable_planted (hs.of_runs hruns)
    have hpath : Path (fun _ _ => True) u v := Path.of_step horder hstep (u.lets_any a)
    exact ih.trans (hpath.planted hplanted).2

/-! ### Creations -/

variable {handle : Handle}

theorem publish_aloof_ok {domain : DomainId} {object : ObjRef} {rights : Rights}
    (h : Op.publish domain object rights s = .ok handle t) : Aloof s t := by
  unfold Op.publish at h
  obtain ⟨_, _, hget, h⟩ := Fallible.bind_ok_iff.1 h
  obtain ⟨rfl, rfl⟩ := EStateM.Result.ok.inj hget
  obtain ⟨g, u, hg, hc⟩ := Fallible.bind_ok_iff.1 h
  have hgranted := grantAlloc_stands (Op.orElse_ok hg)
  have hinstalled := u.capInstall_stands domain object (some g) none
  rw [Op.orElse_ok hc] at hinstalled
  exact .of_stands (hgranted.trans hinstalled)

/-- **A creation puts the new scope below the scope its caller named.** -/
theorem createChild_under {caller : Caller} {request : ScopeCreateRequest}
    (h : createChild caller request s = .ok handle t) :
    ∃ cap p i, s.resolve caller.domain caller.handle (some .scope) Right.scopeLimit caller.now =
        .ok cap ∧ cap.object.object = .scope p ∧ (t.scopes i).state = .opened ∧
      (t.scopes i).parent = some p ∧ (t.scopes i).id = s.nextObjectId ∧
      (t.scopes p).id = (s.scopes p).id := by
  unfold createChild at h
  obtain ⟨cap, p, hcap, hp, h⟩ := Op.atScope_ok h
  obtain ⟨-, h⟩ := Op.require_ok h
  obtain ⟨hopen, h⟩ := Op.require_ok h
  obtain ⟨-, h⟩ := Op.require_ok h
  obtain ⟨-, h⟩ := Op.require_ok h
  obtain ⟨_, _, hget, h⟩ := Fallible.bind_ok_iff.1 h
  obtain ⟨rfl, rfl⟩ := EStateM.Result.ok.inj hget
  obtain ⟨i, u, hslot, h⟩ := Fallible.bind_ok_iff.1 h
  replace hslot := Op.orElse_ok hslot
  obtain ⟨id, v, hid, h⟩ := Fallible.bind_ok_iff.1 h
  unfold Op.identity at hid
  obtain ⟨_, w, hreserve, hid⟩ := Fallible.bind_ok_iff.1 hid
  obtain ⟨scopes, hr, rfl⟩ := Op.reserve_ok hreserve
  obtain ⟨rfl, rfl⟩ := Op.nextId_ok hid
  obtain ⟨_, _, hmodify, h⟩ := Fallible.bind_ok_iff.1 h
  obtain ⟨-, rfl⟩ := EStateM.Result.ok.inj hmodify
  obtain ⟨_, _, hget', h⟩ := Fallible.bind_ok_iff.1 h
  obtain ⟨rfl, rfl⟩ := EStateM.Result.ok.inj hget'
  have haloof := publish_aloof_ok h
  obtain ⟨hempty, hparent, -, hsame, hnext⟩ :=
    Path.takeScopeSlot_parent hslot (by simpa using hopen)
  have hne : i ≠ p := by
    rintro rfl
    rw [hempty] at hparent
    cases hparent
  have hscopes : ∀ j, (scopes j).place = (u.scopes j).place := by
    intro j
    rw [Scopes.reserve_eq hr]
    rfl
  have hself := haloof.scopes i
  have hup := haloof.scopes p
  simp only [openScope, setScope, Scopes.set, Scope.place, ne_eq, hne, Ne.symm hne,
    not_false_eq_true, update_of_ne, update_self, ScopePlace.mk.injEq]
    at hself hup
  refine ⟨cap, p, i, hcap, hp, hself.1, hself.2.2.1, hself.2.1.trans hnext, ?_⟩
  exact hup.2.1.trans ((congrArg ScopePlace.id (hscopes p)).trans hsame)

/-- **The life of scopes**: a parent is in use and no further on than its children, a scope is
open as a whole exactly when it is open itself, barriers and children are counted; a creation
puts a scope below the one it names, and as long as a scope is there, it goes only forward and
its parent is the scope it was. -/
theorem scope_lifecycle {s : Machine} (h : kernel.Reachable s) :
    (∀ i p, (s.scopes i).state ≠ .empty → (s.scopes i).parent = some p →
      (s.scopes p).state ≠ .empty ∧ (s.scopes p).state.rank ≤ (s.scopes i).state.rank) ∧
    (∀ i, s.scopes.isOpen i = true ↔ (s.scopes i).state = .opened) ∧
    s.fenced = (Finset.univ.filter fun i => (s.scopes i).state = .fenced).card ∧
    (∀ p, (s.scopes p).state ≠ .empty → (s.scopes p).children =
      (Finset.univ.filter fun i =>
        (s.scopes i).state ≠ .empty ∧ (s.scopes i).parent = some p).card) ∧
    (∀ caller request handle t, createChild caller request s = .ok handle t →
      ∃ cap p i, s.resolve caller.domain caller.handle (some .scope) Right.scopeLimit caller.now =
          .ok cap ∧ cap.object.object = .scope p ∧ (t.scopes i).state = .opened ∧
        (t.scopes i).parent = some p ∧ (t.scopes i).id = s.nextObjectId ∧
        (t.scopes p).id = (s.scopes p).id) ∧
    ∀ t, kernel.Runs s t → ∀ i, (s.scopes i).state ≠ .empty → (t.scopes i).state ≠ .empty →
      (t.scopes i).id = (s.scopes i).id →
      (s.scopes i).state.rank ≤ (t.scopes i).state.rank ∧
        (t.scopes i).parent = (s.scopes i).parent ∧
        ∀ p, (s.scopes i).parent = some p →
          (t.scopes p).state ≠ .empty ∧ (t.scopes p).id = (s.scopes p).id := by
  obtain ⟨-, hplanted⟩ := reachable_planted h
  refine ⟨?_, hplanted.tree.isOpen_iff, ?_, ?_, fun _ _ _ _ => createChild_under, ?_⟩
  · intro i p hi hp
    have hunder := hplanted.tree.under i p hi hp
    exact ⟨hunder.used, hunder.order⟩
  · rw [hplanted.fenced, Finset.card_filter]
    rfl
  · intro p hp
    rw [hplanted.tree.children p hp, Finset.card_filter]
    rfl
  · intro t ht i hi hi' hid
    have hbound := hplanted.bound i hi
    have hkeeps := runs_keeps h ht
    obtain ⟨-, hplanted'⟩ := reachable_planted (h.of_runs ht)
    rcases hkeeps.scopes i hi' with ⟨-, -, hparent, hrank⟩ | hnew
    · refine ⟨hrank, hparent, fun p hp => ?_⟩
      have hunder := hplanted'.tree.under i p hi' (hparent.trans hp)
      refine ⟨hunder.used, ?_⟩
      -- A new scope in the parent's slot would be newer than its child.
      rcases hkeeps.scopes p hunder.used with ⟨-, hsame, -⟩ | hnew
      · exact hsame
      · have holder := hunder.older
        omega
    · omega

theorem scope_lifecycle_first : ∃ s : Machine, kernel.Reachable s ∧
    (s.scopes 2).parent = some 1 ∧ (s.scopes 1).state ≠ .empty ∧
      s.scopes.isOpen 2 = true := by
  obtain ⟨s, hreachable, hs⟩ := small_reaches [] []
    (fun s => (s.scopes 2).state == .opened && (s.scopes 2).parent == some 1) (by decide)
    (by decide +kernel)
  simp only [Bool.and_eq_true, beq_iff_eq] at hs
  have hlife := scope_lifecycle hreachable
  exact ⟨s, hreachable, hs.2, (hlife.1 2 1 (by simp [hs.1]) hs.2).1, (hlife.2.1 2).mpr hs.1⟩

end Thalyx.Kernel
