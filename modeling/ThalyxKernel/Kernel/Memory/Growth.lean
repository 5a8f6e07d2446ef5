/-
The moves of the operations on the tables.

Each function of `Memory.Model` that the machine calls is a path of moves.  Most of the work
is in what allocates: a search of the pool is a drain of the quarantine at most, then a frame
that was free, and a page table that is made on the way stays whether the operation goes
through or not.
-/
import ThalyxKernel.Kernel.Accounts
import ThalyxKernel.Kernel.Memory.Move

namespace Thalyx.Kernel.Memory

open AddressSpace (pageSize)
open Allocator (Same inRun Drains)

variable {care : Care} {s : State} {x y : Midway} {t u v : Tables}

/-- The tables go from `t` to `u` in moves that leave everything else alone. -/
def Goes (care : Care) (s : State) (x : Midway) (t u : Tables) : Prop :=
  Path care (s.withTables t, x) (s.withTables u, x)

theorem Goes.refl (t : Tables) : Goes care s x t t := Relation.ReflTransGen.refl

theorem Goes.trans (h : Goes care s x t u) (h' : Goes care s x u v) : Goes care s x t v :=
  Relation.ReflTransGen.trans h h'

theorem Goes.of_eq (h : t = u) : Goes care s x t u := h ▸ .refl t

theorem Goes.move (h : Move care (s.withTables t, x) (s.withTables u, x)) : Goes care s x t u :=
  Relation.ReflTransGen.single h

/-! ### Quiet changes -/

/-- Scopes that differ only in their accounts. -/
def Calm (scopes scopes' : Scopes) : Prop :=
  ∀ i, (scopes' i).state = (scopes i).state ∧ (scopes' i).parent = (scopes i).parent
    ∧ (scopes' i).mapsPending = (scopes i).mapsPending

theorem Calm.refl (scopes : Scopes) : Calm scopes scopes := fun _ => ⟨rfl, rfl, rfl⟩

theorem Calm.trans {a b c : Scopes} (h : Calm a b) (h' : Calm b c) : Calm a c := fun i =>
  ⟨(h' i).1.trans (h i).1, (h' i).2.1.trans (h i).2.1, (h' i).2.2.trans (h i).2.2⟩

theorem calm_reserve {scopes scopes' : Scopes} {scope : ScopeId} {r : Resource} {n : Nat}
    (h : scopes.reserve scope r n = some scopes') : Calm scopes scopes' := by
  rw [Scopes.reserve_eq h]
  exact fun _ => ⟨rfl, rfl, rfl⟩

theorem calm_release (scopes : Scopes) (scope : ScopeId) (r : Resource) (n : Nat) :
    Calm scopes (scopes.release scope r n) := by
  rw [Scopes.release_eq]
  exact fun _ => ⟨rfl, rfl, rfl⟩

theorem calm_set (scopes : Scopes) (i : ScopeId) {f : Scope → Scope}
    (h : ∀ node, (f node).state = node.state ∧ (f node).parent = node.parent
      ∧ (f node).mapsPending = node.mapsPending) : Calm scopes (scopes.set i f) := by
  intro j
  unfold Scopes.set
  by_cases hj : j = i
  · subst hj
    simpa using h (scopes j)
  · simp [hj]

theorem Tables.Quiet.refl (t : Tables) : t.Quiet t where
  scopes := Calm.refl _
  domains := fun _ => ⟨rfl, rfl, rfl⟩
  objects := fun _ => ⟨_, rfl⟩
  maps := rfl
  deviceMaps := rfl
  dma := rfl
  windows := fun _ _ => ⟨rfl, rfl⟩
  allocator := Same.refl _
  kernel := rfl
  nextObjectId := le_refl _
  memoryMap := rfl
  described := rfl

theorem Goes.quiet (h : t.Quiet u) : Goes care s x t u := .move (.quiet h)

theorem Goes.scopes {scopes : Scopes} (h : Calm t.scopes scopes) :
    Goes care s x t { t with scopes } :=
  .quiet { Tables.Quiet.refl t with scopes := h }

theorem Goes.release (scope : ScopeId) (r : Resource) (n : Nat) :
    Goes care s x t (t.release scope r n) :=
  .scopes (calm_release _ _ _ _)

variable {a : Allocator}

theorem Goes.same (h : Same t.allocator a) : Goes care s x t { t with allocator := a } :=
  .quiet { Tables.Quiet.refl t with allocator := h }

theorem Goes.spendId (t : Tables) : Goes care s x t t.spendId := by
  refine .quiet { Tables.Quiet.refl t with nextObjectId := ?_ }
  simp only [Tables.spendId]
  split <;> omega

theorem Goes.domain (d : DomainId) {f : Domain → Domain}
    (h : (f (t.domains d)).state = (t.domains d).state
      ∧ (f (t.domains d)).generation = (t.domains d).generation
      ∧ (f (t.domains d)).space = (t.domains d).space) : Goes care s x t (t.setDomain d f) := by
  refine .quiet { Tables.Quiet.refl t with domains := fun e => ?_ }
  by_cases he : e = d
  · subst he
    simpa [Tables.setDomain] using h
  · simp [Tables.setDomain, he]

theorem Goes.refs (i : MemoryId) (refs : Nat) :
    Goes care s x t (t.setObject i fun object => { object with refs }) := by
  refine .quiet { Tables.Quiet.refl t with objects := fun j => ?_ }
  by_cases hj : j = i
  · subst hj
    exact ⟨refs, by simp [Tables.setObject]⟩
  · exact ⟨(t.objects j).refs, by simp [Tables.setObject, hj]⟩

/-! ### The pool -/

theorem Goes.drains (h : Drains s.safeGeneration t.allocator a) :
    Goes care s x t { t with allocator := a } := by
  rcases h with rfl | rfl
  · exact .refl _
  · exact .move .drain

theorem Goes.alloc (care : Care) (x : Midway) {owner : Owner} {f : Nat}
    (h : t.allocator.alloc s.safeGeneration owner = (a, some f)) :
    ∃ b, Goes care s x t { t with allocator := b } ∧ Tables.Free { t with allocator := b } f ∧
      Same (b.grow f fun _ => 0) a := by
  obtain ⟨b, hdrains, hlt, hfree, hsame⟩ := Allocator.alloc_some h
  exact ⟨b, .drains hdrains, ⟨hlt, hfree⟩, hsame⟩

theorem path_hold {owner : Owner} {f : Nat} (hx : x.held = none)
    (h : t.allocator.alloc s.safeGeneration owner = (a, some f)) (bytes : Nat → UInt8) :
    Path care (s.withTables t, x)
      (s.withTables { t with
        allocator := { a with content := Function.update a.content f bytes } },
        { x with held := some f }) := by
  obtain ⟨b, hgoes, hfree, hsame⟩ := Goes.alloc care x h
  refine Relation.ReflTransGen.trans hgoes (.tail (.single (.take bytes hx hfree)) ?_)
  refine .quiet { Tables.Quiet.refl _ with allocator := ?_ }
  refine ⟨hsame.frames, hsame.taken, ?_, hsame.due⟩
  funext g
  by_cases hg : g = f
  · subst hg
    simp [Tables.growFrame, Allocator.grow, State.withTables]
  · simp [Tables.growFrame, Allocator.grow, State.withTables, hsame.content, hg]

variable {base pages : Nat}

theorem Goes.loseRun (hx : x.held = none) (hb : base + pages ≤ t.allocator.frames)
    (hf : ∀ f, inRun base pages f → t.allocator.taken f = false) :
    Goes care s x t (t.growRun base pages) := by
  have step : ∀ n, n ≤ pages → Goes care s x t (t.growRun base n) := by
    intro n
    induction n with
    | zero =>
      intro _
      refine .same ⟨rfl, ?_, ?_, rfl⟩
      · funext g
        have hno : ¬ inRun base 0 g := by simp [inRun]
        simp [Allocator.growRun, hno]
      · funext g
        have hno : ¬ inRun base 0 g := by simp [inRun]
        simp [Allocator.growRun, hno]
    | succ n ih =>
      intro hn
      have hfree : (t.growRun base n).Free (base + n) := by
        refine ⟨by simp only [Tables.growRun, Allocator.growRun]; omega, ?_⟩
        have hrun : inRun base pages (base + n) := ⟨by omega, by omega⟩
        have hno : ¬ inRun base n (base + n) := by simp [inRun]
        simp [Tables.growRun, Allocator.growRun, hf _ hrun, hno]
      have hlost : Goes care s x (t.growRun base n)
          ((t.growRun base n).growFrame (base + n) fun _ => 0) := by
        have htake : Move care (s.withTables (t.growRun base n), x) _ :=
          .take (fun _ => 0) hx hfree
        have hleak := Relation.ReflTransGen.tail (.single htake) .leak
        have hback : { x with held := none } = x := by
          rw [← hx]
        rwa [hback] at hleak
      refine ((ih (by omega)).trans hlost).trans (.same ⟨rfl, ?_, ?_, rfl⟩)
      · funext g
        have hiff : inRun base (n + 1) g ↔ g = base + n ∨ inRun base n g := by
          simp only [inRun]
          omega
        simp only [Tables.growRun, Allocator.growRun, Tables.growFrame, Allocator.grow, hiff]
        by_cases hg : g = base + n <;> simp [hg]
      · funext g
        have hiff : inRun base (n + 1) g ↔ g = base + n ∨ inRun base n g := by
          simp only [inRun]
          omega
        simp only [Tables.growRun, Allocator.growRun, Tables.growFrame, Allocator.grow, hiff]
        by_cases hg : g = base + n <;> simp [hg]
  exact step pages (le_refl _)

/-! ### Page tables -/

/-- The tables with a domain's space and the pool as given. -/
def Tables.at (t : Tables) (d : DomainId) (p : AddressSpace × Allocator) : Tables :=
  { t with allocator := p.2 }.setSpace d (some p.1)

@[simp] theorem Tables.at_space (t : Tables) (d : DomainId) (p : AddressSpace × Allocator) :
    ((t.at d p).domains d).space = some p.1 := by
  simp [Tables.at, Tables.setSpace, Tables.setDomain]

theorem Tables.setSpace_setSpace (t : Tables) (d : DomainId) (a b : Option AddressSpace) :
    (t.setSpace d a).setSpace d b = t.setSpace d b := by
  simp [Tables.setSpace, Tables.setDomain]

variable {p q : AddressSpace × Allocator}

theorem Goes.grows {d : DomainId}
    (h : Grows s.safeGeneration p q) : Goes care s x (t.at d p) (t.at d q) := by
  induction h with
  | refl => exact .refl _
  | tail _ hstep ih =>
    refine ih.trans ?_
    cases hstep with
    | drain => exact .move .drain
    | same h => exact .same h
    | @table space a key f hk hf ht =>
      have hmove : Move care (s.withTables (t.at d (space, a)), x) _ :=
        .table (Tables.at_space t d _) hk (f := f) ⟨hf, ht⟩
      have heq : ((t.at d (space, a)).growFrame f fun _ => 0).setSpace d
          (some { space with tables := (key, f) :: space.tables }) =
          t.at d ({ space with tables := (key, f) :: space.tables }, a.grow f fun _ => 0) :=
        Tables.setSpace_setSpace ({ t with allocator := a.grow f fun _ => 0 }) d _ _
      exact .move (heq ▸ hmove)

/-- The tables with the kernel's half and the pool as given. -/
def Tables.kernelAt (t : Tables) (p : AddressSpace × Allocator) : Tables :=
  { t with kernel := p.1, allocator := p.2 }

theorem Goes.kernelGrows (h : Grows s.safeGeneration p q) :
    Goes care s x (t.kernelAt p) (t.kernelAt q) := by
  induction h with
  | refl => exact .refl _
  | tail _ hstep ih =>
    refine ih.trans ?_
    cases hstep with
    | drain => exact .move .drain
    | same h => exact .same h
    | table hk hf ht => exact .move (.kernelTable hk ⟨hf, ht⟩)

/-! ### Objects -/

variable {sponsor : ScopeId}

theorem takePages_some (care : Care) (x : Midway)
    (h : t.takePages s.safeGeneration sponsor pages = (u, some base)) :
    ∃ v b, Goes care s x t v ∧ v.objects = t.objects ∧ base + pages ≤ v.allocator.frames ∧
      (∀ f, inRun base pages f → v.allocator.taken f = false) ∧
      Same (v.allocator.growRun base pages) b ∧ u = { v with allocator := b } := by
  unfold Tables.takePages at h
  split at h
  · cases h
  rename_i scopes hscopes
  split at h
  · cases h
  rename_i scopes' hscopes'
  split at h
  · cases h
  rename_i a f ha
  simp only [Prod.mk.injEq] at h
  obtain ⟨rfl, hbase⟩ := h
  split at hbase
  · cases hbase
  obtain rfl := Option.some.inj hbase
  obtain ⟨hfits, hfree, hsame⟩ := Allocator.allocContiguous_some ha
  have hcalm := (calm_reserve hscopes).trans (calm_reserve hscopes')
  refine ⟨{ t with
    allocator := t.allocator.drainQuarantine s.safeGeneration, scopes := scopes' }, a,
    ?_, rfl, ?_, hfree, hsame, rfl⟩
  · exact .trans (.move .drain)
      (.scopes (t := { t with allocator := t.allocator.drainQuarantine s.safeGeneration }) hcalm)
  · exact le_of_le_of_eq hfits (Allocator.drain_spec _ _).1.symm

theorem takePages_none (hx : x.held = none)
    (h : t.takePages s.safeGeneration sponsor pages = (u, none)) : Goes care s x t u := by
  unfold Tables.takePages at h
  split at h
  · obtain ⟨rfl, -⟩ := Prod.mk.inj h
    exact .refl _
  rename_i scopes hscopes
  have hcalm := calm_reserve hscopes
  split at h
  · obtain ⟨rfl, -⟩ := Prod.mk.inj h
    exact .scopes (hcalm.trans (calm_release _ _ _ _))
  rename_i scopes' hscopes'
  have hcalm' := hcalm.trans (calm_reserve hscopes')
  split at h
  · rename_i a ha
    obtain ⟨rfl, -⟩ := Prod.mk.inj h
    refine .trans (.drains (Allocator.allocContiguous_none ha)) (.scopes (t := { t with allocator := a }) ?_)
    exact (hcalm'.trans (calm_release _ _ _ _)).trans (calm_release _ _ _ _)
  · rename_i a f ha
    obtain ⟨rfl, -⟩ := Prod.mk.inj h
    obtain ⟨hfits, hfree, hsame⟩ := Allocator.allocContiguous_some ha
    let v := { t with
      allocator := t.allocator.drainQuarantine s.safeGeneration, scopes := scopes' }
    have hdrained : Goes care s x t v := .trans (.move .drain)
      (.scopes (t := { t with allocator := t.allocator.drainQuarantine s.safeGeneration }) hcalm')
    have hlost : Goes care s x v (v.growRun f pages) :=
      .loseRun hx (le_of_le_of_eq hfits (Allocator.drain_spec _ _).1.symm) hfree
    exact (hdrained.trans hlost).trans (.same (t := v.growRun f pages) hsame)

variable {i : MemoryId}

theorem Goes.openObject {sponsor' : ScopeId}
    (maxRights : Rights) (refs : Nat) (hi : (t.objects i).state = .empty)
    (hc : care.generations → (t.objects i).generation < u32Max)
    (h : t.takePages s.safeGeneration sponsor pages = (u, some base)) :
    Goes care s x t (u.openObject i .writable base pages maxRights sponsor' refs) := by
  obtain ⟨v, b, hgoes, hobjects, hfits, hfree, hsame, rfl⟩ := takePages_some care x h
  rw [← hobjects] at hi hc
  refine (hgoes.trans (.move (.openObject maxRights sponsor' refs hi hfits hfree hc))).trans ?_
  exact .same (t := (v.growRun base pages).openObject i .writable base pages maxRights sponsor' refs)
    hsame

theorem createChecks_ok {maxRights : Rights}
    (h : t.createChecks sponsor pages maxRights = .ok i) : (t.objects i).state = .empty := by
  unfold Tables.createChecks at h
  simp only [bind, Except.bind, pure, Except.pure, throw, throwThe, MonadExceptOf.throw] at h
  repeat' split at h
  all_goals cases h
  rename_i hfind
  simpa using List.find?_some hfind

/-- What is known of the slots a step may make an object in. -/
def Tables.Renewable (t : Tables) : Prop :=
  ∀ i, (t.objects i).state = .empty → (t.objects i).generation < u32Max

theorem Goes.create (hx : x.held = none) (hc : care.generations → t.Renewable) (sponsor : ScopeId)
    (pages : Nat) (maxRights : Rights) (installed : Bool) :
    Goes care s x t (t.create s.safeGeneration sponsor pages maxRights installed).1 := by
  unfold Tables.create
  split
  · exact .refl _
  rename_i i hi
  have hempty := createChecks_ok hi
  split
  · rename_i u hu
    exact takePages_none hx hu
  · rename_i u base hu
    exact .openObject maxRights _ hempty (fun h => hc h i hempty) hu

theorem Goes.credited (i : MemoryId) (immediate : Bool) (stamp : Nat) :
    Goes care s x (t.freeObject i immediate stamp) (t.collect i immediate stamp) :=
  .scopes (t := t.freeObject i immediate stamp)
    ((calm_release _ _ _ _).trans (calm_release _ _ _ _))

/-! ### Contents -/

theorem Goes.writeBytes (hs : (t.objects i).state = .writable) (bytes : List UInt8)
    (offset : Nat) (hr : offset + bytes.length ≤ (t.objects i).pages * pageSize) :
    Goes care s x t (t.writeBytes i offset bytes) := by
  induction bytes generalizing t offset with
  | nil => exact .refl _
  | cons byte rest ih =>
    rw [List.length_cons] at hr
    rw [Tables.writeBytes]
    have hpage : offset / pageSize < (t.objects i).pages := by
      simp only [pageSize, AddressSpace.pageSize] at hr ⊢
      omega
    have hrun : inRun (t.objects i).base (t.objects i).pages
        ((t.objects i).base + offset / pageSize) :=
      ⟨Nat.le_add_right _ _, Nat.add_lt_add_left hpage _⟩
    refine .trans (.move (.write (offset % pageSize) byte hs hrun)) ?_
    refine ih ?_ (offset + 1) ?_
    · exact hs
    · show offset + 1 + rest.length ≤ (t.objects i).pages * pageSize
      omega

theorem Goes.write (i : MemoryId) (offset : Nat) (bytes : List UInt8) :
    Goes care s x t (t.write i offset bytes).1 := by
  unfold Tables.write
  split
  · exact .refl _
  rename_i hs
  split
  · exact .refl _
  rename_i hr
  refine .writeBytes (by simpa using hs) bytes offset ?_
  simpa [Tables.rangeOk] using hr

theorem Goes.copy (i source : MemoryId) (sourceOffset destOffset length : Nat) :
    Goes care s x t (t.copy i source sourceOffset destOffset length).1 := by
  unfold Tables.copy
  split
  · exact .refl _
  rename_i hs
  split
  · exact .refl _
  rename_i hr
  split
  · exact .refl _
  split
  · exact .refl _
  refine .writeBytes (by simpa using hs) _ destOffset ?_
  simp only [Tables.rangeOk, Bool.or_eq_true, Bool.not_eq_true', not_or, Bool.not_eq_false,
    decide_eq_true_eq] at hr
  simpa using hr.2

end Thalyx.Kernel.Memory
