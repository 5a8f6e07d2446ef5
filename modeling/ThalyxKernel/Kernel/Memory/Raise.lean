/-
The moves of building domains and kernel stacks.

A page of a new space is a frame taken, held while the tables on the way to it are made, and
then written.  `Home` says what it takes for a space to be built so, and both a domain's space
and the kernel's half are homes.  A stack that does not fit is taken down again page by page,
each at a generation of its own.
-/
import ThalyxKernel.Kernel.Memory.Install

namespace Thalyx.Kernel.Memory

open AddressSpace (pageSize)
open Allocator (Same inRun Drains)

variable {care : Care} {s : State} {x : Midway} {t u : Tables}

/-! ### Pages of a space that is being built -/

/-- A place for a space: the tables with the space and the pool put into them. -/
structure Home (care : Care) (s : State) (x : Midway)
    (put : AddressSpace × Allocator → Tables) : Prop where
  allocator : ∀ p, (put p).allocator = p.2
  refill : ∀ p b, { put p with allocator := b } = put (p.1, b)
  grows : ∀ {y : Midway} {p q}, Grows s.safeGeneration p q → Goes care s y (put p) (put q)
  leaf : ∀ {space : AddressSpace} {a : Allocator} {page f : Nat} (rights : PageRights),
    space.leaves.lookup page = none →
    Move care (s.withTables (put (space, a)), { x with held := some f })
      (s.withTables (put ({ space with leaves := (page, f, rights) :: space.leaves }, a)), x)

variable {space space' : AddressSpace} {a b : Allocator}

/-- **A page built: its frame, the tables on the way and the entry, or a frame that leaks.** -/
theorem Home.page {put : AddressSpace × Allocator → Tables} (home : Home care s x put)
    (hx : x.held = none) {a' : Allocator} {owner owner' : Owner}
    {f vaddr : Nat} {rights : PageRights} {failure : Option MapError} (bytes : Nat → UInt8)
    (ha : a.alloc s.safeGeneration owner = (b, some f)) (hp : mapPage space vaddr f rights
      { b with content := Function.update b.content f bytes } s.safeGeneration owner' =
        (a', space', failure)) :
    Goes care s x (put (space, a)) (put (space', a')) := by
  have hback : { { x with held := some f } with held := none } = x := by
    rw [← hx]
  have halloc : (put (space, a)).allocator.alloc s.safeGeneration owner = (b, some f) := by
    rw [home.allocator]
    exact ha
  have hhold : Path care (s.withTables (put (space, a)), x) _ := path_hold hx halloc bytes
  rw [home.refill] at hhold
  obtain ⟨grown, hgrows, hcase⟩ := mapPage_spec hp
  have hgrown := Relation.ReflTransGen.trans hhold (home.grows hgrows)
  have hleaves := hgrows.frame.2
  simp only at hleaves
  rcases hcase with ⟨-, rfl⟩ | ⟨-, hnone, rfl⟩
  · have hleak := hgrown.tail .leak
    rwa [hback] at hleak
  · rw [← hleaves] at hnone ⊢
    exact hgrown.tail (home.leaf rights hnone)

variable {d : DomainId}

theorem Home.domain (hx : x.raising = some d) (hh : x.held = none) (t : Tables) :
    Home care s x (t.at d) where
  allocator := fun _ => rfl
  refill := fun _ _ => rfl
  grows := fun h => .grows h
  leaf := by
    intro space a page f rights hnone
    have hmove : Move care (s.withTables (t.at d (space, a)), { x with held := some f }) _ :=
      .leaf rights hx (Tables.at_space t d _) hnone rfl
    have hback : { { x with held := some f } with held := none } = x := by
      rw [← hh]
    have heq : (t.at d (space, a)).setSpace d
        (some { space with leaves := (page, f, rights) :: space.leaves }) =
        t.at d ({ space with leaves := (page, f, rights) :: space.leaves }, a) :=
      Tables.setSpace_setSpace ({ t with allocator := a }) d _ _
    rw [hback] at hmove
    exact heq ▸ hmove

theorem Home.kernel (hh : x.held = none) (t : Tables) : Home care s x t.kernelAt where
  allocator := fun _ => rfl
  refill := fun _ _ => rfl
  grows := fun h => .kernelGrows h
  leaf := by
    intro space a page f rights hnone
    have hmove : Move care (s.withTables (t.kernelAt (space, a)), { x with held := some f }) _ :=
      .kernelLeaf rights hnone rfl
    have hback : { { x with held := some f } with held := none } = x := by
      rw [← hh]
    rw [hback] at hmove
    exact hmove

/-! ### A domain's first pages -/

theorem Goes.loadPages (hx : x.raising = some d) (hh : x.held = none)
    (bytes : Nat → Nat → UInt8) (pages : List (Nat × PageRights)) {loaded : Bool}
    (h : Tables.loadPages s.safeGeneration (.domain d) bytes pages space a = (b, space', loaded)) :
    Goes care s x (t.at d (space, a)) (t.at d (space', b)) := by
  induction pages generalizing space a with
  | nil =>
    simp only [Tables.loadPages, Prod.mk.injEq] at h
    obtain ⟨rfl, rfl, -⟩ := h
    exact .refl _
  | cons page rest ih =>
    obtain ⟨vaddr, rights⟩ := page
    rw [Tables.loadPages] at h
    cases ha : a.alloc s.safeGeneration (.domain d) with
    | mk a1 found =>
      rw [ha] at h
      cases found with
      | none =>
        simp only [Prod.mk.injEq] at h
        obtain ⟨rfl, rfl, -⟩ := h
        exact .grows (alloc_grows ha space)
      | some f =>
        simp only at h
        cases hp : mapPage space vaddr f rights
            { a1 with content := Function.update a1.content f (bytes vaddr) }
            s.safeGeneration (.domain d) with
        | mk a2 r =>
          obtain ⟨space2, failure⟩ := r
          have hpage := (Home.domain hx hh t : Home care s x _).page hh (bytes vaddr) ha hp
          rw [hp] at h
          cases failure with
          | none => exact hpage.trans (ih h)
          | some e =>
            simp only [Prod.mk.injEq] at h
            obtain ⟨rfl, rfl, -⟩ := h
            exact hpage

/-! ### Kernel stacks -/

variable {slot : KstackId} {built ok : Bool}

theorem Goes.mapStack (hh : x.held = none) {kernel kernel' : AddressSpace} {count mapped : Nat}
    (h : Tables.mapStack s.safeGeneration slot kernel a count = (b, kernel', mapped, ok)) :
    Goes care s x (t.kernelAt (kernel, a)) (t.kernelAt (kernel', b)) := by
  induction count generalizing kernel' b mapped ok with
  | zero =>
    simp only [Tables.mapStack, Prod.mk.injEq] at h
    obtain ⟨rfl, rfl, -, -⟩ := h
    exact .refl _
  | succ count ih =>
    rw [Tables.mapStack] at h
    cases hrec : Tables.mapStack s.safeGeneration slot kernel a count with
    | mk a1 r =>
      obtain ⟨kernel1, mapped1, ok1⟩ := r
      have hsofar := ih hrec
      rw [hrec] at h
      cases ok1 with
      | false =>
        simp only [Prod.mk.injEq] at h
        obtain ⟨rfl, rfl, -, -⟩ := h
        exact hsofar
      | true =>
        simp only at h
        cases ha : a1.alloc s.safeGeneration .kernel with
        | mk a2 found =>
          rw [ha] at h
          cases found with
          | none =>
            simp only [Prod.mk.injEq] at h
            obtain ⟨rfl, rfl, -, -⟩ := h
            exact hsofar.trans (.kernelGrows (alloc_grows ha kernel1))
          | some f =>
            simp only at h
            cases hp : mapPage kernel1 (Tables.kstackPage slot count) f
                ⟨false, true, true, false⟩ a2 s.safeGeneration .kernel with
            | mk a3 r =>
              obtain ⟨kernel2, failure⟩ := r
              have hkeep : { a2 with
                  content := Function.update a2.content f (a2.content f) } = a2 := by
                rw [Function.update_eq_self]
              have hpage := (Home.kernel hh t : Home care s x _).page hh (a2.content f) ha
                (hkeep.symm ▸ hp)
              rw [hp] at h
              cases failure with
              | none =>
                simp only [Prod.mk.injEq] at h
                obtain ⟨rfl, rfl, -, -⟩ := h
                exact hsofar.trans hpage
              | some e =>
                simp only [Prod.mk.injEq] at h
                obtain ⟨rfl, rfl, -, -⟩ := h
                exact hsofar.trans hpage

/-- The machine some kernel generations later. -/
def State.later (s : State) (n : Nat) : State :=
  { s with generation := s.generation + n, kernelGeneration := s.kernelGeneration + n }

/-- No processor is ahead of what has been published. -/
def State.Clocked (s : State) : Prop :=
  ∀ c, (s.cpus c).online = true →
    (s.cpus c).seen ≤ s.generation ∧ (s.cpus c).seenKernel ≤ s.kernelGeneration

theorem Goes.dropStackPage {stamp k : Nat} (hs : stamp ≤ s.generation)
    (hc : care.translations → ∀ c, (s.cpus c).online = true →
      ((s.cpus c).seen < stamp ∧ (s.cpus c).seenKernel < s.kernelGeneration) ∨
        ∀ entry ∈ (s.cpus c).kernelCache, entry.1 ≠ Tables.kstackPage slot k / pageSize) :
    Goes care s x t (Tables.dropStackPage slot t stamp k) := by
  unfold Tables.dropStackPage AddressSpace.unmap
  by_cases hbad : (!AddressSpace.canonical (Tables.kstackPage slot k)
      || Tables.kstackPage slot k % AddressSpace.pageSize != 0) = true
  · rw [if_pos hbad]
    exact .refl _
  · rw [if_neg hbad]
    cases hl : t.kernel.leaves.lookup (Tables.kstackPage slot k / pageSize) with
    | none => exact .refl _
    | some leaf => exact .move (.dropKernelLeaf hl hs hc)

/-- **A stack that does not fit is taken down page by page, each page at the generation
published for it.** -/
theorem path_takeDown (slot : KstackId) (hc : care.translations → s.Clocked) (n : Nat) :
    Path care (s.withTables t, x)
      ((s.later n).withTables ((List.range n).foldl
        (fun t k => Tables.dropStackPage slot t (s.generation + 1 + k) k) t), x) := by
  induction n with
  | zero => exact .refl
  | succ n ih =>
    rw [List.range_succ, List.foldl_append, List.foldl_cons, List.foldl_nil]
    generalize (List.range n).foldl
      (fun t k => Tables.dropStackPage slot t (s.generation + 1 + k) k) t = v at ih
    have hstep : Move care ((s.later n).withTables v, x) ((s.later (n + 1)).withTables v, x) :=
      .publishKernel
    refine (ih.tail hstep).trans (Goes.dropStackPage ?_ fun h c hon => .inl ?_)
    · simp only [State.later]
      omega
    · have := hc h c hon
      simp only [State.later]
      omega

variable {generation safe spent : Nat}
variable {found : Option KstackId}

theorem path_allocateStack (hh : x.held = none) (hc : care.translations → s.Clocked)
    (h : t.allocateStack s.safeGeneration s.generation = (u, found, spent)) :
    Path care (s.withTables t, x) ((s.later spent).withTables u, x) := by
  unfold Tables.allocateStack at h
  split at h
  · simp only [Prod.mk.injEq] at h
    obtain ⟨rfl, -, rfl⟩ := h
    exact .refl
  rename_i slot _
  cases hm : Tables.mapStack s.safeGeneration slot t.kernel t.allocator kstackPages with
  | mk a r =>
    obtain ⟨kernel, mapped, ok⟩ := r
    have hmapped : Goes care s x t (t.kernelAt (kernel, a)) := Goes.mapStack (t := t) hh hm
    rw [hm] at h
    cases ok with
    | true =>
      simp only [Prod.mk.injEq] at h
      obtain ⟨rfl, -, rfl⟩ := h
      exact hmapped.trans (.quiet { Tables.Quiet.refl (t.kernelAt (kernel, a)) with maps := rfl })
    | false =>
      simp only [Prod.mk.injEq] at h
      obtain ⟨rfl, -, rfl⟩ := h
      exact Relation.ReflTransGen.trans hmapped (path_takeDown slot hc mapped)

/-! ### Domains -/

variable {image : Image} {bytes : Nat → Nat → UInt8}

theorem path_build (hx : x.raising = some d) (hh : x.held = none)
    (hc : care.translations → s.Clocked) (hs : (t.domains d).space = none)
    (h : t.build s.safeGeneration s.generation d image bytes = (u, built, spent)) :
    Path care (s.withTables t, x) ((s.later spent).withTables u, x) := by
  unfold Tables.build at h
  cases ha : t.allocator.alloc s.safeGeneration (.domain d) with
  | mk a found =>
    rw [ha] at h
    cases found with
    | none =>
      simp only [Prod.mk.injEq] at h
      obtain ⟨rfl, -, rfl⟩ := h
      exact Goes.drains (Allocator.alloc_none ha)
    | some root =>
      simp only at h
      obtain ⟨b, hdrains, hfree, hsame⟩ := Goes.alloc care x ha
      have hroot : Goes care s x t (t.at d (⟨root, [], []⟩, a)) :=
        (hdrains.trans (.move (.root hx hs hfree))).trans
          (.same (t := t.at d (⟨root, [], []⟩, b.grow root fun _ => 0)) hsame)
      cases hl : Tables.loadPages s.safeGeneration (.domain d) bytes (Tables.pageList image)
          ⟨root, [], []⟩ a with
      | mk a' r =>
        obtain ⟨space, loaded⟩ := r
        have hloaded := hroot.trans (Goes.loadPages hx hh bytes _ hl)
        rw [hl] at h
        cases loaded with
        | false =>
          simp only [Bool.false_eq_true, if_false, Prod.mk.injEq] at h
          obtain ⟨rfl, -, rfl⟩ := h
          exact hloaded
        | true =>
          simp only [if_true] at h
          cases hk : Tables.allocateStack (t.at d (space, a')) s.safeGeneration
              s.generation with
          | mk v r =>
            obtain ⟨found, n⟩ := r
            have hstack := Relation.ReflTransGen.trans hloaded (path_allocateStack hh hc hk)
            have hk' := hk
            simp only [Tables.at, Tables.setSpace] at hk'
            rw [hk'] at h
            cases found with
            | none =>
              simp only [Prod.mk.injEq] at h
              obtain ⟨rfl, -, rfl⟩ := h
              exact hstack
            | some slot =>
              simp only [Prod.mk.injEq] at h
              obtain ⟨rfl, -, rfl⟩ := h
              refine hstack.trans (Goes.trans (.spendId v) (.domain d ⟨rfl, rfl, rfl⟩))

variable {owner : ScopeId}

theorem reserveDomain_goes {reserved : Nat} (h : t.reserveDomain owner reserved = (u, ok)) :
    ∃ scopes, Calm t.scopes scopes ∧ u = { t with scopes } := by
  unfold Tables.reserveDomain at h
  split at h
  · obtain ⟨rfl, -⟩ := Prod.mk.inj h
    exact ⟨t.scopes, Calm.refl _, rfl⟩
  rename_i scopes hscopes
  have hcalm := calm_reserve hscopes
  split at h
  · obtain ⟨rfl, -⟩ := Prod.mk.inj h
    exact ⟨_, hcalm.trans (calm_release _ _ _ _), rfl⟩
  rename_i scopes' hscopes'
  have hcalm' := hcalm.trans (calm_reserve hscopes')
  split at h
  · obtain ⟨rfl, -⟩ := Prod.mk.inj h
    exact ⟨_, (hcalm'.trans (calm_release _ _ _ _)).trans (calm_release _ _ _ _), rfl⟩
  · obtain ⟨rfl, -⟩ := Prod.mk.inj h
    exact ⟨_, hcalm', rfl⟩

/-- The machine after some kernel generations and some others. -/
def State.after (s : State) (kernel plain : Nat) : State :=
  { s with
    generation := s.generation + kernel + plain, kernelGeneration := s.kernelGeneration + kernel }

theorem path_abandon (hx : x = { Midway.idle with raising := some d })
    (owner : ScopeId) (reserved : Nat) :
    Path care (s.withTables t, x)
      (({ s with generation := s.generation + if (t.domains d).space.isSome then 2 else 0 }).withTables
        (t.abandonDomain d owner reserved (s.generation + 1)), .idle) := by
  have hend : ∀ (s' : State) (v : Tables), (v.domains d).space = none →
      Path care (s'.withTables v, x)
        (s'.withTables (((v.release owner .memoryPages reserved).release owner .metadata 2).setDomain
          d fun domain => .empty domain.generation), .idle) := by
    intro s' v hv
    have hquiet : Goes care s' x v _ :=
      Goes.trans (.release owner .memoryPages reserved) (.release owner .metadata 2)
    have hempty : Move care (s'.withTables ((v.release owner .memoryPages reserved).release owner
        .metadata 2), x) _ := .emptyDomain hv (by rw [hx]; rfl) (.inl (by rw [hx]))
    have hidle : { x with raising := none } = Midway.idle := by rw [hx]; rfl
    rw [hidle] at hempty
    exact Relation.ReflTransGen.tail hquiet hempty
  cases hs : (t.domains d).space with
  | none =>
    have hsame : t.destroySpace d (s.generation + 1) = t := by
      unfold Tables.destroySpace
      rw [hs]
    unfold Tables.abandonDomain
    rw [hsame]
    exact hend s t hs
  | some space =>
    have habandon : Move care (s.withTables t, x) _ := .abandon (d := d) (by rw [hx])
    refine Relation.ReflTransGen.head habandon (hend s.publish.publish _ ?_)
    simp [Tables.destroySpace, State.withTables, hs, Tables.setDomain]

theorem Goes.settleDomain (d : DomainId) (owner : ScopeId) (reserved : Nat) :
    Goes care s x t (t.settleDomain d owner reserved) := by
  unfold Tables.settleDomain
  have hthreads : Calm t.scopes
      (t.scopes.set owner fun node => { node with threads := node.threads + 1 }) :=
    calm_set _ _ fun _ => ⟨rfl, rfl, rfl⟩
  exact .trans (.scopes hthreads) (.trans (.release _ _ _) (.domain d ⟨rfl, rfl, rfl⟩))

/-! ### What a build leaves alone -/

theorem dropStackPage_domains (slot : KstackId) (t : Tables) (stamp k : Nat) :
    (Tables.dropStackPage slot t stamp k).domains = t.domains := by
  unfold Tables.dropStackPage
  split <;> rfl

theorem allocateStack_domains
    (h : t.allocateStack safe generation = (u, found, spent)) : u.domains = t.domains := by
  unfold Tables.allocateStack at h
  split at h
  · simp only [Prod.mk.injEq] at h
    rw [← h.1]
  rename_i slot _
  split at h
  · simp only [Prod.mk.injEq] at h
    rw [← h.1]
  · rename_i a kernel mapped _
    simp only [Prod.mk.injEq] at h
    rw [← h.1]
    have hfold : ∀ (l : List Nat) (v : Tables), (l.foldl
        (fun t k => Tables.dropStackPage slot t (generation + 1 + k) k) v).domains = v.domains := by
      intro l
      induction l with
      | nil => exact fun _ => rfl
      | cons k rest ih => exact fun v => (ih _).trans (dropStackPage_domains _ _ _ _)
    exact hfold _ _

theorem build_state (h : t.build safe generation d image bytes = (u, built, spent)) :
    (u.domains d).state = (t.domains d).state := by
  unfold Tables.build at h
  split at h
  · simp only [Prod.mk.injEq] at h
    rw [← h.1]
  split at h
  rename_i a space loaded _
  simp only at h
  split at h
  · split at h
    · rename_i v slot n hk
      simp only [Prod.mk.injEq] at h
      rw [← h.1]
      simp [Tables.setDomain, Tables.spendId, allocateStack_domains hk]
    · rename_i v n hk
      simp only [Prod.mk.injEq] at h
      rw [← h.1, allocateStack_domains hk]
      simp [Tables.setDomain]
  · simp only [Prod.mk.injEq] at h
    rw [← h.1]
    simp [Tables.setDomain]

theorem build_space (h : t.build safe generation d image bytes = (u, true, spent)) :
    (u.domains d).space.isSome = true := by
  unfold Tables.build at h
  split at h
  · simp at h
  split at h
  rename_i a space loaded _
  simp only at h
  split at h
  · split at h
    · rename_i v slot n hk
      simp only [Prod.mk.injEq] at h
      rw [← h.1]
      simp [Tables.setDomain, Tables.spendId, allocateStack_domains hk]
    · simp at h
  · simp at h

theorem raiseDomain_state {torn : Nat}
    (h : t.raiseDomain safe generation d owner image bytes = (u, true, spent, torn)) :
    (u.domains d).state = .building := by
  unfold Tables.raiseDomain at h
  simp only at h
  split at h
  · simp at h
  split at h
  · rename_i v n hb
    simp only [Prod.mk.injEq] at h
    rw [← h.1]
    have hstate := build_state hb
    simp only [Tables.openDomain, Tables.setDomain, Tables.spendId, Function.update_self]
      at hstate
    simp [Tables.settleDomain, Tables.setDomain, Tables.release, hstate]
  · simp at h

/-- **`create_in` in a free slot.** -/
theorem path_raiseDomain (hd : (t.domains d).state = .empty) (hc : care.translations → s.Clocked)
    {torn : Nat} (h : t.raiseDomain s.safeGeneration s.generation d owner image bytes =
      (u, built, spent, torn)) :
    Path care (s.withTables t, .idle) ((s.after spent torn).withTables u, .idle) := by
  unfold Tables.raiseDomain at h
  simp only at h
  generalize image.pages + userStackPages + kstackPages + tableReservePages = reserved at h
  cases hr : t.reserveDomain owner reserved with
  | mk v ok =>
    obtain ⟨scopes, hcalm, rfl⟩ := reserveDomain_goes hr
    have hreserved : Goes care s .idle t { t with scopes } := .scopes hcalm
    rw [hr] at h
    cases ok with
    | false =>
      simp only [Prod.mk.injEq] at h
      obtain ⟨rfl, -, rfl, rfl⟩ := h
      exact hreserved
    | true =>
      simp only at h
      have hopen : Path care (s.withTables t, .idle)
          (s.withTables (Tables.openDomain { t with scopes } d owner reserved),
            { Midway.idle with raising := some d }) :=
        Relation.ReflTransGen.tail hreserved (.openDomain owner reserved rfl hd)
      have hblank : ((Tables.openDomain { t with scopes } d owner reserved).domains d).space =
          none := by
        simp [Tables.openDomain, Tables.setDomain, Tables.spendId, Domain.empty]
      cases hb : (Tables.openDomain { t with scopes } d owner reserved).build s.safeGeneration
          s.generation d image bytes with
      | mk v r =>
        obtain ⟨ok, n⟩ := r
        have hbuilt := hopen.trans (path_build rfl rfl hc hblank hb)
        rw [hb] at h
        cases ok with
        | true =>
          simp only [Prod.mk.injEq] at h
          obtain ⟨rfl, -, rfl, rfl⟩ := h
          refine (hbuilt.tail (.raised rfl (build_space hb))).trans ?_
          exact Goes.settleDomain d owner reserved
        | false =>
          simp only [Prod.mk.injEq] at h
          obtain ⟨rfl, -, rfl, rfl⟩ := h
          exact hbuilt.trans (path_abandon rfl owner reserved)

theorem takeDomainSlot_path (care : Care) (s : State) {unnamed : DomainId → Bool}
    (h : t.takeDomainSlot unnamed = (u, some d)) :
    Path care (s.withTables t, .idle) (s.withTables u, .idle) ∧ (u.domains d).state = .empty := by
  unfold Tables.takeDomainSlot at h
  split at h
  · rename_i e he
    simp only [Prod.mk.injEq, Option.some.injEq] at h
    obtain ⟨rfl, rfl⟩ := h
    exact ⟨.refl, by simpa using List.find?_some he⟩
  · split at h
    · rename_i e he
      simp only [Prod.mk.injEq, Option.some.injEq] at h
      obtain ⟨rfl, rfl⟩ := h
      have hdead := List.find?_some he
      simp only [Tables.deadCollectable, Bool.and_eq_true, beq_iff_eq, Option.isNone_iff_eq_none]
        at hdead
      refine ⟨?_, by simp [Tables.setDomain, Domain.empty]⟩
      have hquiet : Goes care s .idle t
          { t with allocator := t.allocator.reassignQuarantine (.domain e) .kernel } :=
        .same (Allocator.reassign_same _ _ _)
      exact Relation.ReflTransGen.tail hquiet (.emptyDomain hdead.1.2 rfl (.inr ⟨rfl, hdead.1.1.1⟩))
    · cases h

theorem path_create (hc : care.translations → s.Clocked)
    (hd : (s.tables.domains d).state = .empty) (owner : ScopeId) (image : Image)
    (bytes : Nat → Nat → UInt8) :
    Path care (s, .idle)
      ((match s.tables.raiseDomain s.safeGeneration s.generation d owner image bytes with
        | (t, built, spent, torn) =>
          if built then ((s.after spent torn).withTables t).forgetSpace d
          else (s.after spent torn).withTables t), .idle) := by
  cases hr : s.tables.raiseDomain s.safeGeneration s.generation d owner image bytes with
  | mk t r =>
    obtain ⟨built, spent, torn⟩ := r
    have hraised := path_raiseDomain hd hc hr
    simp only
    cases built with
    | false => exact hraised
    | true => exact hraised.tail (.forget (.inr (raiseDomain_state hr)))

theorem path_createDomain (hc : care.translations → s.Clocked) (owner : ScopeId) (image : Image)
    (bytes : Nat → Nat → UInt8) (thread : Bool) (unnamed : DomainId → Bool) :
    Path care (s, .idle) (s.createDomain owner image bytes thread unnamed, .idle) := by
  unfold State.createDomain
  split
  · exact .refl
  cases hslot : s.tables.takeDomainSlot unnamed with
  | mk t found =>
    cases found with
    | none => exact .refl
    | some d =>
      obtain ⟨htake, hempty⟩ := takeDomainSlot_path care s hslot
      simp only
      generalize ((s.tables.domains d).state == DomainState.dead) = collected
      -- The space is forgotten with the dead domain; the rest is the same either way.
      have hrest : ∀ s' : State, s'.tables = t → (care.translations → s'.Clocked) →
          Path care (s', .idle) ((if !thread then s' else
            match s'.tables.raiseDomain s'.safeGeneration s'.generation d owner image bytes with
            | (t, built, spent, torn) =>
              if built then ((s'.after spent torn).withTables t).forgetSpace d
              else (s'.after spent torn).withTables t), .idle) := by
        intro s' hs' hc'
        cases thread with
        | false => exact .refl
        | true => exact path_create hc' (hs'.symm ▸ hempty) owner image bytes
      cases collected with
      | false => exact htake.trans (hrest _ rfl hc)
      | true => exact (htake.tail (.forget (.inl hempty))).trans (hrest _ rfl hc)

/-- **`add_thread_in`.** -/
theorem path_addThread (hc : care.translations → s.Clocked) (d : DomainId) :
    Path care (s, .idle) (s.addThread d, .idle) := by
  unfold State.addThread
  have hrun : ∀ {u : Tables} {spent : Nat},
      s.tables.addThread s.safeGeneration s.generation d = (u, spent) →
        Path care (s, .idle) ((s.later spent).withTables u, .idle) := by
    intro u spent h
    unfold Tables.addThread at h
    split at h
    · simp only [Prod.mk.injEq] at h
      obtain ⟨rfl, rfl⟩ := h
      exact .refl
    simp only at h
    split at h
    · simp only [Prod.mk.injEq] at h
      obtain ⟨rfl, rfl⟩ := h
      exact .refl
    rename_i scopes hscopes
    have hcalm := calm_reserve hscopes
    split at h
    · simp only [Prod.mk.injEq] at h
      obtain ⟨rfl, rfl⟩ := h
      exact Goes.scopes (t := s.tables) (hcalm.trans (calm_release _ _ _ _))
    rename_i scopes' hscopes'
    have hreserved : Goes care s .idle s.tables { s.tables with scopes := scopes' } :=
      .scopes (hcalm.trans (calm_reserve hscopes'))
    split at h
    · rename_i v n hk
      simp only [Prod.mk.injEq] at h
      obtain ⟨rfl, rfl⟩ := h
      refine Relation.ReflTransGen.trans hreserved ((path_allocateStack rfl hc hk).trans ?_)
      exact Goes.trans (.release _ _ _) (.release _ _ _)
    · rename_i v slot n hk
      simp only [Prod.mk.injEq] at h
      obtain ⟨rfl, rfl⟩ := h
      refine Relation.ReflTransGen.trans hreserved ((path_allocateStack rfl hc hk).trans ?_)
      have hquiet : Goes care (s.later n) .idle v
          (v.spendId.setDomain d fun domain =>
            { domain with
              kstacks := domain.kstacks ++ [slot]
              reservedPages := domain.reservedPages + kstackPages
              reservedMetadata := domain.reservedMetadata + 1 }) :=
        .trans (.spendId v) (.domain d ⟨rfl, rfl, rfl⟩)
      exact hquiet.trans (.scopes (calm_set _ _ fun _ => ⟨rfl, rfl, rfl⟩))
  exact hrun rfl

end Thalyx.Kernel.Memory
