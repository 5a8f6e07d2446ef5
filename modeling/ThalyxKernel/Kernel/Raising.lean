/-
When `domainops::create` leaves nothing behind.

The new domain's slot may be that of a dead domain, which is collected first; the two
reservations and the identity are returned when one of them is refused; a build that fails
is demolished, but the frames it took wait in quarantine.  `createIn_cases` says which of
these happens, in terms of the machine the operation begins in.
-/
import ThalyxKernel.Kernel.Leftovers

namespace Thalyx.Kernel

open Fallible Scopes LeavesNothing Option

namespace Machine

variable {s t : Machine} {index : DomainId} {scope : ScopeId} {image : Image} {managed : Bool}

/-- **How a slot for a new domain is found**: it was empty and nothing changes, or it held a
dead domain, which is gone. -/
theorem takeDomainSlot_some (h : s.takeDomainSlot = (t, some index)) :
    ((s.domains index).state = .empty ∧ t = s) ∨
      ((s.domains index).state = .dead ∧ t = s.collectDead index) := by
  unfold takeDomainSlot at h
  cases he : (List.finRange maxDomains).find? fun i => (s.domains i).state == .empty with
  | some j =>
    simp only [he, Prod.mk.injEq, some.injEq] at h
    obtain ⟨rfl, rfl⟩ := h
    have := List.find?_some he
    exact .inl ⟨by simpa using this, rfl⟩
  | none =>
    cases hr : (List.finRange maxDomains).find? s.deadCollectable with
    | none => simp [he, hr] at h
    | some j =>
      simp only [he, hr, Prod.mk.injEq, some.injEq] at h
      obtain ⟨rfl, rfl⟩ := h
      have := List.find?_some hr
      simp only [deadCollectable, Bool.and_eq_true, beq_iff_eq] at this
      exact .inr ⟨this.1.1.1, rfl⟩

theorem takeDomainSlot_none (h : s.takeDomainSlot = (t, none)) : t = s := by
  unfold takeDomainSlot at h
  split at h
  · simp at h
  · split at h
    · simp at h
    · exact (Prod.mk.inj h).1.symm

theorem takeDomainSlot_empty (h : s.takeDomainSlot = (t, some index)) :
    (t.domains index).state = .empty := by
  obtain ⟨he, rfl⟩ | ⟨-, rfl⟩ := takeDomainSlot_some h
  · exact he
  · simp [collectDead, clearDomain, setDomain, Domain.empty]

/-! ### What the steps before the build need -/

/-- What comes before the build goes through: a thread cell, the two reservations and an
identity. -/
structure Begun (s : Machine) (scope : ScopeId) (image : Image) : Prop where
  thread : s.findEmptyThread.isSome
  pages : (s.scopes.reserve scope .memoryPages (reservedFor image)).isSome
  metadata : (s.scopes.reserve scope .metadata 2).isSome
  identity : s.nextObjectId ≠ u64Max

/-- The build goes through. -/
def Buildable (s : Machine) (image : Image) : Prop :=
  ∃ n, image.demand s.kernelSpace.outline s.kstackUsed = some n ∧ n ≤ s.availableFrames

/-- The machine as the build begins. -/
def begun (s : Machine) (index : DomainId) (scope : ScopeId) (managed : Bool) (image : Image) : Machine :=
  { s with
    scopes := (s.scopes.plus (s.scopes.chain scope) .memoryPages (reservedFor image)).plus
      (s.scopes.chain scope) .metadata 2
    nextObjectId := s.nextObjectId + 1 }.openDomain index s.nextObjectId scope managed
      (reservedFor image)

/-- The same, with the identity of the domain's thread drawn too, as far as there is one:
what the creator's grant and entry are made in. -/
def raised (s : Machine) (index : DomainId) (scope : ScopeId) (managed : Bool) (image : Image) : Machine :=
  { s.begun index scope managed image with
    nextObjectId :=
      if s.nextObjectId + 1 = u64Max then s.nextObjectId + 1 else s.nextObjectId + 2 }

theorem raise_of_not_begun (index : DomainId) (managed : Bool) (h : ¬ s.Begun scope image) :
    ∃ e, raise scope managed image index s = .error e s := by
  unfold raise
  cases hthread : s.findEmptyThread with
  | none =>
    have he : Op.orElse (fun s => (s, s.findEmptyThread)) CreateError.threadTableFull s =
        .error .threadTableFull s := by simp [Op.orElse, hthread]
    exact ⟨_, Fallible.bind_of_error he⟩
  | some thread =>
    have hok : Op.orElse (fun s => (s, s.findEmptyThread)) CreateError.threadTableFull s =
        .ok thread s := by simp [Op.orElse, hthread]
    rw [Fallible.bind_of_ok hok]
    cases hpages : s.scopes.reserve scope .memoryPages (reservedFor image) with
    | none =>
      have he : Op.reserve scope .memoryPages (reservedFor image) id
          CreateError.limitExhausted s = .error .limitExhausted s := by
        simp [Op.reserve, hpages]
      exact ⟨_, Fallible.bind_of_error he⟩
    | some scopes =>
      have hok : Op.reserve scope .memoryPages (reservedFor image) id
          CreateError.limitExhausted s = .ok () { s with scopes } := by
        simp [Op.reserve, hpages]
      rw [Fallible.bind_of_ok hok]
      have halike : Scopes.Alike .metadata s.scopes scopes :=
        reserve_eq hpages ▸ .plus_other (by decide) _ _
      cases hmeta : scopes.reserve scope .metadata 2 with
      | none =>
        have he : Op.reserve scope .metadata 2
            (fun s => s.release scope .memoryPages (reservedFor image))
            CreateError.limitExhausted { s with scopes } = .error .limitExhausted s := by
          simp [Op.reserve, hmeta, release, release_reserve hpages]
        exact ⟨_, Fallible.bind_of_error he⟩
      | some scopes' =>
        have hok : Op.reserve scope .metadata 2
            (fun s => s.release scope .memoryPages (reservedFor image))
            CreateError.limitExhausted { s with scopes } = .ok () { s with scopes := scopes' } := by
          simp [Op.reserve, hmeta]
        rw [Fallible.bind_of_ok hok]
        have hid : s.nextObjectId = u64Max := by
          by_contra hid
          exact h ⟨by simp [hthread], by simp [hpages],
            by rw [← halike.reserve_isSome]; simp [hmeta], hid⟩
        have hnone : ({ s with scopes := scopes' } : Machine).nextId = none := by
          simp [nextId, hid]
        have he : Op.nextId (fun s => (s.release scope .memoryPages
            (reservedFor image)).release scope .metadata 2) CreateError.limitExhausted
            { s with scopes := scopes' } = .error .limitExhausted s := by
          have hs : ((scopes'.release scope .memoryPages (reservedFor image)).release scope
              .metadata 2) = s.scopes := by
            rw [reserve_eq hmeta, reserve_eq hpages]
            simp only [release_eq, plus_chain, minus_chain]
            rw [minus_plus_comm (by decide), minus_plus, minus_plus]
          simp [Op.nextId, hnone, release, hs]
        exact ⟨_, Fallible.bind_of_error he⟩

theorem raise_of_begun (index : DomainId) (managed : Bool) (h : s.Begun scope image) :
    ∃ thread, raise scope managed image index s =
      ((build index thread image).orUndo (fun s => s.abandonDomain index scope (reservedFor image))
        >>= fun _ => (modify fun s => s.settleDomain index scope (reservedFor image))
        >>= fun _ => pure index) (s.begun index scope managed image) := by
  obtain ⟨thread, hthread⟩ := isSome_iff_exists.mp h.thread
  obtain ⟨scopes, hpages⟩ := isSome_iff_exists.mp h.pages
  have halike : Scopes.Alike .metadata s.scopes scopes :=
    reserve_eq hpages ▸ .plus_other (by decide) _ _
  have hmeta := h.metadata
  rw [← halike.reserve_isSome] at hmeta
  obtain ⟨scopes', hmeta⟩ := isSome_iff_exists.mp hmeta
  have h1 : Op.orElse (fun s => (s, s.findEmptyThread)) CreateError.threadTableFull s =
      .ok thread s := by simp [Op.orElse, hthread]
  have h2 : Op.reserve scope .memoryPages (reservedFor image) id
      CreateError.limitExhausted s = .ok () { s with scopes } := by
    simp [Op.reserve, hpages]
  have h3 : Op.reserve scope .metadata 2
      (fun s => s.release scope .memoryPages (reservedFor image))
      CreateError.limitExhausted { s with scopes } = .ok () { s with scopes := scopes' } := by
    simp [Op.reserve, hmeta]
  have h4 : Op.nextId (fun s => (s.release scope .memoryPages
      (reservedFor image)).release scope .metadata 2) CreateError.limitExhausted
      { s with scopes := scopes' } =
        .ok s.nextObjectId { s with scopes := scopes', nextObjectId := s.nextObjectId + 1 } := by
    simp [Op.nextId, nextId, h.identity]
  have hs : scopes' = (s.scopes.plus (s.scopes.chain scope) .memoryPages (reservedFor image)).plus
      (s.scopes.chain scope) .metadata 2 := by
    rw [reserve_eq hmeta, reserve_eq hpages, plus_chain]
  refine ⟨thread, ?_⟩
  unfold raise
  rw [Fallible.bind_of_ok h1, Fallible.bind_of_ok h2, Fallible.bind_of_ok h3,
    Fallible.bind_of_ok h4, Fallible.bind_of_ok (modify_run _ _), hs]
  rfl

/-! ### The end of the build -/

theorem startThread_room (s : Machine) (index : DomainId) (thread kstack : ThreadId)
    (domain : DomainId) :
    SameRoom domain
      { s with
        nextObjectId := if s.nextObjectId = u64Max then s.nextObjectId else s.nextObjectId + 1 }
      (s.startThread index thread kstack) := by
  have hpar : ∀ (t : Scopes) (nodes : List ScopeId), Scopes.Alike .metadata t (nodes.foldl
      (fun t i => t.set i fun node => { node with parallelismUsed := node.parallelismUsed + 1 }) t) := by
    intro t nodes
    induction nodes generalizing t with
    | nil => exact .refl _ t
    | cons i rest ih =>
      refine Scopes.Alike.trans ?_ (ih _)
      refine ⟨?_, ?_, ?_, ?_⟩ <;>
      · intro j
        by_cases hj : j = i
        · subst hj
          simp [Scopes.set]
        · simp [Scopes.set, hj]
  have howner : ∀ u : Machine, ((u.setDomain index fun d =>
      { d with threads := Function.update d.threads 0 (some thread) }).domains domain).ownerScope =
      (u.domains domain).ownerScope := by
    intro u
    by_cases hd : domain = index
    · subst hd
      simp [setDomain]
    · simp [setDomain, hd]
  unfold startThread nextId
  by_cases hid : s.nextObjectId = u64Max
  · simp only [hid, if_true]
    exact ⟨hpar _ _, howner _, rfl, rfl, rfl, hid⟩
  · simp only [hid, if_false]
    exact ⟨hpar _ _, howner _, rfl, rfl, rfl, rfl⟩

theorem settleDomain_room (s : Machine) (index : DomainId) (scope : ScopeId) (pages : Nat)
    (domain : DomainId) : SameRoom domain s (s.settleDomain index scope pages) := by
  have hset : Scopes.Alike .metadata s.scopes
      (s.scopes.set scope fun node => { node with threads := node.threads + 1 }) := by
    refine ⟨?_, ?_, ?_, ?_⟩ <;>
    · intro j
      by_cases hj : j = scope
      · subst hj
        simp [Scopes.set]
      · simp [Scopes.set, hj]
  refine ⟨?_, ?_, rfl, rfl, rfl, rfl⟩
  · refine hset.trans ?_
    show Scopes.Alike .metadata _ (Scopes.release _ _ _ _)
    rw [release_eq]
    exact .minus_other (by decide) _ _
  · by_cases hd : domain = index
    · subst hd
      simp [settleDomain, setDomain, setScope, release]
    · simp [settleDomain, setDomain, setScope, release, hd]

theorem SameRoom.trans {domain : DomainId} {s t u : Machine} (h : SameRoom domain s t)
    (h' : SameRoom domain t u) : SameRoom domain s u where
  scopes := h.scopes.trans h'.scopes
  owner := h'.owner.trans h.owner
  caps := h'.caps.trans h.caps
  grants := h'.grants.trans h.grants
  grantHint := h'.grantHint.trans h.grantHint
  nextObjectId := h'.nextObjectId.trans h.nextObjectId

theorem startThread_state (s : Machine) (index : DomainId) (thread kstack : ThreadId) (d : DomainId) :
    ((s.startThread index thread kstack).domains d).state = (s.domains d).state := by
  unfold startThread nextId
  by_cases hid : s.nextObjectId = u64Max <;> by_cases hd : d = index <;>
    simp [hid, hd, initialiseThread, setDomain, chargeParallelism, setThread]

/-- **A build whose image's demand can be met goes through.** -/
theorem raise_of_buildable (index : DomainId) (managed : Bool) (hb : s.Begun scope image) (hn : s.Buildable image)
    (domain : DomainId) :
    ∃ s', raise scope managed image index s = .ok index s' ∧
      SameRoom domain (s.raised index scope managed image) s' ∧ (s'.domains index).state = .building := by
  obtain ⟨thread, hraise⟩ := raise_of_begun index managed hb
  obtain ⟨n, hdemand, hle⟩ := hn
  obtain ⟨m, hm, -, kstack, u, hok, -⟩ | ⟨hlt, -⟩ :=
    buildSpace_needs index image (s.begun index scope managed image)
  · have hkept := buildSpace_kept index image (s.begun index scope managed image)
    rw [hok] at hkept
    have hbuild : build index thread image (s.begun index scope managed image) =
        .ok () (u.startThread index thread kstack) := by
      unfold build
      rw [Fallible.bind_of_ok hok]
      rfl
    have horundo : (build index thread image).orUndo
        (fun s => s.abandonDomain index scope (reservedFor image)) (s.begun index scope managed image) =
        .ok () (u.startThread index thread kstack) := by
      simp [Build.orUndo, hbuild]
    refine ⟨(u.startThread index thread kstack).settleDomain index scope (reservedFor image),
      ?_, ?_, ?_⟩
    · rw [hraise, Fallible.bind_of_ok horundo]
      rfl
    · refine SameRoom.trans ?_ (settleDomain_room _ _ _ _ _)
      refine SameRoom.trans ?_ (startThread_room u index thread kstack domain)
      have hnext : u.nextObjectId = s.nextObjectId + 1 := hkept.nextObjectId
      refine ⟨?_, hkept.owner domain, congrFun hkept.caps domain, hkept.grants, hkept.grantHint, ?_⟩
      · show Scopes.Alike .metadata (s.begun index scope managed image).scopes u.scopes
        exact (show u.scopes = _ from hkept.scopes) ▸ .refl _ _
      · simp only [hnext, raised]
    · have hstate : (u.domains index).state = .building := by
        rw [show (u.domains index).state = _ from hkept.state index]
        simp [begun, openDomain, setDomain]
      have : ((u.startThread index thread kstack).domains index).state = .building := by
        rw [startThread_state, hstate]
      simpa [settleDomain, setDomain, setScope, release] using this
  · exact absurd hle (Nat.not_le_of_lt (hlt n hdemand))

theorem demolish_of_bare {u : Machine} (hthreads : ∀ slot, (u.domains index).threads slot = none)
    (hspace : (u.domains index).space = none) : u.demolish index = u := by
  have hclear : ∀ slot, clearThread index u slot = u := by
    intro slot
    unfold clearThread
    rw [hthreads slot]
  have hdestroy : u.destroySpace index = u := by
    unfold destroySpace
    rw [hspace]
  unfold demolish
  rw [List.foldl_fixed' hclear]
  exact hdestroy

theorem sameTables_abandon {allocator : FrameAllocator} (hempty : (s.domains index).state = .empty)
    (hav : allocator.available s.tlb.safeGeneration = s.availableFrames) :
    SameTables s ({ s.begun index scope managed image with allocator }.abandonDomain index scope
      (reservedFor image)) := by
  have hdemolish : ({ s.begun index scope managed image with allocator } : Machine).demolish index =
      { s.begun index scope managed image with allocator } :=
    demolish_of_bare (fun _ => by simp [begun, openDomain, setDomain, Domain.empty])
      (by simp [begun, openDomain, setDomain, Domain.empty])
  have hscopes : (((s.begun index scope managed image).scopes.release scope .memoryPages
      (reservedFor image)).release scope .metadata 2) = s.scopes := by
    show (((s.scopes.plus (s.scopes.chain scope) .memoryPages (reservedFor image)).plus
      (s.scopes.chain scope) .metadata 2).release scope .memoryPages
      (reservedFor image)).release scope .metadata 2 = s.scopes
    simp only [release_eq, plus_chain, minus_chain]
    rw [minus_plus_comm (by decide), minus_plus, minus_plus]
  unfold abandonDomain
  rw [hdemolish]
  refine { SameTables.refl s with
    scopes := ?_, domains := ?_, caps := ?_, counts := ?_, frames := hav }
  · intro i
    show ((((s.begun index scope managed image).scopes.release scope .memoryPages
      (reservedFor image)).release scope .metadata 2) i).shown = _
    rw [hscopes]
  · intro d
    by_cases hd : d = index
    · subst hd
      simp [clearDomain, setDomain, Domain.shown, Domain.empty, hempty]
    · simp [clearDomain, setDomain, release, begun, openDomain, renew, hd]
  · intro d hused i
    have hd : d ≠ index := by
      rintro rfl
      simp [used, hempty] at hused
    simp [clearDomain, setDomain, release, begun, openDomain, renew, hd]
  · intro o hused
    have ho : o ≠ .domain index := by
      rintro rfl
      simp [used, hempty] at hused
    simp [clearDomain, setDomain, release, begun, openDomain, renew, ho]

/-- **A build that fails takes its frames with it**, unless there were none to take. -/
theorem raise_of_not_buildable (index : DomainId) (managed : Bool) (hb : s.Begun scope image) (hn : ¬ s.Buildable image) :
    ∃ e s', raise scope managed image index s = .error e s' ∧ (s'.domains index).state = .empty ∧
      ((0 < s.availableFrames ∧ s'.availableFrames < s.availableFrames) ∨
        (s.availableFrames = 0 ∧ ((s.domains index).state = .empty → SameTables s s'))) := by
  obtain ⟨thread, hraise⟩ := raise_of_begun index managed hb
  obtain ⟨m, hm, hle, -⟩ | ⟨-, e, u, herr⟩ :=
    buildSpace_needs index image (s.begun index scope managed image)
  · exact absurd ⟨m, hm, hle⟩ hn
  · have hbuild : build index thread image (s.begun index scope managed image) = .error e u := by
      unfold build
      rw [Fallible.bind_of_error herr]
    have horundo : (build index thread image).orUndo
        (fun s => s.abandonDomain index scope (reservedFor image)) (s.begun index scope managed image) =
        .error e (u.abandonDomain index scope (reservedFor image)) := by
      simp [Build.orUndo, hbuild]
    refine ⟨e, u.abandonDomain index scope (reservedFor image), ?_, ?_, ?_⟩
    · rw [hraise, Fallible.bind_of_error horundo]
    · simp [abandonDomain, clearDomain, setDomain, Domain.empty]
    · obtain ⟨hpos, hlt⟩ | ⟨hzero, allocator, rfl, hz⟩ := buildSpace_error herr
      · exact .inl ⟨hpos, lt_of_le_of_lt (abandonDomain_shrinks u index scope _).frames hlt⟩
      · exact .inr ⟨hzero, fun hempty => sameTables_abandon hempty (hz.trans hzero.symm)⟩

end Machine

/-! ### The operation -/

/-- The condition for `domainops::create`.  A dead domain collected for its slot is gone
whatever happens next, and so is every frame a failed build took. -/
def DomainProvided (caller : Caller) (request : DomainCreateRequest) (s : Machine) : Prop :=
  ∀ cap scope, s.resolve caller.domain caller.handle (some .scope) Right.scopeCreate caller.now =
      .ok cap → cap.object.object = .scope scope →
    ∀ source, s.resolve caller.domain request.imageHandle (some .memory) Right.memoryRead
        caller.now = .ok source →
    ∀ image, request.image = some image → (s.scopes scope).state = .opened →
    s.scopes.hasParallelism scope = true →
    ∀ t index, s.takeDomainSlot = (t, some index) →
      (s.domains index).state ≠ .empty ∨ (t.Begun scope image ∧ 0 < t.availableFrames) →
        t.Begun scope image ∧ t.Buildable image ∧
          (t.raised index scope true image).PublishRoom
            ((t.raised index scope true image).domains caller.domain).ownerScope none caller.domain none

variable {s s₀ t : Machine}

theorem LeavesNothing.ofBuild_iff {α β : Type} {b : Build α} {f : α → Op β} :
    LeavesNothing s₀ (Op.ofBuild b >>= f) s ↔
      LeavesNothing s₀ b s ∧ ∀ a t, b s = .ok a t → LeavesNothing s₀ (f a) t := by
  cases hb : b s with
  | ok a t =>
    have hok : Op.ofBuild b s = .ok a t := by simp [Op.ofBuild, hb]
    rw [bind_of_ok hok]
    simp [of_ok hb]
  | error e t =>
    have he : Op.ofBuild b s = .error e.status t := by simp [Op.ofBuild, hb]
    constructor
    · intro h
      refine ⟨?_, fun a t' h' => by cases h'⟩
      intro e' s' he'
      rw [hb] at he'
      obtain ⟨-, rfl⟩ := EStateM.Result.error.inj he'
      exact h _ _ (Fallible.bind_of_error he)
    · rintro ⟨h, -⟩ e' s' he'
      rw [Fallible.bind_of_error he] at he'
      obtain ⟨-, rfl⟩ := EStateM.Result.error.inj he'
      exact h e t hb

theorem LeavesNothing.ofBuild_congr {α β : Type} {x y : Build α} {f : α → Op β} (h : x s = y t) :
    LeavesNothing s₀ (Op.ofBuild x >>= f) s ↔ LeavesNothing s₀ (Op.ofBuild y >>= f) t := by
  rw [ofBuild_iff, ofBuild_iff]
  unfold LeavesNothing
  rw [h]

theorem Machine.Buildable.pos {image : Image} (h : s.Buildable image) : 0 < s.availableFrames := by
  obtain ⟨n, hn, hle⟩ := h
  obtain ⟨m, -, rfl⟩ := map_eq_some_iff.mp hn
  omega

theorem raise_iff {domain : DomainId} {rights : Rights} {scope : ScopeId}
    {image : Image} {index : DomainId} (hslot : s.takeDomainSlot = (t, some index)) :
    LeavesNothing s (Op.ofBuild (Machine.raise scope true image index) >>= fun index => do
        let s ← get
        Op.publish domain ⟨.domain index, s.generation (.domain index)⟩ rights) t ↔
      ((s.domains index).state ≠ .empty ∨ (t.Begun scope image ∧ 0 < t.availableFrames) →
        t.Begun scope image ∧ t.Buildable image ∧
          (t.raised index scope true image).PublishRoom
            ((t.raised index scope true image).domains domain).ownerScope none domain none) := by
  -- A slot that held a dead domain has lost it, whatever it holds now.
  have hgone : ∀ u : Machine, (s.domains index).state = .dead →
      (u.domains index).state ≠ .dead → ¬ SameTables s u := by
    intro u hs hu hsame
    have := hsame.domains index
    unfold Domain.shown at this
    rw [hs] at this
    simp only [reduceCtorEq, if_false] at this
    split at this
    · cases this
    · rw [some.inj this] at hu
      exact hu hs
  have hslot' := Machine.takeDomainSlot_some hslot
  have hbare := Machine.takeDomainSlot_empty hslot
  by_cases hb : t.Begun scope image
  · by_cases hn : t.Buildable image
    · obtain ⟨u, hok, hroom, hstate⟩ := Machine.raise_of_buildable index true hb hn domain
      have hok' : Op.ofBuild (Machine.raise scope true image index) t = .ok index u := by
        simp [Op.ofBuild, hok]
      rw [LeavesNothing.bind_of_ok hok', LeavesNothing.get_iff, LeavesNothing.publish_iff,
        hroom.owner, hroom.publishRoom]
      · simp only [hb, hn, hn.pos, true_and, or_true, true_implies]
      · intro u' hobj hsame
        obtain ⟨hempty, -⟩ | ⟨hdead, -⟩ := hslot'
        · have := hsame.domains index
          rw [hobj.domains] at this
          simp [Domain.shown, hempty, hstate] at this
        · refine hgone u' hdead ?_ hsame
          rw [hobj.domains, hstate]
          decide
    · obtain ⟨e, u, he, hempty, hframes⟩ := Machine.raise_of_not_buildable index true hb hn
      have he' : Op.ofBuild (Machine.raise scope true image index) t = .error e.status u := by
        simp [Op.ofBuild, he]
      simp only [hb, hn, true_and, false_and, imp_false]
      obtain ⟨hs, rfl⟩ | ⟨hdead, -⟩ := hslot'
      · simp only [hs, ne_eq, not_true_eq_false, false_or]
        obtain ⟨hpos, hlt⟩ | ⟨hzero, hsame⟩ := hframes
        · refine iff_of_false (bind_must he' ?_) (fun h => h hpos)
          intro hsame
          exact absurd hsame.frames (Nat.ne_of_lt hlt)
        · simp only [hzero, lt_irrefl, not_false_eq_true, iff_true]
          intro e' s' h
          rw [Fallible.bind_of_error he'] at h
          obtain ⟨-, rfl⟩ := EStateM.Result.error.inj h
          exact hsame hs
      · refine iff_of_false (bind_must he' (hgone u hdead ?_)) (fun h => h ?_)
        · rw [hempty]
          decide
        · exact .inl (by rw [hdead]; decide)
  · obtain ⟨e, he⟩ := Machine.raise_of_not_begun index true hb
    have he' : Op.ofBuild (Machine.raise scope true image index) t = .error e.status t := by
      simp [Op.ofBuild, he]
    simp only [hb, false_and, or_false, imp_false, ne_eq, not_not]
    obtain ⟨hs, rfl⟩ | ⟨hdead, -⟩ := hslot'
    · simp only [hs, iff_true]
      exact LeavesNothing.bind_of_error he'
    · refine iff_of_false (bind_must he' (hgone t hdead ?_)) ?_
      · rw [hbare]
        decide
      · rw [hdead]
        decide

/-! Up to the slot, `create_in` only asks. -/

section Questions

variable {s t : Machine} {scope : ScopeId} {managed : Bool} {image : Image} {index : DomainId}

theorem createIn_none : Machine.createIn none scope managed s = .error .image s := by
  have he : Op.ask (fun _ => (none : Option Image).elim (.error CreateError.image) .ok) s =
      .error .image s := rfl
  exact Fallible.bind_of_error he

theorem createIn_some :
    Machine.createIn (some image) scope managed s =
      (Op.require (fun s => (s.scopes scope).state == .opened) CreateError.scopeClosed >>= fun _ =>
        Op.require (fun s => s.scopes.hasParallelism scope) .limitExhausted >>= fun _ =>
        Op.orElse Machine.takeDomainSlot .domainTableFull >>= fun index =>
        Machine.raise scope managed image index) s := by
  have hok : Op.ask (fun _ => (some image).elim (.error CreateError.image) .ok) s =
      .ok image s := rfl
  unfold Machine.createIn
  rw [Fallible.bind_of_ok hok]

theorem createIn_of_slot (hopen : (s.scopes scope).state = .opened)
    (hpar : s.scopes.hasParallelism scope = true) (hslot : s.takeDomainSlot = (t, some index)) :
    Machine.createIn (some image) scope managed s = Machine.raise scope managed image index t := by
  have h1 : Op.require (fun s => (s.scopes scope).state == .opened) CreateError.scopeClosed s =
      .ok () s := by simp [Op.require, hopen]
  have h2 : Op.require (fun s => s.scopes.hasParallelism scope) CreateError.limitExhausted s =
      .ok () s := by simp [Op.require, hpar]
  have h3 : Op.orElse Machine.takeDomainSlot CreateError.domainTableFull s = .ok index t := by
    simp [Op.orElse, hslot]
  rw [createIn_some, Fallible.bind_of_ok h1, Fallible.bind_of_ok h2, Fallible.bind_of_ok h3]

theorem createIn_refused (h : (s.scopes scope).state = .opened →
      s.scopes.hasParallelism scope = true → s.takeDomainSlot.2 = none) :
    ∃ e, Machine.createIn (some image) scope managed s = .error e s := by
  rw [createIn_some]
  by_cases hopen : (s.scopes scope).state = .opened
  · have h1 : Op.require (fun s => (s.scopes scope).state == .opened) CreateError.scopeClosed s =
        .ok () s := by simp [Op.require, hopen]
    rw [Fallible.bind_of_ok h1]
    by_cases hpar : s.scopes.hasParallelism scope = true
    · have h2 : Op.require (fun s => s.scopes.hasParallelism scope) CreateError.limitExhausted s =
          .ok () s := by simp [Op.require, hpar]
      rw [Fallible.bind_of_ok h2]
      rcases hslot : s.takeDomainSlot with ⟨u, _ | index⟩
      · have h3 : Op.orElse Machine.takeDomainSlot CreateError.domainTableFull s =
            .error .domainTableFull s := by
          simp [Op.orElse, hslot, Machine.takeDomainSlot_none hslot]
        exact ⟨_, Fallible.bind_of_error h3⟩
      · have := h hopen hpar
        rw [hslot] at this
        cases this
    · have h2 : Op.require (fun s => s.scopes.hasParallelism scope) CreateError.limitExhausted s =
          .error .limitExhausted s := by simp [Op.require, hpar]
      exact ⟨_, Fallible.bind_of_error h2⟩
  · have h1 : Op.require (fun s => (s.scopes scope).state == .opened) CreateError.scopeClosed s =
        .error .scopeClosed s := by simp [Op.require, hopen]
    exact ⟨_, Fallible.bind_of_error h1⟩

end Questions

theorem createDomain_iff {caller : Caller} {request : DomainCreateRequest} :
    LeavesNothing s (createDomain caller request) s ↔ DomainProvided caller request s := by
  unfold createDomain DomainProvided
  rw [atScope_iff]
  refine forall_congr' fun cap => forall_congr' fun scope => ?_
  refine imp_congr_right fun _ => imp_congr_right fun _ => ?_
  rw [ask_iff]
  refine forall_congr' fun source => imp_congr_right fun _ => ?_
  cases request.image with
  | none =>
    have he : Op.ofBuild (Machine.createIn none scope true) s = .error Status.invalidArgument s := by
      simp [Op.ofBuild, createIn_none, CreateError.status]
    simp [LeavesNothing.bind_of_error he]
  | some image =>
    simp only [some.injEq, forall_eq']
    by_cases hgo : (s.scopes scope).state = .opened ∧ s.scopes.hasParallelism scope = true ∧
        s.takeDomainSlot.2.isSome = true
    · obtain ⟨hopen, hpar, hsome⟩ := hgo
      rcases hslot : s.takeDomainSlot with ⟨t, _ | index⟩
      · rw [hslot] at hsome
        cases hsome
      · simp only [hopen, hpar, true_implies, Prod.mk.injEq, some.injEq, and_imp,
          forall_apply_eq_imp_iff, forall_eq']
        rw [ofBuild_congr (createIn_of_slot hopen hpar hslot)]
        exact raise_iff hslot
    · obtain ⟨e, he⟩ : ∃ e, Machine.createIn (some image) scope true s = .error e s := by
        refine createIn_refused fun hopen hpar => ?_
        by_contra hne
        exact hgo ⟨hopen, hpar, isSome_iff_ne_none.mpr hne⟩
      have he' : Op.ofBuild (Machine.createIn (some image) scope true) s =
          .error e.status s := by
        simp [Op.ofBuild, he]
      refine iff_of_true (LeavesNothing.bind_of_error he') ?_
      intro hopen hpar t index hslot
      exact absurd ⟨hopen, hpar, by rw [hslot]; rfl⟩ hgo

end Thalyx.Kernel
