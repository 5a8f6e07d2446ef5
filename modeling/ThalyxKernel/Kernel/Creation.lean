/-
When a creation that fails leaves nothing behind.

For each operation there is a condition on the machine it begins in: the operation is
refused before it has made anything, or the steps that follow the point where it has all
have room.  Under that condition, and only under it, a failure leaves the tables as they
were.
-/
import ThalyxKernel.Kernel.Leftovers

namespace Thalyx.Kernel

open Fallible LeavesNothing Machine Scopes Function List

/-! ### Objects that cost one unit -/

/-- The grant and the entry of a new object have room once its unit is charged, if it comes
so far that the object is made. -/
def Machine.Followed (s : Machine) (domain : DomainId) (sponsor : ScopeId) (slot : Bool) : Prop :=
  (s.scopes sponsor).state = .opened → slot = true → s.IdentityRoom sponsor →
    (s.charged sponsor).PublishRoom (s.domains domain).ownerScope none domain none

variable {sponsor : ScopeId}
variable {domain target : DomainId}

/-- **What one creation of this kind leaves, for all of them.**  `write` makes an object of
the slot and touches nothing the grant and the entry depend on. -/
theorem LeavesNothing.make_iff {ι : Type} {s : Machine}
    {slot : Machine → Option ι} {write : ι → Nat → Machine → Machine} {object : ι → Obj}
    {rights : Rights} (hmade : ∀ i, slot s = some i → ∀ s',
      SameObjects (write i s.nextObjectId (s.charged sponsor)) s' → ¬ SameTables s s')
    (hroom : ∀ i id t, Machine.SameRoom domain t (write i id t)) :
    LeavesNothing s (Op.make domain sponsor slot write object rights) s ↔
      s.Followed domain sponsor (slot s).isSome := by
  unfold Op.make Machine.Followed
  rw [require_iff]
  simp only [beq_iff_eq]
  refine imp_congr_right fun _ => ?_
  rw [find_iff]
  cases hslot : slot s with
  | none => simp
  | some i =>
    simp only [Option.some.injEq, forall_eq', Option.isSome_some, true_implies]
    rw [identity_iff]
    refine imp_congr_right fun room => ?_
    rw [modify_iff, get_iff, publish_iff (hmade i hslot), (hroom i _ _).owner]
    exact (hroom i _ _).publishRoom

/-- The condition for `create_endpoint`. -/
def EndpointProvided (caller : Caller) (request : EndpointCreateRequest) (s : Machine) : Prop :=
  ∀ cap i, s.resolve caller.domain caller.handle (some .scope) Right.scopeCreate caller.now =
      .ok cap → cap.object.object = .scope i →
    request.reserved0 = 0 → request.queueCapacity ≠ 0 →
    request.queueCapacity ≤ maxEndpointQueue →
      s.Followed caller.domain i s.endpointSlot.isSome

/-- The condition for `create_signal`. -/
def SignalProvided (caller : Caller) (s : Machine) : Prop :=
  ∀ cap i, s.resolve caller.domain caller.handle (some .scope) Right.scopeCreate caller.now =
      .ok cap → cap.object.object = .scope i →
    s.Followed caller.domain i s.signalSlot.isSome

/-- The condition for `create_timer`. -/
def TimerProvided (caller : Caller) (request : TimerCreateRequest) (s : Machine) : Prop :=
  ∀ cap i, s.resolve caller.domain caller.handle (some .scope) Right.scopeCreate caller.now =
      .ok cap → cap.object.object = .scope i →
    ∀ signal j, s.resolve caller.domain request.signalHandle (some .signal) Right.signalRaise
        caller.now = .ok signal → signal.object.object = .signal j →
      request.bits ≠ 0 → s.Followed caller.domain i s.timerSlot.isSome

variable {s : Machine} {caller : Caller}

theorem createEndpoint_iff {request : EndpointCreateRequest} :
    LeavesNothing s (createEndpoint caller request) s ↔ EndpointProvided caller request s := by
  unfold createEndpoint EndpointProvided
  rw [atScope_iff]
  refine forall_congr' fun cap => forall_congr' fun i => ?_
  refine imp_congr_right fun _ => imp_congr_right fun _ => ?_
  rw [require_iff, require_iff, make_iff]
  · simp
  · intro j hj s' hobj hsame
    have hused : (s.endpoints j).used = false := by
      have := find?_some hj
      simpa using this
    have := hsame.endpoints j
    rw [hobj.endpoints] at this
    simp [Machine.openEndpoint, Machine.setEndpoint, Endpoint.shown, hused] at this
  · exact fun _ _ t => ⟨.refl _ t.scopes, rfl, rfl, rfl, rfl, rfl⟩

theorem createSignal_iff : LeavesNothing s (createSignal caller) s ↔ SignalProvided caller s := by
  unfold createSignal SignalProvided
  rw [atScope_iff]
  refine forall_congr' fun cap => forall_congr' fun i => ?_
  refine imp_congr_right fun _ => imp_congr_right fun _ => ?_
  rw [make_iff]
  · intro j hj s' hobj hsame
    have hused : (s.signals j).used = false := by
      have := find?_some hj
      simpa using this
    have := hsame.signals j
    rw [hobj.signals] at this
    simp [Machine.openSignal, Signal.shown, hused] at this
  · exact fun _ _ t => ⟨.refl _ t.scopes, rfl, rfl, rfl, rfl, rfl⟩

theorem createTimer_iff {request : TimerCreateRequest} :
    LeavesNothing s (createTimer caller request) s ↔ TimerProvided caller request s := by
  unfold createTimer TimerProvided
  rw [atScope_iff]
  refine forall_congr' fun cap => forall_congr' fun i => ?_
  refine imp_congr_right fun _ => imp_congr_right fun _ => ?_
  rw [ask_iff]
  refine forall_congr' fun signal => ?_
  rw [forall_comm]
  refine imp_congr_right fun _ => ?_
  have hwrite : ∀ j, LeavesNothing s (Op.require (fun _ => request.bits != 0) Status.invalidArgument >>=
      fun _ => Op.make caller.domain i Machine.timerSlot
        (Machine.openTimer i j signal.object.generation request.bits) .timer
        (ObjKind.rightsMask .timer)) s ↔
      (request.bits ≠ 0 → s.Followed caller.domain i s.timerSlot.isSome) := by
    intro j
    rw [require_iff, make_iff]
    · simp
    · intro k hk s' hobj hsame
      have hused : (s.timers k).used = false := by
        have := find?_some hk
        simpa using this
      have := hsame.timers k
      rw [hobj.timers] at this
      simp [Machine.openTimer, Timer.shown, hused] at this
    · exact fun _ _ t => ⟨.refl _ t.scopes, rfl, rfl, rfl, rfl, rfl⟩
  unfold Resolved.signal
  cases hj : signal.object.object with
  | signal j => simpa [pure_iff] using hwrite j
  | _ => simp [LeavesNothing.bind_of_error (throw_run Status.wrongType s)]

/-! ### Memory -/

/-- The condition for `memops::create`.  Here the frames are taken before the identity is
drawn, and nothing is returned when there is none. -/
def MemoryProvided (caller : Caller) (request : MemoryCreateRequest) (s : Machine) : Prop :=
  ∀ cap i, s.resolve caller.domain caller.handle (some .scope) Right.scopeCreate caller.now =
      .ok cap → cap.object.object = .scope i →
    request.reserved0 = 0 → request.pages ≠ 0 → request.pages ≤ maxObjectPages →
    request.maxRights.within (ObjKind.rightsMask .memory) = true →
    (s.scopes i).state = .opened → s.memorySlot.isSome = true →
    (s.scopes.reserve i .metadata 1).isSome = true →
    (s.scopes.reserve i .memoryPages request.pages).isSome = true →
    (s.allocator.allocContiguous s.tlb.safeGeneration request.pages (.scope i)).2.isSome = true →
      s.nextObjectId ≠ u64Max ∧
        (s.charged i).PublishRoom (s.domains caller.domain).ownerScope none caller.domain none

theorem SameTables.of_allocator {allocator : FrameAllocator}
    (h : allocator.available s.tlb.safeGeneration = s.availableFrames) :
    SameTables s { s with allocator } :=
  { SameTables.refl s with frames := h }

/-- The machine with a memory object's unit and pages charged. -/
def Machine.paged (s : Machine) (i : ScopeId) (pages : Nat) : Machine :=
  { s with
    scopes := (s.scopes.plus (s.scopes.chain i) .metadata 1).plus (s.scopes.chain i)
      .memoryPages pages }

/-- What follows the two reservations of `memops::create`. -/
def finishMemory (domain : DomainId) (request : MemoryCreateRequest) (i : ScopeId)
    (index : MemoryId) : Op Handle := do
  let base ← Op.allocPages i request.pages
  let id ← Op.nextId id Status.limitExhausted
  modify (Machine.openMemory i base request index id)
  let s ← get
  Op.publish domain ⟨.memory index, s.generation (.memory index)⟩
    (request.maxRights ||| commonRights)

variable {request : MemoryCreateRequest}

theorem finishMemory_iff {i : ScopeId} {index : MemoryId} (hindex : s.memorySlot = some index)
    (hopen : (s.scopes i).state = .opened) :
    LeavesNothing s (finishMemory domain request i index) (s.paged i request.pages) ↔
      ((s.allocator.allocContiguous s.tlb.safeGeneration request.pages (.scope i)).2.isSome = true →
        s.nextObjectId ≠ u64Max ∧
          (s.charged i).PublishRoom (s.domains domain).ownerScope none domain none) := by
  unfold finishMemory
  rcases ha : s.allocator.allocContiguous s.tlb.safeGeneration request.pages (.scope i)
    with ⟨allocator, _ | base⟩
  · -- Both reservations go back, and the drain changes no count.
    simp only [Option.isSome_none, Bool.false_eq_true, false_imp_iff, iff_true]
    have he : Op.allocPages i request.pages (s.paged i request.pages) =
        .error Status.limitExhausted { s with allocator } := by
      simp only [Op.allocPages, Machine.paged, ha, Machine.release, release_eq,
        plus_chain, minus_chain]
      rw [minus_plus_comm (by decide), minus_plus, minus_plus]
    intro e s' h
    rw [Fallible.bind_of_error he] at h
    obtain ⟨-, rfl⟩ := EStateM.Result.error.inj h
    exact .of_allocator (FrameAllocator.allocContiguous_none ha)
  · simp only [Option.isSome_some, true_implies]
    have hok : Op.allocPages i request.pages (s.paged i request.pages) =
        .ok base { s.paged i request.pages with allocator } := by
      simp [Op.allocPages, Machine.paged, ha]
    rw [LeavesNothing.bind_of_ok hok]
    by_cases hid : s.nextObjectId = u64Max
    · -- The unit and the pages stay charged.
      have he : Op.nextId id Status.limitExhausted { s.paged i request.pages with allocator } =
          .error Status.limitExhausted { s.paged i request.pages with allocator } := by
        simp [Op.nextId, Machine.nextId, Machine.paged, hid]
      refine iff_of_false (bind_must he ?_) fun h => h.1 hid
      intro hsame
      have hused := congrArg (fun node => node.used .metadata)
        (hsame.scope_eq (i := i) (by simp [hopen]))
      exact plus_used_ne s.scopes i .metadata
        (by simpa [Machine.paged, Scopes.plus] using hused)
    · have hok : Op.nextId id Status.limitExhausted { s.paged i request.pages with allocator } =
          .ok s.nextObjectId { s.paged i request.pages with
            allocator, nextObjectId := s.nextObjectId + 1 } := by
        simp [Op.nextId, Machine.nextId, Machine.paged, hid]
      rw [LeavesNothing.bind_of_ok hok, modify_iff, LeavesNothing.get_iff,
        publish_iff]
      · have hroom : Machine.SameRoom domain (s.charged i)
            (Machine.openMemory i base request index s.nextObjectId
              { s.paged i request.pages with
                allocator, nextObjectId := s.nextObjectId + 1 }) :=
          ⟨.plus_other (by decide) _ _, rfl, rfl, rfl, rfl, rfl⟩
        refine Iff.trans hroom.publishRoom ?_
        exact ⟨fun h => ⟨hid, h⟩, fun h => h.2⟩
      · intro s' hobj hsame
        have hempty : (s.memories index).state = .empty := by
          have := find?_some hindex
          simpa using this
        have := hsame.memories index
        rw [hobj.memories] at this
        simp [Machine.openMemory, Machine.setMemory, MemoryObject.shown, hempty] at this

theorem createMemory_iff :
    LeavesNothing s (createMemory caller request) s ↔ MemoryProvided caller request s := by
  unfold createMemory MemoryProvided
  rw [atScope_iff]
  refine forall_congr' fun cap => forall_congr' fun i => ?_
  refine imp_congr_right fun _ => imp_congr_right fun _ => ?_
  rw [require_iff, require_iff, require_iff,
    require_iff, find_iff]
  simp only [beq_iff_eq, bne_iff_ne, Bool.and_eq_true, decide_eq_true_eq, and_imp, ne_eq]
  refine imp_congr_right fun _ => imp_congr_right fun _ => imp_congr_right fun _ =>
    imp_congr_right fun _ => imp_congr_right fun hopen => ?_
  cases hindex : s.memorySlot with
  | none => simp
  | some index =>
    simp only [Option.some.injEq, forall_eq', Option.isSome_some, true_implies]
    rw [reserve_iff fun _ => .refl s]
    cases hmeta : s.scopes.reserve i .metadata 1 with
    | none => simp
    | some scopes =>
      simp only [Option.some.injEq, forall_eq', Option.isSome_some, true_implies]
      have hs := reserve_eq hmeta
      have halike : Scopes.Alike .memoryPages s.scopes scopes :=
        hs ▸ .plus_other (by decide) _ _
      rw [reserve_iff, ← halike.reserve_isSome]
      · cases hpages : scopes.reserve i .memoryPages request.pages with
        | none => simp
        | some scopes' =>
          simp only [Option.some.injEq, forall_eq', Option.isSome_some, true_implies]
          have hs' := reserve_eq hpages
          rw [hs, plus_chain] at hs'
          rw [hs']
          exact finishMemory_iff hindex hopen
      · intro _
        show SameTables s { s with scopes := scopes.release i .metadata 1 }
        rw [release_reserve hmeta]
        exact .refl s

/-! ### Facets -/

/-- The condition for `bind_facet`.  The endpoint's facet counters are moved before the
grant is allocated, and never moved back. -/
def FacetProvided (caller : Caller) (request : BindFacetRequest) (s : Machine) : Prop :=
  ∀ cap i, s.resolve caller.domain caller.handle (some .endpoint) Right.endpointBind caller.now =
      .ok cap → cap.object.object = .endpoint i →
    request.reserved0 = 0 → request.facet = 0 → request.rightsMask.within cap.rights = true →
    request.rightsMask.within (ObjKind.rightsMask .endpoint) = true →
    deadlineFits request.deadlineNs (s.grants cap.grant).deadlineNs →
    (s.endpoints i).nextFacet ≠ u64Max →
      s.PublishRoom (s.domains caller.domain).ownerScope (some cap.grant) caller.domain none

theorem bindFacet_iff {request : BindFacetRequest} :
    LeavesNothing s (bindFacet caller request) s ↔ FacetProvided caller request s := by
  unfold bindFacet FacetProvided
  rw [atEndpoint_iff]
  refine forall_congr' fun cap => forall_congr' fun i => ?_
  refine imp_congr_right fun hcap => imp_congr_right fun hobject => ?_
  rw [require_iff, require_iff, require_iff,
    LeavesNothing.get_iff, deadline_iff, require_iff,
    LeavesNothing.get_iff, modify_iff, LeavesNothing.get_iff]
  simp only [beq_iff_eq, bne_iff_ne, Bool.and_eq_true, and_imp, ne_eq]
  refine imp_congr_right fun _ => imp_congr_right fun _ => imp_congr_right fun _ =>
    imp_congr_right fun _ => imp_congr_right fun _ => imp_congr_right fun _ => ?_
  rw [grant_entry_iff]
  · have hroom : Machine.SameRoom caller.domain s (s.setEndpoint i fun e =>
        { e with nextFacet := e.nextFacet + 1, facets := e.facets + 1 }) :=
      ⟨.refl _ _, rfl, rfl, rfl, rfl, rfl⟩
    exact hroom.publishRoom
  · intro s' hobj hsame
    have hused : (s.endpoints i).used = true := by
      have := (resolve_used hcap).1
      rw [hobject] at this
      exact this
    have := hsame.endpoint_eq hused
    rw [hobj.endpoints] at this
    have hnext := congrArg Endpoint.nextFacet this
    simp [Machine.setEndpoint] at hnext

/-! ### Scopes -/

/-- **How a slot for a new scope is found**: it was empty and nothing changes, or it held a
retired scope, which is gone. -/
theorem Machine.takeScopeSlot_some {t : Machine} {i : ScopeId} (h : s.takeScopeSlot = (t, some i)) :
    ((s.scopes i).state = .empty ∧ t = s) ∨
      (s.retiredCollectable i = true ∧ t = s.collectRetired i ∧
        ∀ j, (s.scopes j).state ≠ .empty) := by
  unfold takeScopeSlot at h
  cases he : (List.finRange maxScopes).find? fun i => (s.scopes i).state == .empty with
  | some j =>
    simp only [he, Prod.mk.injEq, Option.some.injEq] at h
    obtain ⟨rfl, rfl⟩ := h
    have := find?_some he
    exact .inl ⟨by simpa using this, rfl⟩
  | none =>
    have hall : ∀ j, (s.scopes j).state ≠ .empty := by
      intro j hj
      have := find?_eq_none.mp he j (mem_finRange j)
      simp [hj] at this
    cases hr : (List.finRange maxScopes).find? s.retiredCollectable with
    | none => simp [he, hr] at h
    | some j =>
      simp only [he, hr, Prod.mk.injEq, Option.some.injEq] at h
      obtain ⟨rfl, rfl⟩ := h
      exact .inr ⟨find?_some hr, rfl, hall⟩

theorem Machine.takeScopeSlot_none {t : Machine} (h : s.takeScopeSlot = (t, none)) : t = s := by
  unfold takeScopeSlot at h
  split at h
  · simp at h
  · split at h
    · simp at h
    · exact (Prod.mk.inj h).1.symm

/-- The condition for `create_child`.  A retired scope collected for its slot is gone
whatever happens next. -/
def ChildProvided (caller : Caller) (request : ScopeCreateRequest) (s : Machine) : Prop :=
  ∀ cap parent, s.resolve caller.domain caller.handle (some .scope) Right.scopeLimit caller.now =
      .ok cap → cap.object.object = .scope parent →
    request.reserved0 = 0 → (s.scopes parent).state = .opened →
    (s.scopes parent).depth + 1 < maxScopeDepth →
    request.limits.fits (s.scopes parent).limits = true →
    ∀ t i, s.takeScopeSlot = (t, some i) →
      (s.scopes i).state ≠ .empty ∨ t.IdentityRoom parent →
        t.IdentityRoom parent ∧
          ((t.charged parent).openScope i parent t.nextObjectId ((s.scopes parent).depth + 1)
            request.limits).PublishRoom (t.domains caller.domain).ownerScope none caller.domain none

theorem openScope_state (t : Machine) (i parent : ScopeId) (id depth : Nat) (limits : Limits) :
    ((t.openScope i parent id depth limits).scopes i).state = .opened := by
  unfold Machine.openScope Machine.setScope Scopes.set
  by_cases h : i = parent
  · subst h
    simp
  · simp [h]

theorem createChild_iff {request : ScopeCreateRequest} :
    LeavesNothing s (createChild caller request) s ↔ ChildProvided caller request s := by
  unfold createChild ChildProvided
  rw [atScope_iff]
  refine forall_congr' fun cap => forall_congr' fun parent => ?_
  refine imp_congr_right fun _ => imp_congr_right fun _ => ?_
  rw [require_iff, require_iff, require_iff,
    require_iff, LeavesNothing.get_iff]
  simp only [beq_iff_eq, decide_eq_true_eq]
  refine imp_congr_right fun _ => imp_congr_right fun _ => imp_congr_right fun _ =>
    imp_congr_right fun _ => ?_
  rcases hslot : s.takeScopeSlot with ⟨t, _ | i⟩
  · have he : Op.orElse Machine.takeScopeSlot Status.limitExhausted s = .error Status.limitExhausted s := by
      simp [Op.orElse, hslot, takeScopeSlot_none hslot]
    simp [LeavesNothing.bind_of_error he]
  · have hok : Op.orElse Machine.takeScopeSlot Status.limitExhausted s = .ok i t := by
      simp [Op.orElse, hslot]
    rw [LeavesNothing.bind_of_ok hok]
    simp only [Prod.mk.injEq, Option.some.injEq, and_imp, forall_apply_eq_imp_iff, forall_eq']
    -- The opened scope is not in the table of `s`, nor is the slot's old occupant.
    have hmade : ∀ u, (u.scopes i).state = .opened → ¬ SameTables s u := by
      intro u hu hsame
      have hstate : (s.scopes i).state = .empty ∨ (s.scopes i).state = .retired := by
        obtain ⟨h, -⟩ | ⟨h, -, -⟩ := takeScopeSlot_some hslot
        · exact .inl h
        · simp only [Machine.retiredCollectable, Bool.and_eq_true, beq_iff_eq] at h
          exact .inr h.1.1.1
      obtain h | h := hstate
      · have := hsame.scopes i
        simp [Scope.shown, h, hu] at this
      · have := hsame.scope_eq (i := i) (by simp [h])
        rw [this, h] at hu
        cases hu
    by_cases room : t.IdentityRoom parent
    · rw [LeavesNothing.bind_of_ok (Op.identity_of_room room), modify_iff,
        LeavesNothing.get_iff, publish_iff]
      · simp only [room, or_true, true_implies, true_and]
        rfl
      · intro u hobj
        refine hmade u ?_
        rw [hobj.scopes i]
        exact openScope_state _ _ _ _ _ _
    · simp only [room, or_false, false_and, imp_false, ne_eq, not_not]
      obtain ⟨hempty, rfl⟩ | ⟨hret, rfl, -⟩ := takeScopeSlot_some hslot
      · simp only [hempty, iff_true]
        exact LeavesNothing.bind_of_error (Op.identity_of_no_room room)
      · -- The slot's old occupant is gone.
        simp only [Machine.retiredCollectable, Bool.and_eq_true, beq_iff_eq] at hret
        simp only [hret.1.1.1, reduceCtorEq, iff_false]
        refine bind_must (Op.identity_of_no_room room) ?_
        intro hsame
        have := hsame.scopes i
        simp [Scope.shown, hret.1.1.1, Machine.collectRetired, Scopes.reset, Scopes.set,
          Scope.empty] at this

/-! ### Derivation -/

theorem SameTables.of_nextObjectId (n : Nat) : SameTables s { s with nextObjectId := n } :=
  { SameTables.refl s with }

theorem derivedLife_run (ctx : Ctx) (parent : Grant) (handle : Handle) :
    (∃ life, derivedLife ctx parent handle s = .ok life s) ∨
      ∃ e, derivedLife ctx parent handle s = .error e s := by
  unfold derivedLife
  by_cases hz : handle = .zero
  · rw [if_pos hz]
    exact .inl ⟨_, rfl⟩
  · rw [if_neg hz]
    cases hr : s.resolve ctx.domain handle (some .scope) Right.inspect ctx.now with
    | error e =>
      have he : Op.ask (fun s => s.resolve ctx.domain handle (some .scope) Right.inspect
          ctx.now) s = .error e s := by simp [Op.ask, hr]
      exact .inr ⟨e, Fallible.bind_of_error he⟩
    | ok cap =>
      have hok : Op.ask (fun s => s.resolve ctx.domain handle (some .scope) Right.inspect
          ctx.now) s = .ok cap s := by simp [Op.ask, hr]
      rw [Fallible.bind_of_ok hok]
      cases cap.object.object with
      | scope i => exact .inl ⟨_, rfl⟩
      | _ => exact .inr ⟨_, rfl⟩

theorem sameTables_undoDerive (domain : DomainId) {parent g : GrantId} {node : Grant}
    {table : CapTable} (hp : (s.grants parent).used = true) (hg : (s.grants g).used = false)
    (hnode : node.parent = some parent) (htable : ∀ i, (table i).held = (s.caps domain i).held) :
    SameTables s (({ s.granted g node with
      caps := update s.caps domain table } : Machine).undoDerive parent g) := by
  have hne : parent ≠ g := by
    rintro rfl
    rw [hp] at hg
    cases hg
  have hscopes : (({ s.granted g node with
      caps := update s.caps domain table } : Machine).undoDerive parent g).scopes =
      s.scopes := by
    simp [Machine.undoDerive, Machine.granted, Machine.setGrantOf, Machine.setGrant, hnode,
      Machine.release, release_eq]
  have hgrants : ∀ i, ((({ s.granted g node with
      caps := update s.caps domain table } : Machine).undoDerive parent g).grants i).shown =
      (s.grants i).shown := by
    intro i
    by_cases hi : i = g
    · subst hi
      simp [Machine.undoDerive, Machine.setGrant, Machine.release, Grant.shown, Grant.empty, hg]
    · by_cases hip : i = parent
      · subst hip
        simp [Machine.undoDerive, Machine.granted, Machine.setGrantOf, Machine.setGrant, hnode,
          hi, Machine.release]
      · simp [Machine.undoDerive, Machine.granted, Machine.setGrantOf, Machine.setGrant, hnode,
          hi, Machine.release]
  refine { SameTables.refl s with scopes := ?_, grants := hgrants, caps := ?_ }
  · intro i
    rw [hscopes]
  · intro d _ i
    by_cases hd : d = domain
    · subst hd
      simpa [Machine.undoDerive, Machine.setGrant, Machine.release] using htable i
    · simp [Machine.undoDerive, Machine.setGrant, Machine.release, hd]

/-- **A derivation that fails leaves nothing behind**, whatever the machine. -/
theorem derive_leavesNothing (s : Machine) (caller : Caller) (request : DeriveRequest) :
    LeavesNothing s (derive caller request) s := by
  unfold derive
  rw [enter_iff]
  intro cap hcap
  rw [require_iff, LeavesNothing.get_iff, require_iff,
    require_iff, deadline_iff]
  intro _ _ _ _
  obtain ⟨life, hlife⟩ | ⟨e, hlife⟩ :=
    derivedLife_run (s := s) { caller with cap } (s.grants cap.grant) request.lifeScope
  · rw [LeavesNothing.bind_of_ok hlife, LeavesNothing.get_iff, LeavesNothing.bind_iff]
    refine ⟨?_, ?_⟩
    · intro e s' he
      unfold Op.orElse at he
      split at he
      · cases he
      · rename_i s'' hg
        obtain ⟨-, rfl⟩ := EStateM.Result.error.inj he
        obtain rfl | rfl := (grantAlloc_none hg).2
        · exact .refl _
        · exact .of_nextObjectId _
    · intro g t hok e s' he
      unfold Op.orElse at hok
      split at hok
      · rename_i t' g' hg
        obtain ⟨rfl, rfl⟩ := EStateM.Result.ok.inj hok
        obtain ⟨-, hfree, rfl⟩ := grantAlloc_some hg
        unfold Op.orUndo at he
        split at he
        · cases he
        · rename_i t'' hc
          obtain ⟨-, rfl⟩ := EStateM.Result.error.inj he
          obtain ⟨table, htable, rfl⟩ := capInstall_none hc
          exact sameTables_undoDerive _ (resolve_used hcap).2
            (freeGrantNode_unused hfree) rfl htable
      · cases hok
  · exact LeavesNothing.bind_of_error hlife

/-! ### Installing in a domain that is being built -/

/-- No other domain holds the receive side the installation would claim. -/
def ClaimFree (s : Machine) (target : DomainId) (object : Obj) (rights : Rights) : Prop :=
  ∀ e, object = .endpoint e → rights &&& Right.endpointReceive ≠ 0#32 →
    (s.endpoints e).receiverDomain.all (· == target) = true

/-- The target already holds it. -/
def ClaimHeld (s : Machine) (target : DomainId) (object : Obj) (rights : Rights) : Prop :=
  ∀ e, object = .endpoint e → rights &&& Right.endpointReceive ≠ 0#32 →
    (s.endpoints e).receiverDomain = some target ∧
      (s.endpoints e).receiverGeneration = s.generation (.domain target)

/-- The condition for `install_cap`.  A copy leaves at most a claim behind; a narrower grant
stays allocated when the claim conflicts or the entry has no room. -/
def InstallProvided (caller : Caller) (request : InstallCapRequest) (s : Machine) : Prop :=
  ∀ cap target, s.resolve caller.domain caller.handle (some .domain) Right.domainBuild
      caller.now = .ok cap → cap.object.object = .domain target →
    (s.domains target).state = .building → ∀ h : request.targetSlot < maxCaps,
    ∀ source, s.resolve caller.domain request.sourceHandle none Right.transfer caller.now =
        .ok source →
      (request.rightsMask = 0#32 ∧ request.deadlineNs = 0 →
        ClaimFree s target source.object.object source.rights →
          ClaimHeld s target source.object.object source.rights ∨
            s.EntryRoom target (some ⟨request.targetSlot, h⟩)) ∧
      (¬ (request.rightsMask = 0#32 ∧ request.deadlineNs = 0) →
        request.rightsMask.within source.rights = true →
        deadlineFits request.deadlineNs (s.grants source.grant).deadlineNs →
        s.GrantRoom (s.domains target).ownerScope (some source.grant) →
          ClaimFree s target source.object.object request.rightsMask ∧
            s.PublishRoom (s.domains target).ownerScope (some source.grant) target
              (some ⟨request.targetSlot, h⟩))

/-- The machine once the receive side is claimed, where there is one to claim. -/
def Machine.claimed (s : Machine) (target : DomainId) (object : Obj) (rights : Rights) : Machine :=
  match object with
  | .endpoint e =>
    if rights &&& Right.endpointReceive ≠ 0#32 then
      s.setEndpoint e fun x =>
        { x with
          receiverDomain := some target
          receiverGeneration := s.generation (.domain target) }
    else s
  | _ => s

theorem claimFor_run (s : Machine) (target : DomainId) (object : Obj) (rights : Rights) :
    (ClaimFree s target object rights ∧
        claimFor target object rights s = .ok () (s.claimed target object rights)) ∨
      (¬ ClaimFree s target object rights ∧
        claimFor target object rights s = .error Status.stateConflict s) := by
  cases object with
  | endpoint e =>
    by_cases hr : rights &&& Right.endpointReceive ≠ 0#32
    · by_cases hall : (s.endpoints e).receiverDomain.all (· == target) = true
      · refine .inl ⟨fun e' he _ => Obj.endpoint.inj he ▸ hall, ?_⟩
        simp only [claimFor, Machine.claimed, hr, ne_eq, not_false_eq_true, if_true]
        have : Op.require (fun s => (s.endpoints e).receiverDomain.all (· == target))
            Status.stateConflict s = .ok () s := by simp [Op.require, hall]
        exact Fallible.bind_of_ok this
      · refine .inr ⟨fun h => hall (h e rfl hr), ?_⟩
        simp only [claimFor, hr, ne_eq, not_false_eq_true, if_true]
        have : Op.require (fun s => (s.endpoints e).receiverDomain.all (· == target))
            Status.stateConflict s = .error Status.stateConflict s := by simp [Op.require, hall]
        exact Fallible.bind_of_error this
    · refine .inl ⟨fun e' _ h => absurd h hr, ?_⟩
      simp only [claimFor, Machine.claimed, hr, if_false]
      rfl
  | _ => exact .inl ⟨fun e' he => (by cases he), rfl⟩

theorem Machine.claimed_eq (s : Machine) (target : DomainId) (object : Obj) (rights : Rights) :
    ∃ endpoints, s.claimed target object rights = { s with endpoints } := by
  unfold claimed
  cases object with
  | endpoint e =>
    by_cases hr : rights &&& Right.endpointReceive ≠ 0#32
    · simp only [hr, ne_eq, not_false_eq_true, if_true]
      exact ⟨_, rfl⟩
    · simp only [hr, if_false]
      exact ⟨_, rfl⟩
  | _ => exact ⟨_, rfl⟩

theorem claimed_eq_iff (target : DomainId) {object : Obj} (rights : Rights)
    (hused : s.used object = true) :
    (∀ e, (((s.claimed target object rights).endpoints e).shown = (s.endpoints e).shown)) ↔
      ClaimHeld s target object rights := by
  unfold Machine.claimed ClaimHeld
  cases object with
  | endpoint e =>
    by_cases hr : rights &&& Right.endpointReceive ≠ 0#32
    · simp only [hr, ne_eq, not_false_eq_true, if_true, Obj.endpoint.injEq, forall_eq',
        true_implies]
      have hu : (s.endpoints e).used = true := hused
      constructor
      · intro h
        have := h e
        simp only [Machine.setEndpoint, update_self, Endpoint.shown, hu, if_true,
          Option.some.injEq] at this
        have h1 := congrArg Endpoint.receiverDomain this
        have h2 := congrArg Endpoint.receiverGeneration this
        exact ⟨h1.symm, h2.symm⟩
      · rintro ⟨h1, h2⟩ e'
        by_cases he : e' = e
        · subst he
          simp only [Machine.setEndpoint, update_self, ← h1, ← h2]
        · simp [Machine.setEndpoint, he]
    · simp [hr]
  | _ => simp

variable {source : Resolved}

theorem copy_iff {at? : Option CapSlot} (hused : s.used source.object.object = true) :
    LeavesNothing s (claimFor target source.object.object source.rights >>= fun _ =>
        Op.orElse (fun s => s.capInstall target source.object (some source.grant) at?)
          Status.limitExhausted) s ↔
      (ClaimFree s target source.object.object source.rights →
        ClaimHeld s target source.object.object source.rights ∨ s.EntryRoom target at?) := by
  obtain ⟨hfree, hok⟩ | ⟨hno, he⟩ := claimFor_run s target source.object.object source.rights
  · simp only [hfree, true_implies]
    rw [LeavesNothing.bind_of_ok hok]
    obtain ⟨endpoints, heq⟩ := s.claimed_eq target source.object.object source.rights
    have hheld := claimed_eq_iff target source.rights hused
    rw [heq] at hheld ⊢
    by_cases room : s.EntryRoom target at?
    · simp only [room, or_true, iff_true]
      have room' : ({ s with endpoints } : Machine).EntryRoom target at? :=
        ⟨room.charge, room.slot⟩
      obtain ⟨s', handle, hc⟩ :=
        capInstall_of_entryRoom source.object (some source.grant) room'
      exact of_ok (a := handle) (t := s') (by simp [Op.orElse, hc])
    · simp only [room, or_false]
      rcases hc : ({ s with endpoints } : Machine).capInstall target source.object
        (some source.grant) at? with ⟨s', _ | handle⟩
      · obtain ⟨table, htable, rfl⟩ := capInstall_none hc
        have he : Op.orElse (fun s => s.capInstall target source.object (some source.grant) at?)
            Status.limitExhausted { s with endpoints } = .error Status.limitExhausted
              { s with endpoints, caps := update s.caps target table } := by
          simp [Op.orElse, hc]
        rw [← hheld]
        constructor
        · intro h
          exact (h _ _ he).endpoints
        · intro h e s' he'
          rw [he] at he'
          obtain ⟨-, rfl⟩ := EStateM.Result.error.inj he'
          refine { SameTables.refl s with endpoints := h, caps := ?_ }
          intro d _ i
          by_cases hd : d = target
          · subst hd
            simpa using htable i
          · simp [hd]
      · have := entryRoom_of_capInstall hc
        exact absurd ⟨this.charge, this.slot⟩ room
  · simp only [hno, false_imp_iff, iff_true]
    exact LeavesNothing.bind_of_error he

variable {deadline facet : Nat} {life : Option ScopeId}
variable {parent : Option GrantId} {object : ObjRef} {mask : Rights}

theorem granted_rights {g : GrantId}
    :
    ((s.granted g (s.newGrant sponsor parent object mask deadline life facet)).grants g).rights =
      mask := by
  unfold Machine.granted Machine.setGrantOf Machine.newGrant
  cases parent with
  | none => simp
  | some p => by_cases hp : g = p <;> simp [hp]

theorem granted_used {g : GrantId}
    :
    ((s.granted g (s.newGrant sponsor parent object mask deadline life facet)).grants g).used =
      true := by
  unfold Machine.granted Machine.setGrantOf Machine.newGrant
  cases parent with
  | none => simp
  | some p => by_cases hp : g = p <;> simp [hp]

theorem narrower_iff {at? : Option CapSlot}
    :
    LeavesNothing s (do
        let grant ← Op.orElse (fun s => s.grantAlloc sponsor (some source.grant) source.object mask
          deadline life facet) Status.limitExhausted
        let s ← get
        claimFor target source.object.object (s.grants grant).rights
        Op.orElse (fun s => s.capInstall target source.object (some grant) at?) Status.limitExhausted) s ↔
      (s.GrantRoom sponsor (some source.grant) →
        ClaimFree s target source.object.object mask ∧
          s.PublishRoom sponsor (some source.grant) target at?) := by
  rcases hg : s.grantAlloc sponsor (some source.grant) source.object mask deadline life facet with
    ⟨t, _ | g⟩
  · obtain ⟨noroom, ht⟩ := grantAlloc_none hg
    simp only [noroom, false_imp_iff, iff_true]
    have he : Op.orElse (fun s => s.grantAlloc sponsor (some source.grant) source.object mask
        deadline life facet) Status.limitExhausted s = .error Status.limitExhausted t := by
      simp [Op.orElse, hg]
    intro e s' h
    rw [Fallible.bind_of_error he] at h
    obtain ⟨-, rfl⟩ := EStateM.Result.error.inj h
    obtain rfl | rfl := ht
    · exact .refl _
    · exact .of_nextObjectId _
  · obtain ⟨room, hfree, rfl⟩ := grantAlloc_some hg
    have hok : Op.orElse (fun s => s.grantAlloc sponsor (some source.grant) source.object mask
        deadline life facet) Status.limitExhausted s = .ok g (s.granted g
          (s.newGrant sponsor (some source.grant) source.object mask deadline life facet)) := by
      simp only [Op.orElse, hg]
    rw [LeavesNothing.bind_of_ok hok, LeavesNothing.get_iff, granted_rights]
    simp only [room, true_implies]
    -- The node is in use from here on, and was not in `s`.
    have hunused := freeGrantNode_unused hfree
    have hused : ((s.granted g (s.newGrant sponsor (some source.grant) source.object mask deadline
        life facet)).grants g).used = true := granted_used
    have hmade : ∀ u : Machine, (u.grants g).used = true → ¬ SameTables s u := by
      intro u hu hsame
      have := hsame.grants g
      simp [Grant.shown, hu, hunused] at this
    obtain ⟨hclaim, hok⟩ | ⟨hno, he⟩ := claimFor_run (s.granted g
      (s.newGrant sponsor (some source.grant) source.object mask deadline life facet)) target
      source.object.object mask
    · rw [LeavesNothing.bind_of_ok hok]
      obtain ⟨endpoints, heq⟩ := claimed_eq (s.granted g
        (s.newGrant sponsor (some source.grant) source.object mask deadline life facet)) target
        source.object.object mask
      rw [heq, capInstall_iff]
      · constructor
        · rintro ⟨hcharge, hslot⟩
          exact ⟨hclaim, room, hcharge, hslot⟩
        · rintro ⟨-, -, hcharge, hslot⟩
          exact ⟨hcharge, hslot⟩
      · intro u hobj
        exact hmade u (hobj.grants g hused)
    · refine iff_of_false (bind_must he (hmade _ hused)) ?_
      rintro ⟨hclaim, -⟩
      exact hno hclaim

theorem installCap_iff {request : InstallCapRequest} :
    LeavesNothing s (installCap caller request) s ↔ InstallProvided caller request s := by
  unfold installCap InstallProvided
  rw [atDomain_iff]
  refine forall_congr' fun cap => forall_congr' fun target => ?_
  refine imp_congr_right fun _ => imp_congr_right fun _ => ?_
  rw [require_iff]
  simp only [beq_iff_eq]
  refine imp_congr_right fun _ => ?_
  by_cases h : request.targetSlot < maxCaps
  · simp only [h, dif_pos, forall_true_left]
    rw [ask_iff]
    refine forall_congr' fun source => imp_congr_right fun hsource => ?_
    unfold installedGrant
    by_cases hcopy : request.rightsMask = 0#32 ∧ request.deadlineNs = 0
    · have hrights : (s.grants source.grant).rights = source.rights := by
        obtain ⟨-, -, -, -, -, -, hr, -⟩ := resolveEntry_ok hsource
        exact hr
      rw [if_pos hcopy, pure_iff, LeavesNothing.get_iff, hrights,
        copy_iff (resolve_used hsource).1]
      simp [hcopy]
    · rw [if_neg hcopy]
      simp only [hcopy, false_imp_iff, not_false_eq_true, true_and, true_implies]
      simp only [bind_assoc]
      rw [require_iff, LeavesNothing.get_iff, deadline_iff,
        LeavesNothing.get_iff]
      refine imp_congr_right fun _ => imp_congr_right fun _ => ?_
      exact narrower_iff
  · simp [h, throw_same]

end Thalyx.Kernel
