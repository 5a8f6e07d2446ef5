/-
The creations, as paths.
-/
import ThalyxKernel.Kernel.Change.Building
import ThalyxKernel.Kernel.Creation

namespace Thalyx.Kernel.Path

open Fallible (final Leads Within)
open Machine

variable {drops : Machine → EndpointId → Prop} {s t : Machine} {caller : Caller}

/-! ### What the creations have in common -/

variable {α : Type}
variable {i sponsor : ScopeId}

theorem identityWith {f : Nat → Op α}
    (h : ∀ scopes, s.scopes.reserve sponsor .metadata 1 = some scopes →
      Path drops { s with scopes }
        (final (f s.nextObjectId ({ s with scopes } : Machine).counted))) :
    Leads (Path drops) (Op.identity sponsor >>= f) s := by
  unfold Op.identity
  rw [bind_assoc]
  exact reserve rfl fun scopes hr => nextIdWith (release_core _ _ _ _) (h scopes hr)

variable {domain : DomainId} {rights : Rights}
variable {object : ObjRef}

theorem publish (hobject : ∀ i, object.object ≠ .invocation i) (s : Machine) :
    Leads (Path drops) (Op.publish domain object rights) s := by
  have hroot : s.Derives object rights 0 none := .root hobject
  refine get (orElse (grantAlloc hroot) fun g t ht => of_orElse (capInstall ?_ ?_)) <;>
    rw [grantAlloc_node ht hroot] <;> rfl

theorem make {ι : Type} {slot : Machine → Option ι}
    {write : ι → Nat → Machine → Machine} {object : ι → Obj}
    (hobject : ∀ i j, object i ≠ .invocation j)
    (hwrite : ∀ i id t, slot s = some i → (∃ scopes, t = ({ s with scopes } : Machine).counted) →
      Path drops t (write i id t)) :
    Leads (Path drops) (Op.make domain sponsor slot write object rights) s := by
  refine require fun _ => find fun i hi => identityWith fun scopes _ => ?_
  refine (counted _).trans ((hwrite i s.nextObjectId _ hi ⟨scopes, rfl⟩).trans ?_)
  exact publish (hobject i) _

theorem deadline {ε : Type} {requested parent : Nat} {f : Nat → Op ε}
    (h : ∀ d, (parent ≠ 0 → d ≠ 0 ∧ d ≤ parent) → Leads (Path drops) (f d) s) :
    Leads (Path drops) (Op.deadline requested parent >>= f) s := by
  unfold Op.deadline
  by_cases hr : requested = 0
  · rw [if_pos hr]
    exact h parent fun hp => ⟨hp, le_rfl⟩
  · rw [if_neg hr]
    by_cases hlate : parent ≠ 0 ∧ requested > parent
    · rw [if_pos hlate]
      exact of_throw _
    · rw [if_neg hlate]
      refine h requested fun hp => ⟨hr, ?_⟩
      exact Nat.le_of_not_lt fun hlt => hlate ⟨hp, hlt⟩

/-! ### Scopes -/

theorem takeScopeSlot (s : Machine) : Path drops s s.takeScopeSlot.1 := by
  rcases h : s.takeScopeSlot with ⟨t, _ | i⟩
  · rw [takeScopeSlot_none h]
    exact refl s
  · obtain ⟨-, rfl⟩ | ⟨hret, rfl, -⟩ := takeScopeSlot_some h
    · exact refl t
    · exact of_change (.collectRetired hret)

theorem collectRetired_other {j : ScopeId} (h : j ≠ i) :
    ((s.collectRetired i).scopes j).state = (s.scopes j).state ∧
      ((s.collectRetired i).scopes j).depth = (s.scopes j).depth ∧
      ((s.collectRetired i).scopes j).id = (s.scopes j).id := by
  unfold Machine.collectRetired Scopes.reset Scopes.set
  cases (s.scopes i).parent with
  | none => simp [h]
  | some p =>
    by_cases hj : j = p
    · subst hj
      simp [h]
    · simp [h, hj]

theorem takeScopeSlot_parent {parent : ScopeId} (h : s.takeScopeSlot = (t, some i))
    (hopen : (s.scopes parent).state = .opened) :
    (t.scopes i).state = .empty ∧ (t.scopes parent).state = .opened ∧
      (t.scopes parent).depth = (s.scopes parent).depth ∧
      (t.scopes parent).id = (s.scopes parent).id ∧ t.nextObjectId = s.nextObjectId := by
  obtain ⟨hempty, rfl⟩ | ⟨hret, rfl, -⟩ := takeScopeSlot_some h
  · exact ⟨hempty, hopen, rfl, rfl, rfl⟩
  · have hstate : (s.scopes i).state = .retired := by
      simp only [retiredCollectable, Bool.and_eq_true, beq_iff_eq] at hret
      exact hret.1.1.1
    have hne : parent ≠ i := by
      rintro rfl
      rw [hstate] at hopen
      cases hopen
    obtain ⟨hs, hd, hid⟩ := collectRetired_other (s := s) hne
    refine ⟨?_, hs.trans hopen, hd, hid, rfl⟩
    simp [Machine.collectRetired, Scopes.reset, Scopes.set, Scope.empty]

theorem createChild (s : Machine) (request : ScopeCreateRequest) :
    Leads (Path drops) (Kernel.createChild caller request) s := by
  refine atScope fun cap parent _ _ => ?_
  refine require fun _ => require fun hopen => require fun hdepth => require fun _ => get ?_
  refine orElse (takeScopeSlot s) fun i t ht => identityWith fun scopes hr => ?_
  obtain ⟨hempty, hparent, hd, -⟩ := takeScopeSlot_parent ht (by simpa using hopen)
  have hplace : ∀ j, (scopes j).place = (t.scopes j).place := fun j => by
    rw [Scopes.reserve_eq hr]
    rfl
  have hsame : (scopes parent).depth = (s.scopes parent).depth :=
    (congrArg ScopePlace.depth (hplace parent)).trans hd
  have hroom : (scopes parent).depth + 1 < maxScopeDepth := by
    rw [hsame]
    simpa using hdepth
  have hopened : Path drops { t with scopes } (({ t with scopes } : Machine).counted.openScope i
      parent t.nextObjectId ((s.scopes parent).depth + 1) request.limits) := by
    rw [← hsame]
    exact of_change (.openScope request.limits
      ((congrArg ScopePlace.state (hplace i)).trans hempty)
      ((congrArg ScopePlace.state (hplace parent)).trans hparent) hroom)
  refine hopened.trans ?_
  exact publish (fun _ => by simp) _

/-! ### Endpoints, signals, timers, memory -/

theorem createEndpoint (s : Machine) (request : EndpointCreateRequest) :
    Leads (Path drops) (Kernel.createEndpoint caller request) s := by
  refine atScope fun cap sponsor _ _ => require fun _ => require fun _ => make (by simp) ?_
  rintro i id t hi ⟨scopes, rfl⟩
  refine of_change (.openEndpoint _ _ _ ?_)
  have hfree := List.find?_some hi
  show (s.endpoints i).used = false
  simpa using hfree

theorem createSignal (s : Machine) : Leads (Path drops) (Kernel.createSignal caller) s := by
  refine atScope fun cap sponsor _ _ => make (by simp) ?_
  intro i id t _ _
  exact (of_change (.renew (by simp [Obj.kind]))).then_aside rfl

theorem createTimer (s : Machine) (request : TimerCreateRequest) :
    Leads (Path drops) (Kernel.createTimer caller request) s := by
  refine atScope fun cap sponsor _ _ => ask fun cap' _ => ?_
  have hsignal : Leads (Path drops) cap'.signal s := by
    unfold Resolved.signal
    split
    · exact of_pure _
    · exact of_throw _
  refine bind hsignal fun signal t _ => require fun _ => make (by simp) ?_
  intro i id t _ _
  exact (of_change (.renew (by simp [Obj.kind]))).then_aside rfl

theorem openMemory (s : Machine) (sponsor : ScopeId) (base : Frame) (request : MemoryCreateRequest)
    (i : MemoryId) (id : Nat) : Path drops s (s.openMemory sponsor base request i id) :=
  (of_change (.renew (by simp [Obj.kind]))).then_aside rfl

theorem createMemory (s : Machine) (request : MemoryCreateRequest) :
    Leads (Path drops) (Kernel.createMemory caller request) s := by
  refine atScope fun cap sponsor _ _ => ?_
  refine require fun _ => require fun _ => require fun _ => require fun _ => find fun i _ => ?_
  refine reserve rfl fun scopes _ => reserve (release_core _ _ _ _) fun scopes' _ => ?_
  have hpages : ∀ t : Machine, Leads (Path drops) (Op.allocPages sponsor request.pages) t := by
    intro t
    unfold Leads Op.allocPages
    split
    · exact aside rfl
    · exact aside ((release_core _ _ _ _).trans (release_core _ _ _ _))
  refine bind (hpages _) fun base t _ => nextId rfl ?_
  refine modify (openMemory _ _ _ _ _ _) (get ?_)
  exact publish (fun _ => by simp) _

/-! ### Domains -/

theorem ofBuild {b : Build α} (h : Leads (Path drops) b s) :
    Leads (Path drops) (Op.ofBuild b) s := by
  unfold Leads Op.ofBuild at *
  cases hb : b s <;> rw [hb] at h <;> exact h

theorem createDomain (s : Machine) (request : DomainCreateRequest) :
    Leads (Path drops) (Kernel.createDomain caller request) s := by
  refine atScope fun cap scope _ _ => ask fun _ _ => ?_
  refine bind (ofBuild (createIn s _ _ _)) fun index t _ => get ?_
  exact publish (fun _ => by simp) t

/-! ### Derived grants -/

theorem bindFacet (s : Machine) (request : BindFacetRequest) :
    Leads (Path drops) (Kernel.bindFacet caller request) s := by
  refine atEndpoint fun cap index hcap hi => ?_
  obtain ⟨entry, -, -, -, hused, hobject, hrights, -⟩ := resolveEntry_ok hcap
  refine require fun _ => require fun hfewer => require fun _ => get (deadline fun d hd => ?_)
  refine require fun _ => get (modify (aside (setEndpoint_core s index rfl)) (get ?_))
  have hderives : ∀ t : Machine, t.grants = s.grants →
      t.Derives cap.object request.rightsMask d (some cap.grant) := by
    intro t ht
    refine .child ?_ ?_ ?_ ?_ <;> rw [ht]
    · exact hused
    · exact hobject
    · rw [hrights]
      exact hfewer
    · exact hd
  have hhere := hderives (s.setEndpoint index fun e =>
    { e with nextFacet := e.nextFacet + 1, facets := e.facets + 1 }) rfl
  refine orElse (grantAlloc hhere) fun g t ht => of_orElse (capInstall ?_ ?_) <;>
    rw [grantAlloc_node ht hhere] <;> rfl

theorem derivedLife {ctx : Ctx} {parent : Grant} {handle : Handle}
    {f : Option ScopeId → Op α} (h : ∀ life, Leads (Path drops) (f life) s) :
    Leads (Path drops) (Kernel.derivedLife ctx parent handle >>= f) s := by
  unfold Leads
  obtain ⟨life, hlife⟩ | ⟨e, hlife⟩ := derivedLife_run (s := s) ctx parent handle
  · rw [Fallible.bind_of_ok hlife]
    exact h life
  · rw [Fallible.bind_of_error hlife]
    exact refl s

/-- **A derivation undone** has spent an identity and nothing else. -/
theorem undoDerive_core {parent g : GrantId} {node : Grant} {u : Machine}
    (hparent : (s.grants parent).used = true) (hfree : (s.grants g).used = false)
    (hnode : node.parent = some parent)
    (h : (s.granted g node).capInstall domain object (some g) none = (u, none)) :
    (u.undoDerive parent g).core = { s.core with nextObjectId := s.nextObjectId + 1 } := by
  obtain ⟨table, htable, rfl⟩ := capInstall_none h
  have hsame := sameTables_undoDerive domain hparent hfree hnode htable
  exact uninstalled_core h (fun i => release_place _ _ _ _ i) hsame.grants rfl

theorem derive (s : Machine) (request : DeriveRequest) :
    Leads (Path drops) (Kernel.derive caller request) s := by
  refine enter fun cap hcap => ?_
  obtain ⟨entry, -, -, -, hused, hobject, hrights, -⟩ := resolveEntry_ok hcap
  refine require fun _ => get (require fun hfewer => require fun _ => deadline fun d hd => ?_)
  refine derivedLife fun life => get ?_
  have hderives : s.Derives cap.object request.rightsMask d (some cap.grant) :=
    .child hused hobject hfewer hd
  refine orElseWith ?_ ?_
  · intro t ht
    have hpath : Path drops s (s.grantAlloc (s.domains caller.domain).ownerScope
        (some cap.grant) cap.object request.rightsMask d life (s.grants cap.grant).facet).1 :=
      grantAlloc hderives
    rwa [ht] at hpath
  · intro g t ht
    unfold Op.orUndo
    dsimp only
    rcases hc : t.capInstall caller.domain cap.object (some g) none with ⟨u, _ | handle⟩
    · obtain ⟨-, hfree, rfl⟩ := grantAlloc_some ht
      exact of_change (.identity (undoDerive_core hused (freeGrantNode_unused hfree) rfl hc)
        (Nat.le_succ _))
    · have hnode := grantAlloc_node ht hderives
      refine (of_change (.grantAlloc ht hderives)).trans (of_change (.capInstall hc ?_ ?_)) <;>
        rw [hnode] <;> rfl

/-! ### Installing in a domain that is being built -/

variable {target : DomainId}

theorem installedGrant {source : Resolved} {request : InstallCapRequest} {f : GrantId → Op α}
    (hu : (s.grants source.grant).used = true) (ho : (s.grants source.grant).object = source.object)
    (hr : (s.grants source.grant).rights = source.rights)
    (h : ∀ g t, Stands s t → (t.grants g).used = true → (t.grants g).object = source.object →
      Leads (Path drops) (f g) t) :
    Leads (Path drops) (Kernel.installedGrant target source request >>= f) s := by
  unfold Kernel.installedGrant
  by_cases hcopy : request.rightsMask = 0#32 ∧ request.deadlineNs = 0
  · rw [if_pos hcopy]
    exact h _ s (Stands.refl s) hu ho
  · rw [if_neg hcopy]
    simp only [bind_assoc]
    refine require fun hfewer => get (deadline fun d hd => get ?_)
    have hderives : s.Derives source.object request.rightsMask d (some source.grant) :=
      .child hu ho (hr ▸ hfewer) hd
    refine orElse (grantAlloc hderives) fun g t ht => ?_
    have hnode := grantAlloc_node ht hderives
    exact h g t (grantAlloc_stands ht) (by rw [hnode]; rfl) (by rw [hnode]; rfl)

theorem claimFor {object : Obj} {f : Unit → Op α}
    (ha : (s.domains target).state = .building ∨ (s.domains target).state = .runnable)
    (h : ∀ endpoints, Leads (Path drops) (f ()) { s with endpoints }) :
    Leads (Path drops) (Kernel.claimFor target object rights >>= f) s := by
  unfold Kernel.claimFor
  split
  · rename_i index
    split
    · unfold claimReceiver
      rw [bind_assoc]
      refine require fun hfree => modify (of_change (.claimReceiver ?_ ha)) (h _)
      cases hr : (s.endpoints index).receiverDomain with
      | none => exact Or.inl rfl
      | some d =>
        simp only [hr, Option.all_some, beq_iff_eq] at hfree
        exact Or.inr (congrArg some hfree)
    · exact h s.endpoints
  · exact h s.endpoints

theorem installCap (s : Machine) (request : InstallCapRequest) :
    Leads (Path drops) (Kernel.installCap caller request) s := by
  refine atDomain fun cap target _ _ => require fun hbuilding => ?_
  dsimp only
  split
  · refine ask fun source hsource => ?_
    obtain ⟨entry, -, -, -, hused, hobject, hrights, -⟩ := resolveEntry_ok hsource
    refine installedGrant hused hobject hrights fun g t ht hu ho => get (claimFor ?_ ?_)
    · rw [ht.domains]
      exact Or.inl (by simpa using hbuilding)
    · exact fun endpoints => of_orElse (capInstall hu ho)
  · exact of_throw _

/-- **Every creation is a path.** -/
theorem creation (s : Machine) (caller : Caller) (c : Creation) :
    Leads (Path drops) (c.run caller) s := by
  cases c with
  | child request => exact createChild s request
  | endpoint request => exact createEndpoint s request
  | facet request => exact bindFacet s request
  | signal => exact createSignal s
  | timer request => exact createTimer s request
  | memory request => exact createMemory s request
  | domain request => exact createDomain s request
  | installCap request => exact installCap s request
  | derive request => exact derive s request

end Thalyx.Kernel.Path
