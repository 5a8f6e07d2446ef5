/-
What admitted work leaves alone.

Admissions, deliveries, discharges and withdrawals move messages, records, entries and grants.
No scope or domain changes its place by any of them, no endpoint appears or goes away, and no
object but an invocation is renewed.
-/
import ThalyxKernel.Kernel.Change.Step

namespace Thalyx.Kernel

/-- Scopes, domains and endpoints are what they were, and so is every object that is not an
invocation. -/
structure Aloof (s t : Machine) : Prop where
  scopes : ∀ i, (t.scopes i).place = (s.scopes i).place
  fenced : t.fenced = s.fenced
  domains : ∀ i, (t.domains i).state = (s.domains i).state ∧
    (t.domains i).ownerScope = (s.domains i).ownerScope
  endpoints : ∀ e, (t.endpoints e).used = (s.endpoints e).used
  generation : ∀ object, object.kind ≠ .invocation → t.generation object = s.generation object
  nextObjectId : s.nextObjectId ≤ t.nextObjectId

namespace Aloof

variable {s t u : Machine}

theorem refl (s : Machine) : Aloof s s :=
  ⟨fun _ => rfl, rfl, fun _ => ⟨rfl, rfl⟩, fun _ => rfl, fun _ _ => rfl, le_rfl⟩

theorem of_same (hs : t.scopes = s.scopes) (hf : t.fenced = s.fenced) (hd : t.domains = s.domains)
    (he : t.endpoints = s.endpoints) (hg : t.generation = s.generation)
    (hn : t.nextObjectId = s.nextObjectId) : Aloof s t where
  scopes i := by rw [hs]
  fenced := hf
  domains i := by rw [hd]; exact ⟨rfl, rfl⟩
  endpoints e := by rw [he]
  generation object _ := by rw [hg]
  nextObjectId := hn.ge

theorem trans (h : Aloof s t) (h' : Aloof t u) : Aloof s u where
  scopes i := (h'.scopes i).trans (h.scopes i)
  fenced := h'.fenced.trans h.fenced
  domains i := ⟨(h'.domains i).1.trans (h.domains i).1, (h'.domains i).2.trans (h.domains i).2⟩
  endpoints e := (h'.endpoints e).trans (h.endpoints e)
  generation object hk := (h'.generation object hk).trans (h.generation object hk)
  nextObjectId := h.nextObjectId.trans h'.nextObjectId

theorem foldl {ι : Type} {f : Machine → ι → Machine} (h : ∀ s i, Aloof s (f s i))
    (l : List ι) (s : Machine) : Aloof s (l.foldl f s) := by
  induction l generalizing s with
  | nil => exact refl s
  | cons i rest ih => exact (h s i).trans (ih _)

theorem of_core {n : Nat} (h : t.core = { s.core with nextObjectId := n })
    (hn : s.nextObjectId ≤ n) : Aloof s t where
  scopes i := congrFun (congrArg Core.scopes h) i
  fenced := congrArg Core.fenced h
  domains i :=
    have hplace : (t.domains i).place = (s.domains i).place := congrFun (congrArg Core.domains h) i
    ⟨congrArg DomainPlace.state hplace, congrArg DomainPlace.ownerScope hplace⟩
  endpoints e := congrArg Queue.used (congrFun (congrArg Core.endpoints h) e)
  generation object _ := congrFun (congrArg Core.generation h) object
  nextObjectId := by
    have hid : t.nextObjectId = n := congrArg Core.nextObjectId h
    rw [hid]
    exact hn

theorem aside (h : t.core = s.core) : Aloof s t := of_core (n := s.nextObjectId) h le_rfl

theorem of_stands (h : Stands s t) : Aloof s t where
  scopes := h.scopes
  fenced := h.fenced
  domains i := by rw [h.domains]; exact ⟨rfl, rfl⟩
  endpoints e := by rw [h.endpoints]
  generation object _ := by rw [h.generation]
  nextObjectId := h.nextObjectId

end Aloof

namespace Machine

variable (s : Machine)

theorem collectInvocation_aloof (i : InvocationId) : Aloof s (s.collectInvocation i) :=
  .of_stands (s.collectInvocation_stands i)

theorem releaseInvocation_aloof (i : InvocationId) : Aloof s (s.releaseInvocation i) := by
  by_cases h : (s.invocations i).state = .empty
  · unfold releaseInvocation
    rw [if_pos h]
    exact .refl s
  · obtain ⟨scopes, grants, hint, heq, hplace, -⟩ := s.releaseInvocation_eq h
    rw [heq]
    refine Aloof.trans ?_ (collectInvocation_aloof _ i)
    exact ⟨hplace, rfl, fun _ => ⟨rfl, rfl⟩, fun _ => rfl, fun _ _ => rfl, le_rfl⟩

theorem dischargeFenced_aloof (i : InvocationId) : Aloof s (s.dischargeFenced i) := by
  unfold dischargeFenced
  dsimp only
  refine Aloof.trans (.aside (s.wakeWaiter_core i .cancelled)) ?_
  refine Aloof.trans (releaseInvocation_aloof _ i) (.aside ?_)
  exact setScope_core _ _ rfl

/-! ### Withdrawals -/

theorem setEndpoint_aloof (e : EndpointId) {f : Endpoint → Endpoint}
    (h : (f (s.endpoints e)).used = (s.endpoints e).used) : Aloof s (s.setEndpoint e f) where
  scopes _ := rfl
  fenced := rfl
  domains _ := ⟨rfl, rfl⟩
  endpoints e' := by
    by_cases he : e' = e
    · subst he
      simpa [setEndpoint] using h
    · simp [setEndpoint, he]
  generation _ _ := rfl
  nextObjectId := le_rfl

theorem unlink_aloof (e : EndpointId) (previous : Option MessageId) (m : MessageId) :
    Aloof s (s.unlink e previous m) := by
  unfold unlink
  dsimp only
  refine Aloof.trans ?_ (setEndpoint_aloof _ e rfl)
  cases previous with
  | none => exact setEndpoint_aloof s e rfl
  | some p => exact .of_same rfl rfl rfl rfl rfl rfl

theorem releaseCarried_aloof (e : EndpointId) (caps : List DeliveredCap) :
    Aloof s (s.releaseCarried e caps) := by
  unfold releaseCarried
  split
  · exact .refl s
  · exact .of_stands (s.releaseSlots_stands _ _)

theorem withdrawMessage_aloof (e : EndpointId) (previous : Option MessageId) (m : MessageId)
    (cancel : Cancel) : Aloof s (s.withdrawMessage e previous m cancel) := by
  unfold withdrawMessage
  dsimp only
  have hcarried := (s.unlink_aloof e previous m).trans
    (releaseCarried_aloof (s.unlink e previous m) e (s.messages m).caps)
  generalize (s.unlink e previous m).releaseCarried e (s.messages m).caps = u at hcarried ⊢
  exact hcarried.trans (.of_same rfl rfl rfl rfl rfl rfl)

section Loop

variable {pick : Machine → InvocationId → Bool} {cancel : Cancel}
  {discharge : Machine → InvocationId → Machine}

theorem withdrawFrom_aloof (hd : ∀ s i, Aloof s (discharge s i)) (e : EndpointId) (n : Nat)
    (previous next : Option MessageId) (s : Machine) :
    Aloof s (withdrawFrom pick cancel discharge e n previous next s) := by
  induction n generalizing previous next s with
  | zero => exact .refl s
  | succ n ih =>
    cases next with
    | none => exact .refl s
    | some m =>
      unfold withdrawFrom
      dsimp only
      split
      · exact (s.withdrawMessage_aloof e previous m cancel).trans ((hd _ _).trans (ih _ _ _))
      · exact ih _ _ _

theorem withdrawAll_aloof (hd : ∀ s i, Aloof s (discharge s i)) :
    Aloof s (s.withdrawAll pick cancel discharge) := by
  refine Aloof.foldl (fun t e => ?_) _ s
  split
  · exact withdrawFrom_aloof hd e maxMessages none _ t
  · exact .refl t

end Loop

/-! ### Admissions and deliveries -/

variable {receiver : DomainId} {ticket : Handle}

theorem issueTicket_aloof {s t : Machine} {i : InvocationId}
    (h : s.issueTicket receiver i = (t, some ticket)) : Aloof s t := by
  obtain ⟨g, u, v, hg, hc, rfl⟩ := Path.issueTicket_some h
  have hinstalled := u.capInstall_stands receiver ⟨.invocation i, s.generation (.invocation i)⟩
    (some g) none
  rw [hc] at hinstalled
  refine (Aloof.of_stands ((grantAlloc_stands hg).trans hinstalled)).trans ?_
  exact .of_same rfl rfl rfl rfl rfl rfl

theorem enqueue_aloof (e : EndpointId) (m : MessageId) (i : InvocationId) (kind : MessageKind)
    (payload : List UInt8) (caps : List DeliveredCap) (charged : Nat) :
    Aloof s (s.enqueue e m i kind payload caps charged) := by
  unfold enqueue
  dsimp only
  refine Aloof.trans ?_ (setEndpoint_aloof _ e rfl)
  split
  · refine Aloof.trans ?_ (setEndpoint_aloof _ e rfl)
    exact .of_same rfl rfl rfl rfl rfl rfl
  · exact .of_same rfl rfl rfl rfl rfl rfl

theorem writeInvocation_aloof (ctx : Ctx) (e : EndpointId) (receiver : DomainId)
    (i : InvocationId) (m : MessageId) (id : Nat) (waiter : Option ThreadId) (charged : Nat) :
    Aloof s (s.writeInvocation ctx e receiver i m id waiter charged) where
  scopes := congrFun (update_seen Scope.place s.scopes _ _ rfl)
  fenced := rfl
  domains _ := ⟨rfl, rfl⟩
  endpoints _ := rfl
  generation object hk := by
    refine Function.update_of_ne ?_ _ _
    rintro rfl
    exact hk rfl
  nextObjectId := le_rfl

theorem publish_aloof (ctx : Ctx) (e : EndpointId) (receiver : DomainId) (request : SendRequest)
    (kind : MessageKind) (waiter : Option ThreadId) (i : InvocationId) (m : MessageId)
    (id charged : Nat) (installed : List DeliveredCap) :
    Aloof s (s.publish ctx e receiver request kind waiter i m id charged installed) := by
  obtain ⟨u, hu, hends⟩ := s.publish_cases ctx e receiver request kind waiter i m id charged installed
  refine ((s.writeInvocation_aloof ctx e receiver i m id waiter charged).trans (.aside hu)).trans ?_
  rcases hends with ⟨holder, t, ticket, -, -, ht, hcore⟩ | ⟨v, n, hn, hv, hcore⟩
  · refine (issueTicket_aloof ht).trans (Aloof.trans ?_ (.aside hcore))
    exact .of_same rfl rfl rfl rfl rfl rfl
  · exact (Aloof.of_core hv hn).trans ((v.enqueue_aloof _ _ _ _ _ _ _).trans (.aside hcore))

theorem deliver_aloof {s t : Machine} {e : EndpointId} {m : MessageId}
    (h : s.deliver receiver e m = (t, .ok ticket)) : Aloof s t := by
  unfold deliver at h
  dsimp only at h
  split at h
  · cases (Prod.mk.inj h).2
  · split at h
    · cases (Prod.mk.inj h).2
    · rename_i u ticket' hu
      rw [← (Prod.mk.inj h).1]
      have hdequeued : Aloof u (u.dequeue e m) := by
        unfold dequeue
        exact setEndpoint_aloof u e rfl
      exact (issueTicket_aloof hu).trans (hdequeued.trans (.of_same rfl rfl rfl rfl rfl rfl))

/-! ### Mappings and fault channels -/

theorem setDomain_aloof (d : DomainId) {f : Domain → Domain}
    (hs : (f (s.domains d)).state = (s.domains d).state)
    (ho : (f (s.domains d)).ownerScope = (s.domains d).ownerScope) : Aloof s (s.setDomain d f) where
  scopes _ := rfl
  fenced := rfl
  domains i := by
    by_cases hi : i = d
    · subst hi
      simpa [setDomain] using ⟨hs, ho⟩
    · simp [setDomain, hi]
  endpoints _ := rfl
  generation _ _ := rfl
  nextObjectId := le_rfl

theorem recordMap_aloof (record : MapId) (target : DomainId) (memory : Resolved)
    (object : MemoryId) (request : MapRequest) (before : Nat) :
    Aloof s (s.recordMap record target memory object request before) := by
  unfold recordMap
  dsimp only
  refine Aloof.trans ?_ (.aside (setScope_core _ _ rfl))
  refine Aloof.trans ?_ (.aside (setMemory_core _ _ _))
  refine Aloof.trans ?_ (setDomain_aloof _ target rfl rfl)
  refine Aloof.trans ?_ (.aside (release_core _ _ _ _))
  exact .of_same rfl rfl rfl rfl rfl rfl

theorem collectGrant_aloof (grant : Option GrantId) : Aloof s (s.collectGrant grant) :=
  .of_stands (s.collectGrantUpTo_stands maxDeriveDepth grant)

theorem addGrantRef_aloof (grant : Option GrantId) : Aloof s (s.addGrantRef grant) := by
  cases grant <;> exact .of_same rfl rfl rfl rfl rfl rfl

theorem dropGrantRef_aloof (grant : Option GrantId) : Aloof s (s.dropGrantRef grant) := by
  cases grant <;> exact .of_same rfl rfl rfl rfl rfl rfl

theorem uncountMap_aloof (object : Option MemoryId) (rights : Rights) :
    Aloof s (s.uncountMap object rights) := by
  cases object <;> exact .of_same rfl rfl rfl rfl rfl rfl

theorem announce_aloof (object : Option MemoryId) : Aloof s (s.announce object) := by
  cases object <;> exact .of_same rfl rfl rfl rfl rfl rfl

theorem withdrawMapDeferring_aloof (m : MapId) : Aloof s (s.withdrawMapDeferring m).1 := by
  unfold withdrawMapDeferring
  dsimp only
  split
  · exact .refl s
  · dsimp only
    have hpages : Aloof s (s.unmapPages (s.maps m)) := setDomain_aloof s _ rfl rfl
    have huncounted := hpages.trans
      (uncountMap_aloof (s.unmapPages (s.maps m)) (s.mappedObject (s.maps m)) (s.maps m).rights)
    generalize (s.unmapPages (s.maps m)).uncountMap _ _ = u at huncounted ⊢
    have hdiscounted : Aloof u (u.setScope (s.maps m).scope fun node =>
        { node with mapsPending := node.mapsPending - 1 }) := .aside (setScope_core _ _ rfl)
    generalize u.setScope (s.maps m).scope (fun node =>
        { node with mapsPending := node.mapsPending - 1 }) = v at hdiscounted ⊢
    have hreleased : Aloof v (v.release (s.maps m).scope .metadata 1) := .aside (release_core _ _ _ _)
    generalize v.release (s.maps m).scope .metadata 1 = w at hreleased ⊢
    have hforgotten : Aloof w { w with maps := Function.update w.maps m .empty } :=
      .of_same rfl rfl rfl rfl rfl rfl
    have hcollected := (((huncounted.trans hdiscounted).trans hreleased).trans hforgotten).trans
      ((dropGrantRef_aloof _ (s.maps m).grant).trans (collectGrant_aloof _ (s.maps m).grant))
    split
    · exact hcollected.trans (announce_aloof _ _)
    · exact hcollected

theorem openFaultChannel_aloof (target : DomainId) (endpoint : Resolved) (e : EndpointId) :
    Aloof s (s.openFaultChannel target endpoint e) := by
  unfold openFaultChannel
  dsimp only
  refine Aloof.trans ?_ (setDomain_aloof _ target rfl rfl)
  exact Aloof.trans (setEndpoint_aloof s e rfl) (addGrantRef_aloof _ _)

theorem dropFaultChannel_aloof (domain : DomainId) : Aloof s (s.dropFaultChannel domain) := by
  unfold dropFaultChannel
  split
  · exact .refl s
  · refine Aloof.trans ?_ (setDomain_aloof _ domain rfl rfl)
    refine Aloof.trans ?_ (dropGrantRef_aloof _ _)
    split
    · split
      · exact setEndpoint_aloof s _ rfl
      · exact .refl s
    · exact .refl s

end Machine

end Thalyx.Kernel
