/-
The queues of the endpoints, and the changes that leave them alone.

A queue is a chain of message cells, and every admitted invocation has one such cell.  The
order in a queue is the order of admission, which is the order of the identities the
invocations were given; what was delivered from an endpoint was admitted before all that is
still queued there.

Nothing here says that the cell of an admitted invocation is in a queue that still exists:
that is so only while no endpoint goes away with messages in its queue.
-/
import ThalyxKernel.Kernel.Change.Entries
import ThalyxKernel.Lib.Chain

namespace Thalyx.Kernel

/-! ### What a queue is -/

/-- The links and the counters of an endpoint's queue. -/
structure Links where
  used : Bool
  queued : Nat
  reservedUsed : Nat
  head : Option MessageId
  tail : Option MessageId

def Endpoint.links (e : Endpoint) : Links := ⟨e.used, e.queued, e.reservedUsed, e.head, e.tail⟩

/-- Whether an endpoint takes messages, and for whom. -/
structure Door where
  used : Bool
  opened : Bool
  receiverDomain : Option DomainId
  receiverGeneration : Nat

def Endpoint.door (e : Endpoint) : Door :=
  ⟨e.used, e.opened, e.receiverDomain, e.receiverGeneration⟩

/-- Where an invocation was sent, by whom, and how far it got. -/
structure Work where
  state : InvocationState
  id : Nat
  endpoint : EndpointId
  endpointGeneration : Nat
  originDomain : DomainId
  originDomainGeneration : Nat
  message : Option MessageId

def Invocation.work (i : Invocation) : Work :=
  ⟨i.state, i.id, i.endpoint, i.endpointGeneration, i.originDomain, i.originDomainGeneration,
    i.message⟩

/-- What a message cell says, apart from its link and its contents. -/
structure Cell where
  used : Bool
  endpoint : EndpointId
  endpointGeneration : Nat
  invocation : InvocationId
  reservedCell : Bool

def Message.cell (m : Message) : Cell :=
  ⟨m.used, m.endpoint, m.endpointGeneration, m.invocation, m.reservedCell⟩

namespace Machine

/-- The identity a message's invocation was admitted under. -/
def idOf (s : Machine) (m : MessageId) : Nat := (s.invocations (s.messages m).invocation).id

/-- The queue of an endpoint is the messages `l`, in that order. -/
structure QueueOf (s : Machine) (e : EndpointId) (l : List MessageId) : Prop where
  chain : Chain (fun m => (s.messages m).next) (s.endpoints e).head l
  tail : (s.endpoints e).tail = l.getLast?
  queued : (s.endpoints e).queued = l.length
  reserved : (s.endpoints e).reservedUsed = l.countP fun m => (s.messages m).reservedCell
  used : ∀ m ∈ l, (s.messages m).used = true
  here : ∀ m ∈ l, (s.messages m).endpoint = e ∧
    (s.messages m).endpointGeneration = s.generation (.endpoint e)
  ordered : l.Pairwise fun m m' => s.idOf m < s.idOf m'
  /-- What was delivered from here was admitted before. -/
  later : ∀ m ∈ l, ∀ j, (s.invocations j).state = .delivered → (s.invocations j).endpoint = e →
    (s.invocations j).id < s.idOf m

/-- What a message and the invocation it carries say of each other. -/
structure Carries (s : Machine) (m : MessageId) (i : InvocationId) : Prop where
  used : (s.messages m).used = true
  invocation : (s.messages m).invocation = i
  state : (s.invocations i).state = .admitted
  message : (s.invocations i).message = some m
  endpoint : (s.invocations i).endpoint = (s.messages m).endpoint
  endpointGeneration : (s.invocations i).endpointGeneration = (s.messages m).endpointGeneration

/-- The queues and the admitted work agree. -/
structure Queued (s : Machine) : Prop where
  queue : ∀ e, (s.endpoints e).used = true → ∃ l, s.QueueOf e l
  carried : ∀ m, (s.messages m).used = true → s.Carries m (s.messages m).invocation
  linked : ∀ i, (s.invocations i).state = .admitted → ∃ m, s.Carries m i
  bound : ∀ i, (s.invocations i).unresolved = true → (s.invocations i).id < s.nextObjectId

variable {s t : Machine}

theorem Carries.of_same {m : MessageId} {i : InvocationId} (h : s.Carries m i)
    (hcell : (t.messages m).cell = (s.messages m).cell)
    (hwork : (t.invocations i).work = (s.invocations i).work) : t.Carries m i where
  used := (congrArg Cell.used hcell).trans h.used
  invocation := (congrArg Cell.invocation hcell).trans h.invocation
  state := (congrArg Work.state hwork).trans h.state
  message := (congrArg Work.message hwork).trans h.message
  endpoint := ((congrArg Work.endpoint hwork).trans h.endpoint).trans
    (congrArg Cell.endpoint hcell).symm
  endpointGeneration := ((congrArg Work.endpointGeneration hwork).trans h.endpointGeneration).trans
    (congrArg Cell.endpointGeneration hcell).symm

theorem QueueOf.of_same {e : EndpointId} {l : List MessageId} (h : s.QueueOf e l)
    (hlinks : (t.endpoints e).links = (s.endpoints e).links)
    (hgeneration : t.generation (.endpoint e) = s.generation (.endpoint e))
    (hcell : ∀ m ∈ l, (t.messages m).cell = (s.messages m).cell)
    (hnext : ∀ m ∈ l, (t.messages m).next = (s.messages m).next)
    (hid : ∀ m ∈ l, t.idOf m = s.idOf m)
    (hlater : ∀ j, (t.invocations j).state = .delivered → (t.invocations j).endpoint = e →
      ∀ m ∈ l, (t.invocations j).id < s.idOf m) : t.QueueOf e l where
  chain := by
    rw [show (t.endpoints e).head = (s.endpoints e).head from congrArg Links.head hlinks]
    exact h.chain.congr hnext
  tail := (congrArg Links.tail hlinks).trans h.tail
  queued := (congrArg Links.queued hlinks).trans h.queued
  reserved := by
    refine ((congrArg Links.reservedUsed hlinks).trans h.reserved).trans ?_
    refine List.countP_congr fun m hm => ?_
    have hsame : (t.messages m).reservedCell = (s.messages m).reservedCell :=
      congrArg Cell.reservedCell (hcell m hm)
    rw [hsame]
  used m hm := (congrArg Cell.used (hcell m hm)).trans (h.used m hm)
  here m hm := by
    rw [hgeneration]
    exact ⟨(congrArg Cell.endpoint (hcell m hm)).trans (h.here m hm).1,
      (congrArg Cell.endpointGeneration (hcell m hm)).trans (h.here m hm).2⟩
  ordered := by
    refine h.ordered.imp_of_mem fun hm hm' hlt => ?_
    rw [hid _ hm, hid _ hm']
    exact hlt
  later m hm j hj he := by
    rw [hid m hm]
    exact hlater j hj he m hm

theorem idOf_of_same {m : MessageId} (hcell : (t.messages m).cell = (s.messages m).cell)
    (hwork : (t.invocations (s.messages m).invocation).work =
      (s.invocations (s.messages m).invocation).work) : t.idOf m = s.idOf m := by
  unfold idOf
  rw [show (t.messages m).invocation = _ from congrArg Cell.invocation hcell]
  exact congrArg Work.id hwork

end Machine

/-! ### Changes that leave the queues alone -/

/-- The queues are as they were, and so is all work that is not discharged. -/
structure Quiet (s t : Machine) : Prop where
  links : ∀ e, (t.endpoints e).links = (s.endpoints e).links
  messages : t.messages = s.messages
  generation : ∀ e, t.generation (.endpoint e) = s.generation (.endpoint e)
  kept : ∀ i, (s.invocations i).state = .admitted → (t.invocations i).work = (s.invocations i).work
  live : ∀ i, (t.invocations i).unresolved = true →
    (t.invocations i).work = (s.invocations i).work
  nextObjectId : s.nextObjectId ≤ t.nextObjectId

namespace Quiet

variable {s t u : Machine}

theorem unresolved_of_work {i j : Invocation} (h : i.work = j.work) :
    i.unresolved = j.unresolved := by
  have hstate : i.state = j.state := congrArg Work.state h
  unfold Invocation.unresolved
  rw [hstate]

theorem trans (h : Quiet s t) (h' : Quiet t u) : Quiet s u where
  links e := (h'.links e).trans (h.links e)
  messages := h'.messages.trans h.messages
  generation e := (h'.generation e).trans (h.generation e)
  kept i hi := by
    have hwork := h.kept i hi
    exact (h'.kept i ((congrArg Work.state hwork).trans hi)).trans hwork
  live i hi := by
    have hwork := h'.live i hi
    exact hwork.trans (h.live i ((unresolved_of_work hwork).symm.trans hi))
  nextObjectId := h.nextObjectId.trans h'.nextObjectId

theorem of_same (hl : ∀ e, (t.endpoints e).links = (s.endpoints e).links)
    (hm : t.messages = s.messages)
    (hg : ∀ e, t.generation (.endpoint e) = s.generation (.endpoint e))
    (hw : ∀ i, (t.invocations i).work = (s.invocations i).work)
    (hn : s.nextObjectId ≤ t.nextObjectId) : Quiet s t :=
  ⟨hl, hm, hg, fun i _ => hw i, fun i _ => hw i, hn⟩

theorem of_core {n : Nat} (h : t.core = { s.core with nextObjectId := n })
    (hn : s.nextObjectId ≤ n) : Quiet s t := by
  have hnext : t.nextObjectId = n := congrArg Core.nextObjectId h
  refine of_same ?_ (congrArg Core.messages h) ?_ ?_ (hnext ▸ hn)
  · intro e
    have hqueue : (t.endpoints e).queue = (s.endpoints e).queue :=
      congrFun (congrArg Core.endpoints h) e
    exact congrArg (fun q : Queue => (⟨q.used, q.queued, q.reservedUsed, q.head, q.tail⟩ : Links))
      hqueue
  · intro e
    exact congrFun (congrArg Core.generation h) (.endpoint e)
  · intro i
    have hrecord : (t.invocations i).record = (s.invocations i).record :=
      congrFun (congrArg Core.invocations h) i
    exact congrArg (fun r : Record => (⟨r.state, r.id, r.endpoint, r.endpointGeneration,
      r.originDomain, r.originDomainGeneration, r.message⟩ : Work)) hrecord

theorem aside (h : t.core = s.core) : Quiet s t := of_core (n := s.nextObjectId) h le_rfl

theorem of_flags (s : Machine) (messageFree : MessageId → Bool)
    (invocationFree : InvocationId → Bool) : Quiet s { s with messageFree, invocationFree } :=
  of_same (fun _ => rfl) rfl (fun _ => rfl) (fun _ => rfl) le_rfl

theorem of_stands (h : Stands s t) : Quiet s t where
  links e := by rw [h.endpoints]
  messages := h.messages
  generation e := by rw [h.generation]
  kept i hi := by
    rw [(h.live i (by simp [hi])).1]
  live i hi := by
    rcases h.invocations i with ⟨hsame, -⟩ | ⟨-, hempty⟩
    · rw [hsame]
    · simp [Invocation.unresolved, hempty] at hi
  nextObjectId := h.nextObjectId

/-! ### What stays true -/

theorem carries (h : Quiet s t) {m : MessageId} {i : InvocationId} (hc : s.Carries m i) :
    t.Carries m i :=
  hc.of_same (by rw [h.messages]) (h.kept i hc.state)

theorem queueOf (h : Quiet s t) (hs : s.Queued) {e : EndpointId} {l : List MessageId}
    (hl : s.QueueOf e l) : t.QueueOf e l := by
  refine hl.of_same (h.links e) (h.generation e) (fun m _ => by rw [h.messages])
    (fun m _ => by rw [h.messages]) ?_ ?_
  · intro m hm
    refine Machine.idOf_of_same (by rw [h.messages]) ?_
    exact h.kept _ (hs.carried m (hl.used m hm)).state
  · intro j hj he m hm
    have hwork := h.live j (by simp [Invocation.unresolved, hj])
    rw [show (t.invocations j).id = _ from congrArg Work.id hwork]
    exact hl.later m hm j ((congrArg Work.state hwork).symm.trans hj)
      ((congrArg Work.endpoint hwork).symm.trans he)

/-- **A quiet change keeps the queues.** -/
theorem queued (h : Quiet s t) (hs : s.Queued) : t.Queued where
  queue e he := by
    have hlinks := h.links e
    obtain ⟨l, hl⟩ := hs.queue e ((congrArg Links.used hlinks).symm.trans he)
    exact ⟨l, h.queueOf hs hl⟩
  carried m hm := by
    rw [h.messages] at hm ⊢
    exact h.carries (hs.carried m hm)
  linked i hi := by
    have hwork := h.live i (by simp [Invocation.unresolved, hi])
    obtain ⟨m, hm⟩ := hs.linked i ((congrArg Work.state hwork).symm.trans hi)
    exact ⟨m, h.carries hm⟩
  bound i hi := by
    have hwork := h.live i hi
    have hlt := hs.bound i ((unresolved_of_work hwork).symm.trans hi)
    rw [show (t.invocations i).id = _ from congrArg Work.id hwork]
    exact hlt.trans_le h.nextObjectId

end Quiet

/-! ### Changes that do not come near them -/

/-- Nothing that is admitted, queued or promised has changed. -/
structure Calm (s t : Machine) : Prop where
  endpoints : t.endpoints = s.endpoints
  messages : t.messages = s.messages
  messageFree : t.messageFree = s.messageFree
  invocations : t.invocations = s.invocations
  invocationFree : t.invocationFree = s.invocationFree
  generation : t.generation = s.generation
  nextObjectId : t.nextObjectId = s.nextObjectId

namespace Calm

variable {s t u : Machine}

theorem refl (s : Machine) : Calm s s := ⟨rfl, rfl, rfl, rfl, rfl, rfl, rfl⟩

theorem trans (h : Calm s t) (h' : Calm t u) : Calm s u :=
  ⟨h'.endpoints.trans h.endpoints, h'.messages.trans h.messages,
    h'.messageFree.trans h.messageFree, h'.invocations.trans h.invocations,
    h'.invocationFree.trans h.invocationFree, h'.generation.trans h.generation,
    h'.nextObjectId.trans h.nextObjectId⟩

theorem foldl {ι : Type} {f : Machine → ι → Machine} (h : ∀ s i, Calm s (f s i))
    (l : List ι) (s : Machine) : Calm s (l.foldl f s) := by
  induction l generalizing s with
  | nil => exact refl s
  | cons i rest ih => exact (h s i).trans (ih _)

theorem quiet (h : Calm s t) : Quiet s t :=
  Quiet.of_same (fun e => by rw [h.endpoints]) h.messages (fun e => by rw [h.generation])
    (fun i => by rw [h.invocations]) (by rw [h.nextObjectId])

end Calm

namespace Machine

variable (s : Machine)

theorem collectGrantUpTo_calm (n : Nat) (grant : Option GrantId) :
    Calm s (s.collectGrantUpTo n grant) := by
  induction n generalizing s grant with
  | zero => exact Calm.refl s
  | succ n ih =>
    cases grant with
    | none => exact Calm.refl s
    | some g =>
      unfold collectGrantUpTo
      dsimp only
      split
      · exact Calm.refl s
      · refine Calm.trans ?_ (ih _ _)
        exact ⟨rfl, rfl, rfl, rfl, rfl, rfl, rfl⟩

theorem collectMemory_calm (i : MemoryId) (acknowledged : Bool) :
    Calm s (s.collectMemory i acknowledged) := by
  unfold collectMemory
  dsimp only
  split
  · exact Calm.refl s
  · split
    · exact Calm.refl s
    · split
      · exact ⟨rfl, rfl, rfl, rfl, rfl, rfl, rfl⟩
      · exact ⟨rfl, rfl, rfl, rfl, rfl, rfl, rfl⟩

theorem announce_calm (object : Option MemoryId) : Calm s (s.announce object) := by
  cases object <;> exact ⟨rfl, rfl, rfl, rfl, rfl, rfl, rfl⟩

theorem uncountMap_calm (object : Option MemoryId) (rights : Rights) :
    Calm s (s.uncountMap object rights) := by
  cases object <;> exact ⟨rfl, rfl, rfl, rfl, rfl, rfl, rfl⟩

theorem withdrawMapDeferring_calm (m : MapId) : Calm s (s.withdrawMapDeferring m).1 := by
  unfold withdrawMapDeferring
  dsimp only
  split
  · exact Calm.refl s
  · dsimp only
    have hpages : Calm s (s.unmapPages (s.maps m)) := ⟨rfl, rfl, rfl, rfl, rfl, rfl, rfl⟩
    have huncounted := hpages.trans
      ((s.unmapPages (s.maps m)).uncountMap_calm (s.mappedObject (s.maps m)) (s.maps m).rights)
    generalize (s.unmapPages (s.maps m)).uncountMap _ _ = u at huncounted ⊢
    have hdropped : Calm u (({ (u.setScope (s.maps m).scope fun node =>
        { node with mapsPending := node.mapsPending - 1 }).release (s.maps m).scope .metadata 1 with
          maps := Function.update u.maps m .empty } : Machine).dropGrantRef (s.maps m).grant) :=
      ⟨rfl, rfl, rfl, rfl, rfl, rfl, rfl⟩
    have hcollected := (huncounted.trans hdropped).trans (collectGrantUpTo_calm _ maxDeriveDepth
      (s.maps m).grant)
    split
    · exact hcollected.trans (announce_calm _ _)
    · exact hcollected

theorem withdrawMap_calm (m : MapId) : Calm s (s.withdrawMap m) := by
  have h := s.withdrawMapDeferring_calm m
  unfold withdrawMap
  split
  · rename_i t i ht
    rw [ht] at h
    exact h.trans (collectMemory_calm _ _ _)
  · rename_i t ht
    rw [ht] at h
    exact h

theorem withdrawMapsOf_calm (target : DomainId) : Calm s (s.withdrawMapsOf target) := by
  refine Calm.foldl ?_ _ s
  intro t m
  split
  · exact t.withdrawMap_calm m
  · exact Calm.refl t

theorem stopThreads_calm (target : DomainId) : Calm s (s.stopThreads target) := by
  refine Calm.foldl ?_ _ s
  intro t slot
  split
  · unfold stopThread
    split <;> exact ⟨rfl, rfl, rfl, rfl, rfl, rfl, rfl⟩
  · exact Calm.refl t

theorem wakeWaiter_calm (i : InvocationId) (code : Status) : Calm s (s.wakeWaiter i code) := by
  unfold wakeWaiter claimHandoff
  split
  · exact Calm.refl s
  · split
    · rename_i h
      split at h
      · rw [← (Prod.mk.inj h).1]
        exact ⟨rfl, rfl, rfl, rfl, rfl, rfl, rfl⟩
      · cases (Prod.mk.inj h).2
    · rename_i h
      split at h
      · cases (Prod.mk.inj h).2
      · rw [← (Prod.mk.inj h).1]
        exact Calm.refl s

theorem discount_calm (record : Invocation) : Calm s (s.discount record) := by
  unfold discount
  dsimp only
  split <;> exact ⟨rfl, rfl, rfl, rfl, rfl, rfl, rfl⟩

theorem releaseInvocation_endpoints (i : InvocationId) :
    (s.releaseInvocation i).endpoints = s.endpoints ∧
      (s.releaseInvocation i).generation = s.generation := by
  unfold releaseInvocation
  dsimp only
  split
  · exact ⟨rfl, rfl⟩
  · generalize ht : (if (s.invocations i).chargedBytes ≠ 0 then _ else _ : Machine) = t
    have hpaid : t.endpoints = s.endpoints ∧ t.generation = s.generation := by
      rw [← ht]
      split <;> exact ⟨rfl, rfl⟩
    have hcount := t.discount_calm (s.invocations i)
    generalize t.discount (s.invocations i) = u at hcount ⊢
    have hcollect := (u.dropGrantRef (s.invocations i).grant).collectGrantUpTo_calm maxDeriveDepth
      (s.invocations i).grant
    have hstands := (collectGrantUpTo maxDeriveDepth (u.dropGrantRef (s.invocations i).grant)
      (s.invocations i).grant).collectInvocation_stands i
    exact ⟨hstands.endpoints.trans (hcollect.endpoints.trans (hcount.endpoints.trans hpaid.1)),
      hstands.generation.trans (hcollect.generation.trans (hcount.generation.trans hpaid.2))⟩

end Machine

end Thalyx.Kernel
