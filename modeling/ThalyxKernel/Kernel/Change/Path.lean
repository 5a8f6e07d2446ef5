/-
The changes every run is made of.

One operation is many small changes of the machine, and an invariant has to be looked at
once for each kind of change rather than once for each operation.  `Change` lists the kinds.
What stands in one line here is kept whole where the invariants do not hold in the middle of
it: an admission with its message, a delivery with its ticket, a withdrawal with its discharge.

Each kind carries what the operations have checked by the time they make it.  The one thing
no operation checks before it does it is whether an endpoint that goes away, or loses its
receiver, has messages in its queue; which endpoints may is left to a parameter.
-/
import ThalyxKernel.Kernel.Change.Core
import Mathlib.Logic.Relation

namespace Thalyx.Kernel

open Fallible (final Within)

/-- The states a domain passes through between its creation and its collection. -/
inductive DomainState.Leads : DomainState → DomainState → Prop where
  | activate : Leads .building .runnable
  | stop {was : DomainState} {state : DomainState} (hw : was = .building ∨ was = .runnable)
      (hs : state = .faulted ∨ state = .stopping) : Leads was state
  | reap {was : DomainState} (hw : was = .faulted ∨ was = .stopping) : Leads was .dead

namespace Machine

/-- What a new grant node may say: a root grant is not of an invocation, whose grants are made
with the delivery; a child is no more than its parent. -/
inductive Derives (s : Machine) (object : ObjRef) (rights : Rights) (deadlineNs : Nat) :
    Option GrantId → Prop where
  | root (h : ∀ i, object.object ≠ .invocation i) : Derives s object rights deadlineNs none
  | child {p : GrantId} (used : (s.grants p).used = true)
      (sameObject : (s.grants p).object = object)
      (fewer : rights.within (s.grants p).rights = true)
      (sooner : (s.grants p).deadlineNs ≠ 0 →
        deadlineNs ≠ 0 ∧ deadlineNs ≤ (s.grants p).deadlineNs) :
      Derives s object rights deadlineNs (some p)

/-- The machine with one identity spent. -/
def counted (s : Machine) : Machine := { s with nextObjectId := s.nextObjectId + 1 }

/-- What an admission has claimed for itself before it is published. -/
structure Claimed (s : Machine) (endpoint : EndpointId) (m : MessageId) (i : InvocationId) :
    Prop where
  used : (s.endpoints endpoint).used = true
  opened : (s.endpoints endpoint).opened = true
  message : (s.messages m).used = false
  messageTaken : s.messageFree m = false
  invocation : (s.invocations i).state = .empty
  invocationTaken : s.invocationFree i = false

/-- A domain is the receiver of an endpoint, in this life of the domain. -/
def Receives (s : Machine) (domain : DomainId) (e : EndpointId) : Prop :=
  (s.endpoints e).used = true ∧ (s.endpoints e).receiverDomain = some domain ∧
    (s.endpoints e).receiverGeneration = s.generation (.domain domain)

/-- Whose messages a death withdraws. -/
def originOf (domain : DomainId) (s : Machine) (i : InvocationId) : Bool :=
  (s.invocations i).originDomain == domain &&
    (s.invocations i).originDomainGeneration == s.generation (.domain domain)

/-- The messages of a domain withdrawn, as its death begins. -/
def withdrawOrigin (s : Machine) (domain : DomainId) : Machine :=
  s.withdrawAll (originOf domain) .originDead releaseInvocation

end Machine

/-- One change of the machine.  `drops` says which endpoints may go away or lose their receiver,
and when. -/
inductive Change (drops : Machine → EndpointId → Prop) : Machine → Machine → Prop where
  /-- Bookkeeping. -/
  | aside {s s' : Machine} (h : s'.core = s.core) : Change drops s s'
  /-- Identities spent. -/
  | identity {s s' : Machine} {n : Nat} (h : s'.core = { s.core with nextObjectId := n })
      (hn : s.nextObjectId ≤ n) : Change drops s s'
  /-- A new object in a table whose objects are in no invariant but by their generation. -/
  | renew {s : Machine} {object : Obj}
      (h : object.kind = .memory ∨ object.kind = .signal ∨ object.kind = .timer ∨
        object.kind = .controlLog) : Change drops s (s.renew object (s.nextGeneration object))
  -- Capabilities.
  | capInstall {s s' : Machine} {domain : DomainId} {object : ObjRef} {g : GrantId}
      {at? : Option CapSlot} {handle : Handle}
      (h : s.capInstall domain object (some g) at? = (s', some handle))
      (hu : (s.grants g).used = true) (ho : (s.grants g).object = object) : Change drops s s'
  | capRelease {s : Machine} {domain : DomainId} {slot : CapSlot}
      (h : (s.caps domain slot).live = true) : Change drops s (s.capReleaseSlot domain slot).1
  | grantAlloc {s s' : Machine} {sponsor : ScopeId} {parent : Option GrantId} {object : ObjRef}
      {rights : Rights} {deadlineNs : Nat} {lifeScope : Option ScopeId} {facet : Nat}
      {g : GrantId}
      (h : s.grantAlloc sponsor parent object rights deadlineNs lifeScope facet = (s', some g))
      (hp : s.Derives object rights deadlineNs parent) : Change drops s s'
  | fenceLineage {s : Machine} (root : GrantId) :
      Change drops s { s with grants := fenceLineage s.grants root }
  -- Scopes.
  | openScope {s : Machine} {i parent : ScopeId} (limits : Limits)
      (hi : (s.scopes i).state = .empty) (hp : (s.scopes parent).state = .opened)
      (hd : (s.scopes parent).depth + 1 < maxScopeDepth) :
      Change drops s
        (s.counted.openScope i parent s.nextObjectId ((s.scopes parent).depth + 1) limits)
  | collectRetired {s : Machine} {i : ScopeId} (h : s.retiredCollectable i = true) :
      Change drops s (s.collectRetired i)
  | placeBarrier {s : Machine} (root : ScopeId) : Change drops s (s.placeBarrier root)
  | advanceQuiescence {s : Machine} : Change drops s s.advanceQuiescence
  | retireScopes {s : Machine} (root : ScopeId) : Change drops s (s.retireScopes root)
  -- Domains.
  | openDomain {s : Machine} {i : DomainId} (id : Nat) (ownerScope : ScopeId) (managed : Bool)
      (pages : Nat) (h : (s.domains i).state = .empty) :
      Change drops s (s.openDomain i id ownerScope managed pages)
  | clearDomain {s : Machine} {i : DomainId}
      (h : (s.domains i).state = .dead ∨ ∀ slot, (s.caps i slot).held = none) :
      Change drops s (s.clearDomain i)
  | domainState {s : Machine} {i : DomainId} {state : DomainState}
      (h : (s.domains i).state.Leads state) :
      Change drops s (s.setDomain i fun d => { d with state })
  | openFaultChannel {s : Machine} {i : DomainId} {endpoint : Resolved} {e : EndpointId}
      (hb : (s.domains i).state = .building) (hn : (s.domains i).faultEndpoint = none)
      (hu : (s.grants endpoint.grant).used = true)
      (ho : (s.grants endpoint.grant).object = endpoint.object) :
      Change drops s (s.openFaultChannel i endpoint e)
  | dropFaultChannel {s : Machine} (i : DomainId) : Change drops s (s.dropFaultChannel i)
  -- Mappings.
  | recordMap {s : Machine} {record : MapId} {target : DomainId} {memory : Resolved}
      {object : MemoryId} {request : MapRequest} {before : Nat}
      (h : (s.maps record).used = false) (hu : (s.grants memory.grant).used = true) :
      Change drops s (s.recordMap record target memory object request before)
  | withdrawMap {s : Machine} (m : MapId) : Change drops s (s.withdrawMapDeferring m).1
  -- Endpoints.
  | openEndpoint {s : Machine} {i : EndpointId} (ownerScope : ScopeId) (capacity id : Nat)
      (h : (s.endpoints i).used = false) :
      Change drops s (s.openEndpoint ownerScope capacity i id)
  | dropEndpoint {s : Machine} {i : EndpointId} (h : drops s i) :
      Change drops s (s.setEndpoint i fun _ => .empty)
  | claimReceiver {s : Machine} {i : EndpointId} {domain : DomainId}
      (h : (s.endpoints i).receiverDomain = none ∨ (s.endpoints i).receiverDomain = some domain)
      (ha : (s.domains domain).state = .building ∨ (s.domains domain).state = .runnable) :
      Change drops s (s.setEndpoint i fun e =>
        { e with
          receiverDomain := some domain
          receiverGeneration := s.generation (.domain domain) })
  | closeEndpoints {s : Machine} {domain : DomainId} (h : ∀ e, s.Receives domain e → drops s e) :
      Change drops s (s.closeEndpoints domain)
  -- Admitted work.
  | claimMessage {s : Machine} {m : MessageId} (h : s.messageFree m = true) :
      Change drops s { s with messageFree := Function.update s.messageFree m false }
  | claimInvocation {s : Machine} {i : InvocationId} (h : s.invocationFree i = true) :
      Change drops s { s with invocationFree := Function.update s.invocationFree i false }
  | releaseMessage {s : Machine} {m : MessageId} (h : (s.messages m).used = false) :
      Change drops s (s.releaseMessage m)
  | freeInvocation {s : Machine} {i : InvocationId} (h : (s.invocations i).state = .empty) :
      Change drops s (s.freeInvocation i)
  | publish {s : Machine} {ctx : Ctx} {endpoint : EndpointId} {receiver : DomainId}
      {request : SendRequest} {kind : MessageKind} {waiter : Option ThreadId}
      {i : InvocationId} {m : MessageId} {charged : Nat} {installed : List DeliveredCap}
      (h : s.Claimed endpoint m i) :
      Change drops s (s.counted.publish ctx endpoint receiver request kind waiter i m
        s.nextObjectId charged installed)
  | deliver {s s' : Machine} {receiver : DomainId} {endpoint : EndpointId} {m : MessageId}
      {ticket : Handle} (h : s.deliver receiver endpoint m = (s', .ok ticket))
      (hu : (s.endpoints endpoint).used = true) (hm : (s.endpoints endpoint).head = some m) :
      Change drops s s'
  | markReplied {s : Machine} {i : InvocationId} (h : (s.invocations i).state ≠ .admitted) :
      Change drops s (s.answeredFirst i)
  | discharge {s : Machine} {i : InvocationId} (h : (s.invocations i).state ≠ .admitted) :
      Change drops s (s.releaseInvocation i)
  | withdrawUndelivered {s : Machine} (root : ScopeId) :
      Change drops s (s.withdrawUndelivered root)
  | withdrawOrigin {s : Machine} (domain : DomainId) : Change drops s (s.withdrawOrigin domain)

/-- What a run of changes leads to. -/
def Path (drops : Machine → EndpointId → Prop) : Machine → Machine → Prop :=
  Relation.ReflTransGen (Change drops)

end Thalyx.Kernel
