/-
What the invariants of the kernel are about, apart from the accounts.

Most of what an operation does is bookkeeping: frames, page tables, accounts, threads,
receipts.  The core of a machine is the rest, field by field: who is where in the tree of
scopes, which entries, grants and mappings there are, what stands in the queues.  Functions
that leave the core alone are shown to do so here, and the invariants never look at them
again.

Grant nodes and table entries count only while they are in use: a node that was taken and
given back, or a slot that was withdrawn for good, is no difference.
-/
import ThalyxKernel.Kernel.Leftovers
import ThalyxKernel.Kernel.System

namespace Thalyx.Kernel

open Function

/-! ### The core -/

/-- The place of a scope in the tree. -/
structure ScopePlace where
  state : ScopeState
  id : Nat
  parent : Option ScopeId
  depth : Nat
  children : Nat

def Scope.place (node : Scope) : ScopePlace :=
  ⟨node.state, node.id, node.parent, node.depth, node.children⟩

/-- What a domain is, apart from its memory and its threads. -/
structure DomainPlace where
  state : DomainState
  id : Nat
  ownerScope : ScopeId
  faultEndpoint : Option ObjRef
  faultGrant : Option GrantId

def Domain.place (d : Domain) : DomainPlace :=
  ⟨d.state, d.id, d.ownerScope, d.faultEndpoint, d.faultGrant⟩

/-- An endpoint's queue and who may take from it. -/
structure Queue where
  used : Bool
  opened : Bool
  receiverDomain : Option DomainId
  receiverGeneration : Nat
  queued : Nat
  reservedUsed : Nat
  head : Option MessageId
  tail : Option MessageId

def Endpoint.queue (e : Endpoint) : Queue :=
  ⟨e.used, e.opened, e.receiverDomain, e.receiverGeneration, e.queued, e.reservedUsed, e.head,
    e.tail⟩

/-- What an invocation is and how far it got. -/
structure Record where
  state : InvocationState
  id : Nat
  endpoint : EndpointId
  endpointGeneration : Nat
  originDomain : DomainId
  originDomainGeneration : Nat
  grant : Option GrantId
  message : Option MessageId
  replied : Bool

def Invocation.record (i : Invocation) : Record :=
  ⟨i.state, i.id, i.endpoint, i.endpointGeneration, i.originDomain, i.originDomainGeneration,
    i.grant, i.message, i.replied⟩

/-- The machine without its bookkeeping. -/
structure Core where
  scopes : ScopeId → ScopePlace
  fenced : Nat
  domains : DomainId → DomainPlace
  held : DomainId → CapSlot → Option (Nat × ObjRef × Option GrantId)
  grants : GrantId → Option Grant
  generation : Obj → Nat
  maps : MapId → MapRecord
  endpoints : EndpointId → Queue
  messages : MessageId → Message
  messageFree : MessageId → Bool
  invocations : InvocationId → Record
  invocationFree : InvocationId → Bool
  nextObjectId : Nat

namespace Machine

def core (s : Machine) : Core where
  scopes := fun i => (s.scopes i).place
  fenced := s.fenced
  domains := fun i => (s.domains i).place
  held := fun d slot => (s.caps d slot).held
  grants := fun g => (s.grants g).shown
  generation := s.generation
  maps := s.maps
  endpoints := fun i => (s.endpoints i).queue
  messages := s.messages
  messageFree := s.messageFree
  invocations := fun i => (s.invocations i).record
  invocationFree := s.invocationFree
  nextObjectId := s.nextObjectId

/-! ### Reading a machine through its core -/

section Reading

variable {s s' : Machine}

theorem place_of_core (h : s'.core = s.core) (i : ScopeId) :
    (s'.scopes i).place = (s.scopes i).place :=
  congrFun (congrArg Core.scopes h) i

theorem domain_of_core (h : s'.core = s.core) (i : DomainId) :
    (s'.domains i).place = (s.domains i).place :=
  congrFun (congrArg Core.domains h) i

theorem held_of_core (h : s'.core = s.core) (d : DomainId) (slot : CapSlot) :
    (s'.caps d slot).held = (s.caps d slot).held :=
  congrFun (congrFun (congrArg Core.held h) d) slot

theorem grant_of_core (h : s'.core = s.core) (g : GrantId) :
    (s'.grants g).shown = (s.grants g).shown :=
  congrFun (congrArg Core.grants h) g

theorem node_of_core (h : s'.core = s.core) {g : GrantId} (hu : (s.grants g).used = true) :
    s'.grants g = s.grants g := by
  have hshown := grant_of_core h g
  unfold Grant.shown at hshown
  rw [if_pos hu] at hshown
  split at hshown
  · exact Option.some.inj hshown
  · cases hshown

theorem queue_of_core (h : s'.core = s.core) (i : EndpointId) :
    (s'.endpoints i).queue = (s.endpoints i).queue :=
  congrFun (congrArg Core.endpoints h) i

theorem record_of_core (h : s'.core = s.core) (i : InvocationId) :
    (s'.invocations i).record = (s.invocations i).record :=
  congrFun (congrArg Core.invocations h) i

end Reading

/-! ### Bookkeeping -/

section Bookkeeping

variable (s : Machine)

@[simp] theorem setThread_core (i : ThreadId) (f : Thread → Thread) :
    (s.setThread i f).core = s.core := rfl

@[simp] theorem setMemory_core (i : MemoryId) (f : MemoryObject → MemoryObject) :
    (s.setMemory i f).core = s.core := rfl

@[simp] theorem setLog_core (i : LogId) (f : ControlLog → ControlLog) :
    (s.setLog i f).core = s.core := rfl

@[simp] theorem addRef_core (object : Obj) : (s.addRef object).core = s.core := rfl

@[simp] theorem dropRef_core (object : Obj) : (s.dropRef object).core = s.core := rfl

@[simp] theorem allocator_core (allocator : FrameAllocator) :
    { s with allocator }.core = s.core := rfl

@[simp] theorem bumpTlb_core : s.bumpTlb.core = s.core := rfl

@[simp] theorem retireFrame_core (frame : Frame) (owner : Owner) (stamp : Nat) :
    (s.retireFrame frame owner stamp).core = s.core := rfl

theorem update_seen {ι α β : Type} [DecidableEq ι] (see : α → β) (t : ι → α) (i : ι) (x : α)
    (h : see x = see (t i)) : (fun j => see (update t i x j)) = fun j => see (t j) := by
  funext j
  by_cases hj : j = i
  · subst hj
    rw [update_self, h]
  · rw [update_of_ne hj]

variable {scopes : Scopes}

theorem scopes_core (h : ∀ i, (scopes i).place = (s.scopes i).place) :
    { s with scopes }.core = s.core := by
  show ({ s.core with scopes := fun i => (scopes i).place } : Core) = s.core
  rw [funext h]
  rfl

variable {f : Scope → Scope}

theorem setScope_core (i : ScopeId)
    (h : (f (s.scopes i)).place = (s.scopes i).place) : (s.setScope i f).core = s.core :=
  s.scopes_core (congrFun (update_seen Scope.place s.scopes i _ h))

theorem setDomain_core (i : DomainId) {f : Domain → Domain}
    (h : (f (s.domains i)).place = (s.domains i).place) : (s.setDomain i f).core = s.core := by
  show ({ s.core with domains := fun j => (update s.domains i _ j).place } : Core) = s.core
  rw [update_seen Domain.place s.domains i _ h]
  rfl

theorem setEndpoint_core (i : EndpointId) {f : Endpoint → Endpoint}
    (h : (f (s.endpoints i)).queue = (s.endpoints i).queue) :
    (s.setEndpoint i f).core = s.core := by
  show ({ s.core with endpoints := fun j => (update s.endpoints i _ j).queue } : Core) =
    s.core
  rw [update_seen Endpoint.queue s.endpoints i _ h]
  rfl

theorem setInvocation_core (i : InvocationId) {f : Invocation → Invocation}
    (h : (f (s.invocations i)).record = (s.invocations i).record) :
    (s.setInvocation i f).core = s.core := by
  show ({ s.core with invocations := fun j => (update s.invocations i _ j).record } :
    Core) = s.core
  rw [update_seen Invocation.record s.invocations i _ h]
  rfl

@[simp] theorem release_core (scope : ScopeId) (resource : Resource) (amount : Nat) :
    (s.release scope resource amount).core = s.core := by
  unfold release
  rw [Scopes.release_eq]
  rfl

theorem reserve_core {scope : ScopeId} {resource : Resource} {amount : Nat}
    (h : s.scopes.reserve scope resource amount = some scopes) :
    { s with scopes }.core = s.core := by
  rw [Scopes.reserve_eq h]
  rfl

@[simp] theorem receipt_core (closing reserved : Bool) :
    (s.receipt closing reserved).core = s.core := by
  unfold receipt
  split <;> rfl

@[simp] theorem releaseReceipt_core : s.releaseReceipt.core = s.core := by
  unfold releaseReceipt
  split <;> rfl

theorem reserveReceipt_core {s s' : Machine} (h : s.reserveReceipt = some s') :
    s'.core = s.core := by
  unfold reserveReceipt at h
  split at h
  · rw [← Option.some.inj h]
  · split at h
    · rw [← Option.some.inj h]
      rfl
    · cases h

theorem foldl_core {ι : Type} {f : Machine → ι → Machine} (h : ∀ s i, (f s i).core = s.core)
    (l : List ι) (s : Machine) : (l.foldl f s).core = s.core := by
  induction l generalizing s with
  | nil => rfl
  | cons i rest ih => rw [List.foldl_cons, ih, h]

theorem foldl_place (h : ∀ node, (f node).place = node.place)
    (l : List ScopeId) (t : Scopes) (i : ScopeId) :
    ((l.foldl (fun t j => t.set j f) t) i).place = (t i).place := by
  induction l generalizing t with
  | nil => rfl
  | cons j rest ih =>
    rw [List.foldl_cons, ih]
    exact congrFun (update_seen Scope.place t j _ (h _)) i

@[simp] theorem takeParallelism_core (scope : ScopeId) :
    { s with scopes := s.scopes.takeParallelism scope }.core = s.core :=
  s.scopes_core
    (foldl_place (f := fun node => { node with parallelismUsed := node.parallelismUsed + 1 })
      (fun _ => rfl) _ _)

@[simp] theorem dropParallelism_core (scope : ScopeId) :
    { s with scopes := s.scopes.dropParallelism scope }.core = s.core :=
  s.scopes_core
    (foldl_place (f := fun node => { node with parallelismUsed := node.parallelismUsed - 1 })
      (fun _ => rfl) _ _)

end Bookkeeping

end Machine

end Thalyx.Kernel
