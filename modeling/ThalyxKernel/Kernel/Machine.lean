/-
The kernel's tables: `kernel/src/state.rs`, with the records of `ipc.rs`, `memobj.rs`,
`events.rs`, `ctrl.rs` and `thread.rs`.

Two fields that every object record of the source has, its generation and the number of
capability entries that name it, are kept here for all objects together, and the
capability tables beside the domains; everything else is where the source has it.

The machine is the state between two holds of its locks.  Left out are the fields that are
only reported (labels, names, counters of the diagnostic plane), the bits and deadlines of
signals and timers, the receipts in a log (their number is kept), the registers of a
thread and the device tables.
-/
import ThalyxKernel.Kernel.Frame
import ThalyxKernel.Kernel.Scope

namespace Thalyx.Kernel

/-! ### Threads -/

/-- `ThreadState`.  What the scheduler does between `Ready` and `Running` is not
distinguished. -/
inductive ThreadState where
  | empty | held | running | blocked | dead
  deriving DecidableEq, Repr

/-- `Wait`. -/
inductive Wait where
  | none
  | reply (invocation : InvocationId) (generation : Nat)
  | receive (endpoint : EndpointId) (generation : Nat)
  | other
  deriving DecidableEq, Repr

/-- `Handoff`: whether a buffer is offered, and the handle the sleeper called with. -/
structure Handoff where
  staging : Bool
  handle : Handle
  deriving DecidableEq, Repr

def Handoff.nothing : Handoff := ⟨false, .zero⟩

/-- `ThreadCell`, as far as these operations read it. -/
structure Thread where
  state : ThreadState
  domain : Option DomainId
  domainGeneration : Nat
  ownerScope : ScopeId
  effectiveScope : ScopeId
  recovery : Bool
  parallelismScope : Option ScopeId
  /-- `bound_invocation`: the ticket the thread works for. -/
  bound : Option (InvocationId × Nat)
  wait : Wait
  deadlineNs : Nat
  wakeStatus : Status
  wakeAux : Nat
  handoff : Handoff
  kstackSlot : Nat
  /-- The call this thread is inside of: `call` between its two holds. -/
  calling : Option (InvocationId × Nat)
  /-- The object `unmap` may collect once the processors have answered. -/
  unmapping : Option MemoryId
  /-- The object `seal` publishes once the processors have answered. -/
  sealing : Option (MemoryId × Nat)
  deriving DecidableEq, Repr

/-- `ThreadCell::empty`. -/
def Thread.empty : Thread where
  state := .empty
  domain := none
  domainGeneration := 0
  ownerScope := 0
  effectiveScope := 0
  recovery := false
  parallelismScope := none
  bound := none
  wait := .none
  deadlineNs := 0
  wakeStatus := .ok
  wakeAux := 0
  handoff := .nothing
  kstackSlot := 0
  calling := none
  unmapping := none
  sealing := none

/-! ### Domains -/

/-- `DomainState`. -/
inductive DomainState where
  | empty | building | runnable | faulted | stopping | dead
  deriving DecidableEq, Repr

/-- `Domain`, less its generation, its reference count and its capability table. -/
structure Domain where
  state : DomainState
  id : Nat
  ownerScope : ScopeId
  space : Option AddressSpace
  threads : Fin maxThreadsPerDomain → Option ThreadId
  faultEndpoint : Option ObjRef
  faultGrant : Option GrantId
  faultFacet : Nat
  faultReserved : Bool
  entry : Nat
  segments : Nat
  stackMapped : Bool
  managed : Bool
  reservedPages : Nat
  reservedMetadata : Nat

/-- `Domain::empty`. -/
def Domain.empty : Domain where
  state := .empty
  id := 0
  ownerScope := 0
  space := none
  threads := fun _ => none
  faultEndpoint := none
  faultGrant := none
  faultFacet := 0
  faultReserved := false
  entry := 0
  segments := 0
  stackMapped := false
  managed := false
  reservedPages := 0
  reservedMetadata := 0

/-- `Domain::thread_count`. -/
def Domain.threadCount (d : Domain) : Nat :=
  ((List.finRange maxThreadsPerDomain).filter fun slot => (d.threads slot).isSome).length

/-! ### Memory -/

/-- `memobj::State`. -/
inductive MemoryState where
  | empty | writable | sealing | sealed
  deriving DecidableEq, Repr

/-- `MemoryObject`. -/
structure MemoryObject where
  state : MemoryState
  id : Nat
  base : Frame
  pages : Nat
  maxRights : Rights
  sponsor : ScopeId
  mapCount : Nat
  writableMaps : Nat
  dmaGrants : Nat
  unmappedAt : Nat
  deriving DecidableEq, Repr

/-- `MemoryObject::empty`. -/
def MemoryObject.empty : MemoryObject := ⟨.empty, 0, 0, 0, 0#32, 0, 0, 0, 0, 0⟩

/-- `MapRecord`. -/
structure MapRecord where
  used : Bool
  memory : MemoryId
  memoryGeneration : Nat
  domain : DomainId
  domainGeneration : Nat
  vaddr : Nat
  offsetPages : Nat
  pages : Nat
  rights : Rights
  grant : Option GrantId
  scope : ScopeId
  deriving DecidableEq, Repr

/-- `MapRecord::empty`. -/
def MapRecord.empty : MapRecord := ⟨false, 0, 0, 0, 0, 0, 0, 0, 0#32, none, 0⟩

/-! ### Messages and admitted work -/

/-- `Endpoint`, with the slot's `used` flag. -/
structure Endpoint where
  used : Bool
  opened : Bool
  id : Nat
  ownerScope : ScopeId
  receiverDomain : Option DomainId
  receiverGeneration : Nat
  capacity : Nat
  reservedCells : Nat
  reservedUsed : Nat
  queued : Nat
  head : Option MessageId
  tail : Option MessageId
  facets : Nat
  nextFacet : Nat
  /-- Threads registered to receive. -/
  receivers : ThreadId → Bool

/-- `Endpoint::empty`, in a slot that is not in use. -/
def Endpoint.empty : Endpoint where
  used := false
  opened := false
  id := 0
  ownerScope := 0
  receiverDomain := none
  receiverGeneration := 0
  capacity := 0
  reservedCells := 0
  reservedUsed := 0
  queued := 0
  head := none
  tail := none
  facets := 0
  nextFacet := 1
  receivers := fun _ => false

/-- `Endpoint::has_ordinary_room`. -/
def Endpoint.hasOrdinaryRoom (e : Endpoint) : Bool :=
  e.queued - e.reservedUsed < e.capacity - e.reservedCells

/-- `message_kind`. -/
inductive MessageKind where
  | request | fault
  deriving DecidableEq, Repr

/-- `DeliveredCap`. -/
structure DeliveredCap where
  slot : CapSlot
  handle : Handle
  grant : Option GrantId
  deriving DecidableEq, Repr

/-- `Message`.  `caps` holds the first `cap_count` entries. -/
structure Message where
  used : Bool
  next : Option MessageId
  endpoint : EndpointId
  endpointGeneration : Nat
  invocation : InvocationId
  reservedCell : Bool
  kind : MessageKind
  payload : List UInt8
  caps : List DeliveredCap
  chargedBytes : Nat
  deriving DecidableEq, Repr

/-- `Message::empty`. -/
def Message.empty : Message := ⟨false, none, 0, 0, 0, false, .request, [], [], 0⟩

/-- `ipc::State`. -/
inductive InvocationState where
  | empty | admitted | delivered | resolved
  deriving DecidableEq, Repr

/-- `Effect`. -/
inductive Effect where
  | none | admitted | refused | resolved
  deriving DecidableEq, Repr

/-- `Cancel`. -/
inductive Cancel where
  | live | originFenced | originDead
  deriving DecidableEq, Repr

/-- `outcome`.  A slot that was never answered has none. -/
inductive Outcome where
  | committed | aborted | unknown
  deriving DecidableEq, Repr

/-- `Invocation`, less its generation and its reference count. -/
structure Invocation where
  state : InvocationState
  id : Nat
  endpoint : EndpointId
  endpointGeneration : Nat
  originDomain : DomainId
  originDomainGeneration : Nat
  originScope : ScopeId
  waiter : Option ThreadId
  parentId : Nat
  grant : Option GrantId
  facet : Nat
  cancel : Cancel
  effect : Effect
  closureReservedNs : Nat
  closureService : ScopeId
  admittedNs : Nat
  message : Option MessageId
  receiverDomain : DomainId
  chargedBytes : Nat
  replied : Bool
  outcome : Option Outcome
  replyPayload : List UInt8
  replyCaps : List Handle
  replyResult : Nat
  deriving DecidableEq, Repr

/-- `Invocation::empty`. -/
def Invocation.empty : Invocation where
  state := .empty
  id := 0
  endpoint := 0
  endpointGeneration := 0
  originDomain := 0
  originDomainGeneration := 0
  originScope := 0
  waiter := none
  parentId := 0
  grant := none
  facet := 0
  cancel := .live
  effect := .none
  closureReservedNs := 0
  closureService := 0
  admittedNs := 0
  message := none
  receiverDomain := 0
  chargedBytes := 0
  replied := false
  outcome := none
  replyPayload := []
  replyCaps := []
  replyResult := 0

/-- Admitted work that is not discharged. -/
def Invocation.unresolved (i : Invocation) : Bool :=
  i.state == .admitted || i.state == .delivered

/-! ### Signals, timers, logs -/

/-- `Signal`. -/
structure Signal where
  used : Bool
  id : Nat
  ownerScope : ScopeId
  deriving DecidableEq, Repr

def Signal.empty : Signal := ⟨false, 0, 0⟩

/-- `Timer`. -/
structure Timer where
  used : Bool
  id : Nat
  ownerScope : ScopeId
  signal : SignalId
  signalGeneration : Nat
  bits : Nat
  deriving DecidableEq, Repr

def Timer.empty : Timer := ⟨false, 0, 0, 0, 0, 0⟩

/-- `ControlLog`: how many receipts it holds and how many cells are promised. -/
structure ControlLog where
  used : Bool
  count : Nat
  pendingReservations : Nat
  lost : Nat
  coalesced : Nat
  deriving DecidableEq, Repr

def ControlLog.empty : ControlLog := ⟨false, 0, 0, 0, 0⟩

/-! ### The machine -/

/-- `Machine`, with the scope and thread tables, which the source keeps beside it. -/
structure Machine where
  scopes : Scopes
  /-- `FENCED`: how many scopes are fenced, as every change of state counts it. -/
  fenced : Nat
  domains : DomainId → Domain
  caps : DomainId → CapTable
  grants : GrantId → Grant
  /-- Where the search for a free grant node starts. -/
  grantHint : Nat
  /-- The generation of every object's table entry. -/
  generation : Obj → Nat
  /-- The capability entries naming an object, and the threads bound to an invocation. -/
  refs : Obj → Nat
  memories : MemoryId → MemoryObject
  maps : MapId → MapRecord
  endpoints : EndpointId → Endpoint
  messages : MessageId → Message
  messageFree : MessageId → Bool
  invocations : InvocationId → Invocation
  invocationFree : InvocationId → Bool
  signals : SignalId → Signal
  timers : TimerId → Timer
  logs : LogId → ControlLog
  /-- Device functions assigned to a driver. -/
  devices : DeviceId → Bool
  threads : ThreadId → Thread
  allocator : FrameAllocator
  tlb : Tlb
  kernelSpace : AddressSpace
  kstackUsed : ThreadId → Bool
  nextObjectId : Nat
  systemLog : Option LogId
  /-- Memory objects whose last handle was released, waiting to be reclaimed. -/
  pendingMemory : MemoryId → Bool

namespace Machine

/-! ### Changing one entry of a table -/

def setDomain (s : Machine) (i : DomainId) (f : Domain → Domain) : Machine :=
  { s with domains := Function.update s.domains i (f (s.domains i)) }

def setGrant (s : Machine) (i : GrantId) (f : Grant → Grant) : Machine :=
  { s with grants := Function.update s.grants i (f (s.grants i)) }

/-- The same for a grant that may be none. -/
def setGrantOf (s : Machine) (i : Option GrantId) (f : Grant → Grant) : Machine :=
  { s with
    grants := match i with
      | some i => Function.update s.grants i (f (s.grants i))
      | none => s.grants }

def setMemory (s : Machine) (i : MemoryId) (f : MemoryObject → MemoryObject) : Machine :=
  { s with memories := Function.update s.memories i (f (s.memories i)) }

def setEndpoint (s : Machine) (i : EndpointId) (f : Endpoint → Endpoint) : Machine :=
  { s with endpoints := Function.update s.endpoints i (f (s.endpoints i)) }

def setMessage (s : Machine) (i : MessageId) (f : Message → Message) : Machine :=
  { s with messages := Function.update s.messages i (f (s.messages i)) }

def setInvocation (s : Machine) (i : InvocationId) (f : Invocation → Invocation) : Machine :=
  { s with invocations := Function.update s.invocations i (f (s.invocations i)) }

def setThread (s : Machine) (i : ThreadId) (f : Thread → Thread) : Machine :=
  { s with threads := Function.update s.threads i (f (s.threads i)) }

def setLog (s : Machine) (i : LogId) (f : ControlLog → ControlLog) : Machine :=
  { s with logs := Function.update s.logs i (f (s.logs i)) }

def setScope (s : Machine) (i : ScopeId) (f : Scope → Scope) : Machine :=
  { s with scopes := s.scopes.set i f }

/-- `Scope::set_state`, which keeps the count of fenced scopes.  A slot that is reset or
opened is not fenced before or after, so only the other changes of state go through here. -/
def setScopeState (s : Machine) (i : ScopeId) (state : ScopeState) : Machine :=
  let was := (s.scopes i).state
  if was = state then s
  else
    let fenced := if was = .fenced then s.fenced - 1 else s.fenced
    { s with
      scopes := s.scopes.setState i state
      fenced := if state = .fenced then fenced + 1 else fenced }

/-! ### Objects -/

/-- Whether the table entry of an object is in use. -/
def used (s : Machine) : Obj → Bool
  | .scope i => (s.scopes i).state != .empty
  | .domain i => (s.domains i).state != .empty
  | .memory i => (s.memories i).state != .empty
  | .endpoint i => (s.endpoints i).used
  | .invocation i => (s.invocations i).state != .empty
  | .signal i => (s.signals i).used
  | .timer i => (s.timers i).used
  | .controlLog i => (s.logs i).used
  | .device i => s.devices i

/-- `object_alive`. -/
def objectAlive (s : Machine) (object : ObjRef) : Bool :=
  s.used object.object && s.generation object.object == object.generation

/-- `adjust_object_refs` by one up. -/
def addRef (s : Machine) (object : Obj) : Machine :=
  { s with refs := Function.update s.refs object (s.refs object + 1) }

/-- `adjust_object_refs` by one down, no further than zero. -/
def dropRef (s : Machine) (object : Obj) : Machine :=
  { s with refs := Function.update s.refs object (s.refs object - 1) }

/-- A table entry taken for a new object: nothing names it yet. -/
def renew (s : Machine) (object : Obj) (generation : Nat) : Machine :=
  { s with
    generation := Function.update s.generation object generation
    refs := Function.update s.refs object 0 }

/-- The generation a newly made object gets: one more, as far as 32 bits go. -/
def nextGeneration (s : Machine) (object : Obj) : Nat :=
  min (s.generation object + 1) u32Max

/-- `next_id`. -/
def nextId (s : Machine) : Option (Nat × Machine) :=
  if s.nextObjectId = u64Max then none
  else some (s.nextObjectId, { s with nextObjectId := s.nextObjectId + 1 })

/-! ### The pools of messages and invocations -/

/-- `claim_message`. -/
def claimMessage (s : Machine) : Option (MessageId × Machine) :=
  ((List.finRange maxMessages).find? s.messageFree).map fun i =>
    (i, { s with messageFree := Function.update s.messageFree i false })

/-- `release_message`. -/
def releaseMessage (s : Machine) (i : MessageId) : Machine :=
  { s with messageFree := Function.update s.messageFree i true }

/-- `claim_invocation`. -/
def claimInvocation (s : Machine) : Option (InvocationId × Machine) :=
  ((List.finRange maxInvocations).find? s.invocationFree).map fun i =>
    (i, { s with invocationFree := Function.update s.invocationFree i false })

/-- `Machine::release_invocation`. -/
def freeInvocation (s : Machine) (i : InvocationId) : Machine :=
  { s with invocationFree := Function.update s.invocationFree i true }

end Machine

end Thalyx.Kernel
