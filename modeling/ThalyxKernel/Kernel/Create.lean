/-
The operations that make something: `create_child` (`api/scopeops.rs`), `create_endpoint`
and `bind_facet` (`api/ipcops.rs`), `create_signal` and `create_timer` (`api/evtops.rs`),
`create` of `api/memops.rs`, `create` and `install_cap` of `api/domainops.rs`, and `derive`
(`api/capops.rs`).

Each is entered with a handle that resolves to the type and the rights the interface's
operation table demands, makes its object, and then a grant and a table entry for the
caller.  The last two can fail, and only `derive` gives back what it made when they do.
-/
import ThalyxKernel.Kernel.Build

namespace Thalyx.Kernel

namespace Op

/-- Entry of an operation: the caller's handle, resolved. -/
def enter (caller : Caller) (kind : Option ObjKind) (rights : Rights) : Op Ctx := do
  let cap ← ask fun s => s.resolve caller.domain caller.handle kind rights caller.now
  pure { caller with cap }

/-- Entry of an operation on a scope. -/
def atScope {α : Type} (caller : Caller) (rights : Rights) (body : Ctx → ScopeId → Op α) :
    Op α := do
  let ctx ← enter caller (some .scope) rights
  match ctx.cap.object.object with
  | .scope i => body ctx i
  | _ => throw .wrongType

/-- Entry of an operation on a domain. -/
def atDomain {α : Type} (caller : Caller) (rights : Rights) (body : Ctx → DomainId → Op α) :
    Op α := do
  let ctx ← enter caller (some .domain) rights
  match ctx.cap.object.object with
  | .domain i => body ctx i
  | _ => throw .wrongType

/-- Entry of an operation on an endpoint. -/
def atEndpoint {α : Type} (caller : Caller) (rights : Rights)
    (body : Ctx → EndpointId → Op α) : Op α := do
  let ctx ← enter caller (some .endpoint) rights
  match ctx.cap.object.object with
  | .endpoint i => body ctx i
  | _ => throw .wrongType

/-- Entry of an operation on an invocation. -/
def atInvocation {α : Type} (caller : Caller) (rights : Rights)
    (body : Ctx → InvocationId → Op α) : Op α := do
  let ctx ← enter caller (some .invocation) rights
  match ctx.cap.object.object with
  | .invocation i => body ctx i
  | _ => throw .wrongType

/-! ### What the creations have in common -/

/-- One unit of metadata in `sponsor` and an identity for the object it is for.  Without an
identity the unit goes back. -/
def identity (sponsor : ScopeId) : Op Nat := do
  reserve sponsor .metadata 1 id .limitExhausted
  nextId (fun s => s.release sponsor .metadata 1) .limitExhausted

/-- The creator's grant on a new object and its handle. -/
def publish (domain : DomainId) (object : ObjRef) (rights : Rights) : Op Handle := do
  let s ← get
  let grant ← orElse
    (fun s' => s'.grantAlloc (s.domains domain).ownerScope none object rights 0 none 0)
    .limitExhausted
  orElse (fun s' => s'.capInstall domain object (some grant) none) .limitExhausted

/-- The creation of an object that costs its sponsor one unit: a free slot of the object's
table, the unit and an identity, the record, then the creator's handle. -/
def make {ι : Type} (domain : DomainId) (sponsor : ScopeId) (slot : Machine → Option ι)
    (write : ι → Nat → Machine → Machine) (object : ι → Obj) (rights : Rights) :
    Op Handle := do
  require (fun s => (s.scopes sponsor).state == .opened) .scopeClosed
  let index ← orElse (fun s => (s, slot s)) .limitExhausted
  let id ← identity sponsor
  modify (write index id)
  let s ← get
  publish domain ⟨object index, s.generation (object index)⟩ rights

/-- A deadline asked for, against the parent's: zero asks for the parent's. -/
def deadline (requested parent : Nat) : Op Nat :=
  if requested = 0 then pure parent
  else if parent ≠ 0 ∧ requested > parent then throw .invalidArgument
  else pure requested

end Op

namespace Machine

/-! ### Scopes -/

/-- What `collect_retired` demands. -/
def retiredCollectable (s : Machine) (i : ScopeId) : Bool :=
  (s.scopes i).state == .retired && s.refs (.scope i) == 0 && (s.scopes i).threads == 0
    && !s.scopes.hasChild i

/-- `collect_retired`, on a scope that meets its demands. -/
def collectRetired (s : Machine) (i : ScopeId) : Machine :=
  let allocator := s.allocator.reassignQuarantine (.scope i) .kernel
  let scopes := match (s.scopes i).parent with
    | some p => s.scopes.set p fun node => { node with children := node.children - 1 }
    | none => s.scopes
  { s with
    allocator, scopes := scopes.reset i, refs := Function.update s.refs (.scope i) 0 }

/-- The slot a new scope takes: an empty one, or the first retired one that can be
collected. -/
def takeScopeSlot (s : Machine) : Machine × Option ScopeId :=
  match (List.finRange maxScopes).find? fun i => (s.scopes i).state == .empty with
  | some i => (s, some i)
  | none =>
    match (List.finRange maxScopes).find? s.retiredCollectable with
    | some i => (s.collectRetired i, some i)
    | none => (s, none)

/-- A scope slot written and published. -/
def openScope (s : Machine) (i parent : ScopeId) (id depth : Nat) (limits : Limits) : Machine :=
  let s := s.renew (.scope i) (s.nextGeneration (.scope i))
  let s := s.setScope i fun _ =>
    { Scope.empty with state := .opened, id, parent := some parent, depth, limits }
  s.setScope parent fun node => { node with children := node.children + 1 }

end Machine

/-- `fits`: every ceiling of the first is inside the second. -/
def Limits.fits (child parent : Limits) : Bool :=
  child.memoryPages ≤ parent.memoryPages && child.metadataObjects ≤ parent.metadataObjects
    && child.cpuBudgetNs ≤ parent.cpuBudgetNs && child.queueBytes ≤ parent.queueBytes
    && child.closureReserveNs ≤ parent.closureReserveNs
    && child.parallelism ≤ parent.parallelism

/-- `ScopeCreateRequest`. -/
structure ScopeCreateRequest where
  limits : Limits
  reserved0 : Nat

/-- `create_child`. -/
def createChild (caller : Caller) (request : ScopeCreateRequest) : Op Handle :=
  Op.atScope caller Right.scopeLimit fun ctx parent => do
    Op.require (fun _ => request.reserved0 == 0) .invalidArgument
    Op.require (fun s => (s.scopes parent).state == .opened) .scopeClosed
    Op.require (fun s => (s.scopes parent).depth + 1 < maxScopeDepth) .limitExhausted
    Op.require (fun s => request.limits.fits (s.scopes parent).limits) .limitExhausted
    let depth := ((← get).scopes parent).depth + 1
    let index ← Op.orElse Machine.takeScopeSlot .limitExhausted
    let id ← Op.identity parent
    modify fun s => s.openScope index parent id depth request.limits
    let generation := (← get).generation (.scope index)
    Op.publish ctx.domain ⟨.scope index, generation⟩ (ObjKind.rightsMask .scope)

/-! ### Endpoints -/

/-- `EndpointCreateRequest`. -/
structure EndpointCreateRequest where
  queueCapacity : Nat
  reserved0 : Nat

/-- A free endpoint slot. -/
def Machine.endpointSlot (s : Machine) : Option EndpointId :=
  (List.finRange maxEndpoints).find? fun i => !(s.endpoints i).used

/-- An endpoint slot written. -/
def Machine.openEndpoint (ownerScope : ScopeId) (capacity : Nat) (i : EndpointId) (id : Nat)
    (s : Machine) : Machine :=
  (s.renew (.endpoint i) (s.nextGeneration (.endpoint i))).setEndpoint i fun _ =>
    { Endpoint.empty with used := true, opened := true, id, ownerScope, capacity }

/-- `create_endpoint`. -/
def createEndpoint (caller : Caller) (request : EndpointCreateRequest) : Op Handle :=
  Op.atScope caller Right.scopeCreate fun ctx sponsor => do
    Op.require (fun _ => request.reserved0 == 0) .invalidArgument
    Op.require (fun _ => request.queueCapacity != 0 && request.queueCapacity ≤ maxEndpointQueue)
      .invalidArgument
    Op.make ctx.domain sponsor Machine.endpointSlot
      (Machine.openEndpoint sponsor request.queueCapacity) .endpoint
      (ObjKind.rightsMask .endpoint)

/-- `BindFacetRequest`. -/
structure BindFacetRequest where
  rightsMask : Rights
  deadlineNs : Nat
  facet : Nat
  reserved0 : Nat

/-- `bind_facet`. -/
def bindFacet (caller : Caller) (request : BindFacetRequest) : Op Handle :=
  Op.atEndpoint caller Right.endpointBind fun ctx index => do
    Op.require (fun _ => request.reserved0 == 0 && request.facet == 0) .invalidArgument
    Op.require (fun _ => request.rightsMask.within ctx.cap.rights) .insufficientRights
    Op.require (fun _ => request.rightsMask.within (ObjKind.rightsMask .endpoint))
      .invalidArgument
    let parent := (← get).grants ctx.cap.grant
    let deadline ← Op.deadline request.deadlineNs parent.deadlineNs
    Op.require (fun s => (s.endpoints index).nextFacet != u64Max) .limitExhausted
    let facet := ((← get).endpoints index).nextFacet
    modify fun s => s.setEndpoint index fun e =>
      { e with nextFacet := e.nextFacet + 1, facets := e.facets + 1 }
    let sponsor := ((← get).domains ctx.domain).ownerScope
    let grant ← Op.orElse
      (fun s => s.grantAlloc sponsor (some ctx.cap.grant) ctx.cap.object request.rightsMask
        deadline parent.lifeScope facet) .limitExhausted
    Op.orElse (fun s => s.capInstall ctx.domain ctx.cap.object (some grant) none)
      .limitExhausted

/-! ### Signals and timers -/

/-- A free signal slot. -/
def Machine.signalSlot (s : Machine) : Option SignalId :=
  (List.finRange maxSignals).find? fun i => !(s.signals i).used

/-- A signal slot written. -/
def Machine.openSignal (ownerScope : ScopeId) (i : SignalId) (id : Nat) (s : Machine) : Machine :=
  { s.renew (.signal i) (s.nextGeneration (.signal i)) with
    signals := Function.update s.signals i ⟨true, id, ownerScope⟩ }

/-- `create_signal`. -/
def createSignal (caller : Caller) : Op Handle :=
  Op.atScope caller Right.scopeCreate fun ctx sponsor =>
    Op.make ctx.domain sponsor Machine.signalSlot (Machine.openSignal sponsor) .signal
      (ObjKind.rightsMask .signal)

/-- `TimerCreateRequest`. -/
structure TimerCreateRequest where
  signalHandle : Handle
  bits : Nat

/-- The signal a resolved capability names. -/
def Resolved.signal (cap : Resolved) : Op SignalId :=
  match cap.object.object with
  | .signal i => pure i
  | _ => throw .wrongType

/-- A free timer slot. -/
def Machine.timerSlot (s : Machine) : Option TimerId :=
  (List.finRange maxTimers).find? fun i => !(s.timers i).used

/-- A timer slot written. -/
def Machine.openTimer (ownerScope : ScopeId) (signal : SignalId) (signalGeneration bits : Nat)
    (i : TimerId) (id : Nat) (s : Machine) : Machine :=
  { s.renew (.timer i) (s.nextGeneration (.timer i)) with
    timers := Function.update s.timers i ⟨true, id, ownerScope, signal, signalGeneration, bits⟩ }

/-- `create_timer`. -/
def createTimer (caller : Caller) (request : TimerCreateRequest) : Op Handle :=
  Op.atScope caller Right.scopeCreate fun ctx sponsor => do
    let cap ← Op.ask fun s =>
      s.resolve ctx.domain request.signalHandle (some .signal) Right.signalRaise ctx.now
    let signal ← cap.signal
    Op.require (fun _ => request.bits != 0) .invalidArgument
    Op.make ctx.domain sponsor Machine.timerSlot
      (Machine.openTimer sponsor signal cap.object.generation request.bits) .timer
      (ObjKind.rightsMask .timer)

/-! ### Memory -/

/-- `MemoryCreateRequest`. -/
structure MemoryCreateRequest where
  pages : Nat
  maxRights : Rights
  reserved0 : Nat

/-- A free memory slot. -/
def Machine.memorySlot (s : Machine) : Option MemoryId :=
  (List.finRange maxMemoryObjects).find? fun i => (s.memories i).state == .empty

/-- A memory slot written. -/
def Machine.openMemory (sponsor : ScopeId) (base : Frame) (request : MemoryCreateRequest)
    (i : MemoryId) (id : Nat) (s : Machine) : Machine :=
  (s.renew (.memory i) (s.nextGeneration (.memory i))).setMemory i fun _ =>
    { state := .writable, id, base, pages := request.pages, maxRights := request.maxRights,
      sponsor, mapCount := 0, writableMaps := 0, dmaGrants := 0, unmappedAt := 0 }

/-- `alloc_contiguous` for a scope, with the two reservations returned when it refuses. -/
def Op.allocPages (sponsor : ScopeId) (pages : Nat) : Op Frame := fun s =>
  match s.allocator.allocContiguous s.tlb.safeGeneration pages (.scope sponsor) with
  | (allocator, some base) => .ok base { s with allocator }
  | (allocator, none) =>
    .error .limitExhausted
      (({ s with allocator }.release sponsor .metadata 1).release sponsor .memoryPages pages)

/-- `memops::create`. -/
def createMemory (caller : Caller) (request : MemoryCreateRequest) : Op Handle :=
  Op.atScope caller Right.scopeCreate fun ctx sponsor => do
    Op.require (fun _ => request.reserved0 == 0) .invalidArgument
    Op.require (fun _ => request.pages != 0 && request.pages ≤ maxObjectPages) .invalidArgument
    Op.require (fun _ => request.maxRights.within (ObjKind.rightsMask .memory)) .invalidArgument
    Op.require (fun s => (s.scopes sponsor).state == .opened) .scopeClosed
    let index ← Op.orElse (fun s => (s, s.memorySlot)) .limitExhausted
    Op.reserve sponsor .metadata 1 id .limitExhausted
    Op.reserve sponsor .memoryPages request.pages (fun s => s.release sponsor .metadata 1)
      .limitExhausted
    let base ← Op.allocPages sponsor request.pages
    -- The reservations and the frames stay where they are when no identity is left.
    let id ← Op.nextId id .limitExhausted
    modify (Machine.openMemory sponsor base request index id)
    let generation := (← get).generation (.memory index)
    Op.publish ctx.domain ⟨.memory index, generation⟩ (request.maxRights ||| commonRights)

/-! ### Domains -/

/-- `DomainCreateRequest`, with what the ELF reader makes of the image object's bytes. -/
structure DomainCreateRequest where
  imageHandle : Handle
  image : Option Image

/-- A build as a part of an operation. -/
def Op.ofBuild {α : Type} (b : Build α) : Op α := fun s =>
  match b s with
  | .ok a s => .ok a s
  | .error e s => .error e.status s

/-- `domainops::create`. -/
def createDomain (caller : Caller) (request : DomainCreateRequest) : Op Handle :=
  Op.atScope caller Right.scopeCreate fun ctx scope => do
    let _ ← Op.ask fun s =>
      s.resolve ctx.domain request.imageHandle (some .memory) Right.memoryRead ctx.now
    let index ← Op.ofBuild (Machine.createIn request.image scope true)
    let generation := (← get).generation (.domain index)
    Op.publish ctx.domain ⟨.domain index, generation⟩ (ObjKind.rightsMask .domain)

/-- `InstallCapRequest`. -/
structure InstallCapRequest where
  sourceHandle : Handle
  targetSlot : Nat
  rightsMask : Rights
  deadlineNs : Nat

/-- The grant `install_cap` installs: the source's own for a copy, else a narrower child. -/
def installedGrant (target : DomainId) (source : Resolved) (request : InstallCapRequest) :
    Op GrantId := do
  if request.rightsMask = 0#32 ∧ request.deadlineNs = 0 then pure source.grant
  else
    Op.require (fun _ => request.rightsMask.within source.rights) .insufficientRights
    let parent := (← get).grants source.grant
    let deadline ← Op.deadline request.deadlineNs parent.deadlineNs
    let sponsor := ((← get).domains target).ownerScope
    Op.orElse
      (fun s => s.grantAlloc sponsor (some source.grant) source.object request.rightsMask
        deadline parent.lifeScope parent.facet) .limitExhausted

/-- The receive side of an endpoint, claimed for `target`. -/
def claimReceiver (target : DomainId) (index : EndpointId) : Op Unit := do
  Op.require (fun s => (s.endpoints index).receiverDomain.all (· == target)) .stateConflict
  modify fun s => s.setEndpoint index fun e =>
    { e with
      receiverDomain := some target
      receiverGeneration := s.generation (.domain target) }

/-- The claim that goes with installing a capability that can receive. -/
def claimFor (target : DomainId) (object : Obj) (rights : Rights) : Op Unit :=
  match object with
  | .endpoint index =>
    if rights &&& Right.endpointReceive ≠ 0#32 then claimReceiver target index else pure ()
  | _ => pure ()

/-- `install_cap`. -/
def installCap (caller : Caller) (request : InstallCapRequest) : Op Handle :=
  Op.atDomain caller Right.domainBuild fun ctx target => do
    Op.require (fun s => (s.domains target).state == .building) .stateConflict
    if h : request.targetSlot < maxCaps then
      let source ← Op.ask fun s =>
        s.resolve ctx.domain request.sourceHandle none Right.transfer ctx.now
      let grant ← installedGrant target source request
      let rights := ((← get).grants grant).rights
      claimFor target source.object.object rights
      Op.orElse
        (fun s => s.capInstall target source.object (some grant) (some ⟨request.targetSlot, h⟩))
        .limitExhausted
    else throw .invalidArgument

/-! ### Derivation -/

/-- `DeriveRequest`. -/
structure DeriveRequest where
  rightsMask : Rights
  deadlineNs : Nat
  lifeScope : Handle
  reserved0 : Nat

/-- The life scope of a derivation: the parent's, or the one a handle names. -/
def derivedLife (ctx : Ctx) (parent : Grant) (handle : Handle) : Op (Option ScopeId) := do
  if handle = .zero then pure parent.lifeScope
  else
    let cap ← Op.ask fun s =>
      s.resolve ctx.domain handle (some .scope) Right.inspect ctx.now
    match cap.object.object with
    | .scope i => pure (some i)
    | _ => throw .wrongType

/-- The undoing of a derivation whose handle could not be installed: the parent loses the
child, the node is emptied and its charge returned. -/
def Machine.undoDerive (s : Machine) (parent child : GrantId) : Machine :=
  let s := s.setGrant parent fun node => { node with children := node.children - 1 }
  let sponsor := (s.grants child).sponsor
  let s := { s.setGrant child fun _ => .empty with grantHint := min s.grantHint child }
  s.release sponsor .metadata 1

/-- `derive`. -/
def derive (caller : Caller) (request : DeriveRequest) : Op Handle := do
  let ctx ← Op.enter caller none Right.derive
  Op.require (fun _ => request.reserved0 == 0) .invalidArgument
  let parent := (← get).grants ctx.cap.grant
  Op.require (fun _ => request.rightsMask.within parent.rights) .insufficientRights
  Op.require (fun _ => request.rightsMask.within ctx.cap.object.object.kind.rightsMask)
    .invalidArgument
  let deadline ← Op.deadline request.deadlineNs parent.deadlineNs
  let lifeScope ← derivedLife ctx parent request.lifeScope
  let sponsor := ((← get).domains ctx.domain).ownerScope
  let child ← Op.orElse
    (fun s => s.grantAlloc sponsor (some ctx.cap.grant) ctx.cap.object request.rightsMask
      deadline lifeScope parent.facet) .limitExhausted
  Op.orUndo (fun s => s.capInstall ctx.domain ctx.cap.object (some child) none)
    (fun s => s.undoDerive ctx.cap.grant child) .limitExhausted

end Thalyx.Kernel
