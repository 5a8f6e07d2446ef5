/-
The operations that move what exists: copies, closes and barriers on grants
(`api/capops.rs`), ceilings, barriers, drains and retirement of scopes
(`api/scopeops.rs`), mappings and memory (`api/domainops.rs`, `api/memops.rs`), and the life
of a domain from activation to the reap (`domain.rs`).

Where an operation waits for the other processors in the middle, `unmap` and `seal`, it is
two steps: what it does before the wait and what it does after.  Whether the processors
acknowledged in time is an input.
-/
import ThalyxKernel.Kernel.Discharge

namespace Thalyx.Kernel

/-! ### Capabilities -/

/-- `capops::copy`. -/
def copyCap (caller : Caller) : Op Handle := do
  let ctx ← Op.enter caller none 0#32
  Op.orElse (fun s => s.capInstall ctx.domain ctx.cap.object (some ctx.cap.grant) none)
    .limitExhausted

/-- `capops::close`, which resolves its handle as an observer does. -/
def closeCap (caller : Caller) : Op Unit := do
  let _ ← Op.ask fun s => s.resolveObserver caller.domain caller.handle none 0#32
  Op.orElse
    (fun s => match s.capRelease caller.domain caller.handle with
      | (s, released) => (s, if released then some () else none))
    .invalidHandle

/-- One pass of `fence_lineage`: every node whose parent is fenced, in the table's order. -/
def fencePass (grants : GrantId → Grant) : GrantId → Grant :=
  (List.finRange maxGrants).foldl
    (fun grants g =>
      if (grants g).used && !(grants g).fenced
          && (grants g).parent.any fun p => (grants p).fenced then
        Function.update grants g { grants g with fenced := true }
      else grants) grants

/-- `fence_lineage`.  A pass that changes nothing leaves nothing for the next, which is where
the source stops. -/
def fenceLineage (grants : GrantId → Grant) (root : GrantId) : GrantId → Grant :=
  let grants :=
    if (grants root).used then
      Function.update grants root { grants root with fenced := true }
    else grants
  fencePass^[maxDeriveDepth] grants

/-- `capops::fence`. -/
def fenceCap (caller : Caller) : Op Unit := do
  let ctx ← Op.enter caller none Right.admin
  modify fun s =>
    { s with grants := fenceLineage s.grants ctx.cap.grant }.receipt false false

/-! ### Scopes -/

/-- `set_limits`. -/
def setLimits (caller : Caller) (request : ScopeCreateRequest) : Op Unit :=
  Op.atScope caller Right.scopeLimit fun _ i => do
    Op.require (fun _ => request.reserved0 == 0) .invalidArgument
    Op.require (fun s => (s.scopes i).state == .opened) .scopeClosed
    Op.require
      (fun s => (s.scopes i).parent.all fun p => request.limits.fits (s.scopes p).limits)
      .limitExhausted
    Op.require
      (fun s =>
        (s.scopes i).used .memoryPages ≤ request.limits.memoryPages
          && (s.scopes i).used .metadata ≤ request.limits.metadataObjects
          && (s.scopes i).used .queueBytes ≤ request.limits.queueBytes)
      .stateConflict
    modify fun s => s.setScope i fun node => { node with limits := request.limits }

namespace Machine

/-- `scope::fence`: the open scopes at or below `root` are fenced, one slot after the other. -/
def placeBarrier (s : Machine) (root : ScopeId) : Machine :=
  (List.finRange maxScopes).foldl
    (fun s i =>
      if (s.scopes i).state = .opened ∧ s.scopes.isWithin root i then s.setScopeState i .fenced
      else s) s

/-- `advance_quiescence`. -/
def advanceQuiescence (s : Machine) : Machine :=
  (List.finRange maxScopes).foldl
    (fun s i => if s.scopes.drained i then s.setScopeState i .quiescent else s) s

/-- `cancel_waits`. -/
def cancelWaits (s : Machine) (root : ScopeId) : Machine :=
  { s with
    threads := fun i =>
      let t := s.threads i
      if t.state = .blocked
          ∧ (s.scopes.isWithin root t.effectiveScope ∨ s.scopes.isWithin root t.ownerScope) then
        { t with
          wait := .none, deadlineNs := 0, wakeStatus := .cancelled, wakeAux := 0,
          handoff := .nothing, state := .running }
      else t }

/-- What `scopeops::fence` does behind its handle. -/
def fenceScope (s : Machine) (root : ScopeId) : Machine :=
  let s := s.placeBarrier root
  let s := s.cancelWaits root
  let s := (s.withdrawUndelivered root).markCancelled root
  (s.receipt false false).advanceQuiescence

/-- Releases the entries of one domain that name `object`. -/
def withdrawIn (object : ObjRef) (s : Machine) (domain : DomainId) : Machine :=
  if (s.domains domain).state = .empty then s
  else
    (List.finRange maxCaps).foldl
      (fun s slot =>
        if (s.caps domain slot).live ∧ (s.caps domain slot).object = object then
          (s.capReleaseSlot domain slot).1
        else s) s

/-- `withdraw_everywhere`. -/
def withdrawEverywhere (s : Machine) (object : ObjRef) : Machine :=
  (List.finRange maxDomains).foldl (withdrawIn object) s

/-- A memory object given back: its frames by `give`, its charges, its slot. -/
def freeMemory (s : Machine) (i : MemoryId)
    (give : FrameAllocator → Frame → Owner → FrameAllocator) : Machine :=
  let object := s.memories i
  let owner := Owner.scope object.sponsor
  let allocator := (List.range object.pages).foldl
    (fun a page => give a (object.base + page) owner) s.allocator
  let s := { s with allocator }
  let s := s.release object.sponsor .memoryPages object.pages
  let s := s.release object.sponsor .metadata 1
  let s := s.setMemory i fun _ => .empty
  { s with refs := Function.update s.refs (.memory i) 0 }

/-- `release_sponsored`, on one memory object. -/
def retireMemory (root : ScopeId) (s : Machine) (i : MemoryId) : Machine :=
  let object := s.memories i
  if object.state = .empty ∨ !s.scopes.isWithin root object.sponsor ∨ object.mapCount ≠ 0 then s
  else
    (s.withdrawEverywhere ⟨.memory i, s.generation (.memory i)⟩).freeMemory i
      FrameAllocator.release

/-- `release_sponsored`, on one endpoint. -/
def retireEndpoint (root : ScopeId) (s : Machine) (i : EndpointId) : Machine :=
  let owner := (s.endpoints i).ownerScope
  if !(s.endpoints i).used ∨ !s.scopes.isWithin root owner then s
  else
    let s := s.withdrawEverywhere ⟨.endpoint i, s.generation (.endpoint i)⟩
    (s.release owner .metadata 1).setEndpoint i fun _ => .empty

/-- `release_sponsored`, on one signal. -/
def retireSignal (root : ScopeId) (s : Machine) (i : SignalId) : Machine :=
  let owner := (s.signals i).ownerScope
  if !(s.signals i).used ∨ !s.scopes.isWithin root owner then s
  else
    let s := s.withdrawEverywhere ⟨.signal i, s.generation (.signal i)⟩
    let s := s.release owner .metadata 1
    { s with
      signals := Function.update s.signals i .empty
      refs := Function.update s.refs (.signal i) 0 }

/-- `release_sponsored`, on one timer. -/
def retireTimer (root : ScopeId) (s : Machine) (i : TimerId) : Machine :=
  let owner := (s.timers i).ownerScope
  if !(s.timers i).used ∨ !s.scopes.isWithin root owner then s
  else
    let s := s.withdrawEverywhere ⟨.timer i, s.generation (.timer i)⟩
    let s := s.release owner .metadata 1
    { s with
      timers := Function.update s.timers i .empty
      refs := Function.update s.refs (.timer i) 0 }

/-- `release_sponsored`. -/
def releaseSponsored (s : Machine) (root : ScopeId) : Machine :=
  let s := (List.finRange maxMemoryObjects).foldl (retireMemory root) s
  let s := (List.finRange maxEndpoints).foldl (retireEndpoint root) s
  let s := (List.finRange maxSignals).foldl (retireSignal root) s
  (List.finRange maxTimers).foldl (retireTimer root) s

/-- The scopes in use at or below `root`, retired. -/
def retireScopes (s : Machine) (root : ScopeId) : Machine :=
  (List.finRange maxScopes).foldl
    (fun s i =>
      if (s.scopes i).state ≠ .empty ∧ s.scopes.isWithin root i then s.setScopeState i .retired
      else s) s

/-- The part of `scopeops::retire` that comes after the report. -/
def retireReported (root : ScopeId) : Op Unit := fun s =>
  match (s.scopes root).state with
  | .opened => .error .stateConflict s
  | .fenced => .error .drainIncomplete s
  | .retired => .ok () s
  | _ => .ok () (((s.releaseSponsored root).retireScopes root).receipt false false)

end Machine

/-- `scopeops::fence`. -/
def fence (caller : Caller) : Op Unit :=
  Op.atScope caller Right.scopeFence fun _ root => modify fun s => s.fenceScope root

/-- `scopeops::drain_status`. -/
def drainStatus (caller : Caller) : Op Unit :=
  Op.atScope caller Right.inspect fun _ _ => modify Machine.advanceQuiescence

/-- `scopeops::retire`. -/
def retire (caller : Caller) : Op Unit :=
  Op.atScope caller Right.scopeFence fun _ root => do
    modify Machine.advanceQuiescence
    Machine.retireReported root

/-! ### Mappings and memory -/

/-- `MAP_TABLE_RESERVE`. -/
abbrev mapTableReserve : Nat := 4

/-- `MapRequest`. -/
structure MapRequest where
  memoryHandle : Handle
  vaddr : Nat
  offsetPages : Nat
  pageCount : Nat
  rights : Rights
  reserved0 : Nat

/-- `mapping_rights`. -/
def mappingRights (rights : Rights) : Except Status PageRights :=
  let read := rights &&& Right.memoryRead ≠ 0#32
  let write := rights &&& Right.memoryWrite ≠ 0#32
  let execute := rights &&& Right.memoryExecute ≠ 0#32
  if ¬ read ∧ (write ∨ execute) then .error .insufficientRights
  else if write ∧ execute then .error .invalidArgument
  else if ¬ read then .error .invalidArgument
  else .ok ⟨true, read, write, execute⟩

/-- The memory a resolved capability names. -/
def Resolved.memory (cap : Resolved) : Op MemoryId :=
  match cap.object.object with
  | .memory i => pure i
  | _ => throw .wrongType

/-- The status a refused mapping answers. -/
def MapError.status : MapError → Status
  | .alreadyMapped => .stateConflict
  | .outOfMemory => .limitExhausted
  | _ => .invalidArgument

namespace Machine

/-- A free map record. -/
def mapSlot (s : Machine) : Option MapId :=
  (List.finRange maxMaps).find? fun i => !(s.maps i).used

/-- The pages of a mapping in turn: how many were installed and what stopped it. -/
def mapPages (target : DomainId) (base vaddr : Nat) (rights : PageRights) :
    Nat → Nat → Machine → Machine × Option MapError
  | 0, _, s => (s, none)
  | n + 1, page, s =>
    match (s.domains target).space with
    | none => (s, some .outOfMemory)
    | some space =>
      match space.map (vaddr + page * pageSize) (base + page) rights s.allocator
          s.tlb.safeGeneration (.domain target) with
      | (allocator, space', .ok ()) =>
        mapPages target base vaddr rights n (page + 1)
          ({ s with allocator }.setDomain target fun d => { d with space := some space' })
      | (allocator, space', .error e) =>
        let s := { s with allocator }.setDomain target fun d => { d with space := some space' }
        -- The pages installed so far are taken out again.
        (s.setDomain target fun d =>
          { d with
            space := d.space.map fun space =>
              (List.range page).foldl
                (fun space p => (space.unmap (vaddr + p * pageSize)).1) space }, some e)

/-- The record of a mapping, and what it counts. -/
def recordMap (s : Machine) (record : MapId) (target : DomainId) (memory : Resolved)
    (object : MemoryId) (request : MapRequest) (chargedBefore : Nat) : Machine :=
  let owner := (s.domains target).ownerScope
  let s := { s with
    maps := Function.update s.maps record
      { used := true, memory := object, memoryGeneration := memory.object.generation
        domain := target, domainGeneration := s.generation (.domain target)
        vaddr := request.vaddr, offsetPages := request.offsetPages, pages := request.pageCount
        rights := request.rights, grant := some memory.grant, scope := owner } }
  let s := s.addGrantRef (some memory.grant)
  let taken := min (s.allocator.charged (.domain target) - chargedBefore) mapTableReserve
  let s := s.release owner .memoryPages (mapTableReserve - taken)
  let s := s.setDomain target fun d => { d with reservedPages := d.reservedPages + taken }
  let s := s.setMemory object fun m =>
    { m with
      mapCount := m.mapCount + 1
      writableMaps :=
        if request.rights &&& Right.memoryWrite ≠ 0#32 then m.writableMaps + 1
        else m.writableMaps }
  s.setScope owner fun node => { node with mapsPending := node.mapsPending + 1 }

/-- The pages of a mapping installed and recorded, or everything given back. -/
def installMap (record : MapId) (target : DomainId) (memory : Resolved) (object : MemoryId)
    (request : MapRequest) (rights : PageRights) : Op Unit := fun s =>
  let owner := (s.domains target).ownerScope
  let before := s.allocator.charged (.domain target)
  match s.mapPages target ((s.memories object).base + request.offsetPages) request.vaddr rights
      request.pageCount 0 with
  | (s, none) => .ok () (s.recordMap record target memory object request before)
  | (s, some e) =>
    .error e.status ((s.release owner .metadata 1).release owner .memoryPages mapTableReserve)

/-- `collect_memory_acked`.  That the processors which held a translation have flushed is
read off the generations alone. -/
def collectMemory (s : Machine) (i : MemoryId) (acknowledged : Bool) : Machine :=
  let object := s.memories i
  if object.state = .empty ∨ s.refs (.memory i) ≠ 0 ∨ object.mapCount ≠ 0
      ∨ object.dmaGrants ≠ 0 then s
  else if (s.scopes object.sponsor).state = .retired
      ∨ (s.scopes object.sponsor).state = .empty then s
  else if acknowledged ∨ object.unmappedAt ≤ s.tlb.safeGeneration then
    s.freeMemory i FrameAllocator.release
  else
    let s := s.bumpTlb
    s.freeMemory i fun a frame owner => a.retireAt frame owner s.tlb.generation

/-- The object a map record was installed against, if its slot still holds it. -/
def mappedObject (s : Machine) (record : MapRecord) : Option MemoryId :=
  if s.generation (.memory record.memory) = record.memoryGeneration then some record.memory
  else none

/-- The pages of a mapping that its domain still has. -/
def mappedPages (s : Machine) (record : MapRecord) : Nat :=
  match (s.domains record.domain).space with
  | none => 0
  | some space =>
    ((List.range record.pages).filter fun page =>
      (space.unmap (record.vaddr + page * pageSize)).2.isSome).length

/-- The pages of a mapping taken out of the domain's space. -/
def unmapPages (s : Machine) (record : MapRecord) : Machine :=
  s.setDomain record.domain fun d =>
    { d with
      space := d.space.map fun space =>
        (List.range record.pages).foldl
          (fun space page => (space.unmap (record.vaddr + page * pageSize)).1) space }

/-- The withdrawal of pages announced to the other processors, and noted on the object. -/
def announce (s : Machine) (object : Option MemoryId) : Machine :=
  let s := s.bumpTlb
  match object with
  | some i => s.setMemory i fun memory => { memory with unmappedAt := s.tlb.generation }
  | none => s

/-- The object of a mapping loses it. -/
def uncountMap (s : Machine) (object : Option MemoryId) (rights : Rights) : Machine :=
  match object with
  | some i => s.setMemory i fun memory =>
    { memory with
      mapCount := memory.mapCount - 1
      writableMaps :=
        if rights &&& Right.memoryWrite ≠ 0#32 then memory.writableMaps - 1
        else memory.writableMaps }
  | none => s

/-- `withdraw_map_deferring`: the object to collect afterwards, if it is still there. -/
def withdrawMapDeferring (s : Machine) (m : MapId) : Machine × Option MemoryId :=
  let record := s.maps m
  if !record.used then (s, none)
  else
    let object := s.mappedObject record
    let removed := s.mappedPages record
    let s := (s.unmapPages record).uncountMap object record.rights
    let s := s.setScope record.scope fun node => { node with mapsPending := node.mapsPending - 1 }
    let s := s.release record.scope .metadata 1
    let s := { s with maps := Function.update s.maps m .empty }
    let s := (s.dropGrantRef record.grant).collectGrant record.grant
    (if removed ≠ 0 then s.announce object else s, object)

/-- `withdraw_map`. -/
def withdrawMap (s : Machine) (m : MapId) : Machine :=
  match s.withdrawMapDeferring m with
  | (s, some i) => s.collectMemory i false
  | (s, none) => s

/-- `drain_pending_memory`. -/
def drainPendingMemory (s : Machine) : Machine :=
  (List.finRange maxMemoryObjects).foldl
    (fun t i => if s.pendingMemory i then t.collectMemory i false else t)
    { s with pendingMemory := fun _ => false }

/-- The writers of an object withdrawn, in the table's order. -/
def withdrawWriters (s : Machine) (object : MemoryId) : Machine :=
  (List.finRange maxMaps).foldl
    (fun t m =>
      if (t.maps m).used ∧ (t.maps m).memory = object
          ∧ (t.maps m).memoryGeneration = s.generation (.memory object)
          ∧ (t.maps m).rights &&& Right.memoryWrite ≠ 0#32 then t.withdrawMap m
      else t) s

end Machine

/-- `domainops::map`. -/
def map (caller : Caller) (request : MapRequest) : Op Unit :=
  Op.atDomain caller Right.domainBuild fun ctx target => do
    Op.require (fun _ => request.reserved0 == 0 && request.pageCount != 0) .invalidArgument
    Op.require
      (fun s => (s.domains target).state == .building || (s.domains target).state == .runnable)
      .stateConflict
    let memory ← Op.ask fun s =>
      s.resolve ctx.domain request.memoryHandle (some .memory) Right.memoryMap ctx.now
    let object ← memory.memory
    Op.require (fun _ => request.rights.within memory.rights) .insufficientRights
    Op.require (fun s => request.rights.within (s.memories object).maxRights) .insufficientRights
    let rights ← Op.ask fun _ => mappingRights request.rights
    Op.require (fun s => !rights.write || (s.memories object).state == .writable) .stateConflict
    Op.require (fun s => request.offsetPages + request.pageCount ≤ (s.memories object).pages)
      .invalidArgument
    Op.require
      (fun _ => request.vaddr % pageSize == 0 && userMinAddr ≤ request.vaddr
        && request.vaddr + request.pageCount * pageSize ≤ userMaxAddr) .invalidArgument
    let record ← Op.orElse (fun s => (s, s.mapSlot)) .limitExhausted
    let owner := ((← get).domains target).ownerScope
    Op.reserve owner .metadata 1 id .limitExhausted
    Op.reserve owner .memoryPages mapTableReserve (fun s => s.release owner .metadata 1)
      .limitExhausted
    Machine.installMap record target memory object request rights

/-- `UnmapRequest`. -/
structure UnmapRequest where
  vaddr : Nat
  pageCount : Nat
  reserved0 : Nat

/-- The record `unmap` withdraws. -/
def Machine.mapAt (s : Machine) (target : DomainId) (request : UnmapRequest) : Option MapId :=
  (List.finRange maxMaps).find? fun m =>
    (s.maps m).used && (s.maps m).domain == target
      && (s.maps m).domainGeneration == s.generation (.domain target)
      && (s.maps m).vaddr == request.vaddr && (s.maps m).pages == request.pageCount

/-- The first half of `unmap` on a record. -/
def Machine.beginUnmap (s : Machine) (thread : ThreadId) (record : MapId) : Machine :=
  match s.withdrawMapDeferring record with
  | (s, object) => s.setThread thread fun t => { t with unmapping := object }

/-- `domainops::unmap`, until it waits for the other processors. -/
def unmap (caller : Caller) (request : UnmapRequest) : Op Unit :=
  Op.atDomain caller Right.domainBuild fun _ target => do
    Op.require (fun _ => request.reserved0 == 0) .invalidArgument
    let record ← Op.orElse (fun s => (s, s.mapAt target request)) .invalidArgument
    modify fun s => s.beginUnmap caller.thread record

/-- `domainops::unmap`, after the wait. -/
def finishUnmap (s : Machine) (thread : ThreadId) (acknowledged : Bool) : Machine :=
  match (s.threads thread).unmapping with
  | none => s
  | some object =>
    (s.setThread thread fun t => { t with unmapping := none }).collectMemory object acknowledged

/-- The first half of `seal` on an object. -/
def Machine.beginSeal (thread : ThreadId) (object : MemoryId) : Op Unit := fun s =>
  match (s.memories object).state with
  | .sealed => .ok () s
  | .empty => .error .stateConflict s
  | _ =>
    if (s.memories object).dmaGrants ≠ 0 then .error .stateConflict s
    else
      let s := (s.setMemory object fun m => { m with state := .sealing }).withdrawWriters object
      .ok () (s.setThread thread fun t =>
        { t with sealing := some (object, s.generation (.memory object)) })

/-- `memops::seal`, until it waits for the other processors. -/
def sealMemory (caller : Caller) : Op Unit := do
  let ctx ← Op.enter caller (some .memory) Right.memorySeal
  let object ← ctx.cap.memory
  Machine.beginSeal caller.thread object

/-- `memops::seal`, after the wait. -/
def finishSeal (s : Machine) (thread : ThreadId) (acknowledged : Bool) : Machine :=
  match (s.threads thread).sealing with
  | none => s
  | some (object, generation) =>
    let s := s.setThread thread fun t => { t with sealing := none }
    if s.generation (.memory object) = generation ∧ (s.memories object).state ≠ .empty
        ∧ (s.memories object).writableMaps = 0 ∧ acknowledged then
      s.setMemory object fun m => { m with state := .sealed }
    else s

/-! ### The life of a domain -/

/-- `ThreadCreateRequest`. -/
structure ThreadCreateRequest where
  entry : Nat
  stackTop : Nat
  reserved0 : Nat

namespace Machine

/-- The addresses a new thread starts with lie in pages it can use. -/
def threadMapped (s : Machine) (target : DomainId) (request : ThreadCreateRequest) : Bool :=
  match (s.domains target).space with
  | none => false
  | some space =>
    (space.translate request.entry).any PageRights.user
      && (space.translate (request.stackTop - 8)).any fun r => r.user && r.write

/-- A free thread slot of a domain. -/
def threadSlot (s : Machine) (target : DomainId) : Option (Fin maxThreadsPerDomain) :=
  (List.finRange maxThreadsPerDomain).find? fun slot => ((s.domains target).threads slot).isNone

/-- A further thread of a domain, written and charged. -/
def joinThread (s : Machine) (target : DomainId) (slot : Fin maxThreadsPerDomain)
    (thread kstack : ThreadId) : Machine :=
  let owner := (s.domains target).ownerScope
  let s := match s.nextId with
    | some (_, s) => s
    | none => s
  let s := s.initialiseThread thread target kstack
  let s := s.setDomain target fun d =>
    { d with
      threads := Function.update d.threads slot (some thread)
      reservedPages := d.reservedPages + kstackPages
      reservedMetadata := d.reservedMetadata + 1 }
  let s := s.setScope owner fun node => { node with threads := node.threads + 1 }
  s.chargeParallelism thread owner

/-- `add_thread_in`. -/
def addThreadIn (target : DomainId) : Build Unit := do
  let slot ← Op.orElse (fun s => (s, s.threadSlot target)) .threadTableFull
  let thread ← Op.orElse (fun s => (s, s.findEmptyThread)) .threadTableFull
  let owner := ((← get).domains target).ownerScope
  Op.require (fun s => s.scopes.hasParallelism owner) .limitExhausted
  Op.reserve owner .memoryPages kstackPages id .limitExhausted
  Op.reserve owner .metadata 1 (fun s => s.release owner .memoryPages kstackPages) .limitExhausted
  let kstack ← allocateKernelStack.orUndo fun s =>
    (s.release owner .memoryPages kstackPages).release owner .metadata 1
  modify fun s => s.joinThread target slot thread kstack

/-- `add_thread_in` with the status its refusals are answered with. -/
def addThreadAs (target : DomainId) : Op Unit := fun s =>
  match addThreadIn target s with
  | .ok () s => .ok () s
  | .error _ s => .error .limitExhausted s

end Machine

/-- `domainops::add_thread`. -/
def addThread (caller : Caller) (request : ThreadCreateRequest) : Op Unit :=
  Op.atDomain caller Right.domainBuild fun _ target => do
    Op.require (fun _ => request.reserved0 == 0) .invalidArgument
    Op.require (fun s => (s.domains target).state == .building) .stateConflict
    Op.require (fun s => s.threadMapped target request) .invalidArgument
    Machine.addThreadAs target

/-- `FaultChannelRequest`. -/
structure FaultChannelRequest where
  endpointHandle : Handle
  reserved0 : Nat

/-- The endpoint a resolved capability names. -/
def Resolved.endpoint (cap : Resolved) : Op EndpointId :=
  match cap.object.object with
  | .endpoint i => pure i
  | _ => throw .wrongType

/-- The fault channel of a domain, written. -/
def Machine.openFaultChannel (s : Machine) (target : DomainId) (endpoint : Resolved)
    (index : EndpointId) : Machine :=
  let s := s.setEndpoint index fun e => { e with reservedCells := e.reservedCells + 1 }
  let s := s.addGrantRef (some endpoint.grant)
  s.setDomain target fun d =>
    { d with
      faultEndpoint := some endpoint.object, faultGrant := some endpoint.grant
      faultFacet := endpoint.facet, faultReserved := true }

/-- `set_fault_channel`. -/
def setFaultChannel (caller : Caller) (request : FaultChannelRequest) : Op Unit :=
  Op.atDomain caller Right.domainBuild fun ctx target => do
    Op.require (fun _ => request.reserved0 == 0) .invalidArgument
    Op.require (fun s => (s.domains target).state == .building) .stateConflict
    Op.require (fun s => (s.domains target).faultEndpoint.isNone) .stateConflict
    let endpoint ← Op.ask fun s =>
      s.resolve ctx.domain request.endpointHandle (some .endpoint) Right.endpointSend ctx.now
    let index ← endpoint.endpoint
    Op.require (fun s => (s.endpoints index).reservedCells + 1 < (s.endpoints index).capacity)
      .limitExhausted
    modify fun s => s.openFaultChannel target endpoint index

namespace Machine

/-- The first thread of a domain. -/
def firstThread (s : Machine) (target : DomainId) : Option ThreadId :=
  (List.finRange maxThreadsPerDomain).findSome? (s.domains target).threads

/-- What `activate_in` demands. -/
def activatable (target : DomainId) (s : Machine) : Bool :=
  let d := s.domains target
  d.state == .building && d.space.isSome && d.segments != 0 && d.stackMapped
    && (s.firstThread target).isSome
    && ((d.space.bind fun space => space.translate d.entry).any fun r => r.user && r.execute)
    && (!d.managed || d.faultEndpoint.isSome)
    && (s.scopes d.ownerScope).state == .opened

/-- `activate_in`, on a domain that meets its demands. -/
def activateIn (s : Machine) (target : DomainId) : Machine :=
  let s := s.setDomain target fun d => { d with state := .runnable }
  { s with
    threads := fun i =>
      if (List.finRange maxThreadsPerDomain).any fun slot =>
          (s.domains target).threads slot == some i then
        { s.threads i with state := .running }
      else s.threads i }

/-- `stop_thread`. -/
def stopThread (s : Machine) (i : ThreadId) : Machine :=
  let s := match (s.threads i).parallelismScope with
    | some scope => { s with scopes := s.scopes.dropParallelism scope }
    | none => s
  s.setThread i fun t =>
    { t with parallelismScope := none, wait := .none, deadlineNs := 0, state := .dead }

/-- The threads of a domain stopped. -/
def stopThreads (s : Machine) (target : DomainId) : Machine :=
  (List.finRange maxThreadsPerDomain).foldl
    (fun s slot => match (s.domains target).threads slot with
      | some thread => s.stopThread thread
      | none => s) s

/-- The mappings in a domain withdrawn. -/
def withdrawMapsOf (s : Machine) (target : DomainId) : Machine :=
  (List.finRange maxMaps).foldl
    (fun s m => if (s.maps m).used ∧ (s.maps m).domain = target then s.withdrawMap m else s) s

/-- `terminate_in`: the machine afterwards and whether the domain was there to stop. -/
def terminateIn (s : Machine) (target : DomainId) (faulted : Bool) : Machine × Bool :=
  if (s.domains target).state ≠ .building ∧ (s.domains target).state ≠ .runnable then (s, false)
  else
    let s := s.setDomain target fun d =>
      { d with state := if faulted then .faulted else .stopping }
    let s := s.stopThreads target
    let s := s.withdrawMapsOf target
    let s := s.onDomainDeath target
    (s.releaseSlots target (List.finRange maxCaps), true)

/-- `terminate_on_fault`. -/
def terminateOnFault (s : Machine) (thread : ThreadId) (domain : DomainId)
    (report : List UInt8) (now : Nat) : Machine :=
  ((s.deliverFault domain thread report now).terminateIn domain true).1

/-- What a reap demands, apart from no processor standing on the domain. -/
def reapable (s : Machine) (target : DomainId) : Bool :=
  ((s.domains target).state == .faulted || (s.domains target).state == .stopping)
    && (s.domains target).space.isSome

/-- `reap_dead`, on one domain. -/
def reap (s : Machine) (target : DomainId) : Machine :=
  let threads := (s.domains target).threadCount
  let s := (List.finRange maxThreadsPerDomain).foldl (clearThread target) s
  let s := s.destroySpace target
  let d := s.domains target
  let s := s.release d.ownerScope .memoryPages d.reservedPages
  let s := s.release d.ownerScope .metadata d.reservedMetadata
  let s := s.setScope d.ownerScope fun node => { node with threads := node.threads - max threads 1 }
  s.setDomain target fun d =>
    { d with reservedPages := 0, reservedMetadata := 0, state := .dead }

end Machine

/-- `domainops::activate`. -/
def activate (caller : Caller) : Op Unit :=
  Op.atDomain caller Right.domainActivate fun _ target => do
    Op.require (Machine.activatable target) .stateConflict
    modify fun s => s.activateIn target

/-- `domainops::terminate`. -/
def terminate (caller : Caller) : Op Unit :=
  Op.atDomain caller Right.domainStop fun _ target =>
    Op.orElse (fun s => match s.terminateIn target false with
      | (s, stopped) => (s, if stopped then some () else none)) .stateConflict

end Thalyx.Kernel
