/-
Memory on several processors: the tables, the processors' translation caches, and the
invalidation protocol between them (`kernel/src/tlb.rs`).

A hold of the machine lock is one step.  What a processor does without the lock is a step of
its own: entering a space (`note_dispatch`, `switch_space`), catching up with the published
generation (`refresh_local`), walking a page table, storing through a translation it holds.
A processor may hold any translation its loaded space has had since it last flushed.

The lock does not stop the other processors from walking and flushing.  That makes a
difference at two points inside a hold, and there the hold carries the list of what happens
meanwhile: before a failed mapping takes its pages out again, and between the generation a
kernel stack is retired at and the removal of its pages.

An operation that gives the lock up and waits is split where the source splits it.  The wait
itself is two reads, of the generation it publishes and then of the processors it must hear
from, and ends either way: every one of them has flushed, or the patience has run out.
-/
import ThalyxKernel.Kernel.Memory.Model
import ThalyxKernel.Lib.Run

namespace Thalyx.Kernel.Memory

open AddressSpace (pageSize)

/-- A translation: the page, the frame it names and the rights. -/
abbrev Translation := Nat × Nat × PageRights

/-- The announcement an operation waits for: its generation, and the processors it must hear
from once it has looked. -/
structure Wait where
  generation : Nat
  mask : Option (Cpu → Bool)

/-- An operation between its holds of the lock. -/
inductive Pending where
  | none
  /-- `unmap`: the object it may collect, with its generation; the generation its own
  withdrawal was published at, and the processors that noted on the object. -/
  | unmapping (target : DomainId) (memory : Option (MemoryId × Nat)) (withdrawn : Nat)
      (noted : Cpu → Bool) (wait : Option Wait)
  /-- `seal`: the object and its generation. -/
  | sealing (memory : MemoryId) (generation : Nat) (wait : Option Wait)
  /-- `reset`, while the transport is asked to confirm. -/
  | resetting (device : DeviceId)

/-- `Processor`, with the translations it holds. -/
structure Processor where
  online : Bool
  seen : Nat
  seenKernel : Nat
  /-- The domain whose space is loaded; none is the kernel's own. -/
  loaded : Option DomainId
  /-- A switch that is decided and not carried out. -/
  next : Option (Option DomainId)
  cache : List Translation
  /-- Global translations of the kernel's half. -/
  kernelCache : List Translation
  pending : Pending

/-- The machine. -/
structure State where
  tables : Tables
  /-- `GENERATION`. -/
  generation : Nat
  /-- `KERNEL_GENERATION`. -/
  kernelGeneration : Nat
  /-- `SPACE_LIVE`. -/
  live : DomainId → Cpu → Bool
  cpus : Cpu → Processor

namespace State

@[simps] def setCpu (s : State) (c : Cpu) (f : Processor → Processor) : State :=
  { s with cpus := Function.update s.cpus c (f (s.cpus c)) }

/-! ### Invalidation -/

/-- `safe_generation`. -/
def safeGeneration (s : State) : Nat :=
  match (List.finRange maxCpus).filter fun c => (s.cpus c).online with
  | [] => s.generation
  | online => online.foldl (fun safe c => min safe (s.cpus c).seen) u64Max

/-- `flushed_by`. -/
def flushedBy (s : State) (mask : Cpu → Bool) (generation : Nat) : Bool :=
  (List.finRange maxCpus).all fun c =>
    !(mask c && (s.cpus c).online) || generation ≤ (s.cpus c).seen

/-- `publish`, `retire_stamp`: the next generation. -/
@[simps] def publish (s : State) : State := { s with generation := s.generation + 1 }

/-- `retire_stamp_kernel`. -/
@[simps] def publishKernel (s : State) : State :=
  { s with generation := s.generation + 1, kernelGeneration := s.kernelGeneration + 1 }

/-- The frame and rights a page has in the space a processor has loaded. -/
def translates (s : State) (c : Cpu) (page : Nat) : Option (Nat × PageRights) :=
  (s.cpus c).loaded.bind fun d =>
    (s.tables.domains d).space.bind fun space => space.leaves.lookup page

/-! ### What a processor does on its own -/

/-- The steps of one processor. -/
inductive Alone where
  /-- `plan` and `note_dispatch`: a thread of the domain is to run. -/
  | note (c : Cpu) (d : DomainId)
  /-- The idle thread is to run, in the kernel's own space. -/
  | rest (c : Cpu)
  /-- `switch_space`. -/
  | switch (c : Cpu)
  /-- `refresh_local`. -/
  | refresh (c : Cpu)
  /-- A page of the loaded space is translated and the translation kept. -/
  | walk (c : Cpu) (page : Nat)
  /-- The same for a page of the kernel's half. -/
  | walkKernel (c : Cpu) (page : Nat)

/-- `refresh_local`: everything of the user half goes, and the global translations if one of
them was withdrawn. -/
def refresh (s : State) (c : Cpu) : State :=
  if s.generation ≤ (s.cpus c).seen then s
  else
    s.setCpu c fun p =>
      { p with
        cache := []
        kernelCache := if p.seenKernel < s.kernelGeneration then [] else p.kernelCache
        seenKernel := s.kernelGeneration
        seen := s.generation }

/-- `switch_space`: loading a root retires every translation of the user half, and the
processor leaves the set of the space it was in. -/
def switch (s : State) (c : Cpu) : State :=
  match (s.cpus c).next with
  | none => s
  | some target =>
    if (s.cpus c).loaded = target then s.setCpu c fun p => { p with next := none }
    else
      let leaving := (s.cpus c).loaded
      let s := s.setCpu c fun p => { p with loaded := target, next := none, cache := [] }
      match leaving with
      | none => s
      | some d => { s with live := Function.update s.live d (Function.update (s.live d) c false) }

/-- A processor that is inside no operation and has decided on no switch. -/
def free (s : State) (c : Cpu) : Bool :=
  (s.cpus c).online && (s.cpus c).next.isNone && match (s.cpus c).pending with
    | .none => true
    | _ => false

/-- One step of one processor; what it cannot do it leaves undone. -/
def alone (s : State) : Alone → State
  | .note c d =>
    if s.free c ∧ (s.tables.domains d).state = .runnable
        ∧ (s.tables.domains d).space.isSome then
      let s := { s with live := Function.update s.live d (Function.update (s.live d) c true) }
      s.setCpu c fun p => { p with next := some (some d) }
    else s
  | .rest c =>
    if s.free c then
      s.setCpu c fun p => { p with next := some none }
    else s
  | .switch c => if (s.cpus c).online then s.switch c else s
  | .refresh c => if (s.cpus c).online then s.refresh c else s
  | .walk c page =>
    match s.translates c page with
    | some (frame, rights) =>
      if (s.cpus c).online then
        s.setCpu c fun p => { p with cache := (page, frame, rights) :: p.cache }
      else s
    | none => s
  | .walkKernel c page =>
    match s.tables.kernel.leaves.lookup page with
    | some (frame, rights) =>
      if (s.cpus c).online then
        s.setCpu c fun p => { p with kernelCache := (page, frame, rights) :: p.kernelCache }
      else s
    | none => s

/-- The processor of a step. -/
def Alone.cpu : Alone → Cpu
  | .note c _ | .rest c | .switch c | .refresh c | .walk c _ | .walkKernel c _ => c

/-- A walk, which also the processor that holds the lock may make. -/
def Alone.walks : Alone → Bool
  | .walk _ _ | .walkKernel _ _ => true
  | _ => false

/-- What happens while `me` holds the lock. -/
def meanwhile (s : State) (me : Cpu) (between : List Alone) : State :=
  (between.filter fun a => a.walks || a.cpu != me).foldl alone s

/-! ### Withdrawal and collection -/

/-- Whether a processor has the space of a domain loaded. -/
def inSpace (s : State) (c : Cpu) (d : DomainId) : Bool :=
  (s.cpus c).loaded == some d && (s.tables.domains d).space.isSome

/-- `invlpg` on the pages of a run that are mapped. -/
def invalidate (s : State) (me : Cpu) (d : DomainId) (vaddr count : Nat) : State :=
  if s.inSpace me d then
    s.setCpu me fun p =>
      { p with
        cache := p.cache.filter fun entry =>
          !(decide (vaddr / pageSize ≤ entry.1 ∧ entry.1 < vaddr / pageSize + count)
            && (s.translates me entry.1).isSome) }
  else s

/-- The processors that may hold a translation of a domain's space, but for the one that has
just removed its own. -/
def holders (s : State) (me : Cpu) (d : DomainId) (c : Cpu) : Bool :=
  s.live d c && !(c == me && s.inSpace me d)

/-- `withdraw_map_deferring`: the object to collect afterwards, if the slot still holds it. -/
def withdrawDeferring (s : State) (me : Cpu) (m : MapId) : State × Option MemoryId :=
  let record := s.tables.maps m
  if record.used then
    let removed := s.tables.mappedPages record
    let holders := s.holders me record.domain
    let same := s.tables.sameObject record
    let s := s.invalidate me record.domain record.vaddr record.pages
    let s := if removed ≠ 0 then s.publish else s
    ({ s with tables := s.tables.withdraw m s.generation holders },
      if same then some record.memory else none)
  else (s, none)

/-- Whether an object's frames can go straight back to the pool. -/
def immediate (s : State) (i : MemoryId) (acknowledged : Bool) : Bool :=
  let object := s.tables.objects i
  acknowledged || object.unmappedAt == 0 || s.flushedBy object.unmappedCpus object.unmappedAt
    || object.unmappedAt ≤ s.safeGeneration

/-- `collect_memory_acked`. -/
def collectMemory (s : State) (i : MemoryId) (acknowledged : Bool) : State :=
  if s.tables.collectable i then
    if s.immediate i acknowledged then { s with tables := s.tables.collect i true 0 }
    else
      let s := s.publish
      { s with tables := s.tables.collect i false s.generation }
  else s

/-- `withdraw_map`. -/
def withdrawMap (s : State) (me : Cpu) (m : MapId) : State :=
  match s.withdrawDeferring me m with
  | (s, some i) => s.collectMemory i false
  | (s, none) => s

/-- `drain_pending_memory`. -/
def drainPending (s : State) : State :=
  (List.finRange maxMemoryObjects).foldl
    (fun u i => if s.tables.pending i then u.collectMemory i false else u)
    { s with tables := { s.tables with pending := fun _ => false } }

/-! ### Operations -/

/-- `domainops::map`, called on processor `me`; `between` happens before a failed mapping
takes its pages out again. -/
def map (s : State) (me : Cpu) (target : DomainId) (i : MemoryId) (capRights : Rights)
    (request : MapRequest) (between : List Alone) : State × Answer :=
  match s.tables.mapChecks target i capRights request with
  | .error e => (s, .error e)
  | .ok (rights, m) =>
    match s.tables.reserveMap (s.tables.domains target).ownerScope with
    | (t, false) => ({ s with tables := t }, .error .limitExhausted)
    | (t, true) =>
      let before := t.allocator.charged (.domain target)
      match t.installRun s.safeGeneration target request.vaddr
          ((t.objects i).base + request.offsetPages) rights request.pageCount with
      | (t, installed, none) =>
        ({ s with tables := t.recordMap m target i request before }, .ok installed)
      | (t, installed, some e) =>
        let s := { s with tables := t }.meanwhile me between
        ({ s with tables := s.tables.rollbackMap target request.vaddr installed },
          .error e.status)

/-- The record `unmap` looks for. -/
def mapAt (t : Tables) (target : DomainId) (vaddr pages : Nat) : Option MapId :=
  (List.finRange maxMaps).find? fun m =>
    (t.maps m).used && (t.maps m).domain == target
      && (t.maps m).domainGeneration == (t.domains target).generation
      && (t.maps m).vaddr == vaddr && (t.maps m).pages == pages

/-- `domainops::unmap`, up to the wait. -/
def unmap (s : State) (me : Cpu) (target : DomainId) (vaddr pages : Nat) : State × Answer :=
  match mapAt s.tables target vaddr pages with
  | none => (s, .error .invalidArgument)
  | some m =>
    let noted := s.holders me target
    match s.withdrawDeferring me m with
    | (s, memory) =>
      (s.setCpu me fun p =>
        { p with
          pending := .unmapping target
            (memory.map fun i => (i, (s.tables.objects i).generation)) s.generation noted none },
        .ok pages)

/-- The writable mappings of an object withdrawn, in the table's order. -/
def withdrawWriters (s : State) (me : Cpu) (i : MemoryId) (generation : Nat) : State :=
  (List.finRange maxMaps).foldl
    (fun s m =>
      let record := s.tables.maps m
      if record.used ∧ record.memory = i ∧ record.memoryGeneration = generation
          ∧ record.rights &&& Right.memoryWrite ≠ 0#32 then s.withdrawMap me m
      else s) s

/-- `memops::seal`, up to the wait. -/
def beginSeal (s : State) (me : Cpu) (i : MemoryId) : State × Answer :=
  let object := s.tables.objects i
  match object.state with
  | .empty => (s, .error .stateConflict)
  | .sealed => (s, .ok 0)
  | .writable | .sealing =>
    if object.dmaGrants ≠ 0 then (s, .error .stateConflict)
    else
      let s := { s with
        tables := s.tables.setObject i fun object => { object with state := .sealing } }
      let s := s.withdrawWriters me i object.generation
      (s.setCpu me fun p => { p with pending := .sealing i object.generation none }, .ok 0)

/-- `memops::seal`, after the wait. -/
def finishSeal (s : State) (i : MemoryId) (generation : Nat) (acknowledged : Bool) :
    State × Answer :=
  let object := s.tables.objects i
  if object.generation ≠ generation ∨ object.state = .empty then (s, .error .peerDead)
  else if object.writableMaps ≠ 0 then (s, .error .stateConflict)
  else if !acknowledged then (s, .error .drainIncomplete)
  else
    ({ s with tables := s.tables.setObject i fun object => { object with state := .sealed } }, .ok 0)

/-- The first half of a shootdown: the generation is published. -/
def announce (s : State) (me : Cpu) : State :=
  let wait := some ⟨s.generation + 1, none⟩
  match (s.cpus me).pending with
  | .unmapping target memory withdrawn noted none =>
    s.publish.setCpu me fun p =>
      { p with pending := .unmapping target memory withdrawn noted wait }
  | .sealing i generation none =>
    s.publish.setCpu me fun p => { p with pending := .sealing i generation wait }
  | _ => s

/-- The second half: the processors it has to hear from.  An unmap asks those that have the
space loaded, a seal every one that is online. -/
def look (s : State) (me : Cpu) : State :=
  match (s.cpus me).pending with
  | .unmapping target memory withdrawn noted (some ⟨generation, none⟩) =>
    let mask := fun c => s.live target c && (s.cpus c).online
    s.setCpu me fun p =>
      { p with pending := .unmapping target memory withdrawn noted (some ⟨generation, some mask⟩) }
  | .sealing i sealed (some ⟨generation, none⟩) =>
    let mask := fun c => (s.cpus c).online
    s.setCpu me fun p =>
      { p with pending := .sealing i sealed (some ⟨generation, some mask⟩) }
  | _ => s

/-- Every processor of a set has recorded the generation. -/
def heard (s : State) (mask : Cpu → Bool) (generation : Nat) : Bool :=
  (List.finRange maxCpus).all fun c => !mask c || generation ≤ (s.cpus c).seen

/-- The end of a wait and the second hold of the operation.  An unmap with nobody else to
ask does not wait. -/
def finish (s : State) (me : Cpu) (timedOut : Bool) : Option State :=
  let s' := s.setCpu me fun p => { p with pending := .none }
  match (s.cpus me).pending with
  | .unmapping _ memory _ _ (some ⟨generation, some mask⟩) =>
    let alone := (List.finRange maxCpus).all fun c => !mask c || c == me
    if alone ∨ timedOut ∨ s.heard mask generation then
      match memory with
      | none => some s'
      | some (i, _) => some (s'.collectMemory i (alone || !timedOut))
    else none
  | .sealing i generation (some ⟨published, some mask⟩) =>
    if timedOut ∨ s.heard mask published then some (s'.finishSeal i generation (!timedOut)).1
    else none
  | _ => none

/-- `terminate_in`: the domain stops and its mappings are withdrawn. -/
def terminate (s : State) (me : Cpu) (d : DomainId) (faulted : Bool) : State :=
  let s := { s with
    tables := s.tables.setDomain d fun domain =>
      { domain with state := if faulted then .faulted else .stopping } }
  (List.finRange maxMaps).foldl
    (fun s m =>
      if (s.tables.maps m).used ∧ (s.tables.maps m).domain = d then s.withdrawMap me m else s) s

/-- `reapable`: no processor stands in the space, or is on its way there. -/
def reapable (s : State) (d : DomainId) : Bool :=
  (s.tables.domains d).space.isSome
    && ((s.tables.domains d).state == .faulted || (s.tables.domains d).state == .stopping)
    && (List.finRange maxCpus).all fun c =>
      !(s.cpus c).online || ((s.cpus c).loaded != some d && (s.cpus c).next != some (some d))

/-- `release_kernel_stack` on processor `me`: the generation is taken before the pages are
removed, and `between` happens in between. -/
def releaseStack (s : State) (me : Cpu) (slot : KstackId) (between : List Alone) : State :=
  let s := s.publishKernel
  let stamp := s.generation
  let s := s.meanwhile me between
  let s := { s with tables := s.tables.releaseStack slot stamp }
  s.setCpu me fun p =>
    { p with
      kernelCache := p.kernelCache.filter fun entry =>
        !((List.range kstackPages).any fun k => kstackPageNumber slot k == entry.1) }
where
  kstackPageNumber (slot : KstackId) (k : Nat) : Nat := Tables.kstackPage slot k / pageSize

/-- `reap_dead`, on a domain that meets its demands. -/
def reap (s : State) (me : Cpu) (d : DomainId) (between : KstackId → List Alone) : State :=
  let slots := (s.tables.domains d).kstacks
  let s := slots.foldl (fun s slot => s.releaseStack me slot (between slot)) s
  let s := { s with tables := s.tables.setDomain d fun domain => { domain with kstacks := [] } }
  let stamp := s.generation + 1
  { s.publish.publish with tables := s.tables.reapSpace d slots.length stamp }

/-- `forget_space`. -/
@[simps] def forgetSpace (s : State) (d : DomainId) : State :=
  { s with live := Function.update s.live d fun _ => false }

/-- `create_in`.  `thread` says whether a thread slot is left, and `unnamed` which dead
domains no capability names. -/
def createDomain (s : State) (owner : ScopeId) (image : Image) (bytes : Nat → Nat → UInt8)
    (thread : Bool) (unnamed : DomainId → Bool) : State :=
  if (s.tables.scopes owner).state ≠ .opened ∨ !s.tables.scopes.hasParallelism owner then s
  else
    match s.tables.takeDomainSlot unnamed with
    | (_, none) => s
    | (t, some d) =>
      let collected := (s.tables.domains d).state == .dead
      let s := { s with tables := t }
      let s := if collected then s.forgetSpace d else s
      if !thread then s
      else
        match s.tables.raiseDomain s.safeGeneration s.generation d owner image bytes with
        | (t, built, spent, torn) =>
          let s := { s with
            tables := t, generation := s.generation + spent + torn
            kernelGeneration := s.kernelGeneration + spent }
          if built then s.forgetSpace d else s

/-- `add_thread_in`. -/
def addThread (s : State) (d : DomainId) : State :=
  match s.tables.addThread s.safeGeneration s.generation d with
  | (t, spent) =>
    { s with
      tables := t, generation := s.generation + spent
      kernelGeneration := s.kernelGeneration + spent }

end State

/-! ### The system -/

/-- What can happen. -/
inductive Step where
  /-- `MEMORY_CREATE`. -/
  | create (sponsor : ScopeId) (pages : Nat) (maxRights : Rights) (installed : Bool)
  /-- A module of the boot package. -/
  | module (sponsor : ScopeId) (pages : Nat) (bytes : Nat → Nat → UInt8)
  /-- A further capability entry names the object. -/
  | name (i : MemoryId)
  /-- An entry that names the object is released. -/
  | close (i : MemoryId)
  | drainPending
  | map (me : Cpu) (target : DomainId) (i : MemoryId) (capRights : Rights) (request : MapRequest)
      (between : List State.Alone)
  | unmap (me : Cpu) (target : DomainId) (vaddr pages : Nat)
  | beginSeal (me : Cpu) (i : MemoryId)
  | announce (me : Cpu)
  | look (me : Cpu)
  | finish (me : Cpu) (timedOut : Bool)
  | write (i : MemoryId) (offset : Nat) (bytes : List UInt8)
  | copy (i source : MemoryId) (sourceOffset destOffset length : Nat)
  | mapRegion (i : DeviceId) (session : Nat) (slot : RegionId) (target : DomainId) (vaddr : Nat)
  | unmapRegion (i : DeviceId) (session vaddr : Nat)
  | dmaMap (caller : DomainId) (i : DeviceId) (memory : MemoryId) (capRights : Rights)
      (request : Tables.DmaMapRequest) (sustained : Bool)
  | dmaUnmap (i : DeviceId) (session : Nat) (iova : Nat)
  | setMaster (i : DeviceId) (enable : Bool)
  | beginReset (me : Cpu) (i : DeviceId)
  | finishReset (me : Cpu) (confirmed : Bool)
  /-- A device writes to pages it was granted. -/
  | deviceWrite (g : DmaId) (page offset : Nat) (byte : UInt8)
  | createDomain (owner : ScopeId) (image : Image) (bytes : Nat → Nat → UInt8) (thread : Bool)
      (unnamed : DomainId → Bool)
  | addThread (d : DomainId)
  | activate (d : DomainId)
  | terminate (me : Cpu) (d : DomainId) (faulted : Bool)
  | reap (me : Cpu) (d : DomainId) (between : KstackId → List State.Alone)
  | createChild (parent : ScopeId) (limits : Limits) (unnamed : ScopeId → Bool)
  | fence (root : ScopeId)
  | advance
  | retire (root : ScopeId)
  /-- The accounts and limits, as everything else moves them. -/
  | accounts (used : ScopeId → Resource → Nat) (limits : ScopeId → Limits)
      (threads invocations effects : ScopeId → Nat)
  /-- An identity spent on some other object. -/
  | spendId
  /-- `drain_quarantine`, from a tick. -/
  | drainQuarantine
  /-- A frame the kernel takes for itself. -/
  | kernelAlloc
  /-- `reclaim`: a region of boot memory that nothing refers to any more. -/
  | reclaim (region : Region)
  /-- An announcement nothing waits for. -/
  | publish
  | alone (a : State.Alone)
  /-- A user store through a translation the processor holds. -/
  | store (c : Cpu) (page offset : Nat) (byte : UInt8)
  | online (c : Cpu)
  | offline (c : Cpu)

namespace State

/-- An object some capability names. -/
def named (s : State) (i : MemoryId) : Bool :=
  (s.tables.objects i).state != .empty && (s.tables.objects i).refs != 0

/-- Before the first dispatch: no processor is in a domain's space or holds a translation of
one. -/
def booting (s : State) : Bool :=
  (List.finRange maxCpus).all fun c =>
    (s.cpus c).loaded.isNone && (s.cpus c).next.isNone && (s.cpus c).cache.isEmpty

@[simps] def withTables (s : State) (t : Tables) : State := { s with tables := t }

/-- A step, where it can be taken. -/
def step (s : State) : Step → Option State
  | .create sponsor pages maxRights installed =>
    some (s.withTables (s.tables.create s.safeGeneration sponsor pages maxRights installed).1)
  | .module sponsor pages bytes =>
    if s.booting then
      some (s.withTables (s.tables.imageObject s.safeGeneration sponsor pages bytes))
    else none
  | .name i =>
    if s.named i then
      some (s.withTables
        (s.tables.setObject i fun object => { object with refs := object.refs + 1 }))
    else none
  | .close i =>
    if s.named i then
      let t := s.tables.setObject i fun object => { object with refs := object.refs - 1 }
      some (s.withTables { t with pending := Function.update t.pending i true })
    else none
  | .drainPending => some s.drainPending
  | .map me target i capRights request between =>
    if s.free me ∧ s.named i then some (s.map me target i capRights request between).1 else none
  | .unmap me target vaddr pages =>
    if s.free me then some (s.unmap me target vaddr pages).1 else none
  | .beginSeal me i => if s.free me ∧ s.named i then some (s.beginSeal me i).1 else none
  | .announce me => some (s.announce me)
  | .look me => some (s.look me)
  | .finish me timedOut => s.finish me timedOut
  | .write i offset bytes =>
    if s.named i then some (s.withTables (s.tables.write i offset bytes).1) else none
  | .copy i source sourceOffset destOffset length =>
    if s.named i ∧ s.named source then
      some (s.withTables (s.tables.copy i source sourceOffset destOffset length).1)
    else none
  | .mapRegion i session slot target vaddr =>
    some (s.withTables
      (s.tables.mapRegion s.safeGeneration i session slot target vaddr).1)
  | .unmapRegion i session vaddr =>
    match s.tables.unmapRegion i session vaddr with
    | (t, .ok _) => some (s.publish.withTables t)
    | (t, .error _) => some (s.withTables t)
  | .dmaMap caller i memory capRights request sustained =>
    if s.named memory then
      some (s.withTables (s.tables.dmaMap caller i memory capRights request sustained).1)
    else none
  | .dmaUnmap i session iova => some (s.withTables (s.tables.dmaUnmap i session iova).1)
  | .setMaster i enable =>
    some (s.withTables (s.tables.setDevice i fun device => { device with busMaster := enable }))
  | .beginReset me i =>
    if s.free me then some (s.setCpu me fun p => { p with pending := .resetting i }) else none
  | .finishReset me confirmed =>
    match (s.cpus me).pending with
    | .resetting i =>
      let s := s.setCpu me fun p => { p with pending := .none }
      some (if confirmed then s.publish.withTables (s.tables.finishReset i) else s)
    | _ => none
  | .deviceWrite g page offset byte =>
    let grant := s.tables.dma g
    if grant.used ∧ page < grant.pages ∧ offset < pageSize
        ∧ grant.rights &&& Right.memoryWrite ≠ 0#32 then
      some (s.withTables { s.tables with
        allocator := s.tables.allocator.write (grant.iova + page) offset byte })
    else none
  | .createDomain owner image bytes thread unnamed =>
    some (s.createDomain owner image bytes thread unnamed)
  | .addThread d => some (s.addThread d)
  | .activate d =>
    if (s.tables.domains d).state = .building then
      some (s.withTables (s.tables.setDomain d fun domain => { domain with state := .runnable }))
    else none
  | .terminate me d faulted =>
    if s.free me ∧ ((s.tables.domains d).state = .building
        ∨ (s.tables.domains d).state = .runnable) then some (s.terminate me d faulted)
    else none
  | .reap me d between =>
    if s.free me ∧ s.reapable d then some (s.reap me d between) else none
  | .createChild parent limits unnamed =>
    some (s.withTables (s.tables.createChild parent limits unnamed).1)
  | .fence root => some (s.withTables (s.tables.fence root))
  | .advance => some (s.withTables s.tables.advance)
  | .retire root =>
    if (s.tables.scopes root).state = .quiescent then
      some (s.withTables (s.tables.retire root))
    else none
  | .accounts used limits threads invocations effects =>
    some (s.withTables { s.tables with
      scopes := fun i => { s.tables.scopes i with
        used := used i, limits := limits i, threads := threads i
        invocationsPending := invocations i, effectsPending := effects i } })
  | .spendId => some (s.withTables s.tables.spendId)
  | .drainQuarantine =>
    some (s.withTables { s.tables with
      allocator := s.tables.allocator.drainQuarantine s.safeGeneration })
  | .kernelAlloc =>
    some (s.withTables { s.tables with
      allocator := (s.tables.allocator.alloc s.safeGeneration .kernel).1 })
  | .reclaim region =>
    if region ∈ s.tables.memoryMap ∧ region.kind = .reclaimable
        ∧ (List.range region.pages).all fun k => !s.tables.described (region.base + k) then
      some (s.withTables { s.tables with
        allocator := s.tables.allocator.reclaim region.base region.pages
        described := fun f => s.tables.described f || region.has f })
    else none
  | .publish => some s.publish
  | .alone a => some (s.alone a)
  | .store c page offset byte =>
    match (s.cpus c).cache.find? fun entry => entry.1 == page && entry.2.2.write with
    | some (_, frame, _) =>
      if (s.cpus c).online ∧ offset < pageSize then
        some (s.withTables { s.tables with
          allocator := s.tables.allocator.write frame offset byte })
      else none
    | none => none
  | .online c =>
    if (s.cpus c).online then none
    else
      some (s.setCpu c fun _ =>
        { online := true, seen := s.generation, seenKernel := s.kernelGeneration
          loaded := none, next := none, cache := [], kernelCache := [], pending := .none })
  | .offline c =>
    if s.free c ∧ (s.cpus c).loaded = none then
      some (s.setCpu c fun p => { p with online := false, seen := u64Max })
    else none

end State

/-- The machine the kernel finds: what the loader described, the devices and the budget. -/
structure Hardware where
  memoryMap : List Region
  limit : Nat
  content : Nat → Nat → UInt8
  devices : DeviceId → Device
  limits : Limits
  kernelRoot : Nat

/-- The tables as they are when the allocator has been built and nothing else exists. -/
def Hardware.tables (hw : Hardware) (allocator : Allocator) : Tables where
  scopes := Function.update (fun _ => .empty) 0
    { Scope.empty with state := .opened, limits := hw.limits }
  domains := fun _ => .empty 0
  objects := fun _ => .empty 0
  pending := fun _ => false
  maps := fun _ => .empty
  devices := hw.devices
  deviceMaps := fun _ => .empty
  dma := fun _ => .empty
  allocator := allocator
  kernel := ⟨hw.kernelRoot, [], []⟩
  kstackUsed := fun _ => false
  nextObjectId := 1
  memoryMap := hw.memoryMap
  described := fun f => hw.memoryMap.any fun r => r.kind == .usable && r.has f

/-- A processor before and after it has joined. -/
def Processor.start (online : Bool) : Processor where
  online := online
  seen := 1
  seenKernel := 1
  loaded := none
  next := none
  cache := []
  kernelCache := []
  pending := .none

/-- The machine right after `FrameAllocator::new`, on the bootstrap processor. -/
def Hardware.boot (hw : Hardware) : Option State :=
  (Allocator.new hw.memoryMap hw.limit hw.content).map fun allocator =>
    { tables := hw.tables allocator
      generation := 1
      kernelGeneration := 1
      live := fun _ _ => false
      cpus := fun c => .start (c == 0) }

/-- Memory on the given hardware: every run starts where the allocator has been built. -/
def memory (hw : Hardware) : System State Step :=
  .ofStep (fun s => hw.boot = some s) State.step

/-- A small machine, for runs that are played out: sixty frames of RAM and one register window,
beyond them and inside the table. -/
def Hardware.small : Hardware where
  memoryMap := [⟨.usable, 1, 60⟩]
  limit := 64
  content := fun _ _ => 0
  devices := fun _ => ⟨1, 1, 1, fun _ => ⟨62, 1, 0⟩, false, 64⟩
  limits := ⟨1000, 1000, 1000, 1000, 1000, 1000⟩
  kernelRoot := 0

/-- An image of one page. -/
def Image.small : Image := ⟨0x1000, [⟨0x1000, 1, true, false, true⟩]⟩

/-- Where a list of steps leads from boot, if each of them can be taken. -/
def Hardware.played (hw : Hardware) (steps : List Step) : Option State :=
  hw.boot.bind (System.exec State.step steps)

variable {steps : List Step}

theorem reachable_of_played {hw : Hardware} {s : State}
    (h : hw.played steps = some s) : (memory hw).Reachable s := by
  obtain ⟨s₀, hs₀, hrest⟩ := Option.bind_eq_some_iff.mp h
  exact System.reachable_of_exec (.init hs₀) hrest

/-- The same where each step has to meet a condition. -/
def Hardware.playedWithin (hw : Hardware) (ok : State → Step → Prop) [∀ s a, Decidable (ok s a)]
    (steps : List Step) : Option State :=
  hw.boot.bind (System.exec (System.guarded ok State.step) steps)

theorem reachable_of_playedWithin {hw : Hardware} {ok : State → Step → Prop}
    [∀ s a, Decidable (ok s a)] {s : State}
    (h : hw.playedWithin ok steps = some s) : ((memory hw).within ok).Reachable s := by
  obtain ⟨s₀, hs₀, hrest⟩ := Option.bind_eq_some_iff.mp h
  exact System.reachable_within_of_guarded (.init hs₀) hrest

end Thalyx.Kernel.Memory
