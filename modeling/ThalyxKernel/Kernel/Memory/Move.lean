/-
The moves every run of the memory system is made of.

An operation is many small changes.  `Move` lists the kinds, each with what the operations
have checked by the time they make it, and an invariant is looked at once for each kind.
What stands in one line is kept whole where the invariants do not hold in the middle of it:
a mapping with its record, an object with its frames, a space with everything in it.

Some moves the source makes without checking something an invariant needs.  What a run is
known to take care of is a parameter.
-/
import ThalyxKernel.Kernel.Memory.System
import ThalyxKernel.Kernel.Memory.Pages

namespace Thalyx.Kernel.Memory

open AddressSpace (pageSize)
open Allocator (Same inRun)

/-- What the steps of a run are known to take care of. -/
structure Care where
  /-- No window of registers is mapped at all. -/
  noWindows : Prop
  /-- No object a device may reach goes with its scope. -/
  devices : Prop
  /-- No translation that may be held is forgotten. -/
  translations : Prop
  /-- The generations of an object's slot do not run out. -/
  generations : Prop

namespace Tables

/-- Two states of the tables that differ only in accounts, names, charges and the like. -/
structure Quiet (t u : Tables) : Prop where
  scopes : ∀ i, (u.scopes i).state = (t.scopes i).state ∧ (u.scopes i).parent = (t.scopes i).parent
    ∧ (u.scopes i).mapsPending = (t.scopes i).mapsPending
  domains : ∀ d, (u.domains d).state = (t.domains d).state
    ∧ (u.domains d).generation = (t.domains d).generation
    ∧ (u.domains d).space = (t.domains d).space
  objects : ∀ i, ∃ refs, u.objects i = { t.objects i with refs }
  maps : u.maps = t.maps
  deviceMaps : u.deviceMaps = t.deviceMaps
  dma : u.dma = t.dma
  windows : ∀ i slot, ((u.devices i).regions slot).phys = ((t.devices i).regions slot).phys
    ∧ ((u.devices i).regions slot).pages = ((t.devices i).regions slot).pages
  allocator : Same t.allocator u.allocator
  kernel : u.kernel = t.kernel
  nextObjectId : t.nextObjectId ≤ u.nextObjectId
  memoryMap : u.memoryMap = t.memoryMap
  described : u.described = t.described

/-! ### The pieces moves are made of -/

/-- A free frame taken and filled. -/
@[simps] def growFrame (t : Tables) (f : Nat) (bytes : Nat → UInt8) : Tables :=
  { t with allocator := t.allocator.grow f bytes }

/-- The space of a domain written. -/
@[simps!] def setSpace (t : Tables) (d : DomainId) (space : Option AddressSpace) : Tables :=
  t.setDomain d fun domain => { domain with space }

/-- A run of free frames taken, zeroed. -/
@[simps] def growRun (t : Tables) (base pages : Nat) : Tables :=
  { t with allocator := t.allocator.growRun base pages }

/-- A frame that can be handed out. -/
def Free (t : Tables) (f : Nat) : Prop :=
  f < t.allocator.frames ∧ t.allocator.taken f = false

/-- An object gone and its frames given back, at once or through the quarantine. -/
def freeObject (t : Tables) (i : MemoryId) (immediate : Bool) (stamp : Nat) : Tables :=
  let object := t.objects i
  { t with
    allocator :=
      if immediate then t.allocator.releaseRun object.base object.pages (.scope object.sponsor)
      else t.allocator.retireRun object.base object.pages (.scope object.sponsor) stamp }.emptyObject i

/-- A mapping written: its pages, its record and what counts it. -/
def writeMap (t : Tables) (m : MapId) (d : DomainId) (space : AddressSpace) (i : MemoryId)
    (request : MapRequest) (rights : PageRights) : Tables :=
  let owner := (t.domains d).ownerScope
  let t := t.setSpace d (some { space with
    leaves := entries request.vaddr ((t.objects i).base + request.offsetPages) rights
      request.pageCount ++ space.leaves })
  let t := t.setMap m
    { used := true, memory := i, memoryGeneration := (t.objects i).generation
      domain := d, domainGeneration := (t.domains d).generation
      vaddr := request.vaddr, offsetPages := request.offsetPages, pages := request.pageCount
      rights := request.rights, grant := none, scope := owner }
  let t := t.setObject i fun object =>
    { object with
      mapCount := object.mapCount + 1
      writableMaps :=
        if request.rights &&& Right.memoryWrite ≠ 0#32 then object.writableMaps + 1
        else object.writableMaps }
  { t with scopes := t.scopes.set owner fun node => { node with mapsPending := node.mapsPending + 1 } }

/-- What `map` has checked of the mapping it writes. -/
structure Mappable (t : Tables) (m : MapId) (d : DomainId) (space : AddressSpace) (i : MemoryId)
    (request : MapRequest) (rights : PageRights) : Prop where
  unused : (t.maps m).used = false
  inSpace : (t.domains d).space = some space
  state : (t.domains d).state = .building ∨ (t.domains d).state = .runnable
  object : (t.objects i).state ≠ .empty
  fits : request.offsetPages + request.pageCount ≤ (t.objects i).pages
  nonempty : 0 < request.pageCount
  aligned : request.vaddr % pageSize = 0
  below : request.vaddr + request.pageCount * pageSize ≤ userMaxAddr
  allowed : mappingRights request.rights = .ok rights
  writable : rights.write = true → (t.objects i).state = .writable
  clear : ∀ page, inPages request.vaddr request.pageCount page → space.leaves.lookup page = none
  opened : ∀ j ∈ t.scopes.chain (t.domains d).ownerScope, (t.scopes j).state = .opened

/-- A window written: its pages and its record. -/
def writeRegion (t : Tables) (m : DeviceMapId) (d : DomainId) (space : AddressSpace) (i : DeviceId)
    (slot : RegionId) (vaddr : Nat) : Tables :=
  let window := (t.devices i).regions slot
  let t := t.setSpace d (some { space with
    leaves := entries vaddr window.phys deviceRights window.pages ++ space.leaves })
  t.setDeviceMap m
    { used := true, device := i, deviceGeneration := (t.devices i).generation
      session := (t.devices i).session, region := slot, domain := d
      domainGeneration := (t.domains d).generation, vaddr
      pages := window.pages, scope := (t.domains d).ownerScope }

/-- What `map_region` has checked. -/
structure Windowable (t : Tables) (m : DeviceMapId) (d : DomainId) (space : AddressSpace)
    (i : DeviceId) (slot : RegionId) (vaddr : Nat) : Prop where
  unused : (t.deviceMaps m).used = false
  inSpace : (t.domains d).space = some space
  state : (t.domains d).state = .building
  aligned : vaddr % pageSize = 0
  below : vaddr + ((t.devices i).regions slot).pages * pageSize ≤ userMaxAddr
  clear : ∀ page, inPages vaddr ((t.devices i).regions slot).pages page →
    space.leaves.lookup page = none

/-- Whether no window of registers is left in a domain. -/
def Windowless (t : Tables) (d : DomainId) : Prop :=
  ∀ m, (t.deviceMaps m).used = true → (t.deviceMaps m).domain = d →
    (t.deviceMaps m).domainGeneration = (t.domains d).generation → (t.deviceMaps m).pages = 0

/-- What `dma_map` has checked of the grant it writes. -/
structure Grantable (t : Tables) (g : DmaId) (grant : DmaGrant) : Prop where
  unused : (t.dma g).used = false
  used : grant.used = true
  object : (t.objects grant.memory).state ≠ .empty
  generation : grant.memoryGeneration = (t.objects grant.memory).generation
  fits : grant.offsetPages + grant.pages ≤ (t.objects grant.memory).pages
  iova : grant.iova = (t.objects grant.memory).base + grant.offsetPages
  writable : grant.rights &&& Right.memoryWrite ≠ 0#32 →
    (t.objects grant.memory).state = .writable

/-- A device grant written. -/
def writeDma (t : Tables) (g : DmaId) (grant : DmaGrant) : Tables :=
  (t.setDma g grant).setObject grant.memory fun object =>
    { object with dmaGrants := object.dmaGrants + 1 }

end Tables

namespace State

/-- What makes an acknowledged unmap collect safely: the object is the one it unmapped, nothing
has been withdrawn from it since, and every processor an earlier withdrawal noted has
flushed. -/
def ackSafe (s : State) (i : MemoryId) (generation withdrawn : Nat) (noted : Cpu → Bool) : Bool :=
  (s.tables.objects i).generation == generation
    && (s.tables.objects i).unmappedAt == withdrawn
    && s.flushedBy (fun c => (s.tables.objects i).unmappedCpus c && !noted c) withdrawn

/-- An unmap that has heard from every processor it had to ask. -/
structure Heard (s : State) (me : Cpu) (i : MemoryId) (generation withdrawn : Nat)
    (noted : Cpu → Bool) : Prop where
  pending : ∃ target published mask,
    (s.cpus me).pending =
      .unmapping target (some (i, generation)) withdrawn noted (some ⟨published, some mask⟩) ∧
    ((∀ c, mask c = true → c = me) ∨ ∀ c, mask c = true → published ≤ (s.cpus c).seen)

/-- A seal that has heard from every processor. -/
structure Sealable (s : State) (me : Cpu) (i : MemoryId) : Prop where
  pending : ∃ published mask,
    (s.cpus me).pending =
      .sealing i (s.tables.objects i).generation (some ⟨published, some mask⟩) ∧
    ∀ c, mask c = true → published ≤ (s.cpus c).seen

end State

/-- What an operation is in the middle of. -/
structure Midway where
  /-- The frame it has taken for a page it has not written yet. -/
  held : Option Nat
  /-- The domain that has just stopped, while its mappings are withdrawn. -/
  dying : Option DomainId
  /-- The object that has just begun to seal, while its writers are withdrawn. -/
  shut : Option MemoryId
  /-- The domain that is being built. -/
  raising : Option DomainId

/-- Between operations. -/
def Midway.idle : Midway := ⟨none, none, none, none⟩

/-- A point of a run. -/
abbrev Point := State × Midway

/-- One move. -/
inductive Move (care : Care) : Point → Point → Prop where
  | quiet {s : State} {x : Midway} {u : Tables} (h : s.tables.Quiet u) :
      Move care (s, x) (s.withTables u, x)
  -- The pool.
  | drain {s : State} {x : Midway} :
      Move care (s, x) (s.withTables { s.tables with
        allocator := s.tables.allocator.drainQuarantine s.safeGeneration }, x)
  | take {s : State} {x : Midway} {f : Nat} (bytes : Nat → UInt8) (hx : x.held = none)
      (h : s.tables.Free f) :
      Move care (s, x) (s.withTables (s.tables.growFrame f bytes), { x with held := some f })
  /-- A frame that is never written into anything stays taken. -/
  | leak {s : State} {x : Midway} : Move care (s, x) (s, { x with held := none })
  | reclaim {s : State} {x : Midway} {region : Region} (hm : region ∈ s.tables.memoryMap)
      (hk : region.kind = .reclaimable)
      (h : ∀ f, region.has f = true → s.tables.described f = false) :
      Move care (s, x) (s.withTables { s.tables with
        allocator := s.tables.allocator.reclaim region.base region.pages
        described := fun f => s.tables.described f || region.has f }, x)
  -- Page tables and private pages.
  | table {s : State} {x : Midway} {d : DomainId} {space : AddressSpace} {key : Nat × Nat}
      {f : Nat} (hs : (s.tables.domains d).space = some space)
      (hk : space.tables.lookup key = none) (hf : s.tables.Free f) :
      Move care (s, x) (s.withTables ((s.tables.growFrame f fun _ => 0).setSpace d
        (some { space with tables := (key, f) :: space.tables })), x)
  | root {s : State} {x : Midway} {d : DomainId} {f : Nat} (hx : x.raising = some d)
      (hs : (s.tables.domains d).space = none) (hf : s.tables.Free f) :
      Move care (s, x)
        (s.withTables ((s.tables.growFrame f fun _ => 0).setSpace d (some ⟨f, [], []⟩)), x)
  | leaf {s : State} {x : Midway} {d : DomainId} {space : AddressSpace} {page f : Nat}
      (rights : PageRights) (hx : x.raising = some d)
      (hs : (s.tables.domains d).space = some space) (hp : space.leaves.lookup page = none)
      (hf : x.held = some f) :
      Move care (s, x) (s.withTables (s.tables.setSpace d
        (some { space with leaves := (page, f, rights) :: space.leaves })), { x with held := none })
  | kernelTable {s : State} {x : Midway} {key : Nat × Nat} {f : Nat}
      (hk : s.tables.kernel.tables.lookup key = none) (hf : s.tables.Free f) :
      Move care (s, x) (s.withTables { s.tables.growFrame f fun _ => 0 with
        kernel := { s.tables.kernel with tables := (key, f) :: s.tables.kernel.tables } }, x)
  | kernelLeaf {s : State} {x : Midway} {page f : Nat} (rights : PageRights)
      (hp : s.tables.kernel.leaves.lookup page = none) (hf : x.held = some f) :
      Move care (s, x) (s.withTables { s.tables with
        kernel := { s.tables.kernel with leaves := (page, f, rights) :: s.tables.kernel.leaves } },
        { x with held := none })
  | dropKernelLeaf {s : State} {x : Midway} {page f stamp : Nat} {rights : PageRights}
      (hp : s.tables.kernel.leaves.lookup page = some (f, rights)) (hs : stamp ≤ s.generation)
      (hc : care.translations → ∀ c, (s.cpus c).online = true →
        ((s.cpus c).seen < stamp ∧ (s.cpus c).seenKernel < s.kernelGeneration) ∨
          ∀ entry ∈ (s.cpus c).kernelCache, entry.1 ≠ page) :
      Move care (s, x) (s.withTables { s.tables with
        kernel := { s.tables.kernel with
          leaves := s.tables.kernel.leaves.filter fun leaf => leaf.1 != page }
        allocator := s.tables.allocator.retireAt stamp .kernel f }, x)
  -- Objects.
  | openObject {s : State} {x : Midway} {i : MemoryId} {base pages : Nat} (maxRights : Rights)
      (sponsor : ScopeId) (refs : Nat) (hi : (s.tables.objects i).state = .empty)
      (hb : base + pages ≤ s.tables.allocator.frames)
      (hf : ∀ f, inRun base pages f → s.tables.allocator.taken f = false)
      (hc : care.generations → (s.tables.objects i).generation < u32Max) :
      Move care (s, x) (s.withTables
        ((s.tables.growRun base pages).openObject i .writable base pages maxRights sponsor refs), x)
  | collect {s : State} {x : Midway} {i : MemoryId} (hc : s.tables.collectable i = true)
      (hi : s.immediate i false = true) :
      Move care (s, x) (s.withTables (s.tables.freeObject i true 0), x)
  | collectHeard {s : State} {x : Midway} {me : Cpu} {i : MemoryId} {generation withdrawn : Nat}
      {noted : Cpu → Bool} (hc : s.tables.collectable i = true)
      (hh : s.Heard me i generation withdrawn noted)
      (hi : care.translations → s.immediate i false = true ∨
        s.ackSafe i generation withdrawn noted = true) :
      Move care (s, x) (s.withTables (s.tables.freeObject i true 0), x)
  | collectLater {s : State} {x : Midway} {i : MemoryId} (hc : s.tables.collectable i = true) :
      Move care (s, x) (s.publish.withTables (s.tables.freeObject i false (s.generation + 1)), x)
  | retireObject {s : State} {x : Midway} {i : MemoryId} (hs : (s.tables.objects i).state ≠ .empty)
      (hm : (s.tables.objects i).mapCount = 0)
      (hd : care.devices → (s.tables.objects i).dmaGrants = 0)
      (ht : care.translations → s.immediate i false = true) :
      Move care (s, x) (s.withTables (s.tables.freeObject i true 0), x)
  | beginSeal {s : State} {x : Midway} {i : MemoryId}
      (hs : (s.tables.objects i).state = .writable ∨ (s.tables.objects i).state = .sealing)
      (hd : (s.tables.objects i).dmaGrants = 0) :
      Move care (s, x) (s.withTables
        (s.tables.setObject i fun object => { object with state := .sealing }),
        { x with shut := some i })
  /-- The last writer of a sealing object has been withdrawn. -/
  | shut {s : State} {x : Midway} {i : MemoryId} (hx : x.shut = some i)
      (h : ∀ m, (s.tables.maps m).used = true → (s.tables.maps m).memory = i →
        (s.tables.maps m).memoryGeneration = (s.tables.objects i).generation →
        (s.tables.maps m).rights &&& Right.memoryWrite = 0#32) :
      Move care (s, x) (s, { x with shut := none })
  | finishSeal {s : State} {x : Midway} {me : Cpu} {i : MemoryId}
      (hs : (s.tables.objects i).state ≠ .empty) (hw : (s.tables.objects i).writableMaps = 0)
      (hh : s.Sealable me i) :
      Move care (s, x) (s.withTables
        (s.tables.setObject i fun object => { object with state := .sealed }), x)
  | bootSeal {s : State} {x : Midway} {i : MemoryId} (hb : s.booting = true)
      (hs : (s.tables.objects i).state = .writable) (hm : (s.tables.objects i).mapCount = 0)
      (hd : (s.tables.objects i).dmaGrants = 0) :
      Move care (s, x) (s.withTables
        (s.tables.setObject i fun object => { object with state := .sealed }), x)
  -- Contents.
  | write {s : State} {x : Midway} {i : MemoryId} {f : Nat} (offset : Nat) (byte : UInt8)
      (hs : (s.tables.objects i).state = .writable)
      (hf : inRun (s.tables.objects i).base (s.tables.objects i).pages f) :
      Move care (s, x) (s.withTables { s.tables with
        allocator := s.tables.allocator.write f offset byte }, x)
  | fill {s : State} {x : Midway} {i : MemoryId} (bytes : Nat → Nat → UInt8)
      (hs : (s.tables.objects i).state = .writable) :
      Move care (s, x) (s.withTables { s.tables with
        allocator := s.tables.allocator.fillRun (s.tables.objects i).base
          (s.tables.objects i).pages bytes }, x)
  | deviceWrite {s : State} {x : Midway} {g : DmaId} {page : Nat} (offset : Nat) (byte : UInt8)
      (hg : (s.tables.dma g).used = true) (hp : page < (s.tables.dma g).pages)
      (hw : (s.tables.dma g).rights &&& Right.memoryWrite ≠ 0#32) :
      Move care (s, x) (s.withTables { s.tables with
        allocator := s.tables.allocator.write ((s.tables.dma g).iova + page) offset byte }, x)
  | store {s : State} {x : Midway} {c : Cpu} {page f : Nat} {rights : PageRights} (offset : Nat)
      (byte : UInt8) (hc : (s.cpus c).online = true) (hm : (page, f, rights) ∈ (s.cpus c).cache)
      (hw : rights.write = true) :
      Move care (s, x) (s.withTables { s.tables with
        allocator := s.tables.allocator.write f offset byte }, x)
  -- Mappings.
  | map {s : State} {x : Midway} {m : MapId} {d : DomainId} {space : AddressSpace} {i : MemoryId}
      {request : MapRequest} {rights : PageRights} (hx : x = .idle)
      (h : s.tables.Mappable m d space i request rights) :
      Move care (s, x) (s.withTables (s.tables.writeMap m d space i request rights), x)
  /-- A page of a mapping that failed, walked before it was taken out again. -/
  | ghost {s : State} {x : Midway} {c : Cpu} {d : DomainId} {page f : Nat} {rights : PageRights}
      {i : MemoryId} (hcare : ¬ care.translations) (hx : x = .idle)
      (hc : (s.cpus c).online = true)
      (hl : (s.cpus c).loaded = some d) (ho : (s.tables.objects i).state ≠ .empty)
      (hf : inRun (s.tables.objects i).base (s.tables.objects i).pages f)
      (hw : rights.write = true → (s.tables.objects i).state = .writable) :
      Move care (s, x) (s.setCpu c fun p => { p with cache := (page, f, rights) :: p.cache }, x)
  | withdraw {s : State} {x : Midway} {m : MapId} (me : Cpu) (h : (s.tables.maps m).used = true) :
      Move care (s, x) ((s.withdrawDeferring me m).1, x)
  | region {s : State} {x : Midway} {m : DeviceMapId} {d : DomainId} {space : AddressSpace}
      {i : DeviceId} {slot : RegionId} {vaddr : Nat} (hcare : ¬ care.noWindows) (hx : x = .idle)
      (h : s.tables.Windowable m d space i slot vaddr) :
      Move care (s, x) (s.withTables (s.tables.writeRegion m d space i slot vaddr), x)
  | dropRegion {s : State} {x : Midway} {m : DeviceMapId}
      (h : (s.tables.deviceMaps m).used = true) :
      Move care (s, x) (s.withTables (s.tables.withdrawDevice m), x)
  | dma {s : State} {x : Midway} {g : DmaId} {grant : DmaGrant} (hx : x = .idle)
      (h : s.tables.Grantable g grant) :
      Move care (s, x) (s.withTables (s.tables.writeDma g grant), x)
  | revoke {s : State} {x : Midway} {g : DmaId} (h : (s.tables.dma g).used = true) :
      Move care (s, x) (s.withTables (s.tables.revokeGrant g), x)
  -- Domains.
  | openDomain {s : State} {x : Midway} {d : DomainId} (owner : ScopeId) (reserved : Nat)
      (hx : x.raising = none) (h : (s.tables.domains d).state = .empty) :
      Move care (s, x)
        (s.withTables (s.tables.openDomain d owner reserved), { x with raising := some d })
  /-- A domain has been built, and is its own from here on. -/
  | raised {s : State} {x : Midway} {d : DomainId} (hx : x.raising = some d)
      (h : (s.tables.domains d).space.isSome = true) :
      Move care (s, x) (s, { x with raising := none })
  | abandon {s : State} {x : Midway} {d : DomainId} (hx : x.raising = some d) :
      Move care (s, x)
        (s.publish.publish.withTables (s.tables.destroySpace d (s.generation + 1)), x)
  | emptyDomain {s : State} {x : Midway} {d : DomainId} (h : (s.tables.domains d).space = none)
      (hx : x.dying = none)
      (hd : x.raising = some d ∨ x.raising = none ∧ (s.tables.domains d).state = .dead) :
      Move care (s, x)
        (s.withTables (s.tables.setDomain d fun domain => .empty domain.generation),
          { x with raising := none })
  | activate {s : State} {x : Midway} {d : DomainId} (hx : x = .idle)
      (hd : (s.tables.domains d).state = .building) :
      Move care (s, x)
        (s.withTables (s.tables.setDomain d fun domain => { domain with state := .runnable }), x)
  | stop {s : State} {x : Midway} {d : DomainId} {state : DomainState} (hx : x = .idle)
      (hd : (s.tables.domains d).state = .building ∨ (s.tables.domains d).state = .runnable)
      (hs : state = .faulted ∨ state = .stopping) :
      Move care (s, x)
        (s.withTables (s.tables.setDomain d fun domain => { domain with state }),
          { x with dying := some d })
  /-- The last mapping of a domain that stops has been withdrawn. -/
  | stopped {s : State} {x : Midway} {d : DomainId} (hx : x.dying = some d)
      (h : ∀ m, (s.tables.maps m).used = true → (s.tables.maps m).domain ≠ d) :
      Move care (s, x) (s, { x with dying := none })
  | destroy {s : State} {x : Midway} {d : DomainId} (hx : x = .idle)
      (hd : (s.tables.domains d).state = .faulted ∨ (s.tables.domains d).state = .stopping)
      (hw : s.tables.Windowless d)
      (hc : ∀ c, (s.cpus c).online = true →
        (s.cpus c).loaded ≠ some d ∧ (s.cpus c).next ≠ some (some d)) :
      Move care (s, x)
        (s.publish.publish.withTables (s.tables.destroySpace d (s.generation + 1)), x)
  | bury {s : State} {x : Midway} {d : DomainId} (hx : x = .idle)
      (hd : (s.tables.domains d).state = .faulted ∨ (s.tables.domains d).state = .stopping)
      (hs : (s.tables.domains d).space = none) :
      Move care (s, x)
        (s.withTables (s.tables.setDomain d fun domain => { domain with state := .dead }), x)
  -- Scopes.
  | openScope {s : State} {x : Midway} {i parent : ScopeId} (id depth : Nat) (limits : Limits)
      (hi : (s.tables.scopes i).state = .empty)
      (hp : ∀ j ∈ s.tables.scopes.chain parent, (s.tables.scopes j).state = .opened) :
      Move care (s, x) (s.withTables { s.tables with
        scopes := s.tables.scopes.set i fun _ =>
          { Scope.empty with state := .opened, id, parent := some parent, depth, limits } }, x)
  | resetScope {s : State} {x : Midway} {i : ScopeId} (hi : (s.tables.scopes i).state = .retired)
      (hc : s.tables.scopes.hasChild i = false) :
      Move care (s, x) (s.withTables { s.tables with scopes := s.tables.scopes.reset i }, x)
  | fence {s : State} {x : Midway} (root : ScopeId) :
      Move care (s, x) (s.withTables (s.tables.fence root), x)
  | quiesce {s : State} {x : Midway} {i : ScopeId} (h : s.tables.scopes.drained i = true) :
      Move care (s, x) (s.withTables { s.tables with
        scopes := s.tables.scopes.setState i .quiescent }, x)
  | retireScopes {s : State} {x : Midway} {root : ScopeId}
      (h : (s.tables.scopes root).state = .quiescent) :
      Move care (s, x) (s.withTables { s.tables with
        scopes := fun i =>
          if s.tables.scopes.isWithin root i ∧ (s.tables.scopes i).state ≠ .empty then
            { s.tables.scopes i with state := .retired }
          else s.tables.scopes i }, x)
  -- Processors.
  | alone {s : State} {x : Midway} (a : State.Alone) : Move care (s, x) (s.alone a, x)
  | publish {s : State} {x : Midway} : Move care (s, x) (s.publish, x)
  | publishKernel {s : State} {x : Midway} : Move care (s, x) (s.publishKernel, x)
  /-- Translations a processor gives up. -/
  | evict {s : State} {x : Midway} (c : Cpu) (keep keepKernel : Translation → Bool) :
      Move care (s, x) (s.setCpu c fun p =>
        { p with cache := p.cache.filter keep, kernelCache := p.kernelCache.filter keepKernel }, x)
  | forget {s : State} {x : Midway} {d : DomainId}
      (h : (s.tables.domains d).state = .empty ∨ (s.tables.domains d).state = .building) :
      Move care (s, x) (s.forgetSpace d, x)
  | online {s : State} {x : Midway} {c : Cpu} (h : (s.cpus c).online = false) :
      Move care (s, x) (s.setCpu c fun _ =>
        { online := true, seen := s.generation, seenKernel := s.kernelGeneration
          loaded := none, next := none, cache := [], kernelCache := [], pending := .none }, x)
  | offline {s : State} {x : Midway} {c : Cpu} (h : (s.cpus c).loaded = none)
      (hn : (s.cpus c).next = none) :
      Move care (s, x) (s.setCpu c fun p => { p with online := false, seen := u64Max }, x)
  -- Operations between their holds.
  | settle {s : State} {x : Midway} (me : Cpu) :
      Move care (s, x) (s.setCpu me fun p => { p with pending := .none }, x)
  | startUnmap {s : State} {x : Midway} {me : Cpu} {target : DomainId}
      {memory : Option (MemoryId × Nat)} {noted : Cpu → Bool} (hf : s.free me = true)
      (hn : ∀ c, noted c = true → s.live target c = true)
      (hme : noted me = true → s.inSpace me target = false) :
      Move care (s, x) (s.setCpu me fun p =>
        { p with pending := .unmapping target memory s.generation noted none }, x)
  | startSeal {s : State} {x : Midway} {me : Cpu} {i : MemoryId} (hf : s.free me = true) :
      Move care (s, x) (s.setCpu me fun p =>
        { p with pending := .sealing i (s.tables.objects i).generation none }, x)
  | startReset {s : State} {x : Midway} {me : Cpu} (i : DeviceId) (hf : s.free me = true) :
      Move care (s, x) (s.setCpu me fun p => { p with pending := .resetting i }, x)
  | announce {s : State} {x : Midway} (me : Cpu) : Move care (s, x) (s.announce me, x)
  | look {s : State} {x : Midway} (me : Cpu) : Move care (s, x) (s.look me, x)

/-- What a run of moves leads to. -/
def Path (care : Care) : Point → Point → Prop := Relation.ReflTransGen (Move care)

end Thalyx.Kernel.Memory
