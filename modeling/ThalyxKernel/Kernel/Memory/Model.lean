/-
The tables a memory operation works on, and the operations: `kernel/src/api/memops.rs`,
`domainops.rs`, `devops.rs` and the parts of `scopeops.rs` and `domain.rs` that move frames.

A function here is one hold of the machine lock, or a piece of one.  What it asks of the
processors (the generation every one of them has flushed at, the one just published, the
set that may still hold a translation) is an argument, so that the tables can be reasoned
about without the processors; `Memory.System` supplies the arguments.

The authority tables are not part of this model.  An operation gets the object its handle
resolved to and the rights it resolved with, and whether the handle it makes found a slot;
an object counts the entries that name it.  Labels, names, interrupts and the transport of a
device are left out, and so is the order in which page tables are walked at a teardown,
which decides only what a full quarantine keeps.
-/
import ThalyxKernel.Kernel.Lifecycle
import ThalyxKernel.Kernel.Memory.Frames
import Mathlib.Tactic.Simps.Basic

namespace Thalyx.Kernel.Memory

open AddressSpace (pageSize)

abbrev Cpu := Fin maxCpus
/-- `MAX_DEVICE_MAPS`. -/
abbrev DeviceMapId := Fin 12
/-- `MAX_DMA_GRANTS`. -/
abbrev DmaId := Fin 16
/-- `MAX_DEVICE_REGIONS`. -/
abbrev RegionId := Fin 4
/-- `MAX_KSTACKS`. -/
abbrev KstackId := Fin maxThreads

/-! ### Records -/

/-- `MemoryObject`. -/
structure Object where
  state : MemoryState
  generation : Nat
  id : Nat
  base : Nat
  pages : Nat
  maxRights : Rights
  sponsor : ScopeId
  mapCount : Nat
  writableMaps : Nat
  dmaGrants : Nat
  refs : Nat
  unmappedAt : Nat
  unmappedCpus : Cpu → Bool

/-- A free slot, which keeps its generation. -/
def Object.empty (generation : Nat) : Object where
  state := .empty
  generation := generation
  id := 0
  base := 0
  pages := 0
  maxRights := 0#32
  sponsor := 0
  mapCount := 0
  writableMaps := 0
  dmaGrants := 0
  refs := 0
  unmappedAt := 0
  unmappedCpus := fun _ => false

/-- `Domain`, as far as its memory goes: `kstacks` are the kernel stacks of its threads. -/
structure Domain where
  state : DomainState
  generation : Nat
  ownerScope : ScopeId
  space : Option AddressSpace
  kstacks : List KstackId
  reservedPages : Nat
  reservedMetadata : Nat

/-- A free slot, which keeps its generation. -/
def Domain.empty (generation : Nat) : Domain := ⟨.empty, generation, 0, none, [], 0, 0⟩

/-- `device::Region`: a window of registers. -/
structure Window where
  phys : Nat
  pages : Nat
  maps : Nat
  deriving DecidableEq, Repr

/-- `Device`. -/
structure Device where
  generation : Nat
  session : Nat
  regionCount : Nat
  regions : RegionId → Window
  busMaster : Bool
  addressBits : Nat

/-- `device::MapRecord`. -/
structure DeviceMap where
  used : Bool
  device : DeviceId
  deviceGeneration : Nat
  session : Nat
  region : RegionId
  domain : DomainId
  domainGeneration : Nat
  vaddr : Nat
  pages : Nat
  scope : ScopeId
  deriving DecidableEq, Repr

/-- `MapRecord::empty`. -/
def DeviceMap.empty : DeviceMap := ⟨false, 0, 0, 0, 0, 0, 0, 0, 0, 0⟩

/-- `DmaGrant`. -/
structure DmaGrant where
  used : Bool
  device : DeviceId
  session : Nat
  memory : MemoryId
  memoryGeneration : Nat
  offsetPages : Nat
  pages : Nat
  rights : Rights
  iova : Nat
  scope : ScopeId
  deriving DecidableEq, Repr

/-- `DmaGrant::empty`. -/
def DmaGrant.empty : DmaGrant := ⟨false, 0, 0, 0, 0, 0, 0, 0#32, 0, 0⟩

/-- The tables, all of them behind the machine lock. -/
structure Tables where
  scopes : Scopes
  domains : DomainId → Domain
  objects : MemoryId → Object
  /-- Objects whose last handle may have been released. -/
  pending : MemoryId → Bool
  maps : MapId → MapRecord
  devices : DeviceId → Device
  deviceMaps : DeviceMapId → DeviceMap
  dma : DmaId → DmaGrant
  allocator : Allocator
  /-- The kernel's half of every address space. -/
  kernel : AddressSpace
  kstackUsed : KstackId → Bool
  nextObjectId : Nat
  /-- The loader's memory map. -/
  memoryMap : List Region
  /-- What the memory map and the calls of `reclaim` have described as RAM. -/
  described : Nat → Bool

/-- What an operation answers. -/
abbrev Answer := Except Status Nat

namespace Tables

@[simps] def setObject (t : Tables) (i : MemoryId) (f : Object → Object) : Tables :=
  { t with objects := Function.update t.objects i (f (t.objects i)) }

@[simps] def setDomain (t : Tables) (d : DomainId) (f : Domain → Domain) : Tables :=
  { t with domains := Function.update t.domains d (f (t.domains d)) }

@[simps] def setDevice (t : Tables) (i : DeviceId) (f : Device → Device) : Tables :=
  { t with devices := Function.update t.devices i (f (t.devices i)) }

@[simps] def setMap (t : Tables) (m : MapId) (record : MapRecord) : Tables :=
  { t with maps := Function.update t.maps m record }

@[simps] def setDeviceMap (t : Tables) (m : DeviceMapId) (record : DeviceMap) : Tables :=
  { t with deviceMaps := Function.update t.deviceMaps m record }

@[simps] def setDma (t : Tables) (g : DmaId) (grant : DmaGrant) : Tables :=
  { t with dma := Function.update t.dma g grant }

/-- `scope::release`. -/
@[simps] def release (t : Tables) (scope : ScopeId) (resource : Resource) (amount : Nat) : Tables :=
  { t with scopes := t.scopes.release scope resource amount }

/-- An identity spent, while there are any. -/
@[simps] def spendId (t : Tables) : Tables :=
  { t with nextObjectId := if t.nextObjectId = u64Max then u64Max else t.nextObjectId + 1 }

/-! ### Making and freeing objects -/

/-- What `create` asks before it reserves anything: the slot it will use. -/
def createChecks (t : Tables) (sponsor : ScopeId) (pages : Nat) (maxRights : Rights) :
    Except Status MemoryId := do
  if pages = 0 ∨ maxObjectPages < pages then throw .invalidArgument
  if !maxRights.within (ObjKind.rightsMask .memory) then throw .invalidArgument
  if (t.scopes sponsor).state ≠ .opened then throw .scopeClosed
  match (List.finRange maxMemoryObjects).find? fun i => (t.objects i).state == .empty with
  | some i => pure i
  | none => throw .limitExhausted

/-- The slot of a new object, written. -/
def openObject (t : Tables) (i : MemoryId) (state : MemoryState) (base : Nat) (pages : Nat)
    (maxRights : Rights) (sponsor : ScopeId) (refs : Nat) : Tables :=
  let t := t.setObject i fun object =>
    { Object.empty (min (object.generation + 1) u32Max) with
      state, id := t.nextObjectId, base, pages, maxRights, sponsor, refs }
  t.spendId

/-- Frames of a new object, with the charges they need; an identity that has run out leaves
them taken. -/
def takePages (t : Tables) (safe : Nat) (sponsor : ScopeId) (pages : Nat) :
    Tables × Option Nat :=
  match t.scopes.reserve sponsor .metadata 1 with
  | none => (t, none)
  | some scopes =>
    match scopes.reserve sponsor .memoryPages pages with
    | none => ({ t with scopes := scopes.release sponsor .metadata 1 }, none)
    | some scopes =>
      match t.allocator.allocContiguous safe pages (.scope sponsor) with
      | (allocator, none) =>
        ({ t with
            allocator
            scopes := (scopes.release sponsor .metadata 1).release sponsor .memoryPages pages },
          none)
      | (allocator, some base) =>
        ({ t with allocator, scopes }, if t.nextObjectId = u64Max then none else some base)

/-- `memops::create`.  `installed` says whether the handle found a node and a slot; an
object whose handle did not stays, named by nothing. -/
def create (t : Tables) (safe : Nat) (sponsor : ScopeId) (pages : Nat) (maxRights : Rights)
    (installed : Bool) : Tables × Answer :=
  match t.createChecks sponsor pages maxRights with
  | .error e => (t, .error e)
  | .ok i =>
    match t.takePages safe sponsor pages with
    | (t, none) => (t, .error .limitExhausted)
    | (t, some base) =>
      (t.openObject i .writable base pages maxRights sponsor (if installed then 1 else 0),
        if installed then .ok i else .error .limitExhausted)

/-- `image_object`, which boot makes of a module: the object holds the module's bytes and is
sealed before anything can name it. -/
def imageObject (t : Tables) (safe : Nat) (sponsor : ScopeId) (pages : Nat)
    (bytes : Nat → Nat → UInt8) : Tables :=
  match (List.finRange maxMemoryObjects).find? fun i => (t.objects i).state == .empty with
  | none => t
  | some i =>
    match t.takePages safe sponsor pages with
    | (t, none) => t
    | (t, some base) =>
      let t := t.openObject i .writable base pages
        (Right.memoryRead ||| Right.memoryExecute ||| Right.memoryMap) sponsor 1
      let t := { t with allocator := t.allocator.fillRun base pages bytes }
      t.setObject i fun object => { object with state := .sealed }

/-- The slot of an object that is gone. -/
def emptyObject (t : Tables) (i : MemoryId) : Tables :=
  t.setObject i fun object => .empty object.generation

/-- What `collect_memory_acked` demands of an object: nothing names it, nothing maps it, no
device may reach it, and its sponsor can still be credited. -/
def collectable (t : Tables) (i : MemoryId) : Bool :=
  let object := t.objects i
  object.state != .empty && object.refs == 0 && object.mapCount == 0 && object.dmaGrants == 0
    && ((t.scopes object.sponsor).state == .opened || (t.scopes object.sponsor).state == .fenced
      || (t.scopes object.sponsor).state == .quiescent)

/-- `collect_memory_acked`, on an object that meets its demands: to the pool at once, or
through the quarantine at `stamp`. -/
def collect (t : Tables) (i : MemoryId) (immediate : Bool) (stamp : Nat) : Tables :=
  let object := t.objects i
  let allocator :=
    if immediate then t.allocator.releaseRun object.base object.pages (.scope object.sponsor)
    else t.allocator.retireRun object.base object.pages (.scope object.sponsor) stamp
  let t := { t with allocator }
  let t := (t.release object.sponsor .memoryPages object.pages).release object.sponsor .metadata 1
  t.emptyObject i

/-! ### Mappings -/

/-- What `domainops::map` asks before it reserves anything.  The memory resolved to object
`i` with `capRights`. -/
def mapChecks (t : Tables) (target : DomainId) (i : MemoryId) (capRights : Rights)
    (request : MapRequest) : Except Status (PageRights × MapId) := do
  if request.reserved0 ≠ 0 ∨ request.pageCount = 0 then throw .invalidArgument
  if (t.domains target).state ≠ .building ∧ (t.domains target).state ≠ .runnable then
    throw .stateConflict
  if !request.rights.within capRights then throw .insufficientRights
  if !request.rights.within (t.objects i).maxRights then throw .insufficientRights
  let rights ← mappingRights request.rights
  if rights.write ∧ (t.objects i).state ≠ .writable then throw .stateConflict
  if (t.objects i).pages < request.offsetPages + request.pageCount then throw .invalidArgument
  if request.vaddr % pageSize ≠ 0 then throw .invalidArgument
  if request.vaddr < userMinAddr ∨ userMaxAddr < request.vaddr + request.pageCount * pageSize then
    throw .invalidArgument
  match (List.finRange maxMaps).find? fun m => !(t.maps m).used with
  | some m => pure (rights, m)
  | none => throw .limitExhausted

/-- The charges of a mapping. -/
def reserveMap (t : Tables) (owner : ScopeId) : Tables × Bool :=
  match t.scopes.reserve owner .metadata 1 with
  | none => (t, false)
  | some scopes =>
    match scopes.reserve owner .memoryPages mapTableReserve with
    | none => ({ t with scopes := scopes.release owner .metadata 1 }, false)
    | some scopes => ({ t with scopes }, true)

/-- Frames in a row put into a domain's space, as far as it goes. -/
def installRun (t : Tables) (safe : Nat) (target : DomainId) (vaddr : Nat) (frame : Nat)
    (rights : PageRights) (count : Nat) : Tables × Nat × Option MapError :=
  match (t.domains target).space with
  | none => (t, 0, none)
  | some space =>
    match mapRun space vaddr frame rights t.allocator safe (.domain target) count with
    | (allocator, space, installed, failure) =>
      ({ t with allocator }.setDomain target fun d => { d with space := some space },
        installed, failure)

/-- Pages taken out of a domain's space. -/
def removeRun (t : Tables) (target : DomainId) (vaddr count : Nat) : Tables :=
  t.setDomain target fun d => { d with space := d.space.map fun space => unmapRun space vaddr count }

/-- The end of a mapping that failed: the pages installed so far, and the charges. -/
def rollbackMap (t : Tables) (target : DomainId) (vaddr installed : Nat) : Tables :=
  let owner := (t.domains target).ownerScope
  ((t.removeRun target vaddr installed).release owner .metadata 1).release owner .memoryPages
    mapTableReserve

/-- The end of a mapping that went through: its record, and everything that counts it. -/
def recordMap (t : Tables) (m : MapId) (target : DomainId) (i : MemoryId) (request : MapRequest)
    (chargedBefore : Nat) : Tables :=
  let owner := (t.domains target).ownerScope
  let taken := min (t.allocator.charged (.domain target) - chargedBefore) mapTableReserve
  let t := t.setMap m
    { used := true, memory := i, memoryGeneration := (t.objects i).generation
      domain := target, domainGeneration := (t.domains target).generation
      vaddr := request.vaddr, offsetPages := request.offsetPages, pages := request.pageCount
      rights := request.rights, grant := none, scope := owner }
  let t := t.release owner .memoryPages (mapTableReserve - taken)
  let t := t.setDomain target fun d => { d with reservedPages := d.reservedPages + taken }
  let t := t.setObject i fun object =>
    { object with
      mapCount := object.mapCount + 1
      writableMaps :=
        if request.rights &&& Right.memoryWrite ≠ 0#32 then object.writableMaps + 1
        else object.writableMaps }
  { t with scopes := t.scopes.set owner fun node => { node with mapsPending := node.mapsPending + 1 } }

/-- The pages of a record that its domain still has. -/
def mappedPages (t : Tables) (record : MapRecord) : Nat :=
  match (t.domains record.domain).space with
  | none => 0
  | some space => mappedIn space record.vaddr record.pages

/-- Whether the slot a record names still holds the object it was installed against. -/
def sameObject (t : Tables) (record : MapRecord) : Bool :=
  (t.objects record.memory).generation == record.memoryGeneration

/-- The object of a record loses the mapping, and the withdrawal is noted on it. -/
def uncountMap (t : Tables) (record : MapRecord) (published : Nat) (cpus : Cpu → Bool) : Tables :=
  if t.sameObject record then
    let removed := t.mappedPages record
    t.setObject record.memory fun object =>
      { object with
        mapCount := object.mapCount - 1
        writableMaps :=
          if record.rights &&& Right.memoryWrite ≠ 0#32 then object.writableMaps - 1
          else object.writableMaps
        unmappedAt := if removed ≠ 0 then published else object.unmappedAt
        unmappedCpus := fun c => object.unmappedCpus c || (decide (removed ≠ 0) && cpus c) }
  else t

/-- `withdraw_map_deferring`, on a record in use: `published` is the generation its removal
was announced at and `cpus` the processors that may still hold a translation. -/
def withdraw (t : Tables) (m : MapId) (published : Nat) (cpus : Cpu → Bool) : Tables :=
  let record := t.maps m
  let t := (t.uncountMap record published cpus).removeRun record.domain record.vaddr record.pages
  let t := { t with
    scopes := t.scopes.set record.scope fun node => { node with mapsPending := node.mapsPending - 1 } }
  (t.release record.scope .metadata 1).setMap m .empty

/-! ### Contents -/

/-- A range of an object's bytes that lies inside it. -/
def rangeOk (t : Tables) (i : MemoryId) (offset length : Nat) : Bool :=
  offset + length ≤ (t.objects i).pages * pageSize

/-- The byte at an offset into an object. -/
def byteAt (t : Tables) (i : MemoryId) (offset : Nat) : UInt8 :=
  t.allocator.content ((t.objects i).base + offset / pageSize) (offset % pageSize)

/-- Bytes written into an object from `offset` on, through the direct map. -/
def writeBytes (t : Tables) (i : MemoryId) (offset : Nat) : List UInt8 → Tables
  | [] => t
  | byte :: rest =>
    writeBytes
      { t with
        allocator := t.allocator.write ((t.objects i).base + offset / pageSize)
          (offset % pageSize) byte }
      i (offset + 1) rest

/-- `memops::write`. -/
def write (t : Tables) (i : MemoryId) (offset : Nat) (bytes : List UInt8) : Tables × Answer :=
  if (t.objects i).state ≠ .writable then (t, .error .stateConflict)
  else if !t.rangeOk i offset bytes.length then (t, .error .invalidArgument)
  else (t.writeBytes i offset bytes, .ok bytes.length)

/-- `memops::copy`, from object `source` into object `i`. -/
def copy (t : Tables) (i source : MemoryId) (sourceOffset destOffset length : Nat) :
    Tables × Answer :=
  if (t.objects i).state ≠ .writable then (t, .error .stateConflict)
  else if !t.rangeOk source sourceOffset length || !t.rangeOk i destOffset length then
    (t, .error .invalidArgument)
  else if length = 0 then (t, .ok 0)
  else if source = i then (t, .error .invalidArgument)
  else
    (t.writeBytes i destOffset ((List.range length).map fun k => t.byteAt source (sourceOffset + k)),
      .ok length)

/-! ### Device windows and device grants -/

/-- `session_ok`. -/
def sessionOk (t : Tables) (i : DeviceId) (session : Nat) : Bool :=
  session != 0 && (t.devices i).session == session

/-- What `map_region` asks before it reserves anything. -/
def regionChecks (t : Tables) (i : DeviceId) (session : Nat) (slot : RegionId)
    (target : DomainId) (vaddr : Nat) : Except Status DeviceMapId := do
  if !t.sessionOk i session then throw .stateConflict
  if (t.devices i).regionCount ≤ slot then throw .invalidArgument
  if vaddr % pageSize ≠ 0 ∨ vaddr < userMinAddr ∨ userMaxAddr ≤ vaddr then throw .invalidArgument
  if (t.domains target).state ≠ .building then throw .stateConflict
  if userMaxAddr < vaddr + ((t.devices i).regions slot).pages * pageSize then
    throw .invalidArgument
  match (List.finRange 12).find? fun m => !(t.deviceMaps m).used with
  | some m => pure m
  | none => throw .limitExhausted

/-- The rights of a register window: read and written, never executed. -/
def deviceRights : PageRights := ⟨true, true, true, false⟩

/-- The record of a window, and the count on its region. -/
def recordRegion (t : Tables) (m : DeviceMapId) (i : DeviceId) (slot : RegionId)
    (target : DomainId) (vaddr : Nat) : Tables :=
  let device := t.devices i
  let t := t.setDeviceMap m
    { used := true, device := i, deviceGeneration := device.generation
      session := device.session, region := slot, domain := target
      domainGeneration := (t.domains target).generation, vaddr
      pages := (device.regions slot).pages, scope := (t.domains target).ownerScope }
  t.setDevice i fun device =>
    { device with
      regions := Function.update device.regions slot
        { device.regions slot with maps := (device.regions slot).maps + 1 } }

/-- `devops::map_region`. -/
def mapRegion (t : Tables) (safe : Nat) (i : DeviceId) (session : Nat) (slot : RegionId)
    (target : DomainId) (vaddr : Nat) : Tables × Answer :=
  match t.regionChecks i session slot target vaddr with
  | .error e => (t, .error e)
  | .ok m =>
    let owner := (t.domains target).ownerScope
    let window := (t.devices i).regions slot
    match t.scopes.reserve owner .metadata 1 with
    | none => (t, .error .limitExhausted)
    | some scopes =>
      match { t with scopes }.installRun safe target vaddr window.phys deviceRights
          window.pages with
      | (t, installed, _) =>
        if installed ≠ window.pages then
          ((t.removeRun target vaddr installed).release owner .metadata 1,
            .error .stateConflict)
        else (t.recordRegion m i slot target vaddr, .ok window.pages)

/-- `withdraw_device_map`, on a record in use. -/
def withdrawDevice (t : Tables) (m : DeviceMapId) : Tables :=
  let record := t.deviceMaps m
  let t :=
    if (t.domains record.domain).generation = record.domainGeneration then
      t.removeRun record.domain record.vaddr record.pages
    else t
  let t :=
    if (t.devices record.device).generation = record.deviceGeneration then
      t.setDevice record.device fun device =>
        { device with
          regions := Function.update device.regions record.region
            { device.regions record.region with
              maps := (device.regions record.region).maps - 1 } }
    else t
  (t.release record.scope .metadata 1).setDeviceMap m .empty

/-- The record `unmap_region` looks for. -/
def regionAt (t : Tables) (i : DeviceId) (vaddr : Nat) : Option DeviceMapId :=
  (List.finRange 12).find? fun m =>
    (t.deviceMaps m).used && (t.deviceMaps m).device == i && (t.deviceMaps m).vaddr == vaddr

/-- `devops::unmap_region`, up to the wait. -/
def unmapRegion (t : Tables) (i : DeviceId) (session vaddr : Nat) : Tables × Answer :=
  if !t.sessionOk i session then (t, .error .stateConflict)
  else
    match t.regionAt i vaddr with
    | none => (t, .error .invalidArgument)
    | some m => (t.withdrawDevice m, .ok (t.deviceMaps m).pages)

/-- `DmaMapRequest`, less the profile it requires. -/
structure DmaMapRequest where
  session : Nat
  offsetPages : Nat
  pageCount : Nat
  rights : Rights
  reserved0 : Nat

/-- What `dma_map` asks before it reserves anything.  The profile is the device's to
sustain; `sustained` says whether it does. -/
def dmaChecks (t : Tables) (i : DeviceId) (memory : MemoryId) (capRights : Rights)
    (request : DmaMapRequest) (sustained : Bool) : Except Status DmaId := do
  if !t.sessionOk i request.session then throw .stateConflict
  if request.reserved0 ≠ 0 ∨ request.pageCount = 0 then throw .invalidArgument
  if request.rights = 0#32 ∨ !request.rights.within (Right.memoryRead ||| Right.memoryWrite) then
    throw .invalidArgument
  if !sustained then throw .stateConflict
  if !request.rights.within capRights then throw .insufficientRights
  if (t.objects memory).pages < request.offsetPages + request.pageCount then
    throw .invalidArgument
  if request.rights &&& Right.memoryWrite ≠ 0#32 ∧ (t.objects memory).state ≠ .writable then
    throw .stateConflict
  let last := ((t.objects memory).base + request.offsetPages + request.pageCount) * pageSize
  if (t.devices i).addressBits < 64 ∧ 2 ^ (t.devices i).addressBits < last then
    throw .invalidArgument
  match (List.finRange 16).find? fun g => !(t.dma g).used with
  | some g => pure g
  | none => throw .limitExhausted

/-- `devops::dma_map`, called from `caller`. -/
def dmaMap (t : Tables) (caller : DomainId) (i : DeviceId) (memory : MemoryId)
    (capRights : Rights) (request : DmaMapRequest) (sustained : Bool) : Tables × Answer :=
  match t.dmaChecks i memory capRights request sustained with
  | .error e => (t, .error e)
  | .ok g =>
    let owner := (t.domains caller).ownerScope
    match t.scopes.reserve owner .metadata 1 with
    | none => (t, .error .limitExhausted)
    | some scopes =>
      let object := t.objects memory
      let t := { t with scopes }.setDma g
        { used := true, device := i, session := (t.devices i).session, memory
          memoryGeneration := object.generation, offsetPages := request.offsetPages
          pages := request.pageCount, rights := request.rights
          iova := object.base + request.offsetPages, scope := owner }
      (t.setObject memory fun object => { object with dmaGrants := object.dmaGrants + 1 },
        .ok (object.base + request.offsetPages))

/-- `revoke_grant`, on a grant in use. -/
def revokeGrant (t : Tables) (g : DmaId) : Tables :=
  let grant := t.dma g
  let t :=
    if (t.objects grant.memory).generation = grant.memoryGeneration then
      t.setObject grant.memory fun object => { object with dmaGrants := object.dmaGrants - 1 }
    else t
  (t.release grant.scope .metadata 1).setDma g .empty

/-- `devops::dma_unmap`. -/
def dmaUnmap (t : Tables) (i : DeviceId) (session : Nat) (iova : Nat) : Tables × Answer :=
  if !t.sessionOk i session then (t, .error .stateConflict)
  else if (t.devices i).busMaster then (t, .error .stateConflict)
  else
    match (List.finRange 16).find? fun g =>
        (t.dma g).used && (t.dma g).device == i && (t.dma g).iova == iova with
    | none => (t, .error .invalidArgument)
    | some g => (t.revokeGrant g, .ok (t.dma g).pages)

/-- `devops::reset` once the transport has confirmed: everything the device could reach is
taken back and a new session begins. -/
def finishReset (t : Tables) (i : DeviceId) : Tables :=
  let t := t.setDevice i fun device => { device with busMaster := false }
  let t := (List.finRange 12).foldl
    (fun t m => if (t.deviceMaps m).used ∧ (t.deviceMaps m).device = i then t.withdrawDevice m else t)
    t
  let t := (List.finRange 16).foldl
    (fun t g => if (t.dma g).used ∧ (t.dma g).device = i then t.revokeGrant g else t) t
  t.setDevice i fun device =>
    { device with session := max ((device.session + 1) % 2 ^ 32) 1 }

/-! ### Domains -/

/-- The pages a domain begins with: its segments and its stack. -/
def pageList (image : Image) : List (Nat × PageRights) :=
  (image.segments.flatMap fun segment =>
    (List.range segment.pages).map fun k =>
      (segment.vaddr + k * pageSize, ⟨true, segment.read, segment.write, segment.execute⟩)) ++
  (List.range userStackPages).map fun k =>
    (userStackTop - userStackPages * pageSize + k * pageSize, ⟨true, true, true, false⟩)

/-- Pages allocated, filled and mapped one after the other; the first that does not fit
stops it, and its frame stays taken. -/
def loadPages (safe : Nat) (owner : Owner) (bytes : Nat → Nat → UInt8) :
    List (Nat × PageRights) → AddressSpace → Allocator → Allocator × AddressSpace × Bool
  | [], space, a => (a, space, true)
  | (vaddr, rights) :: rest, space, a =>
    match a.alloc safe owner with
    | (a, none) => (a, space, false)
    | (a, some frame) =>
      let a := { a with content := Function.update a.content frame (bytes vaddr) }
      match mapPage space vaddr frame rights a safe owner with
      | (a, space, some _) => (a, space, false)
      | (a, space, none) => loadPages safe owner bytes rest space a

/-- The address of a page of a kernel stack; the slot's first page is a guard. -/
def kstackPage (slot : KstackId) (k : Nat) : Nat := kstackSlotBase slot + (k + 1) * pageSize

/-- The pages of a kernel stack mapped one after the other, and how far it came. -/
def mapStack (safe : Nat) (slot : KstackId) (kernel : AddressSpace) (a : Allocator) :
    Nat → Allocator × AddressSpace × Nat × Bool
  | 0 => (a, kernel, 0, true)
  | count + 1 =>
    match mapStack safe slot kernel a count with
    | (a, kernel, mapped, false) => (a, kernel, mapped, false)
    | (a, kernel, mapped, true) =>
      match a.alloc safe .kernel with
      | (a, none) => (a, kernel, mapped, false)
      | (a, some frame) =>
        match mapPage kernel (kstackPage slot count) frame ⟨false, true, true, false⟩ a safe
            .kernel with
        | (a, kernel, some _) => (a, kernel, mapped, false)
        | (a, kernel, none) => (a, kernel, mapped + 1, true)

/-- One page of a kernel stack taken out again, its frame retired at `stamp`. -/
def dropStackPage (slot : KstackId) (t : Tables) (stamp k : Nat) : Tables :=
  match t.kernel.unmap (kstackPage slot k) with
  | (kernel, some frame) =>
    { t with kernel, allocator := t.allocator.retireAt stamp .kernel frame }
  | (_, none) => t

/-- `allocate_kernel_stack`: the slot, or nothing with the pages already mapped retired, each
at a generation of its own after `generation`, and how many that were. -/
def allocateStack (t : Tables) (safe generation : Nat) : Tables × Option KstackId × Nat :=
  match (List.finRange maxThreads).find? fun slot => !t.kstackUsed slot with
  | none => (t, none, 0)
  | some slot =>
    match mapStack safe slot t.kernel t.allocator kstackPages with
    | (allocator, kernel, _, true) =>
      ({ t with allocator, kernel, kstackUsed := Function.update t.kstackUsed slot true },
        some slot, 0)
    | (allocator, kernel, mapped, false) =>
      ((List.range mapped).foldl (fun t k => dropStackPage slot t (generation + 1 + k) k)
        { t with allocator, kernel }, none, mapped)

/-- `release_kernel_stack`, at a generation taken for it. -/
def releaseStack (t : Tables) (slot : KstackId) (stamp : Nat) : Tables :=
  if t.kstackUsed slot then
    let t := (List.range kstackPages).foldl (fun t k => dropStackPage slot t stamp k) t
    { t with kstackUsed := Function.update t.kstackUsed slot false }
  else t

/-- `destroy_user_half` and `release_root`: the user half at one generation, the root at the
next. -/
def destroySpace (t : Tables) (d : DomainId) (stamp : Nat) : Tables :=
  match (t.domains d).space with
  | none => t
  | some space =>
    let allocator := space.userFrames.foldl
      (fun a frame => a.retireAt stamp (.domain d) frame) t.allocator
    let allocator := allocator.retireAt (stamp + 1) (.domain d) space.root
    { t with allocator }.setDomain d fun domain => { domain with space := none }

/-- `build`: the address space and the first thread's stack, and the generations spent on a
stack that did not fit. -/
def build (t : Tables) (safe generation : Nat) (d : DomainId) (image : Image)
    (bytes : Nat → Nat → UInt8) : Tables × Bool × Nat :=
  match t.allocator.alloc safe (.domain d) with
  | (allocator, none) => ({ t with allocator }, false, 0)
  | (allocator, some root) =>
    match loadPages safe (.domain d) bytes (pageList image) ⟨root, [], []⟩ allocator with
    | (allocator, space, loaded) =>
      let t := { t with allocator }.setDomain d fun domain => { domain with space := some space }
      if loaded then
        match t.allocateStack safe generation with
        | (t, some slot, spent) =>
          (t.spendId.setDomain d fun domain => { domain with kstacks := [slot] }, true, spent)
        | (t, none, spent) => (t, false, spent)
      else (t, false, 0)

/-- What `collect_dead` demands of a dead domain; that no entry names it is `unnamed`. -/
def deadCollectable (t : Tables) (unnamed : DomainId → Bool) (d : DomainId) : Bool :=
  (t.domains d).state == .dead && unnamed d && (t.domains d).space.isNone
    && (t.domains d).kstacks.isEmpty

/-- The slot a new domain takes: an empty one, or the first dead one that can be
collected. -/
def takeDomainSlot (t : Tables) (unnamed : DomainId → Bool) : Tables × Option DomainId :=
  match (List.finRange maxDomains).find? fun d => (t.domains d).state == .empty with
  | some d => (t, some d)
  | none =>
    match (List.finRange maxDomains).find? (t.deadCollectable unnamed) with
    | some d =>
      ({ t with allocator := t.allocator.reassignQuarantine (.domain d) .kernel }.setDomain d
        fun domain => .empty domain.generation, some d)
    | none => (t, none)

/-- The slot of a new domain, as it is before the build. -/
def openDomain (t : Tables) (d : DomainId) (owner : ScopeId) (reservedPages : Nat) : Tables :=
  let t := t.setDomain d fun domain =>
    { Domain.empty (min (domain.generation + 1) u32Max) with
      state := .building, ownerScope := owner, reservedPages, reservedMetadata := 2 }
  t.spendId

/-- The end of a build that went through: the surplus of the reservation is returned. -/
def settleDomain (t : Tables) (d : DomainId) (owner : ScopeId) (reserved : Nat) : Tables :=
  let surplus := reserved - (t.allocator.charged (.domain d) + kstackPages)
  let t := { t with scopes := t.scopes.set owner fun node => { node with threads := node.threads + 1 } }
  (t.release owner .memoryPages surplus).setDomain d fun domain =>
    { domain with reservedPages := reserved - surplus }

/-- The end of a build that failed. -/
def abandonDomain (t : Tables) (d : DomainId) (owner : ScopeId) (reserved stamp : Nat) : Tables :=
  let t := t.destroySpace d stamp
  ((t.release owner .memoryPages reserved).release owner .metadata 2).setDomain d fun domain =>
    .empty domain.generation

/-- The charges of a domain, taken before anything is built. -/
def reserveDomain (t : Tables) (owner : ScopeId) (reserved : Nat) : Tables × Bool :=
  match t.scopes.reserve owner .memoryPages reserved with
  | none => (t, false)
  | some scopes =>
    match scopes.reserve owner .metadata 2 with
    | none => ({ t with scopes := scopes.release owner .memoryPages reserved }, false)
    | some scopes =>
      if t.nextObjectId = u64Max then
        ({ t with
            scopes := (scopes.release owner .memoryPages reserved).release owner .metadata 2 },
          false)
      else ({ t with scopes }, true)

/-- `create_in`, once the domain has its slot: whether it was built, the generations spent on
its stack and those spent on tearing it down. -/
def raiseDomain (t : Tables) (safe generation : Nat) (d : DomainId) (owner : ScopeId)
    (image : Image) (bytes : Nat → Nat → UInt8) : Tables × Bool × Nat × Nat :=
  let reserved := image.pages + userStackPages + kstackPages + tableReservePages
  match t.reserveDomain owner reserved with
  | (t, false) => (t, false, 0, 0)
  | (t, true) =>
    match (t.openDomain d owner reserved).build safe generation d image bytes with
    | (t, true, spent) => (t.settleDomain d owner reserved, true, spent, 0)
    | (t, false, spent) =>
      (t.abandonDomain d owner reserved (generation + spent + 1), false, spent,
        if (t.domains d).space.isSome then 2 else 0)

/-- `add_thread_in`, its memory: the generations spent. -/
def addThread (t : Tables) (safe generation : Nat) (d : DomainId) : Tables × Nat :=
  if (t.domains d).state ≠ .building ∨ maxThreadsPerDomain ≤ (t.domains d).kstacks.length then
    (t, 0)
  else
    let owner := (t.domains d).ownerScope
    match t.scopes.reserve owner .memoryPages kstackPages with
    | none => (t, 0)
    | some scopes =>
      match scopes.reserve owner .metadata 1 with
      | none => ({ t with scopes := scopes.release owner .memoryPages kstackPages }, 0)
      | some scopes =>
        match { t with scopes }.allocateStack safe generation with
        | (t, none, spent) =>
          ((t.release owner .memoryPages kstackPages).release owner .metadata 1, spent)
        | (t, some slot, spent) =>
          let t := t.spendId.setDomain d fun domain =>
            { domain with
              kstacks := domain.kstacks ++ [slot]
              reservedPages := domain.reservedPages + kstackPages
              reservedMetadata := domain.reservedMetadata + 1 }
          ({ t with
              scopes := t.scopes.set owner fun node => { node with threads := node.threads + 1 } },
            spent)

/-- The end of `reap_dead`: the space goes back and the scope is credited. -/
def reapSpace (t : Tables) (d : DomainId) (threads stamp : Nat) : Tables :=
  let t := t.destroySpace d stamp
  let domain := t.domains d
  let t := (t.release domain.ownerScope .memoryPages domain.reservedPages).release
    domain.ownerScope .metadata domain.reservedMetadata
  let t := { t with
    scopes := t.scopes.set domain.ownerScope fun node =>
      { node with threads := node.threads - max threads 1 } }
  t.setDomain d fun domain => { domain with state := .dead, reservedPages := 0, reservedMetadata := 0 }

/-! ### Scopes -/

/-- The barrier: every open scope in the perimeter is fenced. -/
def fence (t : Tables) (root : ScopeId) : Tables :=
  { t with
    scopes := fun i =>
      if t.scopes.isWithin root i ∧ (t.scopes i).state = .opened then
        { t.scopes i with state := .fenced }
      else t.scopes i }

/-- `advance_quiescence`. -/
def advance (t : Tables) : Tables :=
  { t with
    scopes := (List.finRange maxScopes).foldl
      (fun scopes i => if scopes.drained i then scopes.setState i .quiescent else scopes) t.scopes }

/-- One memory object of a perimeter that retires: released as long as nothing maps it. -/
def releaseSponsored (root : ScopeId) (t : Tables) (i : MemoryId) : Tables :=
  let object := t.objects i
  if object.state = .empty ∨ !t.scopes.isWithin root object.sponsor ∨ object.mapCount ≠ 0 then t
  else
    let t := { t with
      allocator := t.allocator.releaseRun object.base object.pages (.scope object.sponsor) }
    let t := (t.release object.sponsor .memoryPages object.pages).release object.sponsor .metadata 1
    t.emptyObject i

/-- `scopeops::retire`, on a quiescent scope. -/
def retire (t : Tables) (root : ScopeId) : Tables :=
  let t := (List.finRange maxMemoryObjects).foldl (releaseSponsored root) t
  { t with
    scopes := fun i =>
      if t.scopes.isWithin root i ∧ (t.scopes i).state ≠ .empty then
        { t.scopes i with state := .retired }
      else t.scopes i }

/-- What `collect_retired` demands; that no entry names the scope is `unnamed`. -/
def retiredCollectable (t : Tables) (unnamed : ScopeId → Bool) (i : ScopeId) : Bool :=
  (t.scopes i).state == .retired && unnamed i && (t.scopes i).threads == 0
    && !t.scopes.hasChild i

/-- The slot a new scope takes. -/
def takeScopeSlot (t : Tables) (unnamed : ScopeId → Bool) : Tables × Option ScopeId :=
  match (List.finRange maxScopes).find? fun i => (t.scopes i).state == .empty with
  | some i => (t, some i)
  | none =>
    match (List.finRange maxScopes).find? (t.retiredCollectable unnamed) with
    | some i =>
      let scopes := match (t.scopes i).parent with
        | some p => t.scopes.set p fun node => { node with children := node.children - 1 }
        | none => t.scopes
      ({ t with
          allocator := t.allocator.reassignQuarantine (.scope i) .kernel
          scopes := scopes.reset i }, some i)
    | none => (t, none)

/-- `create_child`. -/
def createChild (t : Tables) (parent : ScopeId) (limits : Limits) (unnamed : ScopeId → Bool) :
    Tables × Answer :=
  if (t.scopes parent).state ≠ .opened then (t, .error .scopeClosed)
  else if maxScopeDepth ≤ (t.scopes parent).depth + 1
      ∨ !limits.fits (t.scopes parent).limits then (t, .error .limitExhausted)
  else
    let depth := (t.scopes parent).depth + 1
    match t.takeScopeSlot unnamed with
    | (t, none) => (t, .error .limitExhausted)
    | (t, some i) =>
      match t.scopes.reserve parent .metadata 1 with
      | none => (t, .error .limitExhausted)
      | some scopes =>
        if t.nextObjectId = u64Max then
          ({ t with scopes := scopes.release parent .metadata 1 }, .error .limitExhausted)
        else
          let scopes := scopes.set i fun _ =>
            { Scope.empty with
              state := .opened, id := t.nextObjectId, parent := some parent, depth, limits }
          ({ t.spendId with
              scopes := scopes.set parent fun node => { node with children := node.children + 1 } },
            .ok i)

end Tables

end Thalyx.Kernel.Memory
