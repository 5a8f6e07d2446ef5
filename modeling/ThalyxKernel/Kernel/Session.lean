/-
Device sessions: `kernel/src/api/devops.rs`.

An operation on a device names the session it believes the device is in.  A reset ends the
session in three parts: it marks the device under the lock, drops the lock and turns off bus
mastering and the transport, and takes the lock again to take everything back and begin the
next session.  In between, any operation of any holder may run, and the session is still the
old one.

Beside the records there is what they are about: the bus-master bit of the function itself,
and the pages of the domains' address spaces.  Capabilities, scopes, signals and memory objects
are asked and not modelled; what they answer comes with the operation.  What is only reported
is left out, and so are the entries of the interrupt table.
-/
import ThalyxKernel.Lib.Run
import ThalyxKernel.Kernel.Build

namespace Thalyx.Kernel.Session

/-- `MAX_DEVICE_MAPS`. -/
abbrev maxDeviceMaps : Nat := 12

/-- `MAX_DMA_GRANTS`. -/
abbrev maxDmaGrants : Nat := 16

/-- `MAX_IRQ_BINDINGS`. -/
abbrev maxIrqBindings : Nat := 8

/-- `DEVICE_VECTOR_BASE` and `DEVICE_VECTOR_COUNT`. -/
def deviceVectorBase : Nat := 0x50
def deviceVectorCount : Nat := 8

/-! ### Records -/

/-- `State` of an assigned device. -/
inductive Lifecycle where
  | ready | running | stopping
  deriving DecidableEq, Repr

/-- `Device`: of its regions, how many pages each has; of its interrupts, how many. -/
structure Device where
  session : Nat
  state : Lifecycle
  busMaster : Bool
  regions : List Nat
  msixVectors : Option Nat
  dmaAddressBits : Nat
  deriving DecidableEq, Repr

/-- `MapRecord`. -/
structure MapRecord where
  used : Bool
  device : DeviceId
  session : Nat
  region : Nat
  domain : DomainId
  domainGeneration : Nat
  vaddr : Nat
  pages : Nat
  deriving DecidableEq, Repr

/-- `MapRecord::empty`. -/
def MapRecord.empty : MapRecord := ⟨false, 0, 0, 0, 0, 0, 0, 0⟩

/-- `DmaGrant`. -/
structure DmaGrant where
  used : Bool
  device : DeviceId
  session : Nat
  memory : ObjRef
  offsetPages : Nat
  pages : Nat
  rights : Rights
  iova : Nat
  profile : Nat
  deriving DecidableEq, Repr

/-- `DmaGrant::empty`. -/
def DmaGrant.empty : DmaGrant := ⟨false, 0, 0, ⟨.memory 0, 0⟩, 0, 0, 0#32, 0, 0⟩

/-- `IrqBinding`. -/
structure IrqBinding where
  used : Bool
  device : DeviceId
  session : Nat
  entry : Nat
  vector : Nat
  signal : ObjRef
  bits : Nat
  deriving DecidableEq, Repr

/-- `IrqBinding::empty`. -/
def IrqBinding.empty : IrqBinding := ⟨false, 0, 0, 0, 0, ⟨.signal 0, 0⟩, 0⟩

/-- What a page of an address space translates to. -/
inductive Leaf where
  | register (device : DeviceId)
  | ram
  deriving DecidableEq, Repr

/-- A domain's slot: its generation, and its address space by page. -/
structure Domain where
  generation : Nat
  space : Option (Nat → Option Leaf)

/-- A reset between its parts, as the thread that makes it holds it. -/
inductive Reset where
  /-- The device is marked. -/
  | marked (device : DeviceId)
  /-- Bus mastering was turned off. -/
  | stopped (device : DeviceId)
  /-- The transport confirmed. -/
  | confirmed (device : DeviceId)
  deriving DecidableEq, Repr

/-- The device tables, the functions' bus-master bits, the address spaces, and the resets that
the threads are in. -/
structure State (τ : Type) where
  devices : DeviceId → Device
  command : DeviceId → Bool
  domains : DomainId → Domain
  maps : Fin maxDeviceMaps → MapRecord
  grants : Fin maxDmaGrants → DmaGrant
  irqs : Fin maxIrqBindings → IrqBinding
  resets : τ → Option Reset

/-- Why an operation is refused. -/
inductive Refusal where
  | stateConflict | invalidArgument | invalidAddress | notSupported | limitExhausted
  | unsupportedProfile | drainIncomplete
  /-- A handle of the request did not resolve. -/
  | unresolved (status : Status)
  deriving DecidableEq, Repr

abbrev Answer := Except Refusal Nat

/-! ### Requests, and what the rest of the kernel answers to them -/

/-- `DeviceMapRequest`, with the domain its handle names. -/
structure MapRequest where
  session : Nat
  region : Nat
  vaddr : Nat
  domain : Except Status DomainId
  /-- Whether the domain is still being built. -/
  building : Bool
  /-- Whether its scope has metadata left. -/
  reserves : Bool
  /-- Whether there are frames for the tables that the pages need. -/
  tables : Bool

/-- `DeviceIrqRequest`, with the signal its handle names. -/
structure IrqRequest where
  session : Nat
  bits : Nat
  vectorIndex : Nat
  signal : Except Status ObjRef

/-- A memory object, as `dma_map` reads it. -/
structure Memory where
  object : ObjRef
  base : Nat
  pages : Nat
  writable : Bool

/-- `DmaMapRequest`, with the object its handle names. -/
structure DmaMapRequest where
  session : Nat
  offsetPages : Nat
  pageCount : Nat
  rights : Rights
  requiredProfile : Nat
  reserved0 : Nat
  memory : Except Status Memory
  /-- The profile the device can sustain. -/
  profile : Nat
  reserves : Bool

/-- `DmaUnmapRequest`. -/
structure DmaUnmapRequest where
  session : Nat
  iova : Nat
  reserved0 : Nat

variable {τ : Type}

/-- The first entry of a table that is free. -/
def firstFree {n : Nat} (used : Fin n → Bool) : Option (Fin n) :=
  (List.finRange n).find? fun i => !used i

namespace State

/-- `session_ok`. -/
def sessionOk (s : State τ) (d : DeviceId) (session : Nat) : Bool :=
  session != 0 && (s.devices d).session == session

/-! ### Register windows -/

/-- The pages of a window, in an address space. -/
def install (space : Option (Nat → Option Leaf)) (d : DeviceId) (first pages : Nat)
    (tables : Bool) : Option (Option (Nat → Option Leaf)) :=
  if pages = 0 then some space
  else match space with
  | none => none
  | some leaves =>
    if tables && (List.range pages).all fun k => (leaves (first + k)).isNone then
      some (some fun page =>
        if first ≤ page ∧ page < first + pages then some (.register d) else leaves page)
    else none

/-- `map_region`. -/
def mapRegion (s : State τ) (d : DeviceId) (request : MapRequest) : State τ × Answer :=
  if !s.sessionOk d request.session then (s, .error .stateConflict)
  else match (s.devices d).regions[request.region]? with
  | none => (s, .error .invalidArgument)
  | some pages =>
    if request.vaddr % pageSize ≠ 0 ∨ request.vaddr < userMinAddr
        ∨ userMaxAddr ≤ request.vaddr then (s, .error .invalidAddress)
    else match request.domain with
    | .error status => (s, .error (.unresolved status))
    | .ok x =>
      if !request.building then (s, .error .stateConflict)
      else if userMaxAddr < request.vaddr + pages * pageSize then
        (s, .error .invalidAddress)
      else match firstFree fun m => (s.maps m).used with
      | none => (s, .error .limitExhausted)
      | some m =>
        if !request.reserves then (s, .error .limitExhausted)
        else match install (s.domains x).space d (request.vaddr / pageSize) pages
            request.tables with
        | none => (s, .error .stateConflict)
        | some space =>
          ({ s with
              domains := Function.update s.domains x { s.domains x with space }
              maps := Function.update s.maps m
                { used := true, device := d, session := (s.devices d).session
                  region := request.region, domain := x
                  domainGeneration := (s.domains x).generation
                  vaddr := request.vaddr, pages } },
            .ok pages)

/-- The pages of a window, taken out of an address space. -/
def uninstall (leaves : Nat → Option Leaf) (first pages : Nat) (page : Nat) : Option Leaf :=
  if first ≤ page ∧ page < first + pages then none else leaves page

/-- The domains without a window, if its domain is still the one it was mapped into. -/
def withoutWindow (domains : DomainId → Domain) (r : MapRecord) : DomainId → Domain :=
  let x := domains r.domain
  if x.generation = r.domainGeneration then
    Function.update domains r.domain
      { x with space := x.space.map fun leaves => uninstall leaves (r.vaddr / pageSize) r.pages }
  else domains

/-- `withdraw_device_map`. -/
def withdrawDeviceMap (s : State τ) (m : Fin maxDeviceMaps) : State τ :=
  if !(s.maps m).used then s
  else
    { s with
      domains := withoutWindow s.domains (s.maps m)
      maps := Function.update s.maps m .empty }

/-- `unmap_region`, and whether every processor acknowledged. -/
def unmapRegion (s : State τ) (d : DeviceId) (session vaddr : Nat) (acknowledged : Bool) :
    State τ × Answer :=
  if !s.sessionOk d session then (s, .error .stateConflict)
  else match (List.finRange maxDeviceMaps).find? fun m =>
      (s.maps m).used && (s.maps m).device == d && (s.maps m).vaddr == vaddr with
  | none => (s, .error .invalidArgument)
  | some m =>
    (s.withdrawDeviceMap m,
      if acknowledged then .ok (s.maps m).pages else .error .drainIncomplete)

/-! ### The interrupt -/

/-- The first vector that no binding uses. -/
def freeVector (s : State τ) : Option Nat :=
  ((List.range deviceVectorCount).find? fun offset =>
    (List.finRange maxIrqBindings).all fun i =>
      !((s.irqs i).used && (s.irqs i).vector == deviceVectorBase + offset)).map
    (deviceVectorBase + ·)

/-- `bind_irq`. -/
def bindIrq (s : State τ) (d : DeviceId) (request : IrqRequest) : State τ × Answer :=
  if !s.sessionOk d request.session then (s, .error .stateConflict)
  else if request.bits = 0 then (s, .error .invalidArgument)
  else match (s.devices d).msixVectors with
  | none => (s, .error .notSupported)
  | some vectors =>
    if 2 ^ 16 ≤ request.vectorIndex ∨ vectors ≤ request.vectorIndex then
      (s, .error .invalidArgument)
    else match request.signal with
    | .error status => (s, .error (.unresolved status))
    | .ok signal =>
      if (List.finRange maxIrqBindings).any fun i => (s.irqs i).used
          && (s.irqs i).device == d && (s.irqs i).entry == request.vectorIndex then
        (s, .error .stateConflict)
      else match firstFree fun i => (s.irqs i).used, s.freeVector with
      | some i, some vector =>
        ({ s with
            irqs := Function.update s.irqs i
              { used := true, device := d, session := (s.devices d).session
                entry := request.vectorIndex, vector, signal, bits := request.bits } },
          .ok vector)
      | _, _ => (s, .error .limitExhausted)

/-! ### Bus mastering -/

/-- `Ecam::set_command` of the bus-master bit.  A function that cannot master keeps it clear. -/
def setCommand (s : State τ) (masters : DeviceId → Bool) (d : DeviceId) (enable : Bool) :
    State τ :=
  { s with command := Function.update s.command d (enable && masters d) }

/-- `set_master`. -/
def setMaster (s : State τ) (masters : DeviceId → Bool) (d : DeviceId) (session : Nat)
    (enable : Bool) : State τ × Answer :=
  if !s.sessionOk d session then (s, .error .stateConflict)
  else
    let s := s.setCommand masters d enable
    let effective := s.command d
    ({ s with
        devices := Function.update s.devices d
          { s.devices d with
            busMaster := effective, state := if effective then .running else .ready } },
      .ok effective.toNat)

/-! ### Grants -/

/-- What `dma_map` asks of its request before it looks at the object. -/
def dmaChecks (s : State τ) (d : DeviceId) (request : DmaMapRequest) : Except Refusal Memory :=
  if !s.sessionOk d request.session then .error .stateConflict
  else if request.reserved0 ≠ 0 ∨ request.pageCount = 0 then .error .invalidArgument
  else if request.rights = 0#32
      ∨ request.rights &&& ~~~(Right.memoryRead ||| Right.memoryWrite) ≠ 0#32 then
    .error .invalidArgument
  else if request.requiredProfile ≠ 0 ∧ request.requiredProfile ≠ request.profile then
    .error .unsupportedProfile
  else match request.memory with
  | .error status => .error (.unresolved status)
  | .ok memory =>
    if memory.pages < request.offsetPages + request.pageCount then .error .invalidArgument
    else if request.rights &&& Right.memoryWrite ≠ 0#32 ∧ !memory.writable then
      .error .stateConflict
    else if (s.devices d).dmaAddressBits < 64 ∧ 2 ^ (s.devices d).dmaAddressBits
        < memory.base + (request.offsetPages + request.pageCount) * pageSize then
      .error .invalidArgument
    else .ok memory

/-- `dma_map`. -/
def dmaMap (s : State τ) (d : DeviceId) (request : DmaMapRequest) : State τ × Answer :=
  match s.dmaChecks d request with
  | .error refusal => (s, .error refusal)
  | .ok memory =>
    match firstFree fun g => (s.grants g).used with
    | none => (s, .error .limitExhausted)
    | some g =>
      if !request.reserves then (s, .error .limitExhausted)
      else
        let iova := memory.base + request.offsetPages * pageSize
        ({ s with
            grants := Function.update s.grants g
              { used := true, device := d, session := (s.devices d).session
                memory := memory.object, offsetPages := request.offsetPages
                pages := request.pageCount, rights := request.rights, iova
                profile := request.profile } },
          .ok iova)

/-- `revoke_grant`. -/
def revokeGrant (s : State τ) (g : Fin maxDmaGrants) : State τ :=
  { s with grants := Function.update s.grants g .empty }

/-- `dma_unmap`. -/
def dmaUnmap (s : State τ) (d : DeviceId) (request : DmaUnmapRequest) : State τ × Answer :=
  if !s.sessionOk d request.session then (s, .error .stateConflict)
  else if request.reserved0 ≠ 0 then (s, .error .invalidArgument)
  else if (s.devices d).busMaster then (s, .error .stateConflict)
  else match (List.finRange maxDmaGrants).find? fun g =>
      (s.grants g).used && (s.grants g).device == d && (s.grants g).iova == request.iova with
  | none => (s, .error .invalidArgument)
  | some g => (s.revokeGrant g, .ok (s.grants g).pages)

/-! ### The reset -/

variable [DecidableEq τ]

def setReset (s : State τ) (t : τ) (reset : Option Reset) : State τ :=
  { s with resets := Function.update s.resets t reset }

/-- `reset`, under the lock the first time. -/
def markReset (s : State τ) (t : τ) (d : DeviceId) : State τ :=
  { s with
    devices := Function.update s.devices d
      { s.devices d with state := .stopping } }.setReset t (some (.marked d))

/-- The loop of `reset` over the register windows. -/
def withdrawAll (s : State τ) (d : DeviceId) : State τ :=
  (List.finRange maxDeviceMaps).foldl
    (fun s m =>
      if (s.maps m).used = true ∧ (s.maps m).device = d then s.withdrawDeviceMap m else s) s

/-- The loops of `reset` over the bindings and the grants. -/
def forget (s : State τ) (d : DeviceId) : State τ :=
  { s with
    irqs := fun i => if (s.irqs i).used = true ∧ (s.irqs i).device = d then .empty else s.irqs i
    grants := fun g =>
      if (s.grants g).used = true ∧ (s.grants g).device = d then .empty else s.grants g }

/-- The session after this one: `session.wrapping_add(1).max(1)`. -/
def nextSession (session : Nat) : Nat := max ((session + 1) % 2 ^ 32) 1

/-- `reset`, under the lock the second time. -/
def finishReset (s : State τ) (t : τ) (d : DeviceId) : State τ :=
  let s := (s.withdrawAll d).forget d
  { s with
    devices := Function.update s.devices d
      { s.devices d with
        busMaster := false
        session := nextSession (s.devices d).session
        state := .ready } }.setReset t none

end State

/-! ### Runs -/

/-- One thing that happens: an operation, a part of a reset, or what the rest of the kernel does
to a domain. -/
inductive Act (τ : Type) where
  | mapRegion (d : DeviceId) (request : MapRequest)
  | unmapRegion (d : DeviceId) (session vaddr : Nat) (acknowledged : Bool)
  | bindIrq (d : DeviceId) (request : IrqRequest)
  | setMaster (d : DeviceId) (session : Nat) (enable : Bool)
  | dmaMap (d : DeviceId) (request : DmaMapRequest)
  | dmaUnmap (d : DeviceId) (request : DmaUnmapRequest)
  | markReset (t : τ) (d : DeviceId)
  /-- Between the locks: bus mastering is turned off. -/
  | stopReset (t : τ)
  /-- Between the locks: whether the transport confirmed. -/
  | confirmReset (t : τ) (confirmed : Bool)
  | finishReset (t : τ) (acknowledged : Bool)
  /-- A domain's slot is emptied or taken anew. -/
  | replaceDomain (x : DomainId) (generation : Nat) (built : Bool)
  /-- A page of memory is mapped into a domain, or out of it. -/
  | memoryPage (x : DomainId) (page : Nat) (mapped : Bool)

variable [DecidableEq τ]

/-- A page of memory, mapped where there is nothing or unmapped where there is memory. -/
def Domain.memoryPage (x : Domain) (page : Nat) (mapped : Bool) : Domain :=
  { x with space := x.space.map fun leaves =>
      if mapped && (leaves page).isNone then Function.update leaves page (some .ram)
      else if !mapped && leaves page == some .ram then Function.update leaves page none
      else leaves }

/-- What an act leaves and answers, where it can happen at all. -/
def perform (masters : DeviceId → Bool) (s : State τ) : Act τ → Option (State τ × Answer)
  | .mapRegion d request => some (s.mapRegion d request)
  | .unmapRegion d session vaddr acknowledged =>
    some (s.unmapRegion d session vaddr acknowledged)
  | .bindIrq d request => some (s.bindIrq d request)
  | .setMaster d session enable => some (s.setMaster masters d session enable)
  | .dmaMap d request => some (s.dmaMap d request)
  | .dmaUnmap d request => some (s.dmaUnmap d request)
  | .markReset t d => if s.resets t = none then some (s.markReset t d, .ok 0) else none
  | .stopReset t =>
    match s.resets t with
    | some (.marked d) =>
      some ((s.setCommand masters d false).setReset t (some (.stopped d)), .ok 0)
    | _ => none
  | .confirmReset t confirmed =>
    match s.resets t with
    | some (.stopped d) =>
      if confirmed then some (s.setReset t (some (.confirmed d)), .ok 0)
      else some (s.setReset t none, .error .drainIncomplete)
    | _ => none
  | .finishReset t acknowledged =>
    match s.resets t with
    | some (.confirmed d) =>
      let s := s.finishReset t d
      some (s, if acknowledged then .ok (s.devices d).session else .error .drainIncomplete)
    | _ => none
  | .replaceDomain x generation built =>
    some ({ s with
      domains := Function.update s.domains x
        ⟨generation, if built then some fun _ => none else none⟩ }, .ok 0)
  | .memoryPage x page mapped =>
    some ({ s with
      domains := Function.update s.domains x ((s.domains x).memoryPage page mapped) }, .ok 0)

/-- The device and the session that an operation names. -/
def Act.names : Act τ → Option (DeviceId × Nat)
  | .mapRegion d request => some (d, request.session)
  | .unmapRegion d session _ _ => some (d, session)
  | .bindIrq d request => some (d, request.session)
  | .setMaster d session _ => some (d, session)
  | .dmaMap d request => some (d, request.session)
  | .dmaUnmap d request => some (d, request.session)
  | _ => none

/-- Devices just assigned: nothing is granted, bound or mapped, and none masters the bus. -/
structure Fresh (s : State τ) : Prop where
  busMaster : ∀ d, (s.devices d).busMaster = false
  command : ∀ d, s.command d = false
  maps : ∀ m, s.maps m = .empty
  grants : ∀ g, s.grants g = .empty
  irqs : ∀ i, s.irqs i = .empty
  resets : ∀ t, s.resets t = none
  spaces : ∀ x leaves page, (s.domains x).space = some leaves → leaves page = none

/-- The machine's devices, for the functions that can master the bus. -/
def machine (masters : DeviceId → Bool) : System (State τ) (Act τ) :=
  .ofStep Fresh fun s act => (perform masters s act).map Prod.fst

end Thalyx.Kernel.Session
