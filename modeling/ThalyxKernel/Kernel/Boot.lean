/-
The first machine: `kernel/src/k2boot.rs`, and the activation `kernel/src/boot.rs` ends
with.

The kernel makes a root scope, a control log, two scopes below the root and one domain, and
fills that domain's capability table by hand.  A boot module that cannot be turned into an
object is skipped, with whatever was made for it before the refusal.

The package without a supervisor, in which every module is a domain with no capability, is
not modelled: none of its domains can enter an operation.
-/
import ThalyxKernel.Kernel.Lifecycle

namespace Thalyx.Kernel

abbrev rootMetadata : Nat := 2048
abbrev rootQueueBytes : Nat := 64 * 1024
abbrev rootClosureReserveNs : Nat := 2000000
abbrev cpuWindowNs : Nat := 10000000

namespace BootSlot

abbrev selfDomain : CapSlot := 1
abbrev selfScope : CapSlot := 2
abbrev controlLog : CapSlot := 3
abbrev firstDevice : Nat := 4
abbrev firstModule : Nat := 8

end BootSlot

/-- What stands before the first scope is made: the memory, the kernel's own space, the
processors' execution per window and the devices found. -/
structure Hardware where
  allocator : FrameAllocator
  tlb : Tlb
  kernelSpace : AddressSpace
  kstackUsed : ThreadId → Bool
  budgetNs : Nat
  devices : DeviceId → Bool

/-- `MAX_MODULES`. -/
abbrev maxModules : Nat := 16

/-- `BootModule`: the pages its bytes take. -/
structure BootModule where
  pages : Nat

/-- The tables before anything is in them.  The idle threads are not user threads and stand
in slots of their own. -/
def Hardware.blank (hw : Hardware) : Machine where
  scopes := fun _ => .empty
  fenced := 0
  domains := fun _ => .empty
  caps := fun _ => .new
  grants := fun _ => .empty
  grantHint := 0
  generation := fun o => match o with
    | .device i => if hw.devices i then 1 else 0
    | _ => 0
  refs := fun _ => 0
  memories := fun _ => .empty
  maps := fun _ => .empty
  endpoints := fun _ => .empty
  messages := fun _ => .empty
  messageFree := fun _ => true
  invocations := fun _ => .empty
  invocationFree := fun _ => true
  signals := fun _ => .empty
  timers := fun _ => .empty
  logs := fun _ => .empty
  devices := hw.devices
  threads := fun _ => .empty
  allocator := hw.allocator
  tlb := hw.tlb
  kernelSpace := hw.kernelSpace
  kstackUsed := hw.kstackUsed
  nextObjectId := 1
  systemLog := none
  pendingMemory := fun _ => false

namespace Boot

/-- A step of the boot. -/
abbrev Boot := EStateM Unit Machine

/-- The root scope's slot. -/
abbrev root : ScopeId := 0

/-- `establish_root`. -/
def establishRoot (budgetNs : Nat) : Boot Unit := do
  let id ← Op.nextId id ()
  modify fun s =>
    let s := s.renew (.scope root) 1
    s.setScope root fun _ =>
      { Scope.empty with
        state := .opened
        id
        limits := ⟨s.allocator.freeFrames, rootMetadata, budgetNs, rootQueueBytes,
          rootClosureReserveNs, maxThreads⟩ }

/-- A control log's slot written, as the system's log. -/
def openLog (i : LogId) (s : Machine) : Machine :=
  { s.renew (.controlLog i) (s.nextGeneration (.controlLog i)) with
    logs := Function.update s.logs i { ControlLog.empty with used := true }
    systemLog := some i }

/-- A free log slot. -/
def logSlot (s : Machine) : Option LogId :=
  (List.finRange maxControlLogs).find? fun i => !(s.logs i).used

/-- `establish_control_log`. -/
def establishControlLog : Boot Unit := do
  let i ← Op.orElse (fun s => (s, logSlot s)) ()
  Op.reserve root .metadata 1 id ()
  let _ ← Op.nextId id ()
  modify (openLog i)

/-- A free scope slot. -/
def scopeSlot (s : Machine) : Option ScopeId :=
  (List.finRange maxScopes).find? fun i => (s.scopes i).state == .empty

/-- `child_scope`. -/
def childScope (parent : ScopeId) (limits : Machine → Limits) : Boot ScopeId := do
  let i ← Op.orElse (fun s => (s, scopeSlot s)) ()
  Op.reserve parent .metadata 1 id ()
  let id ← Op.nextId id ()
  modify fun s => s.openScope i parent id ((s.scopes parent).depth + 1) (limits s)
  pure i

/-- The rights of a boot module's object. -/
def moduleRights : Rights := Right.memoryRead ||| Right.memoryExecute ||| Right.memoryMap

/-- The frames of a boot module. -/
def allocModule (sponsor : ScopeId) (pages : Nat) : Boot Frame := fun s =>
  match s.allocator.allocContiguous s.tlb.safeGeneration pages (.scope sponsor) with
  | (allocator, some base) => .ok base { s with allocator }
  | (allocator, none) => .error () { s with allocator }

/-- A boot module's object written and sealed. -/
def openModule (sponsor : ScopeId) (base : Frame) (pages : Nat) (i : MemoryId) (id : Nat)
    (s : Machine) : Machine :=
  (s.openMemory sponsor base ⟨pages, moduleRights, 0⟩ i id).setMemory i fun m =>
    { m with state := .sealed }

/-- `image_object`. -/
def imageObject (sponsor : ScopeId) (module : BootModule) : Boot MemoryId := do
  Op.require (fun _ => module.pages != 0 && module.pages ≤ maxObjectPages) ()
  let i ← Op.orElse (fun s => (s, s.memorySlot)) ()
  Op.reserve sponsor .metadata 1 id ()
  Op.reserve sponsor .memoryPages module.pages (fun s => s.release sponsor .metadata 1) ()
  let base ← allocModule sponsor module.pages
  let id ← Op.nextId id ()
  modify (openModule sponsor base module.pages i id)
  pure i

/-- `install`. -/
def install (domain : DomainId) (slot : CapSlot) (object : ObjRef) (rights : Rights)
    (sponsor : ScopeId) : Boot Handle := do
  let grant ← Op.orElse (fun s => s.grantAlloc sponsor none object rights 0 none 0) ()
  Op.orElse (fun s => s.capInstall domain object (some grant) (some slot)) ()

/-- A boot module made an object and given to the supervisor. -/
def installModule (domain : DomainId) (system : ScopeId) (slot : CapSlot) (module : BootModule) :
    Boot Unit := do
  let i ← imageObject system module
  let generation := (← get).generation (.memory i)
  let _ ← install domain slot ⟨.memory i, generation⟩
    (Right.inspect ||| Right.derive ||| Right.transfer ||| moduleRights) system

/-- Whether a step went through; the boot goes on with what it left either way. -/
def attempt (b : Boot Unit) : Boot Bool := fun s =>
  match b s with
  | .ok () s => .ok true s
  | .error () s => .ok false s

/-- The modules in package order, each in the next slot.  A package has too few of them to
run out of slots. -/
def installModules (domain : DomainId) (system : ScopeId) : List BootModule → Nat → Boot Unit
  | [], _ => pure ()
  | module :: rest, slot => do
    if h : slot < maxCaps then
      let installed ← attempt (installModule domain system ⟨slot, h⟩ module)
      installModules domain system rest (if installed then slot + 1 else slot)
    else pure ()

/-- The device's own index names the domain here too: the source's loop variable hides the
supervisor's. -/
def deviceDomain (i : DeviceId) : DomainId := Fin.castLE (by decide) i

/-- The devices in enumeration order, each in the next slot before the modules'. -/
def installDevices (system : ScopeId) : List DeviceId → Nat → Boot Unit
  | [], _ => pure ()
  | i :: rest, count => do
    let s ← get
    if s.devices i then
      if h : BootSlot.firstDevice + count < BootSlot.firstModule then
        let installed ← attempt do
          let _ ← install (deviceDomain i) ⟨BootSlot.firstDevice + count, Nat.lt_trans h (by decide)⟩
            ⟨.device i, s.generation (.device i)⟩ (ObjKind.rightsMask .device) system
        installDevices system rest (if installed then count + 1 else count)
      else pure ()
    else installDevices system rest count

/-- The build of the supervisor's domain. -/
def createSupervisor (image : Option Image) (own : ScopeId) : Boot DomainId := fun s =>
  match Machine.createIn image own false s with
  | .ok d s => .ok d s
  | .error _ s => .error () s

/-- `establish_supervisor`. -/
def establishSupervisor (budgetNs : Nat) (image : Option Image) (modules : List BootModule) :
    Boot DomainId := do
  let system ← childScope root fun s =>
    ⟨min s.allocator.freeFrames (s.scopes root).limits.memoryPages, rootMetadata - 8, budgetNs,
      rootQueueBytes, rootClosureReserveNs, maxThreads⟩
  let own ← childScope system fun _ =>
    ⟨256, 128, cpuWindowNs / 2, 16 * 1024, rootClosureReserveNs / 2, 4⟩
  let index ← createSupervisor image own
  let generation := (← get).generation (.domain index)
  let _ ← install index BootSlot.selfDomain ⟨.domain index, generation⟩
    (ObjKind.rightsMask .domain) own
  let generation := (← get).generation (.scope system)
  let _ ← install index BootSlot.selfScope ⟨.scope system, generation⟩
    (ObjKind.rightsMask .scope) own
  let log ← Op.orElse (fun s => (s, s.systemLog)) ()
  let generation := (← get).generation (.controlLog log)
  let _ ← install index BootSlot.controlLog ⟨.controlLog log, generation⟩
    (ObjKind.rightsMask .controlLog) own
  installDevices system (List.finRange maxDevices) 0
  installModules index system modules BootSlot.firstModule
  pure index

/-- The boot of a package with a supervisor, to its activation. -/
def boot (hw : Hardware) (image : Option Image) (modules : List BootModule) : Boot Unit := do
  establishRoot hw.budgetNs
  let _ ← attempt establishControlLog
  let index ← establishSupervisor hw.budgetNs image modules
  Op.require (Machine.activatable index) ()
  modify fun s => s.activateIn index

end Boot

end Thalyx.Kernel
