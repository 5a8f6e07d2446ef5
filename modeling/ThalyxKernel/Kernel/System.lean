/-
The kernel as a transition system.

A step is one operation entered by a running thread, one half of an operation that waits in
between, a fault, or something the kernel does on its own: the reap of a stopped domain, the
reclaim of memory nobody names, the promotion of drained scopes.

Everything the model has no operation for is one further kind of step, `elsewhere`: timeouts
and wakes, devices, signals, timers, the log's readers and the processor accounts.  It may
change what those change and nothing else.
-/
import ThalyxKernel.Kernel.Boot
import ThalyxKernel.Lib.Run

namespace Thalyx.Kernel

open Option

/-- The operations that make something. -/
inductive Creation where
  | child (request : ScopeCreateRequest)
  | endpoint (request : EndpointCreateRequest)
  | facet (request : BindFacetRequest)
  | signal
  | timer (request : TimerCreateRequest)
  | memory (request : MemoryCreateRequest)
  | domain (request : DomainCreateRequest)
  | installCap (request : InstallCapRequest)
  | derive (request : DeriveRequest)

/-- A creation entered by `caller`. -/
def Creation.run (caller : Caller) : Creation → Op Handle
  | .child request => createChild caller request
  | .endpoint request => createEndpoint caller request
  | .facet request => bindFacet caller request
  | .signal => createSignal caller
  | .timer request => createTimer caller request
  | .memory request => createMemory caller request
  | .domain request => createDomain caller request
  | .installCap request => Kernel.installCap caller request
  | .derive request => Kernel.derive caller request

/-- The operations a thread enters. -/
inductive Operation where
  | create (creation : Creation)
  | copy | close | fenceCap
  | setLimits (request : ScopeCreateRequest)
  | fence | drainStatus | retire
  | map (request : MapRequest)
  | unmap (request : UnmapRequest)
  | sealMemory
  | addThread (request : ThreadCreateRequest)
  | setFaultChannel (request : FaultChannelRequest)
  | activate | terminate
  | send (request : SendRequest)
  | call (request : SendRequest)
  | receive
  | reply (request : ReplyRequest) (raced : Bool)
  | beginEffect (request : EffectRequest)
  | resolve (request : ResolveRequest)
  | bindWorker | unbindWorker

/-- The machine an operation leaves, whatever it answers. -/
def Operation.run (caller : Caller) (s : Machine) : Operation → Machine
  | .create creation => Fallible.final (creation.run caller s)
  | .copy => Fallible.final (copyCap caller s)
  | .close => Fallible.final (closeCap caller s)
  | .fenceCap => Fallible.final (Kernel.fenceCap caller s)
  | .setLimits request => Fallible.final (Kernel.setLimits caller request s)
  | .fence => Fallible.final (Kernel.fence caller s)
  | .drainStatus => Fallible.final (Kernel.drainStatus caller s)
  | .retire => Fallible.final (Kernel.retire caller s)
  | .map request => Fallible.final (Kernel.map caller request s)
  | .unmap request => Fallible.final (Kernel.unmap caller request s)
  | .sealMemory => Fallible.final (Kernel.sealMemory caller s)
  | .addThread request => Fallible.final (Kernel.addThread caller request s)
  | .setFaultChannel request => Fallible.final (Kernel.setFaultChannel caller request s)
  | .activate => Fallible.final (Kernel.activate caller s)
  | .terminate => Fallible.final (Kernel.terminate caller s)
  | .send request => Fallible.final (Kernel.send caller request s)
  | .call request => Fallible.final (Kernel.call caller request s)
  | .receive => Fallible.final (Kernel.receive caller s)
  | .reply request raced => Fallible.final (Kernel.reply caller request raced s)
  | .beginEffect request => Fallible.final (Kernel.beginEffect caller request s)
  | .resolve request => Fallible.final (resolveInvocation caller request s)
  | .bindWorker => Fallible.final (Kernel.bindWorker caller s)
  | .unbindWorker => Fallible.final (Kernel.unbindWorker caller s)

/-- A thread that runs in its domain and is inside no operation. -/
structure Machine.Enters (s : Machine) (thread : ThreadId) (domain : DomainId) : Prop where
  runs : (s.threads thread).state = .running
  inDomain : (s.threads thread).domain = some domain
  alive : (s.domains domain).state = .runnable
  notCalling : (s.threads thread).calling = none
  notUnmapping : (s.threads thread).unmapping = none
  notSealing : (s.threads thread).sealing = none

/-- What everything without an operation of its own may change. -/
structure Elsewhere (s s' : Machine) : Prop where
  scopes : ∀ i, ∃ used closureUsedNs parallelismUsed,
    s'.scopes i = { s.scopes i with used, closureUsedNs, parallelismUsed }
  domains : ∀ i, ∃ space, s'.domains i = { s.domains i with space }
  memories : ∀ i, ∃ dmaGrants, s'.memories i = { s.memories i with dmaGrants }
  logs : ∀ i, (s'.logs i).used = (s.logs i).used
  threads : ∀ i, ∃ state wait deadlineNs wakeStatus wakeAux handoff,
    s'.threads i = { s.threads i with state, wait, deadlineNs, wakeStatus, wakeAux, handoff }
      ∧ (state ≠ (s.threads i).state → (s.threads i).state = .running ∨ (s.threads i).state = .blocked)
  nextObjectId : s.nextObjectId ≤ s'.nextObjectId
  fenced : s'.fenced = s.fenced
  caps : s'.caps = s.caps
  grants : s'.grants = s.grants
  generation : s'.generation = s.generation
  refs : s'.refs = s.refs
  maps : s'.maps = s.maps
  endpoints : s'.endpoints = s.endpoints
  messages : s'.messages = s.messages
  messageFree : s'.messageFree = s.messageFree
  invocations : s'.invocations = s.invocations
  invocationFree : s'.invocationFree = s.invocationFree
  signals : s'.signals = s.signals
  timers : s'.timers = s.timers
  devices : s'.devices = s.devices

/-- The steps of the kernel. -/
inductive Step where
  | enter (caller : Caller) (operation : Operation)
  | returnFromCall (thread : ThreadId)
  | finishUnmap (thread : ThreadId) (acknowledged : Bool)
  | finishSeal (thread : ThreadId) (acknowledged : Bool)
  | exit (thread : ThreadId) (domain : DomainId)
  | fault (thread : ThreadId) (domain : DomainId) (report : List UInt8) (now : Nat)
  | reap (domain : DomainId)
  | drainMemory
  | advance
  | elsewhere

/-- One step, as a relation between the machine before and after. -/
def Machine.Steps (s : Machine) : Step → Machine → Prop
  | .enter caller operation, s' =>
    s.Enters caller.thread caller.domain ∧ s' = operation.run caller s
  | .returnFromCall thread, s' =>
    (s.threads thread).state = .running ∧ (s.threads thread).calling.isSome
      ∧ s' = Fallible.final (Kernel.returnFromCall thread s)
  | .finishUnmap thread acknowledged, s' =>
    (s.threads thread).state = .running ∧ s' = Kernel.finishUnmap s thread acknowledged
  | .finishSeal thread acknowledged, s' =>
    (s.threads thread).state = .running ∧ s' = Kernel.finishSeal s thread acknowledged
  | .exit thread domain, s' => s.Enters thread domain ∧ s' = (s.terminateIn domain false).1
  | .fault thread domain report now, s' =>
    s.Enters thread domain ∧ s' = s.terminateOnFault thread domain report now
  | .reap domain, s' => s.reapable domain ∧ s' = s.reap domain
  | .drainMemory, s' => s' = s.drainPendingMemory
  | .advance, s' => s' = s.advanceQuiescence
  | .elsewhere, s' => Elsewhere s s'

/-- A machine a boot leaves. -/
def Booted (s : Machine) : Prop :=
  ∃ hw image modules, modules.length ≤ maxModules ∧ Boot.boot hw image modules hw.blank = .ok () s

/-- The kernel: every run starts where a boot ends. -/
def kernel : System Machine Step where
  init := Booted
  step := Machine.Steps

/-! ### Playing a run -/

section Play

variable {s t : Machine}

instance (thread : ThreadId) (domain : DomainId) : Decidable (s.Enters thread domain) :=
  decidable_of_iff
    ((s.threads thread).state = .running ∧ (s.threads thread).domain = some domain ∧
      (s.domains domain).state = .runnable ∧ (s.threads thread).calling = none ∧
      (s.threads thread).unmapping = none ∧ (s.threads thread).sealing = none)
    ⟨fun ⟨h₁, h₂, h₃, h₄, h₅, h₆⟩ => ⟨h₁, h₂, h₃, h₄, h₅, h₆⟩,
      fun h => ⟨h.runs, h.inDomain, h.alive, h.notCalling, h.notUnmapping, h.notSealing⟩⟩

/-- A step taken, where it leaves one machine and may be taken. -/
def Machine.takes (s : Machine) : Step → Option Machine
  | .enter caller operation =>
    if s.Enters caller.thread caller.domain then some (operation.run caller s) else none
  | .returnFromCall thread =>
    if (s.threads thread).state = .running ∧ (s.threads thread).calling.isSome then
      some (Fallible.final (Kernel.returnFromCall thread s))
    else none
  | .finishUnmap thread acknowledged =>
    if (s.threads thread).state = .running then some (Kernel.finishUnmap s thread acknowledged)
    else none
  | .finishSeal thread acknowledged =>
    if (s.threads thread).state = .running then some (Kernel.finishSeal s thread acknowledged)
    else none
  | .exit thread domain =>
    if s.Enters thread domain then some (s.terminateIn domain false).1 else none
  | .fault thread domain report now =>
    if s.Enters thread domain then some (s.terminateOnFault thread domain report now) else none
  | .reap domain => if s.reapable domain then some (s.reap domain) else none
  | .drainMemory => some s.drainPendingMemory
  | .advance => some s.advanceQuiescence
  | .elsewhere => none

theorem Machine.steps_of_takes {a : Step} (h : s.takes a = some t) : s.Steps a t := by
  cases a <;> simp only [Machine.takes, ite_none_right_eq_some, some.injEq,
    reduceCtorEq] at h
  case enter => exact ⟨h.1, h.2.symm⟩
  case returnFromCall => exact ⟨h.1.1, h.1.2, h.2.symm⟩
  case finishUnmap => exact ⟨h.1, h.2.symm⟩
  case finishSeal => exact ⟨h.1, h.2.symm⟩
  case exit => exact ⟨h.1, h.2.symm⟩
  case fault => exact ⟨h.1, h.2.symm⟩
  case reap => exact ⟨h.1, h.2.symm⟩
  case drainMemory => exact h.symm
  case advance => exact h.symm

/-- The first machine of a package, and the steps of a list from there. -/
def played (hw : Hardware) (image : Image) (modules : List BootModule) (steps : List Step) :
    Option Machine :=
  match Boot.boot hw (some image) modules hw.blank with
  | .ok () s => System.exec Machine.takes steps s
  | .error _ _ => none

variable {steps : List Step}

theorem reachable_of_exec (hs : kernel.Reachable s)
    (h : System.exec Machine.takes steps s = some t) : kernel.Reachable t := by
  induction steps generalizing s with
  | nil => exact some.inj h ▸ hs
  | cons a rest ih =>
    obtain ⟨u, hu, hrest⟩ := bind_eq_some_iff.mp h
    exact ih (hs.step (Machine.steps_of_takes hu)) hrest

theorem reachable_of_played {hw : Hardware} {image : Image} {modules : List BootModule}
    (hm : modules.length ≤ maxModules)
    (h : played hw image modules steps = some s) : kernel.Reachable s := by
  unfold played at h
  split at h
  · rename_i s₀ hboot
    exact reachable_of_exec (.init ⟨hw, some image, modules, hm, hboot⟩) h
  · cases h

/-- The smallest machine: one segment of one page fits, and no device. -/
def Hardware.small : Hardware where
  allocator := ⟨32, fun _ => .free, 0, fun _ => 0⟩
  tlb := ⟨0, 0, le_rfl⟩
  kernelSpace := ⟨0, [], []⟩
  kstackUsed := fun _ => false
  budgetNs := cpuWindowNs
  devices := fun _ => false

/-- A program of one page. -/
def Image.small : Image := ⟨0x1000, [⟨0x1000, 1, true, false, true⟩]⟩

theorem small_reaches (modules : List BootModule) (steps : List Step) (p : Machine → Bool)
    (hm : modules.length ≤ maxModules) (h : (played .small .small modules steps).any p = true) :
    ∃ s, kernel.Reachable s ∧ p s = true := by
  obtain ⟨s, hs, hp⟩ := (any_eq_true p _).mp h
  exact ⟨s, reachable_of_played hm hs, hp⟩

/-- The thread of the first domain enters an operation on the capability in a slot whose
handle is in its first generation. -/
def Step.first (slot : Nat) (operation : Operation) : Step :=
  .enter ⟨0, 8, ⟨slot, 1⟩, false, 0, 0⟩ operation

end Play

end Thalyx.Kernel
