/-
Object references, capability tables and grants: `kernel/src/obj.rs`.

Every kernel object lives in a fixed table, so an index is a number below that table's
capacity (`kernel/src/limits.rs`).  The sentinels of the source (`NO_GRANT`, `NO_SCOPE`,
`NO_MESSAGE`, a receiver of `u16::MAX`) are `none`.

A handle is a table slot and a generation, the two halves of the 64-bit word.  A reference
to an object is the object's table entry and the generation that entry had when the
reference was made.

Labels and names are reported and never read by the kernel; they are left out.
-/
import Mathlib.Algebra.Order.Ring.Nat
import Mathlib.Data.Fintype.Prod
import Mathlib.Data.Fintype.Option
import Mathlib.Tactic.DeriveFintype
import Mathlib.Logic.Function.Basic

namespace Thalyx.Kernel

/-! ### Capacities -/

abbrev maxDomains : Nat := 16
abbrev maxThreads : Nat := 48
abbrev maxCpus : Nat := 8
abbrev maxThreadsPerDomain : Nat := 4
/-- `limit::MAX_HANDLES_PER_DOMAIN`. -/
abbrev maxCaps : Nat := 32
abbrev maxScopes : Nat := 24
abbrev maxGrants : Nat := 256
abbrev maxMemoryObjects : Nat := 72
abbrev maxMaps : Nat := 224
abbrev maxEndpoints : Nat := 20
abbrev maxMessages : Nat := 48
abbrev maxInvocations : Nat := 48
abbrev maxSignals : Nat := 20
abbrev maxTimers : Nat := 12
abbrev maxControlLogs : Nat := 2
abbrev maxDevices : Nat := 4
abbrev controlLogCapacity : Nat := 256
abbrev controlLogReserved : Nat := 8

/-- `limit::MAX_SCOPE_DEPTH`. -/
abbrev maxScopeDepth : Nat := 16
/-- `limit::MAX_DERIVE_DEPTH`. -/
abbrev maxDeriveDepth : Nat := 32
/-- `limit::MAX_CAPS_PER_MESSAGE`, which is also `MAX_MESSAGE_CAPS`. -/
abbrev maxMessageCaps : Nat := 4
/-- `limit::MAX_INLINE_PAYLOAD`. -/
abbrev maxInlinePayload : Nat := 256
/-- `limit::MAX_ENDPOINT_QUEUE`. -/
abbrev maxEndpointQueue : Nat := 8
/-- `limit::MAX_MEMORY_PAGES_PER_OBJECT`. -/
abbrev maxObjectPages : Nat := 4096

abbrev u32Max : Nat := 2 ^ 32 - 1
abbrev u64Max : Nat := 2 ^ 64 - 1

abbrev ScopeId := Fin maxScopes
abbrev DomainId := Fin maxDomains
abbrev GrantId := Fin maxGrants
abbrev MemoryId := Fin maxMemoryObjects
abbrev MapId := Fin maxMaps
abbrev EndpointId := Fin maxEndpoints
abbrev MessageId := Fin maxMessages
abbrev InvocationId := Fin maxInvocations
abbrev SignalId := Fin maxSignals
abbrev TimerId := Fin maxTimers
abbrev LogId := Fin maxControlLogs
abbrev DeviceId := Fin maxDevices
abbrev ThreadId := Fin maxThreads
/-- A slot of a domain's capability table. -/
abbrev CapSlot := Fin maxCaps

-- Every table has a first entry, and indices are compared by what they are.
instance : NeZero maxDomains := ⟨by decide⟩
instance : NeZero maxThreads := ⟨by decide⟩
instance : NeZero maxCpus := ⟨by decide⟩
instance : NeZero maxThreadsPerDomain := ⟨by decide⟩
instance : NeZero maxCaps := ⟨by decide⟩
instance : NeZero maxScopes := ⟨by decide⟩
instance : NeZero maxGrants := ⟨by decide⟩
instance : NeZero maxMemoryObjects := ⟨by decide⟩
instance : NeZero maxMaps := ⟨by decide⟩
instance : NeZero maxEndpoints := ⟨by decide⟩
instance : NeZero maxSignals := ⟨by decide⟩
instance : NeZero maxTimers := ⟨by decide⟩
instance : NeZero maxControlLogs := ⟨by decide⟩
instance : LawfulBEq ScopeId := inferInstance

/-- `status`: what an operation, a lineage walk or a wake answers. -/
inductive Status where
  | ok | invalidArgument | invalidHandle | wrongType | insufficientRights | expired
  | scopeClosed | limitExhausted | queueFull | peerDead | cancelled | pending | wouldBlock
  | timedOut | alreadyResolved | stateConflict | drainIncomplete
  deriving DecidableEq, Repr

/-! ### Objects -/

/-- `ObjKind`. -/
inductive ObjKind where
  | scope | domain | memory | endpoint | invocation | signal | timer | controlLog | device
  deriving DecidableEq, Repr

/-- An entry of one of the object tables. -/
inductive Obj where
  | scope (index : ScopeId)
  | domain (index : DomainId)
  | memory (index : MemoryId)
  | endpoint (index : EndpointId)
  | invocation (index : InvocationId)
  | signal (index : SignalId)
  | timer (index : TimerId)
  | controlLog (index : LogId)
  | device (index : DeviceId)
  deriving DecidableEq, Repr

def Obj.kind : Obj → ObjKind
  | .scope _ => .scope
  | .domain _ => .domain
  | .memory _ => .memory
  | .endpoint _ => .endpoint
  | .invocation _ => .invocation
  | .signal _ => .signal
  | .timer _ => .timer
  | .controlLog _ => .controlLog
  | .device _ => .device

/-- `ObjRef`: a table entry and the generation it had. -/
structure ObjRef where
  object : Obj
  generation : Nat
  deriving DecidableEq, Repr

/-! ### Rights -/

/-- A mask of rights. -/
abbrev Rights := BitVec 32

namespace Right

def inspect : Rights := 1#32 <<< 0
def derive : Rights := 1#32 <<< 1
def transfer : Rights := 1#32 <<< 2
def destroy : Rights := 1#32 <<< 3
def admin : Rights := 1#32 <<< 4
def scopeCreate : Rights := 1#32 <<< 8
def scopeLimit : Rights := 1#32 <<< 9
def scopeFence : Rights := 1#32 <<< 10
def scopeExec : Rights := 1#32 <<< 11
def domainBuild : Rights := 1#32 <<< 8
def domainActivate : Rights := 1#32 <<< 9
def domainStop : Rights := 1#32 <<< 10
def domainWait : Rights := 1#32 <<< 11
def memoryRead : Rights := 1#32 <<< 8
def memoryWrite : Rights := 1#32 <<< 9
def memoryExecute : Rights := 1#32 <<< 10
def memoryMap : Rights := 1#32 <<< 11
def memorySeal : Rights := 1#32 <<< 12
def endpointSend : Rights := 1#32 <<< 8
def endpointCall : Rights := 1#32 <<< 9
def endpointReceive : Rights := 1#32 <<< 10
def endpointBind : Rights := 1#32 <<< 11
def invocationReply : Rights := 1#32 <<< 8
def invocationEffect : Rights := 1#32 <<< 9
def invocationResolve : Rights := 1#32 <<< 10
def invocationBind : Rights := 1#32 <<< 11
def signalRaise : Rights := 1#32 <<< 8
def signalWait : Rights := 1#32 <<< 9
def timerArm : Rights := 1#32 <<< 8
def logRead : Rights := 1#32 <<< 8
def logAppend : Rights := 1#32 <<< 9
def logAck : Rights := 1#32 <<< 10
def deviceMap : Rights := 1#32 <<< 8
def deviceIrq : Rights := 1#32 <<< 9
def deviceDma : Rights := 1#32 <<< 10
def deviceControl : Rights := 1#32 <<< 11

end Right

/-- `ObjKind::COMMON_RIGHTS`. -/
def commonRights : Rights :=
  Right.inspect ||| Right.derive ||| Right.transfer ||| Right.destroy ||| Right.admin

/-- `ObjKind::rights_mask`. -/
def ObjKind.rightsMask : ObjKind → Rights
  | .scope => commonRights |||
      (Right.scopeCreate ||| Right.scopeLimit ||| Right.scopeFence ||| Right.scopeExec)
  | .domain => commonRights |||
      (Right.domainBuild ||| Right.domainActivate ||| Right.domainStop ||| Right.domainWait)
  | .memory => commonRights |||
      (Right.memoryRead ||| Right.memoryWrite ||| Right.memoryExecute ||| Right.memoryMap |||
        Right.memorySeal)
  | .endpoint => commonRights |||
      (Right.endpointSend ||| Right.endpointCall ||| Right.endpointReceive |||
        Right.endpointBind)
  | .invocation => commonRights |||
      (Right.invocationReply ||| Right.invocationEffect ||| Right.invocationResolve |||
        Right.invocationBind)
  | .signal => commonRights ||| (Right.signalRaise ||| Right.signalWait)
  | .timer => commonRights ||| Right.timerArm
  | .controlLog => commonRights ||| (Right.logRead ||| Right.logAppend ||| Right.logAck)
  | .device => commonRights |||
      (Right.deviceMap ||| Right.deviceIrq ||| Right.deviceDma ||| Right.deviceControl)

/-- `mask & !rights == 0`: every right of `mask` is among `rights`. -/
def Rights.within (mask rights : Rights) : Bool := mask &&& ~~~rights == 0#32

/-! ### Capability tables -/

/-- A handle: the slot in its low half, the generation in its high half. -/
structure Handle where
  slot : Nat
  generation : Nat
  deriving DecidableEq, Repr, Inhabited

/-- The zero handle, which names nothing. -/
def Handle.zero : Handle := ⟨0, 0⟩

/-- `CapEntry`. -/
structure CapEntry where
  generation : Nat
  live : Bool
  /-- Withdrawn for good because its generations are used up. -/
  retired : Bool
  object : ObjRef
  grant : Option GrantId
  deriving DecidableEq, Repr

def CapEntry.empty : CapEntry := ⟨0, false, false, ⟨.scope 0, 0⟩, none⟩

/-- `CapTable`. -/
abbrev CapTable := CapSlot → CapEntry

namespace CapTable

/-- `CapTable::new`. -/
def new : CapTable := fun _ => .empty

/-- `CapTable::free_slots`. -/
def freeSlots (t : CapTable) : Nat :=
  ((List.finRange maxCaps).filter fun slot => !(t slot).live && !(t slot).retired).length

/-- `CapTable::lookup`: the slot and its entry, if the handle names a live one. -/
def lookup (t : CapTable) (handle : Handle) : Option (CapSlot × CapEntry) :=
  if handle = .zero then none
  else if h : handle.slot < maxCaps then
    let entry := t ⟨handle.slot, h⟩
    if !entry.live || entry.generation != handle.generation then none
    else some (⟨handle.slot, h⟩, entry)
  else none

/-- `CapTable::install_at`: the table afterwards and the handle, if there is one.  A slot
whose generations are used up is withdrawn and refused. -/
def installAt (t : CapTable) (slot : CapSlot) (object : ObjRef) (grant : Option GrantId) :
    CapTable × Option Handle :=
  let entry := t slot
  if entry.live || entry.retired then (t, none)
  else if entry.generation = u32Max then
    (Function.update t slot { entry with retired := true }, none)
  else
    (Function.update t slot
      { generation := entry.generation + 1, live := true, retired := entry.retired,
        object, grant },
     some ⟨slot, entry.generation + 1⟩)

/-- The lowest slot an installation would take. -/
def freeSlot (t : CapTable) : Option CapSlot :=
  (List.finRange maxCaps).find? fun slot => !((t slot).live || (t slot).retired)

/-- `CapTable::install`, in the lowest free slot. -/
def install (t : CapTable) (object : ObjRef) (grant : Option GrantId) :
    CapTable × Option Handle :=
  match t.freeSlot with
  | some slot => t.installAt slot object grant
  | none => (t, none)

/-- An installation in a chosen slot, or in the lowest free one. -/
def place (t : CapTable) (object : ObjRef) (grant : Option GrantId) : Option CapSlot →
    CapTable × Option Handle
  | some i => t.installAt i object grant
  | none => t.install object grant

/-- `CapTable::release_slot`: the table afterwards and what the slot held. -/
def releaseSlot (t : CapTable) (slot : CapSlot) : CapTable × Option CapEntry :=
  let entry := t slot
  if !entry.live then (t, none)
  else (Function.update t slot { entry with live := false, grant := none }, some entry)

/-- `CapTable::release`. -/
def release (t : CapTable) (handle : Handle) : CapTable × Option CapEntry :=
  if h : handle.slot < maxCaps then
    let entry := t ⟨handle.slot, h⟩
    if !entry.live || entry.generation != handle.generation then (t, none)
    else t.releaseSlot ⟨handle.slot, h⟩
  else (t, none)

end CapTable

/-! ### Grants -/

/-- `Grant`: what a lineage of capabilities may do and for how long. -/
structure Grant where
  used : Bool
  id : Nat
  parent : Option GrantId
  depth : Nat
  rights : Rights
  /-- Zero for none. -/
  deadlineNs : Nat
  lifeScope : Option ScopeId
  facet : Nat
  object : ObjRef
  fenced : Bool
  refs : Nat
  children : Nat
  sponsor : ScopeId
  deriving DecidableEq, Repr

/-- `Grant::empty`. -/
def Grant.empty : Grant where
  used := false
  id := 0
  parent := none
  depth := 0
  rights := 0#32
  deadlineNs := 0
  lifeScope := none
  facet := 0
  object := ⟨.scope 0, 0⟩
  fenced := false
  refs := 0
  children := 0
  sponsor := 0

end Thalyx.Kernel
