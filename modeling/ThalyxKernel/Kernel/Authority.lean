/-
Handles, grants and their lineages: the part of `kernel/src/api/mod.rs` every operation
goes through.

A function that can refuse gives back the machine it leaves together with its answer:
what a refusal leaves behind is part of what it does.  Operations with several exits are
in `Op`, which keeps the state an error was raised in.
-/
import ThalyxKernel.Kernel.Machine

namespace Thalyx.Kernel

/-- An operation of the interface: it changes the machine as it goes and may stop with a
status.  Nothing is undone but what the operation undoes by hand. -/
abbrev Op := EStateM Status Machine

/-- `Resolved`. -/
structure Resolved where
  slot : CapSlot
  object : ObjRef
  grant : GrantId
  rights : Rights
  facet : Nat
  deriving DecidableEq, Repr

/-- Who calls: the part of `Ctx` that is known before the handle is resolved.  Of the flags
only the one that says not to wait is read. -/
structure Caller where
  domain : DomainId
  thread : ThreadId
  handle : Handle
  nonblocking : Bool
  deadline : Nat
  now : Nat
  deriving DecidableEq, Repr

/-- `Ctx`: the caller and the capability its handle resolved to. -/
structure Ctx extends Caller where
  cap : Resolved
  deriving DecidableEq, Repr

namespace Machine

/-! ### Capability entries -/

/-- One more reference to a grant. -/
def addGrantRef (s : Machine) (grant : Option GrantId) : Machine :=
  s.setGrantOf grant fun node => { node with refs := node.refs + 1 }

/-- `cap_install`: an entry in a domain's table, charged to the domain's scope. -/
def capInstall (s : Machine) (domain : DomainId) (object : ObjRef) (grant : Option GrantId)
    (slot : Option CapSlot) : Machine × Option Handle :=
  let owner := (s.domains domain).ownerScope
  match s.scopes.reserve owner .metadata 1 with
  | none => (s, none)
  | some scopes =>
    match (s.caps domain).place object grant slot with
    | (table, some handle) =>
      let s := { s with scopes, caps := Function.update s.caps domain table }
      ((s.addGrantRef grant).addRef object.object, some handle)
    | (table, none) =>
      ({ s with
        scopes := scopes.release owner .metadata 1
        caps := Function.update s.caps domain table }, none)

/-- `collect_invocation`: a discharged record nothing names is free again. -/
def collectInvocation (s : Machine) (i : InvocationId) : Machine :=
  if (s.invocations i).state ≠ .resolved ∨ s.refs (.invocation i) ≠ 0 then s
  else
    let s := s.setInvocation i fun slot => { slot with state := .empty, waiter := none }
    { s with refs := Function.update s.refs (.invocation i) 0 }.freeInvocation i

/-- One grant node given back: emptied, taken from its parent's children, its charge
returned. -/
def freeGrant (s : Machine) (g : GrantId) : Machine :=
  let node := s.grants g
  let s := { s.setGrant g fun _ => .empty with grantHint := min s.grantHint g }
  let s := s.setGrantOf node.parent fun parent => { parent with children := parent.children - 1 }
  { s with scopes := s.scopes.release node.sponsor .metadata 1 }

/-- The loop of `collect_grant`. -/
def collectGrantUpTo : Nat → Machine → Option GrantId → Machine
  | 0, s, _ => s
  | _ + 1, s, none => s
  | n + 1, s, some g =>
    let node := s.grants g
    if !node.used || node.refs > 0 || node.children > 0 then s
    else collectGrantUpTo n (s.freeGrant g) node.parent

/-- `collect_grant`: a node nothing refers to is freed, and then its parent, if that was
the last child. -/
def collectGrant (s : Machine) (grant : Option GrantId) : Machine :=
  collectGrantUpTo maxDeriveDepth s grant

/-- One reference to a grant given up. -/
def dropGrantRef (s : Machine) (grant : Option GrantId) : Machine :=
  s.setGrantOf grant fun node => { node with refs := node.refs - 1 }

/-- `defer_memory`, when the entry names the object the slot still holds. -/
def deferMemory (s : Machine) (object : ObjRef) : Machine :=
  match object.object with
  | .memory i =>
    if s.generation (.memory i) = object.generation then
      { s with pendingMemory := Function.update s.pendingMemory i true }
    else s
  | _ => s

/-- `release_entry`: everything an entry that is gone from its table was keeping. -/
def releaseEntry (s : Machine) (domain : DomainId) (entry : CapEntry) : Machine :=
  let s := { s with scopes := s.scopes.release (s.domains domain).ownerScope .metadata 1 }
  let s := s.dropGrantRef entry.grant
  let s := s.dropRef entry.object.object
  let s := match entry.object.object with
    | .invocation i => s.collectInvocation i
    | _ => s
  let s := s.deferMemory entry.object
  s.collectGrant entry.grant

/-- `cap_release_slot`: the machine afterwards and whether there was an entry. -/
def capReleaseSlot (s : Machine) (domain : DomainId) (slot : CapSlot) : Machine × Bool :=
  match (s.caps domain).releaseSlot slot with
  | (table, some entry) =>
    ({ s with caps := Function.update s.caps domain table }.releaseEntry domain entry, true)
  | (_, none) => (s, false)

/-- `cap_release`. -/
def capRelease (s : Machine) (domain : DomainId) (handle : Handle) : Machine × Bool :=
  match (s.caps domain).release handle with
  | (table, some entry) =>
    ({ s with caps := Function.update s.caps domain table }.releaseEntry domain entry, true)
  | (_, none) => (s, false)

/-- `cap_release_slot` on several slots in turn, its answers ignored. -/
def releaseSlots (s : Machine) (domain : DomainId) (slots : List CapSlot) : Machine :=
  slots.foldl (fun s slot => (s.capReleaseSlot domain slot).1) s

/-! ### Grants -/

/-- The order in which the search for a free node passes over the table. -/
def grantOrder (hint : Nat) : List GrantId :=
  (List.finRange maxGrants).drop hint ++ (List.finRange maxGrants).take hint

/-- The free node an allocation takes. -/
def freeGrantNode (s : Machine) : Option GrantId :=
  (grantOrder s.grantHint).find? fun g => !(s.grants g).used

/-- The depth of a node below `parent`. -/
def grantDepth (s : Machine) : Option GrantId → Nat
  | some p => (s.grants p).depth + 1
  | none => 0

/-- `grant_alloc`: a node charged to `sponsor`. -/
def grantAlloc (s : Machine) (sponsor : ScopeId) (parent : Option GrantId) (object : ObjRef)
    (rights : Rights) (deadlineNs : Nat) (lifeScope : Option ScopeId) (facet : Nat) :
    Machine × Option GrantId :=
  if s.grantDepth parent > maxDeriveDepth then (s, none)
  else
    match s.scopes.reserve sponsor .metadata 1 with
    | none => (s, none)
    | some scopes =>
      let depth := s.grantDepth parent
      let s := { s with scopes }
      match s.nextId with
      | none => ({ s with scopes := s.scopes.release sponsor .metadata 1 }, none)
      | some (id, s) =>
        match s.freeGrantNode with
        | none => ({ s with scopes := s.scopes.release sponsor .metadata 1 }, none)
        | some g =>
          let s := s.setGrant g fun _ =>
            { used := true, id, parent, depth, rights, deadlineNs, lifeScope, facet,
              object, fenced := false, refs := 0, children := 0, sponsor }
          let s := { s with grantHint := g + 1 }
          (s.setGrantOf parent fun node => { node with children := node.children + 1 }, some g)

/-- What one node says about the lineages through it. -/
def nodeStatus (s : Machine) (now : Nat) (node : Grant) : Status :=
  if !node.used then .invalidHandle
  else if node.fenced then .scopeClosed
  else if node.deadlineNs ≠ 0 ∧ now ≥ node.deadlineNs then .expired
  else if node.lifeScope.any fun life => !s.scopes.isOpen life then .scopeClosed
  else if !s.scopes.isOpen node.sponsor then .scopeClosed
  else .ok

/-- `walk_lineage`, for as many nodes as the interface's depth allows. -/
def walkLineage (s : Machine) (now : Nat) : Nat → Option GrantId → Status
  | _, none => .ok
  | 0, some _ => .invalidHandle
  | n + 1, some g =>
    match s.nodeStatus now (s.grants g) with
    | .ok => walkLineage s now n (s.grants g).parent
    | status => status

/-- `lineage_status`. -/
def lineageStatus (s : Machine) (grant : GrantId) (now : Nat) : Status :=
  s.walkLineage now (maxDeriveDepth + 1) (some grant)

/-! ### Resolution -/

/-- `resolve_entry`: `now` is absent for the operations that look at a lineage rather than
act through it. -/
def resolveEntry (s : Machine) (domain : DomainId) (handle : Handle)
    (requiredType : Option ObjKind) (requiredRights : Rights) (now : Option Nat) :
    Except Status Resolved :=
  match (s.caps domain).lookup handle with
  | none => .error .invalidHandle
  | some (slot, entry) =>
    if requiredType.any (· != entry.object.object.kind) then .error .wrongType
    else
      match entry.grant with
      | none => .error .invalidHandle
      | some grant =>
        let node := s.grants grant
        if !node.used then .error .invalidHandle
        else
          match now.map (s.lineageStatus grant) with
          | some .invalidHandle => .error .invalidHandle
          | some .scopeClosed => .error .scopeClosed
          | some .expired => .error .expired
          | _ =>
            if node.object ≠ entry.object then .error .invalidHandle
            else if node.rights &&& requiredRights ≠ requiredRights then
              .error .insufficientRights
            else if !s.objectAlive entry.object then .error .peerDead
            else .ok ⟨slot, entry.object, grant, node.rights, node.facet⟩

/-- `resolve`. -/
def resolve (s : Machine) (domain : DomainId) (handle : Handle)
    (requiredType : Option ObjKind) (requiredRights : Rights) (now : Nat) :
    Except Status Resolved :=
  s.resolveEntry domain handle requiredType requiredRights (some now)

/-- `resolve_observer`. -/
def resolveObserver (s : Machine) (domain : DomainId) (handle : Handle)
    (requiredType : Option ObjKind) (requiredRights : Rights) : Except Status Resolved :=
  s.resolveEntry domain handle requiredType requiredRights none

/-! ### Accounts -/

/-- `scope::release`. -/
def release (s : Machine) (scope : ScopeId) (resource : Resource) (amount : Nat) : Machine :=
  { s with scopes := s.scopes.release scope resource amount }

/-! ### Receipts -/

/-- `ControlLog::write`, for a receipt that closes authority or not. -/
def writeReceipt (closing : Bool) (log : ControlLog) : ControlLog :=
  let limit := if closing then controlLogCapacity else controlLogCapacity - controlLogReserved
  if log.count ≥ limit then
    if closing then { log with coalesced := log.coalesced + 1 }
    else { log with lost := log.lost + 1 }
  else { log with count := log.count + 1 }

/-- `reserve_receipt`. -/
def reserveReceipt (s : Machine) : Option Machine :=
  match s.systemLog with
  | none => some s
  | some i =>
    if (s.logs i).count + (s.logs i).pendingReservations
        < controlLogCapacity - controlLogReserved then
      some (s.setLog i fun log =>
        { log with pendingReservations := log.pendingReservations + 1 })
    else none

/-- `release_receipt`. -/
def releaseReceipt (s : Machine) : Machine :=
  match s.systemLog with
  | none => s
  | some i => s.setLog i fun log =>
    { log with pendingReservations := log.pendingReservations - 1 }

/-- `receipt`: `reserved` says whether a cell was reserved for it. -/
def receipt (s : Machine) (closing reserved : Bool) : Machine :=
  match s.systemLog with
  | none => s
  | some i => s.setLog i fun log =>
    writeReceipt closing
      (if reserved then { log with pendingReservations := log.pendingReservations - 1 }
       else log)

end Machine

/-! ### The primitives as operations

An operation stops with a status and a build with an error of its own, so the steps are
stated for any type of error.
-/

namespace Op

variable {ε α : Type}

/-- A change that may be refused. -/
def orElse (f : Machine → Machine × Option α) (error : ε) : EStateM ε Machine α := fun s =>
  match f s with
  | (s', some a) => .ok a s'
  | (s', none) => .error error s'

/-- A change that may be refused, with what the operation undoes then. -/
def orUndo (f : Machine → Machine × Option α) (undo : Machine → Machine) (error : ε) :
    EStateM ε Machine α := fun s =>
  match f s with
  | (s', some a) => .ok a s'
  | (s', none) => .error error (undo s')

/-- A question about the machine that may be refused. -/
def ask (f : Machine → Except ε α) : EStateM ε Machine α := fun s =>
  match f s with
  | .ok a => .ok a s
  | .error e => .error e s

/-- A condition the operation demands. -/
def require (p : Machine → Bool) (error : ε) : EStateM ε Machine Unit := fun s =>
  if p s then .ok () s else .error error s

/-- `scope::reserve`, with what a refusal undoes and the error it gives. -/
def reserve (scope : ScopeId) (resource : Resource) (amount : Nat) (undo : Machine → Machine)
    (error : ε) : EStateM ε Machine Unit := fun s =>
  match s.scopes.reserve scope resource amount with
  | some scopes => .ok () { s with scopes }
  | none => .error error (undo s)

/-- `next_id`, with what a refusal undoes and the error it gives. -/
def nextId (undo : Machine → Machine) (error : ε) : EStateM ε Machine Nat := fun s =>
  match s.nextId with
  | some (id, s) => .ok id s
  | none => .error error (undo s)

end Op

end Thalyx.Kernel
