/-
What becomes of admitted work: delivery, reply, effect, discharge, and the withdrawals a
barrier or a death makes.  The rest of `kernel/src/api/ipcops.rs`.

`release_invocation` is the one place an obligation is taken off its scope.  It takes no
notice of whether that was done before: a record that is already discharged and not yet
collected is released a second time like the first.
-/
import ThalyxKernel.Kernel.Ipc
import ThalyxKernel.Lib.Fallible

namespace Thalyx.Kernel

namespace Machine

/-! ### Discharge -/

/-- The obligation taken off its scope, and the closing capacity given back. -/
def discount (s : Machine) (record : Invocation) : Machine :=
  let s := s.setScope record.originScope fun node =>
    { node with invocationsPending := node.invocationsPending - 1 }
  if record.effect = .admitted then
    let s := s.setScope record.originScope fun node =>
      { node with effectsPending := node.effectsPending - 1 }
    s.setScope record.closureService fun node =>
      { node with closureReservedNs := node.closureReservedNs - record.closureReservedNs }
  else s

/-- `release_invocation`. -/
def releaseInvocation (s : Machine) (i : InvocationId) : Machine :=
  let record := s.invocations i
  if record.state = .empty then s
  else
    let s := s.setInvocation i fun slot =>
      { slot with
        chargedBytes := 0
        closureReservedNs := if record.effect = .admitted then 0 else slot.closureReservedNs
        effect := if record.effect = .admitted then .resolved else slot.effect
        grant := none
        state := .resolved }
    let s :=
      if record.chargedBytes ≠ 0 then
        s.release record.originScope .queueBytes record.chargedBytes
      else s
    let s := s.discount record
    let s := (s.dropGrantRef record.grant).collectGrant record.grant
    s.collectInvocation i

end Machine

/-- The status a caller is answered when its work was discharged without a reply. -/
def Outcome.status : Option Outcome → Status
  | some .committed => .ok
  | some .unknown => .pending
  | _ => .cancelled

/-- `call`, after the wait. -/
def returnFromCall (thread : ThreadId) : Op Nat := fun s =>
  let t := s.threads thread
  let s := s.setThread thread fun t => { t with wakeStatus := .ok, wakeAux := 0, calling := none }
  match t.calling with
  | none => .error .stateConflict s
  | some (i, generation) =>
    if t.wakeStatus = .ok ∧ t.wakeAux ≠ 0 then .ok t.wakeAux s
    else if s.generation (.invocation i) ≠ generation then .error .peerDead s
    else
      let record := s.invocations i
      if record.replied then .ok record.id (s.releaseInvocation i)
      else if record.state ≠ .resolved then
        .error (if t.wakeStatus = .ok then .timedOut else t.wakeStatus)
          (s.setInvocation i fun slot => { slot with waiter := none })
      else
        let s := s.releaseInvocation i
        match Outcome.status record.outcome with
        | .ok => .ok record.id s
        | code => .error code s

/-! ### Delivery -/

namespace Machine

/-- A message cell emptied by its flag and its link, and free again. -/
def emptyMessage (s : Machine) (m : MessageId) : Machine :=
  (s.setMessage m fun slot => { slot with used := false, next := none, payload := [], caps := [] }).releaseMessage
    m

/-- The head of a queue taken off it. -/
def dequeue (s : Machine) (endpoint : EndpointId) (m : MessageId) : Machine :=
  let message := s.messages m
  s.setEndpoint endpoint fun e =>
    { e with
      head := message.next
      tail := if message.next.isNone then none else e.tail
      queued := e.queued - 1
      reservedUsed := if message.reservedCell then e.reservedUsed - 1 else e.reservedUsed }

/-- `deliver`. -/
def deliver (s : Machine) (receiver : DomainId) (endpoint : EndpointId) (m : MessageId) :
    Machine × Except Status Handle :=
  let i := (s.messages m).invocation
  if (s.invocations i).endpoint ≠ endpoint
      ∨ (s.invocations i).endpointGeneration ≠ s.generation (.endpoint endpoint) then
    (s, .error .stateConflict)
  else
    match s.issueTicket receiver i with
    | (s, none) => (s, .error .limitExhausted)
    | (s, some ticket) => (((s.dequeue endpoint m).markDelivered i).emptyMessage m, .ok ticket)

end Machine

/-- The claim a receiver makes for itself. -/
def Machine.selfClaim (endpoint : EndpointId) (domain : DomainId) (s : Machine) :
    Machine × Option Unit :=
  match (s.endpoints endpoint).receiverDomain with
  | none =>
    (s.setEndpoint endpoint fun e =>
      { e with receiverDomain := some domain, receiverGeneration := s.generation (.domain domain) },
     some ())
  | some current => (s, if current = domain then some () else none)

/-- The message at the head, or the registration of a wait. -/
def Machine.receiveOn (caller : Caller) (endpoint : EndpointId) : Op Handle := fun s =>
  match (s.endpoints endpoint).head with
  | some m =>
    match s.deliver caller.domain endpoint m with
    | (s, .ok ticket) => .ok ticket s
    | (s, .error code) => .error code s
  | none =>
    if caller.nonblocking then .error .wouldBlock s
    else
      let s := s.prepareWaitOffering caller.thread
        (.receive endpoint (s.generation (.endpoint endpoint))) caller.deadline
        ⟨true, caller.handle⟩
      .error .pending (s.setEndpoint endpoint fun e =>
        { e with receivers := Function.update e.receivers caller.thread true })

/-- One round of `receive`.  A round that goes to sleep answers nothing yet. -/
def receive (caller : Caller) : Op Handle :=
  Op.atEndpoint caller Right.endpointReceive fun _ endpoint => do
    Op.orElse (Machine.selfClaim endpoint caller.domain) .stateConflict
    Machine.receiveOn caller endpoint

/-! ### Reply -/

/-- `ReplyRequest`. -/
structure ReplyRequest where
  payloadLen : Nat
  capCount : Nat
  caps : Fin maxMessageCaps → Handle
  capOps : Fin maxMessageCaps → Nat
  payload : List UInt8
  result : Nat

/-- The capability entries a reply counts, in order. -/
def ReplyRequest.listed (request : ReplyRequest) : List (Fin maxMessageCaps) :=
  (List.finRange maxMessageCaps).filter fun k => k.val < request.capCount

namespace Machine

/-- The loop of `reply`: each capability resolved, installed with the caller and, if it is
moved, taken from the responder, before the next one is looked at. -/
def transfer (responder caller : DomainId) (now : Nat) (request : ReplyRequest) :
    List (Fin maxMessageCaps) → List Handle → Op (List Handle)
  | [], installed => pure installed
  | k :: rest, installed => fun s =>
    let undo (s : Machine) := s.releaseSlots caller (installed.map slotOf)
    -- This exit undoes nothing of what the earlier entries did.
    if request.capOps k ≠ capCopy ∧ request.capOps k ≠ capMove then .error .invalidArgument s
    else
      match s.resolve responder (request.caps k) none Right.transfer now with
      | .error code => .error code (undo s)
      | .ok cap =>
        match s.capInstall caller cap.object (some cap.grant) none with
        | (s, none) => .error .limitExhausted (undo s)
        | (s, some handle) =>
          let s := if request.capOps k = capMove then (s.capReleaseSlot responder cap.slot).1
            else s
          transfer responder caller now request rest (installed ++ [handle]) s

/-- `store_reply`. -/
def storeReply (s : Machine) (i : InvocationId) (request : ReplyRequest)
    (installed : List Handle) : Machine :=
  s.setInvocation i fun slot =>
    { slot with
      replyPayload := request.payload.take request.payloadLen
      replyCaps := installed
      replyResult := request.result }

/-- The one-shot consumed and the caller answered, in one hold of the record. -/
def answer (s : Machine) (i : InvocationId) (request : ReplyRequest) (installed : List Handle) :
    Machine :=
  let id := (s.invocations i).id
  let s := s.setInvocation i fun slot =>
    { slot with replied := true, outcome := some .committed }
  match (s.invocations i).waiter with
  | none => s.storeReply i request installed
  | some waiter =>
    match s.claimHandoff waiter (.reply i (s.generation (.invocation i))) .ok 0 with
    | (s, none) => s.storeReply i request installed
    | (s, some offer) =>
      if offer.staging then ((s.releaseInvocation i).setWakeAux waiter id).wake waiter
      else (s.storeReply i request installed).wake waiter

/-- What another replier on the same ticket does to the record when it gets there first,
with a reply that carries nothing and finds nobody waiting. -/
def answeredFirst (i : InvocationId) (s : Machine) : Machine :=
  s.setInvocation i fun slot => { slot with replied := true, outcome := some .committed }

end Machine

/-- The record can still be answered. -/
def Machine.answerable (i : InvocationId) (s : Machine) : Except Status DomainId :=
  let slot := s.invocations i
  if slot.state = .resolved ∨ slot.replied then .error .alreadyResolved
  else if slot.waiter.isNone then .error .stateConflict
  else if s.generation (.domain slot.originDomain) ≠ slot.originDomainGeneration then
    .error .peerDead
  else .ok slot.originDomain

/-- The second look at the record, after the capabilities have crossed. -/
def Machine.answerOnce (i : InvocationId) (caller : DomainId) (request : ReplyRequest)
    (installed : List Handle) : Op Nat := fun s =>
  if (s.invocations i).state = .resolved ∨ (s.invocations i).replied then
    .error .alreadyResolved (s.releaseSlots caller (installed.map Machine.slotOf))
  else .ok (s.invocations i).id (s.answer i request installed)

/-- `reply`.  `raced` says that another replier on the same ticket answered between the
transfer of the capabilities and the second look. -/
def reply (caller : Caller) (request : ReplyRequest) (raced : Bool) : Op Nat :=
  Op.atInvocation caller Right.invocationReply fun ctx i => do
    Op.require
      (fun _ => request.payloadLen ≤ maxInlinePayload && request.capCount ≤ maxMessageCaps)
      .invalidArgument
    let origin ← Op.ask (Machine.answerable i)
    let installed ← Machine.transfer ctx.domain origin ctx.now request request.listed []
    modify fun s => if raced then s.answeredFirst i else s
    Machine.answerOnce i origin request installed

/-! ### Effects and resolution -/

/-- `EffectRequest`. -/
structure EffectRequest where
  closureReserveNs : Nat
  reserved0 : Nat

/-- The lineage and the origin of an invocation still permit an effect. -/
def Machine.effectStatus (s : Machine) (i : InvocationId) (now : Nat) : Status :=
  let lineage := s.walkLineage now (maxDeriveDepth + 1) (s.invocations i).grant
  if lineage ≠ .ok then lineage
  else if !s.scopes.isOpen (s.invocations i).originScope then .scopeClosed
  else .ok

/-- The effect admitted, or refused once and for all. -/
def Machine.admitEffect (ctx : Ctx) (i : InvocationId) (reserve : Nat) : Op Nat := fun s =>
  match s.effectStatus i ctx.now with
  | .ok =>
    let service := (s.domains ctx.domain).ownerScope
    let node := s.scopes service
    if node.closureUsedNs + node.closureReservedNs + reserve > node.limits.closureReserveNs then
      .error .limitExhausted s
    else
      match s.reserveReceipt with
      | none => .error .limitExhausted s
      | some s =>
        let s := s.setScope service fun node =>
          { node with closureReservedNs := node.closureReservedNs + reserve }
        let s := s.setInvocation i fun slot =>
          { slot with
            effect := .admitted, closureService := service, closureReservedNs := reserve }
        let s := s.setScope (s.invocations i).originScope fun node =>
          { node with effectsPending := node.effectsPending + 1 }
        .ok (s.invocations i).id (s.receipt false true)
  | code =>
    .error code ((s.setInvocation i fun slot => { slot with effect := .refused }).receipt
      false false)

/-- `begin_effect`. -/
def beginEffect (caller : Caller) (request : EffectRequest) : Op Nat :=
  Op.atInvocation caller Right.invocationEffect fun ctx i => do
    Op.require (fun _ => request.reserved0 == 0) .invalidArgument
    Op.require (fun s => (s.invocations i).state != .resolved) .alreadyResolved
    Op.require (fun s => (s.invocations i).effect == .none) .alreadyResolved
    Machine.admitEffect ctx i request.closureReserveNs

/-- `ResolveRequest`; an outcome that is none of the three is absent. -/
structure ResolveRequest where
  outcome : Option Outcome
  reserved0 : Nat

/-- `resolve_invocation`. -/
def resolveInvocation (caller : Caller) (request : ResolveRequest) : Op Nat :=
  Op.atInvocation caller Right.invocationResolve fun _ i => do
    Op.require (fun _ => request.reserved0 == 0) .invalidArgument
    Op.require (fun _ => request.outcome.isSome) .invalidArgument
    Op.require (fun s => (s.invocations i).state != .resolved) .alreadyResolved
    let id := ((← get).invocations i).id
    modify fun s =>
      let s := s.setInvocation i fun slot => { slot with outcome := request.outcome }
      (s.wakeWaiter i (Outcome.status request.outcome)).releaseInvocation i
    pure id

/-! ### Workers -/

/-- The scope a thread charges, changed. -/
def Machine.chargeTo (s : Machine) (thread : ThreadId) (scope : ScopeId) (recovery : Bool) :
    Machine :=
  let s := match (s.threads thread).parallelismScope with
    | some previous => { s with scopes := s.scopes.dropParallelism previous }
    | none => s
  { s with scopes := s.scopes.takeParallelism scope }.setThread thread fun t =>
    { t with effectiveScope := scope, recovery, parallelismScope := some scope }

/-- The scope that pays for work on an invocation, and whether the work is recovery. -/
def Machine.payer (s : Machine) (domain : DomainId) (i : InvocationId) : ScopeId × Bool :=
  if s.scopes.isOpen (s.invocations i).originScope then ((s.invocations i).originScope, false)
  else ((s.domains domain).ownerScope, true)

/-- A thread bound to an invocation and charged to its payer. -/
def Machine.bind (s : Machine) (thread : ThreadId) (i : InvocationId) (payer : ScopeId × Bool) :
    Machine :=
  let s := s.chargeTo thread payer.1 payer.2
  let s := s.setThread thread fun t => { t with bound := some (i, s.generation (.invocation i)) }
  s.addRef (.invocation i)

/-- `bind_worker`. -/
def bindWorker (caller : Caller) : Op Nat :=
  Op.atInvocation caller Right.invocationBind fun ctx i => do
    Op.require (fun s => (s.invocations i).state != .resolved) .alreadyResolved
    Op.require (fun s => (s.threads ctx.thread).bound.isNone) .stateConflict
    let payer := (← get).payer ctx.domain i
    Op.require (fun s => payer.2 || s.scopes.hasParallelism payer.1) .limitExhausted
    modify fun s => s.bind ctx.thread i payer
    pure ((← get).invocations i).id

/-- A binding given up: its reference too, if the slot still holds what it named. -/
def Machine.unbind (s : Machine) (thread : ThreadId) : Machine :=
  match (s.threads thread).bound with
  | none => s
  | some (i, generation) =>
    let s := s.setThread thread fun t => { t with bound := none }
    if s.generation (.invocation i) = generation then s.dropRef (.invocation i) else s

/-- `unbind_worker`. -/
def unbindWorker (caller : Caller) : Op Unit :=
  Op.atInvocation caller Right.invocationBind fun ctx _ => do
    Op.require (fun s => (s.threads ctx.thread).bound.isSome) .stateConflict
    modify fun s =>
      let s := s.unbind ctx.thread
      s.chargeTo ctx.thread (s.threads ctx.thread).ownerScope false

/-! ### Withdrawals -/

namespace Machine

/-- A message taken out of its queue, behind `previous` if that is not the head's place. -/
def unlink (s : Machine) (endpoint : EndpointId) (previous : Option MessageId)
    (m : MessageId) : Machine :=
  let message := s.messages m
  let s := match previous with
    | none => s.setEndpoint endpoint fun e => { e with head := message.next }
    | some p => s.setMessage p fun slot => { slot with next := message.next }
  s.setEndpoint endpoint fun e =>
    { e with
      tail := if e.tail = some m then previous else e.tail
      queued := e.queued - 1
      reservedUsed := if message.reservedCell then e.reservedUsed - 1 else e.reservedUsed }

/-- The entries a message carried, released from the receiver's table. -/
def releaseCarried (s : Machine) (endpoint : EndpointId) (caps : List DeliveredCap) : Machine :=
  match (s.endpoints endpoint).receiverDomain with
  | none => s
  | some receiver => s.releaseSlots receiver (caps.map DeliveredCap.slot)

/-- A message withdrawn: unlinked, what it carried released, its cell emptied, and its
invocation aborted. -/
def withdrawMessage (s : Machine) (endpoint : EndpointId) (previous : Option MessageId)
    (m : MessageId) (cancel : Cancel) : Machine :=
  let message := s.messages m
  let s := s.unlink endpoint previous m
  let s := s.releaseCarried endpoint message.caps
  let s := (s.setMessage m fun _ => .empty).releaseMessage m
  s.setInvocation message.invocation fun slot =>
    { slot with cancel, outcome := some .aborted }

/-- The loop over one queue: every message `pick` says is withdrawn and its invocation
`discharge`d.  The queue has no more messages than there are. -/
def withdrawFrom (pick : Machine → InvocationId → Bool) (cancel : Cancel)
    (discharge : Machine → InvocationId → Machine) (endpoint : EndpointId) :
    Nat → Option MessageId → Option MessageId → Machine → Machine
  | 0, _, _, s => s
  | _ + 1, _, none, s => s
  | n + 1, previous, some m, s =>
    let message := s.messages m
    if pick s message.invocation then
      let s := s.withdrawMessage endpoint previous m cancel
      withdrawFrom pick cancel discharge endpoint n previous message.next
        (discharge s message.invocation)
    else withdrawFrom pick cancel discharge endpoint n (some m) message.next s

/-- The loop over the endpoints in use. -/
def withdrawAll (pick : Machine → InvocationId → Bool) (cancel : Cancel)
    (discharge : Machine → InvocationId → Machine) (s : Machine) : Machine :=
  (List.finRange maxEndpoints).foldl
    (fun s e =>
      if (s.endpoints e).used then
        withdrawFrom pick cancel discharge e maxMessages none (s.endpoints e).head s
      else s) s

/-- The discharge of a message withdrawn by a barrier. -/
def dischargeFenced (s : Machine) (i : InvocationId) : Machine :=
  let origin := (s.invocations i).originScope
  let s := (s.wakeWaiter i .cancelled).releaseInvocation i
  s.setScope origin fun node =>
    { node with undeliveredCancelled := node.undeliveredCancelled + 1 }

/-- `withdraw_undelivered`. -/
def withdrawUndelivered (s : Machine) (root : ScopeId) : Machine :=
  s.withdrawAll
    (fun s i =>
      (s.invocations i).state == .admitted && s.scopes.isWithin root (s.invocations i).originScope)
    .originFenced dischargeFenced

/-- `mark_cancelled`. -/
def markCancelled (s : Machine) (root : ScopeId) : Machine :=
  { s with
    invocations := fun i =>
      if (s.invocations i).unresolved && s.scopes.isWithin root (s.invocations i).originScope then
        { s.invocations i with cancel := .originFenced }
      else s.invocations i }

/-- What a death does to one unresolved invocation. -/
def mournInvocation (domain : DomainId) (s : Machine) (i : InvocationId) : Machine :=
  let record := s.invocations i
  if !record.unresolved then s
  else
    let s :=
      if record.originDomain = domain
          ∧ record.originDomainGeneration = s.generation (.domain domain) then
        s.setInvocation i fun slot => { slot with cancel := .originDead, waiter := none }
      else s
    if record.state = .delivered ∧ record.receiverDomain = domain then
      let s := s.setInvocation i fun slot => { slot with outcome := some .unknown }
      (s.wakeWaiter i .peerDead).releaseInvocation i
    else s

/-- Endpoints whose receiver is gone stop admitting. -/
def closeEndpoints (s : Machine) (domain : DomainId) : Machine :=
  { s with
    endpoints := fun e =>
      if (s.endpoints e).used ∧ (s.endpoints e).receiverDomain = some domain
          ∧ (s.endpoints e).receiverGeneration = s.generation (.domain domain) then
        { s.endpoints e with opened := false }
      else s.endpoints e }

/-- The fault channel of a domain given up.  The grant loses its reference and is not
collected. -/
def dropFaultChannel (s : Machine) (domain : DomainId) : Machine :=
  match (s.domains domain).faultEndpoint with
  | none => s
  | some object =>
    let s := match object.object with
      | .endpoint e =>
        if (s.endpoints e).used ∧ s.generation (.endpoint e) = object.generation then
          s.setEndpoint e fun slot => { slot with reservedCells := slot.reservedCells - 1 }
        else s
      | _ => s
    let s := s.dropGrantRef (s.domains domain).faultGrant
    s.setDomain domain fun d =>
      { d with faultEndpoint := none, faultGrant := none, faultReserved := false }

/-- `on_domain_death`. -/
def onDomainDeath (s : Machine) (domain : DomainId) : Machine :=
  let s := s.withdrawAll
    (fun s i =>
      (s.invocations i).originDomain == domain &&
        (s.invocations i).originDomainGeneration == s.generation (.domain domain))
    .originDead releaseInvocation
  let s := (List.finRange maxInvocations).foldl (mournInvocation domain) s
  (s.closeEndpoints domain).dropFaultChannel domain

/-! ### Faults -/

/-- The request a fault report is sent as: the report's bytes and nothing else. -/
def faultRequest (report : List UInt8) : SendRequest where
  payloadLen := report.length
  capCount := 0
  caps := fun _ => .zero
  capOps := fun _ => 0
  payload := report

/-- The context a fault report is admitted in. -/
def faultCtx (s : Machine) (domain : DomainId) (thread : ThreadId) (object : ObjRef)
    (grant : GrantId) (now : Nat) : Ctx where
  domain := domain
  thread := thread
  handle := .zero
  nonblocking := false
  deadline := 0
  now := now
  cap := ⟨0, object, grant, Right.endpointSend, (s.domains domain).faultFacet⟩

/-- `deliver_fault`, less the texts it reports.  The grant is written together with the
endpoint, so it is there whenever the endpoint is. -/
def deliverFault (s : Machine) (domain : DomainId) (thread : ThreadId) (report : List UInt8)
    (now : Nat) : Machine :=
  match (s.domains domain).faultEndpoint, (s.domains domain).faultGrant with
  | some object, some grant =>
    if !s.objectAlive object then s
    else
      match object.object with
      | .endpoint e =>
        Fallible.final (admitMessage (s.faultCtx domain thread object grant now) e
          (faultRequest report) .fault none s)
      | _ => s
  | _, _ => s

end Machine

end Thalyx.Kernel
