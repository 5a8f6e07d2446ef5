/-
Admission, delivery, reply and discharge: `kernel/src/api/ipcops.rs`, with the waits of
`kernel/src/thread.rs` it registers and consumes.

One operation is one step of the machine, with two exceptions.  `call` leaves the machine
between its admission and its return, so it is two steps, `call` and `returnFromCall`.
`receive` goes round its loop after every wake that left nothing for it; one round is one
step.

What is laid out in a sleeper's buffer is not modelled; that it was laid out is, by the
auxiliary value the wake leaves.
-/
import ThalyxKernel.Kernel.Create

namespace Thalyx.Kernel

/-- The word a handle is passed in. -/
def Handle.word (h : Handle) : Nat := h.slot + h.generation * 2 ^ 32

/-- `cap_op::COPY`. -/
abbrev capCopy : Nat := 0
/-- `cap_op::MOVE`. -/
abbrev capMove : Nat := 1

/-- `MESSAGE_OVERHEAD_BYTES`. -/
abbrev messageOverheadBytes : Nat := 64

/-- `TICKET_RIGHTS`. -/
def ticketRights : Rights :=
  Right.inspect ||| Right.transfer ||| Right.destroy ||| Right.invocationReply |||
    Right.invocationEffect ||| Right.invocationResolve ||| Right.invocationBind

/-! ### Waits -/

namespace Machine

/-- `claim_handoff`, for a sleeper on exactly `wait`. -/
def claimHandoff (s : Machine) (i : ThreadId) (wait : Wait) (status : Status) (aux : Nat) :
    Machine × Option Handoff :=
  if (s.threads i).state = .blocked ∧ (s.threads i).wait = wait then
    (s.setThread i fun t =>
      { t with
        wait := .none, deadlineNs := 0, wakeStatus := status, wakeAux := aux,
        handoff := .nothing },
     some (s.threads i).handoff)
  else (s, none)

/-- `set_wake_aux`. -/
def setWakeAux (s : Machine) (i : ThreadId) (aux : Nat) : Machine :=
  s.setThread i fun t => { t with wakeAux := aux }

/-- A deferred wake, issued: the sleeper runs again. -/
def wake (s : Machine) (i : ThreadId) : Machine :=
  s.setThread i fun t => if t.state = .blocked then { t with state := .running } else t

/-- `prepare_wait_offering`. -/
def prepareWaitOffering (s : Machine) (i : ThreadId) (wait : Wait) (deadlineNs : Nat)
    (offer : Handoff) : Machine :=
  s.setThread i fun t =>
    { t with
      wait, deadlineNs, wakeStatus := .ok, wakeAux := 0, handoff := offer, state := .blocked }

/-- `wake_waiter`. -/
def wakeWaiter (s : Machine) (i : InvocationId) (code : Status) : Machine :=
  match (s.invocations i).waiter with
  | none => s
  | some waiter =>
    match s.claimHandoff waiter (.reply i (s.generation (.invocation i))) code 0 with
    | (s, some _) => s.wake waiter
    | (s, none) => s

/-! ### Tickets -/

/-- `issue_ticket`. -/
def issueTicket (s : Machine) (receiver : DomainId) (i : InvocationId) :
    Machine × Option Handle :=
  let object : ObjRef := ⟨.invocation i, s.generation (.invocation i)⟩
  match s.grantAlloc (s.domains receiver).ownerScope none object ticketRights 0 none
      (s.invocations i).facet with
  | (s, none) => (s, none)
  | (s, some grant) =>
    match s.capInstall receiver object (some grant) none with
    | (s, none) => (s.collectGrant (some grant), none)
    | (s, some ticket) =>
      (s.setInvocation i fun slot => { slot with receiverDomain := receiver }, some ticket)

/-- The loop of `take_receiver` over the threads from the lowest registered one. -/
def takeReceiverFrom (endpoint : EndpointId) (now : Nat) :
    List ThreadId → Machine → Machine × Option (ThreadId × Handoff)
  | [], s => (s, none)
  | i :: rest, s =>
    if (s.endpoints endpoint).receivers i then
      let s := s.setEndpoint endpoint fun e =>
        { e with receivers := Function.update e.receivers i false }
      match s.claimHandoff i (.receive endpoint (s.generation (.endpoint endpoint))) .ok 0 with
      | (s, none) => takeReceiverFrom endpoint now rest s
      | (s, some offer) =>
        match (s.endpoints endpoint).receiverDomain with
        | none => (s, some (i, .nothing))
        | some receiver =>
          match s.resolve receiver offer.handle (some .endpoint) Right.endpointReceive
              now with
          | .ok cap =>
            (s, some (i, if cap.object.object = .endpoint endpoint then offer else .nothing))
          | .error _ => (s, some (i, .nothing))
    else takeReceiverFrom endpoint now rest s

/-- `take_receiver`. -/
def takeReceiver (s : Machine) (endpoint : EndpointId) (now : Nat) :
    Machine × Option (ThreadId × Handoff) :=
  takeReceiverFrom endpoint now (List.finRange maxThreads) s

end Machine

/-! ### Admission -/

/-- `SendRequest`. -/
structure SendRequest where
  payloadLen : Nat
  capCount : Nat
  caps : Fin maxMessageCaps → Handle
  capOps : Fin maxMessageCaps → Nat
  payload : List UInt8

/-- Nothing stands behind the capabilities a request counts. -/
def SendRequest.tailClear (request : SendRequest) : Bool :=
  (List.finRange maxMessageCaps).all fun k =>
    k.val < request.capCount || (request.caps k == .zero && request.capOps k == 0)

/-- The capability entries a request counts, in order. -/
def SendRequest.listed (request : SendRequest) : List (Fin maxMessageCaps) :=
  (List.finRange maxMessageCaps).filter fun k => k.val < request.capCount

/-- A capability about to cross: where it stands and whether it leaves. -/
structure Source where
  slot : CapSlot
  object : ObjRef
  grant : GrantId
  moved : Bool
  deriving DecidableEq, Repr

/-- `Admitted`. -/
structure Admitted where
  invocation : InvocationId
  generation : Nat
  id : Nat
  deriving DecidableEq, Repr

namespace Machine

/-- The capabilities of a request, each resolved, none named twice. -/
def sources (s : Machine) (ctx : Ctx) (request : SendRequest) :
    List (Fin maxMessageCaps) → List Source → Except Status (List Source)
  | [], found => .ok found
  | k :: rest, found =>
    if request.capOps k ≠ capCopy ∧ request.capOps k ≠ capMove then .error .invalidArgument
    else
      match s.resolve ctx.domain (request.caps k) none Right.transfer ctx.now with
      | .error code => .error code
      | .ok cap =>
        if found.any fun previous => previous.slot == cap.slot then .error .invalidArgument
        else
          s.sources ctx request rest
            (found ++ [⟨cap.slot, cap.object, cap.grant, request.capOps k == capMove⟩])

/-- The receiver an endpoint admits for, if it is still there. -/
def receiverOf (s : Machine) (endpoint : EndpointId) : Except Status DomainId :=
  let channel := s.endpoints endpoint
  if !channel.opened then .error .peerDead
  else
    match channel.receiverDomain with
    | none => .error .peerDead
    | some receiver =>
      if s.generation (.domain receiver) ≠ channel.receiverGeneration
          ∨ ((s.domains receiver).state ≠ .building ∧ (s.domains receiver).state ≠ .runnable)
      then .error .peerDead
      else .ok receiver

/-- The slot a handle names, as `handle_slot` reads it. -/
def slotOf (handle : Handle) : CapSlot :=
  if h : handle.slot < maxCaps then ⟨handle.slot, h⟩ else 0

/-- The installations of an admission in turn: what is placed, and whether all of it is. -/
def installAll (receiver : DomainId) :
    List Source → List DeliveredCap → Machine → Machine × List DeliveredCap × Bool
  | [], placed, s => (s, placed, true)
  | source :: rest, placed, s =>
    match s.capInstall receiver source.object (some source.grant) none with
    | (s, some handle) =>
      installAll receiver rest (placed ++ [⟨slotOf handle, handle, some source.grant⟩]) s
    | (s, none) => (s, placed, false)

/-- The moved capabilities leave the sender. -/
def consumeMoves (s : Machine) (domain : DomainId) (sources : List Source) : Machine :=
  sources.foldl
    (fun s source => if source.moved then (s.capReleaseSlot domain source.slot).1 else s) s

/-- The record of an admitted invocation, written and counted. -/
def writeInvocation (s : Machine) (ctx : Ctx) (endpoint : EndpointId) (receiver : DomainId)
    (i : InvocationId) (m : MessageId) (id : Nat) (waiter : Option ThreadId) (charged : Nat) :
    Machine :=
  let origin := (s.threads ctx.thread).effectiveScope
  let parentId := match (s.threads ctx.thread).bound with
    | some (bound, _) => (s.invocations bound).id
    | none => 0
  let s := s.renew (.invocation i) (s.generation (.invocation i) + 1)
  let s := s.setInvocation i fun slot =>
    { slot with
      state := .admitted
      id, endpoint
      endpointGeneration := s.generation (.endpoint endpoint)
      originDomain := ctx.domain
      originDomainGeneration := s.generation (.domain ctx.domain)
      originScope := origin
      waiter, parentId
      grant := some ctx.cap.grant
      facet := ctx.cap.facet
      cancel := .live
      effect := .none
      closureReservedNs := 0
      closureService := 0
      admittedNs := ctx.now
      message := some m
      receiverDomain := receiver
      chargedBytes := charged
      replied := false
      outcome := none
      replyCaps := []
      replyPayload := []
      replyResult := 0 }
  let s := s.addGrantRef (some ctx.cap.grant)
  s.setScope origin fun node => { node with invocationsPending := node.invocationsPending + 1 }

/-- A delivered record: it has left the queue. -/
def markDelivered (s : Machine) (i : InvocationId) : Machine :=
  s.setInvocation i fun slot => { slot with state := .delivered, message := none }

/-- The delivery straight to a waiting receiver, if it can take it: whether it did. -/
def handOver (s : Machine) (endpoint : EndpointId) (i : InvocationId) (thread : ThreadId)
    (offer : Handoff) : Machine × Bool :=
  if (s.endpoints endpoint).head.isNone && offer.staging then
    match (s.endpoints endpoint).receiverDomain with
    | none => (s, false)
    | some receiver =>
      match s.issueTicket receiver i with
      | (s, none) => (s, false)
      | (s, some ticket) => ((s.markDelivered i).setWakeAux thread ticket.word, true)
  else (s, false)

/-- The message written into its cell and linked behind the queue's tail. -/
def enqueue (s : Machine) (endpoint : EndpointId) (m : MessageId) (i : InvocationId)
    (kind : MessageKind) (payload : List UInt8) (caps : List DeliveredCap) (charged : Nat) :
    Machine :=
  let s := s.setMessage m fun _ =>
    { used := true, next := none, endpoint
      endpointGeneration := s.generation (.endpoint endpoint)
      invocation := i, reservedCell := kind == .fault, kind, payload, caps
      chargedBytes := charged }
  let s := match (s.endpoints endpoint).tail with
    | none => s.setEndpoint endpoint fun e => { e with head := some m }
    | some tail => s.setMessage tail fun slot => { slot with next := some m }
  s.setEndpoint endpoint fun e =>
    { e with
      tail := some m
      queued := e.queued + 1
      reservedUsed := if kind = .fault then e.reservedUsed + 1 else e.reservedUsed }

/-- What an admission that was refused late gives back. -/
def returnAdmission (s : Machine) (m : MessageId) (i : InvocationId) (origin : ScopeId)
    (charged : Nat) : Machine :=
  let s := (s.freeInvocation i).releaseMessage m
  if charged ≠ 0 then s.release origin .queueBytes charged else s

/-- From the record on: nothing is refused any more. -/
def publish (s : Machine) (ctx : Ctx) (endpoint : EndpointId) (receiver : DomainId)
    (request : SendRequest) (kind : MessageKind) (waiter : Option ThreadId) (i : InvocationId)
    (m : MessageId) (id charged : Nat) (installed : List DeliveredCap) : Machine :=
  let s := s.writeInvocation ctx endpoint receiver i m id waiter charged
  let (s, taken) := s.takeReceiver endpoint ctx.now
  let (s, delivered) := match taken with
    | some (thread, offer) => s.handOver endpoint i thread offer
    | none => (s, false)
  let s :=
    if delivered then s.releaseMessage m
    else s.enqueue endpoint m i kind (request.payload.take request.payloadLen) installed charged
  let s := s.receipt false true
  match taken with
  | some (thread, _) => s.wake thread
  | none => s

end Machine

namespace Op

/-- `claim_message`. -/
def claimMessage : Op MessageId := fun s =>
  match s.claimMessage with
  | some (m, s) => .ok m s
  | none => .error .limitExhausted s

/-- `claim_invocation`, with the message given back when it refuses. -/
def claimInvocation (m : MessageId) : Op InvocationId := fun s =>
  match s.claimInvocation with
  | some (i, s) => .ok i s
  | none => .error .limitExhausted (s.releaseMessage m)

/-- The queue bytes of an ordinary message, charged to its origin. -/
def chargeBytes (kind : MessageKind) (origin : ScopeId) (payloadLen : Nat) (m : MessageId)
    (i : InvocationId) : Op Nat := fun s =>
  if kind = .fault then .ok 0 s
  else
    let bytes := messageOverheadBytes + payloadLen
    match s.scopes.reserve origin .queueBytes bytes with
    | some scopes => .ok bytes { s with scopes }
    | none => .error .limitExhausted (s.returnAdmission m i origin 0)

/-- `reserve_receipt`, with what an admission gives back when it refuses. -/
def claimReceipt (origin : ScopeId) (charged : Nat) (m : MessageId) (i : InvocationId) :
    Op Unit := fun s =>
  match s.reserveReceipt with
  | some s => .ok () s
  | none => .error .limitExhausted (s.returnAdmission m i origin charged)

/-- The installations, rolled back when one of them is refused. -/
def installAll (receiver : DomainId) (sources : List Source) (origin : ScopeId) (charged : Nat)
    (m : MessageId) (i : InvocationId) : Op (List DeliveredCap) := fun s =>
  match Machine.installAll receiver sources [] s with
  | (s, placed, true) => .ok placed s
  | (s, placed, false) =>
    let s := s.releaseSlots receiver (placed.map DeliveredCap.slot)
    .error .limitExhausted (s.releaseReceipt.returnAdmission m i origin charged)

end Op

/-- The room in the queue an admission demands. -/
def Machine.queueRoom (kind : MessageKind) (endpoint : EndpointId) (s : Machine) : Bool :=
  if kind = .fault then (s.endpoints endpoint).reservedUsed < (s.endpoints endpoint).reservedCells
  else (s.endpoints endpoint).hasOrdinaryRoom

/-- `admit`, from the reservations on. -/
def admitReserved (ctx : Ctx) (endpoint : EndpointId) (request : SendRequest)
    (kind : MessageKind) (waiter : Option ThreadId) (receiver : DomainId)
    (sources : List Source) : Op Admitted := do
  let m ← Op.claimMessage
  let i ← Op.claimInvocation m
  let origin := ((← get).threads ctx.thread).effectiveScope
  let charged ← Op.chargeBytes kind origin request.payloadLen m i
  Op.claimReceipt origin charged m i
  let installed ← Op.installAll receiver sources origin charged m i
  modify fun s => s.consumeMoves ctx.domain sources
  -- Without an identity the admission stops here and gives nothing back.
  let id ← Op.nextId id .limitExhausted
  modify fun s => s.publish ctx endpoint receiver request kind waiter i m id charged installed
  let generation := (← get).generation (.invocation i)
  pure ⟨i, generation, id⟩

/-- `admit`, on the endpoint the capability names. -/
def admitMessage (ctx : Ctx) (endpoint : EndpointId) (request : SendRequest) (kind : MessageKind)
    (waiter : Option ThreadId) : Op Admitted := do
  let receiver ← Op.ask fun s => s.receiverOf endpoint
  Op.require (fun _ => request.payloadLen ≤ maxInlinePayload) .invalidArgument
  Op.require (fun _ => request.capCount ≤ maxMessageCaps) .invalidArgument
  Op.require (fun _ => request.tailClear) .invalidArgument
  let sources ← Op.ask fun s => s.sources ctx request request.listed []
  Op.require (Machine.queueRoom kind endpoint) .queueFull
  Op.require (fun s => request.capCount ≤ (s.caps receiver).freeSlots) .limitExhausted
  admitReserved ctx endpoint request kind waiter receiver sources

/-- `send`. -/
def send (caller : Caller) (request : SendRequest) : Op Nat :=
  Op.atEndpoint caller Right.endpointSend fun ctx endpoint => do
    let admitted ← admitMessage ctx endpoint request .request none
    pure admitted.id

/-- `call`, until it blocks. -/
def call (caller : Caller) (request : SendRequest) : Op Unit := do
  Op.require (fun _ => !caller.nonblocking) .invalidArgument
  Op.atEndpoint caller Right.endpointCall fun ctx endpoint => do
    let admitted ← admitMessage ctx endpoint request .request (some caller.thread)
    modify fun s =>
      s.prepareWaitOffering caller.thread (.reply admitted.invocation admitted.generation)
        caller.deadline ⟨true, caller.handle⟩
    modify fun s => s.setThread caller.thread fun t =>
      { t with calling := some (admitted.invocation, admitted.generation) }

end Thalyx.Kernel
