/-
The service in front of the engine: `user/k4store/src/main.rs`.

One call at a time is received, served and answered.  What a call brings from outside is in
`Call`: who the kernel says is asking, the request with the memory it lends, whether the
kernel admits the effect of a publication, what the broker answers, and what the medium, the
clock and the control log will say while the call is served.

`serve` answers a reply.  A publication that stopped is not answered with a payload in the
source: its invocation is resolved, with the outcome the reply here carries.  The operations
that only report on the harness and on counters are left out with what they report on.
-/
import ThalyxKernel.Store.Recovery
import ThalyxKernel.Store.Publication

namespace Thalyx.K4

variable {D C : Type}

/-- `facet::PUBLISHER` and `facet::RIVAL`. -/
def publisherFacet : Nat := 1
def rivalFacet : Nat := 2

def maxWorkspaces : Nat := 5

/-- `OFFERED`: objects one principal may have staged and not yet named. -/
def offeredMax : Nat := 4

/-- `StoreRequest`, by operation, with the memory it lends. -/
inductive Request (D C : Type) where
  | query
  | putObject (objectType length : Nat) (lent : Option C)
  | read (digest : D) (offset length : Nat) (lent : Option Bool)
  | fork (generation : Nat)
  | write (workspace : Nat) (name : Bytes) (flags : Nat) (digest : D)
  | freeze (workspace : Nat) (policy validation : D)
  | discard (workspace : Nat)
  | publish (sequence expectedGeneration : Nat) (root policy validation : D)
      (outboxTarget : Nat) (outboxPayload : D)
  | result (sequence : Nat)
  | retain (root : D) (expiryNs : Nat)
  | release (root : D)
  | compact
  | unknown

/-- `StoreReply`, with what was copied into the lent memory. -/
structure Reply (D C : Type) where
  status : StoreStatus
  detail : Nat
  generation : Nat
  value : Nat
  digest0 : D
  digest1 : D
  outcome : ResultOutcome
  outboxStatus : OutboxStatus
  sequence : Nat
  durableThrough : Nat
  freeBlocks : Nat
  given : Option C

/-- One call, and what the world answers while it is served. -/
structure Call (D C : Type) where
  principal : Nat
  invocation : Nat
  request : Request D C
  /-- `invocation_begin_effect` is admitted. -/
  effect : Bool
  /-- The broker's answer, if it can be had: its status and its attempts. -/
  broker : Option (OutboxStatus × Nat)
  fails : Moment → Nat → Bool
  outcomes : List IoOutcome
  clock : List Nat
  room : Nat

/-- `Workspace`, while it is live. -/
structure Workspace (D : Type) where
  owner : Nat
  baseGeneration : Nat
  bindings : List (Binding D)

/-- `Service`. -/
structure Service (D C : Type) where
  store : Store D C
  workspaces : List (Option (Workspace D))
  candidates : List D
  offered : List (List D)
  offeredNext : List Nat

variable (fmt : Format D C)

/-- The service of a fresh domain. -/
def Service.new (store : Store D C) : Service D C where
  store := store
  workspaces := List.replicate maxWorkspaces none
  candidates := List.replicate maxPrincipals fmt.zero
  offered := List.replicate maxPrincipals (List.replicate offeredMax fmt.zero)
  offeredNext := List.replicate maxPrincipals 0

/-- `permitted`: whether a principal may ask for this operation at all. -/
def permitted (principal : Nat) : Request D C → Bool
  | .publish .. => principal == publisherFacet || principal == rivalFacet
  | .compact => principal == publisherFacet
  | _ => principal != 0

/-- `refused`: a reply carrying nothing but a status. -/
def refused (status : StoreStatus) : Reply D C where
  status := status
  detail := 0
  generation := 0
  value := 0
  digest0 := fmt.zero
  digest1 := fmt.zero
  outcome := .neverSeen
  outboxStatus := .none
  sequence := 0
  durableThrough := 0
  freeBlocks := 0
  given := none

/-! ### Workspaces -/

/-- Where `bind` puts a binding, keeping the names in order: in the place of one of the same
name, which the flag tells, or before the first greater one. -/
def bindInto (binding : Binding D) : List (Binding D) → Bool × List (Binding D)
  | [] => (false, [binding])
  | held :: rest =>
    if held.name = binding.name then (true, binding :: rest)
    else if binding.name < held.name then (false, binding :: held :: rest)
    else ((bindInto binding rest).1, held :: (bindInto binding rest).2)

/-- `Workspace::bind`. -/
def Workspace.bind (w : Workspace D) (binding : Binding D) : Except StoreStatus (Workspace D) :=
  if (bindInto binding w.bindings).1 = false ∧ maxTreeEntries ≤ w.bindings.length then
    .error .exhausted
  else .ok { w with bindings := (bindInto binding w.bindings).2 }

namespace Service

/-- `Service::workspace`: the slot an id names, if this principal owns it. -/
def workspace (s : Service D C) (id principal : Nat) : Option (Nat × Workspace D) :=
  if id = 0 then none
  else
    match s.workspaces.getD (id - 1) none with
    | none => none
    | some w => if w.owner = principal then some (id - 1, w) else none

/-- `Service::remember`. -/
def remember (s : Service D C) (principal : Nat) (digest : D) : Service D C :=
  let at_ := s.offeredNext.getD principal 0
  { s with
    offered := s.offered.modify principal fun held => held.set at_ digest
    offeredNext := s.offeredNext.set principal ((at_ + 1) % offeredMax) }

section Protect

variable [DecidableEq D]

/-- One digest pushed by `protect`. -/
def push (pushed : List D) (digest : D) : List D :=
  if digest = fmt.zero ∨ maxProtected ≤ pushed.length ∨ digest ∈ pushed then pushed
  else pushed ++ [digest]

/-- The digests `protect` pushes, in its order. -/
def nameable (s : Service D C) : List D :=
  (s.candidates.zip s.offered).flatMap (fun (candidate, offered) => candidate :: offered) ++
    s.workspaces.flatMap fun space =>
      match space with
      | none => []
      | some w => w.bindings.map Binding.digest

/-- `Service::protect`: tells the engine which staged digests are still nameable. -/
def protect (s : Service D C) : Service D C :=
  { s with store := { s.store.unpin with
      protectedDigests := s.nameable.foldl (push fmt) [] } }

/-! ### The operations -/

/-- `QUERY`. -/
def query (s : Service D C) : Reply D C :=
  { refused fmt .ok with
    generation := s.store.publishedGeneration
    value := s.store.storeEpoch
    digest0 := s.store.publishedRoot
    digest1 := s.store.publishedPolicy
    sequence := s.store.nextSequence
    durableThrough := s.store.durableThrough
    freeBlocks := s.store.freeBlocks }

/-- `Service::put_object`. -/
def putObject (s : Service D C) (principal objectType length : Nat) (lent : Option C) :
    Reply D C × Service D C :=
  if objectMax < length ∨ objectType = 0 ∨ ObjectType.receipt.code < objectType then
    (refused fmt .tooLarge, s)
  else
    match lent with
    | none => (refused fmt .invalidRequest, s)
    | some memory =>
      if fmt.size memory < length then (refused fmt .invalidRequest, s)
      else
        match stage fmt [0] objectType (fmt.slice memory 0 length) s.store with
        | .ok digest store =>
          ({ refused fmt .ok with
              value := length, digest0 := digest, freeBlocks := store.freeBlocks },
            { s with store }.remember principal digest)
        | .error status store => (refused fmt status, { s with store })

/-- The roots `served` looks below. -/
def servedRoots (s : Service D C) : List D :=
  (if s.store.publishedGeneration = 0 then [] else [s.store.publishedRoot]) ++
    s.store.retained.map RetainedEntry.rootDigest

/-- `Service::served`: whether `target` is reachable from a root this store still serves,
and, where it is not, whether the last walk was cut short by a read. -/
def served (s : Service D C) (target : D) : Nat → List D → Bool → Bool × Bool
  | _, [], incomplete => (false, incomplete)
  | i, root :: rest, incomplete =>
    if root = target then (true, incomplete)
    else
      match s.store.closure fmt [i] root with
      | .error e => served s target (i + 1) rest (e == .unread)
      | .ok reachable =>
        if target ∈ reachable then (true, false) else served s target (i + 1) rest false

/-- `Service::read`. -/
def read (s : Service D C) (digest : D) (offset length : Nat) (lent : Option Bool) : Reply D C :=
  match s.served fmt digest 1 s.servedRoots false with
  | (false, true) => refused fmt .unavailable
  | (false, false) => refused fmt .notFound
  | (true, _) =>
    match s.store.readObject fmt [0] digest with
    | none => refused fmt .integrityFailed
    | some (kind, content) =>
      if fmt.size content < offset then refused fmt .invalidRequest
      else
        let want := min length (fmt.size content - offset)
        match lent with
        | none => refused fmt .invalidRequest
        | some false => refused fmt .forbidden
        | some true =>
          { refused fmt .ok with
            detail := kind
            value := want
            generation := s.store.publishedGeneration
            sequence := fmt.size content
            given := some (fmt.slice content offset want) }

/-- The bindings a fork starts with: those of the published version. -/
def baseBindings (s : Service D C) : Option (List (Binding D)) :=
  if s.store.publishedGeneration = 0 then some []
  else
    match s.store.readObject fmt [0] s.store.publishedRoot with
    | none => none
    | some (kind, content) =>
      if kind ≠ ObjectType.manifest.code then none
      else
        match fmt.readManifest content with
        | none => none
        | some manifest =>
          match s.store.readObject fmt [1] manifest.treeDigest with
          | none => none
          | some (kind, content) =>
            if kind ≠ ObjectType.tree.code then none else fmt.decodeTree content

/-- `Service::fork`. -/
def fork (s : Service D C) (principal generation : Nat) : Reply D C × Service D C :=
  if generation ≠ s.store.publishedGeneration then (refused fmt .generationStale, s)
  else
    match s.workspaces.findIdx? Option.isNone with
    | none => (refused fmt .exhausted, s)
    | some slot =>
      match s.baseBindings fmt with
      | none => (refused fmt .integrityFailed, s)
      | some bindings =>
        let w : Workspace D := { owner := principal, baseGeneration := generation, bindings }
        ({ refused fmt .ok with
            value := slot + 1, detail := bindings.length, generation },
          { s with workspaces := s.workspaces.set slot (some w) })

/-- `Service::write`. -/
def write (s : Service D C) (principal id : Nat) (name : Bytes) (flags : Nat) (digest : D) :
    Reply D C × Service D C :=
  match s.workspace id principal with
  | none => (refused fmt .notFound, s)
  | some (slot, w) =>
    if name.length = 0 ∨ 32 < name.length then (refused fmt .invalidRequest, s)
    else
      match s.store.find digest with
      | none => (refused fmt .notFound, s)
      | some entry =>
        match Binding.new name entry.objectType flags entry.length entry.digest with
        | .error _ => (refused fmt .invalidRequest, s)
        | .ok binding =>
          match w.bind binding with
          | .error status => (refused fmt status, s)
          | .ok w =>
            ({ refused fmt .ok with value := w.bindings.length },
              { s with workspaces := s.workspaces.set slot (some w) })

/-- The manifest `freeze` stages. -/
def frozenManifest (bindings : List (Binding D)) (treeDigest policy validation : D) :
    Manifest D where
  format := 1
  treeDigest := treeDigest
  policyDigest := policy
  validationDigest := validation
  entryCount := bindings.length
  totalBytes := (bindings.map Binding.length).sum

/-- `Service::freeze`. -/
def freeze (s : Service D C) (principal id : Nat) (policy validation : D) :
    Reply D C × Service D C :=
  match s.workspace id principal with
  | none => (refused fmt .notFound, s)
  | some (_, w) =>
    match fmt.encodeTree objectMax w.bindings with
    | .error _ => (refused fmt .invalidRequest, s)
    | .ok tree =>
      match stage fmt [0] ObjectType.tree.code tree s.store with
      | .error status store => (refused fmt status, { s with store })
      | .ok treeDigest store =>
        let manifest := frozenManifest w.bindings treeDigest policy validation
        match stage fmt [1] ObjectType.manifest.code (fmt.manifestBytes manifest) store with
        | .error status store => (refused fmt status, { s with store })
        | .ok root store =>
          ({ refused fmt .ok with
              digest0 := root
              digest1 := treeDigest
              value := manifest.totalBytes
              generation := w.baseGeneration
              freeBlocks := store.freeBlocks },
            { s with store, candidates := s.candidates.set principal root })

/-- `Service::discard`. -/
def discard (s : Service D C) (principal id : Nat) : Reply D C × Service D C :=
  match s.workspace id principal with
  | none => (refused fmt .notFound, s)
  | some (slot, _) =>
    let workspaces := s.workspaces.set slot none
    ({ refused fmt .ok with value := (workspaces.filter Option.isSome).length },
      { s with workspaces })

/-- The reply that says what the durable result of a request is. -/
def held (entry : ResultEntry D) (sequence : Nat) : Reply D C :=
  { refused fmt .ok with
    outcome := entry.outcome
    outboxStatus := entry.outboxStatus
    generation := entry.generation
    digest0 := entry.rootDigest
    digest1 := entry.requestDigest
    sequence }

/-- `Service::result`. -/
def result (s : Service D C) (principal sequence : Nat) : Reply D C × Service D C :=
  match principalSlot principal s.store.principals with
  | none => (refused fmt .forbidden, s)
  | some (index, principals) =>
    let entry := principals.getD index .zeroed
    let s := { s with store := { s.store with principals } }
    if entry.pendingSequence = sequence ∧ sequence ≠ 0 then
      ({ refused fmt .ok with outcome := .unknown, sequence }, s)
    else if entry.highWater < sequence then
      ({ refused fmt .ok with outcome := .neverSeen, sequence }, s)
    else
      match resultFor s.store.results principal sequence with
      | some entry => (held fmt entry sequence, s)
      | none => ({ refused fmt .resultExpired with outcome := .resultExpired, sequence }, s)

/-- `Service::resolve_outbox`: what a publication answers about its intent. -/
def resolveOutbox (principal sequence : Nat) (request : D) (target : Nat)
    (broker : Option (OutboxStatus × Nat)) (store : Store D C) : OutboxStatus × Store D C :=
  let answer := broker.getD (.unknown, 1)
  match recordOutbox fmt principal sequence request target answer.1 answer.2 store with
  | .ok true store => (answer.1, store)
  | .ok false store => (.unknown, store)
  | .error _ store => (.unknown, store)

/-- The outbox of a publication that went through, if it has one. -/
def outboxOf (q : Publication D) (identity : D) (broker : Option (OutboxStatus × Nat))
    (store : Store D C) : OutboxStatus × Store D C :=
  if q.outboxTarget = 0 then (.none, store)
  else resolveOutbox fmt q.principal q.sequence identity q.outboxTarget broker store

/-- `Service::publish`. -/
def publish (s : Service D C) (q : Publication D) (invocation : Nat) (effect : Bool)
    (broker : Option (OutboxStatus × Nat)) : Reply D C × Service D C :=
  match admitPublication fmt q s.store with
  | .error .ok store =>
    match resultFor store.results q.principal q.sequence with
    | some entry => (held fmt entry q.sequence, { s with store })
    | none => (refused fmt .resultExpired, { s with store })
  | .error status store => (refused fmt status, { s with store })
  | .ok identity store =>
    if !effect then (refused fmt .effectRefused, { s with store })
    else
      match K4.publish fmt q identity invocation store with
      | .ok generation store =>
        let (status, store) := outboxOf fmt q identity broker store
        ({ refused fmt .ok with
            outcome := .committed
            outboxStatus := status
            generation
            digest0 := q.candidateRoot
            digest1 := identity
            sequence := q.sequence
            durableThrough := store.durableThrough
            freeBlocks := store.freeBlocks },
          { s with store })
      | .error status store =>
        ({ refused fmt status with
            outcome := if store.pending.isSome then .unknown else .aborted
            sequence := q.sequence },
          { s with store })

/-- A count the engine answers, as a reply. -/
def counted (s : Service D C) : EStateM.Result StoreStatus (Store D C) Nat →
    Reply D C × Service D C
  | .ok count store => ({ refused fmt .ok with value := count }, { s with store })
  | .error status store => (refused fmt status, { s with store })

/-- `COMPACT`. -/
def compact (s : Service D C) : Reply D C × Service D C :=
  match K4.compact fmt s.store with
  | .ok copied store =>
    ({ refused fmt .ok with
        value := copied
        generation := store.publishedGeneration
        digest0 := store.publishedRoot
        durableThrough := store.durableThrough
        freeBlocks := store.freeBlocks },
      { s with store })
  | .error status store => (refused fmt status, { s with store })

/-- The operation of `serve`, once the request may be served. -/
def dispatch (s : Service D C) (call : Call D C) : Reply D C × Service D C :=
  match call.request with
  | .query => (s.query fmt, s)
  | .putObject objectType length lent => s.putObject fmt call.principal objectType length lent
  | .read digest offset length lent => (s.read fmt digest offset length lent, s)
  | .fork generation => s.fork fmt call.principal generation
  | .write workspace name flags digest => s.write fmt call.principal workspace name flags digest
  | .freeze workspace policy validation =>
    s.freeze fmt call.principal workspace policy validation
  | .discard workspace => s.discard fmt call.principal workspace
  | .publish sequence expectedGeneration root policy validation outboxTarget outboxPayload =>
    s.publish fmt {
      principal := call.principal
      sequence
      expectedGeneration
      candidateRoot := root
      policyDigest := policy
      validationDigest := validation
      outboxTarget
      outboxPayload } call.invocation call.effect call.broker
  | .result sequence => s.result fmt call.principal sequence
  | .retain root expiryNs => s.counted fmt (retain root expiryNs s.store)
  | .release root => s.counted fmt (release root s.store)
  | .compact => s.compact fmt
  | .unknown => (refused fmt .invalidRequest, s)

/-- The service with what the world will answer while a call is served. -/
def meet (s : Service D C) (call : Call D C) : Service D C :=
  { s with store := { s.store with
      disk := { s.store.disk with fails := call.fails, outcomes := call.outcomes }
      clock := call.clock
      room := call.room } }

/-- `Service::serve`. -/
def serve (s : Service D C) (call : Call D C) : Reply D C × Service D C :=
  let s := s.meet call
  if !permitted call.principal call.request then (refused fmt .forbidden, s)
  else if s.store.integrityFailed then (refused fmt .integrityFailed, s)
  else if !s.store.ready then (refused fmt .unavailable, s)
  else (s.protect fmt).dispatch fmt call

end Protect

end Service

end Thalyx.K4
