/-
Publication and maintenance: the part of `user/k4store/src/state.rs` that changes what is
published.

`publish` is one function of the source in three parts here: the preparation, the objects
of the candidate's closure, and the commit.
-/
import ThalyxKernel.Store.Engine

namespace Thalyx.K4

variable {D C : Type} (fmt : Format D C) [DecidableEq D]

/-- What a publication asks for: the arguments of `admit` and `publish`. -/
structure Publication (D : Type) where
  principal : Nat
  sequence : Nat
  expectedGeneration : Nat
  candidateRoot : D
  policyDigest : D
  validationDigest : D
  outboxTarget : Nat
  outboxPayload : D

/-- The inputs its identity is computed over. -/
def Publication.inputs (q : Publication D) : RequestInputs D where
  principal := q.principal
  sequence := q.sequence
  expectedGeneration := q.expectedGeneration
  candidateRoot := q.candidateRoot
  policyDigest := q.policyDigest
  validationDigest := q.validationDigest
  outboxTarget := q.outboxTarget
  outboxPayload := q.outboxPayload

/-- Whether evidence is about this candidate, against this version, by the policy's tool. -/
def covers (v : Validation D) (manifest : Manifest D) (policy : Policy D)
    (expectedGeneration : Nat) : Bool :=
  decide (v.result = 1 ∧ v.inputTreeDigest = manifest.treeDigest ∧
    v.baseGeneration = expectedGeneration ∧ v.toolId = policy.validationToolId ∧
    v.toolConfigDigest = policy.toolConfigDigest ∧ policy.minCoveragePpm ≤ v.coveragePpm)

/-- What `admit` answers a sequence with, before it looks at the candidate. -/
def Store.sequenceRule (s : Store D C) (entry : PrincipalEntry) (principal sequence : Nat)
    (request : D) : Except StoreStatus Unit :=
  if entry.pendingSequence ≠ 0 ∧ entry.pendingSequence ≠ sequence then .error .sequenceGap
  else if sequence ≤ entry.highWater then
    match resultFor s.results principal sequence with
    | some held => if held.requestDigest = request then .error .ok else .error .conflict
    | none => .error .resultExpired
  else if sequence ≠ entry.highWater + 1 then .error .sequenceGap
  else .ok ()

/-- The manifest of a candidate, which has to name the policy and the evidence offered. -/
def Store.manifestRule (s : Store D C) (q : Publication D) (root : ObjectEntry D C) :
    Except StoreStatus (Manifest D) :=
  if root.objectType ≠ ObjectType.manifest.code then .error .invalidRequest
  else
    match s.load fmt [0] root with
    | none => .error .integrityFailed
    | some content =>
      match fmt.readManifest content with
      | none => .error .invalidRequest
      | some manifest =>
        if manifest.policyDigest ≠ q.policyDigest ∨
            manifest.validationDigest ≠ q.validationDigest then .error .invalidRequest
        else .ok manifest

/-- The policy of a candidate, which has to let the principal publish. -/
def Store.policyRule (s : Store D C) (q : Publication D) : Except StoreStatus (Policy D) :=
  match s.find q.policyDigest with
  | none => .error .notFound
  | some entry =>
    match s.load fmt [2] entry with
    | none => .error .integrityFailed
    | some content =>
      match fmt.readPolicy content with
      | none => .error .invalidRequest
      | some policy =>
        if 64 ≤ q.principal ∨ policy.publishPrincipals.testBit q.principal = false then
          .error .forbidden
        else .ok policy

/-- What `admit` answers evidence with. -/
def Store.evidenceRule (s : Store D C) (q : Publication D) (manifest : Manifest D)
    (policy : Policy D) : Except StoreStatus Unit :=
  if policy.requiresValidation = 0 then .ok ()
  else
    match s.find q.validationDigest with
    | none => .error .validationMismatch
    | some entry =>
      match s.load fmt [3] entry with
      | none => .error .integrityFailed
      | some content =>
        match fmt.readValidation content with
        | none => .error .validationMismatch
        | some validation =>
          if covers validation manifest policy q.expectedGeneration then .ok ()
          else .error .validationMismatch

/-- Objects of a closure that are not durable yet. -/
def Store.missing (s : Store D C) (reachable : List D) : List D :=
  reachable.filter fun d => !(s.find d).any ObjectEntry.durable

/-- What `admit` answers the expected version and the room left with: what the publication
needs, and what closing it and copying the reachable set would need. -/
def Store.versionRule (s : Store D C) (q : Publication D) (reachable : List D) :
    Except StoreStatus Unit :=
  let needed := (s.missing reachable).length + 3 + (if q.outboxTarget = 0 then 0 else 1)
  if q.expectedGeneration ≠ s.publishedGeneration then .error .generationStale
  else if s.freeBlocks < needed + (closureReserveBlocks + compactionReserveBlocks) then
    .error .exhausted
  else .ok ()

/-- What `admit` answers a candidate with: structure before authority before effect. -/
def Store.candidateRule (s : Store D C) (q : Publication D) : Except StoreStatus Unit := do
  let some root := s.find q.candidateRoot | throw .notFound
  let manifest ← s.manifestRule fmt q root
  let .ok reachable := s.closure fmt [1] q.candidateRoot | throw .notFound
  let policy ← s.policyRule fmt q
  s.evidenceRule fmt q manifest policy
  s.versionRule q reachable

/-- `Store::admit`: everything a publication needs to be decided.  It answers the request's
identity, and may take the principal a table entry even when it refuses. -/
def admitPublication (q : Publication D) : Engine D C D := fun s =>
  if !s.ready then .error .unavailable s
  else
    let request := fmt.requestDigest q.inputs
    match principalSlot q.principal s.principals with
    | none => .error .forbidden s
    | some (index, principals) =>
      let s := { s with principals }
      match s.sequenceRule (principals.getD index .zeroed) q.principal q.sequence request with
      | .error status => .error status s
      | .ok () =>
        match s.candidateRule fmt q with
        | .error status => .error status s
        | .ok () => .ok request s

/-! ### Publishing -/

/-- The receipt of a publication. -/
def Store.receipt (s : Store D C) (q : Publication D) (request : D) (committedNs : Nat) :
    Receipt D where
  format := 1
  principal := q.principal
  requestSequence := q.sequence
  requestDigest := request
  expectedGeneration := q.expectedGeneration
  newGeneration := s.publishedGeneration + 1
  rootDigest := q.candidateRoot
  policyDigest := q.policyDigest
  validationDigest := q.validationDigest
  committedNs := committedNs
  outboxTarget := q.outboxTarget

/-- The preparation of a publication. -/
def Publication.prepare (q : Publication D) (request : D) (admittedNs invocation : Nat) :
    PrepareRecord D where
  principal := q.principal
  requestSequence := q.sequence
  requestDigest := request
  expectedGeneration := q.expectedGeneration
  candidateRoot := q.candidateRoot
  policyDigest := q.policyDigest
  validationDigest := q.validationDigest
  outboxTarget := q.outboxTarget
  outboxPayload := q.outboxPayload
  admittedNs := admittedNs
  invocationId := invocation

/-- The state that remembers a durable preparation. -/
def Store.prepared (s : Store D C) (q : Publication D) (request : D)
    (prepareSequence : Nat) (prepareDigest : D) : Store D C :=
  { s with
    pending := some {
      principal := q.principal
      requestSequence := q.sequence
      prepareSequence
      prepareDigest
      requestDigest := request
      candidateRoot := q.candidateRoot
      reason := .recoveredUnresolved }
    principals := markPending q.principal q.sequence s.principals }

/-- `Store::publish`, up to the durable preparation: the receipt is staged, the preparation
written and flushed.  Answers the receipt's digest and where the preparation is. -/
def prepare (q : Publication D) (request : D) (invocation : Nat) : Engine D C (D × Nat × D) := do
  let committedNs ← now
  let s ← get
  let receipt := fmt.receiptBytes (s.receipt q request committedNs)
  let receiptDigest ← fun s =>
    match stage fmt [4] ObjectType.receipt.code receipt s with
    | .ok digest s => .ok digest s
    | .error _ s => .error StoreStatus.exhausted s
  let admittedNs ← now
  let s ← get
  let prepareSequence := s.nextSequence
  match ← append fmt (.prepare (q.prepare request admittedNs invocation)) with
  | none => refuseWrite
  | some prepareDigest =>
    let flushed ← flush
    ensure (flushed = true) .unavailable
    modify fun s => s.prepared q request prepareSequence prepareDigest
    return (receiptDigest, prepareSequence, prepareDigest)

/-- Writes one object of the closure, if it is not durable yet. -/
def writeIfMissing (m : Moment) (digest : D) : Engine D C Unit := do
  let s ← get
  match s.find digest with
  | none => return ()
  | some entry =>
    if entry.durable then return ()
    else
      let wrote ← writeObject fmt m entry
      if wrote then return () else refuseWrite

/-- `Store::publish`, the objects: every object the new root depends on that is not durable
yet, then the receipt, and a flush.  Answers how many were written. -/
def writeObjects (root receiptDigest : D) : Engine D C Nat := do
  let s ← get
  let .ok reachable := s.closure fmt [5] root | throw .notFound
  reachable.forM (writeIfMissing fmt [6])
  let ordinal := (s.missing reachable).length
  let s ← get
  let some receipt := s.find receiptDigest | throw .notFound
  writeIfMissing fmt [6] receiptDigest
  let flushed ← flush
  ensure (flushed = true) .unavailable
  return if receipt.durable then ordinal else ordinal + 1

/-- `COMMIT_CELLS`. -/
def commitCells : Nat := 2

/-- `Store::publish`, the commit: the record, its flush, and the version in memory. -/
def commit (q : Publication D) (request receiptDigest : D) (prepareSequence : Nat)
    (prepareDigest : D) (ordinal : Nat) : Engine D C Nat := do
  let s ← get
  ensure (commitCells ≤ s.room) .unavailable
  let committedNs ← now
  let s ← get
  let record : CommitRecord D := {
    prepareSequence
    prepareDigest
    newGeneration := s.publishedGeneration + 1
    rootDigest := q.candidateRoot
    policyDigest := q.policyDigest
    receiptDigest
    principal := q.principal
    requestSequence := q.sequence
    committedNs
    objectCount := ordinal }
  match ← append fmt (.commit record) with
  | none => refuseWrite
  | some _ =>
    let flushed ← flush
    ensure (flushed = true) .unavailable
    modify fun s => (s.publishVersion record).settle (record.result request)
    return record.newGeneration

/-- `Store::publish`: carries out an admitted publication. -/
def publish (q : Publication D) (request : D) (invocation : Nat) : Engine D C Nat := do
  let (receiptDigest, prepareSequence, prepareDigest) ← prepare fmt q request invocation
  let ordinal ← writeObjects fmt q.candidateRoot receiptDigest
  commit fmt q request receiptDigest prepareSequence prepareDigest ordinal

/-- `Store::record_outbox`: records what a broker reported about an intent. -/
def recordOutbox (principal sequence : Nat) (request : D) (target : Nat) (status : OutboxStatus)
    (attempts : Nat) : Engine D C Bool := do
  let recordedNs ← now
  let s ← get
  let record : OutboxRecord D := {
    commitSequence := s.nextSequence - 1
    requestDigest := request
    principal
    requestSequence := sequence
    status
    attempts
    target
    recordedNs }
  match ← append fmt (.outbox record) with
  | none => return false
  | some _ =>
    let flushed ← flush
    if flushed then
      modify fun s => { s with results := setOutbox principal sequence status s.results }
      return true
    else return false

/-! ### Maintenance -/

/-- Adds the digests of one retained root's closure that are not there yet. -/
def addHeld (held reachable : List D) : List D :=
  held.foldl (fun acc d => if d ∉ acc ∧ acc.length < maxObjects then acc ++ [d] else acc) reachable

/-- What `compact` copies: the published root's closure and those of the retained roots. -/
def Store.copied (s : Store D C) : Except StoreStatus (List D) :=
  let published : Except StoreStatus (List D) :=
    if s.publishedGeneration = 0 then .ok []
    else
      match s.closure fmt [0] s.publishedRoot with
      | .ok reachable => .ok reachable
      | .error _ => .error .integrityFailed
  match published with
  | .error e => .error e
  | .ok reachable =>
    .ok ((s.retained.zipIdx 1).foldl (fun acc (entry, i) =>
      match s.closure fmt [i] entry.rootDigest with
      | .ok held => addHeld held acc
      | .error _ => acc) reachable)

/-- Copies one object into the new arena. -/
def copyObject (digest : D) : Engine D C Unit := do
  let s ← get
  let some entry := s.find digest | throw .integrityFailed
  let some content := s.load fmt [maxRetained + 1] entry | throw .integrityFailed
  let appended ← append fmt (.object entry.objectType digest content)
  ensure (appended.isSome = true) .integrityFailed
  modify fun t => { t with
    objects := updateEntry digest (fun e => { e with block := s.nextBlock, durable := true })
      t.objects }

/-- The state that appends to the other arena. -/
def Store.switched (s : Store D C) : Store D C :=
  let target := 1 - s.arena
  let start := absolute (if target = 0 then arena0StartBlock else arena1StartBlock)
  { s with
    compactionGeneration := s.compactionGeneration + 1
    arena := target
    arenaStart := start
    arenaBlocks := arenaBlockCount
    nextBlock := start }

/-- Whether an entry is one that only the old arena held. -/
def ObjectEntry.leftIn (start blocks : Nat) (entry : ObjectEntry D C) : Bool :=
  entry.durable && decide (start ≤ entry.block) && decide (entry.block < start + blocks)

/-- The superblock block the newest superblock is not in. -/
def otherSlot (slot : Nat) : Nat := if slot = superblockA then superblockB else superblockA

/-- The end of `compact`: the copies are flushed, and the superblock that names the new
arena is written and flushed. -/
def switchOver (oldSlot oldGeneration : Nat) : Engine D C Unit := do
  let flushed ← flush
  ensure (flushed = true) .unavailable
  let named ← writeSuperblock (otherSlot oldSlot) (oldGeneration + 1)
  ensure (named = true) .integrityFailed
  let flushed ← flush
  ensure (flushed = true) .unavailable
  modify fun s => { s with
    superblockSlot := otherSlot oldSlot
    superblockGeneration := oldGeneration + 1 }

/-- `Store::compact`: copies the reachable set into the other arena and switches to it. -/
def compact : Engine D C Nat := do
  let old ← get
  ensure (old.ready = true) .unavailable
  ensure (old.pending.isSome = false) .conflict
  match old.copied fmt with
  | .error e => throw e
  | .ok copied =>
    ensure (copied.length + 1 ≤ arenaBlockCount) .exhausted
    modify Store.switched
    let opened ← writeCheckpoint fmt old.arena
    if opened then
      copied.forM (copyObject fmt)
      switchOver old.superblockSlot old.superblockGeneration
      modify fun s => { s with
        objects := s.objects.filter fun entry =>
          !entry.leftIn old.arenaStart old.arenaBlocks }
      return copied.length
    else
      modify fun s => { s with
        arena := old.arena, arenaStart := old.arenaStart, arenaBlocks := old.arenaBlocks }
      throw .integrityFailed

/-- `Store::retain`. -/
def retain (root : D) (expiryNs : Nat) : Engine D C Nat := fun s =>
  if (s.find root).isNone then .error .notFound s
  else
    match s.retained.findIdx? fun entry => entry.rootDigest == root with
    | some index =>
      .ok s.retained.length
        { s with retained := s.retained.modify index fun entry => { entry with expiryNs } }
    | none =>
      if maxRetained ≤ s.retained.length then .error .exhausted s
      else
        .ok (s.retained.length + 1)
          { s with retained := s.retained ++ [{ rootDigest := root, expiryNs }] }

/-- `Store::release`. -/
def release (root : D) : Engine D C Nat := fun s =>
  match s.retained.findIdx? fun entry => entry.rootDigest == root with
  | none => .error .notFound s
  | some index =>
    .ok (s.retained.length - 1) { s with retained := s.retained.eraseIdx index }

end Thalyx.K4
