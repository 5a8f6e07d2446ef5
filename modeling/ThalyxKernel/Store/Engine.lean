/-
The engine of the durable store: `user/k4store/src/state.rs`.

The functions here are the source's, over a state that is the source's `Store`.  A function
that may return an error, or `false`, is a computation that keeps the state it failed in,
because that is what the source's `&mut self` does; nothing is undone that the source does
not undo.

The index of objects is a fixed array of entries in the source, in which an entry is either
live or free; here it is the list of the live ones, no longer than the array.  An entry is
named by its digest, which is how every reader finds it.  A staged object's bytes are in its
entry, and the number of staging slots in use is counted apart from the entries, because a
slot is given back by the code that releases it and not by the entry's going.  The table of
principals keeps its unused entries, since a principal of zero names the first of them.

What a reader of the clock and of the control log would be told comes from outside the
store: `clock` holds the readings still to come and `room` the cells the log has free.
Counters nothing decides on, the notes a run leaves for its gate, and the harness's faults,
which a run without a directive never meets, are left out.
-/
import ThalyxKernel.Lib.Fallible
import ThalyxKernel.Lib.Walk
import ThalyxKernel.Store.Disk

namespace Thalyx.K4

variable {D C : Type}

/-- `ObjectEntry`, for a live entry. -/
structure ObjectEntry (D C : Type) where
  digest : D
  objectType : Nat
  length : Nat
  block : Nat
  durable : Bool
  stage : Option C
  pinned : Bool

/-- `Pending`, while it is live. -/
structure Pending (D : Type) where
  principal : Nat
  requestSequence : Nat
  prepareSequence : Nat
  prepareDigest : D
  requestDigest : D
  candidateRoot : D
  reason : AbortReason
  deriving DecidableEq, Repr

/-- `Store`. -/
structure Store (D C : Type) where
  disk : Disk D C
  clock : List Nat
  room : Nat
  uuid : Nat × Nat
  storeEpoch : Nat
  superblockGeneration : Nat
  superblockSlot : Nat
  arena : Nat
  arenaStart : Nat
  arenaBlocks : Nat
  nextBlock : Nat
  nextSequence : Nat
  prevDigest : D
  checkpointSequence : Nat
  durableThrough : Nat
  compactionGeneration : Nat
  publishedGeneration : Nat
  publishedRoot : D
  publishedPolicy : D
  publishedReceipt : D
  objects : List (ObjectEntry D C)
  stageUsed : Nat
  protectedDigests : List D
  principals : List PrincipalEntry
  results : List (ResultEntry D)
  resultNext : Nat
  retained : List (RetainedEntry D)
  pending : Option (Pending D)
  ready : Bool
  integrityFailed : Bool
  scanned : Nat

/-- A computation of the engine. -/
abbrev Engine (D C : Type) := EStateM StoreStatus (Store D C)

variable (fmt : Format D C)

/-- Refuses with `status` unless `p`. -/
def ensure (p : Prop) [Decidable p] (status : StoreStatus) : Engine D C Unit :=
  if p then pure () else throw status

theorem ensure_ok {p : Prop} [Decidable p] {status : StoreStatus} {s t : Store D C} {u : Unit}
    (h : ensure p status s = .ok u t) : p ∧ s = t := by
  unfold ensure at h
  split at h
  · rename_i hp
    exact ⟨hp, (EStateM.Result.ok.inj h).2⟩
  · cases h

/-- `Store::new`, over a medium. -/
def Store.new (disk : Disk D C) (clock : List Nat) (room : Nat) : Store D C where
  disk := disk
  clock := clock
  room := room
  uuid := (0, 0)
  storeEpoch := 0
  superblockGeneration := 0
  superblockSlot := superblockA
  arena := 0
  arenaStart := absolute arena0StartBlock
  arenaBlocks := arenaBlockCount
  nextBlock := absolute arena0StartBlock
  nextSequence := 1
  prevDigest := fmt.zero
  checkpointSequence := 0
  durableThrough := 0
  compactionGeneration := 0
  publishedGeneration := 0
  publishedRoot := fmt.zero
  publishedPolicy := fmt.zero
  publishedReceipt := fmt.zero
  objects := []
  stageUsed := 0
  protectedDigests := []
  principals := List.replicate maxPrincipals .zeroed
  results := []
  resultNext := 0
  retained := []
  pending := none
  ready := false
  integrityFailed := false
  scanned := 0

/-! ### The medium -/

/-- `k2::now_ns`. -/
def now : Engine D C Nat := fun s =>
  .ok (s.clock.headD 0) { s with clock := s.clock.tail }

/-- `Store::flush`. -/
def flush : Engine D C Bool := fun s =>
  .ok s.disk.flush.1 { s with disk := s.disk.flush.2 }

/-- The record `append` frames in this state. -/
def Store.frame (s : Store D C) (payload : Payload D C) : Record D C where
  sequence := s.nextSequence
  storeEpoch := s.storeEpoch
  arena := s.arena
  prevDigest := s.prevDigest
  payload := payload

/-- `Store::append`: frames a record, writes it and advances the log.  No payload the store
builds is longer than a block, so framing does not refuse. -/
def append (payload : Payload D C) : Engine D C (Option D) := fun s =>
  if s.arenaStart + s.arenaBlocks ≤ s.nextBlock then .ok none s
  else
    match s.disk.write s.nextBlock (.record (s.frame payload)) with
    | (false, disk) => .ok none { s with disk }
    | (true, disk) =>
      .ok (some (fmt.recordDigest (s.frame payload)))
        { s with
          disk
          nextBlock := s.nextBlock + 1
          nextSequence := s.nextSequence + 1
          prevDigest := fmt.recordDigest (s.frame payload) }

/-- `Store::write_failure`. -/
def Store.writeFailure (s : Store D C) : StoreStatus :=
  if s.disk.unreachable then .unavailable else .integrityFailed

/-- Refuses with what a failed write says. -/
def refuseWrite {α : Type} : Engine D C α := do
  let s ← get
  throw s.writeFailure

/-- `Store::free_blocks`. -/
def Store.freeBlocks (s : Store D C) : Nat := s.arenaStart + s.arenaBlocks - s.nextBlock

/-! ### The object index -/

section Index

variable [DecidableEq D]

/-- `Store::find`. -/
def Store.find (s : Store D C) (digest : D) : Option (ObjectEntry D C) :=
  s.objects.find? fun entry => entry.digest == digest

/-- The index with every entry of that digest changed by `f`. -/
def updateEntry (digest : D) (f : ObjectEntry D C → ObjectEntry D C)
    (objects : List (ObjectEntry D C)) : List (ObjectEntry D C) :=
  objects.map fun entry => if entry.digest = digest then f entry else entry

/-- `Store::load`: an object's content, out of its staging slot or read back from the medium
and verified against its digest. -/
def Store.load (s : Store D C) (m : Moment) (entry : ObjectEntry D C) : Option C :=
  match entry.stage with
  | some content => some content
  | none =>
    if !entry.durable then none
    else
      match (s.disk.read m entry.block).bind Block.parseRecord with
      | some ⟨_, _, _, _, .object objectType _ content⟩ =>
        if fmt.size content = entry.length ∧
            fmt.objectDigest objectType content = entry.digest then some content
        else none
      | _ => none

/-- `Store::read_object`. -/
def Store.readObject (s : Store D C) (m : Moment) (digest : D) : Option (Nat × C) := do
  let entry ← s.find digest
  let content ← s.load fmt m entry
  return (entry.objectType, content)

/-- Why a closure could not be walked: an object could not be loaded, which is what
`closure_incomplete` records, or an object is missing, malformed, or one too many. -/
inductive Unwalked where
  | unread | broken
  deriving DecidableEq, Repr

/-- The digests an object names. -/
def Store.named (s : Store D C) (m : Moment) (entry : ObjectEntry D C) :
    Except Unwalked (List D) :=
  if entry.objectType = ObjectType.manifest.code then
    match s.load fmt m entry with
    | none => .error .unread
    | some content =>
      match fmt.readManifest content with
      | none => .error .broken
      | some manifest =>
        .ok [manifest.treeDigest, manifest.policyDigest, manifest.validationDigest]
  else if entry.objectType = ObjectType.tree.code then
    match s.load fmt m entry with
    | none => .error .unread
    | some content =>
      match fmt.decodeTree content with
      | none => .error .broken
      | some bindings => .ok (bindings.map Binding.digest)
  else .ok []

/-- The children of one object, all of which have to be in the index. -/
def Store.children (s : Store D C) (m : Moment) (digest : D) : Except Unwalked (List D) :=
  match s.find digest with
  | none => .error .broken
  | some entry =>
    match s.named fmt m entry with
    | .error e => .error e
    | .ok digests =>
      let children := digests.filter fun d => decide (d ≠ fmt.zero)
      if children.all fun d => (s.find d).isSome then .ok children else .error .broken

/-- `Store::closure`: every object reachable from `root`. -/
def Store.closure (s : Store D C) (m : Moment) (root : D) : Except Unwalked (List D) :=
  match s.find root with
  | none => .error .broken
  | some _ => walk (s.children fmt m) .broken maxObjects (2 * maxObjects) [root] 1 []

/-- The digests `reclaim_staged` keeps on account of one root. -/
def Store.keptBy (s : Store D C) (m : Moment) (root : D) : List D :=
  if root = fmt.zero then []
  else
    match s.closure fmt m root with
    | .ok reachable => reachable
    | .error _ => if (s.find root).isSome then [root] else []

/-- Whether `reclaim_staged` keeps an entry, given the digests still nameable. -/
def ObjectEntry.keeps (kept : List D) (entry : ObjectEntry D C) : Bool :=
  entry.durable || entry.pinned || decide (entry.digest ∈ kept)

/-- `Store::reclaim_staged`: frees staging held by objects nothing can still name. -/
def Store.reclaimStaged (s : Store D C) (m : Moment) : Store D C :=
  let roots := s.publishedRoot :: (s.retained.map RetainedEntry.rootDigest ++ s.protectedDigests)
  let kept := roots.zipIdx.flatMap fun (root, i) => s.keptBy fmt (i :: m) root
  let freed := s.objects.filter fun entry => !entry.keeps kept
  { s with
    objects := s.objects.filter (ObjectEntry.keeps kept)
    stageUsed := s.stageUsed - (freed.filter fun entry => entry.stage.isSome).length }

/-- Neither a staging slot nor an index entry is free. -/
def Store.crowded (s : Store D C) : Bool :=
  decide (maxStaged ≤ s.stageUsed) || decide (maxObjects ≤ s.objects.length)

/-- The state with a new staged object. -/
def Store.stageEntry (s : Store D C) (digest : D) (objectType length : Nat) (content : C) :
    Store D C :=
  { s with
    stageUsed := s.stageUsed + 1
    objects := s.objects ++ [{
        digest
        objectType
        length
        block := 0
        durable := false
        stage := some content
        pinned := true }] }

/-- `Store::stage`: stages an object's canonical bytes and returns its content digest. -/
def stage (m : Moment) (objectType : Nat) (content : C) : Engine D C D := do
  ensure (fmt.size content ≤ objectMax) .tooLarge
  let digest := fmt.objectDigest objectType content
  let s ← get
  if (s.find digest).isSome then return digest
  else
    modify fun s => if s.crowded then s.reclaimStaged fmt m else s
    let s ← get
    ensure (s.crowded = false) .exhausted
    set (s.stageEntry digest objectType (fmt.size content) content)
    return digest

/-- `Store::adopt`: records an object that is already on the medium. -/
def Store.adopt (s : Store D C) (digest : D) (objectType length block : Nat) : Store D C :=
  if (s.find digest).isSome then
    { s with objects :=
        updateEntry digest (fun entry => { entry with durable := true, block }) s.objects }
  else if maxObjects ≤ s.objects.length then s
  else
    { s with objects := s.objects ++ [{
        digest
        objectType
        length
        block
        durable := true
        stage := none
        pinned := false }] }

/-- The state in which an object has been written to a block and its staging slot, if it
had one, given back. -/
def Store.written (s : Store D C) (entry : ObjectEntry D C) (block : Nat) : Store D C :=
  { s with
    stageUsed := s.stageUsed - (if entry.stage.isSome then 1 else 0)
    objects := updateEntry entry.digest
      (fun e => { e with durable := true, block, stage := none }) s.objects }

/-- `Store::write_object`: writes one object as a record. -/
def writeObject (m : Moment) (entry : ObjectEntry D C) : Engine D C Bool := do
  let s ← get
  match s.load fmt m entry with
  | none => return false
  | some content =>
    if fmt.size content ≠ entry.length then return false
    else
      match ← append fmt (.object entry.objectType entry.digest content) with
      | none => return false
      | some _ =>
        modify fun t => t.written entry s.nextBlock
        return true

/-- `Store::unpin`. -/
def Store.unpin (s : Store D C) : Store D C :=
  { s with objects := s.objects.map fun entry => { entry with pinned := false } }

end Index

/-! ### Principals and results -/

/-- `Store::principal_slot`, over the table alone: the entry's position, and the table with
the entry taken if it was free. -/
def principalSlot (principal : Nat) (table : List PrincipalEntry) :
    Option (Nat × List PrincipalEntry) :=
  match table.findIdx? fun entry => entry.principal == principal with
  | some index => some (index, table)
  | none =>
    match table.findIdx? fun entry => entry.principal == 0 with
    | none => none
    | some index => some (index, table.modify index fun entry => { entry with principal })

/-- The table with one principal's entry changed, if it has or can get one. -/
def withPrincipal (principal : Nat) (f : PrincipalEntry → PrincipalEntry)
    (table : List PrincipalEntry) : List PrincipalEntry :=
  match principalSlot principal table with
  | some (index, table) => table.modify index f
  | none => table

/-- What a durable preparation does to its principal's entry. -/
def markPending (principal sequence : Nat) : List PrincipalEntry → List PrincipalEntry :=
  withPrincipal principal fun entry => { entry with pendingSequence := sequence }

/-- What an outcome does to its principal's entry. -/
def markResolved (principal sequence : Nat) : List PrincipalEntry → List PrincipalEntry :=
  withPrincipal principal fun entry =>
    { entry with highWater := sequence, pendingSequence := 0 }

/-- Whether an entry is the result of a request. -/
def ResultEntry.isFor (principal sequence : Nat) (entry : ResultEntry D) : Bool :=
  entry.principal == principal && entry.requestSequence == sequence

/-- `Store::result_for`. -/
def resultFor (results : List (ResultEntry D)) (principal sequence : Nat) :
    Option (ResultEntry D) :=
  results.find? (ResultEntry.isFor principal sequence)

/-- `Store::record_result`, over the table and its ring cursor alone. -/
def recordResult (entry : ResultEntry D) (results : List (ResultEntry D)) (next : Nat) :
    List (ResultEntry D) × Nat :=
  match results.findIdx? (ResultEntry.isFor entry.principal entry.requestSequence) with
  | some index => (results.set index entry, next)
  | none =>
    if results.length < maxResults then (results ++ [entry], next)
    else (results.set next entry, (next + 1) % maxResults)

/-- What `record_outbox` and the replay of an `OUTBOX` record do to the results. -/
def setOutbox (principal sequence : Nat) (status : OutboxStatus)
    (results : List (ResultEntry D)) : List (ResultEntry D) :=
  match results.findIdx? (ResultEntry.isFor principal sequence) with
  | some index => results.modify index fun entry => { entry with outboxStatus := status }
  | none => results

/-- The state with one result recorded and its principal's request resolved. -/
def Store.settle (s : Store D C) (entry : ResultEntry D) : Store D C :=
  { s with
    results := (recordResult entry s.results s.resultNext).1
    resultNext := (recordResult entry s.results s.resultNext).2
    principals := markResolved entry.principal entry.requestSequence s.principals
    pending := none }

/-- The result a commit leaves. -/
def CommitRecord.result (record : CommitRecord D) (requestDigest : D) : ResultEntry D where
  principal := record.principal
  requestSequence := record.requestSequence
  outcome := .committed
  outboxStatus := .none
  generation := record.newGeneration
  rootDigest := record.rootDigest
  requestDigest := requestDigest

/-- The result an abort leaves. -/
def AbortRecord.result (record : AbortRecord D) (zero requestDigest : D) : ResultEntry D where
  principal := record.principal
  requestSequence := record.requestSequence
  outcome := .aborted
  outboxStatus := .none
  generation := 0
  rootDigest := zero
  requestDigest := requestDigest

/-- The state with a commit's version published. -/
def Store.publishVersion (s : Store D C) (record : CommitRecord D) : Store D C :=
  { s with
    publishedGeneration := record.newGeneration
    publishedRoot := record.rootDigest
    publishedPolicy := record.policyDigest
    publishedReceipt := record.receiptDigest }

/-! ### Checkpoints and superblocks -/

/-- The checkpoint of this state. -/
def Store.checkpoint (s : Store D C) (createdNs sourceArena : Nat) : CheckpointRecord D where
  publishedGeneration := s.publishedGeneration
  publishedRoot := s.publishedRoot
  publishedPolicy := s.publishedPolicy
  publishedReceipt := s.publishedReceipt
  createdNs := createdNs
  sourceArena := sourceArena
  compactionGeneration := s.compactionGeneration
  principals := s.principals.filter fun entry => entry.principal != 0
  results := s.results
  retained := s.retained

/-- Bytes of a checkpoint and of its entries. -/
def CheckpointRecord.size (head : CheckpointRecord D) : Nat :=
  160 + 24 * head.principals.length + 96 * head.results.length + 40 * head.retained.length

/-- `Store::write_checkpoint`: writes the checkpoint that opens the active arena.  The body
is built in 1024 bytes, and an entry that does not fit refuses. -/
def writeCheckpoint (sourceArena : Nat) : Engine D C Bool := do
  let createdNs ← now
  let s ← get
  if 1024 < (s.checkpoint createdNs sourceArena).size then return false
  else
    modify fun s => { s with prevDigest := fmt.zero }
    match ← append fmt (.checkpoint (s.checkpoint createdNs sourceArena)) with
    | none => return false
    | some _ =>
      modify fun t => { t with checkpointSequence := s.nextSequence }
      return true

/-- The superblock `write_superblock` builds in this state. -/
def Store.superblock (s : Store D C) (generation : Nat) : Superblock D where
  storeUuid := s.uuid
  storeEpoch := s.storeEpoch
  superblockGeneration := generation
  activeArena := s.arena
  arena0Start := arena0StartBlock
  arena0Count := arenaBlockCount
  arena1Start := arena1StartBlock
  arena1Count := arenaBlockCount
  checkpointSequence := s.checkpointSequence
  durableThrough := s.nextSequence - 1
  publishedGeneration := s.publishedGeneration
  publishedRoot := s.publishedRoot

/-- `Store::write_superblock`. -/
def writeSuperblock (slot generation : Nat) : Engine D C Bool := fun s =>
  match s.disk.write (absolute slot) (.superblock (s.superblock generation)) with
  | (false, disk) => .ok false { s with disk }
  | (true, disk) => .ok true { s with disk, durableThrough := s.nextSequence - 1 }

end Thalyx.K4
