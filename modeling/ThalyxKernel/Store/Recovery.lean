/-
Formatting and recovery: the part of `user/k4store/src/state.rs` that brings the service
up from whatever is on the medium.

A recovery that answers `false` in the source throws here; nothing else is lost with the
status it throws, because its caller only looks at whether there was one.
-/
import ThalyxKernel.Store.Engine

namespace Thalyx.K4

variable {D C : Type} (fmt : Format D C)

/-- Refuses unless a step of the engine said yes. -/
def orRefuse (step : Engine D C Bool) : Engine D C Unit := do
  let said ← step
  ensure (said = true) .integrityFailed

/-- `Store::format`: writes a store where there is none. -/
def format (seed : Nat) : Engine D C Unit := do
  modify fun s => { s with
    storeEpoch := 1
    uuid := (seed, 1)
    arena := 0
    arenaStart := absolute arena0StartBlock
    arenaBlocks := arenaBlockCount
    nextBlock := absolute arena0StartBlock
    nextSequence := 1
    prevDigest := fmt.zero
    publishedGeneration := 0
    publishedRoot := fmt.zero }
  orRefuse (writeCheckpoint fmt 0)
  orRefuse flush
  modify fun s => { s with superblockGeneration := 1, superblockSlot := superblockA }
  orRefuse (writeSuperblock superblockA 1)
  orRefuse flush

/-- `Store::read_superblock`. -/
def Store.readSuperblock (s : Store D C) (slot : Nat) : Option (Superblock D) :=
  (s.disk.read [s.scanned] (absolute slot)).bind Block.parseSuperblock

/-- Which of the two superblocks `recover` goes on with, and the slot it was in. -/
def chooseSuperblock (a b : Option (Superblock D)) : Option (Superblock D × Nat) :=
  match a, b with
  | none, none => none
  | some one, none => some (one, superblockA)
  | none, some two => some (two, superblockB)
  | some one, some two =>
    if two.superblockGeneration ≤ one.superblockGeneration then some (one, superblockA)
    else some (two, superblockB)

theorem chooseSuperblock_eq_none {a b : Option (Superblock D)} :
    chooseSuperblock a b = none ↔ a = none ∧ b = none := by
  cases a <;> cases b <;> simp [chooseSuperblock]
  split <;> simp

/-- Where the active arena of a superblock starts, and how many blocks it has. -/
def Superblock.start (sb : Superblock D) : Nat :=
  absolute (if sb.activeArena = 0 then sb.arena0Start else sb.arena1Start)

def Superblock.blocks (sb : Superblock D) : Nat :=
  if sb.activeArena = 0 then sb.arena0Count else sb.arena1Count

/-- The state that goes on from a superblock. -/
def Store.fromSuperblock (s : Store D C) (sb : Superblock D) (slot : Nat) : Store D C :=
  { s with
    uuid := sb.storeUuid
    storeEpoch := sb.storeEpoch
    superblockGeneration := sb.superblockGeneration
    superblockSlot := slot
    arena := sb.activeArena
    arenaStart := sb.start
    arenaBlocks := sb.blocks
    checkpointSequence := sb.checkpointSequence
    durableThrough := sb.durableThrough }

/-- `Store::load_checkpoint`.  The entries come back into fresh tables. -/
def loadCheckpoint (head : CheckpointRecord D) : Engine D C Unit := do
  modify fun s => { s with
    publishedGeneration := head.publishedGeneration
    publishedRoot := head.publishedRoot
    publishedPolicy := head.publishedPolicy
    publishedReceipt := head.publishedReceipt
    compactionGeneration := head.compactionGeneration }
  ensure (head.principals.length ≤ maxPrincipals ∧ head.results.length ≤ maxResults ∧
    head.retained.length ≤ maxRetained) .integrityFailed
  modify fun s => { s with
    principals := head.principals ++ s.principals.drop head.principals.length
    results := head.results
    retained := head.retained }

section Replay

variable [DecidableEq D]

/-- Whether a record opens the log a superblock names. -/
def Record.opens (r : Record D C) (sb : Superblock D) : Bool :=
  decide (r.sequence = sb.checkpointSequence ∧ r.storeEpoch = sb.storeEpoch ∧
    r.arena = sb.activeArena)

/-- Whether a record is the one the log in this state says comes next. -/
def Store.expects (s : Store D C) (r : Record D C) : Bool :=
  decide (r.sequence = s.nextSequence ∧ r.storeEpoch = s.storeEpoch ∧ r.arena = s.arena ∧
    r.prevDigest = s.prevDigest)

/-- The state past a record. -/
def Store.pass (s : Store D C) (r : Record D C) : Store D C :=
  { s with
    nextBlock := s.nextBlock + 1
    nextSequence := s.nextSequence + 1
    prevDigest := fmt.recordDigest r
    scanned := s.scanned + 1 }

/-- Whether every object a commit's root names is here and durable. -/
def Store.dependable (s : Store D C) (m : Moment) (root : D) : Bool :=
  match s.closure fmt m root with
  | .error _ => false
  | .ok reachable => reachable.all fun d => (s.find d).any ObjectEntry.durable

/-- The digest `replay_record` files an abort's result under. -/
def Store.pendingRequest (s : Store D C) : D :=
  match s.pending with
  | some pending => pending.requestDigest
  | none => fmt.zero

/-- `Store::replay_record`, in the state past the record. -/
def replayRecord (payload : Payload D C) (block : Nat) : Engine D C Unit := fun s =>
  match payload with
  | .object objectType contentDigest content =>
    if objectMax < fmt.size content ∨ fmt.objectDigest objectType content ≠ contentDigest then
      .error .integrityFailed s
    else .ok () (s.adopt contentDigest objectType (fmt.size content) block)
  | .prepare record =>
    .ok () { s with
      pending := some {
        principal := record.principal
        requestSequence := record.requestSequence
        prepareSequence := s.nextSequence - 1
        prepareDigest := s.prevDigest
        requestDigest := record.requestDigest
        candidateRoot := record.candidateRoot
        reason := .recoveredUnresolved }
      principals := markPending record.principal record.requestSequence s.principals }
  | .commit record =>
    match s.pending with
    | none => .error .integrityFailed s
    | some pending =>
      if pending.prepareSequence ≠ record.prepareSequence ∨
          pending.prepareDigest ≠ record.prepareDigest then .error .integrityFailed s
      else if pending.candidateRoot ≠ record.rootDigest then .error .integrityFailed s
      else if !s.dependable fmt [s.scanned] record.rootDigest then
        .ok () { s with pending := some { pending with reason := .dependencyMissing } }
      else .ok () ((s.publishVersion record).settle (record.result pending.requestDigest))
  | .abort record => .ok () (s.settle (record.result fmt.zero (s.pendingRequest fmt)))
  | .outbox record =>
    .ok () { s with
      results := setOutbox record.principal record.requestSequence record.status s.results }
  | .checkpoint _ => .error .integrityFailed s
  | .malformed _ _ => .error .integrityFailed s

/-- The forward scan of `Store::replay`: the first block that is not the record this chain
says comes next ends the log, whatever it holds.  The arena bounds it. -/
def scan : Nat → Engine D C Unit
  | 0 => fun s => .ok () s
  | blocks + 1 => fun s =>
    match (s.disk.read [s.scanned] s.nextBlock).bind Block.parseRecord with
    | none => .ok () s
    | some r =>
      if !s.expects r then .ok () s
      else
        match replayRecord fmt r.payload s.nextBlock (s.pass fmt r) with
        | .error e s => .error e s
        | .ok () s => scan blocks s

variable {s : Store D C}

theorem replayRecord_frame {payload : Payload D C} {block : Nat} {t : Store D C}
    (h : replayRecord fmt payload block s = .ok () t) :
    t.disk = s.disk ∧ t.scanned = s.scanned ∧ t.nextBlock = s.nextBlock ∧
      t.nextSequence = s.nextSequence ∧ t.prevDigest = s.prevDigest ∧
      t.storeEpoch = s.storeEpoch ∧ t.arena = s.arena ∧ t.arenaStart = s.arenaStart ∧
      t.arenaBlocks = s.arenaBlocks ∧ t.clock = s.clock ∧ t.room = s.room ∧
      t.checkpointSequence = s.checkpointSequence ∧ t.superblockSlot = s.superblockSlot ∧
      t.superblockGeneration = s.superblockGeneration ∧ t.ready = s.ready := by
  cases payload with
  | object objectType contentDigest content =>
    unfold replayRecord at h
    dsimp only at h
    split at h
    · cases h
    · obtain ⟨-, rfl⟩ := EStateM.Result.ok.inj h
      unfold Store.adopt
      split
      · simp only [and_self]
      · split <;> simp only [and_self]
  | commit record =>
    unfold replayRecord at h
    dsimp only at h
    split at h
    · cases h
    · split at h
      · cases h
      · split at h
        · cases h
        · split at h <;> (obtain ⟨-, rfl⟩ := EStateM.Result.ok.inj h; simp [Store.settle,
            Store.publishVersion])
  | prepare record =>
    obtain ⟨-, rfl⟩ := EStateM.Result.ok.inj h
    simp only [and_self]
  | abort record =>
    obtain ⟨-, rfl⟩ := EStateM.Result.ok.inj h
    simp only [Store.settle, and_self]
  | outbox record =>
    obtain ⟨-, rfl⟩ := EStateM.Result.ok.inj h
    simp only [and_self]
  | checkpoint head => cases h
  | malformed kind bytes => cases h

theorem scan_record {blocks : Nat} {r : Record D C}
    (hread : s.disk.read [s.scanned] s.nextBlock = some (.record r))
    (hexpects : s.expects r = true) :
    scan fmt (blocks + 1) s
      = match replayRecord fmt r.payload s.nextBlock (s.pass fmt r) with
        | .error e t => .error e t
        | .ok () t => scan fmt blocks t := by
  conv_lhs => unfold scan
  rw [hread]
  simp only [Option.bind_some, Block.parseRecord, hexpects, Bool.not_true, Bool.false_eq_true,
    if_false]

theorem scan_stop {blocks : Nat}
    (h : ∀ r, (s.disk.read [s.scanned] s.nextBlock).bind Block.parseRecord = some r →
      s.expects r = false) : scan fmt (blocks + 1) s = .ok () s := by
  unfold scan
  cases hp : (s.disk.read [s.scanned] s.nextBlock).bind Block.parseRecord with
  | none => rfl
  | some r => simp only [h r hp, Bool.not_false, if_true]

/-- `Store::replay`, up to the forward scan: the checkpoint that opens the active arena. -/
def openLog (sb : Superblock D) : Engine D C Unit := do
  let s ← get
  match (s.disk.read [s.scanned] s.arenaStart).bind Block.parseRecord with
  | none => throw .integrityFailed
  | some r =>
    match r.payload with
    | .checkpoint head =>
      ensure (r.opens sb = true) .integrityFailed
      loadCheckpoint head
      modify fun s => { s with
        nextSequence := r.sequence + 1
        nextBlock := s.arenaStart + 1
        prevDigest := fmt.recordDigest r
        scanned := 1 }
    | _ => throw .integrityFailed

/-- `Store::replay`: rebuilds the state from the valid prefix of the active arena.  A prefix
shorter than what the superblock said was durable is refused. -/
def replay (sb : Superblock D) : Engine D C Unit := do
  openLog fmt sb
  let s ← get
  scan fmt (s.arenaBlocks - 1)
  let s ← get
  ensure (sb.durableThrough ≤ s.nextSequence - 1) .integrityFailed

/-- `Store::resolve_pending`: aborts, durably, a prepare recovery found unresolved. -/
def resolvePending : Engine D C Unit := do
  let s ← get
  match s.pending with
  | none => return ()
  | some pending =>
    let abortedNs ← now
    let record : AbortRecord D := {
      prepareSequence := pending.prepareSequence
      prepareDigest := pending.prepareDigest
      reason := pending.reason
      principal := pending.principal
      requestSequence := pending.requestSequence
      abortedNs }
    let appended ← append fmt (.abort record)
    ensure (appended.isSome = true) .integrityFailed
    orRefuse flush
    modify fun s => s.settle (record.result fmt.zero pending.requestDigest)

/-- What `recover` does with the replay's answer. -/
def replayOrRefuse (sb : Superblock D) : Engine D C Unit := fun s =>
  match replay fmt sb s with
  | .ok () s => .ok () s
  | .error e s => .error e { s with integrityFailed := true }

/-- What `recover` does with the superblock it chose, or without one. -/
def bringUp (seed : Nat) : Option (Superblock D × Nat) → Engine D C Unit
  | none => format fmt seed
  | some (sb, slot) => do
    modify fun s => s.fromSuperblock sb slot
    replayOrRefuse fmt sb
    resolvePending fmt

/-- The superblock `recover` goes on with in this state, and the slot it is in. -/
def Store.chosen (s : Store D C) : Option (Superblock D × Nat) :=
  chooseSuperblock (s.readSuperblock superblockA) (s.readSuperblock superblockB)

/-- `Store::recover`: brings the service up from whatever is on the medium. -/
def recover (seed : Nat) : Engine D C Unit := do
  let s ← get
  bringUp fmt seed s.chosen
  modify fun s => { s with ready := true }

end Replay

end Thalyx.K4
