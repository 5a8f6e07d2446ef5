/-
What the durable store keeps on its medium.

The medium of `user/k4store` is an array of blocks.  Two of them may hold a superblock, the
others hold records, one to a block.  A record is framed with its sequence, the store's
epoch, its arena and the digest of the record before it, and is believed only if its own
digest verifies; so a block is modelled by what its bytes parse to, and bytes that parse to
nothing are all alike.  A payload whose decoder refuses it, or of a kind the store does not
know, is `malformed`: every reader refuses it.

What `user/k4fmt` does with bytes, digests and decoders, is the structure `Format`.  Its
laws are that SHA-256 has no collision and no preimage of zero.  The contents of objects are
an arbitrary type, so nothing below depends on how a decoder reads them.
-/
import ThalyxKernel.Format.Object

namespace Thalyx.K4

/-! ### The geometry of the medium -/

/-- `geometry::STORE_BASE_BLOCK`. -/
def storeBaseBlock : Nat := 64

/-- `geometry::SUPERBLOCK_A_BLOCK` and `SUPERBLOCK_B_BLOCK`. -/
def superblockA : Nat := 0
def superblockB : Nat := 1

/-- `geometry::ARENA0_START_BLOCK`, `ARENA1_START_BLOCK` and `ARENA_BLOCK_COUNT`. -/
def arena0StartBlock : Nat := 2
def arena1StartBlock : Nat := 258
def arenaBlockCount : Nat := 256

/-- `absolute`: the device block of a store block index. -/
def absolute (index : Nat) : Nat := storeBaseBlock + index

def maxObjects : Nat := 40
def maxStaged : Nat := 24
def maxProtected : Nat := 40
def objectMax : Nat := 3072
def maxPrincipals : Nat := 4
def maxResults : Nat := 8
def maxRetained : Nat := 4
def closureReserveBlocks : Nat := 4
def compactionReserveBlocks : Nat := 8

/-! ### Records -/

/-- `abort_reason`. -/
inductive AbortReason where
  | none | recoveredUnresolved | dependencyMissing | serviceRefused | exhausted
  deriving DecidableEq, Repr

/-- `outbox_status`. -/
inductive OutboxStatus where
  | none | pending | delivered | unknown | refused
  deriving DecidableEq, Repr

/-- `result_outcome`. -/
inductive ResultOutcome where
  | neverSeen | committed | aborted | unknown | resultExpired | pending
  deriving DecidableEq, Repr

/-- `PrincipalEntry`. -/
structure PrincipalEntry where
  principal : Nat
  highWater : Nat
  pendingSequence : Nat
  deriving DecidableEq, Repr

/-- `PrincipalEntry::zeroed`. -/
def PrincipalEntry.zeroed : PrincipalEntry := ⟨0, 0, 0⟩

variable {D C : Type}

/-- `ResultEntry`. -/
structure ResultEntry (D : Type) where
  principal : Nat
  requestSequence : Nat
  outcome : ResultOutcome
  outboxStatus : OutboxStatus
  generation : Nat
  rootDigest : D
  requestDigest : D
  deriving DecidableEq, Repr

/-- `RetainedEntry`. -/
structure RetainedEntry (D : Type) where
  rootDigest : D
  expiryNs : Nat
  deriving DecidableEq, Repr

/-- `CheckpointRecord`, with the entries that follow it. -/
structure CheckpointRecord (D : Type) where
  publishedGeneration : Nat
  publishedRoot : D
  publishedPolicy : D
  publishedReceipt : D
  createdNs : Nat
  sourceArena : Nat
  compactionGeneration : Nat
  principals : List PrincipalEntry
  results : List (ResultEntry D)
  retained : List (RetainedEntry D)
  deriving DecidableEq, Repr

/-- `PrepareRecord`. -/
structure PrepareRecord (D : Type) where
  principal : Nat
  requestSequence : Nat
  requestDigest : D
  expectedGeneration : Nat
  candidateRoot : D
  policyDigest : D
  validationDigest : D
  outboxTarget : Nat
  outboxPayload : D
  admittedNs : Nat
  invocationId : Nat
  deriving DecidableEq, Repr

/-- `CommitRecord`. -/
structure CommitRecord (D : Type) where
  prepareSequence : Nat
  prepareDigest : D
  newGeneration : Nat
  rootDigest : D
  policyDigest : D
  receiptDigest : D
  principal : Nat
  requestSequence : Nat
  committedNs : Nat
  objectCount : Nat
  deriving DecidableEq, Repr

/-- `AbortRecord`. -/
structure AbortRecord (D : Type) where
  prepareSequence : Nat
  prepareDigest : D
  reason : AbortReason
  principal : Nat
  requestSequence : Nat
  abortedNs : Nat
  deriving DecidableEq, Repr

/-- `OutboxRecord`. -/
structure OutboxRecord (D : Type) where
  commitSequence : Nat
  requestDigest : D
  principal : Nat
  requestSequence : Nat
  status : OutboxStatus
  attempts : Nat
  target : Nat
  recordedNs : Nat
  deriving DecidableEq, Repr

/-- A record's payload, by what it decodes to.  An object carries the digest its header
claims beside the content it holds. -/
inductive Payload (D C : Type) where
  | checkpoint (head : CheckpointRecord D)
  | object (objectType : Nat) (contentDigest : D) (content : C)
  | prepare (record : PrepareRecord D)
  | commit (record : CommitRecord D)
  | abort (record : AbortRecord D)
  | outbox (record : OutboxRecord D)
  | malformed (kind : Nat) (bytes : Bytes)
  deriving DecidableEq, Repr

/-- A record that parses: `RecordHeader` and the payload.  Its digest is the one its
header holds, and is computed from the rest. -/
structure Record (D C : Type) where
  sequence : Nat
  storeEpoch : Nat
  arena : Nat
  prevDigest : D
  payload : Payload D C
  deriving DecidableEq, Repr

/-- `StoreSuperblock`, the fields a reader uses. -/
structure Superblock (D : Type) where
  storeUuid : Nat × Nat
  storeEpoch : Nat
  superblockGeneration : Nat
  activeArena : Nat
  arena0Start : Nat
  arena0Count : Nat
  arena1Start : Nat
  arena1Count : Nat
  checkpointSequence : Nat
  durableThrough : Nat
  publishedGeneration : Nat
  publishedRoot : D
  deriving DecidableEq, Repr

/-- What a block's bytes parse to. -/
inductive Block (D C : Type) where
  | superblock (sb : Superblock D)
  | record (r : Record D C)
  | other
  deriving DecidableEq, Repr

/-- `parse_superblock`. -/
def Block.parseSuperblock : Block D C → Option (Superblock D)
  | .superblock sb => some sb
  | _ => none

/-- `parse_record`. -/
def Block.parseRecord : Block D C → Option (Record D C)
  | .record r => some r
  | _ => none

@[simp] theorem Block.parseRecord_eq_some {b : Block D C} {r : Record D C} :
    b.parseRecord = some r ↔ b = .record r := by
  cases b <;> simp [Block.parseRecord]

@[simp] theorem Block.parseSuperblock_eq_some {b : Block D C} {sb : Superblock D} :
    b.parseSuperblock = some sb ↔ b = .superblock sb := by
  cases b <;> simp [Block.parseSuperblock]

/-! ### The format -/

/-- The inputs `request_digest` is computed over. -/
structure RequestInputs (D : Type) where
  principal : Nat
  sequence : Nat
  expectedGeneration : Nat
  candidateRoot : D
  policyDigest : D
  validationDigest : D
  outboxTarget : Nat
  outboxPayload : D
  deriving DecidableEq, Repr

/-- `user/k4fmt`: digests, encoders and decoders over contents of type `C`. -/
structure Format (D C : Type) where
  /-- `object_digest`: the type, as the integer the header holds, is in the preimage. -/
  objectDigest : Nat → C → D
  /-- `record_digest`, over the whole header and the payload. -/
  recordDigest : Record D C → D
  /-- `request_digest`. -/
  requestDigest : RequestInputs D → D
  /-- Thirty-two zero bytes: the digest written where there is none. -/
  zero : D
  /-- The length of a content. -/
  size : C → Nat
  /-- The bytes of a content from an offset on, as many as are asked for. -/
  slice : C → Nat → Nat → C
  /-- `Manifest::read_from`, `decode_tree`, `Policy::read_from`, `Validation::read_from`. -/
  readManifest : C → Option (Manifest D)
  decodeTree : C → Option (List (Binding D))
  readPolicy : C → Option (Policy D)
  readValidation : C → Option (Validation D)
  /-- `Manifest::as_bytes`, `Receipt::as_bytes`, `encode_tree`. -/
  manifestBytes : Manifest D → C
  receiptBytes : Receipt D → C
  encodeTree : Nat → List (Binding D) → Except FormatError C
  objectDigest_inj : ∀ {t t' : Nat} {c c' : C},
    objectDigest t c = objectDigest t' c' → t = t' ∧ c = c'
  recordDigest_inj : ∀ {r r' : Record D C}, recordDigest r = recordDigest r' → r = r'
  requestDigest_inj : ∀ {q q' : RequestInputs D}, requestDigest q = requestDigest q' → q = q'
  recordDigest_ne_zero : ∀ r : Record D C, recordDigest r ≠ zero

/-! ### A format of that kind

The symbolic one: contents are what they decode to, and a digest is its whole preimage. -/

instance : Encode AbortReason :=
  Encode.ofInjective AbortReason.ctorIdx fun a b h => by cases a <;> cases b <;> first | rfl | cases h

instance : Encode OutboxStatus :=
  Encode.ofInjective OutboxStatus.ctorIdx fun a b h => by cases a <;> cases b <;> first | rfl | cases h

instance : Encode ResultOutcome :=
  Encode.ofInjective ResultOutcome.ctorIdx fun a b h => by
    cases a <;> cases b <;> first | rfl | cases h

instance : Encode PrincipalEntry :=
  Encode.ofInjective (fun e => (e.principal, e.highWater, e.pendingSequence)) fun a b h => by
    cases a; cases b; simpa using h

instance [Encode D] : Encode (ResultEntry D) :=
  Encode.ofInjective (fun e => (e.principal, e.requestSequence, e.outcome, e.outboxStatus,
    e.generation, e.rootDigest, e.requestDigest)) fun a b h => by
    cases a; cases b; simpa using h

instance [Encode D] : Encode (RetainedEntry D) :=
  Encode.ofInjective (fun e => (e.rootDigest, e.expiryNs)) fun a b h => by
    cases a; cases b; simpa using h

instance [Encode D] : Encode (CheckpointRecord D) :=
  Encode.ofInjective (fun r => (r.publishedGeneration, r.publishedRoot, r.publishedPolicy,
    r.publishedReceipt, r.createdNs, r.sourceArena, r.compactionGeneration, r.principals,
    r.results, r.retained)) fun a b h => by
    cases a; cases b; simpa using h

instance [Encode D] : Encode (PrepareRecord D) :=
  Encode.ofInjective (fun r => (r.principal, r.requestSequence, r.requestDigest,
    r.expectedGeneration, r.candidateRoot, r.policyDigest, r.validationDigest, r.outboxTarget,
    r.outboxPayload, r.admittedNs, r.invocationId)) fun a b h => by
    cases a; cases b; simpa using h

instance [Encode D] : Encode (CommitRecord D) :=
  Encode.ofInjective (fun r => (r.prepareSequence, r.prepareDigest, r.newGeneration,
    r.rootDigest, r.policyDigest, r.receiptDigest, r.principal, r.requestSequence,
    r.committedNs, r.objectCount)) fun a b h => by
    cases a; cases b; simpa using h

instance [Encode D] : Encode (AbortRecord D) :=
  Encode.ofInjective (fun r => (r.prepareSequence, r.prepareDigest, r.reason, r.principal,
    r.requestSequence, r.abortedNs)) fun a b h => by
    cases a; cases b; simpa using h

instance [Encode D] : Encode (OutboxRecord D) :=
  Encode.ofInjective (fun r => (r.commitSequence, r.requestDigest, r.principal,
    r.requestSequence, r.status, r.attempts, r.target, r.recordedNs)) fun a b h => by
    cases a; cases b; simpa using h

instance [Encode D] : Encode (RequestInputs D) :=
  Encode.ofInjective (fun q => (q.principal, q.sequence, q.expectedGeneration, q.candidateRoot,
    q.policyDigest, q.validationDigest, q.outboxTarget, q.outboxPayload)) fun a b h => by
    cases a; cases b; simpa using h

/-- Which kind a payload is, and its fields. -/
def Payload.symbol [Encode D] [Encode C] : Payload D C → Nat × Symbol
  | .checkpoint head => (1, Encode.encode head)
  | .object objectType contentDigest content =>
    (2, Encode.encode (objectType, contentDigest, content))
  | .prepare record => (3, Encode.encode record)
  | .commit record => (4, Encode.encode record)
  | .abort record => (5, Encode.encode record)
  | .outbox record => (6, Encode.encode record)
  | .malformed kind bytes => (7, Encode.encode (kind, bytes))

theorem Payload.symbol_injective [Encode D] [Encode C] :
    Function.Injective (Payload.symbol (D := D) (C := C)) := by
  intro a b h
  cases a <;> cases b <;> first
    | (cases Encode.injective (congrArg Prod.snd h); rfl)
    | exact absurd (congrArg Prod.fst h) (by simp [Payload.symbol])

instance [Encode D] [Encode C] : Encode (Payload D C) :=
  Encode.ofInjective Payload.symbol Payload.symbol_injective

instance [Encode D] [Encode C] : Encode (Record D C) :=
  Encode.ofInjective (fun r => (r.sequence, r.storeEpoch, r.arena, r.prevDigest, r.payload))
    fun a b h => by cases a; cases b; simpa using h

end Thalyx.K4

namespace Thalyx

/-! The decoders of contents, which are what they decode to. -/

def Content.asManifest {D : Type} : Content D → Option (Manifest D)
  | .manifest m => some m
  | _ => none

def Content.asTree {D : Type} : Content D → Option (List (Binding D))
  | .tree entries => some entries
  | _ => none

def Content.asPolicy {D : Type} : Content D → Option (Policy D)
  | .policy p => some p
  | _ => none

def Content.asValidation {D : Type} : Content D → Option (Validation D)
  | .validation v => some v
  | _ => none

/-- The part of a content from an offset on: the whole of it, or bytes of no structure. -/
def Content.slice {D : Type} (c : Content D) (offset length : Nat) : Content D :=
  if offset = 0 ∧ c.length ≤ length then c
  else
    match c with
    | .raw bytes => .raw ((bytes.drop offset).take length)
    | _ => .raw []

/-- The format over terms. -/
def K4.symbolicFormat : K4.Format Symbol (Content Symbol) where
  objectDigest t c := .pair (.atom 1) (.pair (.atom t) (Encode.encode c))
  recordDigest r := .pair (.atom 2) (Encode.encode r)
  requestDigest q := .pair (.atom 3) (Encode.encode q)
  zero := .atom 0
  size := Content.length
  slice := Content.slice
  readManifest := Content.asManifest
  decodeTree := Content.asTree
  readPolicy := Content.asPolicy
  readValidation := Content.asValidation
  manifestBytes := .manifest
  receiptBytes := .receipt
  encodeTree := Thalyx.encodeTree
  objectDigest_inj := by
    intro t t' c c' h
    simp only [Symbol.pair.injEq, Symbol.atom.injEq, true_and] at h
    exact ⟨h.1, Encode.injective h.2⟩
  recordDigest_inj := by
    intro r r' h
    exact Encode.injective (Symbol.pair.inj h).2
  requestDigest_inj := by
    intro q q' h
    exact Encode.injective (Symbol.pair.inj h).2
  recordDigest_ne_zero := by
    intro r h
    cases h

end Thalyx
