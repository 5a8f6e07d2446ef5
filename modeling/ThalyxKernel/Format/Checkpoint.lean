/-
The bytes of a checkpoint: `write_checkpoint` and `load_checkpoint` of `user/k4store`.

A checkpoint is a head with three counts, and then as many principals, results and retained
roots.  The writer builds it in a buffer of 1024 bytes and stops at the first entry there is
no room for; the reader is bounded by the tables it fills.  The two bounds are not the same:
the tables take up to 1184 bytes.  So what is written is read back, and it is written exactly
when the occupied entries happen to fit.
-/
import ThalyxKernel.Format.Pod

namespace Thalyx.Wire

open List Option

/-! ### The structures -/

structure PrincipalEntry where
  principal : UInt64
  highWater : UInt64
  pendingSequence : UInt64
  deriving DecidableEq

def PrincipalEntry.layout : Layout PrincipalEntry :=
  (Layout.u64.pair <| Layout.u64.pair Layout.u64).via
    ⟨fun e => (e.principal, e.highWater, e.pendingSequence), fun (p, h, s) => ⟨p, h, s⟩,
      fun _ => rfl, fun _ => rfl⟩

structure ResultEntry where
  principal : UInt64
  requestSequence : UInt64
  outcome : UInt32
  outboxStatus : UInt32
  generation : UInt64
  rootDigest : Digest
  requestDigest : Digest
  deriving DecidableEq

def ResultEntry.layout : Layout ResultEntry :=
  (Layout.u64.pair <| Layout.u64.pair <| Layout.u32.pair <| Layout.u32.pair <|
    Layout.u64.pair <| (Layout.array 32).pair <| Layout.array 32).via
    ⟨fun e => (e.principal, e.requestSequence, e.outcome, e.outboxStatus, e.generation,
        e.rootDigest, e.requestDigest),
      fun (p, s, o, b, g, r, q) => ⟨p, s, o, b, g, r, q⟩, fun _ => rfl, fun _ => rfl⟩

structure RetainedEntry where
  rootDigest : Digest
  expiryNs : UInt64
  deriving DecidableEq

def RetainedEntry.layout : Layout RetainedEntry :=
  ((Layout.array 32).pair Layout.u64).via
    ⟨fun e => (e.rootDigest, e.expiryNs), fun p => ⟨p.1, p.2⟩, fun _ => rfl, fun _ => rfl⟩

/-- The head of a checkpoint. -/
structure CheckpointRecord where
  publishedGeneration : UInt64
  publishedRoot : Digest
  publishedPolicy : Digest
  publishedReceipt : Digest
  principalCount : UInt64
  resultCount : UInt64
  retainedCount : UInt64
  objectCount : UInt64
  createdNs : UInt64
  sourceArena : UInt64
  compactionGeneration : UInt64
  deriving DecidableEq

def CheckpointRecord.layout : Layout CheckpointRecord :=
  (Layout.u64.pair <| (Layout.array 32).pair <| (Layout.array 32).pair <|
    (Layout.array 32).pair <| Layout.u64.pair <| Layout.u64.pair <| Layout.u64.pair <|
    Layout.u64.pair <| Layout.u64.pair <| Layout.u64.pair Layout.u64).via
    ⟨fun h => (h.publishedGeneration, h.publishedRoot, h.publishedPolicy, h.publishedReceipt,
        h.principalCount, h.resultCount, h.retainedCount, h.objectCount, h.createdNs,
        h.sourceArena, h.compactionGeneration),
      fun (g, r, p, v, n, m, k, o, c, s, x) => ⟨g, r, p, v, n, m, k, o, c, s, x⟩,
      fun _ => rfl, fun _ => rfl⟩

theorem CheckpointRecord.size_layout : CheckpointRecord.layout.size = 160 := rfl

theorem PrincipalEntry.size_layout : PrincipalEntry.layout.size = 24 := rfl

theorem ResultEntry.size_layout : ResultEntry.layout.size = 96 := rfl

theorem RetainedEntry.size_layout : RetainedEntry.layout.size = 40 := rfl

/-- What a checkpoint is made from and read back into: the fields and tables of a store.  A
principal of zero is an unused entry; the other two tables are as long as they are occupied. -/
structure Tables where
  publishedGeneration : UInt64
  publishedRoot : Digest
  publishedPolicy : Digest
  publishedReceipt : Digest
  compactionGeneration : UInt64
  principals : List PrincipalEntry
  results : List ResultEntry
  retained : List RetainedEntry
  deriving DecidableEq

/-- `MAX_PRINCIPALS`, `MAX_RESULTS` and `MAX_RETAINED`. -/
def maxPrincipals : Nat := 4
def maxResults : Nat := 8
def maxRetained : Nat := 4

/-- The entries of the principals in use. -/
def Tables.live (t : Tables) : List PrincipalEntry :=
  t.principals.filter fun entry => entry.principal != 0

/-- The bytes the entries in use take, with the head. -/
def Tables.size (t : Tables) : Nat :=
  160 + 24 * t.live.length + 96 * t.results.length + 40 * t.retained.length

/-! ### Writing -/

/-- One loop of the writer: the entries one after another, from `pos` on. -/
def writeAll {α : Type} (l : Layout α) : List α → Bytes → Nat → Except FormatError (Bytes × Nat)
  | [], out, pos => .ok (out, pos)
  | entry :: rest, out, pos => do
    let out ← writeTo l entry out pos
    writeAll l rest out (pos + l.size)

def Tables.head (t : Tables) (createdNs sourceArena : UInt64) : CheckpointRecord where
  publishedGeneration := t.publishedGeneration
  publishedRoot := t.publishedRoot
  publishedPolicy := t.publishedPolicy
  publishedReceipt := t.publishedReceipt
  principalCount := UInt64.ofNat t.live.length
  resultCount := UInt64.ofNat t.results.length
  retainedCount := UInt64.ofNat t.retained.length
  objectCount := 0
  createdNs := createdNs
  sourceArena := sourceArena
  compactionGeneration := t.compactionGeneration

/-- `write_checkpoint`, up to the record it appends: the body. -/
def writeCheckpoint (t : Tables) (createdNs sourceArena : UInt64) : Except FormatError Bytes := do
  let out ← writeTo CheckpointRecord.layout (t.head createdNs sourceArena)
    (List.replicate 1024 0) 0
  let (out, pos) ← writeAll PrincipalEntry.layout t.live out 160
  let (out, pos) ← writeAll ResultEntry.layout t.results out pos
  let (out, pos) ← writeAll RetainedEntry.layout t.retained out pos
  return out.take pos

/-! ### Reading -/

/-- One loop of the reader. -/
def readAll {α : Type} (l : Layout α) (bytes : Bytes) : Nat → Nat → Option (List α × Nat)
  | 0, pos => some ([], pos)
  | left + 1, pos => do
    let entry ← l.readFrom bytes pos
    let (rest, pos) ← readAll l bytes left (pos + l.size)
    return (entry :: rest, pos)

/-- `load_checkpoint`: the tables filled from a body. -/
def loadCheckpoint (body : Bytes) (t : Tables) : Option Tables := do
  let head ← CheckpointRecord.layout.readFrom body 0
  if maxPrincipals < head.principalCount.toNat ∨ maxResults < head.resultCount.toNat ∨
      maxRetained < head.retainedCount.toNat then none
  else
    let (principals, pos) ← readAll PrincipalEntry.layout body head.principalCount.toNat 160
    let (results, pos) ← readAll ResultEntry.layout body head.resultCount.toNat pos
    let (retained, _) ← readAll RetainedEntry.layout body head.retainedCount.toNat pos
    return {
      publishedGeneration := head.publishedGeneration
      publishedRoot := head.publishedRoot
      publishedPolicy := head.publishedPolicy
      publishedReceipt := head.publishedReceipt
      compactionGeneration := head.compactionGeneration
      principals := principals ++ t.principals.drop principals.length
      results
      retained }

/-! ### One loop of each -/

section Loop

variable {α : Type} (l : Layout α)

/-- The bytes of entries one after another. -/
def allBytes (entries : List α) : Bytes := entries.flatMap l.encode

end Loop

/-! ### The whole body -/

/-- The bytes of a checkpoint of these tables. -/
def Tables.bytes (t : Tables) (createdNs sourceArena : UInt64) : Bytes :=
  CheckpointRecord.layout.encode (t.head createdNs sourceArena) ++
    (allBytes PrincipalEntry.layout t.live ++ (allBytes ResultEntry.layout t.results ++
      allBytes RetainedEntry.layout t.retained))

/-- Tables no longer than a store's. -/
structure Tables.Sized (t : Tables) : Prop where
  principals : t.live.length ≤ maxPrincipals
  results : t.results.length ≤ maxResults
  retained : t.retained.length ≤ maxRetained

end Thalyx.Wire
