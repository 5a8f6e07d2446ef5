/-
Whether the state of a store can be written down: `write_checkpoint` and `load_checkpoint` of
`user/k4store`, over the stores of every run.

The tables of a run stay within their arrays, and the reader takes whatever the arrays take.
The writer's buffer does not: a checkpoint of full tables is 1184 bytes and the buffer is 1024,
so a store that remembers too much cannot be compacted any more, and the medium has no part
in that.
-/
import ThalyxKernel.Format.Checkpoint
import ThalyxKernel.Store.Standing
import ThalyxKernel.Store.Upkeep

namespace Thalyx.K4

open List

variable {D C : Type}

/-- `result_outcome`. -/
def ResultOutcome.code : ResultOutcome → UInt32
  | .neverSeen => 0
  | .committed => 1
  | .aborted => 2
  | .unknown => 3
  | .resultExpired => 4
  | .pending => 5

/-- `outbox_status`. -/
def OutboxStatus.code : OutboxStatus → UInt32
  | .none => 0
  | .pending => 1
  | .delivered => 2
  | .unknown => 3
  | .refused => 4

namespace Store

/-- The entries of the principals in use. -/
def live (s : Store D C) : List PrincipalEntry :=
  s.principals.filter fun entry => entry.principal != 0

/-- These tables are the store's, in the words the machine has for them. -/
structure InWords (bytesOf : D → Wire.Digest) (s : Store D C) (t : Wire.Tables) : Prop where
  publishedGeneration : t.publishedGeneration.toNat = s.publishedGeneration
  publishedRoot : t.publishedRoot = bytesOf s.publishedRoot
  publishedPolicy : t.publishedPolicy = bytesOf s.publishedPolicy
  publishedReceipt : t.publishedReceipt = bytesOf s.publishedReceipt
  compactionGeneration : t.compactionGeneration.toNat = s.compactionGeneration
  principals : List.Forall₂ (fun entry (word : Wire.PrincipalEntry) =>
    word.principal.toNat = entry.principal ∧ word.highWater.toNat = entry.highWater ∧
      word.pendingSequence.toNat = entry.pendingSequence) s.principals t.principals
  results : List.Forall₂ (fun entry (word : Wire.ResultEntry) =>
    word.principal.toNat = entry.principal ∧ word.requestSequence.toNat = entry.requestSequence ∧
      word.outcome = entry.outcome.code ∧ word.outboxStatus = entry.outboxStatus.code ∧
      word.generation.toNat = entry.generation ∧ word.rootDigest = bytesOf entry.rootDigest ∧
      word.requestDigest = bytesOf entry.requestDigest) s.results t.results
  retained : List.Forall₂ (fun entry (word : Wire.RetainedEntry) =>
    word.rootDigest = bytesOf entry.rootDigest ∧ word.expiryNs.toNat = entry.expiryNs)
    s.retained t.retained

variable {bytesOf : D → Wire.Digest} {t : Wire.Tables}

theorem InWords.live {s : Store D C} (h : s.InWords bytesOf t) : t.live.length = s.live.length := by
  have hprincipals := h.principals
  unfold Wire.Tables.live Store.live
  generalize s.principals = entries at hprincipals ⊢
  generalize t.principals = words at hprincipals ⊢
  induction hprincipals with
  | nil => rfl
  | @cons entry word entries words hword _ ih =>
    have hused : (word.principal != 0) = (entry.principal != 0) := by
      rw [← hword.1]
      rw [Bool.eq_iff_iff, bne_iff_ne, bne_iff_ne]
      exact not_congr UInt64.toNat_inj.symm
    rw [filter_cons, filter_cons, hused]
    split
    · rw [length_cons, length_cons, ih]
    · exact ih

/-- The bytes of a checkpoint of this store. -/
def checkpointSize (s : Store D C) : Nat :=
  160 + 24 * s.live.length + 96 * s.results.length + 40 * s.retained.length

theorem InWords.size {s : Store D C} (h : s.InWords bytesOf t) : t.size = s.checkpointSize := by
  unfold Wire.Tables.size checkpointSize
  rw [h.live, ← h.results.length_eq, ← h.retained.length_eq]

/-- The record a checkpoint is written as: it links to nothing. -/
def checkpointRecord (fmt : Format D C) (s : Store D C) (sourceArena : Nat) : Record D C :=
  { s.frame (.checkpoint (s.checkpoint (s.clock.headD 0) sourceArena)) with prevDigest := fmt.zero }

end Store

variable {fmt : Format D C} {s : Store D C}

/-! ### The writer -/

/-- The tables are within their arrays. -/
structure Store.Bounded (s : Store D C) : Prop where
  principals : s.principals.length ≤ maxPrincipals
  results : s.results.length ≤ maxResults
  retained : s.retained.length ≤ maxRetained

theorem Store.Bounded.live (h : s.Bounded) : s.live.length ≤ maxPrincipals :=
  (length_filter_le _ _).trans h.principals

/-- A checkpoint of this store is written, and gives back what it was made from: as the record
that is appended, and as the bytes of its body. -/
structure Store.Recorded (fmt : Format D C) (bytesOf : D → Wire.Digest) (s : Store D C)
    (sourceArena : Nat) : Prop where
  written : ∃ t, writeCheckpoint fmt sourceArena s = .ok true t ∧
    t.disk = (s.disk.write s.nextBlock (.record (s.checkpointRecord fmt sourceArena))).2
  /-- Read into a store that has no principals yet. -/
  restored : ∀ u : Store D C, (∀ entry ∈ u.principals, entry.principal = 0) →
    ∃ v, loadCheckpoint (s.checkpoint (s.clock.headD 0) sourceArena) u = .ok () v ∧
      v.publishedGeneration = s.publishedGeneration ∧ v.publishedRoot = s.publishedRoot ∧
      v.publishedPolicy = s.publishedPolicy ∧ v.publishedReceipt = s.publishedReceipt ∧
      v.compactionGeneration = s.compactionGeneration ∧ v.live = s.live ∧
      v.results = s.results ∧ v.retained = s.retained
  encoded : ∀ t : Wire.Tables, s.InWords bytesOf t → ∀ createdNs source : UInt64,
    ∃ body, Wire.writeCheckpoint t createdNs source = .ok body ∧
      ∀ held : Wire.Tables, held.live = [] → ∃ back, Wire.loadCheckpoint body held = some back ∧
        back.live = t.live ∧ { back with principals := t.principals } = t

end Thalyx.K4
