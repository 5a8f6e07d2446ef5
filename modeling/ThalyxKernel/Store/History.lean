/-
The history a log tells.

A record names the record before it by its digest, and digests have no collision, so a
record has at most one history: what the log holds below it is settled by the record alone,
wherever the record lies and whatever has been written over the rest.  A history is kept
here newest first, down to the checkpoint that opens it.

The state a history leaves is its ledger: what `replay_record` makes of the records, one
after the other, once it has accepted them.  Which records the store may add to a history is
`Admissible`, and a chain is a history every record of which was admissible where it stands.
What one run allows beyond that is its `Rules`.
-/
import ThalyxKernel.Store.Recovery

namespace Thalyx.K4

variable {D C : Type} (fmt : Format D C)

/-! ### Histories -/

/-- A record that comes right after another. -/
structure Follows (r p : Record D C) : Prop where
  prevDigest : r.prevDigest = fmt.recordDigest p
  sequence : r.sequence = p.sequence + 1
  storeEpoch : r.storeEpoch = p.storeEpoch
  arena : r.arena = p.arena
  inner : ∀ head, r.payload ≠ .checkpoint head

/-- Records that follow one another down to a checkpoint, newest first. -/
inductive History : List (Record D C) → Prop where
  | opened {r : Record D C} {head : CheckpointRecord D} (h : r.payload = .checkpoint head) :
      History [r]
  | next {r p : Record D C} {h : List (Record D C)} (below : History (p :: h))
      (follows : Follows fmt r p) : History (r :: p :: h)

variable {fmt}
variable {h : List (Record D C)}

/-- **A record has one history.** -/
theorem History.unique {r : Record D C} {h' : List (Record D C)} (hh : History fmt (r :: h))
    (hh' : History fmt (r :: h')) : h = h' := by
  induction h generalizing r h' with
  | nil =>
    cases hh with
    | opened hopen =>
      cases hh' with
      | opened _ => rfl
      | next _ follows => exact absurd hopen (follows.inner _)
  | cons p h ih =>
    cases hh with
    | next below follows =>
      cases hh' with
      | opened hopen => exact absurd hopen (follows.inner _)
      | @next _ p' h' below' follows' =>
        have hp : p = p' :=
          fmt.recordDigest_inj (follows.prevDigest.symm.trans follows'.prevDigest)
        subst hp
        rw [ih below below']

theorem History.tail {r p : Record D C}
    (hh : History fmt (r :: p :: h)) : History fmt (p :: h) := by
  cases hh with
  | next below _ => exact below

theorem History.sequence_eq (hh : History fmt h) {r first : Record D C} (hr : h.head? = some r)
    (hfirst : h.getLast? = some first) : r.sequence + 1 = first.sequence + h.length := by
  induction hh generalizing r with
  | opened _ =>
    cases hr
    cases hfirst
    rfl
  | @next r' p h below follows ih =>
    cases hr
    rw [List.getLast?_cons_cons] at hfirst
    have := ih rfl hfirst
    rw [follows.sequence, List.length_cons]
    omega

/-! ### Ledgers -/

/-- What a log says: the tables and the version it leaves. -/
structure Ledger (D : Type) where
  generation : Nat
  root : D
  policy : D
  receipt : D
  principals : List PrincipalEntry
  results : List (ResultEntry D)
  next : Nat
  pending : Option (Pending D)

/-- The same of a store's memory. -/
def Store.ledger (s : Store D C) : Ledger D where
  generation := s.publishedGeneration
  root := s.publishedRoot
  policy := s.publishedPolicy
  receipt := s.publishedReceipt
  principals := s.principals
  results := s.results
  next := s.resultNext
  pending := s.pending

namespace Ledger

/-- A result recorded and its principal's request resolved. -/
def settle (l : Ledger D) (entry : ResultEntry D) : Ledger D :=
  { l with
    results := (recordResult entry l.results l.next).1
    next := (recordResult entry l.results l.next).2
    principals := markResolved entry.principal entry.requestSequence l.principals
    pending := none }

/-- A commit's version published. -/
def publish (l : Ledger D) (record : CommitRecord D) : Ledger D :=
  { l with
    generation := record.newGeneration
    root := record.rootDigest
    policy := record.policyDigest
    receipt := record.receiptDigest }

/-- A request prepared. -/
def prepare (l : Ledger D) (pending : Pending D) : Ledger D :=
  { l with
    pending := some pending
    principals := markPending pending.principal pending.requestSequence l.principals }

/-- The digest an outcome is filed under. -/
def pendingRequest (l : Ledger D) (zero : D) : D :=
  match l.pending with
  | some pending => pending.requestDigest
  | none => zero

end Ledger

/-- The tables a checkpoint fills. -/
def CheckpointRecord.ledger (head : CheckpointRecord D) : Ledger D where
  generation := head.publishedGeneration
  root := head.publishedRoot
  policy := head.publishedPolicy
  receipt := head.publishedReceipt
  principals := head.principals ++
    List.replicate (maxPrincipals - head.principals.length) .zeroed
  results := head.results
  next := 0
  pending := none

/-- What a durable preparation leaves pending. -/
def PrepareRecord.pending (record : PrepareRecord D) (sequence : Nat) (digest : D) :
    Pending D where
  principal := record.principal
  requestSequence := record.requestSequence
  prepareSequence := sequence
  prepareDigest := digest
  requestDigest := record.requestDigest
  candidateRoot := record.candidateRoot
  reason := .recoveredUnresolved

variable (fmt)

/-- The ledger after one more record. -/
def Ledger.step (l : Ledger D) (r : Record D C) : Ledger D :=
  match r.payload with
  | .checkpoint head => head.ledger
  | .object .. => l
  | .prepare record => l.prepare (record.pending r.sequence (fmt.recordDigest r))
  | .commit record => (l.publish record).settle (record.result (l.pendingRequest fmt.zero))
  | .abort record => l.settle (record.result fmt.zero (l.pendingRequest fmt.zero))
  | .outbox record =>
    { l with
      results := setOutbox record.principal record.requestSequence record.status l.results }
  | .malformed .. => l

/-- A ledger with nothing in it. -/
def Ledger.empty : Ledger D where
  generation := 0
  root := fmt.zero
  policy := fmt.zero
  receipt := fmt.zero
  principals := List.replicate maxPrincipals .zeroed
  results := []
  next := 0
  pending := none

/-- The ledger a history leaves. -/
def ledger : List (Record D C) → Ledger D
  | [] => Ledger.empty fmt
  | r :: h => (ledger h).step fmt r

/-! ### The objects a history holds -/

/-- The digest of the object a record is of. -/
def Record.objectDigest? (r : Record D C) : Option D :=
  match r.payload with
  | .object _ digest _ => some digest
  | _ => none

/-- A record of an object. -/
def Record.IsObject (r : Record D C) : Prop := r.objectDigest?.isSome

/-- The digests of the objects a history holds. -/
def objectDigests (h : List (Record D C)) : List D := h.filterMap Record.objectDigest?

/-- The history holds no more objects than the index has room for. -/
def Fits (h : List (Record D C)) : Prop :=
  ∃ ds : List D, ds.Nodup ∧ ds.length ≤ maxObjects ∧ objectDigests h ⊆ ds

/-- The digests a content names, by the type of its object. -/
def names (objectType : Nat) (content : C) : Option (List D) :=
  if objectType = ObjectType.manifest.code then
    (fmt.readManifest content).map fun manifest =>
      [manifest.treeDigest, manifest.policyDigest, manifest.validationDigest]
  else if objectType = ObjectType.tree.code then
    (fmt.decodeTree content).map fun bindings => bindings.map Binding.digest
  else some []

section Contents

variable [DecidableEq D]

/-- The object of that digest, if the record is of it. -/
def Record.objectOf (digest : D) (r : Record D C) : Option (Nat × C) :=
  match r.payload with
  | .object objectType d content => if d = digest then some (objectType, content) else none
  | _ => none

/-- An object of a history. -/
def objectIn (h : List (Record D C)) (digest : D) : Option (Nat × C) :=
  h.findSome? (Record.objectOf digest)

/-- The children of one object of a history, all of which have to be there as well. -/
def childrenIn (h : List (Record D C)) (digest : D) : Except Unwalked (List D) :=
  match objectIn h digest with
  | none => .error .broken
  | some (objectType, content) =>
    match names fmt objectType content with
    | none => .error .broken
    | some digests =>
      let children := digests.filter fun d => decide (d ≠ fmt.zero)
      if children.all fun d => (objectIn h d).isSome then .ok children else .error .broken

/-- A history holds everything reachable from a root. -/
def Complete (h : List (Record D C)) (root : D) : Prop :=
  ∃ reachable, walk (childrenIn fmt h) .broken maxObjects (2 * maxObjects) [root] 1 []
    = .ok reachable

/-! ### Chains -/

/-- What a run lets be prepared and committed, by what the log says so far, and whether
nothing but objects is ever left unflushed in it. -/
structure Rules (D : Type) where
  prepare : Ledger D → PrepareRecord D → Prop
  commit : Ledger D → CommitRecord D → Prop
  tidy : Prop

/-- A commit of what is pending. -/
structure CommitRecord.Resolves (record : CommitRecord D) (pending : Pending D) : Prop where
  prepareSequence : pending.prepareSequence = record.prepareSequence
  prepareDigest : pending.prepareDigest = record.prepareDigest
  root : pending.candidateRoot = record.rootDigest
  principal : pending.principal = record.principal
  requestSequence : pending.requestSequence = record.requestSequence

/-- An abort of what is pending. -/
structure AbortRecord.Resolves (record : AbortRecord D) (pending : Pending D) : Prop where
  prepareSequence : pending.prepareSequence = record.prepareSequence
  prepareDigest : pending.prepareDigest = record.prepareDigest
  principal : pending.principal = record.principal
  requestSequence : pending.requestSequence = record.requestSequence

/-- A record the store may add to a history. -/
def Admissible (rules : Rules D) (h : List (Record D C)) (r : Record D C) : Prop :=
  match r.payload with
  | .checkpoint _ => False
  | .object objectType digest content =>
    fmt.size content ≤ objectMax ∧ fmt.objectDigest objectType content = digest ∧ Fits (r :: h)
  | .prepare record => record.principal ≠ 0 ∧ rules.prepare (ledger fmt h) record
  | .commit record =>
    (∃ pending, (ledger fmt h).pending = some pending ∧ record.Resolves pending) ∧
      Complete fmt h record.rootDigest ∧ rules.commit (ledger fmt h) record
  | .abort record => ∃ pending, (ledger fmt h).pending = some pending ∧ record.Resolves pending
  | .outbox _ => True
  | .malformed .. => False

/-- The principals a table gives entries to. -/
def taken (table : List PrincipalEntry) : List Nat :=
  (table.map PrincipalEntry.principal).filter fun p => p != 0

/-- A checkpoint whose tables are the store's. -/
structure CheckpointRecord.Sized (head : CheckpointRecord D) : Prop where
  principals : head.principals.length ≤ maxPrincipals
  distinct : (taken head.principals).Nodup
  named : ∀ entry ∈ head.principals, entry.principal ≠ 0
  results : head.results.length ≤ maxResults
  retained : head.retained.length ≤ maxRetained

/-- A history every record of which was admissible where it stands. -/
inductive Chain (rules : Rules D) : List (Record D C) → Prop where
  | opened {r : Record D C} {head : CheckpointRecord D} (h : r.payload = .checkpoint head)
      (sized : head.Sized) : Chain rules [r]
  | next {r p : Record D C} {h : List (Record D C)} (below : Chain rules (p :: h))
      (follows : Follows fmt r p) (admissible : Admissible fmt rules (p :: h) r) :
      Chain rules (r :: p :: h)

variable {fmt} {rules : Rules D} {h : List (Record D C)} {r p : Record D C}

theorem Chain.history (hc : Chain fmt rules h) : History fmt h := by
  induction hc with
  | opened h _ => exact .opened h
  | next _ follows _ ih => exact .next ih follows

theorem Chain.tail (hc : Chain fmt rules (r :: p :: h)) : Chain fmt rules (p :: h) := by
  cases hc with
  | next below _ _ => exact below

theorem Chain.ne_nil (hc : Chain fmt rules h) : h ≠ [] := by
  cases hc <;> simp

/-- **What a record of a chain does to the ledger**, and what it needed there. -/
inductive Moves (fmt : Format D C) (rules : Rules D) (l : Ledger D) (r : Record D C) :
    Ledger D → Prop where
  | object (is : r.IsObject) : Moves fmt rules l r l
  | prepare {record : PrepareRecord D} (payload : r.payload = .prepare record)
      (named : record.principal ≠ 0) (rule : rules.prepare l record) :
      Moves fmt rules l r (l.prepare (record.pending r.sequence (fmt.recordDigest r)))
  | commit {record : CommitRecord D} {pending : Pending D} (payload : r.payload = .commit record)
      (pends : l.pending = some pending) (resolves : record.Resolves pending)
      (rule : rules.commit l record) :
      Moves fmt rules l r ((l.publish record).settle (record.result pending.requestDigest))
  | abort {record : AbortRecord D} {pending : Pending D} (payload : r.payload = .abort record)
      (pends : l.pending = some pending) (resolves : record.Resolves pending) :
      Moves fmt rules l r (l.settle (record.result fmt.zero pending.requestDigest))
  | outbox {record : OutboxRecord D} (payload : r.payload = .outbox record) :
      Moves fmt rules l r { l with
        results := setOutbox record.principal record.requestSequence record.status l.results }

theorem Chain.moves (hc : Chain fmt rules (r :: p :: h)) :
    Moves fmt rules (ledger fmt (p :: h)) r (ledger fmt (r :: p :: h)) := by
  cases hc with
  | next below follows hadm =>
    show Moves fmt rules (ledger fmt (p :: h)) r ((ledger fmt (p :: h)).step fmt r)
    unfold Admissible at hadm
    unfold Ledger.step
    cases hp : r.payload with
    | checkpoint head => exact absurd hp (follows.inner head)
    | object objectType digest content =>
      refine .object ?_
      unfold Record.IsObject Record.objectDigest?
      rw [hp]
      rfl
    | prepare record =>
      rw [hp] at hadm
      exact .prepare hp hadm.1 hadm.2
    | commit record =>
      rw [hp] at hadm
      obtain ⟨⟨pending, hpending, hresolves⟩, -, hrule⟩ := hadm
      have hrequest : (ledger fmt (p :: h)).pendingRequest fmt.zero = pending.requestDigest := by
        unfold Ledger.pendingRequest
        rw [hpending]
      dsimp only
      rw [hrequest]
      exact .commit hp hpending hresolves hrule
    | abort record =>
      rw [hp] at hadm
      obtain ⟨pending, hpending, hresolves⟩ := hadm
      have hrequest : (ledger fmt (p :: h)).pendingRequest fmt.zero = pending.requestDigest := by
        unfold Ledger.pendingRequest
        rw [hpending]
      dsimp only
      rw [hrequest]
      exact .abort hp hpending hresolves
    | outbox record => exact .outbox hp
    | malformed kind bytes =>
      rw [hp] at hadm
      exact hadm.elim

end Contents

end Thalyx.K4
