/-
What one call does to a store that stands on its log.

Most calls change what is staged, what is retained, or which principals have an entry, and
nothing else.  A publication that is carried out, and a compaction, change the log; what
they may leave is said in `Does`, which every property of runs is proved from.  A compaction
that stopped may leave the memory in an arena no superblock names; the medium is sound
then, but the store no longer stands on its log.
-/
import ThalyxKernel.Store.Resuming
import ThalyxKernel.Store.System

namespace Thalyx.K4

open Fallible Service

variable {D C : Type} {fmt : Format D C} [DecidableEq D] {rules : Rules D} {P : Ledger D → Prop}
  {s t u : Store D C} {hf h hf' h' : List (Record D C)}

/-! ### Stores that stand on their log, or went astray -/

/-- The memory is in an arena that its superblock does not name.  Where the rules keep the
log tidy, what recovery would adopt is the log all the same. -/
structure Astray (fmt : Format D C) (rules : Rules D) (P : Ledger D → Prop) (s : Store D C)
    (hf h : List (Record D C)) : Prop where
  medium : Medium fmt rules P s.disk.device
  astray : s.anchored = false
  still : rules.tidy → s.disk.down = false → ∃ s0 : Store D C,
    s0.disk.device = s.disk.device ∧ Standing fmt rules P s0 hf h

/-- A store that stands on its log, or went astray. -/
def Holding (fmt : Format D C) (rules : Rules D) (P : Ledger D → Prop) (s : Store D C)
    (hf h : List (Record D C)) : Prop :=
  Lodged fmt rules P s hf h ∨ Astray fmt rules P s hf h

theorem Holding.medium (hh : Holding fmt rules P s hf h) : Medium fmt rules P s.disk.device := by
  rcases hh with hl | ha
  · exact hl.standing.medium
  · exact ha.medium

theorem Holding.lodged (hh : Holding fmt rules P s hf h) (ha : s.anchored = true) :
    Lodged fmt rules P s hf h := by
  rcases hh with hl | hastray
  · exact hl
  · rw [hastray.astray] at ha
    cases ha

theorem Lodged.atEnd_iff (hl : Lodged fmt rules P s hf h) :
    s.atEnd = true ↔ s.nextBlock = s.arenaStart + h.length := by
  unfold Store.atEnd
  rw [beq_iff_eq, hl.standing.nextSequence_eq]
  omega

theorem Holding.live (hh : Holding fmt rules P s hf h) (ha : s.anchored = true)
    (he : s.atEnd = true) : Live fmt rules P s hf h :=
  (hh.lodged ha).live ((hh.lodged ha).atEnd_iff.mp he)

theorem Live.lastPayload (hl : Live fmt rules P s hf h) :
    s.lastPayload = h.head?.map Record.payload := by
  obtain ⟨r, below, rfl⟩ := List.exists_cons_of_ne_nil hl.ready.standing.chain.ne_nil
  unfold Store.lastPayload
  rw [hl.ready.atEnd.nextBlock, List.length_cons, ← Nat.add_assoc, Nat.add_sub_cancel,
    hl.ready.standing.placed.1]
  rfl

theorem Adrift.astray_of (hs : Standing fmt rules P s hf h) (ha : Adrift fmt rules P s hf h t) :
    Astray fmt rules P t hf h := by
  obtain ⟨sb, hheld, harena⟩ := ha.held
  refine ⟨ha.medium, ?_, fun ht hd => ⟨{ s with disk := t.disk }, rfl, ha.still ht hd⟩⟩
  have hle := hs.arena_le
  have hastray := ha.astray.2
  unfold Store.anchored
  rw [hheld.read_eq]
  simp only [harena, beq_eq_false_iff_ne, ne_eq]
  omega

/-! ### Calls that leave the log alone -/

/-- The log is as it was. -/
structure Quiet (fmt : Format D C) (s t : Store D C) : Prop where
  log : SameLog s t
  disk : t.disk = s.disk
  indexes : ∀ start h, Indexes fmt start s.objects h → Indexes fmt start t.objects h
  retained : s.retained.length ≤ maxRetained → t.retained.length ≤ maxRetained
  ready : t.ready = s.ready

/-- The tables are as they were, but that a principal may have taken an entry. -/
def Allotted (p : Nat) (s t : Store D C) : Prop :=
  t.ledger = s.ledger ∨
    ∃ i table, principalSlot p s.principals = some (i, table) ∧
      t.ledger = { s.ledger with principals := table }

omit [DecidableEq D] in
theorem Quiet.refl (s : Store D C) : Quiet fmt s s :=
  ⟨SameLog.refl s, rfl, fun _ _ => id, id, rfl⟩

omit [DecidableEq D] in
theorem SameLog.trans (h : SameLog s t) (h' : SameLog t u) : SameLog s u :=
  ⟨h'.device.trans h.device, h'.storeEpoch.trans h.storeEpoch,
    h'.superblockGeneration.trans h.superblockGeneration,
    h'.superblockSlot.trans h.superblockSlot, h'.arena.trans h.arena,
    h'.arenaStart.trans h.arenaStart, h'.arenaBlocks.trans h.arenaBlocks,
    h'.nextBlock.trans h.nextBlock, h'.nextSequence.trans h.nextSequence,
    h'.prevDigest.trans h.prevDigest, h'.checkpointSequence.trans h.checkpointSequence⟩

omit [DecidableEq D] in
theorem Staging.quiet (h : Staging fmt s t) : Quiet fmt s t :=
  ⟨h.log, h.disk, h.indexes, fun hr => h.kept.retained ▸ hr, h.kept.ready⟩

omit [DecidableEq D] in
theorem SameLog.anchored_eq (h : SameLog s t) : t.anchored = s.anchored := by
  unfold Store.anchored
  rw [h.device, h.superblockSlot, h.arena]

theorem Holding.quiet (hh : Holding fmt rules P s hf h) (hq : Quiet fmt s t) :
    Holding fmt rules P t hf h := by
  rcases hh with hl | ha
  · refine .inl ⟨hl.standing.of_same hq.log, ?_, hl.neat.of_disk hq.disk, fun he => ?_⟩
    · rw [hq.log.arenaStart]
      exact hq.indexes _ h hl.indexes
    · rw [hq.log.nextBlock, hq.log.arenaStart] at he
      exact (hl.atEnd he).of_same hq.log
  · refine .inr ⟨hq.log.device ▸ ha.medium, hq.log.anchored_eq.trans ha.astray, fun ht hd => ?_⟩
    rw [hq.disk] at hd
    obtain ⟨s0, hdevice, hs⟩ := ha.still ht hd
    exact ⟨s0, hdevice.trans hq.log.device.symm, hs⟩

omit [DecidableEq D] in
theorem Store.Sized.allotted {p : Nat} (hs : s.Sized) (hp : p ≠ 0) (hq : Quiet fmt s t)
    (ha : Allotted p s t) : t.Sized := by
  refine ⟨?_, hq.retained hs.retained⟩
  rcases ha with hledger | ⟨i, table, hslot, hledger⟩
  · exact hledger ▸ hs.ledger
  · rw [hledger]
    refine ⟨?_, hs.ledger.results, hs.ledger.pending⟩
    rw [principalSlot_table hslot]
    exact hs.ledger.principals.withPrincipal (fun _ => rfl) hp

/-! ### Admission -/

/-- What it takes for a publication to be admitted. -/
structure Admitted (fmt : Format D C) (q : Publication D) (s : Store D C) (request : D)
    (u : Store D C) : Prop where
  request : request = fmt.requestDigest q.inputs
  slot : ∃ i table, principalSlot q.principal s.principals = some (i, table) ∧
    u = { s with principals := table } ∧
    q.sequence = (table.getD i .zeroed).highWater + 1 ∧
    ((table.getD i .zeroed).pendingSequence = 0 ∨
      (table.getD i .zeroed).pendingSequence = q.sequence)
  generation : q.expectedGeneration = s.publishedGeneration
  room : closureReserveBlocks + compactionReserveBlocks ≤ s.freeBlocks

variable {request : D}

theorem Store.sequenceRule_ok {entry : PrincipalEntry} {principal sequence : Nat}
    (h : s.sequenceRule entry principal sequence request = .ok ()) :
    sequence = entry.highWater + 1 ∧
      (entry.pendingSequence = 0 ∨ entry.pendingSequence = sequence) := by
  unfold Store.sequenceRule at h
  split at h
  · cases h
  · rename_i hpending
    split at h
    · split at h
      · split at h <;> cases h
      · cases h
    · split at h
      · cases h
      · rename_i hnext
        refine ⟨by simpa using hnext, ?_⟩
        by_cases h0 : entry.pendingSequence = 0
        · exact .inl h0
        · exact .inr (by simpa [h0] using hpending)

variable {q : Publication D}

theorem Store.candidateRule_version (h : s.candidateRule fmt q = .ok ()) :
    ∃ reachable, s.closure fmt [1] q.candidateRoot = .ok reachable ∧
      s.versionRule q reachable = .ok () := by
  unfold Store.candidateRule at h
  split at h
  · cases hm : s.manifestRule fmt q _ with
    | error e =>
      rw [hm] at h
      cases h
    | ok manifest =>
      rw [hm] at h
      dsimp only [bind, Except.bind] at h
      split at h
      · rename_i reachable hclosure
        cases hpolicy : s.policyRule fmt q with
        | error e =>
          rw [hpolicy] at h
          cases h
        | ok policy =>
          rw [hpolicy] at h
          change (s.evidenceRule fmt q manifest policy >>= fun _ =>
            s.versionRule q reachable) = _ at h
          cases hevidence : s.evidenceRule fmt q manifest policy with
          | error e =>
            rw [hevidence] at h
            cases h
          | ok _ =>
            rw [hevidence] at h
            exact ⟨reachable, hclosure, h⟩
      · cases h
  · cases h

theorem Store.versionRule_ok {reachable : List D}
    (h : s.versionRule q reachable = .ok ()) : q.expectedGeneration = s.publishedGeneration ∧
      (s.missing reachable).length + 3 + (closureReserveBlocks + compactionReserveBlocks)
        ≤ s.freeBlocks := by
  unfold Store.versionRule at h
  dsimp only at h
  split at h
  · cases h
  · rename_i hgeneration
    refine ⟨by simpa using hgeneration, ?_⟩
    by_contra hroom
    rw [if_pos (by omega)] at h
    cases h

theorem Store.candidateRule_ok (h : s.candidateRule fmt q = .ok ()) :
    q.expectedGeneration = s.publishedGeneration ∧
      closureReserveBlocks + compactionReserveBlocks ≤ s.freeBlocks := by
  obtain ⟨reachable, -, hversion⟩ := Store.candidateRule_version h
  obtain ⟨hgeneration, hroom⟩ := Store.versionRule_ok hversion
  exact ⟨hgeneration, by omega⟩

theorem admit_ok (h : admitPublication fmt q s = .ok request u) : Admitted fmt q s request u := by
  unfold admitPublication at h
  split at h
  · cases h
  · dsimp only at h
    split at h
    · cases h
    · rename_i i table hslot
      split at h
      · cases h
      · rename_i hsequence
        split at h
        · cases h
        · rename_i hcandidate
          obtain ⟨rfl, rfl⟩ := EStateM.Result.ok.inj h
          obtain ⟨hnext, hpending⟩ := Store.sequenceRule_ok hsequence
          obtain ⟨hgeneration, hroom⟩ := Store.candidateRule_ok hcandidate
          exact ⟨rfl, ⟨i, table, hslot, rfl, hnext, hpending⟩, hgeneration, hroom⟩

theorem admit_error {status : StoreStatus} (h : admitPublication fmt q s = .error status u) :
    u = s ∨ ∃ i table, principalSlot q.principal s.principals = some (i, table) ∧
      u = { s with principals := table } := by
  unfold admitPublication at h
  split at h
  · exact .inl (EStateM.Result.error.inj h).2.symm
  · dsimp only at h
    split at h
    · exact .inl (EStateM.Result.error.inj h).2.symm
    · rename_i i table hslot
      split at h
      · exact .inr ⟨i, table, hslot, (EStateM.Result.error.inj h).2.symm⟩
      · split at h
        · exact .inr ⟨i, table, hslot, (EStateM.Result.error.inj h).2.symm⟩
        · cases h

omit [DecidableEq D] in
theorem Quiet.principals (s : Store D C) (table : List PrincipalEntry) :
    Quiet fmt s { s with principals := table } :=
  ⟨⟨rfl, rfl, rfl, rfl, rfl, rfl, rfl, rfl, rfl, rfl, rfl⟩, rfl, fun _ _ => id, id, rfl⟩

omit [DecidableEq D] in
theorem Admitted.allotted (ha : Admitted fmt q s request u) :
    Quiet fmt s u ∧ Allotted q.principal s u := by
  obtain ⟨i, table, hslot, rfl, -, -⟩ := ha.slot
  exact ⟨Quiet.principals s table, .inr ⟨i, table, hslot, rfl⟩⟩

/-! ### The tables after a publication -/

section Steps

variable {q : Publication D} {request : D} {l : Ledger D} {r c : Record D C} {g : Nat}

omit [DecidableEq D] in
theorem Prepares.step (hr : Prepares q request r) (l : Ledger D) :
    ∃ pending : Pending D, pending.principal = q.principal ∧
      pending.requestSequence = q.sequence ∧ pending.requestDigest = request ∧
      pending.candidateRoot = q.candidateRoot ∧ pending.prepareSequence = r.sequence ∧
      pending.prepareDigest = fmt.recordDigest r ∧ l.step fmt r = l.prepare pending := by
  obtain ⟨ns, invocation, hp⟩ := hr
  refine ⟨(q.prepare request ns invocation).pending r.sequence (fmt.recordDigest r), rfl, rfl, rfl,
    rfl, rfl, rfl, ?_⟩
  unfold Ledger.step
  rw [hp]

omit [DecidableEq D] in
theorem Commits.step (hc : Commits fmt q g r c) (l : Ledger D) :
    ∃ record : CommitRecord D, c.payload = .commit record ∧ record.principal = q.principal ∧
      record.requestSequence = q.sequence ∧ record.newGeneration = g ∧
      record.rootDigest = q.candidateRoot ∧ record.policyDigest = q.policyDigest ∧
      l.step fmt c = (l.publish record).settle (record.result (l.pendingRequest fmt.zero)) := by
  obtain ⟨receiptDigest, ns, count, hp⟩ := hc
  refine ⟨_, hp, rfl, rfl, rfl, rfl, rfl, ?_⟩
  unfold Ledger.step
  rw [hp]

omit [DecidableEq D] in
theorem Ledger.Sized.prepares (hl : l.Sized) (hr : Prepares q request r) (hq : q.principal ≠ 0) :
    (l.step fmt r).Sized := by
  obtain ⟨pending, hprincipal, -, -, -, -, -, hstep⟩ := @Prepares.step _ _ fmt _ _ _ hr l
  rw [hstep]
  exact hl.prepare (hprincipal ▸ hq)

omit [DecidableEq D] in
theorem Ledger.Sized.commits (hl : l.Sized) (hc : Commits fmt q g r c) (hq : q.principal ≠ 0) :
    (l.step fmt c).Sized := by
  obtain ⟨record, -, hprincipal, -, -, -, -, hstep⟩ := hc.step l
  rw [hstep]
  have hpublish : (l.publish record).Sized := ⟨hl.principals, hl.results, hl.pending⟩
  have hne : record.principal ≠ 0 := hprincipal ▸ hq
  exact hpublish.settle hne

omit [DecidableEq D] in
theorem Carried.sized {out : Option Nat} (hs : s.Sized) (hq : q.principal ≠ 0)
    (hc : Carried fmt q request s hf h out t hf' h') : t.Sized := by
  cases hc with
  | unprepared kept => exact hs.of_tables kept.ledger kept.retained
  | unflushed kept _ => exact hs.of_tables kept.ledger kept.retained
  | stopped prepares _ ledger retained _ =>
    exact ⟨ledger ▸ hs.ledger.prepares prepares hq, retained ▸ hs.retained⟩
  | doubtful prepares _ _ ledger retained _ =>
    exact ⟨ledger ▸ hs.ledger.prepares prepares hq, retained ▸ hs.retained⟩
  | done prepares _ commits ledger retained _ =>
    exact ⟨ledger ▸ (hs.ledger.prepares prepares hq).commits commits hq, retained ▸ hs.retained⟩

omit [DecidableEq D] in
theorem Reported.sized (hs : s.Sized) (hr : Reported fmt s hf h t hf' h') : t.Sized := by
  cases hr with
  | unwritten kept => exact hs.of_tables kept.ledger kept.retained
  | unflushed _ kept => exact hs.of_tables kept.ledger kept.retained
  | @done r outbox ledger retained _ =>
    refine ⟨?_, retained ▸ hs.retained⟩
    obtain ⟨record, hp⟩ := outbox
    have hstep : s.ledger.step fmt r = { s.ledger with
        results := setOutbox record.principal record.requestSequence record.status
          s.ledger.results } := by
      unfold Ledger.step
      rw [hp]
    rw [ledger, hstep]
    exact ⟨hs.ledger.principals, length_setOutbox.symm ▸ hs.ledger.results, hs.ledger.pending⟩

end Steps

/-! ### What one call does -/

/-- The sequence a call asks about. -/
def Call.sequence (call : Call D C) : Option Nat :=
  match call.request with
  | .publish sequence .. => some sequence
  | .result sequence => some sequence
  | _ => none

/-- Whether a request was resolved is told from the results. -/
def Reports (call : Call D C) (reply : Reply D C) (t : Store D C) : Prop :=
  reply.outcome = .committed ∨ reply.outcome = .aborted →
    ∃ n entry, call.sequence = some n ∧ resultFor t.results call.principal n = some entry ∧
      entry.outcome = reply.outcome

variable {call : Call D C}

omit [DecidableEq D] in
theorem Reports.mute {reply : Reply D C} (h : reply.outcome = .neverSeen) :
    Reports call reply t := by
  intro ho
  rw [h] at ho
  rcases ho with ho | ho <;> cases ho

/-- A call asks for a publication that is admitted, and so is its effect. -/
structure Carries (fmt : Format D C) (s : Store D C) (call : Call D C) (q : Publication D)
    (request : D) (u : Store D C) : Prop where
  asks : call.publication = some q
  effect : call.effect = true
  admits : admitPublication fmt q s = .ok request u

theorem Carries.admitted
    (hc : Carries fmt s call q request u) : Admitted fmt q s request u := admit_ok hc.admits

variable {service : Service D C}

theorem Carries.carriesOut (hc : Carries fmt (service.posed fmt call).store call q request u)
    (hd : service.dispatches call = true) : service.carriesOut fmt call = true := by
  unfold Service.carriesOut
  simp [hd, hc.effect, hc.asks, hc.admits]

omit [DecidableEq D] in
theorem Service.compacts_of (hd : service.dispatches call = true) (hc : call.request = .compact) :
    service.compacts call = true := by
  unfold Service.compacts
  simp [hd, hc]

omit [DecidableEq D] in
theorem Call.publication_principal (h : call.publication = some q) :
    q.principal = call.principal ∧ call.sequence = some q.sequence := by
  unfold Call.publication at h
  unfold Call.sequence
  split at h
  · rename_i hrequest
    obtain rfl := Option.some.inj h
    rw [hrequest]
    exact ⟨rfl, rfl⟩
  · cases h

/-- **What a call that is dispatched may do**: the answer, the memory it leaves, the settled
part of the log and the log. -/
inductive Does (fmt : Format D C) (s : Store D C) (hf h : List (Record D C)) (call : Call D C) :
    Reply D C → Store D C → List (Record D C) → List (Record D C) → Prop where
  /-- It leaves the log alone. -/
  | idle {reply : Reply D C} {t : Store D C} (quiet : Quiet fmt s t)
      (allotted : Allotted call.principal s t) (reports : Reports call reply t) :
      Does fmt s hf h call reply t hf h
  /-- It is a publication that stopped on the way. -/
  | stopped {q : Publication D} {request : D} {u t : Store D C} {reply : Reply D C}
      {hf' h' : List (Record D C)} (carries : Carries fmt s call q request u)
      (carried : Carried fmt q request u hf h none t hf' h')
      (answer : reply.outcome = if t.pending.isSome then .unknown else .aborted) :
      Does fmt s hf h call reply t hf' h'
  /-- It is a publication that went through, with what the broker reported of it. -/
  | published {q : Publication D} {request : D} {u v t : Store D C} {reply : Reply D C} {g : Nat}
      {hf' h' hf'' h'' : List (Record D C)} (carries : Carries fmt s call q request u)
      (carried : Carried fmt q request u hf h (some g) v hf' h')
      (reported : Reported fmt v hf' h' t hf'' h'') (answer : reply.outcome = .committed) :
      Does fmt s hf h call reply t hf'' h''
  /-- It is a compaction that went through. -/
  | compacted {reply : Reply D C} {t : Store D C} {h' : List (Record D C)}
      (asks : call.request = .compact) (kept : Kept s t)
      (idle : s.pending = none) (log : ledger fmt h' = s.ledger.reopened)
      (mute : reply.outcome = .neverSeen) : Does fmt s hf h call reply t h' h'
  /-- It is a compaction that stopped. -/
  | uncompacted {reply : Reply D C} {t : Store D C} (asks : call.request = .compact)
      (kept : Kept s t)
      (mute : reply.outcome = .neverSeen) : Does fmt s hf h call reply t hf h

/-- What has to be so of a publication that is carried out, and of a compaction. -/
structure Cleared (fmt : Format D C) (rules : Rules D) (P : Ledger D → Prop) (s : Store D C)
    (h : List (Record D C)) (call : Call D C) : Prop where
  publish : ∀ q request u, Carries fmt s call q request u →
    s.anchored = true ∧ s.atEnd = true ∧
      (∀ ns, rules.prepare (ledger fmt h) (q.prepare request ns call.invocation)) ∧
      ∀ r record, Prepares q request r → record.newGeneration = s.publishedGeneration + 1 →
        rules.commit ((ledger fmt h).step fmt r) record
  compact : call.request = .compact →
    s.anchored = true ∧ (s.pending = none → P s.ledger.reopened)

section Dispatch

variable {service : Service D C} {call : Call D C}

/-- What a call leaves. -/
def Leaves (fmt : Format D C) (rules : Rules D) (P : Ledger D → Prop) (s : Store D C)
    (hf h : List (Record D C)) (call : Call D C) (reply : Reply D C) (t : Store D C) : Prop :=
  ∃ hf' h', Does fmt s hf h call reply t hf' h' ∧ Holding fmt rules P t hf' h' ∧ t.Sized

variable {reply : Reply D C}

theorem leaves_idle (hh : Holding fmt rules P s hf h) (hs : s.Sized)
    (hp : call.principal ≠ 0) (hq : Quiet fmt s t) (ha : Allotted call.principal s t)
    (hr : Reports call reply t) : Leaves fmt rules P s hf h call reply t :=
  ⟨hf, h, .idle hq ha hr, hh.quiet hq, hs.allotted hp hq ha⟩

theorem leaves_same (hh : Holding fmt rules P s hf h) (hs : s.Sized)
    (hp : call.principal ≠ 0) (hm : reply.outcome = .neverSeen) :
    Leaves fmt rules P s hf h call reply s :=
  leaves_idle hh hs hp (Quiet.refl s) (.inl rfl) (Reports.mute hm)

theorem leaves_staged (hh : Holding fmt rules P s hf h) (hs : s.Sized)
    (hp : call.principal ≠ 0) (hst : Staging fmt s t) (hm : reply.outcome = .neverSeen) :
    Leaves fmt rules P s hf h call reply t :=
  leaves_idle hh hs hp hst.quiet (.inl hst.kept.ledger) (Reports.mute hm)

theorem Service.putObject_leaves (hh : Holding fmt rules P service.store hf h)
    (hs : service.store.Sized) (hp : call.principal ≠ 0) (objectType length : Nat)
    (lent : Option C) :
    Leaves fmt rules P service.store hf h call
      (service.putObject fmt call.principal objectType length lent).1
      (service.putObject fmt call.principal objectType length lent).2.store := by
  unfold Service.putObject
  split
  · exact leaves_same hh hs hp rfl
  · split
    · exact leaves_same hh hs hp rfl
    · split
      · exact leaves_same hh hs hp rfl
      · rename_i memory _
        have hends := @stage_ends _ _ fmt _ [0] objectType (fmt.slice memory 0 length)
          service.store
        split
        · rename_i digest store hrun
          exact leaves_staged hh hs hp (hends.of_ok hrun) rfl
        · rename_i status store hrun
          exact leaves_staged hh hs hp (hends.of_error hrun) rfl

omit [DecidableEq D] in
theorem Staging.trans (h : Staging fmt s t) (h' : Staging fmt t u) : Staging fmt s u :=
  ⟨h.log.trans h'.log, h'.disk.trans h.disk, h.kept.trans h'.kept,
    fun start h0 hi => h'.indexes start h0 (h.indexes start h0 hi)⟩

theorem Service.freeze_leaves (hh : Holding fmt rules P service.store hf h)
    (hs : service.store.Sized) (hp : call.principal ≠ 0) (id : Nat) (policy validation : D) :
    Leaves fmt rules P service.store hf h call
      (service.freeze fmt call.principal id policy validation).1
      (service.freeze fmt call.principal id policy validation).2.store := by
  unfold Service.freeze
  split
  · exact leaves_same hh hs hp rfl
  · rename_i slot w hspace
    split
    · exact leaves_same hh hs hp rfl
    · rename_i tree _
      have hends := @stage_ends _ _ fmt _ [0] ObjectType.tree.code tree service.store
      split
      · rename_i status store hrun
        exact leaves_staged hh hs hp (hends.of_error hrun) rfl
      · rename_i treeDigest store hrun
        have hfirst := hends.of_ok hrun
        have hends' := @stage_ends _ _ fmt _ [1] ObjectType.manifest.code
          (fmt.manifestBytes (frozenManifest w.bindings treeDigest policy validation)) store
        dsimp only
        split
        · rename_i status store' hrun'
          exact leaves_staged hh hs hp (hfirst.trans (hends'.of_error hrun')) rfl
        · rename_i root store' hrun'
          exact leaves_staged hh hs hp (hfirst.trans (hends'.of_ok hrun')) rfl

theorem Service.result_leaves (hh : Holding fmt rules P service.store hf h)
    (hs : service.store.Sized) (hp : call.principal ≠ 0) {sequence : Nat}
    (hcall : call.request = .result sequence) :
    Leaves fmt rules P service.store hf h call (service.result fmt call.principal sequence).1
      (service.result fmt call.principal sequence).2.store := by
  unfold Service.result
  split
  · exact leaves_same hh hs hp rfl
  · rename_i index table hslot
    have hquiet : Quiet fmt service.store { service.store with principals := table } :=
      Quiet.principals service.store table
    have hallotted : Allotted call.principal service.store
        { service.store with principals := table } := .inr ⟨index, table, hslot, rfl⟩
    dsimp only
    split
    · exact leaves_idle hh hs hp hquiet hallotted fun ho => by
        rcases ho with ho | ho <;> cases ho
    · split
      · exact leaves_idle hh hs hp hquiet hallotted (Reports.mute rfl)
      · split
        · rename_i entry hentry
          refine leaves_idle hh hs hp hquiet hallotted fun _ => ⟨sequence, entry, ?_, hentry, rfl⟩
          unfold Call.sequence
          rw [hcall]
        · exact leaves_idle hh hs hp hquiet hallotted fun ho => by
            rcases ho with ho | ho <;> cases ho

theorem Service.retain_leaves (hh : Holding fmt rules P service.store hf h)
    (hs : service.store.Sized) (hp : call.principal ≠ 0) (root : D) (expiryNs : Nat) :
    Leaves fmt rules P service.store hf h call
      (service.counted fmt (retain root expiryNs service.store)).1
      (service.counted fmt (retain root expiryNs service.store)).2.store := by
  have hretained : ∀ retained, (service.store.retained.length ≤ maxRetained →
      retained.length ≤ maxRetained) →
      Quiet fmt service.store { service.store with retained } := fun retained hr =>
    ⟨⟨rfl, rfl, rfl, rfl, rfl, rfl, rfl, rfl, rfl, rfl, rfl⟩, rfl, fun _ _ => id, hr, rfl⟩
  unfold retain
  split
  · exact leaves_same hh hs hp rfl
  · split
    · refine leaves_idle hh hs hp (hretained _ fun hr => ?_) (.inl rfl) (Reports.mute rfl)
      rwa [List.length_modify]
    · split
      · exact leaves_same hh hs hp rfl
      · rename_i hroom
        refine leaves_idle hh hs hp (hretained _ fun _ => ?_) (.inl rfl) (Reports.mute rfl)
        rw [List.length_append]
        exact Nat.lt_of_not_le hroom

theorem Service.release_leaves (hh : Holding fmt rules P service.store hf h)
    (hs : service.store.Sized) (hp : call.principal ≠ 0) (root : D) :
    Leaves fmt rules P service.store hf h call
      (service.counted fmt (release root service.store)).1
      (service.counted fmt (release root service.store)).2.store := by
  unfold release
  split
  · exact leaves_same hh hs hp rfl
  · refine leaves_idle hh hs hp ⟨⟨rfl, rfl, rfl, rfl, rfl, rfl, rfl, rfl, rfl, rfl, rfl⟩, rfl,
      fun _ _ => id, fun hr => ?_, rfl⟩ (.inl rfl) (Reports.mute rfl)
    exact Nat.le_trans (List.length_eraseIdx_le ..) hr

theorem Service.compact_leaves (hh : Holding fmt rules P service.store hf h)
    (hs : service.store.Sized) (hcall : call.request = .compact) (ha : service.store.anchored = true)
    (hP : service.store.pending = none → P service.store.ledger.reopened) :
    Leaves fmt rules P service.store hf h call (service.compact fmt).1
      (service.compact fmt).2.store := by
  have hl := hh.lodged ha
  have hends := hl.compact hs hP
  unfold Service.compact
  split
  · rename_i copied store hrun
    obtain ⟨hkept, hidle, h', hlive, hledger⟩ := hends.of_ok hrun
    exact ⟨h', h', .compacted hcall hkept hidle hledger rfl, .inl hlive.lodged,
      hs.of_tables hkept.ledger hkept.retained⟩
  · rename_i status store hrun
    obtain ⟨hkept, hlodged | hadrift⟩ := hends.of_error hrun
    · exact ⟨hf, h, .uncompacted hcall hkept rfl, .inl hlodged, hs.of_tables hkept.ledger hkept.retained⟩
    · exact ⟨hf, h, .uncompacted hcall hkept rfl, .inr (hadrift.astray_of hl.standing),
        hs.of_tables hkept.ledger hkept.retained⟩

theorem Live.outboxOf (hp : Stable fmt rules P) (hl : Live fmt rules P s hf h) (q : Publication D)
    (identity : D) (broker : Option (OutboxStatus × Nat)) :
    ∃ hf' h', Reported fmt s hf h (Service.outboxOf fmt q identity broker s).2 hf' h' ∧
      Live fmt rules P (Service.outboxOf fmt q identity broker s).2 hf' h' := by
  unfold Service.outboxOf
  split
  · exact ⟨hf, h, .unwritten (Kept.refl s), hl⟩
  · unfold Service.resolveOutbox
    have hends := hl.recordOutbox hp q.principal q.sequence identity q.outboxTarget
      (broker.getD (.unknown, 1)).1 (broker.getD (.unknown, 1)).2
    dsimp only
    split
    · rename_i store hrun
      exact hends.of_ok hrun
    · rename_i store hrun
      exact hends.of_ok hrun
    · rename_i status store hrun
      exact (hends.of_error hrun).elim

/-- **What a publication that is carried out leaves**: it went through, with what the broker
reported of it, or it stopped on the way. -/
theorem Service.publish_carried (hstable : Stable fmt rules P)
    (hh : Holding fmt rules P service.store hf h) (hp : call.principal ≠ 0)
    {q : Publication D} {u : Store D C} {identity : D}
    (hcarries : Carries fmt service.store call q identity u)
    (hcleared : Cleared fmt rules P service.store h call) :
    let result := service.publish fmt q call.invocation call.effect call.broker
    ∃ hf' h', Live fmt rules P result.2.store hf' h' ∧
      ((∃ g v hfv hv, Carried fmt q identity u hf h (some g) v hfv hv ∧
        Reported fmt v hfv hv result.2.store hf' h' ∧ result.1.outcome = .committed) ∨
      Carried fmt q identity u hf h none result.2.store hf' h' ∧
        result.1.outcome = if result.2.store.pending.isSome then .unknown else .aborted) := by
  have hprincipal := (Call.publication_principal hcarries.asks).1
  have hadmitted := hcarries.admitted
  obtain ⟨hquiet, hallotted⟩ := hadmitted.allotted
  obtain ⟨hanchored, hatEnd, hprepare, hcommit⟩ := hcleared.publish q identity u hcarries
  have hlive : Live fmt rules P u hf h := by
    refine (hh.quiet hquiet).live (hquiet.log.anchored_eq.trans hanchored) ?_
    unfold Store.atEnd at hatEnd ⊢
    rw [hquiet.log.nextBlock, hquiet.log.checkpointSequence, hquiet.log.arenaStart,
      hquiet.log.nextSequence]
    exact hatEnd
  have hgeneration : u.publishedGeneration = service.store.publishedGeneration := by
    obtain ⟨i, table, -, rfl, -⟩ := hadmitted.slot
    rfl
  have hends := hlive.publish hstable q identity call.invocation (hprincipal ▸ hp) hprepare
    (hgeneration ▸ hcommit)
  unfold Service.publish
  simp only [hcarries.admits, hcarries.effect, Bool.not_true, Bool.false_eq_true, if_false]
  split
  · rename_i g v hpublished
    obtain ⟨hf', h', hcarried, hlive'⟩ := hends.of_ok hpublished
    obtain ⟨hf'', h'', hreported, hlive''⟩ := hlive'.outboxOf hstable q identity call.broker
    exact ⟨hf'', h'', hlive'', .inl ⟨g, v, hf', h', hcarried, hreported, rfl⟩⟩
  · rename_i status v hstopped
    obtain ⟨hf', h', hcarried, hlive'⟩ := hends.of_error hstopped
    exact ⟨hf', h', hlive', .inr ⟨hcarried, rfl⟩⟩

theorem Service.publish_leaves (hstable : Stable fmt rules P)
    (hh : Holding fmt rules P service.store hf h) (hs : service.store.Sized)
    (hp : call.principal ≠ 0) {q : Publication D} (hq : call.publication = some q)
    (hcleared : Cleared fmt rules P service.store h call) :
    Leaves fmt rules P service.store hf h call
      (service.publish fmt q call.invocation call.effect call.broker).1
      (service.publish fmt q call.invocation call.effect call.broker).2.store := by
  obtain ⟨hprincipal, hsequence⟩ := Call.publication_principal hq
  have hrefused : ∀ {u : Store D C}, u = service.store ∨ (∃ i table,
      principalSlot q.principal service.store.principals = some (i, table) ∧
      u = { service.store with principals := table }) →
      Quiet fmt service.store u ∧ Allotted call.principal service.store u := by
    rintro u (rfl | ⟨i, table, hslot, rfl⟩)
    · exact ⟨Quiet.refl _, .inl rfl⟩
    · exact ⟨Quiet.principals _ table, .inr ⟨i, table, hprincipal ▸ hslot, rfl⟩⟩
  unfold Service.publish
  split
  · rename_i u hrun
    obtain ⟨hquiet, hallotted⟩ := hrefused (admit_error hrun)
    split
    · rename_i entry hentry
      refine leaves_idle hh hs hp hquiet hallotted fun _ => ⟨q.sequence, entry, hsequence, ?_, rfl⟩
      rw [← hprincipal]
      exact hentry
    · exact leaves_idle hh hs hp hquiet hallotted (Reports.mute rfl)
  · rename_i status u hrun
    obtain ⟨hquiet, hallotted⟩ := hrefused (admit_error hrun)
    exact leaves_idle hh hs hp hquiet hallotted (Reports.mute rfl)
  · rename_i identity u hrun
    have hadmitted := admit_ok hrun
    obtain ⟨hquiet, hallotted⟩ := hadmitted.allotted
    rw [hprincipal] at hallotted
    split
    · exact leaves_idle hh hs hp hquiet hallotted (Reports.mute rfl)
    · rename_i heffect
      have hcarries : Carries fmt service.store call q identity u :=
        ⟨hq, by simpa using heffect, hrun⟩
      have hsized : u.Sized := hs.allotted hp hquiet hallotted
      have hcarried := Service.publish_carried hstable hh hp hcarries hcleared
      unfold Service.publish at hcarried
      simp only [hrun, heffect] at hcarried ⊢
      obtain ⟨hf', h', hlive, ⟨g, v, hfv, hv, hdone, hreported, hanswer⟩ | ⟨hstopped, hanswer⟩⟩ :=
        hcarried
      · exact ⟨hf', h', .published hcarries hdone hreported hanswer, .inl hlive.lodged,
          hreported.sized (hdone.sized hsized (hprincipal ▸ hp))⟩
      · exact ⟨hf', h', .stopped hcarries hstopped hanswer, .inl hlive.lodged,
          hstopped.sized hsized (hprincipal ▸ hp)⟩

omit [DecidableEq D] in
theorem permitted_ne_zero (hpermitted : permitted call.principal call.request = true) :
    call.principal ≠ 0 := by
  rintro h0
  unfold permitted at hpermitted
  rw [h0] at hpermitted
  split at hpermitted <;> simp [publisherFacet, rivalFacet] at hpermitted

/-- **What a call that is dispatched does to a store that stands on its log.** -/
theorem Service.dispatch_leaves (hstable : Stable fmt rules P)
    (hh : Holding fmt rules P service.store hf h) (hs : service.store.Sized)
    (hpermitted : permitted call.principal call.request = true)
    (hcleared : Cleared fmt rules P service.store h call) :
    Leaves fmt rules P service.store hf h call (service.dispatch fmt call).1
      (service.dispatch fmt call).2.store := by
  have hp : call.principal ≠ 0 := permitted_ne_zero hpermitted
  unfold Service.dispatch
  cases hreq : call.request with
  | query => exact leaves_same hh hs hp rfl
  | putObject objectType length lent => exact putObject_leaves hh hs hp _ _ _
  | read digest offset length lent =>
    refine leaves_same hh hs hp ?_
    show (service.read fmt digest offset length lent).outcome = .neverSeen
    unfold Service.read
    repeat' split
    all_goals rfl
  | fork generation =>
    dsimp only
    unfold Service.fork
    repeat' split
    all_goals exact leaves_same hh hs hp rfl
  | write workspace name flags digest =>
    dsimp only
    unfold Service.write
    repeat' split
    all_goals exact leaves_same hh hs hp rfl
  | freeze workspace policy validation => exact freeze_leaves hh hs hp _ _ _
  | discard workspace =>
    dsimp only
    unfold Service.discard
    split
    all_goals exact leaves_same hh hs hp rfl
  | publish sequence expectedGeneration root policy validation outboxTarget outboxPayload =>
    refine publish_leaves hstable hh hs hp ?_ hcleared
    unfold Call.publication
    rw [hreq]
  | result sequence => exact result_leaves hh hs hp hreq
  | retain root expiryNs => exact retain_leaves hh hs hp _ _
  | release root => exact release_leaves hh hs hp _
  | compact =>
    obtain ⟨ha, hP⟩ := hcleared.compact hreq
    exact compact_leaves hh hs hreq ha hP
  | unknown => exact leaves_same hh hs hp rfl

end Dispatch

end Thalyx.K4
