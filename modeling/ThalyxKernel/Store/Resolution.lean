/-
Every preparation of an adopted log is resolved.

The store has one place for what is pending.  Recovery aborts what it finds there, so a
preparation is resolved if nothing else was prepared while it was pending.  This rests on
the memory refusing to publish while something is pending, whoever asks, and while the
preparation written last may be on the medium without the memory knowing of it.
-/
import ThalyxKernel.Store.Account
import ThalyxKernel.Store.Versions

namespace Thalyx.K4

open Fallible List Option

variable {D C : Type} {fmt : Format D C} [DecidableEq D]

/-- Whether a record tells the outcome of a preparation. -/
def Record.names (fmt : Format D C) (c r : Record D C) : Bool :=
  match c.payload with
  | .commit record =>
    record.prepareSequence == r.sequence && record.prepareDigest == fmt.recordDigest r
  | .abort record =>
    record.prepareSequence == r.sequence && record.prepareDigest == fmt.recordDigest r
  | _ => false

/-- **A recovered store in which nothing is left unresolved.** -/
structure AllResolved (fmt : Format D C) (s : Store D C) : Prop where
  marks : ∀ entry ∈ s.principals, entry.pendingSequence = 0
  /-- Exactly one later record names each preparation. -/
  resolved : ∀ before r after record, s.adopted = before ++ r :: after →
    r.payload = .prepare record → after.countP (Record.names fmt · r) = 1

/-! ### The rules of one preparation at a time -/

/-- Nothing is prepared while something is pending. -/
def singleRules : Rules D where
  prepare l _ := l.pending = none
  commit _ _ := True
  tidy := False

/-- Only the principal whose request is pending is marked. -/
def OnlyPending (l : Ledger D) : Prop :=
  ∀ p, p ≠ 0 → pendingOf l.principals p ≠ 0 →
    ∃ pending, l.pending = some pending ∧ pending.principal = p

section Log

variable {h : List (Record D C)} {r : Record D C}

omit [DecidableEq D] in
theorem History.descending (hh : History fmt h) :
    h.Pairwise fun a b => b.sequence < a.sequence := by
  induction hh with
  | opened _ => exact pairwise_singleton _ _
  | @next r p h below follows ih =>
    refine List.Pairwise.cons (fun x hx => ?_) ih
    rw [follows.sequence]
    rcases mem_cons.mp hx with rfl | hx
    · exact Nat.lt_succ_self _
    · exact Nat.lt_succ_of_lt (rel_of_pairwise_cons ih hx)

omit [DecidableEq D] in
theorem History.eq_of_sequence (hh : History fmt h) {a b : Record D C} (ha : a ∈ h) (hb : b ∈ h)
    (heq : a.sequence = b.sequence) : a = b := by
  have hnodup : (h.map Record.sequence).Nodup := by
    refine pairwise_map.mpr (hh.descending.imp fun hlt => ?_)
    exact Nat.ne_of_gt hlt
  exact inj_on_of_nodup_map hnodup ha hb heq

/-- What is pending is a preparation of the log, and every other has been resolved once. -/
structure Tally (fmt : Format D C) (h : List (Record D C)) : Prop where
  pending : ∀ pending, (ledger fmt h).pending = some pending →
    ∃ r ∈ h, pending.prepareSequence = r.sequence ∧ pending.prepareDigest = fmt.recordDigest r
  resolved : ∀ later r below record, h = later ++ r :: below → r.payload = .prepare record →
    later.countP (Record.names fmt · r)
      = if (ledger fmt h).pending.map Pending.prepareSequence = some r.sequence then 0 else 1

variable {x : Record D C}

theorem Tally.mute (ht : Tally fmt h) (hx : ∀ r, x.names fmt r = false)
    (hprepare : ∀ record, x.payload ≠ .prepare record)
    (hpending : (ledger fmt (x :: h)).pending = (ledger fmt h).pending) : Tally fmt (x :: h) := by
  refine ⟨fun pending hp => ?_, fun later r below record hsplit hr => ?_⟩
  · rw [hpending] at hp
    obtain ⟨r, hr, hrest⟩ := ht.pending pending hp
    exact ⟨r, mem_cons_of_mem _ hr, hrest⟩
  · cases later with
    | nil =>
      obtain ⟨rfl, -⟩ := cons.inj hsplit
      exact absurd hr (hprepare record)
    | cons y later =>
      obtain ⟨rfl, hrest⟩ := cons.inj hsplit
      replace hsplit : h = later ++ r :: below := hrest
      rw [countP_cons_of_neg (by simp [hx r]), hpending]
      exact ht.resolved later r below record hsplit hr

theorem Tally.resolve {pending : Pending D} (ht : Tally fmt h)
    (hh : History fmt h) (hp : (ledger fmt h).pending = some pending)
    (hx : ∀ r, x.names fmt r = (pending.prepareSequence == r.sequence &&
      pending.prepareDigest == fmt.recordDigest r))
    (hprepare : ∀ record, x.payload ≠ .prepare record)
    (hpending : (ledger fmt (x :: h)).pending = none) : Tally fmt (x :: h) := by
  refine ⟨fun pending h => ?_, fun later r below record hsplit hr => ?_⟩
  · rw [hpending] at h
    cases h
  · cases later with
    | nil =>
      obtain ⟨rfl, -⟩ := cons.inj hsplit
      exact absurd hr (hprepare record)
    | cons y later =>
      obtain ⟨rfl, hrest⟩ := cons.inj hsplit
      replace hsplit : h = later ++ r :: below := hrest
      have hbelow := ht.resolved later r below record hsplit hr
      rw [hp] at hbelow
      rw [hpending, map_none, if_neg (by simp)]
      by_cases hseq : pending.prepareSequence = r.sequence
      · -- the number of what is pending is this preparation's, and so is the digest
        obtain ⟨r', hr', hsequence, hdigest⟩ := ht.pending pending hp
        have hsame : r' = r := hh.eq_of_sequence hr' (by rw [hsplit]; simp)
          (hsequence.symm.trans hseq)
        rw [countP_cons_of_pos (by simp [hx r, hseq, hdigest, hsame]), hbelow,
          if_pos (by simp [hseq])]
      · rw [countP_cons_of_neg (by simp [hx r, hseq]), hbelow, if_neg (by simp [hseq])]

/-- **In a chain under these rules every preparation but the pending one was resolved once.** -/
theorem Chain.tally (hc : Chain fmt singleRules h) : Tally fmt h := by
  induction hc with
  | @opened r head hp _ =>
    refine ⟨fun pending h => ?_, fun later r' below record hsplit hr => ?_⟩
    · have hledger : (ledger fmt [r]).pending = none := by
        show ((ledger fmt []).step fmt r).pending = none
        unfold Ledger.step
        rw [hp]
        rfl
      rw [hledger] at h
      cases h
    · have hr' : r' = r := by
        have : r' ∈ [r] := by
          rw [hsplit]
          simp
        exact mem_singleton.mp this
      rw [hr', hp] at hr
      cases hr
  | @next r p h below follows hadm ih =>
    have hmoves := (Chain.next below follows hadm).moves
    generalize hl : ledger fmt (r :: p :: h) = l at hmoves
    cases hmoves with
    | object is =>
      obtain ⟨objectType, digest, content, hp⟩ := is.payload
      exact ih.mute (fun _ => by simp [Record.names, hp]) (fun _ => by simp [hp]) (by rw [hl])
    | @prepare record hp named rule =>
      have hnone : (ledger fmt (p :: h)).pending = none := rule
      refine ⟨fun pending hpending => ?_, fun later r' below' record' hsplit hr => ?_⟩
      · rw [hl] at hpending
        obtain rfl := some.inj hpending
        exact ⟨r, mem_cons_self, rfl, rfl⟩
      · have hdescending := (Chain.next below follows hadm).history.descending
        cases later with
        | nil =>
          obtain ⟨rfl, -⟩ := cons.inj hsplit
          rw [hl]
          exact (if_pos rfl).symm
        | cons y later =>
          obtain ⟨rfl, hrest⟩ := cons.inj hsplit
          replace hsplit : p :: h = later ++ r' :: below' := hrest
          have hmem : r' ∈ p :: h := by
            rw [hsplit]
            simp
          have hlt : r'.sequence < r.sequence := rel_of_pairwise_cons hdescending hmem
          have hbelow := ih.resolved later r' below' record' hsplit hr
          rw [hnone, map_none, if_neg (by simp)] at hbelow
          rw [countP_cons_of_neg (by simp [Record.names, hp]), hbelow, hl, if_neg]
          intro heq
          exact absurd (some.inj heq) (Nat.ne_of_gt hlt)
    | @commit record pending hp pends resolves rule =>
      refine ih.resolve below.history pends (fun r' => ?_) (fun _ => by simp [hp]) (by rw [hl]; rfl)
      simp only [Record.names, hp]
      rw [resolves.prepareSequence, resolves.prepareDigest]
    | @abort record pending hp pends resolves =>
      refine ih.resolve below.history pends (fun r' => ?_) (fun _ => by simp [hp]) (by rw [hl]; rfl)
      simp only [Record.names, hp]
      rw [resolves.prepareSequence, resolves.prepareDigest]
    | @outbox record hp =>
      exact ih.mute (fun _ => by simp [Record.names, hp]) (fun _ => by simp [hp]) (by rw [hl])

theorem onlyPending_stable : Stable fmt singleRules OnlyPending := by
  refine .of_moves fun l r l' hs hm ho => ?_
  have hresolved : ∀ {pending : Pending D} {principal n : Nat}, l.pending = some pending →
      pending.principal = principal → ∀ p, p ≠ 0 →
      pendingOf (markResolved principal n l.principals) p = 0 := by
    intro pending principal n hpending hprincipal p hp
    rw [pendingOf_markResolved hs.principals _ hp]
    split
    · rfl
    · rename_i hne
      by_contra hmark
      obtain ⟨pending', hpending', rfl⟩ := ho p hp hmark
      rw [hpending] at hpending'
      obtain rfl := some.inj hpending'
      exact hne hprincipal
  cases hm with
  | object _ => exact ho
  | @prepare record hp named rule =>
    intro p hp hmark
    refine ⟨_, rfl, ?_⟩
    by_contra hne
    have hmark' : pendingOf l.principals p ≠ 0 := by
      rwa [← pendingOf_markPending hs.principals record.requestSequence hp (Ne.symm hne)]
    obtain ⟨pending, hpending, -⟩ := ho p hp hmark'
    have hnone : l.pending = none := rule
    rw [hnone] at hpending
    cases hpending
  | commit hp pends resolves rule =>
    intro p hp hmark
    exact absurd (hresolved pends resolves.principal p hp) hmark
  | abort hp pends resolves =>
    intro p hp hmark
    exact absurd (hresolved pends resolves.principal p hp) hmark
  | outbox _ => exact ho

omit [DecidableEq D] in
theorem onlyPending_empty : OnlyPending (Ledger.empty fmt) := by
  intro p hp hmark
  refine absurd ?_ hmark
  unfold pendingOf
  cases hentry : entryOf (Ledger.empty fmt).principals p with
  | none => rfl
  | some entry =>
    have hmem := (entryOf_principal hentry).1
    rw [(mem_replicate.mp hmem).2]
    rfl

omit [DecidableEq D] in
theorem OnlyPending.nobody {l : Ledger D} (ho : OnlyPending l) (hidle : l.pending = none) {p : Nat}
    (hp : p ≠ 0) : pendingOf l.principals p = 0 := by
  by_contra hmark
  obtain ⟨pending, hpending, -⟩ := ho p hp hmark
  rw [hidle] at hpending
  cases hpending

end Log

/-! ### How the memory agrees with the log -/

/-- The record written last is a preparation. -/
def Store.endsPrepared (s : Store D C) : Bool :=
  match s.lastPayload with
  | some (.prepare _) => true
  | _ => false

/-- Where the memory knows of nothing pending, it marks nobody, and nothing is pending in the
log but, perhaps, the preparation written last. -/
def PendingAgree (fmt : Format D C) (l : Ledger D) (h : List (Record D C)) : Prop :=
  l.pending = none → (∀ p, p ≠ 0 → pendingOf l.principals p = 0) ∧
    ((ledger fmt h).pending = none ∨
      ∃ r below record, h = r :: below ∧ r.payload = .prepare record)

/-- A publication is carried out only at the end of the named log while nothing is pending
nor may be; a compaction only from the named log. -/
structure KnowsPending (fmt : Format D C) (s : Store D C) (call : Call D C) : Prop where
  publish : ∀ q request u, Carries fmt s call q request u →
    s.anchored = true ∧ s.atEnd = true ∧ s.pending = none ∧ s.endsPrepared = false
  compact : call.request = .compact → s.anchored = true

section Agreement

variable {s t u : Store D C} {hf h hf' h' : List (Record D C)} {q : Publication D} {request : D}
  {call : Call D C}

theorem PendingAgree.idle (ha : PendingAgree fmt s.ledger h)
    (hl : Live fmt singleRules OnlyPending s hf h) (hp : s.pending = none)
    (hd : s.endsPrepared = false) : (ledger fmt h).pending = none := by
  rcases (ha hp).2 with hnone | ⟨r, below, record, rfl, hr⟩
  · exact hnone
  · unfold Store.endsPrepared at hd
    rw [hl.lastPayload] at hd
    simp [hr] at hd

theorem KnowsPending.cleared (hk : KnowsPending fmt s call)
    (hh : Holding fmt singleRules OnlyPending s hf h) (ha : PendingAgree fmt s.ledger h) :
    Cleared fmt singleRules OnlyPending s h call := by
  refine ⟨fun q request u hc => ?_, fun hcompact => ⟨hk.compact hcompact, fun hidle p hp hmark => ?_⟩⟩
  · obtain ⟨hanchored, hatEnd, hidle, hends⟩ := hk.publish q request u hc
    exact ⟨hanchored, hatEnd, fun _ => ha.idle (hh.live hanchored hatEnd) hidle hends,
      fun _ _ _ _ => trivial⟩
  · refine absurd ?_ hmark
    unfold pendingOf
    rw [entryOf_reopened s.ledger hp]
    exact (ha hidle).1 p hp

omit [DecidableEq D] in
theorem Carried.nothing_pending {g : Nat} (hc : Carried fmt q request u hf h (some g) t hf' h')
    (hu : u.Sized) (hq : q.principal ≠ 0)
    (hmarks : ∀ p, p ≠ 0 → pendingOf u.ledger.principals p = 0) :
    (∀ p, p ≠ 0 → pendingOf t.ledger.principals p = 0) ∧ (ledger fmt h').pending = none := by
  cases hc with
  | @done _ r c objs prepares objects commits hledger _ _ =>
    obtain ⟨pending, hprincipal, -, -, -, -, -, hstep⟩ := @Prepares.step _ _ fmt _ _ _ prepares u.ledger
    obtain ⟨record, -, hprincipal', -, -, -, -, hstep'⟩ := commits.step (u.ledger.step fmt r)
    obtain ⟨_, -, -, -, -, -, -, hlog⟩ := commits.step (ledger fmt (objs ++ r :: h))
    refine ⟨fun p hp => ?_, ?_⟩
    · have hprepared := @Ledger.Sized.prepares _ _ fmt _ _ _ _ hu.ledger prepares hq
      rw [hledger, hstep']
      show pendingOf (markResolved record.principal record.requestSequence
        (u.ledger.step fmt r).principals) p = 0
      rw [pendingOf_markResolved hprepared.principals _ hp]
      split
      · rfl
      · rename_i hne
        rw [hstep]
        show pendingOf (markPending pending.principal pending.requestSequence
          u.ledger.principals) p = 0
        rw [pendingOf_markPending hu.ledger.principals _ hp
          (by rw [hprincipal]; rwa [hprincipal'] at hne)]
        exact hmarks p hp
    · show ((ledger fmt (objs ++ r :: h)).step fmt c).pending = none
      rw [hlog]
      rfl

theorem KnowsPending.agree {reply : Reply D C} (hk : KnowsPending fmt s call)
    (hp : call.principal ≠ 0) (hs : s.Sized)
    (hh : Holding fmt singleRules OnlyPending s hf h) (ha : PendingAgree fmt s.ledger h)
    (hd : Does fmt s hf h call reply t hf' h') : PendingAgree fmt t.ledger h' := by
  cases hd with
  | idle quiet allotted _ =>
    rcases allotted with hledger | ⟨i, table, hslot, hledger⟩
    · rw [hledger]
      exact ha
    · rw [hledger]
      intro hidle
      obtain ⟨hmarks, hlog⟩ := ha hidle
      refine ⟨fun p hne => ?_, hlog⟩
      rw [principalSlot_table hslot]
      exact (marks_withPrincipal_id hs.ledger.principals hne).2.trans (hmarks p hne)
  | @stopped q request u t reply hf' h' carries carried _ =>
    obtain ⟨hanchored, hatEnd, hidle, hends⟩ := hk.publish q request u carries
    have hlog := ha.idle (hh.live hanchored hatEnd) hidle hends
    obtain ⟨i, table, hslot, rfl, -, -⟩ := carries.admitted.slot
    have hmarks : ∀ p, p ≠ 0 → pendingOf table p = 0 := by
      intro p hne
      rw [principalSlot_table hslot]
      exact (marks_withPrincipal_id hs.ledger.principals hne).2.trans ((ha hidle).1 p hne)
    cases carried with
    | unprepared kept =>
      rw [kept.ledger]
      exact fun _ => ⟨hmarks, .inl hlog⟩
    | @unflushed _ r kept prepares =>
      rw [kept.ledger]
      obtain ⟨ns, invocation, hr⟩ := prepares
      exact fun _ => ⟨hmarks, .inr ⟨r, h, _, rfl, hr⟩⟩
    | stopped prepares _ hledger _ _ =>
      obtain ⟨pending, -, -, -, -, -, -, hstep⟩ := @Prepares.step _ _ fmt _ _ _ prepares
        ({ s with principals := table } : Store D C).ledger
      rw [hledger, hstep]
      intro h
      cases h
    | doubtful prepares _ _ hledger _ _ =>
      obtain ⟨pending, -, -, -, -, -, -, hstep⟩ := @Prepares.step _ _ fmt _ _ _ prepares
        ({ s with principals := table } : Store D C).ledger
      rw [hledger, hstep]
      intro h
      cases h
  | @published q request u v t reply g hf' h' hf'' h'' carries carried reported _ =>
    obtain ⟨hanchored, hatEnd, hidle, hends⟩ := hk.publish q request u carries
    obtain ⟨i, table, hslot, rfl, -, -⟩ := carries.admitted.slot
    have hmarks : ∀ p, p ≠ 0 → pendingOf table p = 0 := by
      intro p hne
      rw [principalSlot_table hslot]
      exact (marks_withPrincipal_id hs.ledger.principals hne).2.trans ((ha hidle).1 p hne)
    have hq : q.principal ≠ 0 := (Call.publication_principal carries.asks).1 ▸ hp
    obtain ⟨hquiet, hallotted⟩ := carries.admitted.allotted
    obtain ⟨hmarks', hnone⟩ := carried.nothing_pending (hs.allotted hq hquiet hallotted) hq hmarks
    obtain ⟨⟨-, hprincipals⟩, -, -⟩ := reported.marked
    obtain ⟨-, hpending⟩ := reported.pending
    refine fun _ => ⟨fun p hne => ?_, .inl (hpending.trans hnone)⟩
    exact (congrArg (pendingOf · p) hprincipals).trans (hmarks' p hne)
  | compacted _ kept idle log _ =>
    rw [kept.ledger]
    intro _
    refine ⟨(ha idle).1, .inl ?_⟩
    rw [log]
    rfl
  | uncompacted _ kept _ =>
    rw [kept.ledger]
    exact ha

end Agreement

/-- The account of one preparation at a time. -/
def pendingAccount (fmt : Format D C) : Account fmt where
  rules := singleRules
  P := OnlyPending
  M l _ h := PendingAgree fmt l h
  allows := KnowsPending fmt
  stable := onlyPending_stable
  empty := onlyPending_empty
  resumed _ _ hP hidle := fun _ => ⟨fun _ hp => hP.nobody hidle hp, .inl hidle⟩
  cleared _ _ _ _ _ _ hh ha hk := hk.cleared hh ha
  does _ _ _ _ _ _ _ _ hp hs hh ha hk hd := hk.agree hp hs hh ha hd

/-- A publication is carried out only by a service that knows that nothing is pending: its
memory is in the arena its superblock names, it appends where its log ends, nothing is
pending and the record written last is no preparation.  A compaction is begun only in the
arena its superblock names. -/
def Service.knowsPending (fmt : Format D C) (s : Service D C) (call : Call D C) : Bool :=
  (!s.carriesOut fmt call ||
      (s.store.anchored && s.store.atEnd && s.store.pending.isNone && !s.store.endsPrepared)) &&
    (!s.compacts call || s.store.anchored)

theorem Service.knowsPending_allows {service : Service D C} {call : Call D C}
    (hd : service.dispatches call = true) (hk : service.knowsPending fmt call = true) :
    KnowsPending fmt (service.posed fmt call).store call := by
  unfold Service.knowsPending at hk
  simp only [Bool.and_eq_true, Bool.or_eq_true, Bool.not_eq_true', isNone_iff_eq_none] at hk
  obtain ⟨hpublish, hcompact⟩ := hk
  refine ⟨fun q request u hc => ?_, fun hrequest => ?_⟩
  · obtain ⟨⟨⟨hanchored, hatEnd⟩, hidle⟩, hends⟩ := hpublish.resolve_left fun hout => by
      rw [hc.carriesOut hd] at hout
      cases hout
    exact ⟨hanchored, hatEnd, hidle, hends⟩
  · refine hcompact.resolve_left fun hout => ?_
    rw [Service.compacts_of hd hrequest] at hout
    cases hout

theorem allResolved_of_resumed {s : Store D C} {h : List (Record D C)}
    (hr : Resumed fmt singleRules OnlyPending s h) : AllResolved fmt s := by
  have hchain := hr.live.ready.standing.chain
  have hidle : (ledger fmt h).pending = none := by
    rw [← hr.ledger]
    exact hr.idle
  have hprincipals : s.principals = (ledger fmt h).principals := congrArg Ledger.principals hr.ledger
  have horderly := hchain.ledger_sized.principals
  refine ⟨fun entry he => ?_, fun before r after record hsplit hp => ?_⟩
  · rw [hprincipals] at he
    by_cases hnamed : entry.principal = 0
    · rw [horderly.blank entry he hnamed]
      rfl
    · have hnobody := hr.live.ready.standing.holds.nobody hidle hnamed
      unfold pendingOf at hnobody
      rw [entryOf_of_mem horderly.distinct he hnamed] at hnobody
      exact hnobody
  · have hlog : h = after.reverse ++ r :: before.reverse := by
      rw [← reverse_reverse h, ← hr.live.adopted, hsplit]
      simp
    have hcount := hchain.tally.resolved _ _ _ record hlog hp
    rw [hidle, map_none, if_neg (by simp)] at hcount
    rwa [countP_reverse] at hcount

/-- **After a recovery nothing is left unresolved**, in every run in which no service
publishes while something is pending or may be, whoever asks, whatever writes and flushes
fail and wherever the power is lost. -/
theorem recovered_all_resolved {host : Host D C}
    (hr : ((machine fmt).within (Minds (Service.knowsPending fmt))).Reachable host) {b : Boot}
    (hreads : b.fails = fun _ _ => false) {s : Store D C} (hrun : host.recovered fmt b = some s) :
    AllResolved fmt s := by
  obtain ⟨h, hresumed⟩ := Account.recovered (a := pendingAccount fmt) id
    Service.knowsPending_allows hr hreads hrun
  exact allResolved_of_resumed hresumed

/-- The publisher's publication stops after its preparation, the rival's goes through. -/
def preparedOver : List (Event Symbol (Content Symbol)) :=
  opening ++ [
    .serve (.publishEmpty 1 1 0 (List.replicate 2 .ok ++ [.failed .nothing false])),
    .cut (.publishEmpty 2 1 0 (List.replicate 10 .ok)) fun _ => 0]

/-- The requests the principals' entries say are pending after a run and a recovery. -/
def pendingAfter (events : List (Event Symbol (Content Symbol))) : Option (List Nat) :=
  ((System.exec (Host.step symbolicFormat) events .blank).bind
    (Host.recovered symbolicFormat .smooth)).map fun s =>
      s.principals.map PrincipalEntry.pendingSequence

/-- A preparation another one was written over is never resolved. -/
theorem preparation_forgotten :
    ¬ ∀ host, (machine symbolicFormat).Reachable host → ∀ b s, b.fails = (fun _ _ => false) →
      host.recovered symbolicFormat b = some s → AllResolved symbolicFormat s := by
  intro hall
  have hmarked : pendingAfter preparedOver = some [1, 0, 0, 0] := by decide +kernel
  obtain ⟨s, hs, hmarks⟩ := map_eq_some_iff.mp hmarked
  obtain ⟨host, hhost, hrecovered⟩ := bind_eq_some_iff.mp hs
  have hresolved := hall host (System.reachable_of_exec (.init rfl) hhost) .smooth s rfl hrecovered
  have hmem : 1 ∈ s.principals.map PrincipalEntry.pendingSequence := by
    rw [hmarks]
    simp
  obtain ⟨entry, hentry, hone⟩ := mem_map.mp hmem
  rw [hresolved.marks entry hentry] at hone
  cases hone

/-- A publication goes through, the next stops after its preparation. -/
def preparedLast : List (Event Symbol (Content Symbol)) :=
  opening ++ [
    .serve (.publishEmpty 1 1 0 (List.replicate 10 .ok)),
    .cut (.publishEmpty 1 2 1 (List.replicate 2 .ok ++ [.failed .nothing false])) fun _ => 0]

theorem last_preparation_resolved :
    ∃ host s, ((machine symbolicFormat).within
        (Minds (Service.knowsPending symbolicFormat))).Reachable host ∧
      host.recovered symbolicFormat .smooth = some s ∧ AllResolved symbolicFormat s := by
  have hsome : ((System.exec (System.guarded
      (fun host event => Host.minds (Service.knowsPending symbolicFormat) host event = true)
      (Host.step symbolicFormat)) preparedLast .blank).bind
        (Host.recovered symbolicFormat .smooth)).isSome = true := by decide +kernel
  obtain ⟨s, hs⟩ := isSome_iff_exists.mp hsome
  obtain ⟨host, hhost, hrecovered⟩ := bind_eq_some_iff.mp hs
  have hanswered : Answered preparedLast := by
    simp [Answered, preparedLast, opening, Event.recovery, Boot.smooth]
  have hreachable := reachable_minds symbolicFormat hanswered hhost
  exact ⟨host, s, hreachable, hrecovered, recovered_all_resolved hreachable rfl hrecovered⟩

end Thalyx.K4
