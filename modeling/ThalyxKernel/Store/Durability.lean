/-
What is published stays published.

Once a call has put a new version into the memory, the log has its commit and nothing is
left unflushed below it.  From then on whatever recovery may adopt tells that version or a
later one, and its principal's mark; a compaction carries both over.  So this is an account
that begins in the middle of a run: it holds of no empty store.
-/
import ThalyxKernel.Store.Versions

namespace Thalyx.K4

open List Option

variable {D C : Type} {fmt : Format D C} [DecidableEq D] {rules : Rules D}
  {P Q : Ledger D → Prop} {s t u v : Store D C} {hf h hf' h' : List (Record D C)}
  {r c : Record D C} {l : Ledger D} {p n : Nat}

/-! ### A weaker property of the tables -/

section Weaker

variable {d : Device (Block D C)} {sb : Superblock D} (hPQ : ∀ l, P l → Q l)

include hPQ

theorem Stands.mono (h : Stands fmt rules P d sb hf) : Stands fmt rules Q d sb hf :=
  { h with holds := hPQ _ h.holds }

theorem Medium.mono (h : Medium fmt rules P d) : Medium fmt rules Q d := by
  refine ⟨h.sound, h.labelled, ?_⟩
  rcases h.guarded with ⟨slot, sb, log, hslot, hheld, hstands, hother⟩ | hu
  · refine .inl ⟨slot, sb, log, hslot, hheld, hstands.mono hPQ, fun sb' hsb' => ?_⟩
    exact (hother sb' hsb').imp id fun ⟨hnew, log', hstands'⟩ => ⟨hnew, log', hstands'.mono hPQ⟩
  · refine .inr ⟨hPQ _ hu.empty, hu.records, hu.slotB, fun sb hsb => ?_⟩
    obtain ⟨log, hstands⟩ := hu.slotA sb hsb
    exact ⟨log, hstands.mono hPQ⟩

theorem Holding.mono (h : Holding fmt rules P s hf h') : Holding fmt rules Q s hf h' := by
  have hstanding : ∀ {s : Store D C}, Standing fmt rules P s hf h' →
      Standing fmt rules Q s hf h' := fun hs => { hs with holds := hPQ _ hs.holds }
  refine h.imp (fun hl => ⟨hstanding hl.standing, hl.indexes, hl.neat, hl.atEnd⟩) fun ha => ?_
  refine ⟨ha.medium.mono hPQ, ha.astray, fun ht hup => ?_⟩
  obtain ⟨s0, hdevice, hs⟩ := ha.still ht hup
  exact ⟨s0, hdevice, hstanding hs⟩

end Weaker

/-! ### The version a ledger tells -/

/-- The published generation, with its root and its policy. -/
def Ledger.version (l : Ledger D) : Nat × D × D := (l.generation, l.root, l.policy)

variable {q : Publication D} {request : D} {g : Nat}

omit [DecidableEq D] in
theorem Prepares.version (hr : Prepares q request r) (l : Ledger D) :
    (l.step fmt r).version = l.version := by
  obtain ⟨pending, -, -, -, -, -, -, hstep⟩ := @Prepares.step _ _ fmt _ _ _ hr l
  rw [hstep]
  rfl

omit [DecidableEq D] in
theorem Commits.version (hc : Commits fmt q g r c) (l : Ledger D) :
    (l.step fmt c).version = (g, q.candidateRoot, q.policyDigest) := by
  obtain ⟨record, -, -, -, rfl, hroot, hpolicy, hstep⟩ := hc.step l
  rw [hstep, ← hroot, ← hpolicy]
  rfl

omit [DecidableEq D] in
theorem Record.IsOutbox.version (hr : r.IsOutbox) (l : Ledger D) :
    (l.step fmt r).version = l.version := by
  obtain ⟨record, hp⟩ := hr
  unfold Ledger.step
  rw [hp]
  rfl

/-- The memory and the log tell the same version, where they tell the same number. -/
def SameVersion (l m : Ledger D) : Prop := l.generation = m.generation → l.version = m.version

/-- The version a publication asks for. -/
def Publication.version (q : Publication D) : Nat × D × D :=
  (q.expectedGeneration + 1, q.candidateRoot, q.policyDigest)

omit [DecidableEq D] in
theorem Carried.published (hc : Carried fmt q request u hf h (some g) t hf' h')
    (hg : q.expectedGeneration = u.publishedGeneration) :
    hf' = h' ∧ t.ledger.version = q.version ∧ (ledger fmt h').version = q.version ∧
      ∃ record ∈ commits h', record.principal = q.principal ∧
        record.requestSequence = q.sequence := by
  cases hc with
  | @done _ r c objs prepares objects commits hledger _ _ =>
    rw [← hg] at commits
    obtain ⟨record, hpayload, hprincipal, hsequence, -⟩ := commits.step (ledger fmt h)
    refine ⟨rfl, ?_, commits.version _, record, ?_, hprincipal, hsequence⟩
    · rw [hledger]
      exact commits.version _
    · rw [commits_cons, Record.commit?, hpayload]
      exact mem_cons_self

omit [DecidableEq D] in
/-- **A publication leaves the memory and the log telling the same version.** -/
theorem Carried.version {out : Option Nat} (hc : Carried fmt q request u hf h out t hf' h')
    (hg : q.expectedGeneration = u.publishedGeneration)
    (hv : u.ledger.version = (ledger fmt h).version) : SameVersion t.ledger (ledger fmt h') := by
  have hdone := hc
  cases hc with
  | unprepared kept =>
    rw [kept.ledger]
    exact fun _ => hv
  | @unflushed _ r kept prepares =>
    rw [kept.ledger]
    exact fun _ => hv.trans (prepares.version (ledger fmt h)).symm
  | @stopped _ r settled objs prepares objects hledger _ _ =>
    have hlog : ledger fmt (objs ++ (settled ++ r :: h)) = (ledger fmt h).step fmt r := by
      rw [← append_assoc]
      exact ledger_append_objects objects
    rw [hledger, hlog]
    intro _
    rw [prepares.version, prepares.version, hv]
  | @doubtful _ r c objs prepares objects commits hledger _ _ =>
    rw [hledger]
    intro hsame
    have hmemory := congrArg Prod.fst (@Prepares.version _ _ fmt _ _ _ prepares u.ledger)
    have hlog := congrArg Prod.fst (commits.version (ledger fmt (objs ++ r :: h)))
    exact absurd (hmemory.symm.trans (hsame.trans hlog)) (Nat.succ_ne_self _).symm
  | done =>
    obtain ⟨-, hmemory, hlog, -⟩ := hdone.published hg
    exact fun _ => hmemory.trans hlog.symm

omit [DecidableEq D] in
theorem Reported.version (hr : Reported fmt s hf h t hf' h') :
    t.ledger.version = s.ledger.version ∧ (ledger fmt h').version = (ledger fmt h).version := by
  cases hr with
  | unwritten kept => exact ⟨by rw [kept.ledger], rfl⟩
  | @unflushed r outbox kept => exact ⟨by rw [kept.ledger], outbox.version _⟩
  | @done r outbox hledger _ _ => exact ⟨by rw [hledger]; exact outbox.version _, outbox.version _⟩

omit [DecidableEq D] in
theorem Reported.settled (hr : Reported fmt s h h t hf' h') :
    h <:+ hf' ∧ (ledger fmt hf').version = (ledger fmt h).version := by
  cases hr with
  | unwritten | unflushed => exact ⟨suffix_refl _, rfl⟩
  | @done r outbox _ _ _ => exact ⟨suffix_cons _ _, outbox.version _⟩

/-! ### A version and a mark that stay -/

/-- **Under the rules of versions a mark only moves on.** -/
theorem Chain.mark_le (hc : Chain fmt versionRules (r :: h)) (hne : h ≠ []) (hp : p ≠ 0) :
    highWaterOf (ledger fmt h).principals p ≤ highWaterOf (ledger fmt (r :: h)).principals p := by
  obtain ⟨x, below, rfl⟩ := exists_cons_of_ne_nil hne
  have hsized := hc.tail.ledger_sized
  have hpending := hc.tail.told.pending
  -- What is resolved is its principal's next request.
  have hresolved : ∀ {pending : Pending D}, (ledger fmt (x :: below)).pending = some pending →
      highWaterOf (ledger fmt (x :: below)).principals p ≤ highWaterOf
        (markResolved pending.principal pending.requestSequence
          (ledger fmt (x :: below)).principals) p := by
    intro pending hp'
    obtain ⟨htaken, hnext, -⟩ := hpending pending hp'
    rw [highWaterOf_markResolved hsized.principals _
      ((principalSlot_isSome hsized.principals (mem_taken.mp htaken).1).mpr (.inl htaken)) hp]
    split
    · rename_i heq
      rw [hnext, heq]
      exact Nat.le_succ _
    · exact Nat.le_refl _
  have hmoves := hc.moves
  generalize ledger fmt (r :: x :: below) = m at hmoves ⊢
  cases hmoves with
  | object | outbox => exact Nat.le_refl _
  | prepare => exact Nat.le_of_eq (highWaterOf_markPending hsized.principals _ hp).symm
  | commit _ pends resolves =>
    have hle := hresolved pends
    rwa [resolves.principal, resolves.requestSequence] at hle
  | abort _ pends resolves =>
    have hle := hresolved pends
    rwa [resolves.principal, resolves.requestSequence] at hle

/-- A ledger tells this version or a later one, and a principal's mark is this far at least. -/
def Since (w : Nat × D × D) (p n : Nat) (l : Ledger D) : Prop :=
  (w.1 < l.generation ∨ l.version = w) ∧ n ≤ highWaterOf l.principals p

variable {w : Nat × D × D}

theorem since_stable (hp : p ≠ 0) : Stable fmt versionRules (Since w p n) := by
  intro r h hne hc hsince
  refine ⟨?_, hsince.2.trans (hc.mark_le hne hp)⟩
  obtain ⟨x, below, rfl⟩ := exists_cons_of_ne_nil hne
  have hversion := hsince.1
  have hmoves := hc.moves
  generalize ledger fmt (r :: x :: below) = m at hmoves ⊢
  cases hmoves with
  | object | prepare | abort | outbox => exact hversion
  | @commit record _ _ _ _ rule =>
    refine .inl ?_
    show w.1 < record.newGeneration
    have hle : w.1 ≤ (ledger fmt (x :: below)).generation :=
      hversion.elim Nat.le_of_lt fun heq => (congrArg Prod.fst heq).ge
    have hrule : record.newGeneration = (ledger fmt (x :: below)).generation + 1 := rule
    omega

theorem Carries.version {call : Call D C} (hcarries : Carries fmt s call q request u)
    (hk : KnowsVersion fmt s call) (hh : Holding fmt versionRules P s hf h)
    (ha : VersionsAgree fmt s.ledger h) (hv : SameVersion s.ledger (ledger fmt h)) :
    q.expectedGeneration = u.publishedGeneration ∧
      u.ledger.version = (ledger fmt h).version := by
  obtain ⟨hanchored, hatEnd, hdoubt⟩ := hk.publish q request u hcarries
  have hgeneration := hcarries.admitted.generation
  obtain ⟨i, table, -, rfl, -⟩ := hcarries.admitted.slot
  exact ⟨hgeneration, hv (ha.sure (hh.live hanchored hatEnd) hdoubt).1⟩

/-- **What keeps a version and a mark from the moment they are settled.** -/
def sinceKeeping (fmt : Format D C) (w : Nat × D × D) (n : Nat) (hp : p ≠ 0) :
    Keeping fmt where
  rules := versionRules
  P := Since w p n
  M l _ h := VersionsAgree fmt l h ∧ SameVersion l (ledger fmt h)
  allows := KnowsVersion fmt
  stable := since_stable hp
  resumed _ _ _ _ := ⟨.inl ⟨rfl, Marked.refl _⟩, fun _ => rfl⟩
  cleared := by
    intro s hf h call hcaller hs hh ⟨ha, hv⟩ hk
    have hcleared := hk.cleared hcaller hs (hh.mono fun _ _ => trivial) ha
    refine ⟨hcleared.publish, fun hcompact => ⟨hk.compact hcompact, fun hnone => ?_⟩⟩
    have hstanding := (hh.lodged (hk.compact hcompact)).standing
    have hsince : Since w p n (ledger fmt h) :=
      (since_stable hp).extend hstanding.chain hstanding.suffix hstanding.ne_nil hstanding.holds
    -- With nothing pending the memory and the log tell the same.
    rcases ha with ⟨hgeneration, hmarked⟩ | ⟨hpending, -⟩
    · have hmark := (hmarked.marks p hp).symm.trans ((Marked.reopened s.ledger).marks p hp)
      refine ⟨?_, hmark ▸ hsince.2⟩
      show w.1 < s.ledger.generation ∨ s.ledger.version = w
      rw [hgeneration, hv hgeneration]
      exact hsince.1
    · have hnone' : s.ledger.pending = none := hnone
      rw [hnone'] at hpending
      cases hpending
  does := by
    intro s hf h call reply t hf' h' hcaller hs hh ⟨ha, hv⟩ hk hd
    refine ⟨hk.agree hcaller hs (hh.mono fun _ _ => trivial) ha hd, ?_⟩
    cases hd with
    | idle _ allotted _ =>
      rcases allotted with hledger | ⟨i, table, -, hledger⟩ <;> rw [hledger] <;> exact hv
    | stopped carries carried _ =>
      obtain ⟨hg, hu⟩ := carries.version hk hh ha hv
      exact carried.version hg hu
    | published carries carried reported _ =>
      obtain ⟨-, hmemory, hlog, -⟩ := carried.published (carries.version hk hh ha hv).1
      obtain ⟨hmemory', hlog'⟩ := reported.version
      exact fun _ => (hmemory'.trans hmemory).trans (hlog'.trans hlog).symm
    | compacted _ kept _ log _ =>
      rw [kept.ledger, log]
      exact fun _ => rfl
    | uncompacted _ kept _ =>
      rw [kept.ledger]
      exact hv

/-! ### From the answer on -/

section Answered

variable {host host' host'' : Host D C} {service service' : Service D C} {call call' : Call D C}
  {q' : Publication D}

theorem Service.dispatch_publication (hq : call.publication = some q) :
    service.dispatch fmt call =
      service.publish fmt q call.invocation call.effect call.broker := by
  unfold Call.publication at hq
  split at hq
  · rename_i hrequest
    obtain rfl := some.inj hq
    unfold Service.dispatch
    rw [hrequest]
  · cases hq

theorem Service.carries_of (h : service.carriesOut fmt call = true)
    (hq : call.publication = some q) :
    service.dispatches call = true ∧
      ∃ identity u, Carries fmt (service.posed fmt call).store call q identity u := by
  unfold Service.carriesOut at h
  simp only [hq, Bool.and_eq_true] at h
  obtain ⟨⟨hd, heffect⟩, hadmits⟩ := h
  split at hadmits
  · rename_i identity u hrun
    exact ⟨hd, identity, u, hq, heffect, hrun⟩
  · cases hadmits

omit [DecidableEq D] in
theorem Service.dispatches_ready (h : service.dispatches call = true) :
    service.store.ready = true ∧ call.principal ≠ 0 := by
  unfold Service.dispatches at h
  simp only [Bool.and_eq_true] at h
  exact ⟨h.2, permitted_ne_zero h.1.1⟩

/-- In a run in which no service publishes on a version it does not know, `service` carries out
publication `q` and answers COMMITTED. -/
structure Committed (fmt : Format D C) (host : Host D C) (service : Service D C) (call : Call D C)
    (q : Publication D) (host' : Host D C) : Prop where
  reached : ((machine fmt).within (Minds (Service.knowsVersion fmt))).Reachable host
  up : host.phase = .up service
  knows : service.knowsVersion fmt call = true
  publication : call.publication = some q
  carriedOut : service.carriesOut fmt call = true
  answer : (service.serve fmt call).1.outcome = .committed
  step : host.step fmt (.serve call) = some host'

theorem Committed.principal (hc : Committed fmt host service call q host') : q.principal ≠ 0 :=
  (Call.publication_principal hc.publication).1 ▸
    (Service.dispatches_ready (Service.carries_of hc.carriedOut hc.publication).1).2

/-- **What is committed is kept from then on.** -/
theorem Committed.holds (hc : Committed fmt host service call q host') :
    (sinceKeeping fmt q.version q.sequence hc.principal).Holds host'.phase := by
  obtain ⟨hd, identity, u, hcarries⟩ := Service.carries_of hc.carriedOut hc.publication
  obtain ⟨hready, hcaller⟩ := Service.dispatches_ready hd
  have hholds := Account.holds_of_minds (a := versionAccount fmt) id
    Service.knowsVersion_allows hc.reached
  rw [hc.up] at hholds
  have hupheld : (versionAccount fmt).toKeeping.Upheld (service.posed fmt call).store :=
    (hholds.2.1 hready).posed fun ht => ht.elim
  obtain ⟨hsized, hf, h, hposed, ha⟩ := hupheld
  have hk := Service.knowsVersion_allows hd hc.knows
  obtain ⟨hf', h', hlive, hends⟩ := Service.publish_carried (versionAccount fmt).stable hposed
    hcaller hcarries (hk.cleared hcaller hsized hposed ha)
  rw [← Service.dispatch_publication hc.publication, ← Service.serve_dispatches hd] at hlive hends
  rcases hends with ⟨g, v, hfv, hv, hcarried, hreported, -⟩ | ⟨-, hstopped⟩
  · have hg := hcarries.admitted.generation
    have hu : u.publishedGeneration = (service.posed fmt call).store.publishedGeneration := by
      obtain ⟨i, table, -, rfl, -⟩ := hcarries.admitted.slot
      rfl
    obtain ⟨rfl, hmemory, hlog, record, hrecord, hprincipal, hsequence⟩ :=
      hcarried.published (hg.trans hu.symm)
    obtain ⟨hsuffix, hsettled⟩ := hreported.settled
    obtain ⟨hmemory', hlog'⟩ := hreported.version
    have hstanding := hlive.ready.standing
    have hsince : Since q.version q.principal q.sequence (ledger fmt hf') := by
      refine ⟨.inr (hsettled.trans hlog), ?_⟩
      have htold := (hstanding.chain.suffix hstanding.suffix hstanding.ne_nil).told
      rw [← hprincipal, ← hsequence]
      exact (htold.resolved record (hsuffix.filterMap _ |>.subset hrecord)).2
    have hraised : Holding fmt versionRules (Since q.version q.principal q.sequence)
        (service.serve fmt call).2.store hf' h' :=
      .inl ⟨{ hstanding with holds := hsince }, hlive.indexes, hlive.ready.neat,
        fun _ => hlive.ready.atEnd⟩
    have hsized' (hready' : (service.serve fmt call).2.store.ready = true) :
        (service.serve fmt call).2.store.Sized :=
      ((Keeping.serve_holds (a := (versionAccount fmt).toKeeping) hholds.2.1 hholds.2.2
        (fun _ => hk) fun ht => ht.elim).1 hready').1
    have hstep := hc.step
    unfold Host.step at hstep
    simp only [hc.up] at hstep
    obtain ⟨hpower, ⟨⟩⟩ := ite_none_left_eq_some.mp hstep
    refine ⟨by simpa using hpower, fun hready' => ⟨hsized' hready', hf', h', hraised, ?_, ?_⟩,
      hraised.medium⟩
    · exact hk.agree hcaller hsized hposed ha (.published hcarries hcarried hreported hc.answer)
    · exact fun _ => (hmemory'.trans hmemory).trans (hlog'.trans hlog).symm
  · rw [hc.answer] at hstopped
    split at hstopped <;> cases hstopped

end Answered

/-! ### A publication that is answered, and another -/

end Thalyx.K4
