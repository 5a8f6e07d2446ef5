/-
The versions a log tells, one after the other.

Every commit publishes the generation after the one it replaces, and no request is committed
twice; so a chain that recovery adopts is a line of versions.  This rests on the memory
knowing of every commit that may be on the medium.  A commit whose flush was refused may be
there although the memory has not moved on, and a publication carried out then would commit
the same generation, or the same request, once more.
-/
import ThalyxKernel.Store.Account
import ThalyxKernel.Store.Marks

namespace Thalyx.K4

open Fallible List Option

variable {D C : Type} {fmt : Format D C} [DecidableEq D]

/-! ### The chain recovery adopts -/

/-- The records from the start of the arena to where the store appends, oldest first. -/
def Store.adopted (s : Store D C) : List (Record D C) :=
  (List.range (s.nextBlock - s.arenaStart)).filterMap fun i =>
    (s.disk.device.read (s.arenaStart + i)).parseRecord

/-- The commit a record is. -/
def Record.commit? (r : Record D C) : Option (CommitRecord D) :=
  match r.payload with
  | .commit record => some record
  | _ => none

/-- The commits of a log. -/
def commits (log : List (Record D C)) : List (CommitRecord D) := log.filterMap Record.commit?

/-- Whose request a commit is of. -/
def CommitRecord.pair (c : CommitRecord D) : Nat × Nat := (c.principal, c.requestSequence)

/-- **A log, oldest record first, that tells a line of versions.** -/
structure Linear (fmt : Format D C) (log : List (Record D C)) : Prop where
  /-- From the checkpoint's generation on, each commit's is the next. -/
  generations : ∃ r rest head, log = r :: rest ∧ r.payload = .checkpoint head ∧
    (commits log).map CommitRecord.newGeneration
      = List.range' (head.publishedGeneration + 1) (commits log).length
  /-- What a commit's preparation expected is the generation the commit replaced. -/
  expected : ∀ c ∈ commits log, ∃ r ∈ log, ∃ record : PrepareRecord D,
    r.payload = .prepare record ∧ c.prepareSequence = r.sequence ∧
      c.prepareDigest = fmt.recordDigest r ∧ record.principal = c.principal ∧
      record.requestSequence = c.requestSequence ∧ record.expectedGeneration + 1 = c.newGeneration
  /-- No request is committed twice. -/
  once : ((commits log).map CommitRecord.pair).Nodup

omit [DecidableEq D] in
theorem Placed.adopted {d : Device (Block D C)} {start : Nat} {h : List (Record D C)}
    (hp : Placed d start h) :
    (List.range h.length).filterMap (fun i => (d.read (start + i)).parseRecord) = h.reverse := by
  induction h with
  | nil => rfl
  | cons r h ih =>
    rw [length_cons, range_succ, filterMap_append, ih hp.2, reverse_cons]
    simp [hp.1, Block.parseRecord]

theorem Live.adopted {rules : Rules D} {P : Ledger D → Prop} {s : Store D C}
    {hf h : List (Record D C)} (hl : Live fmt rules P s hf h) : s.adopted = h.reverse := by
  unfold Store.adopted
  rw [hl.ready.atEnd.nextBlock, Nat.add_sub_cancel_left]
  exact hl.ready.standing.placed.adopted

/-! ### The rules of a line of versions -/

/-- A preparation is of its principal's next request and expects the published generation,
and a commit publishes the next. -/
def versionRules : Rules D where
  prepare l record :=
    record.requestSequence = highWaterOf l.principals record.principal + 1 ∧
      record.expectedGeneration = l.generation ∧
      (principalSlot record.principal l.principals).isSome
  commit l record := record.newGeneration = l.generation + 1
  tidy := False

/-- What a chain under these rules says, newest record first. -/
structure Told (fmt : Format D C) (h : List (Record D C)) : Prop where
  generations : ∃ first head, h.getLast? = some first ∧ first.payload = .checkpoint head ∧
    (ledger fmt h).generation = head.publishedGeneration + (commits h).length ∧
    (commits h.reverse).map CommitRecord.newGeneration
      = List.range' (head.publishedGeneration + 1) (commits h).length
  /-- What is pending is in the log, and is its principal's next request. -/
  pending : ∀ pending, (ledger fmt h).pending = some pending →
    pending.principal ∈ taken (ledger fmt h).principals ∧
    pending.requestSequence = highWaterOf (ledger fmt h).principals pending.principal + 1 ∧
    ∃ r ∈ h, ∃ record : PrepareRecord D, r.payload = .prepare record ∧
      pending.prepareSequence = r.sequence ∧ pending.prepareDigest = fmt.recordDigest r ∧
      record.principal = pending.principal ∧
      record.requestSequence = pending.requestSequence ∧
      record.expectedGeneration = (ledger fmt h).generation
  expected : ∀ c ∈ commits h, ∃ r ∈ h, ∃ record : PrepareRecord D,
    r.payload = .prepare record ∧ c.prepareSequence = r.sequence ∧
      c.prepareDigest = fmt.recordDigest r ∧ record.principal = c.principal ∧
      record.requestSequence = c.requestSequence ∧ record.expectedGeneration + 1 = c.newGeneration
  resolved : ∀ c ∈ commits h, c.principal ≠ 0 ∧
    c.requestSequence ≤ highWaterOf (ledger fmt h).principals c.principal
  once : ((commits h).map CommitRecord.pair).Nodup

section Told

variable {h : List (Record D C)} {r : Record D C}

omit [DecidableEq D] in
theorem commits_cons (r : Record D C) (h : List (Record D C)) :
    commits (r :: h) = r.commit?.toList ++ commits h := by
  unfold commits
  rw [filterMap_cons]
  cases r.commit? <;> rfl

omit [DecidableEq D] in
theorem commits_reverse_cons (r : Record D C) (h : List (Record D C)) :
    commits (r :: h).reverse = commits h.reverse ++ r.commit?.toList := by
  unfold commits
  rw [reverse_cons, filterMap_append]
  cases hr : r.commit? <;> simp [hr]

omit [DecidableEq D] in
theorem Told.cons (ht : Told fmt h) (hr : r.commit? = none) (hinner : h ≠ [])
    (hgeneration : (ledger fmt (r :: h)).generation = (ledger fmt h).generation)
    (hmarks : ∀ p, p ≠ 0 → highWaterOf (ledger fmt h).principals p
      ≤ highWaterOf (ledger fmt (r :: h)).principals p)
    (hpending : ∀ pending, (ledger fmt (r :: h)).pending = some pending →
      pending.principal ∈ taken (ledger fmt (r :: h)).principals ∧
      pending.requestSequence
        = highWaterOf (ledger fmt (r :: h)).principals pending.principal + 1 ∧
      ∃ r' ∈ r :: h, ∃ record : PrepareRecord D, r'.payload = .prepare record ∧
        pending.prepareSequence = r'.sequence ∧ pending.prepareDigest = fmt.recordDigest r' ∧
        record.principal = pending.principal ∧
        record.requestSequence = pending.requestSequence ∧
        record.expectedGeneration = (ledger fmt (r :: h)).generation) : Told fmt (r :: h) := by
  have hcommits : commits (r :: h) = commits h := by rw [commits_cons, hr]; rfl
  have hreverse : commits (r :: h).reverse = commits h.reverse := by
    rw [commits_reverse_cons, hr]
    exact append_nil _
  obtain ⟨first, head, hfirst, hp, hcount, hline⟩ := ht.generations
  refine ⟨⟨first, head, ?_, hp, ?_, ?_⟩, hpending, fun c hc => ?_, fun c hc => ?_, ?_⟩
  · obtain ⟨p, below, rfl⟩ := exists_cons_of_ne_nil hinner
    rw [getLast?_cons_cons]
    exact hfirst
  · rw [hgeneration, hcommits]
    exact hcount
  · rw [hreverse, hcommits]
    exact hline
  · rw [hcommits] at hc
    obtain ⟨r', hr', hrest⟩ := ht.expected c hc
    exact ⟨r', mem_cons_of_mem _ hr', hrest⟩
  · rw [hcommits] at hc
    obtain ⟨hne, hle⟩ := ht.resolved c hc
    exact ⟨hne, Nat.le_trans hle (hmarks _ hne)⟩
  · rw [hcommits]
    exact ht.once

omit [DecidableEq D] in
theorem Told.same (ht : Told fmt h) (hr : r.commit? = none) (hinner : h ≠ [])
    (hgeneration : (ledger fmt (r :: h)).generation = (ledger fmt h).generation)
    (hprincipals : (ledger fmt (r :: h)).principals = (ledger fmt h).principals)
    (hpending : (ledger fmt (r :: h)).pending = (ledger fmt h).pending) : Told fmt (r :: h) := by
  refine ht.cons hr hinner hgeneration (fun p _ => hprincipals ▸ Nat.le_refl _) fun pending hp => ?_
  rw [hpending] at hp
  obtain ⟨htaken, hnext, r', hr', hrest⟩ := ht.pending pending hp
  rw [hprincipals, hgeneration]
  exact ⟨htaken, hnext, r', mem_cons_of_mem _ hr', hrest⟩

/-- **A chain under the rules of versions tells a line of them.** -/
theorem Chain.told (hc : Chain fmt versionRules h) : Told fmt h := by
  induction hc with
  | @opened r head hp _ =>
    have hcommits : commits [r] = [] := by
      unfold commits Record.commit?
      simp [hp]
    have hledger : ledger fmt [r] = head.ledger := by
      show (ledger fmt []).step fmt r = _
      unfold Ledger.step
      rw [hp]
    refine ⟨⟨r, head, rfl, hp, ?_, ?_⟩, fun pending h => ?_, fun c hc => ?_, fun c hc => ?_, ?_⟩
    · rw [hledger, hcommits]
      rfl
    · show (commits [r]).map _ = _
      rw [hcommits]
      rfl
    · rw [hledger] at h
      cases h
    · rw [hcommits] at hc
      cases hc
    · rw [hcommits] at hc
      cases hc
    · rw [hcommits]
      exact nodup_nil
  | @next r p h below follows hadm ih =>
    have hsized := below.ledger_sized
    have hmoves := (Chain.next below follows hadm).moves
    have hne : p :: h ≠ [] := by simp
    generalize hl : ledger fmt (r :: p :: h) = l at hmoves
    cases hmoves with
    | object is =>
      obtain ⟨objectType, digest, content, hp⟩ := is.payload
      exact ih.same (by simp [Record.commit?, hp]) hne (by rw [hl]) (by rw [hl]) (by rw [hl])
    | @prepare record hp named rule =>
      obtain ⟨hnext, hexpected, hslot⟩ := rule
      refine ih.cons (by simp [Record.commit?, hp]) hne (by rw [hl]; rfl) (fun q hq => ?_)
        fun pending hpending => ?_
      · rw [hl]
        exact Nat.le_of_eq (highWaterOf_markPending hsized.principals _ hq).symm
      · rw [hl] at hpending ⊢
        obtain rfl := some.inj hpending
        refine ⟨(mem_taken_prepare hsized).mpr (.inr ⟨named, rfl, hslot⟩), ?_, r,
          mem_cons_self, record, hp, rfl, rfl, rfl, rfl, hexpected⟩
        show record.requestSequence
          = highWaterOf (markPending record.principal _ _) record.principal + 1
        rw [highWaterOf_markPending hsized.principals _ named]
        exact hnext
    | @commit record pending hp pends resolves rule =>
      obtain ⟨htaken, hnext, r', hr', prepared, hp', hsequence, hdigest, hprincipal,
        hrequest, hexpected⟩ := ih.pending pending pends
      have hnamed : record.principal ≠ 0 := resolves.principal ▸ (mem_taken.mp htaken).1
      have hmarks : ∀ q, q ≠ 0 → highWaterOf (ledger fmt (r :: p :: h)).principals q
          = if q = record.principal then record.requestSequence
            else highWaterOf (ledger fmt (p :: h)).principals q := by
        intro q hq
        rw [hl]
        refine highWaterOf_markResolved hsized.principals _ ?_ hq
        show (principalSlot record.principal _).isSome
        rw [← resolves.principal]
        exact (principalSlot_isSome hsized.principals (mem_taken.mp htaken).1).mpr
          (.inl htaken)
      have hnew : record.requestSequence
          = highWaterOf (ledger fmt (p :: h)).principals record.principal + 1 := by
        rw [← resolves.requestSequence, hnext, resolves.principal]
      have hgeneration : (ledger fmt (r :: p :: h)).generation = record.newGeneration := by
        rw [hl]
        rfl
      have hcommit : r.commit? = some record := by simp [Record.commit?, hp]
      have hcommits : commits (r :: p :: h) = record :: commits (p :: h) := by
        rw [commits_cons, hcommit]
        rfl
      have hreverse : commits (r :: p :: h).reverse = commits (p :: h).reverse ++ [record] := by
        rw [commits_reverse_cons, hcommit]
        rfl
      obtain ⟨first, head, hfirst, hpf, hcount, hline⟩ := ih.generations
      have hrule : record.newGeneration
          = head.publishedGeneration + (commits (p :: h)).length + 1 := by
        rw [← hcount]
        exact rule
      refine ⟨⟨first, head, ?_, hpf, ?_, ?_⟩, fun pending' h => ?_, fun c hc => ?_,
        fun c hc => ?_, ?_⟩
      · rw [getLast?_cons_cons]
        exact hfirst
      · rw [hgeneration, hrule, hcommits, length_cons]
        omega
      · rw [hreverse, map_append, hline, hcommits, length_cons, range'_1_concat,
          map_singleton, hrule]
        congr 2
        omega
      · rw [hl] at h
        cases h
      · rw [hcommits] at hc
        rcases mem_cons.mp hc with rfl | hc
        · refine ⟨r', mem_cons_of_mem _ hr', prepared, hp', ?_, ?_, ?_, ?_, ?_⟩
          · rw [← resolves.prepareSequence, hsequence]
          · rw [← resolves.prepareDigest, hdigest]
          · rw [hprincipal, resolves.principal]
          · rw [hrequest, resolves.requestSequence]
          · rw [hexpected]
            exact Eq.symm rule
        · obtain ⟨r'', hr'', hrest⟩ := ih.expected c hc
          exact ⟨r'', mem_cons_of_mem _ hr'', hrest⟩
      · rw [hcommits] at hc
        rcases mem_cons.mp hc with rfl | hc
        · refine ⟨hnamed, ?_⟩
          exact Nat.le_of_eq (by rw [hmarks _ hnamed, if_pos rfl])
        · obtain ⟨hc0, hle⟩ := ih.resolved c hc
          refine ⟨hc0, ?_⟩
          rw [hmarks _ hc0]
          split
          · rename_i heq
            rw [heq] at hle
            omega
          · exact hle
      · rw [hcommits, map_cons, nodup_cons]
        refine ⟨fun hmem => ?_, ih.once⟩
        obtain ⟨c, hc, hpair⟩ := mem_map.mp hmem
        obtain ⟨hsame, hseq⟩ := Prod.mk.inj hpair
        obtain ⟨-, hle⟩ := ih.resolved c hc
        rw [hsame, hseq, hnew] at hle
        exact Nat.not_succ_le_self _ hle
    | @abort record pending hp pends resolves =>
      obtain ⟨htaken, hnext, -⟩ := ih.pending pending pends
      refine ih.cons (by simp [Record.commit?, hp]) hne (by rw [hl]; rfl) (fun q hq => ?_)
        fun pending' hpending => ?_
      · rw [hl]
        show _ ≤ highWaterOf (markResolved record.principal record.requestSequence _) q
        rw [highWaterOf_markResolved hsized.principals _ ?_ hq]
        · split
          · subst q
            rw [← resolves.requestSequence, hnext, resolves.principal]
            exact Nat.le_succ _
          · exact Nat.le_refl _
        · rw [← resolves.principal]
          exact (principalSlot_isSome hsized.principals (mem_taken.mp htaken).1).mpr
            (.inl htaken)
      · rw [hl] at hpending
        cases hpending
    | @outbox record hp =>
      exact ih.same (by simp [Record.commit?, hp]) hne (by rw [hl]) (by rw [hl]) (by rw [hl])

omit [DecidableEq D] in
theorem Told.linear (ht : Told fmt h) : Linear fmt h.reverse := by
  have hreverse : commits h.reverse = (commits h).reverse := by
    unfold commits
    exact filterMap_reverse
  refine ⟨?_, fun c hc => ?_, ?_⟩
  · obtain ⟨first, head, hfirst, hp, -, hline⟩ := ht.generations
    obtain ⟨above, rfl⟩ := getLast?_eq_some_iff.mp hfirst
    refine ⟨first, above.reverse, head, by simp, hp, ?_⟩
    rw [hline, hreverse, length_reverse]
  · rw [hreverse, mem_reverse] at hc
    obtain ⟨r, hr, hrest⟩ := ht.expected c hc
    exact ⟨r, mem_reverse.mpr hr, hrest⟩
  · rw [hreverse, map_reverse]
    exact nodup_reverse.mpr ht.once

end Told

/-! ### How the memory agrees with the log -/

/-- A commit that was written, whose flush was refused, may be on the medium. -/
def Store.inDoubt (s : Store D C) : Bool :=
  s.pending.isSome &&
    match s.lastPayload with
    | some (.commit _) => true
    | _ => false

/-- The memory's version and marks are the log's; or the log has one commit more, and what it
resolves is pending in memory still. -/
def VersionsAgree (fmt : Format D C) (l : Ledger D) (h : List (Record D C)) : Prop :=
  (l.generation = (ledger fmt h).generation ∧ Marked l (ledger fmt h)) ∨
    (l.pending.isSome ∧ ∃ c below record, h = c :: below ∧ c.payload = .commit record)

/-- A publication is carried out only at the end of the named log, and not in doubt; a
compaction only from the named log. -/
structure KnowsVersion (fmt : Format D C) (s : Store D C) (call : Call D C) : Prop where
  publish : ∀ q request u, Carries fmt s call q request u →
    s.anchored = true ∧ s.atEnd = true ∧ s.inDoubt = false
  compact : call.request = .compact → s.anchored = true

section Agreement

variable {P : Ledger D → Prop} {s t u : Store D C} {hf h hf' h' : List (Record D C)}
  {q : Publication D} {request : D} {call : Call D C}

theorem VersionsAgree.sure {rules : Rules D} (ha : VersionsAgree fmt s.ledger h)
    (hl : Live fmt rules P s hf h) (hd : s.inDoubt = false) :
    s.publishedGeneration = (ledger fmt h).generation ∧ Marked s.ledger (ledger fmt h) := by
  rcases ha with hagree | ⟨hpending, c, below, record, rfl, hc⟩
  · exact hagree
  · unfold Store.inDoubt at hd
    rw [hl.lastPayload, show s.pending.isSome = true from hpending] at hd
    simp [hc] at hd

theorem KnowsVersion.cleared (hk : KnowsVersion fmt s call) (hp : call.principal ≠ 0)
    (hs : s.Sized) (hh : Holding fmt versionRules (fun _ => True) s hf h)
    (ha : VersionsAgree fmt s.ledger h) : Cleared fmt versionRules (fun _ => True) s h call := by
  refine ⟨fun q request u hc => ?_, fun hcompact => ⟨hk.compact hcompact, fun _ => trivial⟩⟩
  obtain ⟨hanchored, hatEnd, hdoubt⟩ := hk.publish q request u hc
  have hlive := hh.live hanchored hatEnd
  have hsized := hlive.ready.standing.chain.ledger_sized
  obtain ⟨hgeneration, hmarked⟩ := ha.sure hlive hdoubt
  have hq : q.principal ≠ 0 := (Call.publication_principal hc.asks).1 ▸ hp
  obtain ⟨hmarked', hu, htaken, hnext⟩ := hc.admitted.marked hs hq hmarked
  refine ⟨hanchored, hatEnd, fun ns => ⟨hnext, ?_, hmarked'.slot hu.ledger hsized htaken⟩,
    fun r record hr hnew => ?_⟩
  · show q.expectedGeneration = _
    rw [hc.admitted.generation]
    exact hgeneration
  · obtain ⟨pending, -, -, -, -, -, -, hstep⟩ := @Prepares.step _ _ fmt _ _ _ hr (ledger fmt h)
    show record.newGeneration = ((ledger fmt h).step fmt r).generation + 1
    rw [hstep, hnew, hgeneration]
    rfl

theorem KnowsVersion.agree {reply : Reply D C} (hk : KnowsVersion fmt s call)
    (hp : call.principal ≠ 0) (hs : s.Sized)
    (hh : Holding fmt versionRules (fun _ => True) s hf h) (ha : VersionsAgree fmt s.ledger h)
    (hd : Does fmt s hf h call reply t hf' h') : VersionsAgree fmt t.ledger h' := by
  have hcarried : ∀ {q : Publication D} {request : D} {u t : Store D C} {out : Option Nat}
      {hf' h' : List (Record D C)}, Carries fmt s call q request u →
      Carried fmt q request u hf h out t hf' h' →
      (t.publishedGeneration = (ledger fmt h').generation ∧ Marked t.ledger (ledger fmt h')) ∨
        (out = none ∧ t.ledger.pending.isSome ∧
          ∃ c below record, h' = c :: below ∧ c.payload = .commit record) := by
    intro q request u t out hf' h' hc hcarried
    obtain ⟨hanchored, hatEnd, hdoubt⟩ := hk.publish q request u hc
    have hlive := hh.live hanchored hatEnd
    obtain ⟨hgeneration, hmarked⟩ := ha.sure hlive hdoubt
    have hq : q.principal ≠ 0 := (Call.publication_principal hc.asks).1 ▸ hp
    obtain ⟨hmarked', hu, htaken, -⟩ := hc.admitted.marked hs hq hmarked
    have hsame : u.publishedGeneration = s.publishedGeneration := by
      obtain ⟨i, table, -, rfl, -⟩ := hc.admitted.slot
      rfl
    exact hcarried.marked hu hlive.ready.standing.chain.ledger_sized hq (hsame.trans hgeneration)
      hmarked' htaken
  cases hd with
  | idle quiet allotted _ =>
    rcases allotted with hledger | ⟨i, table, hslot, hledger⟩
    · rw [hledger]
      exact ha
    · rw [hledger]
      rcases ha with ⟨hgeneration, hmarked⟩ | hbehind
      · exact .inl ⟨hgeneration, hmarked.allot hs.ledger hslot⟩
      · exact .inr hbehind
  | stopped carries carried _ =>
    rcases hcarried carries carried with hagree | ⟨-, hbehind⟩
    · exact .inl hagree
    · exact .inr hbehind
  | published carries carried reported _ =>
    obtain ⟨hgeneration, hmarked⟩ := (hcarried carries carried).resolve_right
      fun hbehind => by cases hbehind.1
    obtain ⟨⟨hg, hps⟩, hg', hps'⟩ := reported.marked
    refine .inl ⟨?_, ?_⟩
    · rw [hg']
      exact hg.trans hgeneration
    · refine ⟨fun p hne => ?_, ?_⟩
      · rw [hps']
        exact (congrArg (highWaterOf · p) hps).trans (hmarked.marks p hne)
      · rw [hps']
        exact fun p hmem => (congrArg taken hps).symm ▸ hmarked.known hmem
  | compacted _ kept _ log _ =>
    rw [kept.ledger]
    refine .inl ?_
    rw [log]
    exact ⟨rfl, Marked.reopened _⟩
  | uncompacted _ kept _ =>
    rw [kept.ledger]
    exact ha

end Agreement

/-- The account of a line of versions. -/
def versionAccount (fmt : Format D C) : Account fmt where
  rules := versionRules
  P := fun _ => True
  M l _ h := VersionsAgree fmt l h
  allows := KnowsVersion fmt
  stable := .of_moves fun _ _ _ _ _ => id
  empty := trivial
  resumed _ _ _ _ := .inl ⟨rfl, Marked.refl _⟩
  cleared _ _ _ _ hp hs hh ha hk := hk.cleared hp hs hh ha
  does _ _ _ _ _ _ _ _ hp hs hh ha hk hd := hk.agree hp hs hh ha hd

/-- A publication is carried out only by a service that knows the published version: its
memory is in the arena its superblock names, it appends where its log ends, and no commit is
in doubt.  A compaction is begun only in the arena its superblock names. -/
def Service.knowsVersion (fmt : Format D C) (s : Service D C) (call : Call D C) : Bool :=
  (!s.carriesOut fmt call || (s.store.anchored && s.store.atEnd && !s.store.inDoubt)) &&
    (!s.compacts call || s.store.anchored)

theorem Service.knowsVersion_allows {service : Service D C} {call : Call D C}
    (hd : service.dispatches call = true) (hk : service.knowsVersion fmt call = true) :
    KnowsVersion fmt (service.posed fmt call).store call := by
  unfold Service.knowsVersion at hk
  simp only [Bool.and_eq_true, Bool.or_eq_true, Bool.not_eq_true'] at hk
  obtain ⟨hpublish, hcompact⟩ := hk
  refine ⟨fun q request u hc => ?_, fun hrequest => ?_⟩
  · obtain ⟨⟨hanchored, hatEnd⟩, hdoubt⟩ := hpublish.resolve_left fun hout => by
      rw [hc.carriesOut hd] at hout
      cases hout
    exact ⟨hanchored, hatEnd, hdoubt⟩
  · refine hcompact.resolve_left fun hout => ?_
    rw [Service.compacts_of hd hrequest] at hout
    cases hout

/-- **The versions of an adopted chain are a line**, in every run in which no service
publishes on a version it does not know, whatever writes and flushes fail and wherever the
power is lost. -/
theorem recovered_versions_linear {host : Host D C}
    (hr : ((machine fmt).within (Minds (Service.knowsVersion fmt))).Reachable host) {b : Boot}
    (hreads : b.fails = fun _ _ => false) {s : Store D C} (hrun : host.recovered fmt b = some s) :
    Linear fmt s.adopted := by
  obtain ⟨h, hresumed⟩ := Account.recovered (a := versionAccount fmt) id
    Service.knowsVersion_allows hr hreads hrun
  rw [hresumed.live.adopted]
  exact hresumed.live.ready.standing.chain.told.linear

/-- A publication whose commit was written and whose flush was refused, and what was issued
of a second attempt when the power was lost. -/
def committedTwice : List (Event Symbol (Content Symbol)) :=
  opening ++ [
    .serve (.publishEmpty 1 1 0 (List.replicate 8 .ok ++ [.failed .nothing false])),
    .cut (.publishEmpty 1 1 0 (List.replicate 10 .ok)) fun _ => 0]

/-- The generations of the commits in the chain a recovery adopts after a run. -/
def versionsAfter (events : List (Event Symbol (Content Symbol))) : Option (List Nat) :=
  ((System.exec (Host.step symbolicFormat) events .blank).bind
    (Host.recovered symbolicFormat .smooth)).map fun s =>
      (commits s.adopted).map CommitRecord.newGeneration

/-- After a refused flush the same generation, of the same request, is committed again. -/
theorem generation_committed_twice :
    ¬ ∀ host, (machine symbolicFormat).Reachable host → ∀ b s, b.fails = (fun _ _ => false) →
      host.recovered symbolicFormat b = some s → Linear symbolicFormat s.adopted := by
  intro hall
  have htwice : versionsAfter committedTwice = some [1, 1] := by decide +kernel
  obtain ⟨s, hs, hversions⟩ := map_eq_some_iff.mp htwice
  obtain ⟨host, hhost, hrecovered⟩ := bind_eq_some_iff.mp hs
  have hlinear := hall host (System.reachable_of_exec (.init rfl) hhost) .smooth s rfl hrecovered
  obtain ⟨-, -, head, -, -, hline⟩ := hlinear.generations
  have hlength : (commits s.adopted).length = 2 := by
    have := congrArg List.length hversions
    rwa [length_map] at this
  rw [hversions, hlength] at hline
  simp [List.range'] at hline

/-- The same refusal, with a recovery before the second attempt. -/
def committedOnce : List (Event Symbol (Content Symbol)) :=
  opening ++ [
    .cut (.publishEmpty 1 1 0 (List.replicate 8 .ok ++ [.failed .nothing false])) fun _ => 0,
    .boot .smooth,
    .cut (.publishEmpty 1 1 0 (List.replicate 10 .ok)) fun _ => 0]

theorem recovered_before_retry_linear :
    ∃ host s, ((machine symbolicFormat).within
        (Minds (Service.knowsVersion symbolicFormat))).Reachable host ∧
      host.recovered symbolicFormat .smooth = some s ∧ Linear symbolicFormat s.adopted := by
  have hsome : ((System.exec (System.guarded
      (fun host event => Host.minds (Service.knowsVersion symbolicFormat) host event = true)
      (Host.step symbolicFormat)) committedOnce .blank).bind
        (Host.recovered symbolicFormat .smooth)).isSome = true := by decide +kernel
  obtain ⟨s, hs⟩ := isSome_iff_exists.mp hsome
  obtain ⟨host, hhost, hrecovered⟩ := bind_eq_some_iff.mp hs
  have hanswered : Answered committedOnce := by
    simp [Answered, committedOnce, opening, Event.recovery, Boot.smooth]
  have hreachable := reachable_minds symbolicFormat hanswered hhost
  exact ⟨host, s, hreachable, hrecovered, recovered_versions_linear hreachable rfl hrecovered⟩

end Thalyx.K4
