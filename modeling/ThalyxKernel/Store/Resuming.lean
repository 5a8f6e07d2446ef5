/-
What recovery leaves: a store that is live on the log it adopted, its tables being the
log's own, with nothing pending.

Recovery begins on a medium a power loss has left, so nothing is in the write cache and
whatever it reads is durable.  It may stop half way, by a refused write or by the next power
loss; the medium is then one the next recovery can go on from.
-/
import ThalyxKernel.Store.Compacting

namespace Thalyx.K4

open Fallible List Device Option

variable {D C : Type} {fmt : Format D C} [DecidableEq D] {rules : Rules D} {P : Ledger D → Prop}
  {s t : Store D C} {hf h : List (Record D C)}

/-! ### What a chain says -/

omit [DecidableEq D] in
theorem Orderly.reopened {entries : List PrincipalEntry} (hlen : entries.length ≤ maxPrincipals)
    (hd : (taken entries).Nodup) (hnamed : ∀ entry ∈ entries, entry.principal ≠ 0) :
    Orderly (entries ++ List.replicate (maxPrincipals - entries.length) .zeroed) := by
  refine ⟨?_, ?_, fun entry he h0 => ?_⟩
  · rw [length_append, length_replicate]
    omega
  · have hfree : taken (List.replicate (maxPrincipals - entries.length) .zeroed) = [] := by
      unfold taken
      rw [map_replicate, filter_eq_nil_iff]
      intro p hp
      rw [(List.mem_replicate.mp hp).2]
      simp [PrincipalEntry.zeroed]
    have happend : ∀ xs ys, taken (xs ++ ys) = taken xs ++ taken ys := by
      intro xs ys
      unfold taken
      rw [map_append, filter_append]
    rw [happend, hfree, append_nil]
    exact hd
  · rcases List.mem_append.mp he with he | he
    · exact absurd h0 (hnamed entry he)
    · exact (List.mem_replicate.mp he).2

variable {l : Ledger D}

omit [DecidableEq D] in
theorem Ledger.Sized.settle (hl : l.Sized) {entry : ResultEntry D}
    (hne : entry.principal ≠ 0) : (l.settle entry).Sized :=
  ⟨hl.principals.markResolved _ hne, length_recordResult hl.results, fun _ h => by cases h⟩

omit [DecidableEq D] in
theorem Ledger.Sized.prepare (hl : l.Sized) {pending : Pending D}
    (hne : pending.principal ≠ 0) : (l.prepare pending).Sized :=
  ⟨hl.principals.markPending _ hne, hl.results, fun _ h => some.inj h ▸ hne⟩

omit [DecidableEq D] in
theorem Ledger.Sized.moves {l' : Ledger D} {r : Record D C} (hl : l.Sized)
    (hm : Moves fmt rules l r l') : l'.Sized := by
  cases hm with
  | object _ => exact hl
  | prepare _ named _ => exact hl.prepare named
  | @commit record pending _ pends resolves _ =>
    have hpublish : (l.publish record).Sized := ⟨hl.principals, hl.results, hl.pending⟩
    have hne : record.principal ≠ 0 := resolves.principal ▸ hl.pending _ pends
    exact hpublish.settle hne
  | @abort record pending _ pends resolves =>
    have hne : record.principal ≠ 0 := resolves.principal ▸ hl.pending _ pends
    exact hl.settle hne
  | outbox _ => exact ⟨hl.principals, length_setOutbox.symm ▸ hl.results, hl.pending⟩

theorem Chain.ledger_sized (hc : Chain fmt rules h) : (ledger fmt h).Sized := by
  induction hc with
  | @opened r head hp sized =>
    show ((ledger fmt []).step fmt r).Sized
    unfold Ledger.step
    rw [hp]
    exact ⟨Orderly.reopened sized.principals sized.distinct sized.named, sized.results,
      fun _ h => by cases h⟩
  | next below follows hadm ih => exact ih.moves (Chain.next below follows hadm).moves

theorem Stable.of_moves
    (hkeep : ∀ (l : Ledger D) (r : Record D C) l', l.Sized → Moves fmt rules l r l' → P l → P l') :
    Stable fmt rules P := by
  intro r h hne hc hP
  obtain ⟨p, below, rfl⟩ := exists_cons_of_ne_nil hne
  exact hkeep _ r _ hc.tail.ledger_sized hc.moves hP

theorem Chain.fits (hc : Chain fmt rules h) : Fits h := by
  induction hc with
  | @opened r head hp _ =>
    refine ⟨[], nodup_nil, Nat.zero_le _, ?_⟩
    rw [objectDigests_cons_of_not_object (by simp [Record.objectDigest?, hp])]
    exact fun _ hd => hd
  | @next r p h below follows hadm ih =>
    unfold Admissible at hadm
    by_cases hobject : r.objectDigest? = none
    · obtain ⟨ds, hnodup, hlen, hsub⟩ := ih
      exact ⟨ds, hnodup, hlen, by rwa [objectDigests_cons_of_not_object hobject]⟩
    · unfold Record.objectDigest? at hobject
      split at hobject
      · rename_i hp
        rw [hp] at hadm
        exact hadm.2.2
      · exact absurd rfl hobject

theorem Chain.small (hc : Chain fmt rules h) {d : D} {objectType : Nat} {content : C}
    (ho : objectIn h d = some (objectType, content)) : fmt.size content ≤ objectMax := by
  induction hc with
  | @opened r head hp _ =>
    rw [objectIn_cons_of_not_object (by simp [Record.objectDigest?, hp])] at ho
    cases ho
  | @next r p h below follows hadm ih =>
    unfold Admissible at hadm
    by_cases hobject : r.objectDigest? = none
    · rw [objectIn_cons_of_not_object hobject] at ho
      exact ih ho
    · unfold Record.objectDigest? at hobject
      split at hobject
      · rename_i objectType' digest content' hp
        rw [hp] at hadm
        rw [objectIn_cons_object hp] at ho
        split at ho
        · obtain ⟨rfl, rfl⟩ := Prod.mk.inj (some.inj ho)
          exact hadm.1
        · exact ih ho
      · exact absurd rfl hobject

/-! ### The index recovery builds -/

variable {d : Device (Block D C)}
variable {block room slot start : Nat}

theorem Adopted.indexes {objects : List (ObjectEntry D C)} (ha : Adopted fmt d start h objects)
    (hc : Chain fmt rules h) : Indexes fmt start objects h := by
  refine ⟨fun entry he => ?_, ha.nodup, ?_, fun entry he => ?_, fun digest => ?_,
    fun entry he _ => (ha.entries entry he).housed⟩
  · obtain ⟨-, hstage, -, content, r, ho, hsize, -, -⟩ := ha.entries entry he
    refine ⟨content, hc.objectIn_eq ho, hsize, fun staged hs => ?_⟩
    rw [hstage] at hs
    cases hs
  · obtain ⟨ds, -, hlen, hsub⟩ := hc.fits
    rw [← length_map ObjectEntry.digest]
    refine Nat.le_trans (ha.nodup.length_le_of_subset fun d hd => hsub ?_) hlen
    obtain ⟨entry, he, rfl⟩ := List.mem_map.mp hd
    obtain ⟨-, -, -, content, r, ho, -⟩ := ha.entries entry he
    rw [mem_objectDigests, ho]
    rfl
  · obtain ⟨-, -, -, content, r, ho, hsize, -, -⟩ := ha.entries entry he
    exact hsize ▸ hc.small ho
  · constructor
    · rintro ⟨entry, he, rfl, -⟩
      obtain ⟨-, -, -, content, r, ho, -⟩ := ha.entries entry he
      rw [mem_objectDigests, ho]
      rfl
    · intro hd
      obtain ⟨entry, he, hdigest⟩ := ha.found digest hd
      exact ⟨entry, he, hdigest, (ha.entries entry he).durable⟩

/-! ### The log recovery adopts -/

omit [DecidableEq D] in
theorem Placed.settled (hq : Quiescent d) (hp : Placed d start h) : Settled d start h := by
  induction h with
  | nil => trivial
  | cons r h ih => exact ⟨hp.1 ▸ hq _, ih hp.2⟩

omit [DecidableEq D] in
theorem Quiescent.possible (hq : Quiescent d)
    {x : Block D C} (hx : x ∈ (d block).possible) : d.read block = x :=
  ((hq block).possible_eq hx).symm

variable {sb : Superblock D}

omit [DecidableEq D] in
theorem Store.new_bare (disk : Disk D C) (clock : List Nat) (room slot : Nat)
    (hs : sb.Standard) : Bare sb ((Store.new fmt disk clock room).fromSuperblock sb slot) :=
  ⟨rfl, rfl, rfl, hs.blocks_eq, rfl, rfl, rfl, rfl⟩

omit [DecidableEq D] in
theorem Store.Sized.of_ledger (hl : l.Sized) (heq : s.ledger = l)
    (hretained : s.retained.length ≤ maxRetained) : s.Sized := by
  subst heq
  exact ⟨hl, hretained⟩

/-- **A store that has replayed its log is live on it.** -/
theorem Replayed.live (hp : Stable fmt rules P)
    (hm : Medium fmt rules P s.disk.device) (hq : Quiescent s.disk.device)
    (hsure : rules.tidy → s.disk.Sure) (hchosen : Chosen s.disk.device sb slot)
    (hstands : Stands fmt rules P s.disk.device sb hf)
    (hframed : Framed (s.fromSuperblock sb slot) t) (hr : Replayed fmt rules t h)
    (hsuffix : hf <:+ h) (hbounded : h.length ≤ arenaBlockCount) : Live fmt rules P t h h := by
  have hdisk : t.disk = s.disk := hframed.disk
  have hstandard : sb.Standard :=
    hm.labelled (absolute slot) sb (hchosen.read ▸ read_mem_possible)
  have hnext : ∀ r ∈ h.head?, t.After fmt r := hr.last
  refine ⟨⟨⟨?_, ?_, ?_, ⟨sb, ?_⟩, ?_, ?_, ?_, ?_, ?_, hr.chain, suffix_refl _, hr.placed,
    hbounded, ?_⟩, ⟨hr.nextBlock, fun _ r hmem => (hnext r hmem).prevDigest⟩, ?_, ?_⟩,
    hr.adopted.indexes hr.chain⟩
  · rw [hdisk]
    exact hm.sound
  · rw [hdisk]
    exact hm.labelled
  · rw [hframed.superblockSlot]
    exact hchosen.either
  · refine ⟨?_, hframed.superblockGeneration.symm, hframed.arena.symm,
      hframed.checkpointSequence.symm, hframed.storeEpoch.symm, hstands.opens.extend hsuffix,
      fun sb' hsb' => ?_⟩
    · rw [hdisk, hframed.superblockSlot]
      exact hchosen.read ▸ hq _
    · rw [hdisk, hframed.superblockSlot] at hsb'
      exact hchosen.newest sb' (hq.possible hsb')
  · rw [hframed.arenaStart, hframed.arena]
    exact hstandard.start_eq
  · rw [hframed.arenaBlocks]
    exact hstandard.blocks_eq
  · exact hr.placed.settled (hdisk ▸ hq)
  · intro ht
    rw [hdisk]
    exact (hstands.tidy ht).extend hstands.opens.ne_nil hsuffix
  · exact hp.extend hr.chain hsuffix hstands.opens.ne_nil hstands.holds
  · intro r hmem
    exact ⟨(hnext r hmem).nextSequence, (hnext r hmem).storeEpoch, (hnext r hmem).arena⟩
  · rw [hdisk]
    exact hsure
  · intro _ _ top htop x hx
    have : top = [] := by simpa using htop
    rw [this] at hx
    cases hx

/-! ### What was left unresolved -/

section Rules

variable {α : Type} {Q : α → Store D C → Prop} {X : Store D C → Prop}

omit [DecidableEq D] in
theorem Ends.of_run {m : Engine D C α} {a : α} (hrun : m s = .ok a t) (h : Q a t) :
    Ends m Q X s := by
  unfold Ends
  rw [hrun]
  exact h

omit [DecidableEq D] in
theorem Ends.orRefuse {step : Engine D C Bool} {f : Unit → Engine D C α}
    (h : Ends step (fun said t => (said = true → Ends (f ()) Q X t) ∧ (said = false → X t)) X s) :
    Ends (orRefuse step >>= f) Q X s := by
  refine Ends.bind (Ends.bind (h.mono (fun said t ht => ?_) fun _ => id))
  cases said with
  | true => exact ht.1 rfl
  | false => exact ht.2 rfl

end Rules

/-- The store is live, its tables are its log's, and nothing is pending. -/
structure Resumed (fmt : Format D C) (rules : Rules D) (P : Ledger D → Prop) (t : Store D C)
    (h : List (Record D C)) : Prop where
  live : Live fmt rules P t h h
  ledger : t.ledger = ledger fmt h
  idle : t.pending = none
  retained : t.retained.length ≤ maxRetained

/-- **A preparation recovery finds unresolved is aborted, durably.** -/
theorem Live.resolvePending (hp : Stable fmt rules P) (hl : Live fmt rules P s h h)
    (hledger : s.ledger = ledger fmt h) (hretained : s.retained.length ≤ maxRetained) :
    Ends (resolvePending fmt)
      (fun _ t => ∃ h', Resumed fmt rules P t h' ∧ h <:+ h' ∧ t.ready = s.ready)
      (fun t => Medium fmt rules P t.disk.device ∧ t.ready = s.ready) s := by
  refine Ends.get ?_
  split
  · rename_i hnone
    exact Ends.pure ⟨h, ⟨hl, hledger, hnone, hretained⟩, suffix_refl _, rfl⟩
  · rename_i pending hpending
    refine Ends.now ?_
    have hclock : Live fmt rules P { s with clock := s.clock.tail } h h :=
      hl.of_same ⟨rfl, rfl, rfl, rfl, rfl, rfl, rfl, rfl, rfl, rfl, rfl⟩ rfl hl.indexes
    have hledger' : Store.ledger { s with clock := s.clock.tail } = ledger fmt h := hledger
    generalize s.clock.headD 0 = ns
    generalize hu : ({ s with clock := s.clock.tail } : Store D C) = u at hclock hledger' ⊢
    have huready : u.ready = s.ready ∧ u.retained = s.retained := by
      rw [← hu]
      exact ⟨rfl, rfl⟩
    have hupending : (ledger fmt h).pending = some pending := by
      rw [← hledger]
      exact hpending
    generalize hrecord : ({
      prepareSequence := pending.prepareSequence
      prepareDigest := pending.prepareDigest
      reason := pending.reason
      principal := pending.principal
      requestSequence := pending.requestSequence
      abortedNs := ns } : AbortRecord D) = record
    have hresolves : record.Resolves pending := by
      rw [← hrecord]
      exact ⟨rfl, rfl, rfl, rfl⟩
    rcases hclock.ready.append (.abort record) ⟨pending, hupending, hresolves⟩ with
      ⟨disk, hrun, hready⟩ | ⟨hrun, hstanding, hatEnd, hsure⟩
    · exact Ends.after hrun (Ends.ensure (fun h => (Bool.noConfusion h))
        fun _ => ⟨hready.standing.medium, huready.1⟩)
    · refine Ends.after hrun (Ends.ensure (fun _ => ?_) fun hne => (hne rfl).elim)
      have hindexes := hclock.indexes.cons_other (r := u.frame (.abort record)) rfl
      rcases hstanding.flush hp hatEnd hsure with ⟨hflush, hready⟩ | ⟨hflush, hready⟩
      · refine Ends.orRefuse (Ends.of_run hflush ⟨fun _ => ?_, fun h => (Bool.noConfusion h)⟩)
        refine ⟨u.frame (.abort record) :: h, ⟨?_, ?_, rfl, ?_⟩, suffix_cons _ _, huready.1⟩
        · exact Live.of_same ⟨hready, hindexes⟩
            ⟨rfl, rfl, rfl, rfl, rfl, rfl, rfl, rfl, rfl, rfl, rfl⟩ rfl hindexes
        · show _ = (ledger fmt h).settle
            (record.result fmt.zero ((ledger fmt h).pendingRequest fmt.zero))
          have hrequest : (ledger fmt h).pendingRequest fmt.zero = pending.requestDigest := by
            unfold Ledger.pendingRequest
            rw [hupending]
          rw [hrequest, ← hledger']
          rfl
        · rw [← huready.2] at hretained
          exact hretained
      · exact Ends.orRefuse (Ends.of_run hflush ⟨fun h => (Bool.noConfusion h),
          fun _ => ⟨hready.standing.medium, huready.1⟩⟩)

/-! ### A medium with nothing on it -/

/-- A medium that holds no superblock, and no record but checkpoints. -/
structure Vacant (fmt : Format D C) (rules : Rules D) (d : Device (Block D C)) : Prop where
  sound : Sound fmt rules d
  labelled : Labelled d
  records : ∀ block r, .record r ∈ (d block).possible → ∃ head, r.payload = .checkpoint head
  slots : ∀ slot, slot = superblockA ∨ slot = superblockB →
    ∀ sb, .superblock sb ∉ (d (absolute slot)).possible

theorem Vacant.medium (hv : Vacant fmt rules d)
    (hP : P (Ledger.empty fmt)) : Medium fmt rules P d :=
  ⟨hv.sound, hv.labelled, .inr ⟨hP, hv.records, hv.slots superblockB (.inr rfl),
    fun sb hsb => absurd hsb (hv.slots superblockA (.inl rfl) sb)⟩⟩

theorem Vacant.write {x : Block D C} (hv : Vacant fmt rules d)
    (hx : x = .other ∨ ∃ r head, x = .record r ∧ r.payload = .checkpoint head ∧
      r.Proper fmt rules) : Vacant fmt rules (d.write .other block x) := by
  have hsb : ∀ sb, x ≠ .superblock sb := by
    rintro sb rfl
    rcases hx with h | ⟨_, _, h, -⟩ <;> cases h
  refine ⟨hv.sound.write fun r hr => ?_, hv.labelled.write fun sb h => absurd h (hsb sb),
    fun b r hr => ?_, fun slot hslot sb hmem => ?_⟩
  · rcases hx with h | ⟨r', head, h, -, hproper⟩
    · rw [hr] at h
      cases h
    · rw [hr] at h
      cases h
      exact hproper
  · rcases mem_possible_write hr with ⟨-, heq⟩ | hother | hold
    · rcases hx with h | ⟨r', head, h, hp, -⟩
      · rw [← heq] at h
        cases h
      · rw [← heq] at h
        cases h
        exact ⟨head, hp⟩
    · cases hother
    · exact hv.records b r hold
  · rcases mem_possible_write hmem with ⟨-, heq⟩ | hother | hold
    · exact hsb sb heq.symm
    · cases hother
    · exact hv.slots slot hslot sb hold

theorem Vacant.flush (hv : Vacant fmt rules d) : Vacant fmt rules d.flush := by
  have hpossible : ∀ b x, x ∈ (d.flush b).possible → x ∈ (d b).possible := fun b x hx =>
    mem_possible_flush hx ▸ read_mem_possible
  exact ⟨hv.sound.flush, hv.labelled.flush, fun b r hr => hv.records b r (hpossible _ _ hr),
    fun slot hslot sb hsb => hv.slots slot hslot sb (hpossible _ _ hsb)⟩

theorem Vacant.tidy (hv : Vacant fmt rules d) (cp : Record D C) : Tidy fmt d [cp] := by
  have hfirst : ∀ b r below, .record r ∈ (d b).possible → History fmt (r :: below) →
      below = [] := by
    intro b r below hr hh
    obtain ⟨head, hp⟩ := hv.records b r hr
    cases hh with
    | opened _ => rfl
    | next _ follows => exact absurd hp (follows.inner head)
  refine ⟨fun b r top hr hh x hx => ?_, fun b r below first opening hr hh _ _ => ?_⟩
  · have := hfirst b r _ hr hh
    simp at this
  · refine .inr (.inr fun x hx => ?_)
    rw [hfirst b r below hr hh] at hx
    cases hx

/-- A store that has written its first checkpoint and no superblock. -/
structure Founded (fmt : Format D C) (rules : Rules D) (cp : Record D C) (t : Store D C) :
    Prop where
  vacant : Vacant fmt rules t.disk.device
  sure : rules.tidy → t.disk.Sure
  opening : ∃ head, cp.payload = .checkpoint head ∧ head.ledger = Ledger.empty fmt ∧ head.Sized
  placed : Placed t.disk.device t.arenaStart [cp]
  after : t.After fmt cp
  arena : t.arena = 0
  arenaStart : t.arenaStart = arenaBase 0
  arenaBlocks : t.arenaBlocks = arenaBlockCount
  nextBlock : t.nextBlock = t.arenaStart + 1
  checkpointSequence : t.checkpointSequence = cp.sequence
  objects : t.objects = []
  ledger : t.ledger = Ledger.empty fmt
  retained : t.retained = []
  ready : t.ready = false

variable {cp : Record D C}

theorem Founded.chain (hf : Founded fmt rules cp t) : Chain fmt rules [cp] := by
  obtain ⟨head, hp, -, hsized⟩ := hf.opening
  exact .opened hp hsized

theorem Founded.ledger_eq (hf : Founded fmt rules cp t) : K4.ledger fmt [cp] = Ledger.empty fmt := by
  obtain ⟨head, hp, hledger, -⟩ := hf.opening
  show (K4.ledger fmt []).step fmt cp = _
  unfold Ledger.step
  rw [hp]
  exact hledger

theorem Founded.stands (hf : Founded fmt rules cp t) (hP : P (Ledger.empty fmt))
    (hsettled : Settled t.disk.device t.arenaStart [cp]) (generation : Nat) :
    (t.superblock generation).Standard ∧
      Stands fmt rules P t.disk.device (t.superblock generation) [cp] := by
  have hstandard : (t.superblock generation).Standard :=
    ⟨show t.arena ≤ 1 by rw [hf.arena]; exact Nat.zero_le _, rfl, rfl, rfl, rfl⟩
  refine ⟨hstandard, ?_, ⟨cp, rfl, ?_, ?_⟩, hf.chain, show 1 ≤ arenaBlockCount by decide,
    fun _ => hf.vacant.tidy cp, ?_⟩
  · rw [hstandard.start_eq, show (t.superblock generation).activeArena = 0 from hf.arena,
      ← hf.arenaStart]
    exact hsettled
  · exact decide_eq_true ⟨hf.checkpointSequence.symm, hf.after.storeEpoch.symm,
      hf.after.arena.symm⟩
  · show t.nextSequence - 1 < t.checkpointSequence + 1
    rw [hf.after.nextSequence, hf.checkpointSequence]
    exact Nat.lt_succ_self _
  · rw [hf.ledger_eq]
    exact hP

theorem writeCheckpoint_founds (hv : Vacant fmt rules s.disk.device)
    (hsure : rules.tidy → s.disk.Sure) (hledger : s.ledger = Ledger.empty fmt)
    (hretained : s.retained = []) (hobjects : s.objects = []) (hready : s.ready = false)
    (harena : s.arena = 0) (hstart : s.arenaStart = arenaBase 0)
    (hblocks : s.arenaBlocks = arenaBlockCount) (hnext : s.nextBlock = s.arenaStart) :
    Ends (writeCheckpoint fmt 0)
      (fun opened t => (opened = true → ∃ cp, Founded fmt rules cp t) ∧
        (opened = false → Vacant fmt rules t.disk.device ∧ t.ready = false))
      (fun _ => False) s := by
  have hprincipals : s.principals = List.replicate maxPrincipals .zeroed :=
    congrArg Ledger.principals hledger
  have hresults : s.results = [] := congrArg Ledger.results hledger
  refine Ends.now (Ends.get ?_)
  generalize hhead : Store.checkpoint { s with clock := s.clock.tail } (s.clock.headD 0) 0 = head
  have hempty : head.principals = [] ∧ head.results = [] ∧ head.retained = [] := by
    rw [← hhead]
    refine ⟨?_, hresults, hretained⟩
    show s.principals.filter _ = []
    rw [hprincipals]
    rfl
  have hsized : head.Sized := by
    refine ⟨?_, ?_, ?_, ?_, ?_⟩
    · rw [hempty.1]
      exact Nat.zero_le _
    · rw [hempty.1]
      exact nodup_nil
    · rw [hempty.1]
      exact fun _ he => (not_mem_nil he).elim
    · rw [hempty.2.1]
      exact Nat.zero_le _
    · rw [hempty.2.2]
      exact Nat.zero_le _
  have hheadLedger : head.ledger = Ledger.empty fmt := by
    have hreopened : head.ledger = s.ledger.reopened := by
      rw [← hhead]
      rfl
    rw [hreopened, hledger]
    rfl
  rw [if_neg]
  swap
  · unfold CheckpointRecord.size
    rw [hempty.1, hempty.2.1, hempty.2.2]
    simp
  refine Ends.modify ?_
  generalize hu : ({ s with clock := s.clock.tail, prevDigest := fmt.zero } : Store D C) = u
  have hproper : (u.frame (.checkpoint head)).Proper fmt rules := by
    have hchain : Chain fmt rules [u.frame (.checkpoint head)] := .opened rfl hsized
    refine ⟨fun h' hh => hchain.history.unique hh ▸ hchain, fun _ _ => ?_⟩
    rw [← hu]
    rfl
  have hdisk : u.disk = s.disk := by rw [← hu]
  have hvacant : Vacant fmt rules
      (u.disk.write u.nextBlock (.record (u.frame (.checkpoint head)))).2.device := by
    rcases Disk.write_device u.disk u.nextBlock (.record (u.frame (.checkpoint head))) with h | h | h
    · rw [h, hdisk]
      exact hv
    · rw [h, hdisk]
      exact hv.write (.inl rfl)
    · rw [h, hdisk]
      exact hv.write (.inr ⟨_, head, rfl, rfl, hproper⟩)
  rcases @append_run _ _ fmt (.checkpoint head) u with ⟨hfull, -⟩ | ⟨-, -, hrun⟩ | ⟨-, hok, hrun⟩
  · rw [← hu] at hfull
    change s.arenaStart + s.arenaBlocks ≤ s.nextBlock at hfull
    rw [hnext, hblocks] at hfull
    exact absurd hfull (by unfold arenaBlockCount; omega)
  · refine Ends.after hrun (Ends.pure ⟨fun h => (Bool.noConfusion h), fun _ => ⟨hvacant, ?_⟩⟩)
    rw [← hu]
    exact hready
  · refine Ends.after hrun (Ends.modify (Ends.pure ⟨fun _ => ?_, fun h => (Bool.noConfusion h)⟩))
    refine ⟨u.frame (.checkpoint head), ?_⟩
    have hdevice := Disk.write_device_of_ok hok
    subst hu
    exact {
      vacant := hvacant
      sure := fun ht => ((hsure ht).write _ _).1
      opening := ⟨head, rfl, hheadLedger, hsized⟩
      placed := ⟨by
        show Device.read _ (s.arenaStart + 0) = _
        rw [Nat.add_zero, ← hnext]
        exact (congrArg (fun d => Device.read d _) hdevice).trans read_write_self, trivial⟩
      after := ⟨rfl, rfl, rfl, rfl⟩
      arena := harena
      arenaStart := hstart
      arenaBlocks := hblocks
      nextBlock := congrArg (· + 1) hnext
      checkpointSequence := rfl
      objects := hobjects
      ledger := hledger
      retained := hretained
      ready := hready }

theorem Founded.medium_named (hf : Founded fmt rules cp t) (hP : P (Ledger.empty fmt))
    (hsettled : Settled t.disk.device t.arenaStart [cp]) :
    Medium fmt rules P (t.disk.device.write .other (absolute superblockA)
      (.superblock (t.superblock 1))) := by
  obtain ⟨hstandard, hstands⟩ := hf.stands hP hsettled 1
  have hnotRecord : ∀ r, Block.superblock (t.superblock 1) ≠ (.record r : Block D C) :=
    fun r h => by cases h
  refine ⟨hf.vacant.sound.write fun r h => absurd h (hnotRecord r),
    hf.vacant.labelled.write fun sb h => ?_, .inr ⟨hP, fun b r hr => ?_, fun sb hsb => ?_,
      fun sb hsb => ?_⟩⟩
  · cases h
    exact hstandard
  · rcases mem_possible_write hr with ⟨-, heq⟩ | hother | hold
    · cases heq
    · cases hother
    · exact hf.vacant.records b r hold
  · rcases mem_possible_write hsb with ⟨heq, -⟩ | hother | hold
    · cases heq
    · cases hother
    · exact hf.vacant.slots superblockB (.inr rfl) sb hold
  · rcases mem_possible_write hsb with ⟨-, heq⟩ | hother | hold
    · cases heq
      exact ⟨[cp], hstands.write_slot hstandard (.inl rfl) hnotRecord⟩
    · cases hother
    · exact absurd hold (hf.vacant.slots superblockA (.inl rfl) sb)

variable {disk : Disk D C}

/-- **A fresh store is live** once its first superblock is durable. -/
theorem Founded.resumed (hf : Founded fmt rules cp t) (hP : P (Ledger.empty fmt))
    (hsettled : Settled t.disk.device t.arenaStart [cp])
    (hdisk : disk.device = (t.disk.device.write .other (absolute superblockA)
      (.superblock (t.superblock 1))).flush)
    (hsure : rules.tidy → disk.Sure) (durableThrough : Nat) :
    Resumed fmt rules P { t with
      disk, durableThrough, superblockGeneration := 1, superblockSlot := superblockA } [cp] := by
  obtain ⟨hstandard, hstands⟩ := hf.stands hP hsettled 1
  have hmedium := hf.medium_named hP hsettled
  have hnotRecord : ∀ r, Block.superblock (t.superblock 1) ≠ (.record r : Block D C) :=
    fun r h => by cases h
  have hnew := (hstands.write_slot hstandard (.inl rfl) hnotRecord).flush
  have hstart : (t.superblock 1).start = t.arenaStart := by
    rw [hstandard.start_eq, hf.arenaStart]
    exact congrArg arenaBase hf.arena
  refine ⟨⟨⟨⟨?_, ?_, .inl rfl, ⟨t.superblock 1, ?_⟩, ?_, hf.arenaBlocks, ?_, ?_, hnew.holds,
    hf.chain, suffix_refl _, ?_, show 1 ≤ arenaBlockCount by decide, ?_⟩,
    ⟨hf.nextBlock, fun _ r hr => ?_⟩, hsure, ?_⟩, ?_⟩, ?_, ?_, ?_⟩
  · rw [hdisk]
    exact hmedium.sound.flush
  · rw [hdisk]
    exact hmedium.labelled.flush
  · refine ⟨?_, rfl, rfl, rfl, rfl, hnew.opens, fun sb' hsb' => ?_⟩
    · rw [hdisk]
      have := @Device.holds_flush _ (t.disk.device.write .other (absolute superblockA)
        (.superblock (t.superblock 1))) (absolute superblockA)
      rwa [read_write_self] at this
    · rw [hdisk] at hsb'
      have hread := mem_possible_flush hsb'
      have hold : Block.superblock sb' ∈ (t.disk.device (absolute superblockB)).possible := by
        rw [hread, show otherSlot superblockA = superblockB from rfl,
          read_write_of_ne (show absolute superblockB ≠ absolute superblockA by decide)]
        exact read_mem_possible
      exact absurd hold (hf.vacant.slots superblockB (.inr rfl) sb')
  · show t.arenaStart = arenaBase t.arena
    rw [hf.arenaStart, hf.arena]
  · rw [hdisk]
    exact hstart ▸ hnew.settled
  · rw [hdisk]
    exact hnew.tidy
  · rw [hdisk]
    exact hstart ▸ hnew.settled.placed
  · intro r hr
    obtain rfl := some.inj hr
    exact ⟨hf.after.nextSequence, hf.after.storeEpoch, hf.after.arena⟩
  · obtain rfl := some.inj hr
    exact hf.after.prevDigest
  · intro _ _ top htop x hx
    have : top = [] := by simpa using htop
    rw [this] at hx
    cases hx
  · show Indexes fmt t.arenaStart t.objects [cp]
    rw [hf.objects]
    obtain ⟨head, hp, -, -⟩ := hf.opening
    exact (Adopted.nil (d := t.disk.device) hp).indexes hf.chain
  · show t.ledger = _
    rw [hf.ledger, hf.ledger_eq]
  · show t.ledger.pending = none
    rw [hf.ledger]
    rfl
  · show t.retained.length ≤ maxRetained
    rw [hf.retained]
    exact Nat.zero_le _

omit [DecidableEq D] in
theorem writeSuperblock_run {generation : Nat} {landed : Bool}
    (hw : s.disk.write (absolute slot) (.superblock (s.superblock generation)) = (landed, disk)) :
    writeSuperblock slot generation s = .ok landed { s with
      disk, durableThrough := if landed then s.nextSequence - 1 else s.durableThrough } := by
  unfold writeSuperblock
  rw [hw]
  cases landed <;> rfl

theorem Founded.name (hf : Founded fmt rules cp t) (hP : P (Ledger.empty fmt))
    (hsettled : Settled t.disk.device t.arenaStart [cp]) :
    Ends (do orRefuse (writeSuperblock superblockA 1); orRefuse flush)
      (fun _ u => Resumed fmt rules P u [cp] ∧ u.ready = false)
      (fun u => Medium fmt rules P u.disk.device ∧ u.ready = false)
      { t with superblockGeneration := 1, superblockSlot := superblockA } := by
  have hmedium : ∀ d : Device (Block D C), d = t.disk.device ∨
      d = t.disk.device.write .other (absolute superblockA) .other ∨
      d = t.disk.device.write .other (absolute superblockA) (.superblock (t.superblock 1)) →
      Medium fmt rules P d := by
    rintro d (rfl | rfl | rfl)
    · exact hf.vacant.medium hP
    · exact (hf.vacant.write (.inl rfl)).medium hP
    · exact hf.medium_named hP hsettled
  rcases hw : t.disk.write (absolute superblockA) (.superblock (t.superblock 1)) with ⟨landed, disk⟩
  have hwrite := t.disk.write_device (absolute superblockA) (.superblock (t.superblock 1))
  have hwritten := @Disk.write_device_of_ok _ _ t.disk (absolute superblockA)
    (.superblock (t.superblock 1))
  have hsure : rules.tidy → disk.Sure := fun ht => by
    have := ((hf.sure ht).write (absolute superblockA) (.superblock (t.superblock 1))).1
    rw [hw] at this
    exact this
  rw [hw] at hwrite hwritten
  refine Ends.orRefuse (Ends.of_run (writeSuperblock_run hw) ⟨fun hlanded => ?_, fun _ =>
    ⟨hmedium _ hwrite, hf.ready⟩⟩)
  rcases disk.flush_cases with ⟨hok, hdevice⟩ | ⟨hno, hdevice⟩
  · refine Ends.after (b := true) (t := { t with
      disk := disk.flush.2
      durableThrough := if landed then t.nextSequence - 1 else t.durableThrough
      superblockGeneration := 1
      superblockSlot := superblockA }) ?_ ?_
    · unfold flush
      rw [← hok]
    · exact ⟨hf.resumed hP hsettled (hdevice.trans (congrArg Device.flush (hwritten hlanded)))
        (fun ht => ((hsure ht).flush).1) _, hf.ready⟩
  · refine Ends.after (b := false) (t := { t with
      disk := disk.flush.2
      durableThrough := if landed then t.nextSequence - 1 else t.durableThrough
      superblockGeneration := 1
      superblockSlot := superblockA }) ?_ ?_
    · unfold flush
      rw [← hno]
    · exact ⟨hmedium _ (hdevice ▸ hwrite), hf.ready⟩

variable {clock : List Nat}

/-- **Formatting a vacant medium leaves a live store**, or stops. -/
theorem format_ends (seed : Nat) (hv : Vacant fmt rules disk.device) (hP : P (Ledger.empty fmt))
    (hsure : rules.tidy → disk.Sure) :
    Ends (format fmt seed)
      (fun _ t => ∃ h, Resumed fmt rules P t h ∧ t.ready = false)
      (fun t => Medium fmt rules P t.disk.device ∧ t.ready = false)
      (Store.new fmt disk clock room) := by
  refine Ends.modify ?_
  have hfounds := @writeCheckpoint_founds _ _ fmt _ rules {
    Store.new fmt disk clock room with
    storeEpoch := 1
    uuid := (seed, 1)
    arena := 0
    arenaStart := absolute arena0StartBlock
    arenaBlocks := arenaBlockCount
    nextBlock := absolute arena0StartBlock
    nextSequence := 1
    prevDigest := fmt.zero
    publishedGeneration := 0
    publishedRoot := fmt.zero } hv hsure rfl rfl rfl rfl rfl rfl rfl rfl
  refine Ends.orRefuse (hfounds.mono (fun opened u hu => ⟨fun hopened => ?_, fun hno => ?_⟩)
    fun _ hfalse => hfalse.elim)
  swap
  · exact ⟨(hu.2 hno).1.medium hP, (hu.2 hno).2⟩
  obtain ⟨cp, hfounded⟩ := hu.1 hopened
  rcases u.disk.flush_cases with ⟨hok, hdevice⟩ | ⟨hno, hdevice⟩
  swap
  · refine Ends.orRefuse (Ends.of_run (a := false) (t := { u with disk := u.disk.flush.2 }) ?_
      ⟨fun h => (Bool.noConfusion h), fun _ => ⟨?_, hfounded.ready⟩⟩)
    · unfold flush
      rw [hno]
    · rw [hdevice]
      exact hfounded.vacant.medium hP
  refine Ends.orRefuse (Ends.of_run (a := true) (t := { u with disk := u.disk.flush.2 }) ?_
    ⟨fun _ => Ends.modify ?_, fun h => (Bool.noConfusion h)⟩)
  · unfold flush
    rw [hok]
  · have hsettled : Settled u.disk.flush.2.device u.arenaStart [cp] := by
      rw [hdevice]
      exact hfounded.placed.flush
    have hfounded' : Founded fmt rules cp { u with disk := u.disk.flush.2 } :=
      { hfounded with
        vacant := hdevice ▸ hfounded.vacant.flush
        sure := fun ht => ((hfounded.sure ht).flush).1
        placed := hsettled.placed
        after := ⟨hfounded.after.1, hfounded.after.2, hfounded.after.3, hfounded.after.4⟩ }
    exact (hfounded'.name hP hsettled).mono (fun _ v hv => ⟨_, hv⟩) fun _ => id

/-! ### Recovery -/

theorem Medium.vacant (hm : Medium fmt rules P s.disk.device) (hq : Quiescent s.disk.device)
    (hr : s.Readable) (hc : s.chosen = none) :
    Vacant fmt rules s.disk.device ∧ P (Ledger.empty fmt) := by
  have hnone : ∀ slot, slot = superblockA ∨ slot = superblockB →
      ∀ sb, s.disk.device.read (absolute slot) ≠ .superblock sb := by
    intro slot hslot sb hread
    have hsome := hr.readSuperblock_eq_some.mpr hread
    obtain ⟨ha, hb⟩ := chooseSuperblock_eq_none.mp hc
    rcases hslot with rfl | rfl
    · rw [ha] at hsome
      cases hsome
    · rw [hb] at hsome
      cases hsome
  rcases hm.guarded with ⟨slot, sb, h, hslot, hheld, -, -⟩ | hu
  · exact absurd hheld.read_eq (hnone slot hslot sb)
  · exact ⟨⟨hm.sound, hm.labelled, hu.records, fun slot hslot sb hsb =>
      hnone slot hslot sb (hq.possible hsb)⟩, hu.empty⟩

/-- **Recovery on a medium a power loss left**: the store is live and its tables are its
log's; or recovery stopped, and the next one can go on from the medium. -/
theorem recover_ends (hp : Stable fmt rules P)
    (seed : Nat) (hm : Medium fmt rules P disk.device) (hq : Quiescent disk.device)
    (hr : (Store.new fmt disk clock room).Readable) (hsure : rules.tidy → disk.Sure) :
    Ends (recover fmt seed)
      (fun _ t => ∃ h, Resumed fmt rules P t h ∧ t.ready = true)
      (fun t => Medium fmt rules P t.disk.device ∧ t.ready = false)
      (Store.new fmt disk clock room) := by
  refine Ends.get (Ends.bind ?_)
  have hdone : ∀ {t : Store D C} {h : List (Record D C)}, Resumed fmt rules P t h →
      ∃ h', Resumed fmt rules P { t with ready := true } h' ∧ true = true := fun {t h} ht =>
    ⟨h, ⟨ht.live.of_same ⟨rfl, rfl, rfl, rfl, rfl, rfl, rfl, rfl, rfl, rfl, rfl⟩ rfl
      ht.live.indexes, ht.ledger, ht.idle, ht.retained⟩, rfl⟩
  cases hc : (Store.new fmt disk clock room).chosen with
  | none =>
    obtain ⟨hvacant, hP⟩ := hm.vacant (s := Store.new fmt disk clock room) hq hr hc
    refine (format_ends seed hvacant hP hsure).mono (fun _ t ht => ?_) fun _ => id
    obtain ⟨h, ht, -⟩ := ht
    exact hdone ht
  | some chosen =>
    obtain ⟨sb, slot⟩ := chosen
    obtain ⟨hchosen, hf, hstands⟩ := hm.chosen hr hc
    have hstandard : sb.Standard :=
      hm.labelled (absolute slot) sb (hchosen.read ▸ read_mem_possible)
    obtain ⟨t, h, hrun, hreplayed, hframed, hsuffix, hbounded⟩ :=
      replay_stands (Store.new_bare disk clock room slot hstandard) hr hm.sound hstands
    have hlive := hreplayed.live hp (s := Store.new fmt disk clock room) hm hq hsure hchosen
      hstands hframed hsuffix hbounded
    have hrun' : replayOrRefuse fmt sb ((Store.new fmt disk clock room).fromSuperblock sb slot)
        = .ok () t := by
      unfold replayOrRefuse
      rw [hrun]
    refine Ends.modify (Ends.after hrun' ?_)
    refine (hlive.resolvePending hp hreplayed.ledger hreplayed.retained).mono
      (fun _ u hu => ?_) fun u hu => ⟨hu.1, hu.2.trans hframed.ready⟩
    obtain ⟨h', hu, -, -⟩ := hu
    exact hdone hu

end Thalyx.K4
