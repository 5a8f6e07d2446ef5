/-
What every operation of the store keeps, in every run.

The tables stay within the arrays the source has for them, no digest has two entries in the
index, and an entry is what its digest says and is either on the medium or staged.  None of
this depends on what the medium answers: a recovery fills the tables only as far as they go,
and adopts an object only after it was checked against its digest.
-/
import ThalyxKernel.Store.Index
import ThalyxKernel.Store.Sweeping
import ThalyxKernel.Store.Tables

namespace Thalyx.K4

open Fallible List

variable {D C : Type} {fmt : Format D C}

/-- The tables are within their arrays, and every entry of the index is the only one of its
digest, is what the digest says and has its content somewhere. -/
structure Store.Sound (fmt : Format D C) (s : Store D C) : Prop where
  principals : s.principals.length ≤ maxPrincipals
  results : s.results.length ≤ maxResults
  retained : s.retained.length ≤ maxRetained
  indexed : s.Indexed fmt
  distinct : (s.objects.map ObjectEntry.digest).Nodup
  staged : ∀ entry ∈ s.objects, entry.durable = false → entry.stage.isSome

namespace Store.Sound

variable {s t : Store D C}

theorem of_same (h : s.Sound fmt) (hprincipals : t.principals = s.principals)
    (hresults : t.results = s.results) (hretained : t.retained = s.retained)
    (hobjects : t.objects = s.objects) : t.Sound fmt where
  principals := hprincipals ▸ h.principals
  results := hresults ▸ h.results
  retained := hretained ▸ h.retained
  indexed := by
    unfold Store.Indexed
    rw [hobjects]
    exact h.indexed
  distinct := hobjects ▸ h.distinct
  staged := by
    rw [hobjects]
    exact h.staged

theorem new (disk : Disk D C) (clock : List Nat) (room : Nat) :
    (Store.new fmt disk clock room).Sound fmt where
  principals := Nat.le_of_eq length_replicate
  results := Nat.zero_le _
  retained := Nat.zero_le _
  indexed := fun _ he => absurd he not_mem_nil
  distinct := nodup_nil
  staged := fun _ he => absurd he not_mem_nil

/-! ### The index -/

variable {n objectType : Nat}

theorem with_objects {objects : List (ObjectEntry D C)} (h : s.Sound fmt)
    (hdistinct : (objects.map ObjectEntry.digest).Nodup)
    (hobjects : ∀ entry ∈ objects, entry ∈ s.objects ∨
      entry.WellFormed fmt ∧ (entry.durable = false → entry.stage.isSome)) :
    { s with objects, stageUsed := n }.Sound fmt where
  principals := h.principals
  results := h.results
  retained := h.retained
  indexed := by
    intro entry he
    rcases hobjects entry he with hold | ⟨hwell, -⟩
    · exact h.indexed entry hold
    · exact hwell
  distinct := hdistinct
  staged := by
    intro entry he
    rcases hobjects entry he with hold | ⟨-, hstaged⟩
    · exact h.staged entry hold
    · exact hstaged

theorem filter (h : s.Sound fmt) (p : ObjectEntry D C → Bool) (n : Nat) :
    { s with objects := s.objects.filter p, stageUsed := n }.Sound fmt :=
  h.with_objects (h.distinct.sublist (filter_sublist.map _)) fun _ he =>
    .inl (mem_filter.mp he).1

theorem add {entry : ObjectEntry D C} (h : s.Sound fmt)
    (hnew : ∀ e ∈ s.objects, e.digest ≠ entry.digest) (hwell : entry.WellFormed fmt)
    (hstaged : entry.durable = false → entry.stage.isSome) :
    { s with objects := s.objects ++ [entry], stageUsed := n }.Sound fmt := by
  refine h.with_objects ?_ fun e he => ?_
  · rw [map_append, nodup_append]
    refine ⟨h.distinct, nodup_singleton _, fun a ha b hb => ?_⟩
    obtain ⟨e, he, rfl⟩ := mem_map.mp ha
    rw [mem_singleton.mp hb]
    exact hnew e he
  · rcases mem_append.mp he with hold | hlast
    · exact .inl hold
    · rw [mem_singleton.mp hlast]
      exact .inr ⟨hwell, hstaged⟩

variable [DecidableEq D]
variable {digest : D}

theorem ne_of_find (h : s.find digest = none) : ∀ e ∈ s.objects, e.digest ≠ digest := by
  intro e he heq
  have hfound := Store.find_of_mem he
  rw [heq, h] at hfound
  cases hfound

theorem reclaimStaged (h : s.Sound fmt) (m : Moment) : (s.reclaimStaged fmt m).Sound fmt :=
  h.filter _ _

theorem stageEntry (h : s.Sound fmt) {content : C}
    (hnew : s.find (fmt.objectDigest objectType content) = none) :
    (s.stageEntry (fmt.objectDigest objectType content) objectType (fmt.size content)
      content).Sound fmt :=
  h.add (ne_of_find hnew) ⟨content, rfl, rfl, fun _ hs => (Option.some.inj hs).symm⟩ fun _ => rfl

theorem updateEntry {f : ObjectEntry D C → ObjectEntry D C}
    (h : s.Sound fmt) (hf : ∀ e : ObjectEntry D C, (f e).digest = e.digest ∧
      (f e).objectType = e.objectType ∧ (f e).length = e.length ∧
      ((f e).stage = e.stage ∨ (f e).stage = none) ∧ (f e).durable = true) :
    { s with objects := K4.updateEntry digest f s.objects, stageUsed := n }.Sound fmt := by
  refine h.with_objects ?_ fun entry he => ?_
  · have hsame : (K4.updateEntry digest f s.objects).map ObjectEntry.digest
        = s.objects.map ObjectEntry.digest := by
      unfold K4.updateEntry
      rw [map_map]
      refine map_congr_left fun e _ => ?_
      simp only [Function.comp]
      split
      · exact (hf e).1
      · rfl
    rw [hsame]
    exact h.distinct
  · obtain ⟨old, hold, rfl | ⟨-, rfl⟩⟩ := mem_updateEntry he
    · exact .inl hold
    · obtain ⟨hdigest, htype, hlength, hstage, hdurable⟩ := hf old
      refine .inr ⟨(h.indexed old hold).moved hdigest htype hlength hstage, fun hnot => ?_⟩
      rw [hdurable] at hnot
      cases hnot

theorem adopt {length block : Nat} {content : C} (h : s.Sound fmt)
    (hdigest : fmt.objectDigest objectType content = digest) (hlength : fmt.size content = length) :
    (s.adopt digest objectType length block).Sound fmt := by
  unfold Store.adopt
  split
  · exact h.updateEntry fun e => ⟨rfl, rfl, rfl, .inl rfl, rfl⟩
  rename_i hnew
  split
  · exact h
  · refine h.add (ne_of_find ?_) ⟨content, hdigest, hlength, fun _ hs => nomatch hs⟩
      fun hnot => nomatch hnot
    exact Option.not_isSome_iff_eq_none.mp hnew

omit [DecidableEq D] in
theorem unpin (h : s.Sound fmt) : s.unpin.Sound fmt := by
  refine h.with_objects ?_ fun entry he => ?_
  · rw [map_map]
    exact h.distinct
  · obtain ⟨old, hold, rfl⟩ := mem_map.mp he
    exact .inr ⟨(h.indexed old hold).moved rfl rfl rfl (.inl rfl), h.staged old hold⟩

/-! ### The tables -/

omit [DecidableEq D] in
theorem with_principals (h : s.Sound fmt) {table : List PrincipalEntry}
    (htable : table.length = s.principals.length) : { s with principals := table }.Sound fmt where
  principals := htable ▸ h.principals
  results := h.results
  retained := h.retained
  indexed := h.indexed
  distinct := h.distinct
  staged := h.staged

end Store.Sound

theorem length_principalSlot {p i : Nat} {table table' : List PrincipalEntry}
    (h : principalSlot p table = some (i, table')) : table'.length = table.length := by
  unfold principalSlot at h
  split at h
  · cases h
    rfl
  split at h
  · cases h
  · cases h
    exact length_modify ..

theorem length_withPrincipal (p : Nat) (f : PrincipalEntry → PrincipalEntry)
    (table : List PrincipalEntry) : (withPrincipal p f table).length = table.length := by
  unfold withPrincipal
  cases hslot : principalSlot p table with
  | none => rfl
  | some found =>
    rw [length_modify]
    exact length_principalSlot hslot

namespace Store.Sound

variable {s : Store D C}

theorem settle (h : s.Sound fmt) (entry : ResultEntry D) : (s.settle entry).Sound fmt where
  principals := by
    show (markResolved _ _ _).length ≤ _
    unfold markResolved
    rw [length_withPrincipal]
    exact h.principals
  results := length_recordResult h.results
  retained := h.retained
  indexed := h.indexed
  distinct := h.distinct
  staged := h.staged

theorem publishVersion (h : s.Sound fmt) (record : CommitRecord D) :
    (s.publishVersion record).Sound fmt := h.of_same rfl rfl rfl rfl

theorem setOutbox (h : s.Sound fmt) (p n : Nat) (status : OutboxStatus) :
    { s with results := K4.setOutbox p n status s.results }.Sound fmt where
  principals := h.principals
  results := by
    rw [length_setOutbox]
    exact h.results
  retained := h.retained
  indexed := h.indexed
  distinct := h.distinct
  staged := h.staged

end Store.Sound

/-! ### Every operation -/

/-- A computation that begins in a sound store ends in one, whether it fails or not. -/
abbrev Upholds (fmt : Format D C) {α : Type} (m : Engine D C α) : Prop :=
  Within (fun s t => s.Sound fmt → t.Sound fmt) m

namespace Upholds

variable {α β : Type}

theorem pure (a : α) : Upholds fmt (pure a : Engine D C α) := fun _ h => h

theorem throw (e : StoreStatus) : Upholds fmt (throw e : Engine D C α) := fun _ h => h

theorem bind {x : Engine D C α} {f : α → Engine D C β} (hx : Upholds fmt x)
    (hf : ∀ a, Upholds fmt (f a)) : Upholds fmt (x >>= f) :=
  Within.bind (fun _ _ _ h h' hs => h' (h hs)) hx hf

theorem modify {f : Store D C → Store D C} (hf : ∀ s : Store D C, s.Sound fmt → (f s).Sound fmt) :
    Upholds fmt (modify f : Engine D C PUnit) := hf

theorem forM {xs : List α} {f : α → Engine D C PUnit} (hf : ∀ a, Upholds fmt (f a)) :
    Upholds fmt (xs.forM f) := Within.forM (fun _ h => h) (fun _ _ _ h h' hs => h' (h hs)) hf

protected theorem ensure (p : Prop) [Decidable p] (status : StoreStatus) :
    Upholds fmt (ensure p status : Engine D C Unit) := by
  unfold K4.ensure
  split
  · exact Upholds.pure _
  · exact Upholds.throw _

protected theorem now : Upholds fmt (now : Engine D C Nat) := fun _ h => h.of_same rfl rfl rfl rfl

protected theorem flush : Upholds fmt (flush : Engine D C Bool) := fun _ h =>
  h.of_same rfl rfl rfl rfl

protected theorem append (payload : Payload D C) : Upholds fmt (append fmt payload) := by
  intro s h
  unfold K4.append
  split
  · exact h
  · split <;> exact h.of_same rfl rfl rfl rfl

protected theorem refuseWrite : Upholds fmt (refuseWrite : Engine D C α) := fun _ h => h

protected theorem orRefuse {step : Engine D C Bool} (h : Upholds fmt step) :
    Upholds fmt (orRefuse step) := h.bind fun _ => Upholds.ensure _ _

protected theorem writeSuperblock (slot generation : Nat) :
    Upholds fmt (writeSuperblock slot generation : Engine D C Bool) := by
  intro s h
  unfold K4.writeSuperblock
  split <;> exact h.of_same rfl rfl rfl rfl

protected theorem writeCheckpoint (sourceArena : Nat) :
    Upholds fmt (writeCheckpoint fmt sourceArena) := by
  refine Upholds.now.bind fun createdNs => Within.get fun s => ?_
  split
  · exact Upholds.pure false
  · refine Upholds.bind (Upholds.modify fun _ h => h.of_same rfl rfl rfl rfl) fun _ =>
      (Upholds.append _).bind fun digest => ?_
    cases digest with
    | none => exact Upholds.pure false
    | some digest =>
      exact Upholds.bind (Upholds.modify fun _ h => h.of_same rfl rfl rfl rfl) fun _ =>
        Upholds.pure true

/-! #### Publishing -/

variable [DecidableEq D]

protected theorem stage (m : Moment) (objectType : Nat) (content : C) :
    Upholds fmt (stage fmt m objectType content) := by
  intro s h
  rw [stage_eq fmt m objectType content s []]
  split
  · exact h
  split
  · exact h
  · rename_i hnew
    -- the entry is added to the state the room was made in
    have hroom : ∀ room : Store D C, room = s ∨ room = s.reclaimStaged fmt m → room.Sound fmt ∧
        room.find (fmt.objectDigest objectType content) = none := by
      rintro room (rfl | rfl)
      · exact ⟨h, Option.not_isSome_iff_eq_none.mp hnew⟩
      · refine ⟨h.reclaimStaged m, find?_eq_none.mpr fun entry he => ?_⟩
        exact find?_eq_none.mp (Option.not_isSome_iff_eq_none.mp hnew) entry
          (mem_filter.mp he).1
    have hswept : ((s.stageSweep fmt m objectType content []).map (Sweep.after fmt)).headD s = s ∨
        ((s.stageSweep fmt m objectType content []).map (Sweep.after fmt)).headD s
          = s.reclaimStaged fmt m := by
      unfold Store.stageSweep
      split
      · exact .inr rfl
      · exact .inl rfl
    obtain ⟨hsound, hfind⟩ := hroom _ hswept
    dsimp only
    split
    · exact hsound
    · exact hsound.stageEntry hfind

protected theorem writeObject (m : Moment) (entry : ObjectEntry D C) :
    Upholds fmt (writeObject fmt m entry) := by
  refine Within.get fun s => ?_
  split
  · exact Upholds.pure false
  split
  · exact Upholds.pure false
  · refine (Upholds.append _).bind fun digest => ?_
    cases digest with
    | none => exact Upholds.pure false
    | some digest =>
      refine Upholds.bind (Upholds.modify fun t h => ?_) fun _ => Upholds.pure true
      exact h.updateEntry fun e => ⟨rfl, rfl, rfl, .inr rfl, rfl⟩

protected theorem writeIfMissing (m : Moment) (digest : D) :
    Upholds fmt (writeIfMissing fmt m digest) := by
  refine Within.get fun s => ?_
  split
  · exact Upholds.pure _
  split
  · exact Upholds.pure _
  · refine (Upholds.writeObject _ _).bind fun wrote => ?_
    cases wrote with
    | true => exact Upholds.pure _
    | false => exact Upholds.refuseWrite

protected theorem writeObjects (root receiptDigest : D) :
    Upholds fmt (writeObjects fmt root receiptDigest) := by
  refine Within.get fun s => ?_
  split
  · refine Upholds.bind (Upholds.forM fun d => Upholds.writeIfMissing _ d) fun _ =>
      Within.get fun t => ?_
    split
    · exact (Upholds.writeIfMissing _ _).bind fun _ => Upholds.flush.bind fun _ =>
        (Upholds.ensure _ _).bind fun _ => Upholds.pure _
    · exact Upholds.throw _
  · exact Upholds.throw _

protected theorem prepare (q : Publication D) (request : D) (invocation : Nat) :
    Upholds fmt (prepare fmt q request invocation) := by
  refine Upholds.now.bind fun committedNs => Within.get fun s => Upholds.bind ?_
    fun receiptDigest => Upholds.now.bind fun admittedNs => Within.get fun t =>
      (Upholds.append _).bind fun digest => ?_
  · intro u hu
    have h := @Upholds.stage _ _ fmt _ [4] ObjectType.receipt.code
      (fmt.receiptBytes (s.receipt q request committedNs)) u hu
    cases hs : stage fmt [4] ObjectType.receipt.code
        (fmt.receiptBytes (s.receipt q request committedNs)) u with
    | ok d v =>
      rw [hs] at h
      simp only [hs]
      exact h
    | error e v =>
      rw [hs] at h
      simp only [hs]
      exact h
  · cases digest with
    | none => exact Upholds.refuseWrite
    | some digest =>
      refine Upholds.flush.bind fun _ => (Upholds.ensure _ _).bind fun _ =>
        Upholds.bind (Upholds.modify fun s h => ?_) fun _ => Upholds.pure _
      exact (h.with_principals (length_withPrincipal _ _ _)).of_same rfl rfl rfl rfl

omit [DecidableEq D] in
protected theorem commit (q : Publication D) (request receiptDigest : D) (prepareSequence : Nat)
    (prepareDigest : D) (ordinal : Nat) :
    Upholds fmt (commit fmt q request receiptDigest prepareSequence prepareDigest ordinal) := by
  refine Within.get fun s => (Upholds.ensure _ _).bind fun _ => Upholds.now.bind fun committedNs =>
    Within.get fun t => (Upholds.append _).bind fun digest => ?_
  cases digest with
  | none => exact Upholds.refuseWrite
  | some digest =>
    refine Upholds.flush.bind fun _ => (Upholds.ensure _ _).bind fun _ =>
      Upholds.bind (Upholds.modify fun s h => ?_) fun _ => Upholds.pure _
    exact (h.publishVersion _).settle _

protected theorem publish (q : Publication D) (request : D) (invocation : Nat) :
    Upholds fmt (publish fmt q request invocation) :=
  (Upholds.prepare q request invocation).bind fun _ => (Upholds.writeObjects _ _).bind fun _ =>
    Upholds.commit _ _ _ _ _ _

protected theorem admitPublication (q : Publication D) :
    Upholds fmt (admitPublication fmt q) := by
  intro s h
  unfold K4.admitPublication
  split
  · exact h
  dsimp only
  split
  · exact h
  · rename_i index principals hslot
    have hsound : { s with principals }.Sound fmt := h.with_principals (length_principalSlot hslot)
    split
    · exact hsound
    · split <;> exact hsound

omit [DecidableEq D] in
protected theorem recordOutbox (principal sequence : Nat) (request : D) (target : Nat)
    (status : OutboxStatus) (attempts : Nat) :
    Upholds fmt (recordOutbox fmt principal sequence request target status attempts) := by
  refine Upholds.now.bind fun recordedNs => Within.get fun s => (Upholds.append _).bind
    fun digest => ?_
  cases digest with
  | none => exact Upholds.pure false
  | some digest =>
    refine Upholds.flush.bind fun flushed => ?_
    split
    · exact Upholds.bind (Upholds.modify fun s h => h.setOutbox _ _ _) fun _ => Upholds.pure true
    · exact Upholds.pure false

/-! #### Maintenance -/

protected theorem copyObject (digest : D) : Upholds fmt (copyObject fmt digest) := by
  refine Within.get fun s => ?_
  split
  · split
    · refine (Upholds.append _).bind fun appended => (Upholds.ensure _ _).bind fun _ =>
        Upholds.modify fun t h => ?_
      exact h.updateEntry fun e => ⟨rfl, rfl, rfl, .inl rfl, rfl⟩
    · exact Upholds.throw _
  · exact Upholds.throw _

omit [DecidableEq D] in
protected theorem switchOver (oldSlot oldGeneration : Nat) :
    Upholds fmt (switchOver oldSlot oldGeneration : Engine D C Unit) :=
  Upholds.flush.bind fun _ => (Upholds.ensure _ _).bind fun _ =>
    (Upholds.writeSuperblock _ _).bind fun _ => (Upholds.ensure _ _).bind fun _ =>
      Upholds.flush.bind fun _ => (Upholds.ensure _ _).bind fun _ =>
        Upholds.modify fun _ h => h.of_same rfl rfl rfl rfl

protected theorem compact : Upholds fmt (compact fmt : Engine D C Nat) := by
  refine Within.get fun old => (Upholds.ensure _ _).bind fun _ => (Upholds.ensure _ _).bind
    fun _ => ?_
  split
  · exact Upholds.throw _
  · refine (Upholds.ensure _ _).bind fun _ => Upholds.bind
      (Upholds.modify fun _ h => h.of_same rfl rfl rfl rfl) fun _ =>
        (Upholds.writeCheckpoint _).bind fun opened => ?_
    split
    · refine Upholds.bind (Upholds.forM Upholds.copyObject) fun _ =>
        (Upholds.switchOver _ _).bind fun _ => Upholds.bind (Upholds.modify fun s h => ?_)
          fun _ => Upholds.pure _
      exact h.filter _ _
    · exact Upholds.bind (Upholds.modify fun _ h => h.of_same rfl rfl rfl rfl) fun _ =>
        Upholds.throw _

protected theorem retain (root : D) (expiryNs : Nat) :
    Upholds fmt (retain root expiryNs : Engine D C Nat) := by
  intro s h
  unfold K4.retain
  split
  · exact h
  split
  · refine ⟨h.principals, h.results, ?_, h.indexed, h.distinct, h.staged⟩
    show (s.retained.modify _ _).length ≤ _
    rw [length_modify]
    exact h.retained
  split
  · exact h
  · rename_i hroom
    refine ⟨h.principals, h.results, ?_, h.indexed, h.distinct, h.staged⟩
    show (s.retained ++ [_]).length ≤ _
    rw [length_append, length_singleton]
    omega

protected theorem release (root : D) : Upholds fmt (release root : Engine D C Nat) := by
  intro s h
  unfold K4.release
  split
  · exact h
  · exact ⟨h.principals, h.results, Nat.le_trans (length_eraseIdx_le ..) h.retained,
      h.indexed, h.distinct, h.staged⟩

/-! #### Recovery -/

omit [DecidableEq D] in
protected theorem format (seed : Nat) : Upholds fmt (format fmt seed) :=
  Upholds.bind (Upholds.modify fun _ h => h.of_same rfl rfl rfl rfl) fun _ =>
    (Upholds.orRefuse (Upholds.writeCheckpoint _)).bind fun _ =>
      (Upholds.orRefuse Upholds.flush).bind fun _ =>
        Upholds.bind (Upholds.modify fun _ h => h.of_same rfl rfl rfl rfl) fun _ =>
          (Upholds.orRefuse (Upholds.writeSuperblock _ _)).bind fun _ =>
            Upholds.orRefuse Upholds.flush

omit [DecidableEq D] in
/-- The tables are filled only as far as they go. -/
protected theorem loadCheckpoint (head : CheckpointRecord D) :
    Upholds fmt (loadCheckpoint head : Engine D C Unit) := by
  refine Upholds.bind (Upholds.modify fun _ h => h.of_same rfl rfl rfl rfl) fun _ => ?_
  unfold K4.ensure
  split
  · rename_i hfits
    intro s h
    refine ⟨?_, hfits.2.1, hfits.2.2, h.indexed, h.distinct, h.staged⟩
    show (head.principals ++ s.principals.drop head.principals.length).length ≤ _
    have hprincipals := h.principals
    rw [length_append, length_drop]
    omega
  · exact Upholds.throw _

omit [DecidableEq D] in
protected theorem openLog (sb : Superblock D) : Upholds fmt (openLog fmt sb) := by
  refine Within.get fun s => ?_
  split
  · exact Upholds.throw _
  split
  · exact (Upholds.ensure _ _).bind fun _ => (Upholds.loadCheckpoint _).bind fun _ =>
      Upholds.modify fun _ h => h.of_same rfl rfl rfl rfl
  · exact Upholds.throw _

protected theorem replayRecord (payload : Payload D C) (block : Nat) :
    Upholds fmt (replayRecord fmt payload block) := by
  intro s h
  cases payload with
  | object objectType contentDigest content =>
    unfold K4.replayRecord
    dsimp only
    split
    · exact h
    · rename_i hchecked
      exact h.adopt (not_not.mp (not_or.mp hchecked).2) rfl
  | prepare record =>
    exact (h.with_principals (length_withPrincipal _ _ _)).of_same rfl rfl rfl rfl
  | commit record =>
    unfold K4.replayRecord
    dsimp only
    split
    · exact h
    split
    · exact h
    split
    · exact h
    split
    · exact h.of_same rfl rfl rfl rfl
    · exact (h.publishVersion record).settle _
  | abort record => exact h.settle _
  | outbox record => exact h.setOutbox _ _ _
  | checkpoint head => exact h
  | malformed kind bytes => exact h

protected theorem scan (blocks : Nat) : Upholds fmt (scan fmt blocks) := by
  induction blocks with
  | zero => exact fun _ h => h
  | succ blocks ih =>
    intro s h
    unfold K4.scan
    split
    · exact h
    · rename_i r hread
      split
      · exact h
      · have hpassed : (s.pass fmt r).Sound fmt := h.of_same rfl rfl rfl rfl
        have hreplayed := Upholds.replayRecord r.payload s.nextBlock _ hpassed
        split
        · rename_i e t hrun
          rw [hrun] at hreplayed
          exact hreplayed
        · rename_i t hrun
          rw [hrun] at hreplayed
          exact ih t hreplayed

protected theorem replay (sb : Superblock D) : Upholds fmt (replay fmt sb) :=
  (Upholds.openLog sb).bind fun _ => Within.get fun _ => (Upholds.scan _).bind fun _ =>
    Within.get fun _ => Upholds.ensure _ _

protected theorem replayOrRefuse (sb : Superblock D) : Upholds fmt (replayOrRefuse fmt sb) := by
  intro s h
  have hreplayed := Upholds.replay sb s h
  unfold K4.replayOrRefuse
  cases hrun : K4.replay fmt sb s with
  | ok u t =>
    rw [hrun] at hreplayed
    exact hreplayed
  | error e t =>
    rw [hrun] at hreplayed
    exact hreplayed.of_same rfl rfl rfl rfl

omit [DecidableEq D] in
protected theorem resolvePending : Upholds fmt (resolvePending fmt) := by
  refine Within.get fun s => ?_
  split
  · exact Upholds.pure _
  · exact Upholds.now.bind fun _ => (Upholds.append _).bind fun _ => (Upholds.ensure _ _).bind
      fun _ => (Upholds.orRefuse Upholds.flush).bind fun _ => Upholds.modify fun _ h => h.settle _

protected theorem recover (seed : Nat) : Upholds fmt (recover fmt seed) := by
  refine Within.get fun s => Upholds.bind ?_ fun _ =>
    Upholds.modify fun _ h => h.of_same rfl rfl rfl rfl
  unfold bringUp
  split
  · exact Upholds.format seed
  · exact Upholds.bind (Upholds.modify fun _ h => h.of_same rfl rfl rfl rfl) fun _ =>
      (Upholds.replayOrRefuse _).bind fun _ => Upholds.resolvePending

end Upholds

/-! ### Every run -/

section Ends

variable {α : Type} {m : Engine D C α} {s t : Store D C}

theorem Upholds.ok {a : α} (h : Upholds fmt m) (hs : s.Sound fmt) (hrun : m s = .ok a t) :
    t.Sound fmt := by
  have ht := h s hs
  rwa [hrun] at ht

theorem Upholds.error {e : StoreStatus} (h : Upholds fmt m) (hs : s.Sound fmt)
    (hrun : m s = .error e t) : t.Sound fmt := by
  have ht := h s hs
  rwa [hrun] at ht

end Ends

variable [DecidableEq D]

namespace Service

variable {s : Service D C}

theorem posed_sound (h : s.store.Sound fmt) (call : Call D C) :
    (s.posed fmt call).store.Sound fmt :=
  (Store.Sound.unpin (h.of_same rfl rfl rfl rfl)).of_same rfl rfl rfl rfl

theorem putObject_sound (h : s.store.Sound fmt) (principal objectType length : Nat)
    (lent : Option C) : (s.putObject fmt principal objectType length lent).2.store.Sound fmt := by
  unfold putObject
  split
  · exact h
  split
  · exact h
  split
  · exact h
  split
  · rename_i hrun
    exact (Upholds.stage _ _ _).ok h hrun
  · rename_i hrun
    exact (Upholds.stage _ _ _).error h hrun

theorem freeze_sound (h : s.store.Sound fmt) (principal id : Nat) (policy validation : D) :
    (s.freeze fmt principal id policy validation).2.store.Sound fmt := by
  unfold freeze
  split
  · exact h
  split
  · exact h
  split
  · rename_i hrun
    exact (Upholds.stage _ _ _).error h hrun
  · rename_i hrun
    have htree := (Upholds.stage _ _ _).ok h hrun
    dsimp only
    split
    · rename_i hrun
      exact (Upholds.stage _ _ _).error htree hrun
    · rename_i hrun
      exact (Upholds.stage _ _ _).ok htree hrun

omit [DecidableEq D] in
theorem outboxOf_sound {store : Store D C} (h : store.Sound fmt) (q : Publication D) (identity : D)
    (broker : Option (OutboxStatus × Nat)) :
    (outboxOf fmt q identity broker store).2.Sound fmt := by
  unfold outboxOf
  split
  · exact h
  · unfold resolveOutbox
    dsimp only
    split
    · rename_i hrun
      exact (Upholds.recordOutbox _ _ _ _ _ _).ok h hrun
    · rename_i hrun
      exact (Upholds.recordOutbox _ _ _ _ _ _).ok h hrun
    · rename_i hrun
      exact (Upholds.recordOutbox _ _ _ _ _ _).error h hrun

theorem publish_sound (h : s.store.Sound fmt) (q : Publication D) (invocation : Nat)
    (effect : Bool) (broker : Option (OutboxStatus × Nat)) :
    (s.publish fmt q invocation effect broker).2.store.Sound fmt := by
  unfold publish
  split
  · rename_i hrun
    have hadmitted := (Upholds.admitPublication q).error h hrun
    split <;> exact hadmitted
  · rename_i hrun
    exact (Upholds.admitPublication q).error h hrun
  · rename_i hrun
    have hadmitted := (Upholds.admitPublication q).ok h hrun
    split
    · exact hadmitted
    split
    · rename_i hrun
      exact outboxOf_sound ((Upholds.publish q _ _).ok hadmitted hrun) _ _ _
    · rename_i hrun
      exact (Upholds.publish q _ _).error hadmitted hrun

omit [DecidableEq D] in
theorem result_sound (h : s.store.Sound fmt) (principal sequence : Nat) :
    (s.result fmt principal sequence).2.store.Sound fmt := by
  unfold result
  split
  · exact h
  · rename_i index principals hslot
    have hsound : { s.store with principals }.Sound fmt :=
      h.with_principals (length_principalSlot hslot)
    dsimp only
    split
    · exact hsound
    split
    · exact hsound
    split <;> exact hsound

omit [DecidableEq D] in
theorem counted_sound {m : Engine D C Nat} (hm : Upholds fmt m) (h : s.store.Sound fmt) :
    (s.counted fmt (m s.store)).2.store.Sound fmt := by
  unfold counted
  split
  · rename_i hrun
    exact hm.ok h hrun
  · rename_i hrun
    exact hm.error h hrun

theorem compact_sound (h : s.store.Sound fmt) : (s.compact fmt).2.store.Sound fmt := by
  unfold compact
  split
  · rename_i hrun
    exact Upholds.compact.ok h hrun
  · rename_i hrun
    exact Upholds.compact.error h hrun

theorem fork_store (principal generation : Nat) :
    (s.fork fmt principal generation).2.store = s.store := by
  unfold fork
  split
  · rfl
  split
  · rfl
  split <;> rfl

theorem write_store (principal id : Nat) (name : Bytes) (flags : Nat) (digest : D) :
    (s.write fmt principal id name flags digest).2.store = s.store := by
  unfold write
  split
  · rfl
  split
  · rfl
  split
  · rfl
  split
  · rfl
  split <;> rfl

omit [DecidableEq D] in
theorem discard_store (principal id : Nat) : (s.discard fmt principal id).2.store = s.store := by
  unfold discard
  split <;> rfl

/-- **A call that finds a sound store leaves one.** -/
theorem serve_sound (h : s.store.Sound fmt) (call : Call D C) :
    (s.serve fmt call).2.store.Sound fmt := by
  have hmet : (s.meet call).store.Sound fmt := h.of_same rfl rfl rfl rfl
  have hposed := posed_sound h call
  unfold serve
  dsimp only
  split
  · exact hmet
  split
  · exact hmet
  split
  · exact hmet
  · show ((s.posed fmt call).dispatch fmt call).2.store.Sound fmt
    unfold dispatch
    split
    · exact hposed
    · exact putObject_sound hposed _ _ _ _
    · exact hposed
    · rw [fork_store]
      exact hposed
    · rw [write_store]
      exact hposed
    · exact freeze_sound hposed _ _ _ _
    · rw [discard_store]
      exact hposed
    · exact publish_sound hposed _ _ _ _
    · exact result_sound hposed _ _
    · exact counted_sound (Upholds.retain _ _) hposed
    · exact counted_sound (Upholds.release _) hposed
    · exact compact_sound hposed
    · exact hposed

end Service

/-- **Every store that is up in a run is sound.** -/
theorem reachable_sound {host : Host D C} (h : (machine fmt).Reachable host) :
    ∀ service, host.phase = .up service → service.store.Sound fmt :=
  reachable_up fmt h (fun b _ _ => Upholds.recover b.seed _ (Store.Sound.new _ _ _))
    fun _ call hs _ => Service.serve_sound hs call

end Thalyx.K4
