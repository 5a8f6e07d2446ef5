/-
What recovery makes of a sound medium.

On a medium every record of which is a proper one, the forward scan accepts whatever record
it expects: an object's header is its content's, a commit is of what is pending and finds
every object it depends on, and nothing else is there.  So the scan ends with the ledger of
the history it went through, and it goes through all of a log the superblock names.
-/
import ThalyxKernel.Store.Medium

namespace Thalyx.K4

open Fallible List

variable {D C : Type} {fmt : Format D C} [DecidableEq D]

/-! ### The index the scan builds -/

variable {h : List (Record D C)}
variable {d digest : D}

theorem mem_objectDigests : d ∈ objectDigests h ↔ (objectIn h d).isSome := by
  unfold objectDigests objectIn
  rw [findSome?_isSome_iff, mem_filterMap]
  constructor
  · rintro ⟨r, hr, hd⟩
    refine ⟨r, hr, ?_⟩
    unfold Record.objectDigest? at hd
    unfold Record.objectOf
    split at hd
    · simp [Option.some.inj hd]
    · cases hd
  · rintro ⟨r, hr, hd⟩
    refine ⟨r, hr, ?_⟩
    unfold Record.objectOf at hd
    unfold Record.objectDigest?
    split at hd
    · split at hd
      · rename_i hdig
        rw [hdig]
      · cases hd
    · cases hd

variable {r : Record D C} {objectType : Nat}
variable {content : C}

theorem objectIn_cons_object (hr : r.payload = .object objectType digest content) :
    objectIn (r :: h) d = if digest = d then some (objectType, content) else objectIn h d := by
  unfold objectIn
  rw [findSome?_cons]
  unfold Record.objectOf
  rw [hr]
  dsimp only
  split
  · rename_i heq
    split at heq
    · rename_i hd
      rw [if_pos hd, heq]
    · cases heq
  · rename_i heq
    split at heq
    · cases heq
    · rename_i hd
      rw [if_neg hd]

theorem objectIn_cons_of_not_object
    (hr : r.objectDigest? = none) : objectIn (r :: h) d = objectIn h d := by
  unfold objectIn
  rw [findSome?_cons]
  have hnone : Record.objectOf d r = none := by
    unfold Record.objectDigest? at hr
    unfold Record.objectOf
    split at hr
    · cases hr
    · rfl
  rw [hnone]

variable {rules : Rules D}

theorem Chain.objectIn_eq (hc : Chain fmt rules h)
    (ho : objectIn h d = some (objectType, content)) : fmt.objectDigest objectType content = d := by
  induction hc with
  | @opened r head hopen _ =>
    rw [objectIn_cons_of_not_object (by simp [Record.objectDigest?, hopen])] at ho
    cases ho
  | @next r p h below follows hadm ih =>
    cases hp : r.payload with
    | object t d' c =>
      rw [objectIn_cons_object hp] at ho
      unfold Admissible at hadm
      rw [hp] at hadm
      split at ho
      · rename_i hd
        cases ho
        exact hadm.2.1.trans hd
      · exact ih ho
    | checkpoint head => exact absurd hp (follows.inner head)
    | prepare record =>
      exact ih (by rwa [objectIn_cons_of_not_object (by simp [Record.objectDigest?, hp])] at ho)
    | commit record =>
      exact ih (by rwa [objectIn_cons_of_not_object (by simp [Record.objectDigest?, hp])] at ho)
    | abort record =>
      exact ih (by rwa [objectIn_cons_of_not_object (by simp [Record.objectDigest?, hp])] at ho)
    | outbox record =>
      exact ih (by rwa [objectIn_cons_of_not_object (by simp [Record.objectDigest?, hp])] at ho)
    | malformed kind bytes =>
      exact ih (by rwa [objectIn_cons_of_not_object (by simp [Record.objectDigest?, hp])] at ho)

/-- An entry of the index is of an object of the history, in a block that holds it. -/
structure ObjectEntry.Recovered (fmt : Format D C) (d : Device (Block D C)) (start : Nat)
    (h : List (Record D C)) (entry : ObjectEntry D C) : Prop where
  durable : entry.durable = true
  unstaged : entry.stage = none
  housed : start ≤ entry.block ∧ entry.block < start + arenaBlockCount
  held : ∃ content r, objectIn h entry.digest = some (entry.objectType, content) ∧
    fmt.size content = entry.length ∧ d.read entry.block = .record r ∧
    r.payload = .object entry.objectType entry.digest content

/-- The index is the history's. -/
structure Adopted (fmt : Format D C) (d : Device (Block D C)) (start : Nat) (h : List (Record D C))
    (objects : List (ObjectEntry D C)) : Prop where
  entries : ∀ entry ∈ objects, entry.Recovered fmt d start h
  found : ∀ digest ∈ objectDigests h, ∃ entry ∈ objects, entry.digest = digest
  nodup : (objects.map ObjectEntry.digest).Nodup

variable {s : Store D C}

theorem Store.find_isSome : (s.find d).isSome ↔ ∃ entry ∈ s.objects, entry.digest = d := by
  unfold Store.find
  rw [find?_isSome]
  simp

theorem Store.find_some {entry : ObjectEntry D C}
    (h : s.find d = some entry) : entry ∈ s.objects ∧ entry.digest = d := by
  unfold Store.find at h
  exact ⟨mem_of_find?_eq_some h, by simpa using find?_some h⟩

section Index

variable {s : Store D C} {h : List (Record D C)} {rules : Rules D}

theorem Adopted.find_isSome (ha : Adopted fmt s.disk.device s.arenaStart h s.objects) {d : D} :
    (s.find d).isSome = (objectIn h d).isSome := by
  rw [Bool.eq_iff_iff, Store.find_isSome, ← mem_objectDigests]
  constructor
  · rintro ⟨entry, he, rfl⟩
    obtain ⟨content, r, ho, -⟩ := (ha.entries entry he).held
    rw [mem_objectDigests, ho]
    rfl
  · exact ha.found d

theorem Adopted.load (ha : Adopted fmt s.disk.device s.arenaStart h s.objects) (hc : Chain fmt rules h)
    (hr : s.Readable) {entry : ObjectEntry D C} (he : entry ∈ s.objects) (m : Moment) :
    ∃ content, objectIn h entry.digest = some (entry.objectType, content) ∧
      s.load fmt m entry = some content := by
  obtain ⟨hdurable, hstage, -, content, r, ho, hsize, hread, hp⟩ := ha.entries entry he
  refine ⟨content, ho, ?_⟩
  unfold Store.load
  rw [hstage]
  simp only [hdurable, Bool.not_true, Bool.false_eq_true, if_false]
  rw [hr.read, Option.bind_some, hread, Block.parseRecord]
  obtain ⟨sequence, storeEpoch, arena, prevDigest, payload⟩ := r
  dsimp only at hp
  subst hp
  simp only [hsize, hc.objectIn_eq ho, and_self, if_true]

theorem Adopted.children (ha : Adopted fmt s.disk.device s.arenaStart h s.objects) (hc : Chain fmt rules h)
    (hr : s.Readable) (m : Moment) (d : D) : s.children fmt m d = childrenIn fmt h d := by
  unfold Store.children childrenIn
  cases hf : s.find d with
  | none =>
    have hnone : objectIn h d = none := by
      rw [← Option.not_isSome_iff_eq_none, ← ha.find_isSome, hf]
      simp
    rw [hnone]
  | some entry =>
    obtain ⟨hmem, rfl⟩ := Store.find_some hf
    obtain ⟨content, ho, hload⟩ := ha.load hc hr hmem m
    rw [ho]
    dsimp only
    unfold Store.named names
    rw [hload]
    dsimp only
    have hall : ∀ ds : List D, (ds.all fun d => (s.find d).isSome)
        = ds.all fun d => (objectIn h d).isSome := fun ds => by
      simp only [ha.find_isSome]
    by_cases hmanifest : entry.objectType = ObjectType.manifest.code
    · simp only [if_pos hmanifest]
      cases fmt.readManifest content with
      | none => rfl
      | some manifest => simp only [Option.map_some, hall]
    · simp only [if_neg hmanifest]
      by_cases htree : entry.objectType = ObjectType.tree.code
      · simp only [if_pos htree]
        cases fmt.decodeTree content with
        | none => rfl
        | some bindings => simp only [Option.map_some, hall]
      · simp only [if_neg htree, hall]

theorem Adopted.dependable (ha : Adopted fmt s.disk.device s.arenaStart h s.objects)
    (hc : Chain fmt rules h) (hr : s.Readable) (m : Moment) {root : D}
    (hcomplete : Complete fmt h root) : s.dependable fmt m root = true := by
  obtain ⟨reachable, hwalk⟩ := hcomplete
  have hsame : s.children fmt m = childrenIn fmt h := funext (ha.children hc hr m)
  have hclosed := walk_closed hwalk (by simp)
  have hroot : (s.find root).isSome := by
    obtain ⟨next, hnext, -⟩ := hclosed.2 root (hclosed.1 root (by simp))
    rw [ha.find_isSome]
    unfold childrenIn at hnext
    split at hnext
    · cases hnext
    · rename_i ho
      rw [ho]
      rfl
  have hclosure : s.closure fmt m root = .ok reachable := by
    unfold Store.closure
    obtain ⟨entry, hentry⟩ := Option.isSome_iff_exists.mp hroot
    rw [hentry, hsame]
    exact hwalk
  unfold Store.dependable
  rw [hclosure]
  refine all_eq_true.mpr fun d hd => ?_
  obtain ⟨next, hnext, -⟩ := hclosed.2 d hd
  have hin : (s.find d).isSome := by
    rw [ha.find_isSome]
    unfold childrenIn at hnext
    split at hnext
    · cases hnext
    · rename_i ho
      rw [ho]
      rfl
  obtain ⟨entry, hentry⟩ := Option.isSome_iff_exists.mp hin
  rw [hentry]
  exact (ha.entries entry (Store.find_some hentry).1).durable

end Index

/-! ### Adopting a record -/

omit [DecidableEq D] in
theorem objectDigests_cons_object (hr : r.payload = .object objectType digest content) :
    objectDigests (r :: h) = digest :: objectDigests h := by
  unfold objectDigests
  rw [filterMap_cons, Record.objectDigest?, hr]

omit [DecidableEq D] in
theorem objectDigests_cons_of_not_object
    (hr : r.objectDigest? = none) : objectDigests (r :: h) = objectDigests h := by
  unfold objectDigests
  rw [filterMap_cons, hr]

section Adopt

variable {d : Device (Block D C)} {start : Nat} {h : List (Record D C)} {r : Record D C} {rules : Rules D}

theorem Adopted.cons {objects : List (ObjectEntry D C)} (ha : Adopted fmt d start h objects)
    (hr : r.objectDigest? = none) : Adopted fmt d start (r :: h) objects := by
  refine ⟨fun entry he => ?_, ?_, ha.nodup⟩
  · obtain ⟨hdurable, hstage, hhoused, content, r', ho, hrest⟩ := ha.entries entry he
    exact ⟨hdurable, hstage, hhoused, content, r', by rwa [objectIn_cons_of_not_object hr], hrest⟩
  · rw [objectDigests_cons_of_not_object hr]
    exact ha.found

theorem Adopted.adopt {s : Store D C} {objectType block : Nat} {digest : D} {content : C}
    (ha : Adopted fmt d start h s.objects) (hc : Chain fmt rules h)
    (hr : r.payload = .object objectType digest content)
    (hdigest : fmt.objectDigest objectType content = digest) (hfits : Fits (r :: h))
    (hread : d.read block = .record r) (hblock : start ≤ block ∧ block < start + arenaBlockCount) :
    Adopted fmt d start (r :: h) (s.adopt digest objectType (fmt.size content) block).objects := by
  unfold Store.adopt
  by_cases hfound : (s.find digest).isSome
  · rw [if_pos hfound]
    obtain ⟨held, hheld, hheldDigest⟩ := Store.find_isSome.mp hfound
    have hmap : (updateEntry digest (fun entry => { entry with durable := true, block })
        s.objects).map ObjectEntry.digest = s.objects.map ObjectEntry.digest := by
      unfold updateEntry
      rw [map_map]
      refine map_congr_left fun entry _ => ?_
      simp only [Function.comp]
      split <;> rfl
    refine ⟨fun entry he => ?_, fun dg hdg => ?_, by rw [hmap]; exact ha.nodup⟩
    · obtain ⟨old, hold, heq⟩ := mem_map.mp he
      obtain ⟨hdurable, hstage, hhoused, content', r', ho, hsize, hheldBlock, hp⟩ :=
        ha.entries old hold
      split at heq
      · rename_i holdDigest
        subst heq
        have hsame := fmt.objectDigest_inj ((hc.objectIn_eq ho).trans (holdDigest.trans
          hdigest.symm))
        obtain ⟨htype, hcontent⟩ := hsame
        refine ⟨rfl, hstage, hblock, content, r, ?_, hcontent ▸ hsize, hread, ?_⟩
        · rw [objectIn_cons_object hr, if_pos holdDigest.symm, htype]
        · rw [hr, htype, holdDigest]
      · rename_i holdDigest
        subst heq
        refine ⟨hdurable, hstage, hhoused, content', r', ?_, hsize, hheldBlock, hp⟩
        rw [objectIn_cons_object hr, if_neg (Ne.symm holdDigest), ho]
    · have hin : ∃ entry ∈ s.objects, entry.digest = dg := by
        rw [objectDigests_cons_object hr] at hdg
        rcases mem_cons.mp hdg with rfl | hdg
        · exact ⟨held, hheld, hheldDigest⟩
        · exact ha.found dg hdg
      have hmem : dg ∈ s.objects.map ObjectEntry.digest := by
        obtain ⟨entry, he, hd⟩ := hin
        exact mem_map.mpr ⟨entry, he, hd⟩
      rw [← hmap] at hmem
      exact mem_map.mp hmem
  · rw [if_neg hfound]
    have hnew : digest ∉ s.objects.map ObjectEntry.digest := by
      intro hmem
      exact hfound (Store.find_isSome.mpr (mem_map.mp hmem))
    have hroom : s.objects.length < maxObjects := by
      obtain ⟨ds, -, hle, hsub⟩ := hfits
      rw [objectDigests_cons_object hr] at hsub
      have hsubset : digest :: s.objects.map ObjectEntry.digest ⊆ ds := by
        intro x hx
        apply hsub
        rcases mem_cons.mp hx with rfl | hx
        · exact mem_cons_self
        · obtain ⟨entry, he, rfl⟩ := mem_map.mp hx
          obtain ⟨content', r', ho, -⟩ := (ha.entries entry he).held
          refine mem_cons_of_mem _ (mem_objectDigests.mpr ?_)
          rw [ho]
          rfl
      have hlen := (nodup_cons.mpr ⟨hnew, ha.nodup⟩).length_le_of_subset hsubset
      simp only [length_cons, length_map] at hlen
      omega
    rw [if_neg (Nat.not_le.mpr hroom)]
    dsimp only
    refine ⟨fun entry he => ?_, fun dg hdg => ?_, ?_⟩
    · rcases mem_append.mp he with hold | hlast
      · obtain ⟨hdurable, hstage, hhoused, content', r', ho, hrest⟩ := ha.entries entry hold
        refine ⟨hdurable, hstage, hhoused, content', r', ?_, hrest⟩
        rw [objectIn_cons_object hr, if_neg, ho]
        rintro rfl
        exact hnew (mem_map.mpr ⟨entry, hold, rfl⟩)
      · rw [mem_singleton.mp hlast]
        refine ⟨rfl, rfl, hblock, content, r, ?_, rfl, hread, hr⟩
        rw [objectIn_cons_object hr, if_pos rfl]
    · rw [objectDigests_cons_object hr] at hdg
      rcases mem_cons.mp hdg with rfl | hdg
      · exact ⟨_, mem_append_right _ (mem_singleton.mpr rfl), rfl⟩
      · obtain ⟨entry, he, hd⟩ := ha.found dg hdg
        exact ⟨entry, mem_append_left _ he, hd⟩
    · rw [map_append, nodup_append]
      refine ⟨ha.nodup, by simp, ?_⟩
      intro a hmem b hb heq
      simp only [map_cons, map_nil, mem_singleton] at hb
      exact hnew (hb ▸ heq ▸ hmem)

end Adopt

/-! ### The scan -/

/-- The position in the log is right after a record. -/
structure Store.After (fmt : Format D C) (s : Store D C) (r : Record D C) : Prop where
  nextSequence : s.nextSequence = r.sequence + 1
  prevDigest : s.prevDigest = fmt.recordDigest r
  storeEpoch : s.storeEpoch = r.storeEpoch
  arena : s.arena = r.arena

/-- The scan has gone through a history. -/
structure Replayed (fmt : Format D C) (rules : Rules D) (s : Store D C)
    (h : List (Record D C)) : Prop where
  chain : Chain fmt rules h
  placed : Placed s.disk.device s.arenaStart h
  nextBlock : s.nextBlock = s.arenaStart + h.length
  last : ∀ r ∈ h.head?, s.After fmt r
  ledger : s.ledger = ledger fmt h
  adopted : Adopted fmt s.disk.device s.arenaStart h s.objects
  retained : s.retained.length ≤ maxRetained

/-- What recovery does not touch while it scans. -/
structure Framed (s t : Store D C) : Prop where
  disk : t.disk = s.disk
  arenaStart : t.arenaStart = s.arenaStart
  arenaBlocks : t.arenaBlocks = s.arenaBlocks
  arena : t.arena = s.arena
  storeEpoch : t.storeEpoch = s.storeEpoch
  checkpointSequence : t.checkpointSequence = s.checkpointSequence
  superblockSlot : t.superblockSlot = s.superblockSlot
  superblockGeneration : t.superblockGeneration = s.superblockGeneration
  clock : t.clock = s.clock
  ready : t.ready = s.ready

omit [DecidableEq D] in
theorem Framed.refl (s : Store D C) : Framed s s :=
  ⟨rfl, rfl, rfl, rfl, rfl, rfl, rfl, rfl, rfl, rfl⟩

omit [DecidableEq D] in
theorem Framed.trans {t u : Store D C} (h : Framed s t) (h' : Framed t u) : Framed s u :=
  ⟨h'.disk.trans h.disk, h'.arenaStart.trans h.arenaStart, h'.arenaBlocks.trans h.arenaBlocks,
    h'.arena.trans h.arena, h'.storeEpoch.trans h.storeEpoch,
    h'.checkpointSequence.trans h.checkpointSequence,
    h'.superblockSlot.trans h.superblockSlot,
    h'.superblockGeneration.trans h.superblockGeneration, h'.clock.trans h.clock,
    h'.ready.trans h.ready⟩

theorem replayRecord_framed {payload : Payload D C} {block : Nat} {t : Store D C}
    (h : replayRecord fmt payload block s = .ok () t) : Framed s t := by
  obtain ⟨hdisk, -, -, -, -, hepoch, harena, hstart, hblocks, hclock, -, hsequence, hslot,
    hgeneration, hready⟩ := replayRecord_frame fmt h
  exact ⟨hdisk, hstart, hblocks, harena, hepoch, hsequence, hslot, hgeneration, hclock, hready⟩

section Scan

variable {rules : Rules D} {s t : Store D C} {h : List (Record D C)} {r p : Record D C}

theorem Replayed.pass_adopted (hs : Replayed fmt rules s h) :
    Adopted fmt s.disk.device s.arenaStart h (s.pass fmt r).objects := hs.adopted

theorem Replayed.follows (hs : Replayed fmt rules s (p :: h)) (hproper : r.Proper fmt rules)
    (hexpects : s.expects r = true) : Follows fmt r p := by
  have hlast := hs.last p rfl
  unfold Store.expects at hexpects
  obtain ⟨hsequence, hepoch, harena, hprev⟩ := of_decide_eq_true hexpects
  refine ⟨hprev.trans hlast.prevDigest, hsequence.trans hlast.nextSequence,
    hepoch.trans hlast.storeEpoch, harena.trans hlast.arena, fun head hp => ?_⟩
  have hzero := hproper.first head hp
  rw [hprev, hlast.prevDigest] at hzero
  exact fmt.recordDigest_ne_zero p hzero

theorem replayRecord_admissible (hs : Replayed fmt rules s h) (hr : s.Readable)
    (hread : s.disk.device.read s.nextBlock = .record r) (hsequence : s.nextSequence = r.sequence)
    (hroom : h.length < arenaBlockCount) (hadm : Admissible fmt rules h r) :
    ∃ t, replayRecord fmt r.payload s.nextBlock (s.pass fmt r) = .ok () t ∧
      t.ledger = (ledger fmt h).step fmt r ∧ Adopted fmt s.disk.device s.arenaStart (r :: h) t.objects ∧
      t.retained = s.retained := by
  have hledger : (s.pass fmt r).ledger = ledger fmt h := hs.ledger
  have hpending : (s.pass fmt r).pending = (ledger fmt h).pending := by
    rw [← hledger]
    rfl
  unfold Admissible at hadm
  cases hp : r.payload with
  | checkpoint head =>
    rw [hp] at hadm
    exact hadm.elim
  | malformed kind bytes =>
    rw [hp] at hadm
    exact hadm.elim
  | object objectType digest content =>
    rw [hp] at hadm
    obtain ⟨hsize, hdigest, hfits⟩ := hadm
    refine ⟨(s.pass fmt r).adopt digest objectType (fmt.size content) s.nextBlock, ?_, ?_, ?_, ?_⟩
    · unfold replayRecord
      dsimp only
      rw [if_neg (by simp [Nat.not_lt.mpr hsize, hdigest])]
    · rw [Ledger.step, hp, ← hledger]
      unfold Store.adopt
      split
      · rfl
      · split <;> rfl
    · refine hs.pass_adopted.adopt hs.chain hp hdigest hfits hread ?_
      rw [hs.nextBlock]
      omega
    · unfold Store.adopt
      split
      · rfl
      · split <;> rfl
  | prepare record =>
    refine ⟨_, rfl, ?_, hs.adopted.cons (by simp [Record.objectDigest?, hp]), rfl⟩
    rw [Ledger.step, hp, ← hledger]
    unfold Store.ledger Ledger.prepare PrepareRecord.pending Store.pass
    simp only [hsequence, Nat.add_sub_cancel]
  | commit record =>
    rw [hp] at hadm
    obtain ⟨⟨pending, hpend, hresolves⟩, hcomplete, -⟩ := hadm
    have hdependable : (s.pass fmt r).dependable fmt [(s.pass fmt r).scanned] record.rootDigest
        = true :=
      hs.pass_adopted.dependable (s := s.pass fmt r) hs.chain hr _ hcomplete
    refine ⟨((s.pass fmt r).publishVersion record).settle (record.result pending.requestDigest),
      ?_, ?_, hs.adopted.cons (by simp [Record.objectDigest?, hp]), rfl⟩
    · unfold replayRecord
      rw [hpending, hpend]
      dsimp only
      rw [if_neg (by simp [hresolves.prepareSequence, hresolves.prepareDigest]),
        if_neg (by simp [hresolves.root]), hdependable]
      simp
    · rw [Ledger.step, hp, ← hledger]
      unfold Ledger.pendingRequest
      rw [show (s.pass fmt r).ledger.pending = some pending from hpending.trans hpend]
      rfl
  | abort record =>
    rw [hp] at hadm
    obtain ⟨pending, hpend, hresolves⟩ := hadm
    refine ⟨_, rfl, ?_, hs.adopted.cons (by simp [Record.objectDigest?, hp]), rfl⟩
    rw [Ledger.step, hp, ← hledger]
    rfl
  | outbox record =>
    refine ⟨_, rfl, ?_, hs.adopted.cons (by simp [Record.objectDigest?, hp]), rfl⟩
    rw [Ledger.step, hp, ← hledger]
    rfl

/-- **The scan accepts whatever record it expects.** -/
theorem Replayed.step (hs : Replayed fmt rules s h) (hr : s.Readable)
    (hsound : Sound fmt rules s.disk.device)
    (hread : s.disk.device.read s.nextBlock = .record r) (hexpects : s.expects r = true)
    (hroom : h.length < arenaBlockCount) :
    ∃ t, replayRecord fmt r.payload s.nextBlock (s.pass fmt r) = .ok () t ∧
      Replayed fmt rules t (r :: h) ∧ Framed s t := by
  obtain ⟨p, below, rfl⟩ : ∃ p below, h = p :: below :=
    exists_cons_of_ne_nil hs.chain.ne_nil
  have hproper := hsound.read hread
  have hfollows := hs.follows hproper hexpects
  have hchain := hproper.chain _ (.next hs.chain.history hfollows)
  have hadm : Admissible fmt rules (p :: below) r := by
    cases hchain with
    | next _ _ hadm => exact hadm
  have hsequence : s.nextSequence = r.sequence := by
    rw [(hs.last p rfl).nextSequence, hfollows.sequence]
  obtain ⟨t, ht, hledger, hadopted, hretained⟩ :=
    replayRecord_admissible hs hr hread hsequence hroom hadm
  obtain ⟨hdisk, -, hblock, hnext, hprev, hepoch, harena, hstart, -⟩ := replayRecord_frame fmt ht
  have hframed : Framed s t := (show Framed s (s.pass fmt r) from
    ⟨rfl, rfl, rfl, rfl, rfl, rfl, rfl, rfl, rfl, rfl⟩).trans (replayRecord_framed ht)
  refine ⟨t, ht, ⟨hchain, ?_, ?_, ?_, hledger, ?_, ?_⟩, hframed⟩
  · rw [hframed.disk, hframed.arenaStart]
    exact ⟨hs.nextBlock ▸ hread, hs.placed⟩
  · rw [hblock, hframed.arenaStart]
    show s.nextBlock + 1 = _
    rw [hs.nextBlock]
    rfl
  · intro r' hr'
    obtain rfl : r = r' := Option.some.inj hr'
    refine ⟨hnext.trans ?_, hprev, hframed.storeEpoch.trans ?_, hframed.arena.trans ?_⟩
    · show s.nextSequence + 1 = _
      rw [hsequence]
    · rw [(hs.last p rfl).storeEpoch, hfollows.storeEpoch]
    · rw [(hs.last p rfl).arena, hfollows.arena]
  · rw [hframed.disk, hframed.arenaStart]
    exact hadopted
  · rw [hretained]
    exact hs.retained

omit [DecidableEq D] in
theorem Store.Readable.framed (hr : s.Readable) (hf : Framed s t) : t.Readable := by
  unfold Store.Readable
  rw [hf.disk]
  exact hr

theorem Chain.follows_of_append {top : List (Record D C)} (hc : Chain fmt rules (top ++ r :: p :: h)) :
    Follows fmt r p := by
  induction top with
  | nil =>
    cases hc with
    | next _ follows _ => exact follows
  | cons x top ih =>
    cases top with
    | nil => exact ih hc.tail
    | cons y top => exact ih hc.tail

theorem Replayed.expects (hs : Replayed fmt rules s (p :: h)) (hf : Follows fmt r p) :
    s.expects r = true := by
  have hlast := hs.last p rfl
  exact decide_eq_true ⟨hf.sequence.trans hlast.nextSequence.symm,
    hf.storeEpoch.trans hlast.storeEpoch.symm, hf.arena.trans hlast.arena.symm,
    hf.prevDigest.trans hlast.prevDigest.symm⟩

/-- **The scan ends with the ledger of the history it went through, and goes through every
chain that lies on its way.** -/
theorem Replayed.scan (hs : Replayed fmt rules s h) (hr : s.Readable)
    (hsound : Sound fmt rules s.disk.device) (blocks : Nat)
    (hroom : h.length + blocks ≤ arenaBlockCount) :
    ∃ t h', scan fmt blocks s = .ok () t ∧ Replayed fmt rules t h' ∧ Framed s t ∧
      h'.length ≤ h.length + blocks ∧ h <:+ h' ∧
      ∀ h0, Chain fmt rules h0 → Placed s.disk.device s.arenaStart h0 → h <:+ h0 →
        h0.length ≤ h.length + blocks → h0 <:+ h' := by
  induction blocks generalizing s h with
  | zero =>
    refine ⟨s, h, rfl, hs, Framed.refl s, Nat.le_refl _, suffix_refl _, ?_⟩
    rintro h0 - - hsuffix hlen
    exact List.IsSuffix.eq_of_length hsuffix
      (Nat.le_antisymm hsuffix.length_le hlen) ▸ suffix_refl _
  | succ blocks ih =>
    by_cases hnext : ∃ r, s.disk.device.read s.nextBlock = .record r ∧ s.expects r = true
    · obtain ⟨r, hread, hexpects⟩ := hnext
      obtain ⟨t, ht, hstep, hframed⟩ := hs.step hr hsound hread hexpects (by omega)
      obtain ⟨u, h', hu, hreplayed, hframed', hlen, hsuffix, hall⟩ :=
        ih hstep (hr.framed hframed) (hframed.disk ▸ hsound) (by rw [length_cons]; omega)
      refine ⟨u, h', ?_, hreplayed, hframed.trans hframed', ?_, ?_, ?_⟩
      · rw [scan_record fmt ((hr.read _ _).trans (congrArg some hread)) hexpects, ht]
        exact hu
      · simp only [length_cons] at hlen
        omega
      · exact (suffix_cons r h).trans hsuffix
      · intro h0 hchain hplaced hh0 hlen0
        obtain ⟨top, rfl⟩ := hh0
        rcases eq_nil_or_concat top with rfl | ⟨top, r', rfl⟩
        · exact (suffix_cons r h).trans hsuffix
        · rw [concat_eq_append, append_assoc, singleton_append] at hchain hplaced hlen0 ⊢
          have hr' : r' = r := by
            have hplaced' := (hplaced.suffix (suffix_append top (r' :: h))).1
            rw [← hs.nextBlock, hread] at hplaced'
            exact (Block.record.inj hplaced').symm
          subst hr'
          refine hall _ hchain ?_ (suffix_append _ _) ?_
          · rw [hframed.disk, hframed.arenaStart]
            exact hplaced
          · simp only [length_append, length_cons] at hlen0 ⊢
            omega
    · refine ⟨s, h, scan_stop fmt fun r hp => ?_, hs, Framed.refl s, Nat.le_add_right _ _,
        suffix_refl _, ?_⟩
      · rw [hr.read, Option.bind_some, Block.parseRecord_eq_some] at hp
        cases he : s.expects r with
        | false => rfl
        | true => exact absurd ⟨r, hp, he⟩ hnext
      · rintro h0 hchain hplaced ⟨top, rfl⟩ hlen0
        rcases eq_nil_or_concat top with rfl | ⟨top, r, rfl⟩
        · exact suffix_refl _
        · exfalso
          rw [concat_eq_append, append_assoc, singleton_append] at hchain hplaced
          have hread := (hplaced.suffix (suffix_append top (r :: h))).1
          rw [← hs.nextBlock] at hread
          obtain ⟨p, below, rfl⟩ : ∃ p below, h = p :: below :=
            exists_cons_of_ne_nil hs.chain.ne_nil
          exact hnext ⟨r, hread, hs.expects hchain.follows_of_append⟩

end Scan

/-! ### The whole replay -/

omit [DecidableEq D] in
theorem Placed.oldest {d : Device (Block D C)} {start : Nat}
    (hp : Placed d start h) (hr : h.getLast? = some r) : d.read start = .record r := by
  have hsuffix : [r] <:+ h := by
    obtain ⟨below, rfl⟩ := getLast?_eq_some_iff.mp hr
    exact suffix_append below [r]
  exact (hp.suffix hsuffix).1

theorem Chain.oldest (hc : Chain fmt rules h) (hr : h.getLast? = some r) :
    ∃ head, r.payload = .checkpoint head ∧ head.Sized := by
  induction hc with
  | opened hopen sized =>
    cases hr
    exact ⟨_, hopen, sized⟩
  | next _ _ _ ih => exact ih (by rwa [getLast?_cons_cons] at hr)

/-- A state recovery has chosen a superblock for, and done nothing else in. -/
structure Bare (sb : Superblock D) (s : Store D C) : Prop where
  storeEpoch : s.storeEpoch = sb.storeEpoch
  arena : s.arena = sb.activeArena
  arenaStart : s.arenaStart = sb.start
  arenaBlocks : s.arenaBlocks = arenaBlockCount
  objects : s.objects = []
  principals : s.principals = List.replicate maxPrincipals .zeroed
  resultNext : s.resultNext = 0
  pending : s.pending = none

theorem Adopted.nil {d : Device (Block D C)} {start : Nat}
    {head : CheckpointRecord D} (hr : r.payload = .checkpoint head) : Adopted fmt d start [r] [] := by
  refine ⟨fun _ he => (not_mem_nil he).elim, fun digest hd => ?_, nodup_nil⟩
  simp [objectDigests, Record.objectDigest?, hr] at hd

variable {P : Ledger D → Prop} {sb : Superblock D}

theorem openLog_stands (hb : Bare sb s) (hr : s.Readable)
    (hs : Stands fmt rules P s.disk.device sb h) :
    ∃ t r, openLog fmt sb s = .ok () t ∧ Replayed fmt rules t [r] ∧ Framed s t ∧ [r] <:+ h := by
  obtain ⟨r, hlast, hopens, -⟩ := hs.opens
  obtain ⟨head, hp, hsized⟩ := hs.chain.oldest hlast
  have hread := hs.settled.placed.oldest hlast
  have hprincipals : head.principals ++ s.principals.drop head.principals.length
      = head.ledger.principals := by
    rw [hb.principals, drop_replicate]
    rfl
  obtain ⟨hsequence, hepoch, harena⟩ := of_decide_eq_true (show decide (_ ∧ _ ∧ _) = true from
    hopens)
  let loaded : Store D C := { s with
    publishedGeneration := head.publishedGeneration
    publishedRoot := head.publishedRoot
    publishedPolicy := head.publishedPolicy
    publishedReceipt := head.publishedReceipt
    compactionGeneration := head.compactionGeneration
    principals := head.principals ++ s.principals.drop head.principals.length
    results := head.results
    retained := head.retained }
  let t : Store D C := { loaded with
    nextSequence := r.sequence + 1
    nextBlock := s.arenaStart + 1
    prevDigest := fmt.recordDigest r
    scanned := 1 }
  refine ⟨t, r, ?_, ⟨.opened hp hsized, ⟨?_, trivial⟩, rfl, ?_, ?_, ?_, hsized.retained⟩,
    ⟨rfl, rfl, rfl, rfl, rfl, rfl, rfl, rfl, rfl, rfl⟩, ?_⟩
  · unfold openLog
    rw [bind_of_ok (get_run s), hr.read, Option.bind_some, hb.arenaStart, hread,
      Block.parseRecord]
    dsimp only
    rw [hp]
    dsimp only
    rw [bind_of_ok (show ensure (r.opens sb = true) StoreStatus.integrityFailed s = .ok () s by
      unfold ensure
      rw [if_pos hopens]
      rfl)]
    have hload : loadCheckpoint head s = .ok () loaded := by
      unfold loadCheckpoint
      rw [bind_of_ok (modify_run _ s)]
      unfold ensure
      rw [if_pos ⟨hsized.principals, hsized.results, hsized.retained⟩]
      rfl
    rw [bind_of_ok hload, modify_run, hb.arenaStart]
    simp only [t, loaded, hb.arenaStart]
  · show s.disk.device.read (s.arenaStart + 0) = _
    rw [hb.arenaStart]
    exact hread
  · intro r' hr'
    obtain rfl : r = r' := Option.some.inj hr'
    exact ⟨rfl, rfl, hb.storeEpoch.trans hepoch.symm, hb.arena.trans harena.symm⟩
  · show t.ledger = (ledger fmt []).step fmt r
    unfold Ledger.step Store.ledger
    rw [hp]
    simp only [t, loaded, hprincipals, hb.resultNext, hb.pending]
    rfl
  · show Adopted fmt s.disk.device s.arenaStart [r] s.objects
    rw [hb.objects]
    exact Adopted.nil hp
  · obtain ⟨below, rfl⟩ := getLast?_eq_some_iff.mp hlast
    exact suffix_append below [r]

/-- **A replay goes through all of a log the superblock names**, and whatever follows it. -/
theorem replay_stands (hb : Bare sb s) (hr : s.Readable)
    (hsound : Sound fmt rules s.disk.device) (hs : Stands fmt rules P s.disk.device sb h) :
    ∃ t h', replay fmt sb s = .ok () t ∧
      Replayed fmt rules t h' ∧ Framed s t ∧ h <:+ h' ∧ h'.length ≤ arenaBlockCount := by
  obtain ⟨u, r, hopen, hreplayed, hframed, hsuffix⟩ := openLog_stands hb hr hs
  have hblocks : u.arenaBlocks = arenaBlockCount := hframed.arenaBlocks.trans hb.arenaBlocks
  obtain ⟨t, h', hscan, hreplayed', hframed', hlen, -, hall⟩ :=
    hreplayed.scan (hr.framed hframed) (hframed.disk ▸ hsound) (u.arenaBlocks - 1)
      (by rw [hblocks]; exact Nat.le_of_eq rfl)
  have hwhole : h <:+ h' := by
    refine hall h hs.chain ?_ hsuffix ?_
    · rw [hframed.disk, hframed.arenaStart, hb.arenaStart]
      exact hs.settled.placed
    · rw [hblocks]
      exact Nat.le_trans hs.bounded (Nat.le_of_eq rfl)
  have hbound : sb.durableThrough ≤ t.nextSequence - 1 := by
    obtain ⟨first, hfirst, hopens, hbound⟩ := hs.opens.extend hwhole
    have hcp : first.sequence = sb.checkpointSequence :=
      (of_decide_eq_true (show decide (_ ∧ _ ∧ _) = true from hopens)).1
    obtain ⟨r', below, rfl⟩ := exists_cons_of_ne_nil hreplayed'.chain.ne_nil
    have hsequence := hreplayed'.chain.history.sequence_eq rfl hfirst
    rw [(hreplayed'.last r' rfl).nextSequence]
    omega
  refine ⟨t, h', ?_, hreplayed', hframed.trans hframed', hwhole, ?_⟩
  · unfold replay
    rw [bind_of_ok hopen, bind_of_ok (get_run u), bind_of_ok hscan, bind_of_ok (get_run t)]
    unfold ensure
    rw [if_pos hbound]
    rfl
  · rw [hblocks] at hlen
    exact Nat.le_trans hlen (Nat.le_of_eq rfl)

end Thalyx.K4
