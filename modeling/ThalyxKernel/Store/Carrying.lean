/-
What a publication does, from the durable preparation to the version in memory.

A publication stops in one of few places, and what it leaves is said here once: nothing but
a staged receipt; a preparation nobody flushed; a durable preparation and some of the
objects; all of that and a commit nobody flushed; or all of it durable and the version
published in memory.
-/
import ThalyxKernel.Store.Standing

namespace Thalyx.K4

open Fallible List Store

variable {D C : Type} {fmt : Format D C} [DecidableEq D]

/-! ### States that differ in the log and the index -/

omit [DecidableEq D] in
/-- The tables are as they were. -/
structure Kept (s t : Store D C) : Prop where
  ledger : t.ledger = s.ledger
  retained : t.retained = s.retained
  ready : t.ready = s.ready

omit [DecidableEq D] in
theorem Kept.refl (s : Store D C) : Kept s s := ⟨rfl, rfl, rfl⟩

omit [DecidableEq D] in
theorem Kept.trans {s t u : Store D C} (h : Kept s t) (h' : Kept t u) : Kept s u :=
  ⟨h'.ledger.trans h.ledger, h'.retained.trans h.retained, h'.ready.trans h.ready⟩

/-- A store that is ready and whose index is its log's. -/
structure Live (fmt : Format D C) (rules : Rules D) (P : Ledger D → Prop) (s : Store D C)
    (hf h : List (Record D C)) : Prop where
  ready : Ready fmt rules P s hf h
  indexes : Indexes fmt s.arenaStart s.objects h

variable {rules : Rules D} {P : Ledger D → Prop} {s t : Store D C} {hf h : List (Record D C)}
  {start : Nat}

omit [DecidableEq D] in
theorem Neat.of_disk (hn : Neat rules s hf h) (hdisk : t.disk = s.disk) : Neat rules t hf h :=
  ⟨hdisk ▸ hn.sure, hdisk ▸ hn.loose⟩

theorem Live.of_same (hl : Live fmt rules P s hf h) (hsame : SameLog s t)
    (hdisk : t.disk = s.disk) (hobjects : Indexes fmt s.arenaStart t.objects h) : Live fmt rules P t hf h :=
  ⟨⟨hl.ready.standing.of_same hsame, hl.ready.atEnd.of_same hsame, hl.ready.neat.of_disk hdisk⟩,
    hsame.arenaStart ▸ hobjects⟩

/-! ### Objects and the ledger -/

variable {r : Record D C}

omit [DecidableEq D] in
theorem Record.IsObject.payload (hr : r.IsObject) :
    ∃ objectType digest content, r.payload = .object objectType digest content := by
  unfold Record.IsObject Record.objectDigest? at hr
  split at hr
  · rename_i heq
    exact ⟨_, _, _, heq⟩
  · cases hr

variable {objs : List (Record D C)}

omit [DecidableEq D] in
theorem ledger_append_objects (ho : ∀ x ∈ objs, x.IsObject) :
    ledger fmt (objs ++ h) = ledger fmt h := by
  induction objs with
  | nil => rfl
  | cons x objs ih =>
    obtain ⟨objectType, digest, content, hp⟩ := (ho x mem_cons_self).payload
    rw [cons_append]
    show (ledger fmt (objs ++ h)).step fmt x = _
    unfold Ledger.step
    rw [hp]
    exact ih fun y hy => ho y (mem_cons_of_mem _ hy)

/-! ### Staging -/

/-- The state differs in what is staged. -/
structure Staging (fmt : Format D C) (s t : Store D C) : Prop where
  log : SameLog s t
  disk : t.disk = s.disk
  kept : Kept s t
  indexes : ∀ start h, Indexes fmt start s.objects h → Indexes fmt start t.objects h

omit [DecidableEq D] in
theorem Staging.refl (s : Store D C) : Staging fmt s s :=
  ⟨SameLog.refl s, rfl, Kept.refl s, fun _ _ => id⟩

theorem Indexes.reclaim (hi : Indexes fmt start s.objects h) (m : Moment) :
    Indexes fmt start (s.reclaimStaged fmt m).objects h := by
  refine ⟨fun entry he => hi.wellFormed entry (mem_filter.mp he).1,
    hi.nodup.sublist (filter_sublist.map _),
    Nat.le_trans (length_filter_le _ _) hi.room,
    fun entry he => hi.small entry (mem_filter.mp he).1, fun digest => ?_,
    fun entry he => hi.housed entry (mem_filter.mp he).1⟩
  rw [← hi.durable digest]
  constructor
  · rintro ⟨entry, he, hd⟩
    exact ⟨entry, (mem_filter.mp he).1, hd⟩
  · rintro ⟨entry, he, hd, hdurable⟩
    refine ⟨entry, mem_filter.mpr ⟨he, ?_⟩, hd, hdurable⟩
    unfold ObjectEntry.keeps
    rw [hdurable]
    rfl

variable {content : C}

omit [DecidableEq D] in
theorem Indexes.cons_other {objects : List (ObjectEntry D C)} {r : Record D C}
    (hi : Indexes fmt start objects h) (hr : r.objectDigest? = none) :
    Indexes fmt start objects (r :: h) := by
  refine { hi with durable := fun d => ?_ }
  rw [hi.durable d, objectDigests_cons_of_not_object hr]

theorem Indexes.stageEntry {objectType : Nat} (hi : Indexes fmt start s.objects h)
    (hnew : (s.find (fmt.objectDigest objectType content)).isSome = false)
    (hroom : s.crowded = false) (hsmall : fmt.size content ≤ objectMax) :
    Indexes fmt start (s.stageEntry (fmt.objectDigest objectType content) objectType
      (fmt.size content) content).objects h := by
  have hlt : s.objects.length < maxObjects := by
    unfold Store.crowded at hroom
    rw [Bool.or_eq_false_iff, decide_eq_false_iff_not, decide_eq_false_iff_not] at hroom
    exact Nat.lt_of_not_le hroom.2
  have hnot : ∀ entry ∈ s.objects, entry.digest ≠ fmt.objectDigest objectType content := by
    intro entry he hd
    have := Store.find_isSome.mpr ⟨entry, he, hd⟩
    rw [hnew] at this
    cases this
  refine ⟨fun entry he => ?_, ?_, ?_, fun entry he => ?_, fun digest => ?_,
    fun entry he hdurable => ?_⟩
  · rcases mem_append.mp he with hold | hlast
    · exact hi.wellFormed entry hold
    · rw [mem_singleton.mp hlast]
      exact ⟨content, rfl, rfl, fun staged hs => (Option.some.inj hs).symm⟩
  · unfold Store.stageEntry
    dsimp only
    rw [map_append, nodup_append]
    refine ⟨hi.nodup, by simp, fun a ha b hb heq => ?_⟩
    obtain ⟨entry, he, rfl⟩ := mem_map.mp ha
    simp only [map_cons, map_nil, mem_singleton] at hb
    exact hnot entry he (heq.trans hb)
  · unfold Store.stageEntry
    simp only [length_append, length_cons, length_nil]
    omega
  · rcases mem_append.mp he with hold | hlast
    · exact hi.small entry hold
    · rw [mem_singleton.mp hlast]
      exact hsmall
  · rw [← hi.durable digest]
    constructor
    · rintro ⟨entry, he, hd, hdurable⟩
      rcases mem_append.mp he with hold | hlast
      · exact ⟨entry, hold, hd, hdurable⟩
      · rw [mem_singleton.mp hlast] at hdurable
        cases hdurable
    · rintro ⟨entry, he, hd⟩
      exact ⟨entry, mem_append_left _ he, hd⟩
  · rcases mem_append.mp he with hold | hlast
    · exact hi.housed entry hold hdurable
    · rw [mem_singleton.mp hlast] at hdurable
      cases hdurable

section Rules

variable {α β : Type} {Q : α → Store D C → Prop} {X : Store D C → Prop}

omit [DecidableEq D] in
theorem Ends.ensure {p : Prop} [Decidable p] {status : StoreStatus}
    {f : Unit → Engine D C α} (hf : p → Ends (f ()) Q X s) (hx : ¬ p → X s) :
    Ends (ensure p status >>= f) Q X s := by
  by_cases hp : p
  · refine Ends.bind ?_
    unfold K4.ensure Ends
    rw [if_pos hp]
    exact hf hp
  · refine Ends.bind ?_
    unfold K4.ensure Ends
    rw [if_neg hp]
    exact hx hp

omit [DecidableEq D] in
theorem Ends.set {f : PUnit → Engine D C α} (h : Ends (f ⟨⟩) Q X t) : Ends (set t >>= f) Q X s := h

omit [DecidableEq D] in
theorem Ends.now {f : Nat → Engine D C α}
    (h : Ends (f (s.clock.headD 0)) Q X { s with clock := s.clock.tail }) :
    Ends (now >>= f) Q X s := h

omit [DecidableEq D] in
theorem Ends.relabel {m m' : Engine D C α} (h : Ends m Q X s)
    (hok : ∀ a t, m s = .ok a t → m' s = .ok a t)
    (herror : ∀ e t, m s = .error e t → ∃ e', m' s = .error e' t) : Ends m' Q X s := by
  unfold Ends at h ⊢
  cases hm : m s with
  | ok a t =>
    rw [hm] at h
    rw [hok a t hm]
    exact h
  | error e t =>
    rw [hm] at h
    obtain ⟨e', he'⟩ := herror e t hm
    rw [he']
    exact h

omit [DecidableEq D] in
theorem Ends.after {x : Engine D C β} {f : β → Engine D C α} {b : β} (hrun : x s = .ok b t)
    (h : Ends (f b) Q X t) : Ends (x >>= f) Q X s := by
  refine Ends.bind ?_
  unfold Ends
  rw [hrun]
  exact h

end Rules

/-- **Staging an object changes what is staged, and nothing else.** -/
theorem stage_ends (m : Moment) (objectType : Nat) (content : C) (s : Store D C) :
    Ends (stage fmt m objectType content) (fun _ => Staging fmt s) (Staging fmt s) s := by
  refine Ends.ensure (fun hsmall => Ends.get ?_) fun _ => Staging.refl s
  split
  · exact Ends.pure (Staging.refl s)
  · rename_i hfound
    have hnone : (s.find (fmt.objectDigest objectType content)).isSome = false := by
      simpa using hfound
    refine Ends.modify (Ends.get (Ends.ensure (fun hroom => Ends.set (Ends.pure ?_)) fun _ => ?_))
    · by_cases hc : s.crowded
      · rw [if_pos hc] at hroom ⊢
        have hnone' : ((s.reclaimStaged fmt m).find (fmt.objectDigest objectType content)).isSome
            = false := by
          rw [← Bool.not_eq_true, find_isSome] at hnone ⊢
          rintro ⟨entry, he, hd⟩
          exact hnone ⟨entry, (mem_filter.mp he).1, hd⟩
        exact ⟨⟨rfl, rfl, rfl, rfl, rfl, rfl, rfl, rfl, rfl, rfl, rfl⟩, rfl, ⟨rfl, rfl, rfl⟩,
          fun _ h hi => (hi.reclaim m).stageEntry hnone' hroom hsmall⟩
      · rw [if_neg hc] at hroom ⊢
        exact ⟨⟨rfl, rfl, rfl, rfl, rfl, rfl, rfl, rfl, rfl, rfl, rfl⟩, rfl, ⟨rfl, rfl, rfl⟩,
          fun _ h hi => hi.stageEntry hnone hroom hsmall⟩
    · split
      · exact ⟨⟨rfl, rfl, rfl, rfl, rfl, rfl, rfl, rfl, rfl, rfl, rfl⟩, rfl, ⟨rfl, rfl, rfl⟩,
          fun _ h hi => hi.reclaim m⟩
      · exact Staging.refl s

/-! ### Writing the objects -/

omit [DecidableEq D] in
theorem Disk.write_up {d : Disk D C} {block : Nat} {x : Block D C}
    (h : (d.write block x).2.down = false) : d.down = false := by
  cases hd : d.down with
  | false => rfl
  | true =>
    unfold Disk.write Disk.next at h
    simp only [hd, if_true] at h
    exact h

variable {entry : ObjectEntry D C}

theorem ObjectEntry.WellFormed.load {m : Moment}
    (hw : entry.WellFormed fmt) (h : s.load fmt m entry = some content) :
    fmt.objectDigest entry.objectType content = entry.digest ∧
      fmt.size content = entry.length := by
  obtain ⟨held, hdigest, hsize, hstage⟩ := hw
  unfold Store.load at h
  split at h
  · rename_i staged hs
    obtain rfl := hstage staged hs
    obtain rfl := Option.some.inj h
    exact ⟨hdigest, hsize⟩
  · split at h
    · cases h
    · split at h
      · split at h
        · rename_i hsame
          obtain rfl := Option.some.inj h
          have := fmt.objectDigest_inj (hsame.2.trans hdigest.symm)
          exact ⟨this.1 ▸ hsame.2, hsame.1⟩
        · cases h
      · cases h

theorem Indexes.written {block : Nat} (hi : Indexes fmt start s.objects h) (he : entry ∈ s.objects)
    (hr : r.objectDigest? = some entry.digest)
    (hblock : start ≤ block ∧ block < start + arenaBlockCount) :
    Indexes fmt start (s.written entry block).objects (r :: h) ∧
      (s.written entry block).objects.map ObjectEntry.digest
        = s.objects.map ObjectEntry.digest := by
  have hmap : (s.written entry block).objects.map ObjectEntry.digest
      = s.objects.map ObjectEntry.digest := by
    unfold Store.written updateEntry
    rw [map_map]
    refine map_congr_left fun e _ => ?_
    simp only [Function.comp]
    split <;> rfl
  refine ⟨⟨fun e hmem => ?_, hmap ▸ hi.nodup, ?_, fun e hmem => ?_, fun digest => ?_,
    fun e hmem hdurable => ?_⟩, hmap⟩
  · obtain ⟨old, hold, rfl | ⟨-, rfl⟩⟩ := mem_updateEntry hmem
    · exact hi.wellFormed _ hold
    · exact (hi.wellFormed old hold).moved rfl rfl rfl (.inr rfl)
  · have := congrArg List.length hmap
    rw [length_map, length_map] at this
    rw [this]
    exact hi.room
  · obtain ⟨old, hold, rfl | ⟨-, rfl⟩⟩ := mem_updateEntry hmem
    · exact hi.small _ hold
    · exact hi.small old hold
  · have hcons : objectDigests (r :: h) = entry.digest :: objectDigests h := by
      unfold objectDigests
      rw [filterMap_cons, hr]
    rw [hcons, mem_cons, ← hi.durable digest]
    constructor
    · rintro ⟨e, hmem, hd, hdurable⟩
      obtain ⟨old, hold, rfl | ⟨hsame, rfl⟩⟩ := mem_updateEntry hmem
      · exact .inr ⟨e, hold, hd, hdurable⟩
      · exact .inl (hd.symm.trans hsame)
    · rintro (rfl | ⟨e, hmem, hd, hdurable⟩)
      · refine ⟨_, mem_map.mpr ⟨entry, he, rfl⟩, ?_⟩
        rw [if_pos rfl]
        exact ⟨rfl, rfl⟩
      · refine ⟨_, mem_map.mpr ⟨e, hmem, rfl⟩, ?_⟩
        split
        · exact ⟨hd, rfl⟩
        · exact ⟨hd, hdurable⟩
  · obtain ⟨old, hold, rfl | ⟨-, rfl⟩⟩ := mem_updateEntry hmem
    · exact hi.housed _ hold hdurable
    · exact hblock

theorem Indexes.admissible (hi : Indexes fmt start s.objects h) (he : entry ∈ s.objects)
    (hdigest : fmt.objectDigest entry.objectType content = entry.digest)
    (hsize : fmt.size content = entry.length)
    (hp : r.payload = .object entry.objectType entry.digest content) :
    Admissible fmt rules h r := by
  unfold Admissible
  rw [hp]
  refine ⟨hsize ▸ hi.small entry he, hdigest, s.objects.map ObjectEntry.digest, hi.nodup, ?_, ?_⟩
  · rw [length_map]
    exact hi.room
  · rw [objectDigests_cons_object hp]
    intro d hd
    rcases mem_cons.mp hd with rfl | hd
    · exact mem_map.mpr ⟨entry, he, rfl⟩
    · obtain ⟨e, hmem, rfl, -⟩ := (hi.durable d).mpr hd
      exact mem_map.mpr ⟨e, hmem, rfl⟩

/-- What writing one object leaves. -/
structure WroteOne (fmt : Format D C) (rules : Rules D) (P : Ledger D → Prop)
    (s : Store D C) (hf h : List (Record D C)) (entry : ObjectEntry D C) (wrote : Bool)
    (t : Store D C) : Prop where
  kept : Kept s t
  digests : t.objects.map ObjectEntry.digest = s.objects.map ObjectEntry.digest
  done : wrote = true → ∃ r, r.objectDigest? = some entry.digest ∧
    Live fmt rules P t hf (r :: h)
  undone : wrote = false → Live fmt rules P t hf h

theorem Live.writeObject (hl : Live fmt rules P s hf h) (he : entry ∈ s.objects) (m : Moment) :
    Ends (writeObject fmt m entry) (WroteOne fmt rules P s hf h entry) (fun _ => False) s := by
  have hfail : WroteOne fmt rules P s hf h entry false s :=
    ⟨Kept.refl s, rfl, fun h => (Bool.noConfusion h), fun _ => hl⟩
  refine Ends.get ?_
  split
  · exact Ends.pure hfail
  · rename_i content hload
    obtain ⟨hdigest, hsize⟩ := (hl.indexes.wellFormed entry he).load hload
    rw [if_neg (by simp [hsize])]
    have hadm : Admissible fmt rules h
        (s.frame (.object entry.objectType entry.digest content)) :=
      hl.indexes.admissible he hdigest hsize rfl
    rcases hl.ready.append _ hadm with ⟨disk, hrun, hready⟩ | ⟨hrun, hstanding, hatEnd, hsure⟩
    · exact Ends.after hrun (Ends.pure ⟨⟨rfl, rfl, rfl⟩, rfl, fun h => (Bool.noConfusion h),
        fun _ => ⟨hready, hl.indexes⟩⟩)
    · refine Ends.after hrun (Ends.modify (Ends.pure ?_))
      have hblock : s.arenaStart ≤ s.nextBlock ∧
          s.nextBlock < s.arenaStart + arenaBlockCount := by
        have hbounded := hstanding.bounded
        rw [length_cons] at hbounded
        rw [hl.ready.atEnd.nextBlock]
        omega
      have hrecord : (s.frame (.object entry.objectType entry.digest content)).objectDigest?
          = some entry.digest := rfl
      obtain ⟨hindexes, hmap⟩ := hl.indexes.written he hrecord hblock
      have hsame : SameLog (s.appended fmt (.object entry.objectType entry.digest content))
          ((s.appended fmt (.object entry.objectType entry.digest content)).written entry
            s.nextBlock) := ⟨rfl, rfl, rfl, rfl, rfl, rfl, rfl, rfl, rfl, rfl, rfl⟩
      refine ⟨⟨rfl, rfl, rfl⟩, hmap, fun _ => ⟨_, rfl, ⟨hstanding.of_same hsame,
        hatEnd.of_same hsame, hsure, fun ht hup top htop x hx => ?_⟩, hindexes⟩,
        fun h => (Bool.noConfusion h)⟩
      -- the new record is an object, and so was whatever was not settled before
      cases top with
      | nil => cases hx
      | cons y top =>
        obtain ⟨rfl, htail⟩ := cons.inj htop
        rcases mem_cons.mp hx with rfl | hx
        · rfl
        · exact hl.ready.neat.loose ht (Disk.write_up hup) top htail x hx

/-- What writing objects leaves: the log is longer by objects, and holds those named. -/
structure Wrote (fmt : Format D C) (rules : Rules D) (P : Ledger D → Prop) (s : Store D C)
    (hf h : List (Record D C)) (ds : List D) (t : Store D C) : Prop where
  kept : Kept s t
  digests : t.objects.map ObjectEntry.digest = s.objects.map ObjectEntry.digest
  log : ∃ objs, (∀ x ∈ objs, x.IsObject) ∧ Live fmt rules P t hf (objs ++ h) ∧
    ∀ d ∈ ds, d ∈ objectDigests (objs ++ h)

theorem Wrote.none {ds : List D} (hw : Wrote fmt rules P s hf h ds t) :
    Wrote fmt rules P s hf h [] t := by
  obtain ⟨hkept, hdigests, objs, hobjs, hl, -⟩ := hw
  exact ⟨hkept, hdigests, objs, hobjs, hl, fun d hd => (not_mem_nil hd).elim⟩

omit [DecidableEq D] in
theorem mem_objectDigests_append {d : D} (hd : d ∈ objectDigests h) :
    d ∈ objectDigests (objs ++ h) := by
  unfold objectDigests
  rw [filterMap_append]
  exact mem_append_right _ hd

theorem Store.find_isSome_of_digests (h : t.objects.map ObjectEntry.digest
    = s.objects.map ObjectEntry.digest) (d : D) : (t.find d).isSome = (s.find d).isSome := by
  rw [Bool.eq_iff_iff, find_isSome, find_isSome]
  have hmem : ∀ u : Store D C, (∃ entry ∈ u.objects, entry.digest = d) ↔
      d ∈ u.objects.map ObjectEntry.digest := fun u => by simp
  rw [hmem, hmem, h]

theorem Wrote.writeIfMissing {ds : List D} (hw : Wrote fmt rules P s hf h ds t) {d : D}
    (hfound : (s.find d).isSome) (m : Moment) :
    Ends (writeIfMissing fmt m d) (fun _ u => Wrote fmt rules P s hf h (ds ++ [d]) u)
      (fun u => Wrote fmt rules P s hf h [] u) t := by
  have hnone := hw.none
  obtain ⟨hkept, hdigests, objs, hobjs, hl, hds⟩ := hw
  rw [← find_isSome_of_digests hdigests d] at hfound
  obtain ⟨entry, hentry⟩ := Option.isSome_iff_exists.mp hfound
  obtain ⟨hmem, rfl⟩ := find_some hentry
  refine Ends.get ?_
  rw [hentry]
  dsimp only
  have hadd : ∀ {u : Store D C} {objs' : List (Record D C)}, Kept t u →
      u.objects.map ObjectEntry.digest = t.objects.map ObjectEntry.digest →
      (∀ x ∈ objs', x.IsObject) → Live fmt rules P u hf (objs' ++ (objs ++ h)) →
      entry.digest ∈ objectDigests (objs' ++ (objs ++ h)) →
      Wrote fmt rules P s hf h (ds ++ [entry.digest]) u := by
    intro u objs' hk hd hobjs' hl' hin
    refine ⟨hkept.trans hk, hd.trans hdigests, objs' ++ objs, fun x hx => ?_, ?_, fun d' hd' => ?_⟩
    · rcases mem_append.mp hx with hx | hx
      · exact hobjs' x hx
      · exact hobjs x hx
    · rw [append_assoc]
      exact hl'
    · rw [append_assoc]
      rcases mem_append.mp hd' with hd' | hd'
      · exact mem_objectDigests_append (hds d' hd')
      · rw [mem_singleton.mp hd']
        exact hin
  split
  · rename_i hdurable
    exact Ends.pure (@hadd t [] (Kept.refl t) rfl (by simp) hl
      ((hl.indexes.durable _).mp ⟨entry, hmem, rfl, hdurable⟩))
  · refine Ends.bind ((hl.writeObject hmem m).mono (fun wrote u hu => ?_) fun u hu => hu.elim)
    cases wrote with
    | true =>
      obtain ⟨r, hr, hl'⟩ := hu.done rfl
      refine Ends.pure (@hadd u [r] hu.kept hu.digests ?_ hl' ?_)
      · intro x hx
        rw [mem_singleton.mp hx]
        unfold Record.IsObject
        rw [hr]
        rfl
      · unfold objectDigests
        rw [singleton_append, filterMap_cons, hr]
        exact mem_cons_self
    | false =>
      have hl' := hu.undone rfl
      exact ⟨hkept.trans hu.kept, hu.digests.trans hdigests, objs, hobjs, hl',
        fun d hd => (not_mem_nil hd).elim⟩

theorem Indexes.complete {H : List (Record D C)} {m : Moment} {root : D} {reachable : List D}
    (hi : Indexes fmt start s.objects h) (hc : Chain fmt rules H)
    (hclosure : s.closure fmt m root = .ok reachable)
    (hall : ∀ d ∈ reachable, d ∈ objectDigests H) : Complete fmt H root := by
  have hwalk : walk (s.children fmt m) .broken maxObjects (2 * maxObjects) [root] 1 []
      = .ok reachable := by
    unfold Store.closure at hclosure
    split at hclosure
    · cases hclosure
    · exact hclosure
  refine ⟨reachable, walk_congr hwalk fun d hd _ => ?_⟩
  obtain ⟨next, hnext, hin⟩ := (walk_closed hwalk (by simp)).2 d hd
  rw [hnext]
  unfold Store.children at hnext
  split at hnext
  · cases hnext
  · rename_i entry hentry
    obtain ⟨hmem, rfl⟩ := find_some hentry
    obtain ⟨held, hdigest, -, -⟩ := hi.wellFormed entry hmem
    obtain ⟨⟨objectType, content⟩, ho⟩ :=
      Option.isSome_iff_exists.mp (mem_objectDigests.mp (hall _ hd))
    obtain ⟨htype, hcontent⟩ := fmt.objectDigest_inj ((hc.objectIn_eq ho).trans hdigest.symm)
    have hload : ∀ c, s.load fmt m entry = some c → c = content := fun c hload =>
      (fmt.objectDigest_inj (((hi.wellFormed entry hmem).load hload).1.trans hdigest.symm)).2.trans
        hcontent.symm
    have hnames : ∀ digests, s.named fmt m entry = .ok digests →
        names fmt objectType content = some digests := by
      intro digests hnamed
      unfold Store.named at hnamed
      unfold names
      rw [htype]
      split at hnamed
      · rename_i hmanifest
        rw [if_pos hmanifest]
        split at hnamed
        · cases hnamed
        · rename_i c hc'
          obtain rfl := hload c hc'
          split at hnamed
          · cases hnamed
          · rename_i manifest hm
            rw [hm]
            cases hnamed
            rfl
      · rename_i hmanifest
        rw [if_neg hmanifest]
        split at hnamed
        · rename_i htree
          rw [if_pos htree]
          split at hnamed
          · cases hnamed
          · rename_i c hc'
            obtain rfl := hload c hc'
            split at hnamed
            · cases hnamed
            · rename_i bindings hb
              rw [hb]
              cases hnamed
              rfl
        · rename_i htree
          rw [if_neg htree]
          cases hnamed
          rfl
    split at hnext
    · cases hnext
    · rename_i digests hnamed
      dsimp only at hnext
      split at hnext
      · obtain rfl := Except.ok.inj hnext
        unfold childrenIn
        rw [ho]
        dsimp only
        rw [hnames digests hnamed]
        dsimp only
        rw [if_pos]
        rw [all_eq_true]
        exact fun b hb => mem_objectDigests.mp (hall b (hin b hb))
      · cases hnext

/-! ### The parts of a publication -/

/-- The commit of a publication. -/
def Publication.commitOf (q : Publication D) (newGeneration : Nat) (receiptDigest : D)
    (prepareSequence : Nat) (prepareDigest : D) (committedNs objectCount : Nat) :
    CommitRecord D where
  prepareSequence := prepareSequence
  prepareDigest := prepareDigest
  newGeneration := newGeneration
  rootDigest := q.candidateRoot
  policyDigest := q.policyDigest
  receiptDigest := receiptDigest
  principal := q.principal
  requestSequence := q.sequence
  committedNs := committedNs
  objectCount := objectCount

/-- A record that prepares a publication. -/
def Prepares (q : Publication D) (request : D) (r : Record D C) : Prop :=
  ∃ ns invocation, r.payload = .prepare (q.prepare request ns invocation)

/-- A record that commits a publication some record prepared. -/
def Commits (fmt : Format D C) (q : Publication D) (newGeneration : Nat) (r c : Record D C) :
    Prop :=
  ∃ receiptDigest ns objectCount, c.payload = .commit
    (q.commitOf newGeneration receiptDigest r.sequence (fmt.recordDigest r) ns objectCount)

section Parts

variable (hp : Stable fmt rules P)
include hp

theorem Live.writeObjects (hl : Live fmt rules P s hf h) (root receiptDigest : D) :
    Ends (writeObjects fmt root receiptDigest)
      (fun _ t => Kept s t ∧ ∃ objs, (∀ x ∈ objs, x.IsObject) ∧
        Live fmt rules P t (objs ++ h) (objs ++ h) ∧ Complete fmt (objs ++ h) root)
      (fun t => Kept s t ∧ ∃ objs, (∀ x ∈ objs, x.IsObject) ∧ Live fmt rules P t hf (objs ++ h))
      s := by
  have hstart : Wrote fmt rules P s hf h [] s :=
    ⟨Kept.refl s, rfl, [], by simp, hl, fun d hd => (not_mem_nil hd).elim⟩
  have hfail : ∀ {ds : List D} {t : Store D C}, Wrote fmt rules P s hf h ds t → Kept s t ∧
      ∃ objs, (∀ x ∈ objs, x.IsObject) ∧ Live fmt rules P t hf (objs ++ h) := by
    rintro ds t ⟨hkept, -, objs, hobjs, hl', -⟩
    exact ⟨hkept, objs, hobjs, hl'⟩
  refine Ends.get ?_
  split
  · rename_i reachable hclosure
    have hfound : ∀ d ∈ reachable, (s.find d).isSome := by
      intro d hd
      have hwalk : walk (s.children fmt [5]) .broken maxObjects (2 * maxObjects) [root] 1 []
          = .ok reachable := by
        unfold Store.closure at hclosure
        split at hclosure
        · cases hclosure
        · exact hclosure
      obtain ⟨next, hnext, -⟩ := (walk_closed hwalk (by simp)).2 d hd
      unfold Store.children at hnext
      split at hnext
      · cases hnext
      · rename_i entry hentry
        rw [hentry]
        rfl
    have hloop : Ends (reachable.forM (writeIfMissing fmt [6]))
        (fun _ t => Wrote fmt rules P s hf h reachable t)
        (fun t => Wrote fmt rules P s hf h [] t) s :=
      Ends.forM reachable hstart fun done d rest t hsplit ht =>
        ht.writeIfMissing (hfound d (hsplit ▸ by simp)) [6]
    refine Ends.bind (hloop.mono (fun _ t ht => ?_) fun t ht => hfail ht)
    · refine Ends.get ?_
      split
      · rename_i receipt hreceipt
        have hin : (s.find receiptDigest).isSome := by
          rw [← find_isSome_of_digests ht.digests, hreceipt]
          rfl
        refine Ends.bind ((ht.writeIfMissing hin [6]).mono (fun _ u hu => ?_) fun u hu => hfail hu)
        obtain ⟨hkept, -, objs, hobjs, hl', hds⟩ := hu
        have hsettled : ∀ d ∈ reachable, d ∈ objectDigests (objs ++ h) := fun d hd =>
          hds d (mem_append_left _ hd)
        have hcomplete := hl.indexes.complete hl'.ready.standing.chain hclosure hsettled
        rcases hl'.ready.standing.flush hp hl'.ready.atEnd hl'.ready.neat.sure with
          ⟨hrun, hready⟩ | ⟨hrun, hready⟩
        · refine Ends.after hrun (Ends.ensure (fun _ => Ends.pure ?_) fun hne => (hne rfl).elim)
          exact ⟨hkept.trans ⟨rfl, rfl, rfl⟩, objs, hobjs, ⟨hready, hl'.indexes⟩, hcomplete⟩
        · refine Ends.after hrun (Ends.ensure (fun h => (Bool.noConfusion h)) fun _ => ?_)
          exact ⟨hkept.trans ⟨rfl, rfl, rfl⟩, objs, hobjs, ⟨hready, hl'.indexes⟩⟩
      · exact Ends.throw (hfail ht)
  · exact Ends.throw (hfail hstart)

theorem Live.prepare (hl : Live fmt rules P s hf h) (q : Publication D) (request : D)
    (invocation : Nat) (hprincipal : q.principal ≠ 0)
    (hrule : ∀ ns, rules.prepare (ledger fmt h) (q.prepare request ns invocation)) :
    Ends (prepare fmt q request invocation)
      (fun out t => ∃ r, Prepares q request r ∧ Live fmt rules P t (r :: h) (r :: h) ∧
        out.2 = (r.sequence, fmt.recordDigest r) ∧ t.ledger = s.ledger.step fmt r ∧
        t.retained = s.retained ∧ t.ready = s.ready)
      (fun t => Kept s t ∧ (Live fmt rules P t hf h ∨
        ∃ r, Prepares q request r ∧ Live fmt rules P t hf (r :: h))) s := by
  refine Ends.now (Ends.get (Ends.bind ?_))
  have hclock : Live fmt rules P { s with clock := s.clock.tail } hf h :=
    hl.of_same ⟨rfl, rfl, rfl, rfl, rfl, rfl, rfl, rfl, rfl, rfl, rfl⟩ rfl hl.indexes
  generalize hu : ({ s with clock := s.clock.tail } : Store D C) = u at hclock ⊢
  have hkept : Kept s u := by
    rw [← hu]
    exact ⟨rfl, rfl, rfl⟩
  refine Ends.relabel (m := stage fmt [4] ObjectType.receipt.code
    (fmt.receiptBytes (u.receipt q request (s.clock.headD 0)))) ((stage_ends _ _ _ u).mono
      (fun receiptDigest v hv => ?_) fun v hv => ?_) (fun a t h => by simp only [h])
      fun e t h => ⟨.exhausted, by simp only [h]⟩
  · have hv' : Live fmt rules P { v with clock := v.clock.tail } hf h :=
      (hclock.of_same hv.log hv.disk (hv.indexes _ h hclock.indexes)).of_same
        ⟨rfl, rfl, rfl, rfl, rfl, rfl, rfl, rfl, rfl, rfl, rfl⟩ rfl
        (hv.log.arenaStart.symm ▸ hv.indexes _ h hclock.indexes)
    refine Ends.now (Ends.get ?_)
    have hkept' : Kept s { v with clock := v.clock.tail } :=
      (hkept.trans hv.kept).trans ⟨rfl, rfl, rfl⟩
    generalize v.clock.headD 0 = ns at *
    generalize ({ v with clock := v.clock.tail } : Store D C) = w at hv' hkept' ⊢
    rcases hv'.ready.append (.prepare (q.prepare request ns invocation)) ⟨hprincipal, hrule ns⟩ with
      ⟨disk, hrun, hready⟩ | ⟨hrun, hstanding, hatEnd, hsure⟩
    · refine Ends.after hrun ?_
      exact ⟨hkept'.trans ⟨rfl, rfl, rfl⟩, .inl ⟨hready, hv'.indexes⟩⟩
    · refine Ends.after hrun ?_
      have hindexes := hv'.indexes.cons_other
        (r := w.frame (.prepare (q.prepare request ns invocation))) rfl
      rcases hstanding.flush hp hatEnd hsure with ⟨hflush, hready⟩ | ⟨hflush, hready⟩
      · refine Ends.after hflush (Ends.ensure (fun _ => Ends.modify (Ends.pure ?_))
          fun hne => (hne rfl).elim)
        refine ⟨w.frame (.prepare (q.prepare request ns invocation)), ⟨ns, invocation, rfl⟩, ?_,
          rfl, ?_, hkept'.retained, hkept'.ready⟩
        · exact Live.of_same ⟨hready, hindexes⟩
            ⟨rfl, rfl, rfl, rfl, rfl, rfl, rfl, rfl, rfl, rfl, rfl⟩ rfl hindexes
        · rw [← hkept'.ledger]
          rfl
      · refine Ends.after hflush (Ends.ensure (fun h => (Bool.noConfusion h)) fun _ => ?_)
        exact ⟨hkept'.trans ⟨rfl, rfl, rfl⟩, .inr ⟨_, ⟨ns, invocation, rfl⟩, hready, hindexes⟩⟩
  · exact ⟨hkept.trans hv.kept, .inl (hclock.of_same hv.log hv.disk
      (hv.indexes _ h hclock.indexes))⟩

theorem Live.commit (hl : Live fmt rules P s h h) (q : Publication D) (request receiptDigest : D)
    {r : Record D C} (ordinal : Nat) {pending : Pending D}
    (hpending : (ledger fmt h).pending = some pending)
    (hresolves : ∀ ns, (q.commitOf (s.publishedGeneration + 1) receiptDigest r.sequence
      (fmt.recordDigest r) ns ordinal).Resolves pending)
    (hcomplete : Complete fmt h q.candidateRoot)
    (hrule : ∀ ns, rules.commit (ledger fmt h) (q.commitOf (s.publishedGeneration + 1)
      receiptDigest r.sequence (fmt.recordDigest r) ns ordinal))
    (hrequest : s.ledger.pendingRequest fmt.zero = request) :
    Ends (commit fmt q request receiptDigest r.sequence (fmt.recordDigest r) ordinal)
      (fun g t => g = s.publishedGeneration + 1 ∧ ∃ c,
        Commits fmt q (s.publishedGeneration + 1) r c ∧
        Live fmt rules P t (c :: h) (c :: h) ∧ t.ledger = s.ledger.step fmt c ∧
        t.retained = s.retained ∧ t.ready = s.ready)
      (fun t => Kept s t ∧ (Live fmt rules P t h h ∨
        ∃ c, Commits fmt q (s.publishedGeneration + 1) r c ∧ Live fmt rules P t h (c :: h)))
      s := by
  refine Ends.get (Ends.ensure (fun _ => Ends.now (Ends.get ?_)) fun _ =>
    ⟨Kept.refl s, .inl hl⟩)
  have hclock : Live fmt rules P { s with clock := s.clock.tail } h h :=
    hl.of_same ⟨rfl, rfl, rfl, rfl, rfl, rfl, rfl, rfl, rfl, rfl, rfl⟩ rfl hl.indexes
  let record := q.commitOf (s.publishedGeneration + 1) receiptDigest r.sequence
    (fmt.recordDigest r) (s.clock.headD 0) ordinal
  rcases hclock.ready.append (.commit record)
      ⟨⟨pending, hpending, hresolves _⟩, hcomplete, hrule _⟩ with
    ⟨disk, hrun, hready⟩ | ⟨hrun, hstanding, hatEnd, hsure⟩
  · exact Ends.after hrun ⟨⟨rfl, rfl, rfl⟩, .inl ⟨hready, hl.indexes⟩⟩
  · refine Ends.after hrun ?_
    have hindexes := hl.indexes.cons_other
      (r := Store.frame { s with clock := s.clock.tail } (.commit record)) rfl
    rcases hstanding.flush hp hatEnd hsure with ⟨hflush, hready⟩ | ⟨hflush, hready⟩
    · refine Ends.after hflush (Ends.ensure (fun _ => Ends.modify (Ends.pure ⟨rfl,
        Store.frame { s with clock := s.clock.tail } (.commit record),
        ⟨receiptDigest, _, ordinal, rfl⟩, ?_, ?_, rfl, rfl⟩)) fun hne => (hne rfl).elim)
      · exact Live.of_same ⟨hready, hindexes⟩
          ⟨rfl, rfl, rfl, rfl, rfl, rfl, rfl, rfl, rfl, rfl, rfl⟩ rfl hindexes
      · show _ = (s.ledger.publish record).settle (record.result (s.ledger.pendingRequest fmt.zero))
        rw [hrequest]
        rfl
    · refine Ends.after hflush (Ends.ensure (fun h => (Bool.noConfusion h)) fun _ => ?_)
      exact ⟨⟨rfl, rfl, rfl⟩, .inr ⟨_, ⟨receiptDigest, _, ordinal, rfl⟩, hready, hindexes⟩⟩

end Parts

/-! ### The whole of it -/

/-- **What a publication leaves**: what it answers, the memory, the settled part of the log and
the log. -/
inductive Carried (fmt : Format D C) (q : Publication D) (request : D) (s : Store D C)
    (hf h : List (Record D C)) : Option Nat → Store D C → List (Record D C) →
    List (Record D C) → Prop where
  /-- It stopped before its preparation was in the log. -/
  | unprepared {t : Store D C} (kept : Kept s t) : Carried fmt q request s hf h none t hf h
  /-- The preparation was not flushed, and the memory does not know of it. -/
  | unflushed {t : Store D C} {r : Record D C} (kept : Kept s t) (prepares : Prepares q request r) :
      Carried fmt q request s hf h none t hf (r :: h)
  /-- The preparation is durable. -/
  | stopped {t : Store D C} {r : Record D C} {settled objs : List (Record D C)}
      (prepares : Prepares q request r) (objects : ∀ x ∈ objs ++ settled, x.IsObject)
      (ledger : t.ledger = s.ledger.step fmt r) (retained : t.retained = s.retained)
      (ready : t.ready = s.ready) :
      Carried fmt q request s hf h none t (settled ++ r :: h) (objs ++ (settled ++ r :: h))
  /-- The commit was not flushed, and the memory does not know of it. -/
  | doubtful {t : Store D C} {r c : Record D C} {objs : List (Record D C)}
      (prepares : Prepares q request r) (objects : ∀ x ∈ objs, x.IsObject)
      (commits : Commits fmt q (s.publishedGeneration + 1) r c)
      (ledger : t.ledger = s.ledger.step fmt r) (retained : t.retained = s.retained)
      (ready : t.ready = s.ready) :
      Carried fmt q request s hf h none t (objs ++ r :: h) (c :: (objs ++ r :: h))
  /-- All of it is durable, and the version is published. -/
  | done {t : Store D C} {r c : Record D C} {objs : List (Record D C)}
      (prepares : Prepares q request r) (objects : ∀ x ∈ objs, x.IsObject)
      (commits : Commits fmt q (s.publishedGeneration + 1) r c)
      (ledger : t.ledger = (s.ledger.step fmt r).step fmt c) (retained : t.retained = s.retained)
      (ready : t.ready = s.ready) :
      Carried fmt q request s hf h (some (s.publishedGeneration + 1)) t (c :: (objs ++ r :: h))
        (c :: (objs ++ r :: h))

/-- **A publication the rules allow leaves a store that is live**, wherever it stops. -/
theorem Live.publish (hp : Stable fmt rules P) (hl : Live fmt rules P s hf h)
    (q : Publication D) (request : D) (invocation : Nat) (hprincipal : q.principal ≠ 0)
    (hprepare : ∀ ns, rules.prepare (ledger fmt h) (q.prepare request ns invocation))
    (hcommit : ∀ r record, Prepares q request r →
      record.newGeneration = s.publishedGeneration + 1 →
      rules.commit ((ledger fmt h).step fmt r) record) :
    Ends (publish fmt q request invocation)
      (fun g t => ∃ hf' h', Carried fmt q request s hf h (some g) t hf' h' ∧
        Live fmt rules P t hf' h')
      (fun t => ∃ hf' h', Carried fmt q request s hf h none t hf' h' ∧
        Live fmt rules P t hf' h') s := by
  refine Ends.bind ((hl.prepare hp q request invocation hprincipal hprepare).mono ?_ ?_)
  · rintro ⟨receiptDigest, prepareSequence, prepareDigest⟩ u ⟨r, hr, hlu, hout, hledger, hretained,
      hready⟩
    obtain ⟨rfl, rfl⟩ := Prod.mk.inj hout
    refine Ends.bind ((hlu.writeObjects hp q.candidateRoot receiptDigest).mono ?_ ?_)
    · rintro ordinal v ⟨hkept, objs, hobjs, hlv, hcomplete⟩
      have hlog : ledger fmt (objs ++ r :: h) = (ledger fmt h).step fmt r :=
        ledger_append_objects hobjs
      obtain ⟨ns, inv, hpayload⟩ := hr
      have hstep : ∀ l : Ledger D, l.step fmt r = l.prepare
          ((q.prepare request ns inv).pending r.sequence (fmt.recordDigest r)) := by
        intro l
        unfold Ledger.step
        rw [hpayload]
      have hgeneration : v.publishedGeneration = s.publishedGeneration := by
        have h1 := congrArg Ledger.generation hkept.ledger
        rw [hledger, hstep] at h1
        exact h1
      have hv : v.ledger = s.ledger.step fmt r := hkept.ledger.trans hledger
      refine (@Live.commit _ _ _ _ _ _ _ _ hp hlv q request receiptDigest _ ordinal
        ((q.prepare request ns inv).pending r.sequence (fmt.recordDigest r)) ?_ (fun _ => ⟨rfl, rfl, rfl, rfl, rfl⟩) hcomplete (fun _ => ?_) ?_).mono ?_ ?_
      · rw [hlog, hstep]
        rfl
      · rw [hlog]
        exact hcommit r _ ⟨ns, inv, hpayload⟩ (congrArg (· + 1) hgeneration)
      · rw [hv, hstep]
        rfl
      · rintro g t ⟨rfl, c, hc, hlt, hledger', hretained', hready'⟩
        rw [hgeneration] at hc ⊢
        refine ⟨_, _, Carried.done ⟨ns, inv, hpayload⟩ hobjs hc ?_ ?_ ?_, hlt⟩
        · rw [hledger', hv]
        · exact hretained'.trans (hkept.retained.trans hretained)
        · exact hready'.trans (hkept.ready.trans hready)
      · rintro t ⟨hkept', hlt | ⟨c, hc, hlt⟩⟩
        · exact ⟨_, _, @Carried.stopped _ _ _ _ _ _ _ _ _ _ _ [] ⟨ns, inv, hpayload⟩ (by simpa using hobjs)
            (hkept'.ledger.trans hv) (hkept'.retained.trans (hkept.retained.trans hretained))
            (hkept'.ready.trans (hkept.ready.trans hready)), hlt⟩
        · rw [hgeneration] at hc
          exact ⟨_, _, Carried.doubtful ⟨ns, inv, hpayload⟩ hobjs hc (hkept'.ledger.trans hv)
            (hkept'.retained.trans (hkept.retained.trans hretained))
            (hkept'.ready.trans (hkept.ready.trans hready)), hlt⟩
    · rintro t ⟨hkept, objs, hobjs, hlt⟩
      exact ⟨_, _, @Carried.stopped _ _ _ _ _ _ _ _ _ _ [] _ hr (by simpa using hobjs)
        (hkept.ledger.trans hledger) (hkept.retained.trans hretained)
        (hkept.ready.trans hready), hlt⟩
  · rintro t ⟨hkept, hlt | ⟨r, hr, hlt⟩⟩
    · exact ⟨_, _, Carried.unprepared hkept, hlt⟩
    · exact ⟨_, _, Carried.unflushed hkept hr, hlt⟩

/-! ### What a broker reported -/

/-- A record of what a broker reported. -/
def Record.IsOutbox (r : Record D C) : Prop := ∃ record, r.payload = .outbox record

/-- What recording a broker's report leaves. -/
inductive Reported (fmt : Format D C) (s : Store D C) (hf h : List (Record D C)) :
    Store D C → List (Record D C) → List (Record D C) → Prop where
  | unwritten {t : Store D C} (kept : Kept s t) : Reported fmt s hf h t hf h
  | unflushed {t : Store D C} {r : Record D C} (outbox : r.IsOutbox) (kept : Kept s t) :
      Reported fmt s hf h t hf (r :: h)
  | done {t : Store D C} {r : Record D C} (outbox : r.IsOutbox)
      (ledger : t.ledger = s.ledger.step fmt r) (retained : t.retained = s.retained)
      (ready : t.ready = s.ready) : Reported fmt s hf h t (r :: h) (r :: h)

theorem Live.recordOutbox (hp : Stable fmt rules P) (hl : Live fmt rules P s hf h)
    (principal sequence : Nat) (request : D) (target : Nat) (status : OutboxStatus)
    (attempts : Nat) :
    Ends (recordOutbox fmt principal sequence request target status attempts)
      (fun _ t => ∃ hf' h', Reported fmt s hf h t hf' h' ∧ Live fmt rules P t hf' h')
      (fun _ => False) s := by
  refine Ends.now (Ends.get ?_)
  have hclock : Live fmt rules P { s with clock := s.clock.tail } hf h :=
    hl.of_same ⟨rfl, rfl, rfl, rfl, rfl, rfl, rfl, rfl, rfl, rfl, rfl⟩ rfl hl.indexes
  have hkept : Kept s { s with clock := s.clock.tail } := ⟨rfl, rfl, rfl⟩
  generalize s.clock.headD 0 = ns
  generalize ({ s with clock := s.clock.tail } : Store D C) = u at hclock hkept ⊢
  generalize hrecord : ({
    commitSequence := u.nextSequence - 1
    requestDigest := request
    principal
    requestSequence := sequence
    status
    attempts
    target
    recordedNs := ns } : OutboxRecord D) = record
  rcases hclock.ready.append (.outbox record) trivial with
    ⟨disk, hrun, hready⟩ | ⟨hrun, hstanding, hatEnd, hsure⟩
  · exact Ends.after hrun (Ends.pure ⟨_, _, .unwritten (hkept.trans ⟨rfl, rfl, rfl⟩),
      ⟨hready, hclock.indexes⟩⟩)
  · refine Ends.after hrun ?_
    have hindexes := hclock.indexes.cons_other (r := u.frame (.outbox record)) rfl
    rcases hstanding.flush hp hatEnd hsure with ⟨hflush, hready⟩ | ⟨hflush, hready⟩
    · refine Ends.after hflush (Ends.modify (Ends.pure ⟨_, _,
        .done (r := u.frame (.outbox record)) ⟨record, rfl⟩ ?_ hkept.retained hkept.ready, ?_⟩))
      · rw [← hkept.ledger, ← hrecord]
        rfl
      · exact Live.of_same ⟨hready, hindexes⟩
          ⟨rfl, rfl, rfl, rfl, rfl, rfl, rfl, rfl, rfl, rfl, rfl⟩ rfl hindexes
    · exact Ends.after hflush (Ends.pure ⟨_, _,
        .unflushed ⟨record, rfl⟩ (hkept.trans ⟨rfl, rfl, rfl⟩), ⟨hready, hindexes⟩⟩)

end Thalyx.K4
