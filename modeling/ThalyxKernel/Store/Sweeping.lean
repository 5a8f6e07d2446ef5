/-
What a sweep leaves: `Store::reclaim_staged`, and the requests in which it runs.

A sweep is made by a staging that finds no room, so it may come between two stagings of one
request.  It keeps what is durable, what is pinned, and what the roots reach: the published
root, the retained ones, and those the service protects before it serves a request.

Two things come between what a root reaches and what is kept on its account.  A root whose
closure cannot be walked keeps itself and nothing below it; and a staging that finds its
object in the index answers its digest without pinning it, so the next staging of the same
request may sweep it.
-/
import ThalyxKernel.Store.Lookup
import ThalyxKernel.Store.Unread

namespace Thalyx.K4

open List

variable {D C : Type} [DecidableEq D]

/-! ### One sweep -/

/-- The roots a sweep goes by. -/
def Store.roots (s : Store D C) : List D :=
  s.publishedRoot :: (s.retained.map RetainedEntry.rootDigest ++ s.protectedDigests)

/-- A sweep spares a staged entry that this request has staged, that is itself a root, or that
is reached from a root the closure of which can be walked. -/
def Store.Spares (fmt : Format D C) (s : Store D C) (m : Moment) (entry : ObjectEntry D C) : Prop :=
  entry.pinned = true ∨ ∃ walk ∈ s.roots.zipIdx, walk.1 ≠ fmt.zero ∧
    (walk.1 = entry.digest ∨
      s.Walkable fmt (walk.2 :: m) walk.1 ∧ s.Reaches fmt (walk.2 :: m) walk.1 entry.digest)

variable {fmt : Format D C} {s : Store D C} {m : Moment} {entry : ObjectEntry D C}

theorem Store.find_of_mem (h : entry ∈ s.objects) : (s.find entry.digest).isSome := by
  unfold Store.find
  rw [find?_isSome]
  exact ⟨entry, h, beq_self_eq_true _⟩

/-! ### What a root reaches, read or not -/

theorem Store.load_of_load {content : C} (h : s.load fmt m entry = some content) (m' : Moment) :
    s.readable.load fmt m' entry = some content := by
  unfold Store.load at h ⊢
  cases hstage : entry.stage with
  | some staged =>
    rw [hstage] at h
    exact h
  | none =>
    rw [hstage] at h
    dsimp only at h ⊢
    split at h
    · cases h
    · rename_i hdurable
      rw [if_neg hdurable]
      cases hread : s.disk.read m entry.block with
      | none =>
        rw [hread] at h
        cases h
      | some block =>
        rw [hread] at h
        obtain ⟨hblock, hreadable⟩ := Disk.read_eq_some hread
        have hsame : s.readable.disk.read m' entry.block = some block := hreadable
        rw [hsame]
        exact h

theorem Store.named_of_named {digests : List D} (h : s.named fmt m entry = .ok digests)
    (m' : Moment) : s.readable.named fmt m' entry = .ok digests := by
  unfold Store.named at h ⊢
  cases hload : s.load fmt m entry with
  | some content =>
    rw [load_of_load hload]
    rw [hload] at h
    exact h
  | none =>
    rw [hload] at h
    split at h
    · cases h
    · rename_i hmanifest
      split at h
      · cases h
      · rename_i htree
        rw [if_neg hmanifest, if_neg htree]
        exact h

theorem Store.Walkable.reaches {root d : D} {m' : Moment} (h : s.Walkable fmt m root)
    (hd : s.readable.Reaches fmt m' root d) : s.Reaches fmt m root d := by
  unfold Store.Reaches at hd
  induction hd with
  | refl => exact .refl
  | tail _ hstep ih =>
    obtain ⟨entry, hfind, digests, hnamed, hin⟩ := hstep
    obtain ⟨entry', hfind', digests', hnamed'⟩ := h.1 _ ih
    have hentry : entry = entry' := Option.some.inj (hfind.symm.trans hfind')
    subst hentry
    have hsame := named_of_named hnamed' m'
    rw [hnamed, Except.ok.injEq] at hsame
    subst hsame
    exact ih.tail ⟨entry, hfind', digests, hnamed', hin⟩

/-! ### What one sweep keeps -/

theorem Store.mem_keptBy {root : D} (h : entry ∈ s.objects) :
    entry.digest ∈ s.keptBy fmt m root ↔ root ≠ fmt.zero ∧ (root = entry.digest ∨
      s.Walkable fmt m root ∧ s.Reaches fmt m root entry.digest) := by
  unfold Store.keptBy
  by_cases hzero : root = fmt.zero
  · simp [hzero]
  rw [if_neg hzero]
  cases hclosure : s.closure fmt m root with
  | ok reached =>
    have hwalkable : s.Walkable fmt m root := closure_ok.mp ⟨reached, hclosure⟩
    dsimp only
    rw [(closure_lists hclosure).2]
    constructor
    · exact fun hreaches => ⟨hzero, .inr ⟨hwalkable, hreaches⟩⟩
    · rintro ⟨-, rfl | ⟨-, hreaches⟩⟩
      · exact .refl
      · exact hreaches
  | error e =>
    have hnot : ¬ s.Walkable fmt m root := by
      intro hwalkable
      obtain ⟨reached, hreached⟩ := closure_ok.mpr hwalkable
      rw [hclosure] at hreached
      cases hreached
    dsimp only
    constructor
    · intro hmem
      split at hmem
      · exact ⟨hzero, .inl (List.mem_singleton.mp hmem).symm⟩
      · cases hmem
    · rintro ⟨-, rfl | ⟨hwalkable, -⟩⟩
      · rw [if_pos (find_of_mem h)]
        exact mem_singleton_self _
      · exact absurd hwalkable hnot

/-- **A sweep leaves the durable entries and those it spares.** -/
theorem Store.mem_reclaimStaged :
    entry ∈ (s.reclaimStaged fmt m).objects ↔
      entry ∈ s.objects ∧ (entry.durable = true ∨ s.Spares fmt m entry) := by
  unfold Store.reclaimStaged
  rw [mem_filter]
  refine and_congr_right fun hmem => ?_
  unfold ObjectEntry.keeps Store.Spares
  rw [Bool.or_eq_true, Bool.or_eq_true, or_assoc, decide_eq_true_eq, mem_flatMap]
  refine or_congr_right (or_congr_right ?_)
  show (∃ walk ∈ s.roots.zipIdx, entry.digest ∈ s.keptBy fmt (walk.2 :: m) walk.1) ↔ _
  refine exists_congr fun walk => and_congr_right fun _ => ?_
  exact mem_keptBy hmem

/-! ### The sweeps of a request -/

/-- A call of `reclaim_staged`: the state it is made in, and the digests the request's earlier
stagings answered. -/
structure Sweep (D C : Type) where
  store : Store D C
  moment : Moment
  staged : List D

/-- The sweep a staging makes, if it makes one. -/
def Store.stageSweep (fmt : Format D C) (s : Store D C) (m : Moment) (objectType : Nat)
    (content : C) (staged : List D) : List (Sweep D C) :=
  if fmt.size content ≤ objectMax ∧ (s.find (fmt.objectDigest objectType content)).isNone ∧
      s.crowded = true then [{ store := s, moment := m, staged }]
  else []

/-- The store a sweep leaves. -/
def Sweep.after (fmt : Format D C) (sweep : Sweep D C) : Store D C :=
  sweep.store.reclaimStaged fmt sweep.moment

theorem stage_eq (fmt : Format D C) (m : Moment) (objectType : Nat) (content : C) (s : Store D C)
    (staged : List D) :
    stage fmt m objectType content s =
      if ¬ fmt.size content ≤ objectMax then .error .tooLarge s
      else if (s.find (fmt.objectDigest objectType content)).isSome then
        .ok (fmt.objectDigest objectType content) s
      else
        let room := ((s.stageSweep fmt m objectType content staged).map (Sweep.after fmt)).headD s
        if room.crowded then .error .exhausted room
        else .ok (fmt.objectDigest objectType content)
          (room.stageEntry (fmt.objectDigest objectType content) objectType (fmt.size content)
            content) := by
  have hsweep : ((s.stageSweep fmt m objectType content staged).map (Sweep.after fmt)).headD s =
      if fmt.size content ≤ objectMax ∧ (s.find (fmt.objectDigest objectType content)).isNone ∧
        s.crowded = true then s.reclaimStaged fmt m else s := by
    unfold Store.stageSweep
    split <;> rfl
  rw [hsweep]
  let add : Engine D C D := do
    let s ← get
    ensure (s.crowded = false) .exhausted
    set (s.stageEntry (fmt.objectDigest objectType content) objectType (fmt.size content) content)
    return fmt.objectDigest objectType content
  have hadd : ∀ u : Store D C, add u = if u.crowded then .error .exhausted u else
      .ok (fmt.objectDigest objectType content)
        (u.stageEntry (fmt.objectDigest objectType content) objectType (fmt.size content)
          content) := by
    intro u
    have hroom : u.crowded = false ∨ u.crowded = true := by cases u.crowded <;> simp
    show ((ensure (u.crowded = false) .exhausted : Engine D C Unit) >>= _) u = _
    unfold ensure
    rcases hroom with hroom | hroom
    · rw [if_pos hroom, hroom]
      rfl
    · rw [if_neg (by rw [hroom]; decide), hroom]
      rfl
  unfold stage
  by_cases hsize : fmt.size content ≤ objectMax
  swap
  · unfold ensure
    rw [if_neg hsize, if_pos hsize]
    rfl
  have hpass : (ensure (fmt.size content ≤ objectMax) .tooLarge : Engine D C Unit) = pure () :=
    if_pos hsize
  rw [hpass, if_neg (not_not_intro hsize)]
  show (if (s.find (fmt.objectDigest objectType content)).isSome then
    (pure (fmt.objectDigest objectType content) : Engine D C D)
      else modify _ >>= fun _ => add) s = _
  cases hfind : s.find (fmt.objectDigest objectType content) with
  | some held => rfl
  | none =>
    simp only [Option.isSome_none, Option.isNone_none, Bool.false_eq_true, if_false, true_and,
      hsize]
    exact hadd _

/-- What can still be named when a sweep is made: what a root reaches through the objects that
are there, and what an earlier staging of the request answered. -/
def Sweep.Nameable (fmt : Format D C) (sweep : Sweep D C) (d : D) : Prop :=
  (∃ root ∈ sweep.store.roots, root ≠ fmt.zero ∧
    sweep.store.readable.Reaches fmt sweep.moment root d) ∨ d ∈ sweep.staged

/-- No staged object that can still be named is dropped. -/
def Sweep.Safe (fmt : Format D C) (sweep : Sweep D C) : Prop :=
  ∀ entry ∈ sweep.store.objects, entry.durable = false → sweep.Nameable fmt entry.digest →
    entry ∈ (sweep.after fmt).objects

/-- What has to be spared besides what the roots that can be walked reach: the staged objects
below a root that cannot be, and those an earlier staging of the request answered. -/
def Sweep.Covered (fmt : Format D C) (sweep : Sweep D C) : Prop :=
  ∀ entry ∈ sweep.store.objects, entry.durable = false →
    (∃ walk ∈ sweep.store.roots.zipIdx, walk.1 ≠ fmt.zero ∧
        ¬ sweep.store.Walkable fmt (walk.2 :: sweep.moment) walk.1 ∧
        sweep.store.readable.Reaches fmt sweep.moment walk.1 entry.digest) ∨
      entry.digest ∈ sweep.staged →
    sweep.store.Spares fmt sweep.moment entry

/-- **A sweep drops nothing that can still be named exactly when it is covered.** -/
theorem Sweep.safe_iff (fmt : Format D C) (sweep : Sweep D C) :
    sweep.Safe fmt ↔ sweep.Covered fmt := by
  constructor
  · intro h entry hmem hstaged hneeded
    have hnameable : sweep.Nameable fmt entry.digest := by
      rcases hneeded with ⟨walk, hwalk, hne, -, hreaches⟩ | hbefore
      · exact .inl ⟨walk.1, fst_mem_of_mem_zipIdx hwalk, hne, hreaches⟩
      · exact .inr hbefore
    rcases (Store.mem_reclaimStaged.mp (h entry hmem hstaged hnameable)).2 with hdurable | hspares
    · rw [hstaged] at hdurable
      cases hdurable
    · exact hspares
  · intro h entry hmem hstaged hnameable
    refine Store.mem_reclaimStaged.mpr ⟨hmem, .inr ?_⟩
    rcases hnameable with ⟨root, hroot, hne, hreaches⟩ | hbefore
    · obtain ⟨i, hi⟩ := mem_iff_getElem?.mp hroot
      have hwalk : (root, i) ∈ sweep.store.roots.zipIdx :=
        mk_mem_zipIdx_iff_getElem?.mpr hi
      by_cases hwalkable : sweep.store.Walkable fmt (i :: sweep.moment) root
      · exact .inr ⟨_, hwalk, hne, .inr ⟨hwalkable, hwalkable.reaches hreaches⟩⟩
      · exact h entry hmem hstaged (.inl ⟨_, hwalk, hne, hwalkable, hreaches⟩)
    · exact h entry hmem hstaged (.inr hbefore)

namespace Service

/-- The sweeps a call makes, in order. -/
def sweeps (fmt : Format D C) (s : Service D C) (call : Call D C) : List (Sweep D C) :=
  if s.dispatches call = false then []
  else
    let s := s.posed fmt call
    match call.request with
    | .putObject objectType length lent =>
      if objectMax < length ∨ objectType = 0 ∨ ObjectType.receipt.code < objectType then []
      else
        match lent with
        | none => []
        | some memory =>
          if fmt.size memory < length then []
          else s.store.stageSweep fmt [0] objectType (fmt.slice memory 0 length) []
    | .freeze id policy validation =>
      match s.workspace id call.principal with
      | none => []
      | some (_, w) =>
        match fmt.encodeTree objectMax w.bindings with
        | .error _ => []
        | .ok tree =>
          s.store.stageSweep fmt [0] ObjectType.tree.code tree [] ++
            match stage fmt [0] ObjectType.tree.code tree s.store with
            | .error _ _ => []
            | .ok treeDigest store =>
              store.stageSweep fmt [1] ObjectType.manifest.code (fmt.manifestBytes
                (frozenManifest w.bindings treeDigest policy validation)) [treeDigest]
    | _ =>
      match call.publication with
      | none => []
      | some q =>
        match admitPublication fmt q s.store with
        | .error _ _ => []
        | .ok request store =>
          if !call.effect then []
          else
            let ticked := { store with clock := store.clock.tail }
            ticked.stageSweep fmt [4] ObjectType.receipt.code (fmt.receiptBytes
              (ticked.receipt q request (store.clock.headD 0))) []

/-- **The sweeps of a call drop nothing that can still be named exactly when each of them is
covered.** -/
theorem sweeps_safe_iff (fmt : Format D C) (s : Service D C) (call : Call D C) :
    (∀ sweep ∈ s.sweeps fmt call, sweep.Safe fmt) ↔
      ∀ sweep ∈ s.sweeps fmt call, sweep.Covered fmt :=
  forall₂_congr fun sweep _ => sweep.safe_iff fmt

end Service

/-! ### A tree that FREEZE stages, finds again and sweeps

A workspace is frozen, changed, frozen again, and changed back.  The first tree is still staged
and nothing names it any more. -/

section Sample

def letter (n : Nat) : Content Symbol := .raw [UInt8.ofNat n]

def letterDigest (n : Nat) : Symbol := symbolicFormat.objectDigest ObjectType.bytes.code (letter n)

/-- The publisher stages one byte. -/
def putLetter (n : Nat) : Event Symbol (Content Symbol) :=
  .serve (.plain 1 (.putObject ObjectType.bytes.code 1 (some (letter n))) [])

/-- It binds one of them to the only name of its workspace. -/
def bindLetter (n : Nat) : Event Symbol (Content Symbol) :=
  .serve (.plain 1 (.write 1 [97] 0 (letterDigest n)) [])

/-- It freezes the workspace, naming one of them as the evidence. -/
def freezeWith (validation : Symbol) : Call Symbol (Content Symbol) :=
  .plain 1 (.freeze 1 (.atom 0) validation) []

/-- Two versions are frozen, the first bound again, and staging filled up. -/
def frozenTwice : List (Event Symbol (Content Symbol)) :=
  [.boot .smooth, putLetter 0, .serve (.plain 1 (.fork 0) []), bindLetter 0,
    .serve (freezeWith (.atom 0)), putLetter 1, bindLetter 1, .serve (freezeWith (.atom 0)),
    bindLetter 0] ++ (List.range 18).map fun i => putLetter (i + 2)

/-- The digests an earlier staging answered and a sweep drops, over the sweeps a call makes after
a run. -/
def droppedAfter (events : List (Event Symbol (Content Symbol)))
    (call : Call Symbol (Content Symbol)) : Option (List Symbol) :=
  (System.exec (Host.step symbolicFormat) events .blank).bind fun host =>
    match host.phase with
    | .down _ => none
    | .up service =>
      some ((service.sweeps symbolicFormat call).flatMap fun sweep =>
        sweep.staged.filter fun d =>
          (sweep.store.find d).isSome && ((sweep.after symbolicFormat).find d).isNone)

/-- The tree a freeze has just answered for is dropped by the sweep that makes room for its
manifest. -/
theorem sweep_drops_answered :
    ¬ ∀ host service, (machine symbolicFormat).Reachable host → host.phase = .up service →
      ∀ call, ∀ sweep ∈ service.sweeps symbolicFormat call, sweep.Safe symbolicFormat := by
  intro hall
  have hafter : (droppedAfter frozenTwice (freezeWith (letterDigest 19))).map List.length
      = some 1 := by decide +kernel
  obtain ⟨dropped, hdropped, hlength⟩ := Option.map_eq_some_iff.mp hafter
  obtain ⟨host, hhost, hservice⟩ := Option.bind_eq_some_iff.mp hdropped
  split at hservice
  · cases hservice
  · rename_i service hup
    obtain ⟨d, hd⟩ : ∃ d, d ∈ dropped :=
      exists_mem_of_length_pos (by rw [hlength]; exact Nat.one_pos)
    rw [← Option.some.inj hservice, mem_flatMap] at hd
    obtain ⟨sweep, hsweep, hd⟩ := hd
    obtain ⟨hstaged, hlost⟩ := List.mem_filter.mp hd
    rw [Bool.and_eq_true] at hlost
    obtain ⟨entry, hentry⟩ := Option.isSome_iff_exists.mp hlost.1
    have hmem : entry ∈ sweep.store.objects := mem_of_find?_eq_some hentry
    have hdigest : entry.digest = d := by simpa using find?_some hentry
    have hkept : entry ∈ (sweep.after symbolicFormat).objects := by
      cases hdurable : entry.durable with
      | true => exact Store.mem_reclaimStaged.mpr ⟨hmem, .inl hdurable⟩
      | false =>
        refine hall host service (System.reachable_of_exec (.init rfl) hhost) hup
          (freezeWith (letterDigest 19)) sweep hsweep entry hmem hdurable (.inr ?_)
        rwa [hdigest]
    have hfound := Store.find_of_mem hkept
    rw [hdigest, Option.isSome_iff_ne_none] at hfound
    exact hfound (Option.isNone_iff_eq_none.mp hlost.2)

end Sample

end Thalyx.K4
