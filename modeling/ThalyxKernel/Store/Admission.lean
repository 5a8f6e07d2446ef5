/-
What an admission decides: `Store::admit` and `Store::publish` of `user/k4store`.

`admit` walks the candidate's closure and counts the blocks that are left; `publish` stages the
receipt, writes PREPARE, and walks the closure again.  Two things come between the walks.  The
receipt may find no room, and the sweep it makes may drop what the candidate names; and PREPARE
takes the next block of the log, where an object of the candidate may lie, if a compaction that
failed left the log's end in the other arena.  Nothing else does: there are blocks enough, and
what is staged can be written.
-/
import ThalyxKernel.Store.Serving
import ThalyxKernel.Store.Upkeep

namespace Thalyx.K4

open Fallible List Store Option

variable {D C : Type}

/-! ### A medium that answers -/

/-- No operation of this disk fails. -/
structure Disk.Smooth (d : Disk D C) : Prop where
  reads : ∀ m b, d.fails m b = false
  outcomes : ∀ outcome ∈ d.outcomes, outcome = .ok
  up : d.down = false

namespace Disk.Smooth

variable {d : Disk D C} (h : d.Smooth)

include h

theorem next : ∃ d', d.next = (.ok, d') ∧ d'.Smooth ∧ d'.device = d.device := by
  unfold Disk.next
  rw [if_neg (by rw [h.up]; exact Bool.false_ne_true)]
  cases houtcomes : d.outcomes with
  | nil => exact ⟨d, rfl, h, rfl⟩
  | cons outcome rest =>
    have hok : outcome = .ok := h.outcomes outcome (houtcomes ▸ mem_cons_self)
    subst hok
    refine ⟨_, rfl, ⟨h.reads, fun o ho => ?_, h.up⟩, rfl⟩
    exact h.outcomes o (houtcomes ▸ mem_cons_of_mem _ ho)

theorem write (block : Nat) (x : Block D C) : ∃ d', d.write block x = (true, d') ∧ d'.Smooth ∧
    d'.device = d.device.write .other block x := by
  obtain ⟨d', hnext, hsmooth, hdevice⟩ := h.next
  unfold Disk.write
  rw [hnext]
  refine ⟨_, rfl, ⟨hsmooth.reads, hsmooth.outcomes, hsmooth.up⟩, ?_⟩
  rw [hdevice]

theorem flush : ∃ d', d.flush = (true, d') ∧ d'.Smooth ∧ d'.device = d.device.flush := by
  obtain ⟨d', hnext, hsmooth, hdevice⟩ := h.next
  unfold Disk.flush
  rw [hnext]
  refine ⟨_, rfl, ⟨hsmooth.reads, hsmooth.outcomes, hsmooth.up⟩, ?_⟩
  rw [hdevice]

theorem read (m : Moment) (block : Nat) : d.read m block = some (d.device.read block) := by
  unfold Disk.read
  rw [h.up, h.reads]
  rfl

end Disk.Smooth

variable [DecidableEq D] {fmt : Format D C} {s t : Store D C} {m m' : Moment} {root d : D}

/-! ### Two stores that say the same of what a root reaches -/

theorem Store.Walkable.congr (h : s.Walkable fmt m root)
    (hsame : ∀ d, s.Reaches fmt m root d → ∀ entry, s.find d = some entry →
      t.find d = some entry ∧ t.named fmt m' entry = s.named fmt m entry) :
    t.Walkable fmt m' root ∧ ∀ d, t.Reaches fmt m' root d ↔ s.Reaches fmt m root d := by
  have hnames : ∀ d, s.Reaches fmt m root d → ∀ d', t.Names fmt m' d d' ↔ s.Names fmt m d d' := by
    intro d hd d'
    obtain ⟨entry, hfind, -⟩ := h.1 d hd
    obtain ⟨hfind', hnamed⟩ := hsame d hd entry hfind
    unfold Store.Names
    simp only [hfind, hfind', some.injEq, exists_eq_left', hnamed]
  have hreach : ∀ d, t.Reaches fmt m' root d ↔ s.Reaches fmt m root d := by
    intro d
    constructor
    · intro hd
      unfold Store.Reaches at hd
      induction hd with
      | refl => exact .refl
      | tail _ hstep ih => exact ih.tail ((hnames _ ih _).mp hstep)
    · intro hd
      unfold Store.Reaches at hd
      induction hd with
      | refl => exact .refl
      | tail hprev hstep ih => exact ih.tail ((hnames _ hprev _).mpr hstep)
  have hcount : ∀ nodes : List D, (∀ d ∈ nodes, s.Reaches fmt m root d) →
      t.namesOn fmt m' nodes = s.namesOn fmt m nodes := by
    intro nodes hnodes
    induction nodes with
    | nil => rfl
    | cons d rest ih =>
      have hd := hnodes d mem_cons_self
      obtain ⟨entry, hfind, -⟩ := h.1 d hd
      obtain ⟨hfind', hnamed⟩ := hsame d hd entry hfind
      have hdegree : t.names fmt m' d = s.names fmt m d := by
        unfold Store.names
        rw [hfind, hfind']
        simp only [hnamed]
      rw [Store.namesOn, Store.namesOn, hdegree,
        ih fun d' hd' => hnodes d' (mem_cons_of_mem d hd')]
  refine ⟨⟨fun d hd => ?_, fun nodes hnodup hnodes => ?_⟩, hreach⟩
  · rw [hreach] at hd
    obtain ⟨entry, hfind, digests, hnamed⟩ := h.1 d hd
    obtain ⟨hfind', hsamenames⟩ := hsame d hd entry hfind
    exact ⟨entry, hfind', digests, hsamenames.trans hnamed⟩
  · have hnodes' : ∀ d ∈ nodes, s.Reaches fmt m root d := fun d hd => (hreach d).mp (hnodes d hd)
    rw [hcount nodes hnodes']
    exact h.2 nodes hnodup hnodes'

theorem Store.Walkable.below (h : t.Walkable fmt m' root)
    (hsame : ∀ d entry entry', s.find d = some entry → t.find d = some entry' → entry' = entry ∧
      ∀ digests, t.named fmt m' entry = .ok digests → s.named fmt m entry = .ok digests)
    (hd : s.Reaches fmt m root d) : t.Reaches fmt m' root d := by
  unfold Store.Reaches at hd
  induction hd with
  | refl => exact .refl
  | tail _ hstep ih =>
    obtain ⟨entry, hfind, digests, hnamed, hin⟩ := hstep
    obtain ⟨entry', hfind', digests', hnamed'⟩ := h.1 _ ih
    obtain ⟨rfl, hdigests⟩ := hsame _ _ _ hfind hfind'
    have heq := hdigests digests' hnamed'
    rw [hnamed, Except.ok.injEq] at heq
    subst heq
    exact ih.tail ⟨entry', hfind', digests, hnamed', hin⟩

/-! ### What an admission says -/

variable {q : Publication D}

theorem admit_closure {request : D} (h : admitPublication fmt q s = .ok request t) :
    ∃ reachable, t.closure fmt [1] q.candidateRoot = .ok reachable ∧
      (t.missing reachable).length + 3 ≤ t.freeBlocks ∧
      ∃ principals, t = { s with principals } := by
  unfold admitPublication at h
  split at h
  · cases h
  dsimp only at h
  split at h
  · cases h
  split at h
  · cases h
  split at h
  · cases h
  · rename_i hcandidate
    obtain ⟨-, rfl⟩ := EStateM.Result.ok.inj h
    obtain ⟨reachable, hclosure, hversion⟩ := candidateRule_version hcandidate
    have hroom := (versionRule_ok hversion).2
    exact ⟨reachable, hclosure, by omega, _, rfl⟩

namespace Store

/-- The state a publication stages its receipt in. -/
def ticked (s : Store D C) : Store D C := { s with clock := s.clock.tail }

/-- The receipt of a publication, as `publish` stages it. -/
def receiptContent (fmt : Format D C) (s : Store D C) (q : Publication D) (request : D) : C :=
  fmt.receiptBytes (s.ticked.receipt q request (s.clock.headD 0))

/-- The sweep the staging of the receipt makes, if it makes one. -/
def receiptSweep (fmt : Format D C) (s : Store D C) (q : Publication D) (request : D) :
    List (Sweep D C) :=
  s.ticked.stageSweep fmt [4] ObjectType.receipt.code (s.receiptContent fmt q request) []

/-- There is nowhere to put the receipt: it is new, and the sweep leaves no room either. -/
def NoReceipt (fmt : Format D C) (s : Store D C) (q : Publication D) (request : D) : Prop :=
  ¬ fmt.size (s.receiptContent fmt q request) ≤ objectMax ∨
    s.find (fmt.objectDigest ObjectType.receipt.code (s.receiptContent fmt q request)) = none ∧
      s.crowded = true ∧ (s.ticked.reclaimStaged fmt [4]).crowded = true

/-- An object that names others lies in the next block of the log, and nowhere else. -/
def Overwritten (s : Store D C) (entry : ObjectEntry D C) : Prop :=
  entry.stage = none ∧ entry.block = s.nextBlock ∧
    (entry.objectType = ObjectType.manifest.code ∨ entry.objectType = ObjectType.tree.code)

/-- The receipt's sweep, if there is one, spares the entry. -/
def Stays (fmt : Format D C) (s : Store D C) (q : Publication D) (request : D)
    (entry : ObjectEntry D C) : Prop :=
  ∀ sweep ∈ s.receiptSweep fmt q request,
    entry.durable = true ∨ sweep.store.Spares fmt sweep.moment entry

/-- What the candidate reaches outlasts the receipt's sweep and PREPARE. -/
def Lasts (fmt : Format D C) (s : Store D C) (q : Publication D) (request : D) : Prop :=
  ∀ d, s.Reaches fmt [1] q.candidateRoot d → ∀ entry, s.find d = some entry →
    s.Stays fmt q request entry ∧ ¬ s.Overwritten entry

/-- Nothing is left to go wrong in an admitted publication once its PREPARE is written. -/
def Decided (fmt : Format D C) (s : Store D C) (q : Publication D) (request : D) : Prop :=
  s.NoReceipt fmt q request ∨ s.Lasts fmt q request

end Store

/-! ### The receipt -/

/-- What the staging of the receipt has done to the index: an entry is there if it is spared, and
any other is of a digest that had none. -/
structure Receipted (fmt : Format D C) (s : Store D C) (q : Publication D) (request : D)
    (receipt : D) (t : Store D C) : Prop where
  found : (t.find receipt).isSome
  old : ∀ entry ∈ s.objects, entry ∈ t.objects ↔ s.Stays fmt q request entry
  new : ∀ entry ∈ t.objects, entry ∈ s.objects ∨ s.find entry.digest = none

theorem Receipted.of_objects {request receipt : D} {t' : Store D C}
    (h : Receipted fmt s q request receipt t) (hobjects : t'.objects = t.objects) :
    Receipted fmt s q request receipt t' where
  found := by
    unfold Store.find
    rw [hobjects]
    exact h.found
  old := hobjects ▸ h.old
  new := hobjects ▸ h.new

theorem stage_receipt (s : Store D C) (q : Publication D) (request : D) :
    Ends (stage fmt [4] ObjectType.receipt.code (s.receiptContent fmt q request))
      (fun receipt t => ¬ s.NoReceipt fmt q request ∧ Receipted fmt s q request receipt t ∧
        ∃ objects n, t = { s.ticked with objects, stageUsed := n })
      (fun t => s.NoReceipt fmt q request ∧ t.nextSequence = s.nextSequence) s.ticked := by
  generalize hcontent : s.receiptContent fmt q request = content
  have hnoreceipt : s.NoReceipt fmt q request ↔ (¬ fmt.size content ≤ objectMax ∨
      s.find (fmt.objectDigest ObjectType.receipt.code content) = none ∧
        s.crowded = true ∧ (s.ticked.reclaimStaged fmt [4]).crowded = true) := by
    unfold Store.NoReceipt
    rw [hcontent]
  have hsweep : s.receiptSweep fmt q request
      = s.ticked.stageSweep fmt [4] ObjectType.receipt.code content [] := by
    unfold Store.receiptSweep
    rw [hcontent]
  rw [hnoreceipt]
  unfold Ends
  rw [stage_eq fmt [4] ObjectType.receipt.code content s.ticked []]
  by_cases hsize : fmt.size content ≤ objectMax
  swap
  · rw [if_pos hsize]
    exact ⟨.inl hsize, rfl⟩
  rw [if_neg (not_not_intro hsize)]
  have hticked : s.ticked.find (fmt.objectDigest ObjectType.receipt.code content)
      = s.find (fmt.objectDigest ObjectType.receipt.code content) := rfl
  rw [hticked]
  cases hfind : s.find (fmt.objectDigest ObjectType.receipt.code content) with
  | some held =>
    -- the receipt is there already, and no sweep is made for it
    have hstays : ∀ entry, s.Stays fmt q request entry := by
      intro entry sweep hin
      rw [hsweep] at hin
      unfold Store.stageSweep at hin
      rw [hticked, hfind] at hin
      simp at hin
    refine ⟨by simp [hsize], ⟨?_, fun entry he => ⟨fun _ => hstays entry, fun _ => he⟩,
      fun entry he => .inl he⟩, _, _, rfl⟩
    rw [hticked, hfind]
    rfl
  | none =>
    have hadd : ∀ room : Store D C,
        (∃ objects n, room = { s.ticked with objects, stageUsed := n }) →
        (∀ entry ∈ s.objects, entry ∈ room.objects ↔ s.Stays fmt q request entry) →
        (∀ entry ∈ room.objects, entry ∈ s.objects) →
        Receipted fmt s q request (fmt.objectDigest ObjectType.receipt.code content)
          (room.stageEntry (fmt.objectDigest ObjectType.receipt.code content)
            ObjectType.receipt.code (fmt.size content) content) ∧
          ∃ objects n, room.stageEntry (fmt.objectDigest ObjectType.receipt.code content)
            ObjectType.receipt.code (fmt.size content) content
              = { s.ticked with objects, stageUsed := n } := by
      rintro room ⟨objects, n, rfl⟩ hold hnew
      refine ⟨⟨?_, fun entry he => ?_, fun entry he => ?_⟩, _, _, rfl⟩
      · exact Store.find_isSome.mpr ⟨_, mem_append_right _ mem_cons_self, rfl⟩
      · rw [← hold entry he]
        constructor
        · intro hin
          rcases mem_append.mp hin with hkept | hlast
          · exact hkept
          · rw [mem_singleton.mp hlast] at he
            have hfound := Store.find_of_mem he
            rw [hfind] at hfound
            cases hfound
        · exact fun hkept => mem_append_left _ hkept
      · rcases mem_append.mp he with hkept | hlast
        · exact .inl (hnew entry hkept)
        · rw [mem_singleton.mp hlast]
          exact .inr hfind
    simp only [isSome_none, Bool.false_eq_true, if_false]
    cases hcrowded : s.crowded with
    | false =>
      have hnone : s.ticked.stageSweep fmt [4] ObjectType.receipt.code content [] = [] := by
        unfold Store.stageSweep
        exact if_neg fun h => Bool.false_ne_true (hcrowded.symm.trans h.2.2)
      have hstays : ∀ entry, s.Stays fmt q request entry := by
        intro entry sweep hin
        rw [hsweep, hnone] at hin
        cases hin
      rw [hnone]
      have hroom : s.ticked.crowded = false := hcrowded
      simp only [map_nil, headD_nil, hroom, Bool.false_eq_true, if_false]
      exact ⟨by simp [hsize], hadd s.ticked ⟨_, _, rfl⟩
        (fun entry he => ⟨fun _ => hstays entry, fun _ => he⟩) fun _ he => he⟩
    | true =>
      have hone : s.ticked.stageSweep fmt [4] ObjectType.receipt.code content []
          = [{ store := s.ticked, moment := [4], staged := [] }] := by
        unfold Store.stageSweep
        exact if_pos ⟨hsize, by rw [hticked, hfind]; rfl, hcrowded⟩
      rw [hone]
      cases hfull : (s.ticked.reclaimStaged fmt [4]).crowded with
      | true =>
        simp only [map_cons, map_nil, headD_cons, Sweep.after, hfull, if_true]
        exact ⟨.inr ⟨trivial, trivial, trivial⟩, rfl⟩
      | false =>
        simp only [map_cons, map_nil, headD_cons, Sweep.after, hfull,
          Bool.false_eq_true, if_false]
        refine ⟨by simp [hsize], hadd (s.ticked.reclaimStaged fmt [4]) ⟨_, _, rfl⟩
          (fun entry he => ?_) fun entry he => (mem_filter.mp he).1⟩
        rw [mem_reclaimStaged]
        unfold Store.Stays
        rw [hsweep, hone]
        simp only [mem_singleton, forall_eq]
        exact and_iff_right he

/-! ### Steps at a medium that answers -/

omit [DecidableEq D] in
theorem Upholds.ends {α : Type} {m : Engine D C α} {Q : α → Store D C → Prop}
    {X : Store D C → Prop} (h : Upholds fmt m) (hs : s.Sound fmt) (he : Ends m Q X s) :
    Ends m (fun a t => Q a t ∧ t.Sound fmt) X s := by
  have hsound := h s hs
  unfold Ends at he ⊢
  cases hrun : m s with
  | ok a t =>
    rw [hrun] at he hsound
    exact ⟨he, hsound⟩
  | error e t =>
    rw [hrun] at he
    exact he

omit [DecidableEq D] in
theorem append_smooth (payload : Payload D C) (hd : s.disk.Smooth)
    (hfree : s.nextBlock < s.arenaStart + s.arenaBlocks) : ∃ r : Record D C, r.payload = payload ∧
      append fmt payload s = .ok (some (fmt.recordDigest r)) (s.appended fmt payload) ∧
      (s.appended fmt payload).disk.Smooth ∧ (s.appended fmt payload).disk.device
        = s.disk.device.write .other s.nextBlock (.record r) := by
  obtain ⟨disk, hwrite, hsmooth, hdevice⟩ := hd.write s.nextBlock (.record (s.frame payload))
  have hdisk : (s.appended fmt payload).disk = disk := congrArg Prod.snd hwrite
  rw [hdisk]
  refine ⟨s.frame payload, rfl, ?_, hsmooth, hdevice⟩
  rcases append_run payload s with ⟨hfull, -⟩ | ⟨-, hrefused, -⟩ | ⟨-, -, hrun⟩
  · exact absurd hfull (Nat.not_le.mpr hfree)
  · rw [hwrite] at hrefused
    cases hrefused
  · exact hrun

omit [DecidableEq D] in
theorem flush_smooth (hd : s.disk.Smooth) : ∃ disk, (flush s : EStateM.Result StoreStatus _ _)
    = .ok true { s with disk } ∧ disk.Smooth ∧ disk.device = s.disk.device.flush := by
  obtain ⟨disk, hflush, hsmooth, hdevice⟩ := hd.flush
  refine ⟨disk, ?_, hsmooth, hdevice⟩
  unfold flush
  rw [hflush]

/-! ### The preparation -/

/-- What the preparation leaves: the receipt is staged, and PREPARE is in the next block. -/
structure AfterPrepare (fmt : Format D C) (s : Store D C) (q : Publication D) (request receipt : D)
    (t : Store D C) : Prop where
  receipted : Receipted fmt s q request receipt t
  smooth : t.disk.Smooth
  others : ∀ block, block ≠ s.nextBlock → t.disk.device.read block = s.disk.device.read block
  next : ∃ r : Record D C, ∃ record, t.disk.device.read s.nextBlock = .record r ∧
    r.payload = .prepare record
  nextBlock : t.nextBlock = s.nextBlock + 1
  nextSequence : t.nextSequence = s.nextSequence + 1
  arenaStart : t.arenaStart = s.arenaStart
  arenaBlocks : t.arenaBlocks = s.arenaBlocks
  room : t.room = s.room

theorem prepare_smooth (hd : s.disk.Smooth) (hfree : s.nextBlock < s.arenaStart + s.arenaBlocks)
    (q : Publication D) (request : D) (invocation : Nat) :
    Ends (prepare fmt q request invocation)
      (fun out t => ¬ s.NoReceipt fmt q request ∧ AfterPrepare fmt s q request out.1 t)
      (fun t => s.NoReceipt fmt q request ∧ t.nextSequence = s.nextSequence) s := by
  refine Ends.now (Ends.get (Ends.bind ?_))
  refine Ends.relabel (m := stage fmt [4] ObjectType.receipt.code (s.receiptContent fmt q request))
    ((stage_receipt s q request).mono (fun receipt u hu => ?_) fun u hu => hu)
    (fun a t h => by simp only [Store.receiptContent, Store.ticked] at h; simp only [h])
    fun e t h => ⟨.exhausted, by simp only [Store.receiptContent, Store.ticked] at h; simp only [h]⟩
  obtain ⟨hroom, hreceipted, objects, n, hu⟩ := hu
  refine Ends.now (Ends.get ?_)
  have hobjects : objects = u.objects := by rw [hu]
  have hw : ({ u with clock := u.clock.tail } : Store D C)
      = { s with objects, stageUsed := n, clock := u.clock.tail } := by rw [hu]; rfl
  generalize u.clock.headD 0 = admittedNs
  rw [hw]
  obtain ⟨r, hpayload, hrun, hsmooth, hdevice⟩ := @append_smooth D C fmt
    { s with objects, stageUsed := n, clock := u.clock.tail }
    (.prepare (q.prepare request admittedNs invocation)) hd hfree
  refine Ends.after hrun ?_
  obtain ⟨disk, hflush, hsmooth', hdevice'⟩ := flush_smooth hsmooth
  refine Ends.after hflush (Ends.ensure (fun _ => Ends.modify (Ends.pure ⟨hroom, ?_⟩))
    fun hne => (hne rfl).elim)
  have hread : ∀ block, disk.device.read block
      = (s.disk.device.write .other s.nextBlock (.record r)).read block := by
    intro block
    rw [hdevice', Device.read_flush, hdevice]
  refine ⟨hreceipted.of_objects hobjects, hsmooth', fun block hne => ?_,
    ⟨r, _, (hread _).trans Device.read_write_self, hpayload⟩, rfl, rfl, rfl, rfl, rfl⟩
  exact (hread block).trans (Device.read_write_of_ne hne)

/-! ### The objects -/

theorem Store.find_updateEntry {digest : D} {f : ObjectEntry D C → ObjectEntry D C}
    (hf : ∀ e : ObjectEntry D C, (f e).digest = e.digest) (s : Store D C) (n : Nat) (d : D) :
    ({ s with objects := updateEntry digest f s.objects, stageUsed := n } : Store D C).find d
      = (s.find d).map fun e => if e.digest = digest then f e else e := by
  unfold Store.find updateEntry
  rw [find?_map]
  congr 2
  funext e
  simp only [Function.comp]
  split
  · rw [hf]
  · rfl

/-- What writing the objects of a list makes of a store. -/
structure Emptied (fmt : Format D C) (s : Store D C) (ds : List D) (t : Store D C) : Prop where
  sound : t.Sound fmt
  smooth : t.disk.Smooth
  found : ∀ d, (t.find d).isSome = (s.find d).isSome
  /-- nothing that was durable is written again -/
  durable : ∀ d, (s.find d).any ObjectEntry.durable = true →
    (t.find d).any ObjectEntry.durable = true
  nextBlock : t.nextBlock ≤ s.nextBlock + (s.missing ds).length
  arenaStart : t.arenaStart = s.arenaStart
  arenaBlocks : t.arenaBlocks = s.arenaBlocks
  room : t.room = s.room

theorem Store.length_missing_append (s : Store D C) (ds : List D) (d : D) :
    (s.missing (ds ++ [d])).length
      = (s.missing ds).length + if (s.find d).any ObjectEntry.durable = true then 0 else 1 := by
  unfold Store.missing
  rw [filter_append, length_append, filter_cons]
  cases (s.find d).any ObjectEntry.durable <;> rfl

theorem Emptied.next {ds : List D} (h : Emptied fmt s ds t) (d : D)
    (hfree : s.nextBlock + (s.missing ds).length < s.arenaStart + s.arenaBlocks) (m : Moment) :
    Ends (writeIfMissing fmt m d) (fun _ u => Emptied fmt s (ds ++ [d]) u) (fun _ => False) t := by
  have hstill : Emptied fmt s (ds ++ [d]) t := { h with
    nextBlock := h.nextBlock.trans (by rw [length_missing_append]; omega) }
  refine ((Upholds.writeIfMissing m d).ends h.sound (Q := fun _ u => u.Sound fmt →
    Emptied fmt s (ds ++ [d]) u) ?_).mono (fun _ u hu => hu.1 hu.2) fun _ => id
  refine Ends.get ?_
  cases hfind : t.find d with
  | none => exact Ends.pure fun _ => hstill
  | some entry =>
    dsimp only
    obtain ⟨hmem, rfl⟩ := Store.find_some hfind
    split
    · exact Ends.pure fun _ => hstill
    rename_i hnot
    have hvolatile : entry.durable = false := Bool.not_eq_true _ ▸ hnot
    have hbudget : (s.missing (ds ++ [entry.digest])).length = (s.missing ds).length + 1 := by
      rw [length_missing_append, if_neg]
      intro hdurable
      have hkept := h.durable _ hdurable
      rw [hfind] at hkept
      exact hnot hkept
    obtain ⟨content, hstage⟩ := isSome_iff_exists.mp (h.sound.staged entry hmem hvolatile)
    obtain ⟨held, -, hlength, hheld⟩ := h.sound.indexed entry hmem
    obtain rfl := hheld content hstage
    have hload : t.load fmt m entry = some content := by
      unfold Store.load
      rw [hstage]
    have hroom : t.nextBlock < t.arenaStart + t.arenaBlocks := by
      rw [h.arenaStart, h.arenaBlocks]
      exact Nat.lt_of_le_of_lt h.nextBlock hfree
    obtain ⟨r, -, hrun, hsmooth, -⟩ := @append_smooth D C fmt t
      (.object entry.objectType entry.digest content) h.smooth hroom
    have hwrite : writeObject fmt m entry t = .ok true
        ((t.appended fmt (.object entry.objectType entry.digest content)).written entry
          t.nextBlock) := by
      unfold writeObject
      refine (bind_of_ok rfl).trans ?_
      rw [hload]
      dsimp only
      rw [if_neg (not_not_intro hlength), bind_of_ok hrun]
      rfl
    refine Ends.after hwrite (Ends.pure fun hsound => ?_)
    generalize hstaged : (t.appended fmt (.object entry.objectType entry.digest content)) = v
      at hrun hsmooth hsound ⊢
    have hfinds : ∀ d, (v.written entry t.nextBlock).find d = (t.find d).map fun e =>
        if e.digest = entry.digest then
          { e with durable := true, block := t.nextBlock, stage := none }
        else e := by
      intro d
      have hobjects : v.find d = t.find d := by rw [← hstaged]; rfl
      rw [← hobjects]
      exact find_updateEntry
        (f := fun e => { e with durable := true, block := t.nextBlock, stage := none })
        (fun _ => rfl) v _ d
    exact {
      sound := hsound
      smooth := hsmooth
      found := fun d => by rw [hfinds, isSome_map, h.found]
      durable := fun d hd => by
        have hkept := h.durable d hd
        rw [hfinds]
        cases hd : t.find d with
        | none =>
          rw [hd] at hkept
          cases hkept
        | some e =>
          rw [hd] at hkept
          rw [map_some, any_some]
          split
          · rfl
          · exact hkept
      nextBlock := by
        have hnext : (v.written entry t.nextBlock).nextBlock = t.nextBlock + 1 := by
          rw [← hstaged]
          rfl
        have hbefore := h.nextBlock
        omega
      arenaStart := by rw [← h.arenaStart, ← hstaged]; rfl
      arenaBlocks := by rw [← h.arenaBlocks, ← hstaged]; rfl
      room := by rw [← h.room, ← hstaged]; rfl }

theorem writeObjects_smooth (hs : s.Sound fmt) (hd : s.disk.Smooth) (root receipt : D)
    (hreceipt : (s.find receipt).isSome)
    (hfree : ∀ reachable, s.closure fmt [5] root = .ok reachable →
      s.nextBlock + (s.missing reachable).length + 2 ≤ s.arenaStart + s.arenaBlocks) :
    Ends (writeObjects fmt root receipt)
      (fun _ t => s.Walkable fmt [5] root ∧ t.disk.Smooth ∧
        t.nextBlock < t.arenaStart + t.arenaBlocks ∧ t.room = s.room)
      (fun t => ¬ s.Walkable fmt [5] root ∧ t.nextSequence = s.nextSequence) s := by
  refine Ends.get ?_
  cases hclosure : s.closure fmt [5] root with
  | error e =>
    refine Ends.throw ⟨fun hwalkable => ?_, rfl⟩
    obtain ⟨reachable, hreachable⟩ := Store.closure_ok.mpr hwalkable
    rw [hclosure] at hreachable
    cases hreachable
  | ok reachable =>
    have hwalkable : s.Walkable fmt [5] root := Store.closure_ok.mp ⟨reachable, hclosure⟩
    have hroom := hfree reachable hclosure
    have hprefix : ∀ front back : List D, reachable = front ++ back →
        (s.missing front).length ≤ (s.missing reachable).length := by
      rintro front back rfl
      unfold Store.missing
      rw [filter_append, length_append]
      omega
    have hstart : Emptied fmt s [] s :=
      ⟨hs, hd, fun _ => rfl, fun _ h => h, Nat.le_refl _, rfl, rfl, rfl⟩
    have hloop : Ends (reachable.forM (writeIfMissing fmt [6]))
        (fun _ t => Emptied fmt s reachable t) (fun _ => False) s := by
      refine Ends.forM reachable hstart fun done d rest t hsplit ht => ?_
      have hless := hprefix done (d :: rest) hsplit
      exact ht.next d (by omega) [6]
    refine Ends.bind (hloop.mono (fun _ t ht => ?_) fun _ hfalse => hfalse.elim)
    refine Ends.get ?_
    have hfound : (t.find receipt).isSome := by
      rw [ht.found]
      exact hreceipt
    obtain ⟨entry, hentry⟩ := isSome_iff_exists.mp hfound
    rw [hentry]
    refine Ends.bind ((ht.next receipt (by omega) [6]).mono (fun _ u hu => ?_)
      fun _ hfalse => hfalse.elim)
    obtain ⟨disk, hflush, hsmooth, -⟩ := flush_smooth hu.smooth
    refine Ends.after hflush (Ends.ensure (fun _ => Ends.pure ?_) fun hne => (hne rfl).elim)
    have hlast := hu.nextBlock
    rw [length_missing_append] at hlast
    have hend : u.nextBlock < u.arenaStart + u.arenaBlocks := by
      rw [hu.arenaStart, hu.arenaBlocks]
      split at hlast <;> omega
    exact ⟨hwalkable, hsmooth, hend, hu.room⟩

/-! ### The commit -/

omit [DecidableEq D] in
theorem commit_smooth (hd : s.disk.Smooth) (hfree : s.nextBlock < s.arenaStart + s.arenaBlocks)
    (hroom : commitCells ≤ s.room) (q : Publication D) (request receipt : D)
    (prepareSequence : Nat) (prepareDigest : D) (ordinal : Nat) :
    Ends (commit fmt q request receipt prepareSequence prepareDigest ordinal) (fun _ _ => True)
      (fun _ => False) s := by
  refine Ends.get (Ends.ensure (fun _ => Ends.now (Ends.get ?_)) fun hne => hne hroom)
  obtain ⟨r, -, hrun, hsmooth, -⟩ := @append_smooth D C fmt { s with clock := s.clock.tail }
    (.commit _) hd hfree
  refine Ends.after hrun ?_
  obtain ⟨disk, hflush, -, -⟩ := flush_smooth hsmooth
  exact Ends.after hflush (Ends.ensure (fun _ => Ends.modify (Ends.pure trivial))
    fun hne => (hne rfl).elim)

/-! ### The two walks -/

theorem Store.Sound.find_of_mem (hs : s.Sound fmt) {entry : ObjectEntry D C}
    (h : entry ∈ s.objects) : s.find entry.digest = some entry := by
  obtain ⟨found, hfound⟩ := isSome_iff_exists.mp (Store.find_of_mem h)
  obtain ⟨hmem, hdigest⟩ := Store.find_some hfound
  rw [hfound, inj_on_of_nodup_map hs.distinct hmem h hdigest]

namespace AfterPrepare

variable {q : Publication D} {request receipt : D} {entry : ObjectEntry D C}

theorem load (h : AfterPrepare fmt s q request receipt t) (hd : s.disk.Smooth)
    (hentry : entry.stage ≠ none ∨ entry.block ≠ s.nextBlock) :
    t.load fmt m' entry = s.load fmt m entry := by
  unfold Store.load
  cases hstage : entry.stage with
  | some content => rfl
  | none =>
    have hblock : entry.block ≠ s.nextBlock := hentry.resolve_left fun hne => hne hstage
    rw [hd.read, h.smooth.read, h.others _ hblock]

theorem load_overwritten (h : AfterPrepare fmt s q request receipt t)
    (hentry : s.Overwritten entry) : t.load fmt m' entry = none := by
  obtain ⟨hstage, hblock, -⟩ := hentry
  obtain ⟨r, record, hread, hpayload⟩ := h.next
  unfold Store.load
  rw [hstage, h.smooth.read, hblock, hread]
  obtain ⟨sequence, epoch, arena, prev, payload⟩ := r
  obtain rfl : payload = .prepare record := hpayload
  dsimp only
  split <;> rfl

theorem named (h : AfterPrepare fmt s q request receipt t) (hd : s.disk.Smooth)
    (hentry : ¬ s.Overwritten entry) : t.named fmt m' entry = s.named fmt m entry := by
  unfold Store.named
  by_cases hkept : entry.stage ≠ none ∨ entry.block ≠ s.nextBlock
  · rw [h.load hd hkept]
  · rw [not_or, not_not, not_not] at hkept
    have hmanifest : entry.objectType ≠ ObjectType.manifest.code := fun heq =>
      hentry ⟨hkept.1, hkept.2, .inl heq⟩
    have htree : entry.objectType ≠ ObjectType.tree.code := fun heq =>
      hentry ⟨hkept.1, hkept.2, .inr heq⟩
    rw [if_neg hmanifest, if_neg htree, if_neg hmanifest, if_neg htree]

theorem named_overwritten (h : AfterPrepare fmt s q request receipt t)
    (hentry : s.Overwritten entry) : t.named fmt m' entry = .error .unread := by
  unfold Store.named
  rw [h.load_overwritten hentry]
  split
  · rfl
  split
  · rfl
  · rename_i hmanifest htree
    exact absurd hentry.2.2 (not_or.mpr ⟨hmanifest, htree⟩)

theorem find (h : AfterPrepare fmt s q request receipt t) (ht : t.Sound fmt)
    (hfind : s.find d = some entry) (hstays : s.Stays fmt q request entry) :
    t.find d = some entry := by
  obtain ⟨hmem, rfl⟩ := Store.find_some hfind
  exact ht.find_of_mem ((h.receipted.old entry hmem).mpr hstays)

theorem stays (h : AfterPrepare fmt s q request receipt t) (hs : s.Sound fmt)
    {entry' : ObjectEntry D C} (hfind : s.find d = some entry) (hfind' : t.find d = some entry') :
    entry' = entry ∧ s.Stays fmt q request entry := by
  obtain ⟨hmem', hdigest⟩ := Store.find_some hfind'
  rcases h.receipted.new entry' hmem' with hold | hnone
  · have hsame := hs.find_of_mem hold
    rw [hdigest, hfind, some.injEq] at hsame
    subst hsame
    exact ⟨rfl, (h.receipted.old _ hold).mp hmem'⟩
  · rw [hdigest, hfind] at hnone
    cases hnone

theorem walkable_of_lasts (h : AfterPrepare fmt s q request receipt t) (hd : s.disk.Smooth)
    (ht : t.Sound fmt) (hwalkable : s.Walkable fmt [1] q.candidateRoot)
    (hlasts : s.Lasts fmt q request) : t.Walkable fmt [5] q.candidateRoot ∧
      (∀ d, t.Reaches fmt [5] q.candidateRoot d ↔ s.Reaches fmt [1] q.candidateRoot d) ∧
      ∀ d, s.Reaches fmt [1] q.candidateRoot d → t.find d = s.find d := by
  have hsame : ∀ d, s.Reaches fmt [1] q.candidateRoot d → ∀ entry, s.find d = some entry →
      t.find d = some entry ∧ t.named fmt [5] entry = s.named fmt [1] entry := by
    intro d hd' entry hfind
    obtain ⟨hstays, hnot⟩ := hlasts d hd' entry hfind
    exact ⟨h.find ht hfind hstays, h.named hd hnot⟩
  obtain ⟨hwalkable', hreaches⟩ := hwalkable.congr hsame
  refine ⟨hwalkable', hreaches, fun d hd' => ?_⟩
  obtain ⟨entry, hfind, -⟩ := hwalkable.1 d hd'
  rw [hfind]
  exact (hsame d hd' entry hfind).1

theorem lasts_of_walkable (h : AfterPrepare fmt s q request receipt t) (hd : s.disk.Smooth)
    (hs : s.Sound fmt) (hwalkable : t.Walkable fmt [5] q.candidateRoot) :
    s.Lasts fmt q request := by
  intro d hreaches entry hfind
  have hbelow : t.Reaches fmt [5] q.candidateRoot d := by
    refine hwalkable.below (fun d entry entry' hfind hfind' => ?_) hreaches
    obtain ⟨rfl, -⟩ := h.stays hs hfind hfind'
    refine ⟨rfl, fun digests hnamed => ?_⟩
    by_cases hover : s.Overwritten entry'
    · rw [h.named_overwritten hover] at hnamed
      cases hnamed
    · rwa [h.named hd hover] at hnamed
  obtain ⟨entry', hfind', digests, hnamed⟩ := hwalkable.1 d hbelow
  obtain ⟨rfl, hstays⟩ := h.stays hs hfind hfind'
  refine ⟨hstays, fun hover => ?_⟩
  rw [h.named_overwritten hover] at hnamed
  cases hnamed

end AfterPrepare

/-! ### The whole publication -/

/-- **An admitted publication, at a medium that answers**: it goes through, or stops before PREPARE,
if it is decided; if it is not, it stops with PREPARE written. -/
theorem publish_ends (hs : s.Sound fmt) (hd : s.disk.Smooth) (request : D)
    {reachable : List D} (hclosure : s.closure fmt [1] q.candidateRoot = .ok reachable)
    (hfree : (s.missing reachable).length + 3 ≤ s.freeBlocks) (hroom : commitCells ≤ s.room)
    (invocation : Nat) :
    Ends (publish fmt q request invocation) (fun _ _ => s.Decided fmt q request)
      (fun t => s.Decided fmt q request ∧ t.nextSequence = s.nextSequence ∨
        ¬ s.Decided fmt q request ∧ t.nextSequence = s.nextSequence + 1) s := by
  have hend : s.nextBlock + (s.missing reachable).length + 3 ≤ s.arenaStart + s.arenaBlocks := by
    unfold Store.freeBlocks at hfree
    omega
  have hwalkable : s.Walkable fmt [1] q.candidateRoot := Store.closure_ok.mp ⟨reachable, hclosure⟩
  have hprepare := (Upholds.prepare q request invocation).ends hs
    (prepare_smooth hd (by omega) q request invocation)
  refine Ends.bind (hprepare.mono (fun out t ht => ?_) fun t ht => .inl ⟨.inl ht.1, ht.2⟩)
  obtain ⟨receipt, prepareSequence, prepareDigest⟩ := out
  obtain ⟨⟨hreceipt, hafter⟩, hsound⟩ := ht
  have hbudget : ∀ reachable', t.closure fmt [5] q.candidateRoot = .ok reachable' →
      t.nextBlock + (t.missing reachable').length + 2 ≤ t.arenaStart + t.arenaBlocks := by
    intro reachable' hclosure'
    obtain ⟨-, hreaches, hfind⟩ := hafter.walkable_of_lasts hd hsound hwalkable
      (hafter.lasts_of_walkable hd hs (Store.closure_ok.mp ⟨reachable', hclosure'⟩))
    obtain ⟨hnodup, hmem⟩ := closure_lists hclosure'
    have hsubset : t.missing reachable' ⊆ s.missing reachable := by
      intro d hin
      obtain ⟨hd', hvolatile⟩ := mem_filter.mp hin
      have hbelow := (hreaches d).mp ((hmem d).mp hd')
      rw [hfind d hbelow] at hvolatile
      exact mem_filter.mpr ⟨((closure_lists hclosure).2 d).mpr hbelow, hvolatile⟩
    have hless := (hnodup.filter _).length_le_of_subset hsubset
    rw [hafter.nextBlock, hafter.arenaStart, hafter.arenaBlocks]
    change _ + (t.missing reachable').length + 2 ≤ _
    change (t.missing reachable').length ≤ _ at hless
    omega
  refine Ends.bind ((writeObjects_smooth hsound hafter.smooth q.candidateRoot receipt
    hafter.receipted.found hbudget).mono (fun ordinal u hu => ?_) fun u hu => .inr ⟨?_, ?_⟩)
  · obtain ⟨hwalks, hsmooth, hnext, hcells⟩ := hu
    refine (commit_smooth hsmooth hnext ?_ q request receipt prepareSequence prepareDigest
      ordinal).mono (fun _ _ _ => .inr (hafter.lasts_of_walkable hd hs hwalks))
      fun _ hfalse => hfalse.elim
    rw [hcells, hafter.room]
    exact hroom
  · rintro (hnone | hlasts)
    · exact hreceipt hnone
    · exact hu.1 (hafter.walkable_of_lasts hd hsound hwalkable hlasts).1
  · rw [hu.2, hafter.nextSequence]

theorem reachable_powered {host : Host D C} (h : (machine fmt).Reachable host) :
    ∀ service, host.phase = .up service → service.store.disk.down = false :=
  reachable_up fmt h (fun _ _ hpower => hpower) fun _ _ _ hpower => hpower

/-- **An admitted publication at which no operation of the medium fails and for which the control
log has room goes through or stops before its PREPARE is appended, if and only if it is
decided**: in every run, for every request. -/
theorem publish_decided_iff {host : Host D C} (h : (machine fmt).Reachable host)
    {service : Service D C} (hup : host.phase = .up service) {call : Call D C}
    (hreads : ∀ m block, call.fails m block = false)
    (houtcomes : ∀ outcome ∈ call.outcomes, outcome = .ok) (hcells : commitCells ≤ call.room)
    {q : Publication D} {request : D}
    (haccepted : admitPublication fmt q (service.posed fmt call).store = .ok request s)
    (invocation : Nat) :
    (∀ status t, publish fmt q request invocation s = .error status t →
      t.nextSequence = s.nextSequence) ↔ s.Decided fmt q request := by
  have hposed : (service.posed fmt call).store.Sound fmt :=
    Service.posed_sound (reachable_sound h service hup) call
  have hpower : (service.posed fmt call).store.disk.down = false :=
    reachable_powered h service hup
  have hsmooth : (service.posed fmt call).store.disk.Smooth := ⟨hreads, houtcomes, hpower⟩
  have hsound : s.Sound fmt := (Upholds.admitPublication q).ok hposed haccepted
  obtain ⟨reachable, hclosure, hfree, principals, hs⟩ := admit_closure haccepted
  have hdisk : s.disk.Smooth := by
    rw [hs]
    exact hsmooth
  have hroom : commitCells ≤ s.room := by
    rw [hs]
    exact hcells
  have hends := publish_ends hsound hdisk request hclosure hfree hroom invocation
  constructor
  · intro hnever
    cases hpublish : publish fmt q request invocation s with
    | ok generation t => exact hends.of_ok hpublish
    | error status t =>
      rcases hends.of_error hpublish with ⟨hdecided, -⟩ | ⟨-, hnext⟩
      · exact hdecided
      · have hsame := hnever status t hpublish
        omega
  · intro hdecided status t hpublish
    rcases hends.of_error hpublish with ⟨-, hsame⟩ | ⟨hnot, -⟩
    · exact hsame
    · exact absurd hdecided hnot

/-! ### A candidate the receipt's sweep drops

A version is frozen, another one after it, which is the one the service protects from then on, and
staging is filled up. -/

/-- The first version is still staged, and nothing names it any more. -/
def superseded : List (Event Symbol (Content Symbol)) :=
  opening ++ [putLetter 0, bindLetter 0,
    .serve (.plain 1 (.freeze 1 openPolicyDigest (.atom 0)) [])] ++
    (List.range 18).map fun i => putLetter (i + 1)

/-- The first publication there is, of the empty version. -/
def firstPublication : Publication Symbol where
  principal := 1
  sequence := 1
  expectedGeneration := 0
  candidateRoot := emptyRoot
  policyDigest := openPolicyDigest
  validationDigest := .atom 0
  outboxTarget := 0
  outboxPayload := .atom 0

/-- The log's next sequence where the publication is admitted, and whether it goes through or where
it stops. -/
def publishedAfter (events : List (Event Symbol (Content Symbol))) :
    Option (Nat × (Nat ⊕ Nat)) :=
  (serviceAfter events).bind fun service =>
    match admitPublication symbolicFormat firstPublication
        (service.posed symbolicFormat (.publishEmpty 1 1 0 [])).store with
    | .error _ _ => none
    | .ok request s =>
      some (s.nextSequence, match publish symbolicFormat firstPublication request 0 s with
        | .ok generation _ => .inl generation
        | .error _ t => .inr t.nextSequence)

theorem of_publishedAfter {events : List (Event Symbol (Content Symbol))} {n : Nat}
    {outcome : Nat ⊕ Nat} (h : publishedAfter events = some (n, outcome)) :
    ∃ host service request s, (machine symbolicFormat).Reachable host ∧ host.phase = .up service ∧
      admitPublication symbolicFormat firstPublication
        (service.posed symbolicFormat (.publishEmpty 1 1 0 [])).store = .ok request s ∧
      s.nextSequence = n ∧ (match publish symbolicFormat firstPublication request 0 s with
          | .ok generation _ => .inl generation
          | .error _ t => .inr t.nextSequence) = outcome := by
  obtain ⟨service, hservice, hrun⟩ := bind_eq_some_iff.mp h
  obtain ⟨host, hhost, hup⟩ := reachable_of_serviceAfter hservice
  split at hrun
  · cases hrun
  · rename_i request s haccepted
    obtain ⟨hnext, hout⟩ := Prod.mk.inj (some.inj hrun)
    exact ⟨host, service, request, s, hhost, hup, haccepted, hnext, hout⟩

/-- The publication is admitted, its PREPARE is appended, and it stops there. -/
theorem publish_stops_prepared :
    ¬ ∀ host service, (machine symbolicFormat).Reachable host → host.phase = .up service →
      ∀ request s, admitPublication symbolicFormat firstPublication
          (service.posed symbolicFormat (.publishEmpty 1 1 0 [])).store = .ok request s →
        ∀ status t, publish symbolicFormat firstPublication request 0 s = .error status t →
          t.nextSequence = s.nextSequence := by
  intro hall
  have hafter : publishedAfter superseded = some (2, .inr 3) := by decide +kernel
  obtain ⟨host, service, request, s, hhost, hup, haccepted, hnext, hout⟩ := of_publishedAfter hafter
  split at hout
  · cases hout
  · rename_i status t hpublish
    have hsame := hall host service hhost hup request s haccepted status t hpublish
    have hthree : t.nextSequence = 3 := Sum.inr.inj hout
    omega

/-- The same publication is decided where nothing was frozen after it. -/
theorem first_publication_decided :
    ∃ host service request s, (machine symbolicFormat).Reachable host ∧ host.phase = .up service ∧
      admitPublication symbolicFormat firstPublication
        (service.posed symbolicFormat (.publishEmpty 1 1 0 [])).store = .ok request s ∧
      s.Decided symbolicFormat firstPublication request := by
  have hafter : publishedAfter opening = some (2, .inl 1) := by decide +kernel
  obtain ⟨host, service, request, s, hhost, hup, haccepted, -, hout⟩ := of_publishedAfter hafter
  refine ⟨host, service, request, s, hhost, hup, haccepted, ?_⟩
  refine (publish_decided_iff hhost hup (fun _ _ => rfl)
    (fun _ h => absurd h not_mem_nil) (by decide) haccepted 0).mp fun status t hpublish => ?_
  rw [hpublish] at hout
  cases hout

end Thalyx.K4
