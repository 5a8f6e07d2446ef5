/-
The staging slots of the object store (`stage`, `adopt`, `write_object`, `unpin`,
`reclaim_staged` and `compact` of `user/k4store/src/state.rs`).

Of an `ObjectEntry` there is what says where its bytes are, and `none` is one that is not live.
Which objects can still be named is found by walking the trees the objects hold; a run here is
one with whatever those walks find and wherever the medium refuses.

A compaction makes what it copies durable and, unlike `write_object`, leaves it its slot.  The
sweep passes over durable entries, so such a slot is not given back.
-/
import ThalyxKernel.Lib.Run
import Mathlib.Algebra.Order.Ring.Nat
import Mathlib.Data.List.FinRange
import Mathlib.Logic.Function.Basic
import Mathlib.Tactic.Common

namespace Thalyx.Store.Staging

open Function

abbrev maxObjects : Nat := 40

abbrev maxStaged : Nat := 24

instance : NeZero maxObjects := ⟨by decide⟩
instance : NeZero maxStaged := ⟨by decide⟩

/-- A live `ObjectEntry`. -/
structure Entry (D : Type) where
  digest : D
  durable : Bool
  block : Nat
  stage : Option (Fin maxStaged)
  pinned : Bool

/-- `objects` and `stage_used`. -/
structure Index (D : Type) where
  objects : Fin maxObjects → Option (Entry D)
  stageUsed : Fin maxStaged → Bool

variable {D : Type}

namespace Index

def new : Index D := ⟨fun _ => none, fun _ => false⟩

/-- The slot that an entry has. -/
def held (s : Index D) (i : Fin maxObjects) : Option (Fin maxStaged) := (s.objects i).bind Entry.stage

def freeObjectSlot (s : Index D) : Option (Fin maxObjects) :=
  (List.finRange maxObjects).find? fun i => (s.objects i).isNone

def freeStageSlot (s : Index D) : Option (Fin maxStaged) :=
  (List.finRange maxStaged).find? fun slot => !s.stageUsed slot

/-- An entry is replaced, and the slot it has is given back. -/
def giveBack (s : Index D) (i : Fin maxObjects) (entry : Option (Entry D)) : Index D where
  objects := update s.objects i entry
  stageUsed := match s.held i with
    | some slot => update s.stageUsed slot false
    | none => s.stageUsed

/-- `write_object`, where the medium takes the record. -/
def writeObject (s : Index D) (i : Fin maxObjects) (block : Nat) : Index D :=
  match s.objects i with
  | some entry => s.giveBack i (some { entry with durable := true, block, stage := none })
  | none => s

/-- What is said of an entry is changed, if it is live. -/
def modify (s : Index D) (i : Fin maxObjects) (f : Entry D → Entry D) : Index D :=
  { s with objects := update s.objects i ((s.objects i).map f) }

def unpin (s : Index D) : Index D :=
  (List.finRange maxObjects).foldl (fun s i => s.modify i ({ · with pinned := false })) s

/-- One entry, in the loop of `reclaim_staged`. -/
def sweep (keep : Fin maxObjects → Bool) (s : Index D) (i : Fin maxObjects) : Index D :=
  match s.objects i with
  | some entry => if entry.durable || entry.pinned || keep i then s else s.giveBack i none
  | none => s

def reclaimStaged (s : Index D) (keep : Fin maxObjects → Bool) : Index D :=
  (List.finRange maxObjects).foldl (sweep keep) s

/-- The end of a compaction, for one entry: what was only in the old arena is gone. -/
def forget (old : Nat → Bool) (s : Index D) (i : Fin maxObjects) : Index D :=
  match s.objects i with
  | some entry =>
    if entry.durable && old entry.block then { s with objects := update s.objects i none } else s
  | none => s

section

variable [DecidableEq D]

def find (s : Index D) (digest : D) : Option (Fin maxObjects) :=
  (List.finRange maxObjects).find? fun i => (s.objects i).any fun entry => entry.digest = digest

def stage (s : Index D) (keep : Fin maxObjects → Bool) (digest : D) : Index D :=
  if (s.find digest).isSome then s
  else
    let s := if s.freeStageSlot.isNone || s.freeObjectSlot.isNone then s.reclaimStaged keep else s
    match s.freeStageSlot, s.freeObjectSlot with
    | some slot, some i =>
      { objects := update s.objects i (some ⟨digest, false, 0, some slot, true⟩)
        stageUsed := update s.stageUsed slot true }
    | _, _ => s

/-- An entry that is found is made durable and given its block, as `adopt` and `compact` do. -/
def makeDurable (s : Index D) (digest : D) (block : Nat) : Index D :=
  match s.find digest with
  | some i => s.modify i ({ · with durable := true, block })
  | none => s

/-- `adopt`, for a record that recovery reads. -/
def adopt (s : Index D) (record : D × Nat) : Index D :=
  if (s.find record.1).isSome then s.makeDurable record.1 record.2
  else
    match s.freeObjectSlot with
    | some i =>
      { s with objects := update s.objects i (some ⟨record.1, true, record.2, none, false⟩) }
    | none => s

/-- `compact`: the objects that are copied, with their new blocks, and the blocks of the old arena
if the switch is made. -/
def compact (s : Index D) (copied : List (D × Nat)) (old : Option (Nat → Bool)) : Index D :=
  let s := copied.foldl (fun s record => s.makeDurable record.1 record.2) s
  match old with
  | some old => (List.finRange maxObjects).foldl (forget old) s
  | none => s

end

end Index

inductive Step (D : Type) where
  | stage (keep : Fin maxObjects → Bool) (digest : D)
  | writeObject (i : Fin maxObjects) (block : Nat)
  | unpin
  | reclaimStaged (keep : Fin maxObjects → Bool)
  | compact (copied : List (D × Nat)) (old : Option (Nat → Bool))

def Index.step [DecidableEq D] (s : Index D) : Step D → Index D
  | .stage keep digest => s.stage keep digest
  | .writeObject i block => s.writeObject i block
  | .unpin => s.unpin
  | .reclaimStaged keep => s.reclaimStaged keep
  | .compact copied old => s.compact copied old

/-- The service, from what recovery reads on. -/
def service (D : Type) [DecidableEq D] : System (Index D) (Step D) where
  init s := ∃ records : List (D × Nat), s = records.foldl Index.adopt Index.new
  step s a s' := s' = s.step a

/-- No object that is copied still has a slot. -/
def Index.Unstaged (s : Index D) : Step D → Prop
  | .compact copied _ =>
    ∀ i entry, s.objects i = some entry → entry.digest ∈ copied.map Prod.fst → entry.stage = none
  | _ => True

/-- A slot is in use exactly when an entry has it, which is then the only one; what is durable has
none, and no digest is there twice. -/
structure Conserved (s : Index D) : Prop where
  used : ∀ slot, s.stageUsed slot = true ↔ ∃ i, s.held i = some slot
  once : ∀ i j slot, s.held i = some slot → s.held j = some slot → i = j
  durable : ∀ i entry, s.objects i = some entry → entry.durable = true → entry.stage = none
  digests : ∀ i j entry other, s.objects i = some entry → s.objects j = some other →
    entry.digest = other.digest → i = j

/-! ### What each operation keeps -/

variable {s : Index D} {i : Fin maxObjects} {entry : Entry D} {digest : D}

/-- **An entry is replaced.**  Its slot, if it has one, is given back or still its own. -/
theorem Conserved.replace (h : Conserved s) {x : Option (Entry D)} {used : Fin maxStaged → Bool}
    (hused : ∀ slot, used slot = true ↔
      x.bind Entry.stage = some slot ∨ s.stageUsed slot = true ∧ s.held i ≠ some slot)
    (hfree : ∀ slot, x.bind Entry.stage = some slot →
      s.stageUsed slot = false ∨ s.held i = some slot)
    (hdurable : ∀ entry, x = some entry → entry.durable = true → entry.stage = none)
    (hdigest : ∀ entry, x = some entry → ∀ j other, s.objects j = some other →
      entry.digest = other.digest → i = j) :
    Conserved ⟨update s.objects i x, used⟩ := by
  have hheld : ∀ j, Index.held ⟨update s.objects i x, used⟩ j =
      if j = i then x.bind Entry.stage else s.held j := by
    intro j
    simp only [Index.held, update_apply]
    split <;> rfl
  constructor
  · intro slot
    rw [hused, h.used]
    constructor
    · rintro (hx | ⟨⟨j, hj⟩, hi⟩)
      · exact ⟨i, by rw [hheld, if_pos rfl, hx]⟩
      · refine ⟨j, ?_⟩
        rw [hheld, if_neg, hj]
        rintro rfl
        exact hi hj
    · rintro ⟨j, hj⟩
      rw [hheld] at hj
      split at hj
      · exact .inl hj
      · rename_i hne
        exact .inr ⟨⟨j, hj⟩, fun hi => hne (h.once _ _ _ hj hi)⟩
  · intro j k slot hj hk
    -- the slot that is put in the place is no other entry's
    have hother : ∀ k, x.bind Entry.stage = some slot → s.held k = some slot → i = k := by
      intro k hx hk
      rcases hfree slot hx with hunused | hi
      · rw [(h.used slot).mpr ⟨k, hk⟩] at hunused
        cases hunused
      · exact h.once _ _ _ hi hk
    rw [hheld] at hj hk
    split at hj <;> split at hk
    · simp_all
    · rename_i hji _
      exact hji.trans (hother k hj hk)
    · rename_i _ hki
      exact ((hother j hk hj).symm).trans hki.symm
    · exact h.once _ _ _ hj hk
  · intro j entry hj
    simp only [update_apply] at hj
    split at hj
    · exact hdurable _ hj
    · exact h.durable _ _ hj
  · intro j k entry other hj hk heq
    simp only [update_apply] at hj hk
    split at hj <;> split at hk
    · simp_all
    · rename_i hji _
      exact hji.trans (hdigest _ hj _ _ hk heq)
    · rename_i _ hki
      exact ((hdigest _ hk _ _ hj heq.symm).symm).trans hki.symm
    · exact h.digests _ _ _ _ hj hk heq

theorem held_eq (hi : s.objects i = some entry) : s.held i = entry.stage := by
  rw [Index.held, hi, Option.bind_some]

theorem Conserved.giveBack (h : Conserved s) {x : Option (Entry D)}
    (hstage : x.bind Entry.stage = none)
    (hdigest : ∀ entry, x = some entry → ∃ other, s.objects i = some other ∧
      other.digest = entry.digest) : Conserved (s.giveBack i x) := by
  refine h.replace ?_ ?_ ?_ ?_
  · intro slot
    rw [hstage]
    cases hi : s.held i with
    | none => simp
    | some mine =>
      by_cases heq : slot = mine
      · simp [heq]
      · simp [heq, Ne.symm heq]
  · intro slot hslot
    rw [hstage] at hslot
    cases hslot
  · rintro entry rfl -
    exact hstage
  · intro entry hx j other hj heq
    obtain ⟨mine, hmine, hsame⟩ := hdigest entry hx
    exact h.digests _ _ _ _ hmine hj (hsame.trans heq)

theorem Conserved.writeObject (h : Conserved s) (i : Fin maxObjects) (block : Nat) :
    Conserved (s.writeObject i block) := by
  unfold Index.writeObject
  split
  · rename_i entry hi
    refine h.giveBack rfl ?_
    rintro _ ⟨⟩
    exact ⟨entry, hi, rfl⟩
  · exact h

theorem Conserved.modify (h : Conserved s) {f : Entry D → Entry D}
    (hdigest : ∀ entry, (f entry).digest = entry.digest)
    (hstage : ∀ entry, (f entry).stage = entry.stage)
    (hdurable : ∀ entry, s.objects i = some entry → (f entry).durable = true → entry.stage = none) :
    Conserved (s.modify i f) := by
  have hheld : ((s.objects i).map f).bind Entry.stage = s.held i := by
    rw [Index.held]
    cases s.objects i with
    | none => rfl
    | some entry => exact hstage entry
  refine h.replace ?_ ?_ ?_ ?_
  · intro slot
    rw [hheld]
    constructor
    · intro hused
      by_cases hslot : s.held i = some slot
      · exact .inl hslot
      · exact .inr ⟨hused, hslot⟩
    · rintro (hslot | ⟨hused, -⟩)
      · exact (h.used slot).mpr ⟨i, hslot⟩
      · exact hused
  · intro slot hslot
    exact .inr (hheld ▸ hslot)
  · intro entry hentry hentry'
    obtain ⟨mine, hmine, rfl⟩ := Option.map_eq_some_iff.mp hentry
    rw [hstage]
    exact hdurable mine hmine hentry'
  · intro entry hentry j other hj heq
    obtain ⟨mine, hmine, rfl⟩ := Option.map_eq_some_iff.mp hentry
    exact h.digests i j mine other hmine hj ((hdigest mine).symm.trans heq)

theorem Conserved.unpin (h : Conserved s) : Conserved s.unpin :=
  List.foldlRecOn _ _ h fun _ h i _ =>
    h.modify (fun _ => rfl) (fun _ => rfl) fun entry hi hdurable => h.durable i entry hi hdurable

theorem Conserved.sweep (h : Conserved s) (keep : Fin maxObjects → Bool) (i : Fin maxObjects) :
    Conserved (s.sweep keep i) := by
  unfold Index.sweep
  split
  · split
    · exact h
    · exact h.giveBack rfl nofun
  · exact h

theorem Conserved.reclaimStaged (h : Conserved s) (keep : Fin maxObjects → Bool) :
    Conserved (s.reclaimStaged keep) :=
  List.foldlRecOn _ _ h fun _ h i _ => h.sweep keep i

theorem Conserved.forget (h : Conserved s) (old : Nat → Bool) (i : Fin maxObjects) :
    Conserved (s.forget old i) := by
  unfold Index.forget
  split
  · rename_i entry hi
    split
    · rename_i hold
      rw [Bool.and_eq_true] at hold
      have hnone : s.held i = none := (held_eq hi).trans (h.durable i entry hi hold.1)
      refine h.replace ?_ ?_ nofun nofun
      · simp [hnone]
      · intro slot hslot
        cases hslot
    · exact h
  · exact h

/-! ### Where digests are compared -/

/-- No entry has a digest. -/
def Lacks (digest : D) (s : Index D) : Prop :=
  ∀ i entry, s.objects i = some entry → entry.digest ≠ digest

theorem Lacks.sweep (h : Lacks digest s) (keep : Fin maxObjects → Bool) (i : Fin maxObjects) :
    Lacks digest (s.sweep keep i) := by
  unfold Index.sweep
  split
  · split
    · exact h
    · intro j other hj
      simp only [Index.giveBack, update_apply] at hj
      split at hj
      · cases hj
      · exact h j other hj
  · exact h

variable [DecidableEq D]

theorem lacks_of_find (h : s.find digest = none) : Lacks digest s := by
  intro i entry hi
  have := List.find?_eq_none.mp h i (List.mem_finRange i)
  simpa [hi] using this

theorem entry_of_find (h : s.find digest = some i) :
    ∃ entry, s.objects i = some entry ∧ entry.digest = digest := by
  have := List.find?_some h
  simpa [Option.any_eq_true] using this

theorem Conserved.stage (h : Conserved s) (keep : Fin maxObjects → Bool) (digest : D) :
    Conserved (s.stage keep digest) := by
  unfold Index.stage
  split
  · exact h
  rename_i hfind
  have hlacks : Lacks digest s := lacks_of_find (by simpa using hfind)
  dsimp only
  generalize ht : (if s.freeStageSlot.isNone || s.freeObjectSlot.isNone then s.reclaimStaged keep
    else s) = t
  obtain ⟨h, hlacks⟩ : Conserved t ∧ Lacks digest t := by
    rw [← ht]
    split
    · exact ⟨h.reclaimStaged keep, List.foldlRecOn _ _ hlacks fun _ h i _ => h.sweep keep i⟩
    · exact ⟨h, hlacks⟩
  split
  · rename_i slot i hslot hi
    have hunused : t.stageUsed slot = false := by simpa using List.find?_some hslot
    have hempty : t.objects i = none := by simpa using List.find?_some hi
    refine h.replace ?_ ?_ ?_ ?_
    · intro other
      have hheld : t.held i = none := by rw [Index.held, hempty, Option.bind_none]
      by_cases heq : other = slot
      · simp [heq]
      · simp [heq, hheld, Ne.symm heq]
    · rintro _ ⟨⟩
      exact .inl hunused
    · rintro _ ⟨⟩ ⟨⟩
    · rintro _ ⟨⟩ j other hj heq
      exact absurd heq.symm (hlacks j other hj)
  · exact h

theorem Conserved.makeDurable (h : Conserved s) {digest : D} (block : Nat)
    (hnone : ∀ i entry, s.objects i = some entry → entry.digest = digest → entry.stage = none) :
    Conserved (s.makeDurable digest block) := by
  unfold Index.makeDurable
  split
  · rename_i i hi
    obtain ⟨found, hfound, hdigest⟩ := entry_of_find hi
    refine h.modify (fun _ => rfl) (fun _ => rfl) fun entry hentry _ => ?_
    obtain rfl := Option.some.inj (hfound.symm.trans hentry)
    exact hnone i found hfound hdigest
  · exact h

theorem makeDurable_objects (digest : D) (block : Nat) {i : Fin maxObjects} {entry : Entry D}
    (hi : (s.makeDurable digest block).objects i = some entry) :
    ∃ before, s.objects i = some before ∧ before.digest = entry.digest ∧
      before.stage = entry.stage := by
  unfold Index.makeDurable at hi
  split at hi
  · simp only [Index.modify, update_apply] at hi
    split at hi
    · rename_i hij
      obtain ⟨before, hbefore, rfl⟩ := Option.map_eq_some_iff.mp hi
      exact ⟨before, hij ▸ hbefore, rfl, rfl⟩
    · exact ⟨entry, hi, rfl, rfl⟩
  · exact ⟨entry, hi, rfl, rfl⟩

theorem Conserved.copied (h : Conserved s) {copied : List (D × Nat)}
    (hnone : ∀ i entry, s.objects i = some entry → entry.digest ∈ copied.map Prod.fst →
      entry.stage = none) :
    Conserved (copied.foldl (fun s record => s.makeDurable record.1 record.2) s) := by
  induction copied generalizing s with
  | nil => exact h
  | cons record copied ih =>
    refine ih (h.makeDurable record.2 fun i entry hi heq => hnone i entry hi (by simp [heq])) ?_
    intro i entry hi hmem
    obtain ⟨before, hbefore, hdigest, hstage⟩ := makeDurable_objects _ _ hi
    rw [← hstage]
    exact hnone i before hbefore (hdigest ▸ List.mem_cons_of_mem _ hmem)

theorem Conserved.compact (h : Conserved s) {copied : List (D × Nat)} (old : Option (Nat → Bool))
    (hnone : s.Unstaged (.compact copied old)) : Conserved (s.compact copied old) := by
  have hcopied := h.copied hnone
  unfold Index.compact
  cases old with
  | none => exact hcopied
  | some old => exact List.foldlRecOn _ _ hcopied fun _ h i _ => h.forget old i

theorem Conserved.step (h : Conserved s) {a : Step D} (hok : s.Unstaged a) :
    Conserved (s.step a) := by
  cases a with
  | stage keep digest => exact h.stage keep digest
  | writeObject i block => exact h.writeObject i block
  | unpin => exact h.unpin
  | reclaimStaged keep => exact h.reclaimStaged keep
  | compact copied old => exact h.compact old hok

theorem Conserved.adopt (h : Conserved s) (hnone : ∀ i, s.held i = none) (record : D × Nat) :
    Conserved (s.adopt record) ∧ ∀ i, (s.adopt record).held i = none := by
  have hstage : ∀ i entry, s.objects i = some entry → entry.stage = none := by
    intro i entry hi
    rw [← held_eq hi]
    exact hnone i
  unfold Index.adopt
  split
  · refine ⟨h.makeDurable record.2 fun i entry hi _ => hstage i entry hi, fun i => ?_⟩
    refine Option.eq_none_iff_forall_ne_some.mpr fun slot hslot => ?_
    obtain ⟨entry, hi, hentry⟩ := Option.bind_eq_some_iff.mp hslot
    obtain ⟨before, hbefore, -, hsame⟩ := makeDurable_objects _ _ hi
    rw [← hsame, hstage i before hbefore] at hentry
    cases hentry
  rename_i hfind
  have hlacks : Lacks record.1 s := lacks_of_find (by simpa using hfind)
  split
  · rename_i i _
    constructor
    · refine h.replace ?_ ?_ ?_ ?_
      · simp [hnone]
      · simp
      · rintro _ ⟨⟩ -
        rfl
      · rintro _ ⟨⟩ j other hj heq
        exact absurd heq.symm (hlacks j other hj)
    · intro j
      simp only [Index.held, update_apply]
      split
      · rfl
      · exact hnone j
  · exact ⟨h, hnone⟩

theorem Conserved.recovered (records : List (D × Nat)) :
    Conserved (records.foldl Index.adopt Index.new) := by
  have hnew : Conserved (Index.new : Index D) ∧ ∀ i, (Index.new : Index D).held i = none :=
    ⟨⟨by simp [Index.new, Index.held], nofun, nofun, nofun⟩, fun _ => rfl⟩
  exact (List.foldlRecOn (motive := fun s => Conserved s ∧ ∀ i, s.held i = none) _ _ hnew
    fun _ h record _ => h.1.adopt h.2 record).1

/-- **In every run in which no object is copied that still has a slot, the slots are conserved, and
all of them are free once nothing is staged.** -/
theorem staging_conserved (h : ((service D).within Index.Unstaged).Reachable s) :
    Conserved s ∧ ((∀ i, s.held i = none) →
      ((List.finRange maxStaged).filter fun slot => !s.stageUsed slot).length = maxStaged) := by
  have hconserved : Conserved s := by
    refine h.invariant ?_ ?_
    · rintro _ ⟨records, rfl⟩
      exact .recovered records
    · rintro s a _ h ⟨hok, rfl⟩
      exact h.step hok
  refine ⟨hconserved, fun hnone => ?_⟩
  have hunused : ∀ slot, s.stageUsed slot = false := by
    intro slot
    rw [← Bool.not_eq_true, hconserved.used]
    rintro ⟨i, hi⟩
    rw [hnone] at hi
    cases hi
  simp [hunused]

/-- One object is staged, and written. -/
theorem staging_conserved_written :
    Conserved ((Index.new.stage (fun _ => false) 7).writeObject 0 5) := by
  have hinit : ((service Nat).within Index.Unstaged).Reachable Index.new := .init ⟨[], rfl⟩
  have hstaged := hinit.step (a := Step.stage (fun _ => false) 7) ⟨trivial, rfl⟩
  exact (staging_conserved (hstaged.step (a := Step.writeObject 0 5) ⟨trivial, rfl⟩)).1

/-- An object is staged, and copied because its root is retained: it is durable, and the sweep
leaves it its slot.  Once it is only in an old arena its entry is gone, and the slot in use. -/
theorem staging_leaks : ∃ s t : Index Nat, (service Nat).Reachable s ∧ (service Nat).Reachable t ∧
    (s.objects 0).map (fun entry => (entry.durable, entry.stage)) = some (true, some 0) ∧
    (∀ i, t.held i = none) ∧ t.stageUsed 0 = true := by
  have hinit : (service Nat).Reachable Index.new := .init ⟨[], rfl⟩
  have hstaged := hinit.step (a := Step.stage (fun _ => false) 7) rfl
  have hcopied := hstaged.step (a := Step.compact [(7, 5)] (some fun block => block < 5)) rfl
  have hswept := (hcopied.step (a := Step.unpin) rfl).step (a := Step.reclaimStaged fun _ => false) rfl
  exact ⟨_, _, hswept, hswept.step (a := Step.compact [] (some fun block => block < 9)) rfl,
    by decide +kernel, by decide +kernel, by decide +kernel⟩

end Thalyx.Store.Staging
