/-
Runs of the frame allocator.

Whatever is asked of it, in any order and with any frames named, the allocator stays sound:
its count is the count of the clear bits, and a search fails only if there is nothing to find.
A frame is handed out twice only if it was given back in between, by a release, by the
quarantine once it was due, or by a reclaim.
-/
import ThalyxKernel.Kernel.Handout

namespace Thalyx.Kernel.Pool

open Checked List

/-- One call of the allocator. -/
inductive Call where
  | alloc (owner : Owner)
  | allocBelow (limit : Nat) (owner : Owner)
  | allocContiguous (count : Nat) (owner : Owner)
  | release (frame : Nat) (owner : Owner)
  | retireAt (frame : Nat) (owner : Owner) (generation : Nat)
  | drainQuarantine
  | reassignQuarantine (source target : Owner)
  | reclaim (base pages : Nat)

namespace Call

/-- What a call answers and leaves, at the generation every processor has flushed past. -/
def run (safe : Nat) (a : FrameAllocator) : Call → Option (Option Nat × FrameAllocator)
  | alloc owner => a.alloc safe owner
  | allocBelow limit owner => a.allocBelow limit owner
  | allocContiguous count owner => a.allocContiguous safe count owner
  | release frame owner => (a.release frame owner).map (none, ·)
  | retireAt frame owner generation => some (none, a.retireAt frame owner generation)
  | drainQuarantine => (a.drainQuarantine safe).map (none, ·)
  | reassignQuarantine source target => some (none, a.reassignQuarantine source target)
  | reclaim base pages => (a.reclaim base pages).map (none, ·)

/-- The frames a call hands out with its answer. -/
def handed : Call → Option Nat → Finset Nat
  | allocContiguous count _, some frame => Finset.Ico frame (frame + count)
  | _, answer => FrameAllocator.handedOne answer

/-- The frames a call gives back. -/
def Returns (safe : Nat) (a : FrameAllocator) : Call → Nat → Prop
  | alloc _, f => a.free = 0 ∧ ∃ i, a.Due safe i f
  | allocContiguous count _, f => 0 < count ∧ ∃ i, a.Due safe i f
  | release frame _, f => f = frame ∧ frame < a.frames
  | drainQuarantine, f => ∃ i, a.Due safe i f
  | reclaim base pages, f =>
    base / pageSize ≤ f ∧ f < base / pageSize + pages ∧ f < a.frames
  | _, _ => False

/-- **What a call does to the free frames.** -/
theorem run_effect {safe : Nat} {a b : FrameAllocator} {c : Call} {answer : Option Nat}
    (hs : a.Sound) (h : c.run safe a = some (answer, b)) :
    a.Effect (c.Returns safe a) (c.handed answer) b := by
  cases c with
  | alloc owner =>
    obtain ⟨_, _, hrun, heffect, -⟩ := FrameAllocator.alloc_spec hs safe owner
    rw [run, hrun] at h
    cases h
    exact heffect
  | allocBelow limit owner =>
    obtain ⟨_, _, hrun, heffect⟩ := FrameAllocator.allocBelow_spec hs limit owner
    rw [run, hrun] at h
    cases h
    exact heffect
  | allocContiguous count owner =>
    rw [run] at h
    rcases Nat.eq_zero_or_pos count with rfl | hcount
    · simp only [FrameAllocator.allocContiguous, if_true, pure, Option.some.injEq,
        Prod.mk.injEq] at h
      obtain ⟨rfl, rfl⟩ := h
      exact .backOnly hs rfl fun f => by simp [Returns]
    · obtain ⟨d, hd, hsd, hframes, hspare⟩ := FrameAllocator.drain_spec hs safe
      have hback : ∀ f, f ∈ d.spare ↔ f ∈ a.spare ∨ 0 < count ∧ ∃ i, a.Due safe i f := by
        intro f
        rw [hspare]
        simp [hcount]
      rcases FrameAllocator.allocContiguous_spec hs owner hcount hd with
        ⟨frame, e, hrun, htook⟩ | ⟨hrun | ⟨hrun, -⟩, -⟩
      · rw [hrun] at h
        cases h
        refine ⟨htook.sound, htook.frames.trans hframes, ?_, ?_⟩
        · intro f hf
          obtain ⟨hle, hlt⟩ := Finset.mem_Ico.mp hf
          have hmem := htook.free (f - frame) (by omega)
          rw [Nat.add_sub_cancel' hle] at hmem
          exact (hback f).mp hmem
        · intro f
          rw [htook.spare, Finset.mem_sdiff, hback]
          exact Iff.rfl
      · rw [hrun] at h
        cases h
        exact .backOnly hsd hframes hback
      · rw [hrun] at h
        cases h
  | release frame owner =>
    obtain ⟨e, he, hse, hframes, -, hspare⟩ := FrameAllocator.release_spec hs frame owner
    rw [run, he] at h
    cases h
    exact .backOnly hse hframes hspare
  | retireAt frame owner generation =>
    obtain ⟨hse, hframes, hspare⟩ := FrameAllocator.retireAt_spec hs frame owner generation
    cases h
    exact .nothing hse hframes hspare
  | drainQuarantine =>
    obtain ⟨e, he, hse, hframes, hspare⟩ := FrameAllocator.drain_spec hs safe
    rw [run, he] at h
    cases h
    exact .backOnly hse hframes hspare
  | reassignQuarantine source target =>
    obtain ⟨hse, hframes, hspare⟩ := FrameAllocator.reassign_spec hs source target
    cases h
    exact .nothing hse hframes hspare
  | reclaim base pages =>
    obtain ⟨e, he, hse, hframes, hspare⟩ := FrameAllocator.reclaim_spec hs base pages
    rw [run, he] at h
    cases h
    exact .backOnly hse hframes hspare

theorem run_answers {a : FrameAllocator} (hs : a.Sound) (safe : Nat) {c : Call}
    (hcount : ∀ count owner, c = allocContiguous count owner → a.frames + count < usizeValues) :
    ∃ answer b, c.run safe a = some (answer, b) := by
  cases c with
  | alloc owner =>
    obtain ⟨answer, b, hrun, -⟩ := FrameAllocator.alloc_spec hs safe owner
    exact ⟨answer, b, hrun⟩
  | allocBelow limit owner =>
    obtain ⟨answer, b, hrun, -⟩ := FrameAllocator.allocBelow_spec hs limit owner
    exact ⟨answer, b, hrun⟩
  | allocContiguous count owner =>
    have hfits := hcount count owner rfl
    rcases Nat.eq_zero_or_pos count with rfl | hpos
    · exact ⟨none, a, rfl⟩
    · obtain ⟨d, hd, -⟩ := FrameAllocator.drain_spec hs safe
      rcases FrameAllocator.allocContiguous_spec hs owner hpos hd with
        ⟨frame, b, hrun, -⟩ | ⟨hrun | ⟨-, hover⟩, -⟩
      · exact ⟨some frame, b, hrun⟩
      · exact ⟨none, d, hrun⟩
      · omega
  | release frame owner =>
    obtain ⟨b, hb, -⟩ := FrameAllocator.release_spec hs frame owner
    exact ⟨none, b, by rw [run, hb]; rfl⟩
  | retireAt frame owner generation => exact ⟨_, _, rfl⟩
  | drainQuarantine =>
    obtain ⟨b, hb, -⟩ := FrameAllocator.drain_spec hs safe
    exact ⟨none, b, by rw [run, hb]; rfl⟩
  | reassignQuarantine source target => exact ⟨_, _, rfl⟩
  | reclaim base pages =>
    obtain ⟨b, hb, -⟩ := FrameAllocator.reclaim_spec hs base pages
    exact ⟨none, b, by rw [run, hb]; rfl⟩

end Call

/-! ### Runs -/

/-- A call made, in the state it was made in, and its answer. -/
structure Turn where
  before : FrameAllocator
  safe : Nat
  call : Call
  answer : Option Nat

/-- The frames a turn hands out. -/
def Turn.handed (t : Turn) : Finset Nat := t.call.handed t.answer

/-- The frames a turn gives back. -/
def Turn.Returns (t : Turn) : Nat → Prop := t.call.Returns t.safe t.before

/-- One state leads to another by some turns. -/
inductive Follows : FrameAllocator → List Turn → FrameAllocator → Prop where
  | done (a : FrameAllocator) : Follows a [] a
  | turn {a b c : FrameAllocator} {safe : Nat} {call : Call} {answer : Option Nat}
      {rest : List Turn} : call.run safe a = some (answer, b) → Follows b rest c →
        Follows a (⟨a, safe, call, answer⟩ :: rest) c

variable {a c : FrameAllocator} {turns : List Turn}

theorem Follows.sound (h : Follows a turns c) (hs : a.Sound) : c.Sound := by
  induction h with
  | done a => exact hs
  | turn hrun _ ih => exact ih (Call.run_effect hs hrun).sound

theorem Follows.was_free (h : Follows a turns c)
    (hs : a.Sound) : ∀ t ∈ turns, ∀ f ∈ t.handed, f ∈ t.before.spare ∨ t.Returns f := by
  induction h with
  | done a =>
    intro t ht
    cases ht
  | turn hrun _ ih =>
    have heffect := Call.run_effect hs hrun
    intro t ht f hf
    rcases mem_cons.mp ht with rfl | ht
    · exact heffect.free f hf
    · exact ih heffect.sound t ht f hf

theorem Follows.held (h : Follows a turns c) (hs : a.Sound) {f : Nat} (hf : f ∉ a.spare) :
    ∀ {middle : List Turn} {u : Turn} {late : List Turn}, turns = middle ++ u :: late →
      f ∈ u.handed → ∃ v ∈ middle ++ [u], v.Returns f := by
  induction h with
  | done a =>
    intro middle u late heq
    simp at heq
  | @turn a b c safe call answer rest hrun hrest ih =>
    have heffect := Call.run_effect hs hrun
    intro middle u late heq hu
    by_cases hback : call.Returns safe a f
    · cases middle with
      | nil =>
        obtain ⟨rfl, -⟩ := cons.inj heq
        exact ⟨_, mem_cons_self, hback⟩
      | cons first middle =>
        obtain ⟨rfl, -⟩ := cons.inj heq
        exact ⟨_, mem_cons_self, hback⟩
    · cases middle with
      | nil =>
        obtain ⟨rfl, -⟩ := cons.inj heq
        exact absurd (heffect.free f hu) (by simp [hf, hback])
      | cons first middle =>
        obtain ⟨rfl, htail⟩ := cons.inj heq
        have hstill : f ∉ b.spare := by
          rw [heffect.spare]
          simp [hf, hback]
        obtain ⟨v, hv, hreturns⟩ := ih heffect.sound hstill htail hu
        exact ⟨v, mem_cons_of_mem _ hv, hreturns⟩

/-- **A frame is not handed out again before it is given back.** -/
theorem Follows.once (h : Follows a turns c) (hs : a.Sound) {f : Nat} :
    ∀ {early : List Turn} {t : Turn} {middle : List Turn} {u : Turn} {late : List Turn},
      turns = early ++ t :: (middle ++ u :: late) → f ∈ t.handed → f ∈ u.handed →
        ∃ v ∈ middle ++ [u], v.Returns f := by
  induction h with
  | done a =>
    intro early t middle u late heq
    simp at heq
  | turn hrun hrest ih =>
    have heffect := Call.run_effect hs hrun
    intro early t middle u late heq ht hu
    cases early with
    | nil =>
      obtain ⟨rfl, htail⟩ := cons.inj heq
      have hgone : f ∉ _ := fun hmem => ((heffect.spare f).mp hmem).2 ht
      exact hrest.held heffect.sound hgone htail hu
    | cons first early =>
      obtain ⟨-, htail⟩ := cons.inj heq
      exact ih heffect.sound htail ht hu

/-- What a state answers to the next call, whatever it is. -/
structure Serves (a : FrameAllocator) : Prop where
  counted : a.free = (Bitmap.spare a.bitmap).card
  drains : ∀ safe, ∃ d, a.drainQuarantine safe = some d
  alloc_answers : ∀ safe owner, ∃ answer b, a.alloc safe owner = some (answer, b)
  alloc_fails : ∀ safe owner d, a.drainQuarantine safe = some d →
    ((∃ b, a.alloc safe owner = some (none, b)) ↔ d.spare = ∅)
  run_found : ∀ safe owner count d, 0 < count → a.drainQuarantine safe = some d →
    ((∃ frame b, a.allocContiguous safe count owner = some (some frame, b))
      ↔ ∃ frame, d.FreeRun frame count)
  run_taken : ∀ safe owner count d frame b, 0 < count → a.drainQuarantine safe = some d →
    a.allocContiguous safe count owner = some (some frame, b) →
      d.FreeRun frame count ∧ b.bitmap.length = d.bitmap.length
        ∧ b.spare = d.spare \ Finset.Ico frame (frame + count)

theorem FrameAllocator.Sound.alloc_fails {d : FrameAllocator} (hs : a.Sound) {safe : Nat}
    (owner : Owner) (hd : a.drainQuarantine safe = some d) :
    (∃ b, a.alloc safe owner = some (none, b)) ↔ d.spare = ∅ := by
  obtain ⟨d', hd', -, -, hspare⟩ := FrameAllocator.drain_spec hs safe
  rw [hd] at hd'
  cases hd'
  obtain ⟨answer, b, hrun, heffect, hnone⟩ := FrameAllocator.alloc_spec hs safe owner
  constructor
  · rintro ⟨c, hc⟩
    rw [hrun] at hc
    cases hc
    have hempty := hnone rfl
    rw [Finset.eq_empty_iff_forall_notMem] at hempty ⊢
    intro f hf
    have hnot := hempty f
    rw [heffect.spare] at hnot
    -- With nothing free beforehand the quarantine was drained; else something was free.
    by_cases hfree : a.free = 0
    · exact hnot ⟨((hspare f).mp hf).imp_right fun hdue => ⟨hfree, hdue⟩, by
        simp [FrameAllocator.handedOne]⟩
    · rw [hs.counted] at hfree
      obtain ⟨g, hg⟩ := Finset.card_pos.mp (Nat.pos_of_ne_zero hfree)
      refine hempty g ?_
      rw [heffect.spare]
      exact ⟨.inl hg, by simp [FrameAllocator.handedOne]⟩
  · intro hempty
    cases answer with
    | none => exact ⟨b, hrun⟩
    | some frame =>
      have hframe := heffect.free frame (by simp [FrameAllocator.handedOne])
      have hmem : frame ∈ d.spare := (hspare frame).mpr (hframe.imp_right And.right)
      rw [hempty] at hmem
      cases hmem

theorem FrameAllocator.Sound.serves (hs : a.Sound) : Serves a where
  counted := hs.counted
  drains := by
    intro safe
    obtain ⟨d, hd, -⟩ := FrameAllocator.drain_spec hs safe
    exact ⟨d, hd⟩
  alloc_answers := by
    intro safe owner
    obtain ⟨answer, b, hrun, -⟩ := FrameAllocator.alloc_spec hs safe owner
    exact ⟨answer, b, hrun⟩
  alloc_fails := fun _ owner _ hd => hs.alloc_fails owner hd
  run_found := by
    intro safe owner count d hcount hd
    rcases FrameAllocator.allocContiguous_spec hs owner hcount hd with
      ⟨frame, b, hrun, htook⟩ | ⟨hrun, hnone⟩
    · exact ⟨fun _ => ⟨frame, htook.free⟩, fun _ => ⟨frame, b, hrun⟩⟩
    · constructor
      · rintro ⟨frame, b, hb⟩
        rcases hrun with hrun | ⟨hrun, -⟩
        · rw [hrun] at hb
          cases hb
        · rw [hrun] at hb
          cases hb
      · rintro ⟨frame, hfree⟩
        exact absurd hfree (hnone frame)
  run_taken := by
    intro safe owner count d frame b hcount hd hb
    rcases FrameAllocator.allocContiguous_spec hs owner hcount hd with
      ⟨frame', b', hrun, htook⟩ | ⟨hrun | ⟨hrun, -⟩, -⟩
    · rw [hrun] at hb
      cases hb
      exact ⟨htook.free, htook.words, htook.spare⟩
    · rw [hrun] at hb
      cases hb
    · rw [hrun] at hb
      cases hb

/-- **In every run of every allocator the count is right, the searches find what there is, and
what is handed out was free and is not handed out again before it is given back.**  A direct
map has a page, and its pages have addresses. -/
theorem supply_contract {regions : List MemoryRegion} {limit : Nat} {a b : FrameAllocator}
    {turns : List Turn} (hpos : 0 < limit) (haddressed : limit * pageSize ≤ 2 ^ 64)
    (hnew : FrameAllocator.new regions limit = some (some a)) (hrun : Follows a turns b) :
    Serves b
      ∧ (∀ t ∈ turns, ∀ f ∈ t.handed, f ∈ t.before.spare ∨ t.Returns f)
      ∧ ∀ early t middle u late, turns = early ++ t :: (middle ++ u :: late) →
          ∀ f ∈ t.handed, f ∈ u.handed → ∃ v ∈ middle ++ [u], v.Returns f := by
  have hsmall : limit ≤ 2 ^ 52 := by
    have hbytes : limit * 4096 ≤ 2 ^ 64 := haddressed
    omega
  have hs := FrameAllocator.new_sound hpos hsmall hnew
  refine ⟨(hrun.sound hs).serves, hrun.was_free hs, ?_⟩
  intro early t middle u late heq f ht hu
  exact hrun.once hs heq ht hu

theorem supply_contract_sixteen : ∃ a b turns,
    FrameAllocator.new [⟨true, 0, 16⟩] 16 = some (some a) ∧ Follows a turns b ∧ turns ≠ []
      ∧ Serves b := by
  have hnew : (FrameAllocator.new [⟨true, 0, 16⟩] 16).join.isSome := by decide +kernel
  obtain ⟨a, ha⟩ := Option.isSome_iff_exists.mp hnew
  rw [Option.join_eq_some_iff] at ha
  have hs := FrameAllocator.new_sound (by decide) (by decide) ha
  obtain ⟨answer, b, hcall⟩ := Call.run_answers hs 0 (c := .alloc .kernel) fun _ _ h => nomatch h
  have hrun := Follows.turn hcall (.done b)
  exact ⟨a, b, _, ha, hrun, cons_ne_nil _ _,
    (supply_contract (by decide) (by decide) ha hrun).1⟩

end Thalyx.Kernel.Pool
