/-
What the threads of a program are promised, and when the promise is kept.

A built thread is used again, and what one use leaves behind is taken for the next one's: the
done bit a detached thread raises ends the next thread's `pthread_join` early, a thread that is
detached after it has returned keeps its slot for ever, and keys keep their values.  `Sound`
names the steps after which none of this can happen.

The invariant is about one slot at a time: its cell, and what the one call that holds the slot
is doing with it.  `CellInv` says what each combination of the two means for the log.
-/
import ThalyxKernel.Native.Pthread

namespace Thalyx.Native

open Function List Option

/-! ### What is promised -/

/-- The thread has nothing more to do with its slot, or nothing yet. -/
def Pc.Apart : Pc → Prop
  | .unborn | .parked | .finishing => True
  | _ => False

instance : (pc : Pc) → Decidable pc.Apart
  | .unborn | .parked | .finishing => inferInstanceAs (Decidable True)
  | .woken | .running | .storing _ | .checking | .releasing => inferInstanceAs (Decidable False)

/-- A routine was handed over and not yet entered. -/
def Cell.Pending (cell : Cell) : Prop := cell.work = true ∨ cell.pc = .woken

instance (cell : Cell) : Decidable cell.Pending := inferInstanceAs (Decidable (_ ∨ _))

/-- The slot's thread has not got past looking whether it is detached. -/
def Cell.Unfinished (cell : Cell) : Prop := cell.work = true ∨ ¬ cell.pc.Apart

instance (cell : Cell) : Decidable cell.Unfinished := inferInstanceAs (Decidable (_ ∨ _))

def Stage.isFilling : Stage → Bool
  | .filling _ _ => true
  | _ => false

/-- What the call is doing with the slot. -/
def Call.on : Call → Nat → Stage
  | .engaged index stage, i => if index = i then stage else .none
  | _, _ => .none

structure LifeCycle (s : Threads) : Prop where
  /-- every routine handed over was entered once with its argument, in order, or is the last
  and still to be entered -/
  once : ∀ i, (s.cells i).log.created = (s.cells i).log.entered
    ∨ (s.cells i).log.created = (s.cells i).log.entered
        ++ [((s.cells i).slot.start, (s.cells i).slot.argument)]
      ∧ (s.cells i).Pending ∧ (s.cells i).body = true
  /-- a join that returned 0 stored what the routine of its thread had returned -/
  joined : ∀ i, ∀ p ∈ (s.cells i).log.joined, (s.cells i).log.returned[p.1]? = some p.2
  /-- a slot is taken for a thread that is being created, or for the last one created, which was
  not joined and, if it is detached, has not finished -/
  freed : ∀ i, (s.cells i).slot.busy = true →
    (∃ caller, ((s.calls caller).on i).isFilling = true)
      ∨ (∀ p ∈ (s.cells i).log.joined, p.1 + 1 < (s.cells i).log.created.length)
        ∧ ((s.cells i).slot.detached = true → (s.cells i).Unfinished)
  /-- a built thread reads `NULL` from a key that its routine has not set -/
  fresh : ∀ r ∈ s.reads, r.thread ≠ 0 → r.own = false → r.value = some 0
  kept : s.lost = false

/-! ### When it is kept -/

/-- A join that may wait: it means the thread the slot was last created for and is still taken
for, no other call holds the slot, and no earlier thread's done bit is there or still to
come. -/
def JoinProper (s : Threads) (index number : Nat) : Prop :=
  (∀ caller < thThreadMax + 1, (s.calls caller).on index = .none)
    ∧ (s.cells index).slot.busy = true
    ∧ (s.cells index).log.created.length = number + 1
    ∧ ((s.cells index).log.raised = number + 1
      ∨ (s.cells index).log.raised = number ∧ (s.cells index).done = false)

instance (s : Threads) (index number : Nat) : Decidable (JoinProper s index number) :=
  inferInstanceAs (Decidable (_ ∧ _ ∧ _ ∧ _))

/-- A detach that comes in time: no join waits for the thread, and where the slot is taken its
thread has not finished. -/
def DetachProper (s : Threads) (index : Nat) : Prop :=
  (∀ caller < thThreadMax + 1,
      (s.calls caller).on index = .none ∨ ((s.calls caller).on index).isFilling = true)
    ∧ ((s.cells index).slot.busy = true → (s.cells index).Unfinished
      ∨ ∃ caller < thThreadMax + 1, (s.calls caller).on index ≠ .none)

instance (s : Threads) (index : Nat) : Decidable (DetachProper s index) :=
  inferInstanceAs (Decidable (_ ∧ (_ → _ ∨ _)))

/-- No earlier use of the thread left a value under a key. -/
def RowClean (s : Threads) (index : Nat) : Prop :=
  ∀ key < thKeys, ∀ row ∈ rowOf index, s.keyValue row key = 0

instance (s : Threads) (index : Nat) : Decidable (RowClean s index) :=
  inferInstanceAs (Decidable (∀ key < thKeys, ∀ row ∈ rowOf index, _))

/-- The join that the step lets wait. -/
def Threads.joining (s : Threads) (caller : Nat) : Option (Nat × Nat) :=
  match s.calls caller with
  | .checked index number =>
    if (s.cells index).slot.detached then none else some (index, number)
  | _ => none

def Sound (s : Threads) : Action → Prop
  | .advance caller _ => ∀ p ∈ s.joining caller, JoinProper s p.1 p.2
  | .detach _ thread => isHandle thread = true → DetachProper s (thread - 1)
  | .work index => (s.cells index).pc = .woken → RowClean s index
  | .exit index _ => threadIndex (frameOf index) = index
  | .setKey caller key _ | .getKey caller key => key < thKeys → rowOf caller ≠ none
  | _ => True

instance (s : Threads) : (a : Action) → Decidable (Sound s a)
  | .advance caller _ => inferInstanceAs (Decidable (∀ p ∈ s.joining caller, _))
  | .detach _ thread => inferInstanceAs (Decidable (isHandle thread = true → _))
  | .work index => inferInstanceAs (Decidable ((s.cells index).pc = .woken → _))
  | .exit index _ => inferInstanceAs (Decidable (threadIndex (frameOf index) = index))
  | .setKey caller key _ | .getKey caller key =>
    inferInstanceAs (Decidable (key < thKeys → rowOf caller ≠ none))
  | .announce _ | .returns _ _ | .create _ _ | .join _ _ _ | .keyCreate _ | .keyDelete _ _ =>
    inferInstanceAs (Decidable True)

/-! ### The invariant of one slot -/

/-- How many routines the thread has entered, and left, since it last raised its done bit. -/
def Pc.begun : Pc → Nat
  | .unborn | .parked | .woken => 0
  | _ => 1

def Pc.ended : Pc → Nat
  | .unborn | .parked | .woken | .running => 0
  | _ => 1

/-- What `pthread_create` has written before its next step. -/
def Filled (cell : Cell) (job : Job) : Fill → Prop
  | .detached | .start | .undo => True
  | .argument => cell.slot.start = job.start
  | .result | .worker => cell.slot.start = job.start ∧ cell.slot.argument = job.argument
  | .raise =>
    cell.slot.start = job.start ∧ cell.slot.argument = job.argument ∧ cell.body = true

/-- What holds of a slot while a call is at `stage` with it. -/
def Staged (cell : Cell) : Stage → Prop
  | .none =>
    cell.slot.busy = true → cell.log.created.length = cell.log.raised → cell.done = true
  | .filling job next =>
    cell.slot.busy = true ∧ ¬ cell.Unfinished ∧ Filled cell job next
  | .waiting number =>
    cell.slot.busy = true ∧ cell.slot.detached = false
      ∧ cell.log.created.length = number + 1
      ∧ (cell.log.raised = number + 1 ∧ cell.done = true
        ∨ cell.log.raised = number ∧ cell.done = false)
  | .reading number =>
    cell.slot.busy = true ∧ cell.slot.detached = false
      ∧ cell.log.created.length = number + 1 ∧ cell.log.raised = number + 1
  | .leaving number value =>
    cell.slot.busy = true ∧ cell.slot.detached = false
      ∧ cell.log.created.length = number + 1 ∧ cell.log.raised = number + 1
      ∧ cell.slot.result = value

structure CellInv (cell : Cell) (stage : Stage) : Prop where
  entered : cell.log.entered.length = cell.log.raised + cell.pc.begun
  returned : cell.log.returned.length = cell.log.raised + cell.pc.ended
  pending : cell.Pending → cell.log.created = cell.log.entered
      ++ [(cell.slot.start, cell.slot.argument)] ∧ cell.body = true
  settled : ¬ cell.Pending → cell.log.created = cell.log.entered
  apart : cell.work = true → cell.pc.Apart
  free : cell.slot.busy = false → ¬ cell.Unfinished
  releasing : cell.pc = .releasing → cell.slot.detached = true
  stored : ∀ value, cell.pc = .storing value → cell.log.returned.getLast? = some value
  /-- a slot that no call is filling holds the last thread created -/
  held : cell.slot.busy = true → stage.isFilling = false →
    cell.log.created ≠ [] ∧ (∀ p ∈ cell.log.joined, p.1 + 1 < cell.log.created.length)
      ∧ (cell.pc = .checking ∨ ¬ cell.Unfinished →
          cell.log.returned.getLast? = some cell.slot.result)
      ∧ (¬ cell.Unfinished → cell.slot.detached = false)
  joined : ∀ p ∈ cell.log.joined, cell.log.returned[p.1]? = some p.2
  staged : Staged cell stage

variable {cell cell' : Cell} {stage : Stage}

theorem CellInv.created_length (h : CellInv cell stage) :
    cell.log.created.length = cell.log.entered.length + if cell.Pending then 1 else 0 := by
  split
  · rename_i hpending
    rw [(h.pending hpending).1, length_append, length_singleton]
  · rename_i hsettled
    rw [h.settled hsettled, Nat.add_zero]

theorem Pc.ended_le_begun (pc : Pc) : pc.ended ≤ pc.begun := by
  cases pc <;> simp [Pc.ended, Pc.begun]

theorem Pc.Apart.ne {pc : Pc} (h : pc.Apart) : pc ≠ .woken ∧ pc ≠ .checking ∧ pc ≠ .releasing := by
  cases pc <;> simp [Pc.Apart] at h ⊢

theorem CellInv.settled_of_finished (h : CellInv cell stage)
    (hfinished : ¬ cell.Unfinished) : cell.log.created = cell.log.entered := by
  refine h.settled fun hpending => hfinished ?_
  exact hpending.imp id fun hwoken hapart => hapart.ne.1 hwoken

theorem CellInv.joined_lt (h : CellInv cell stage) :
    ∀ p ∈ cell.log.joined, p.1 < cell.log.created.length := by
  intro p hp
  have hlt := (List.getElem?_eq_some_iff.mp (h.joined p hp)).1
  have hentered := h.entered
  have hreturned := h.returned
  have hlength := h.created_length
  have hpc := cell.pc.ended_le_begun
  omega

theorem Cell.work?_cases (h : cell.work? = some cell') :
    (cell.pc = .parked ∧ cell.work = true ∧ cell' = { cell with work := false, pc := .woken })
      ∨ (cell.pc = .woken ∧ cell.body = true ∧ cell' = { cell with
          pc := .running
          log := { cell.log with
            entered := cell.log.entered ++ [(cell.slot.start, cell.slot.argument)] } })
      ∨ (cell.pc = .woken ∧ cell.body = false ∧ cell' = { cell with pc := .finishing })
      ∨ (∃ value, cell.pc = .storing value
          ∧ cell' = { cell with slot := { cell.slot with result := value }, pc := .checking })
      ∨ (cell.pc = .checking
          ∧ cell' = { cell with pc := if cell.slot.detached then .releasing else .finishing })
      ∨ (cell.pc = .releasing
          ∧ cell' = { cell with slot := { cell.slot with busy := false }, pc := .finishing })
      ∨ (cell.pc = .finishing ∧ cell' = { cell with
          done := true
          pc := .parked
          log := { cell.log with raised := cell.log.raised + 1 } }) := by
  cases hpc : cell.pc <;> simp only [Cell.work?, hpc] at h
  all_goals grind -ring -linarith -ac -order

theorem CellInv.staged_work (h : CellInv cell stage)
    (hstep : cell.work? = some cell') : Staged cell' stage := by
  have hlength := h.created_length
  obtain ⟨entered, -, pending, settled, apart, -, releasing, -, -, -, staged⟩ := h
  rcases Cell.work?_cases hstep with ⟨hpc, hwork, rfl⟩ | ⟨hpc, hbody, rfl⟩ | ⟨hpc, hbody, rfl⟩
    | ⟨value, hpc, rfl⟩ | ⟨hpc, rfl⟩ | ⟨hpc, rfl⟩ | ⟨hpc, rfl⟩
  case inr.inr.inl => exact absurd (pending (.inr hpc)).2 (by simp [hbody])
  all_goals
    clear hstep
    simp only [hpc, Pc.begun, Pc.Apart] at entered apart
    simp only [Cell.Pending, hpc] at pending settled hlength
    cases stage <;> simp [Staged, Filled, Cell.Unfinished, Pc.Apart, hpc] at staged ⊢ <;>
      grind -ring -linarith -ac -order

theorem CellInv.held_work (h : CellInv cell stage)
    (hstep : cell.work? = some cell') (hbusy : cell'.slot.busy = true)
    (hstage : stage.isFilling = false) :
    cell'.log.created ≠ [] ∧ (∀ p ∈ cell'.log.joined, p.1 + 1 < cell'.log.created.length)
      ∧ (cell'.pc = .checking ∨ ¬ cell'.Unfinished →
          cell'.log.returned.getLast? = some cell'.slot.result)
      ∧ (¬ cell'.Unfinished → cell'.slot.detached = false) := by
  obtain ⟨-, -, pending, -, apart, free, -, stored, held, -, -⟩ := h
  rcases Cell.work?_cases hstep with ⟨hpc, hwork, rfl⟩ | ⟨hpc, hbody, rfl⟩ | ⟨hpc, hbody, rfl⟩
    | ⟨value, hpc, rfl⟩ | ⟨hpc, rfl⟩ | ⟨hpc, rfl⟩ | ⟨hpc, rfl⟩
  case inr.inr.inl => exact absurd (pending (.inr hpc)).2 (by simp [hbody])
  all_goals
    clear hstep pending
    simp only [hpc, Pc.Apart] at apart
    simp only [Cell.Unfinished, hpc, Pc.Apart] at free held
    simp only [Cell.Unfinished, Pc.Apart]
    grind -ring -linarith -ac -order

theorem CellInv.created_work (h : CellInv cell stage) (hstep : cell.work? = some cell') :
    (cell'.Pending → cell'.log.created = cell'.log.entered
        ++ [(cell'.slot.start, cell'.slot.argument)] ∧ cell'.body = true)
      ∧ (¬ cell'.Pending → cell'.log.created = cell'.log.entered) := by
  obtain ⟨-, -, pending, settled, apart, -, -, -, -, -, -⟩ := h
  rcases Cell.work?_cases hstep with ⟨hpc, hwork, rfl⟩ | ⟨hpc, hbody, rfl⟩ | ⟨hpc, hbody, rfl⟩
    | ⟨value, hpc, rfl⟩ | ⟨hpc, rfl⟩ | ⟨hpc, rfl⟩ | ⟨hpc, rfl⟩
  case inr.inr.inl => exact absurd (pending (.inr hpc)).2 (by simp [hbody])
  all_goals
    clear hstep
    simp only [hpc, Pc.Apart] at apart
    simp only [Cell.Pending, hpc] at pending settled
    simp only [Cell.Pending]
    grind -ring -linarith -ac -order

theorem CellInv.work (h : CellInv cell stage)
    (hstep : cell.work? = some cell') : CellInv cell' stage := by
  have hlength := h.created_length
  have hcreated := h.created_work hstep
  have hheld := h.held_work hstep
  have hstaged := h.staged_work hstep
  obtain ⟨entered, returned, pending, settled, apart, free, releasing, stored, -, joined, -⟩ := h
  rcases Cell.work?_cases hstep with ⟨hpc, hwork, rfl⟩ | ⟨hpc, hbody, rfl⟩ | ⟨hpc, hbody, rfl⟩
    | ⟨value, hpc, rfl⟩ | ⟨hpc, rfl⟩ | ⟨hpc, rfl⟩ | ⟨hpc, rfl⟩
  case inr.inr.inl => exact absurd (pending (.inr hpc)).2 (by simp [hbody])
  all_goals
    clear hstep
    simp only [hpc, Pc.begun, Pc.ended, Pc.Apart] at entered returned apart
    simp only [Cell.Pending, Cell.Unfinished, hpc, Pc.Apart] at pending settled free hlength
    constructor
    case pending => exact hcreated.1
    case settled => exact hcreated.2
    case held => exact hheld
    case staged => exact hstaged
    all_goals clear hcreated hheld hstaged
    all_goals simp [Cell.Unfinished, Pc.begun, Pc.ended, Pc.Apart]
    all_goals grind -ring -linarith -ac -order

variable {caller index value : Nat}

theorem CellInv.returns (h : CellInv cell stage)
    (hstep : cell.return? value = some cell') : CellInv cell' stage := by
  have hlength := h.created_length
  obtain ⟨entered, returned, pending, settled, apart, free, releasing, stored, held, joined,
    staged⟩ := h
  simp only [Cell.return?, ite_none_right_eq_some, some.injEq] at hstep
  obtain ⟨hpc, rfl⟩ := hstep
  simp only [hpc, Pc.begun, Pc.ended, Pc.Apart] at entered returned apart
  simp only [Cell.Pending, Cell.Unfinished, hpc, Pc.Apart] at pending settled free held hlength
  constructor
  case staged =>
    cases stage <;> simp [Staged, Filled, Cell.Unfinished, Pc.Apart, hpc] at staged ⊢ <;>
      grind -ring -linarith -ac -order
  all_goals simp [Cell.Pending, Cell.Unfinished, Pc.begun, Pc.ended, Pc.Apart]
  all_goals grind -ring -linarith -ac -order

theorem CellInv.take {job : Job} (h : CellInv cell .none) (hfree : cell.slot.busy = false) :
    CellInv { cell with slot := { cell.slot with busy := true } } (.filling job .detached) := by
  have hfinished := h.free hfree
  exact ⟨h.entered, h.returned, h.pending, h.settled, h.apart, fun hbusy => absurd hbusy (by simp),
    h.releasing, h.stored, fun _ hstage => absurd hstage (by simp [Stage.isFilling]), h.joined,
    rfl, hfinished, trivial⟩

theorem CellInv.announce (h : CellInv cell stage)
    (hpc : cell.pc = .unborn) : CellInv { cell with pc := .parked } stage := by
  have hlength := h.created_length
  obtain ⟨entered, returned, pending, settled, apart, free, releasing, stored, held, joined,
    staged⟩ := h
  simp only [hpc, Pc.begun, Pc.ended, Pc.Apart] at entered returned apart
  simp only [Cell.Pending, Cell.Unfinished, hpc, Pc.Apart] at pending settled free held hlength
  constructor
  case staged =>
    cases stage <;> simp [Staged, Filled, Cell.Unfinished, Pc.Apart, hpc] at staged ⊢ <;>
      grind -ring -linarith -ac -order
  all_goals simp [Cell.Pending, Cell.Unfinished, Pc.begun, Pc.ended, Pc.Apart]
  all_goals grind -ring -linarith -ac -order

theorem CellInv.detach (h : CellInv cell stage) (hstage : stage = .none ∨ stage.isFilling = true)
    (hlate : cell.slot.busy = true → cell.Unfinished ∨ stage ≠ .none) :
    CellInv { cell with slot := { cell.slot with detached := true } } stage := by
  obtain ⟨entered, returned, pending, settled, apart, free, releasing, stored, held, joined,
    staged⟩ := h
  simp only [Cell.Pending, Cell.Unfinished] at pending settled free held hlate
  constructor
  case staged =>
    cases stage with
    | filling job next =>
      cases next <;> simp [Staged, Filled, Cell.Unfinished] at staged ⊢ <;>
        grind -ring -linarith -ac -order
    | _ => simp [Staged, Stage.isFilling] at staged hstage ⊢ <;> grind -ring -linarith -ac -order
  all_goals simp [Cell.Pending, Cell.Unfinished]
  all_goals grind -ring -linarith -ac -order

variable {key number : Nat}

theorem CellInv.wait (h : CellInv cell .none)
    (hbusy : cell.slot.busy = true) (hdetached : cell.slot.detached = false)
    (hcurrent : cell.log.created.length = number + 1)
    (hfresh : cell.log.raised = number + 1 ∨ cell.log.raised = number ∧ cell.done = false) :
    CellInv cell (.waiting number) := by
  obtain ⟨entered, returned, pending, settled, apart, free, releasing, stored, held, joined,
    staged⟩ := h
  refine ⟨entered, returned, pending, settled, apart, free, releasing, stored, held, joined, ?_⟩
  simp only [Staged] at staged ⊢
  grind -ring -linarith -ac -order

variable {ok : Bool}

theorem CellInv.fill {job : Job} {next : Fill} (h : CellInv cell (.filling job next)) :
    CellInv (cell.fill job ok next).1 ((cell.fill job ok next).2.elim .none (.filling job)) := by
  have hjoined := h.joined_lt
  have hsettled := h.settled_of_finished
  obtain ⟨entered, returned, pending, settled, apart, free, releasing, stored, held, joined,
    staged⟩ := h
  simp only [Staged] at staged
  obtain ⟨hbusy, hfinished, hfilled⟩ := staged
  have hcreated := hsettled hfinished
  have hapart : cell.pc.Apart := not_not.mp fun hnot => hfinished (.inr hnot)
  have hpc := hapart.ne
  simp only [Cell.Pending, Cell.Unfinished] at pending settled free held hfinished
  cases next with
  | raise =>
    simp only [Filled] at hfilled
    cases ok
    all_goals
      constructor
      case staged =>
        simp [Cell.fill, Staged, Filled, Cell.Unfinished]
        grind -ring -linarith -ac -order
      all_goals simp [Cell.fill, Cell.Pending, Cell.Unfinished, Stage.isFilling]
      all_goals grind -ring -linarith -ac -order
  | _ =>
    simp only [Filled] at hfilled
    constructor
    case staged =>
      simp [Staged, Filled, Cell.fill, Cell.Unfinished]
      try grind -ring -linarith -ac -order
    all_goals simp [Cell.Pending, Cell.Unfinished, Cell.fill, Stage.isFilling]
    all_goals grind -ring -linarith -ac -order

theorem CellInv.result_of_raised (h : CellInv cell stage)
    (hstage : stage.isFilling = false) (hbusy : cell.slot.busy = true)
    (hcurrent : cell.log.created.length = number + 1) (hraised : cell.log.raised = number + 1) :
    cell.log.returned[number]? = some cell.slot.result ∧ ¬ cell.Unfinished := by
  have hlength := h.created_length
  have hentered := h.entered
  have hreturned := h.returned
  have hbegun := cell.pc.ended_le_begun
  have hpending : ¬ cell.Pending := by
    intro hpending
    rw [if_pos hpending] at hlength
    omega
  have hnone : cell.pc.begun = 0 := by omega
  have hfinished : ¬ cell.Unfinished := by
    simp only [Cell.Pending, Cell.Unfinished, not_or, not_not] at hpending ⊢
    refine ⟨hpending.1, ?_⟩
    cases hpc : cell.pc <;> simp [hpc, Pc.begun, Pc.Apart] at hnone hpending ⊢
  refine ⟨?_, hfinished⟩
  have hlast := (h.held hbusy hstage).2.2.1 (.inr hfinished)
  rw [getLast?_eq_getElem?] at hlast
  have hsize : cell.log.returned.length - 1 = number := by omega
  rwa [hsize] at hlast

theorem CellInv.engaged {stage' : Stage}
    (h : CellInv cell stage) (hstep : cell.engaged ok stage = some (cell', stage')) :
    CellInv cell' stage' := by
  cases stage with
  | none => cases hstep
  | filling job next =>
    obtain ⟨rfl, rfl⟩ := Prod.mk.inj (some.inj hstep)
    exact h.fill
  | waiting number =>
    obtain ⟨hbusy, hdetached, hcurrent, hraised⟩ := h.staged
    simp only [Cell.engaged] at hstep
    split at hstep
    · split at hstep
      · rename_i hdone
        obtain ⟨rfl, rfl⟩ := Prod.mk.inj (some.inj hstep)
        exact ⟨h.entered, h.returned, h.pending, h.settled, h.apart, h.free, h.releasing, h.stored,
          h.held, h.joined, hbusy, hdetached, hcurrent, by grind -ring -linarith -ac -order⟩
      · cases hstep
    · obtain ⟨rfl, rfl⟩ := Prod.mk.inj (some.inj hstep)
      refine ⟨h.entered, h.returned, h.pending, h.settled, h.apart, h.free, h.releasing, h.stored,
        h.held, h.joined, fun _ _ => by grind -ring -linarith -ac -order⟩
  | reading number =>
    obtain ⟨rfl, rfl⟩ := Prod.mk.inj (some.inj hstep)
    obtain ⟨hbusy, hdetached, hcurrent, hraised⟩ := h.staged
    exact ⟨h.entered, h.returned, h.pending, h.settled, h.apart, h.free, h.releasing, h.stored,
      h.held, h.joined, hbusy, hdetached, hcurrent, hraised, rfl⟩
  | leaving number value =>
    obtain ⟨rfl, rfl⟩ := Prod.mk.inj (some.inj hstep)
    obtain ⟨hbusy, hdetached, hcurrent, hraised, hvalue⟩ := h.staged
    obtain ⟨hresult, hfinished⟩ := h.result_of_raised rfl hbusy hcurrent hraised
    refine ⟨h.entered, h.returned, h.pending, h.settled, h.apart, fun _ => hfinished, h.releasing,
      h.stored, fun hbusy _ => absurd hbusy (by simp), ?_, fun hbusy => absurd hbusy (by simp)⟩
    intro p hp
    rcases mem_append.mp hp with hold | hnew
    · exact h.joined p hold
    · obtain rfl := mem_singleton.mp hnew
      rw [← hvalue]
      exact hresult

/-! ### Who holds a slot -/

/-- One call at most holds the slot, and is at `stage` with it. -/
def Holds (calls : Nat → Call) (index : Nat) (stage : Stage) : Prop :=
  (stage = .none ∧ ∀ caller, (calls caller).on index = .none)
    ∨ ∃ caller, (calls caller).on index = stage ∧ stage ≠ .none
      ∧ ∀ other, other ≠ caller → (calls other).on index = .none

@[simp] theorem Call.on_at (index i : Nat) (stage : Stage) :
    (Call.at index stage).on i = if index = i then stage else .none := by
  unfold Call.at
  split
  · rename_i hnone
    simp [Call.on, hnone]
  · rfl

variable {calls : Nat → Call}

theorem Holds.congr {calls' : Nat → Call} (h : Holds calls index stage)
    (hsame : ∀ caller, (calls' caller).on index = (calls caller).on index) :
    Holds calls' index stage := by
  unfold Holds
  simp only [hsame]
  exact h

variable {call : Call}

theorem Holds.update_of_eq
    (h : Holds calls index stage) (hsame : call.on index = (calls caller).on index) :
    Holds (update calls caller call) index stage := by
  refine h.congr fun other => ?_
  by_cases hc : other = caller
  · rw [hc, update_self, hsame]
  · rw [update_of_ne hc]

theorem Holds.eq (h : Holds calls index stage) (hcall : (calls caller).on index ≠ .none) :
    (calls caller).on index = stage
      ∧ ∀ other, other ≠ caller → (calls other).on index = .none := by
  rcases h with ⟨-, hnone⟩ | ⟨holder, hstage, -, halone⟩
  · exact absurd (hnone caller) hcall
  · by_cases hc : caller = holder
    · subst hc
      exact ⟨hstage, halone⟩
    · exact absurd (halone caller hc) hcall

theorem Holds.update (halone : ∀ other, other ≠ caller → (calls other).on index = .none) :
    Holds (update calls caller call) index (call.on index) := by
  by_cases hnone : call.on index = .none
  · refine .inl ⟨hnone, fun other => ?_⟩
    by_cases hc : other = caller
    · rw [hc, update_self, hnone]
    · rw [update_of_ne hc, halone other hc]
  · refine .inr ⟨caller, by rw [update_self], hnone, fun other hc => ?_⟩
    rw [update_of_ne hc, halone other hc]

/-! ### The invariant -/

structure Inv (s : Threads) : Prop where
  cells : ∀ i, ∃ stage, CellInv (s.cells i) stage ∧ Holds s.calls i stage
  born : ∀ i, (s.cells i).pc ≠ .unborn → 1 ≤ i ∧ i ≤ thThreadMax
  callers : ∀ c, s.calls c ≠ .idle → c < thThreadMax + 1

theorem inv_blank : Inv .blank := by
  refine ⟨fun i => ⟨.none, ?_, .inl ⟨rfl, fun _ => rfl⟩⟩, ?_, ?_⟩
  · constructor <;> simp [Threads.blank, Cell.blank, Cell.Pending, Cell.Unfinished, Pc.Apart,
      Pc.begun, Pc.ended, Staged]
  · intro i h
    exact absurd rfl h
  · intro c h
    exact absurd rfl h

variable {s s' : Threads}

theorem Inv.free_lt (h : Inv s) (hfree : s.free caller) : caller < thThreadMax + 1 := by
  rcases hfree.2 with hzero | hrunning
  · rw [hzero]
    decide
  · have := (h.born caller (by rw [hrunning]; decide)).2
    omega

theorem Inv.setCell (h : Inv s)
    (hcell : ∀ stage, CellInv (s.cells index) stage → Holds s.calls index stage →
      CellInv cell stage)
    (hborn : cell.pc ≠ .unborn → 1 ≤ index ∧ index ≤ thThreadMax) : Inv (s.setCell index cell) := by
  refine ⟨fun i => ?_, fun i => ?_, h.callers⟩
  · obtain ⟨stage, hinv, hholds⟩ := h.cells i
    refine ⟨stage, ?_, hholds⟩
    by_cases hi : i = index
    · subst hi
      simpa [Threads.setCell] using hcell stage hinv hholds
    · simpa [Threads.setCell, hi] using hinv
  · by_cases hi : i = index
    · subst hi
      simpa [Threads.setCell] using hborn
    · simpa [Threads.setCell, hi] using h.born i

theorem Inv.setCall (h : Inv s)
    (hbefore : ∀ i, (s.calls caller).on i = .none) (hafter : ∀ i, call.on i = .none)
    (hcaller : caller < thThreadMax + 1) : Inv (s.setCall caller call) := by
  refine ⟨fun i => ?_, h.born, fun c => ?_⟩
  · obtain ⟨stage, hinv, hholds⟩ := h.cells i
    exact ⟨stage, hinv, hholds.update_of_eq (by rw [hbefore, hafter])⟩
  · intro hc
    by_cases heq : c = caller
    · rw [heq]
      exact hcaller
    · exact h.callers c (by simpa [Threads.setCall, heq] using hc)

theorem Inv.engage (h : Inv s)
    (hother : ∀ i, i ≠ index → (s.calls caller).on i = .none ∧ call.on i = .none)
    (halone : ∀ other, other ≠ caller → (s.calls other).on index = .none)
    (hcell : CellInv cell (call.on index))
    (hpc : cell.pc = (s.cells index).pc) (hcaller : caller < thThreadMax + 1) :
    Inv ((s.setCell index cell).setCall caller call) := by
  refine ⟨fun i => ?_, fun i => ?_, fun c => ?_⟩
  · by_cases hi : i = index
    · subst hi
      exact ⟨call.on i, by simpa [Threads.setCell, Threads.setCall] using hcell,
        Holds.update halone⟩
    · obtain ⟨stage, hinv, hholds⟩ := h.cells i
      refine ⟨stage, by simpa [Threads.setCell, Threads.setCall, hi] using hinv,
        hholds.update_of_eq ?_⟩
      rw [(hother i hi).1, (hother i hi).2]
  · by_cases hi : i = index
    · subst hi
      simpa [Threads.setCell, Threads.setCall, hpc] using h.born i
    · simpa [Threads.setCell, Threads.setCall, hi] using h.born i
  · intro hc
    by_cases heq : c = caller
    · rw [heq]
      exact hcaller
    · exact h.callers c (by simpa [Threads.setCall, Threads.setCell, heq] using hc)

theorem Cell.engaged_pc {p : Cell × Stage}
    (h : cell.engaged ok stage = some p) : p.1.pc = cell.pc := by
  cases stage with
  | none => cases h
  | filling job next =>
    obtain rfl := some.inj h
    cases next
    case raise => cases ok <;> rfl
    all_goals rfl
  | waiting number =>
    simp only [Cell.engaged] at h
    split at h
    · split at h
      · obtain rfl := some.inj h
        rfl
      · cases h
    · obtain rfl := some.inj h
      rfl
  | reading number =>
    obtain rfl := some.inj h
    rfl
  | leaving number value =>
    obtain rfl := some.inj h
    rfl

theorem Inv.advance (h : Inv s) (hsound : ∀ p ∈ s.joining caller, JoinProper s p.1 p.2)
    (hstep : s.advance caller ok = some s') : Inv s' := by
  unfold Threads.advance at hstep
  cases hcall : s.calls caller with
  | idle => simp [hcall] at hstep
  | loading job =>
    simp only [hcall, some.injEq] at hstep
    subst hstep
    exact h.setCall (by simp [hcall, Call.on]) (by simp [Call.on])
      (h.callers caller (by simp [hcall]))
  | scanning job alive index =>
    have hcaller := h.callers caller (by simp [hcall])
    simp only [hcall] at hstep
    split at hstep
    · obtain rfl := some.inj hstep
      refine h.setCall (by simp [hcall, Call.on]) (fun i => ?_) hcaller
      split <;> rfl
    split at hstep
    · rename_i hfree
      obtain rfl := some.inj hstep
      obtain ⟨stage, hinv, hholds⟩ := h.cells index
      -- a slot that is not busy is held by no call
      have hnone : stage = .none := by
        have hstaged := hinv.staged
        cases stage <;> simp [Staged, hfree.2] at hstaged ⊢
      subst hnone
      have hon : ∀ c, (s.calls c).on index = .none := by
        rcases hholds with ⟨-, hall⟩ | ⟨_, -, hne, -⟩
        · exact hall
        · exact absurd rfl hne
      refine h.engage (fun i hi => ⟨by simp [hcall, Call.on], ?_⟩) (fun other _ => hon other) ?_ rfl
        hcaller
      · exact if_neg (Ne.symm hi)
      · rw [Call.on, if_pos rfl]
        exact hinv.take hfree.2
    · obtain rfl := some.inj hstep
      exact h.setCall (by simp [hcall, Call.on]) (by simp [Call.on]) hcaller
  | checking index number =>
    simp only [hcall, some.injEq] at hstep
    subst hstep
    refine h.setCall (by simp [hcall, Call.on]) (fun i => ?_) (h.callers caller (by simp [hcall]))
    split <;> rfl
  | checked index number =>
    have hcaller := h.callers caller (by simp [hcall])
    simp only [hcall, some.injEq] at hstep
    subst hstep
    cases hdetached : (s.cells index).slot.detached with
    | true => exact h.setCall (by simp [hcall, Call.on]) (by simp [Call.on]) hcaller
    | false =>
      obtain ⟨halone, hbusy, hcurrent, hfresh⟩ :=
        hsound (index, number) (by simp [Threads.joining, hcall, hdetached])
      have hon : ∀ c, (s.calls c).on index = .none := by
        intro c
        by_cases hc : c < thThreadMax + 1
        · exact halone c hc
        · have hidle : s.calls c = .idle := by
            by_contra hbusy
            exact hc (h.callers c hbusy)
          rw [hidle]
          rfl
      obtain ⟨stage, hinv, hholds⟩ := h.cells index
      have hnone : stage = .none := by
        rcases hholds with ⟨hnone, -⟩ | ⟨holder, hstage, -, -⟩
        · exact hnone
        · rw [← hstage, hon holder]
      subst hnone
      have hcell : s.setCell index (s.cells index) = s := by
        simp [Threads.setCell]
      have hnext : Inv ((s.setCell index (s.cells index)).setCall caller
          (.engaged index (.waiting number))) := by
        refine h.engage (fun i hi => ⟨by simp [hcall, Call.on], if_neg (Ne.symm hi)⟩)
          (fun other _ => hon other) ?_ rfl hcaller
        rw [Call.on, if_pos rfl]
        exact hinv.wait hbusy hdetached hcurrent hfresh
      rwa [hcell] at hnext
  | engaged index stage =>
    have hcaller := h.callers caller (by simp [hcall])
    simp only [hcall, map_eq_some_iff] at hstep
    obtain ⟨p, hstep, rfl⟩ := hstep
    have hon : (s.calls caller).on index = stage := by
      rw [hcall, Call.on, if_pos rfl]
    have hsome : (s.calls caller).on index ≠ .none := by
      rw [hon]
      rintro rfl
      cases hstep
    obtain ⟨stage', hinv, hholds⟩ := h.cells index
    obtain ⟨hstage, halone⟩ := hholds.eq hsome
    obtain rfl := hon.symm.trans hstage
    refine h.engage (fun i hi => ⟨?_, ?_⟩) halone ?_ ?_ hcaller
    · rw [hcall, Call.on, if_neg (Ne.symm hi)]
    · rw [Call.on_at, if_neg (Ne.symm hi)]
    · rw [Call.on_at, if_pos rfl]
      exact hinv.engaged hstep
    · exact Cell.engaged_pc hstep

theorem Cell.work?_born (h : cell.work? = some cell') : cell.pc ≠ .unborn ∧ cell'.pc ≠ .unborn := by
  rcases Cell.work?_cases h with ⟨hpc, -, rfl⟩ | ⟨hpc, -, rfl⟩ | ⟨hpc, -, rfl⟩ | ⟨_, hpc, rfl⟩
    | ⟨hpc, rfl⟩ | ⟨hpc, rfl⟩ | ⟨hpc, rfl⟩
  all_goals
    rw [hpc]
    grind -ring -linarith -ac -order

theorem Cell.return?_pc (h : cell.return? value = some cell') :
    cell.pc = .running ∧ cell'.pc = .storing value := by
  simp only [Cell.return?, ite_none_right_eq_some, some.injEq] at h
  obtain ⟨hpc, rfl⟩ := h
  exact ⟨hpc, rfl⟩

theorem Inv.returns (h : Inv s)
    (hstep : (s.cells index).return? value = some cell) : Inv (s.setCell index cell) := by
  refine h.setCell (fun stage hinv _ => hinv.returns hstep) fun _ => h.born index ?_
  rw [(Cell.return?_pc hstep).1]
  decide

theorem Inv.congr (h : Inv s) (hcells : s'.cells = s.cells)
    (hcalls : s'.calls = s.calls) : Inv s' := by
  refine ⟨?_, ?_, ?_⟩
  · rw [hcells, hcalls]
    exact h.cells
  · rw [hcells]
    exact h.born
  · rw [hcalls]
    exact h.callers

/-! ### Keys -/

theorem rowOf_initial : rowOf 0 = some 0 := by decide

theorem rowOf_built (hlow : 1 ≤ index) (hmax : index ≤ thThreadMax) :
    rowOf index = if index < thThreadMax then some (index + 1) else none := by
  rw [rowOf, frameOf, if_neg (by omega)]
  exact tableEntry_built hmax (holds_entry index)

theorem rowOf_injective {thread other row : Nat} (hthread : thread < thThreadMax + 1)
    (hother : other < thThreadMax + 1) (h : rowOf thread = some row) (h' : rowOf other = some row) :
    thread = other := by
  have hrow : ∀ {t : Nat}, t < thThreadMax + 1 → rowOf t = some row →
      (t = 0 ∧ row = 0) ∨ (1 ≤ t ∧ row = t + 1) := by
    intro t ht hrow
    by_cases hzero : t = 0
    · subst hzero
      rw [rowOf_initial] at hrow
      exact .inl ⟨rfl, (some.inj hrow).symm⟩
    · rw [rowOf_built (by omega) (by omega)] at hrow
      split at hrow
      · exact .inr ⟨by omega, (some.inj hrow).symm⟩
      · cases hrow
  have := hrow hthread h
  have := hrow hother h'
  omega

structure Keys (s : Threads) : Prop where
  /-- a routine has under a key what it set itself -/
  clean : ∀ i row, i ≠ 0 → (s.cells i).pc = .running → rowOf i = some row → ∀ key < thKeys,
    s.own i key = false → s.keyValue row key = 0
  fresh : ∀ r ∈ s.reads, r.thread ≠ 0 → r.own = false → r.value = some 0
  kept : s.lost = false

theorem keys_blank : Keys .blank :=
  ⟨fun _ _ _ _ _ _ _ _ => rfl, fun _ hr => absurd hr (by simp [Threads.blank]), rfl⟩

theorem Keys.congr (h : Keys s) (hown : s'.own = s.own)
    (hvalue : s'.keyValue = s.keyValue) (hreads : s'.reads = s.reads) (hlost : s'.lost = s.lost)
    (hpc : ∀ i, (s'.cells i).pc = .running → (s.cells i).pc = .running) : Keys s' := by
  refine ⟨?_, ?_, ?_⟩
  · rw [hown, hvalue]
    exact fun i row hi hrunning => h.clean i row hi (hpc i hrunning)
  · rw [hreads]
    exact h.fresh
  · rw [hlost]
    exact h.kept

theorem running_setCell {i : Nat} (hcell : cell.pc = .running → (s.cells index).pc = .running)
    (h : ((s.setCell index cell).cells i).pc = .running) : (s.cells i).pc = .running := by
  by_cases hi : i = index
  · subst hi
    exact hcell (by simpa [Threads.setCell] using h)
  · simpa [Threads.setCell, hi] using h

theorem Keys.setCell (h : Keys s)
    (hcell : cell.pc = .running → (s.cells index).pc = .running) : Keys (s.setCell index cell) :=
  h.congr rfl rfl rfl rfl fun _ => running_setCell hcell

theorem Keys.advance (h : Keys s) (hstep : s.advance caller ok = some s') : Keys s' := by
  have hcall : ∀ {t : Threads} {c : Nat} {call : Call}, Keys t → Keys (t.setCall c call) :=
    fun ht => ht.congr rfl rfl rfl rfl fun _ => id
  unfold Threads.advance at hstep
  split at hstep
  · cases hstep
  · obtain rfl := some.inj hstep
    exact hcall h
  · split at hstep
    · obtain rfl := some.inj hstep
      exact hcall h
    split at hstep
    · obtain rfl := some.inj hstep
      exact hcall (h.setCell id)
    · obtain rfl := some.inj hstep
      exact hcall h
  · obtain rfl := some.inj hstep
    exact hcall h
  · obtain rfl := some.inj hstep
    exact hcall h
  · obtain ⟨p, hp, rfl⟩ := map_eq_some_iff.mp hstep
    exact hcall (h.setCell (by rw [Cell.engaged_pc hp]; exact id))

theorem Keys.work (h : Keys s) (hsound : (s.cells index).pc = .woken → RowClean s index)
    (hcell : (s.cells index).work? = some cell) : Keys ((s.forget index).setCell index cell) := by
  by_cases hwoken : (s.cells index).pc = .woken
  · have hforget : s.forget index
        = { s with own := update s.own index fun _ => false } := if_pos hwoken
    rw [hforget]
    refine ⟨?_, h.fresh, h.kept⟩
    intro i row hi hrunning hrow key hkey hown
    by_cases heq : i = index
    · subst heq
      exact hsound hwoken key hkey row hrow
    · refine h.clean i row hi ?_ hrow key hkey ?_
      · simpa [Threads.setCell, heq] using hrunning
      · simpa [Threads.setCell, heq] using hown
  · have hforget : s.forget index = s := if_neg hwoken
    rw [hforget]
    refine h.setCell fun hrunning => ?_
    have hcases := Cell.work?_cases hcell
    grind -ring -linarith -ac -order

theorem Keys.keyCreate (h : Keys s) : Keys s.keyCreate := by
  unfold Threads.keyCreate
  split
  · exact h
  · rename_i fresh _
    refine ⟨?_, h.fresh, h.kept⟩
    intro i row hi hrunning hrow key hkey hown
    by_cases heq : key = fresh
    · -- the row is in the table, so the key was cleared in it
      subst heq
      have hinside : row ≤ thThreadMax := by
        rw [rowOf, tableEntry, ite_none_right_eq_some] at hrow
        obtain ⟨hlt, hrow⟩ := hrow
        have := some.inj hrow
        omega
      simp [hinside]
    · have hbefore := h.clean i row hi hrunning hrow key hkey
      simp only [update_of_ne heq] at hown
      dsimp only
      split
      · rw [update_of_ne heq]
        exact hbefore hown
      · exact hbefore hown

theorem Keys.setKey (h : Keys s) (hinv : Inv s)
    (hfree : s.free caller) (hsound : key < thKeys → rowOf caller ≠ none) :
    Keys (s.setKey caller key value) := by
  unfold Threads.setKey
  split
  · exact h
  rename_i hkey
  split
  · rename_i hnone
    exact absurd hnone (hsound (by omega))
  · rename_i row hrow
    refine ⟨?_, h.fresh, h.kept⟩
    intro i row' hi hrunning hrow' key' hkey' hown
    have hlt : i < thThreadMax + 1 := by
      have := (hinv.born i (by rw [hrunning]; decide)).2
      omega
    by_cases heq : i = caller
    · subst heq
      obtain rfl := some.inj (hrow.symm.trans hrow')
      by_cases hsame : key' = key
      · subst hsame
        simp at hown
      · simp only [update_self, update_of_ne hsame] at hown ⊢
        exact h.clean i row hi hrunning hrow' key' hkey' hown
    · have hrows : row' ≠ row := by
        rintro rfl
        exact heq (rowOf_injective hlt (hinv.free_lt hfree) hrow' hrow)
      simp only [update_of_ne heq, update_of_ne hrows] at hown ⊢
      exact h.clean i row' hi hrunning hrow' key' hkey' hown

theorem Keys.getKey (h : Keys s) (hfree : s.free caller)
    (hsound : key < thKeys → rowOf caller ≠ none) : Keys (s.getKey caller key) := by
  refine ⟨h.clean, ?_, h.kept⟩
  intro r hr hthread hown
  rcases mem_append.mp hr with hold | hnew
  · exact h.fresh r hold hthread hown
  · obtain rfl := mem_singleton.mp hnew
    dsimp only at hthread hown ⊢
    split
    · rfl
    · rename_i hkey
      obtain ⟨row, hrow⟩ := ne_none_iff_exists'.mp (hsound (by omega))
      have hrunning := hfree.2.resolve_left hthread
      rw [hrow, map_some, h.clean caller row hthread hrunning hrow key (by omega) hown]

theorem Inv.step {a : Action} (h : Inv s) (hkeys : Keys s) (hsound : Sound s a)
    (hstep : s.step a = some s') : Inv s' ∧ Keys s' := by
  cases a with
  | announce index =>
    simp only [Threads.step, ite_none_right_eq_some, some.injEq] at hstep
    obtain ⟨⟨hlow, hhigh, hpc⟩, rfl⟩ := hstep
    have hnext : Inv (s.setCell index { s.cells index with pc := .parked }) :=
      h.setCell (fun stage hinv _ => hinv.announce hpc) fun _ => ⟨hlow, hhigh⟩
    exact ⟨hnext.congr rfl rfl, hkeys.congr rfl rfl rfl rfl fun i => running_setCell (by simp)⟩
  | work index =>
    simp only [Threads.step, map_eq_some_iff] at hstep
    obtain ⟨cell, hcell, rfl⟩ := hstep
    have hnext : Inv (s.setCell index cell) :=
      h.setCell (fun stage hinv _ => hinv.work hcell) fun _ =>
        h.born index (Cell.work?_born hcell).1
    refine ⟨hnext.congr ?_ ?_, hkeys.work hsound hcell⟩
    all_goals
      unfold Threads.forget
      split <;> rfl
  | returns index value =>
    simp only [Threads.step, ite_none_right_eq_some, map_eq_some_iff] at hstep
    obtain ⟨-, cell, hcell, rfl⟩ := hstep
    exact ⟨h.returns hcell, hkeys.setCell fun _ => (Cell.return?_pc hcell).1⟩
  | exit index value =>
    simp only [Threads.step, ite_none_right_eq_some] at hstep
    have hown : threadIndex (frameOf index) = index := hsound
    obtain ⟨-, hstep⟩ := hstep
    rw [Threads.exit, if_pos hown, map_eq_some_iff] at hstep
    obtain ⟨cell, hcell, rfl⟩ := hstep
    exact ⟨h.returns hcell, hkeys.setCell fun _ => (Cell.return?_pc hcell).1⟩
  | create caller job =>
    simp only [Threads.step, ite_none_right_eq_some, some.injEq] at hstep
    obtain ⟨hfree, rfl⟩ := hstep
    exact ⟨h.setCall (by simp [hfree.1, Call.on]) (by simp [Call.on]) (h.free_lt hfree),
      hkeys.congr rfl rfl rfl rfl fun _ => id⟩
  | join caller thread number =>
    simp only [Threads.step, ite_none_right_eq_some, some.injEq] at hstep
    obtain ⟨hfree, rfl⟩ := hstep
    split
    · exact ⟨h.setCall (by simp [hfree.1, Call.on]) (by simp [Call.on]) (h.free_lt hfree),
        hkeys.congr rfl rfl rfl rfl fun _ => id⟩
    · exact ⟨h, hkeys⟩
  | detach caller thread =>
    simp only [Threads.step, ite_none_right_eq_some, some.injEq] at hstep
    obtain ⟨hfree, rfl⟩ := hstep
    split
    · rename_i hhandle
      obtain ⟨hwaits, hlate⟩ := hsound hhandle
      refine ⟨h.setCell (fun stage hinv hholds => hinv.detach ?_ fun hbusy => ?_) (h.born _),
        hkeys.setCell id⟩
      · rcases hholds with ⟨hnone, -⟩ | ⟨holder, hstage, hne, -⟩
        · exact .inl hnone
        · have hholder : holder < thThreadMax + 1 := by
            refine h.callers holder fun hidle => hne ?_
            rw [← hstage, hidle]
            rfl
          rw [← hstage]
          exact hwaits holder hholder
      · rcases hlate hbusy with hunfinished | ⟨holder, -, hsome⟩
        · exact .inl hunfinished
        · right
          rw [← (hholds.eq hsome).1]
          exact hsome
    · exact ⟨h, hkeys⟩
  | advance caller ok => exact ⟨h.advance hsound hstep, hkeys.advance hstep⟩
  | keyCreate caller =>
    simp only [Threads.step, ite_none_right_eq_some, some.injEq] at hstep
    obtain ⟨-, rfl⟩ := hstep
    refine ⟨h.congr ?_ ?_, hkeys.keyCreate⟩
    all_goals
      unfold Threads.keyCreate
      split <;> rfl
  | keyDelete caller key =>
    simp only [Threads.step, ite_none_right_eq_some, some.injEq] at hstep
    obtain ⟨-, rfl⟩ := hstep
    unfold Threads.keyDelete
    split
    · exact ⟨h, hkeys⟩
    · exact ⟨h.congr rfl rfl, hkeys.congr rfl rfl rfl rfl fun _ => id⟩
  | setKey caller key value =>
    simp only [Threads.step, ite_none_right_eq_some, some.injEq] at hstep
    obtain ⟨hfree, rfl⟩ := hstep
    refine ⟨h.congr ?_ ?_, hkeys.setKey h hfree hsound⟩
    all_goals
      unfold Threads.setKey
      split
      · rfl
      · split <;> rfl
  | getKey caller key =>
    simp only [Threads.step, ite_none_right_eq_some, some.injEq] at hstep
    obtain ⟨hfree, rfl⟩ := hstep
    exact ⟨h.congr rfl rfl, hkeys.getKey hfree hsound⟩

/-! ### The promise -/

theorem Inv.lifeCycle (h : Inv s) (hkeys : Keys s) : LifeCycle s := by
  refine ⟨fun i => ?_, fun i => ?_, fun i hbusy => ?_, hkeys.fresh, hkeys.kept⟩
  · obtain ⟨stage, hinv, -⟩ := h.cells i
    by_cases hpending : (s.cells i).Pending
    · exact .inr ⟨(hinv.pending hpending).1, hpending, (hinv.pending hpending).2⟩
    · exact .inl (hinv.settled hpending)
  · obtain ⟨stage, hinv, -⟩ := h.cells i
    exact hinv.joined
  · obtain ⟨stage, hinv, hholds⟩ := h.cells i
    cases hfilling : stage.isFilling with
    | false =>
      obtain ⟨-, hjoined, -, hdetached⟩ := hinv.held hbusy hfilling
      refine .inr ⟨hjoined, fun hset => ?_⟩
      by_contra hfinished
      rw [hdetached hfinished] at hset
      cases hset
    | true =>
      left
      rcases hholds with ⟨rfl, -⟩ | ⟨caller, hstage, -, -⟩
      · cases hfilling
      · exact ⟨caller, by rw [hstage]; exact hfilling⟩

/-- In every interleaving whose steps are sound, what the threads are promised holds in every
state. -/
theorem pthread_lifeCycle {s : Threads} (h : (pthreads.within Sound).Reachable s) :
    LifeCycle s := by
  have hall : Inv s ∧ Keys s := by
    refine System.Reachable.invariant (I := fun s => Inv s ∧ Keys s) ?_ ?_ h
    · intro s hs
      rw [show s = .blank from hs]
      exact ⟨inv_blank, keys_blank⟩
    · intro s a s' hs hstep
      exact hs.1.step hs.2 hstep.1 hstep.2
  exact hall.1.lifeCycle hall.2

/-- The steps of a call to `pthread_create` that takes the first slot. -/
def creation (job : Job) : List Action :=
  .create 0 job :: List.replicate 8 (.advance 0 true)

/-- The initial thread creates a thread and joins it once it has returned 5. -/
def joinedRun : List Action :=
  .announce 1 :: creation ⟨7, 1, false⟩ ++
    [.work 1, .work 1, .returns 1 5, .work 1, .work 1, .work 1]
    ++ .join 0 2 0 :: List.replicate 5 (.advance 0 true)

theorem pthread_lifeCycle_joined : ∃ s, LifeCycle s ∧ (s.cells 1).log.joined = [(0, 5)] := by
  have hrun : (System.exec (System.guarded Sound Threads.step) joinedRun .blank).isSome = true := by
    decide +kernel
  obtain ⟨s, hs⟩ := isSome_iff_exists.mp hrun
  refine ⟨s, pthread_lifeCycle (System.reachable_within_of_guarded (.init rfl) hs), ?_⟩
  have hjoined : (System.exec (System.guarded Sound Threads.step) joinedRun .blank).map
      (fun s => (s.cells 1).log.joined) = some [(0, 5)] := by
    decide +kernel
  rw [hs] at hjoined
  exact some.inj hjoined

/-- A detached thread comes and goes; the next thread in its slot is joined before it has even
started. -/
def earlyRun : List Action :=
  .announce 1 :: creation ⟨7, 1, true⟩
    ++ [.work 1, .work 1, .returns 1 5, .work 1, .work 1, .work 1, .work 1]
    ++ creation ⟨8, 2, false⟩ ++ .join 0 2 1 :: List.replicate 5 (.advance 0 true)

/-- The second thread's join returns 0 with the `NULL` that creating it wrote. -/
theorem pthread_join_early : ¬ ∀ s, pthreads.Reachable s → LifeCycle s := by
  intro hall
  have hrun : (System.exec Threads.step earlyRun .blank).map
      (fun s => ((s.cells 1).log.joined, (s.cells 1).log.returned, (s.cells 1).log.entered))
        = some ([(1, 0)], [5], [(7, 1)]) := by
    decide +kernel
  obtain ⟨s, hs, hlogs⟩ := map_eq_some_iff.mp hrun
  obtain ⟨hjoined, hrest⟩ := Prod.mk.inj hlogs
  have hpromised := (hall s (System.reachable_of_exec (.init rfl) hs)).joined 1 (1, 0)
    (by rw [hjoined]; exact mem_singleton.mpr rfl)
  rw [(Prod.mk.inj hrest).1] at hpromised
  cases hpromised

end Thalyx.Native
