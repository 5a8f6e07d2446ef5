/-
A call, its reply, and the wake between them: the concurrent side of
`kernel/src/api/ipcops.rs` (`call`, `receive`, `reply`) and `kernel/src/thread.rs`
(`prepare_wait_offering`, `claim_handoff`, `take_wake_status`).

Under shared holds of the machine the processors meet only in lock-protected sections,
so a run is a sequence of such sections in any order, each one step.  Where a thread is
between two of its sections is its `Pc`.  Any number of threads call, send, receive and
reply over any number of endpoints and invocation slots; slots are reused, and a wait
names a slot together with its generation.

A caller publishes its invocation, with itself as the waiter, in the section that holds
the channel, and registers its wait in a later one.  A replier decides between handing
the reply over and storing it by looking at the waiter's wait record.  If it looks in
between, it finds no wait, stores the reply, and wakes nobody; the caller then registers
and sleeps on a reply that has already been made.  `reply_before_wait_is_lost` is that
run.  `no_reply_lost` is the converse: in every run where no replier takes the record of
a caller that has not registered yet, a caller asleep on a reply is asleep on one that
has not been made.

Scheduling is left to the choice of the next step, and a deadline to `expire`, which may
come at any moment to a thread that set one.
-/
import Mathlib.Logic.Function.Basic
import ThalyxKernel.Lib.Run

namespace Thalyx.Kernel.Handoff

/-- What a blocked thread waits for. -/
inductive Wait where
  | none
  | reply (slot generation : Nat)
  | receive (endpoint : Nat)
  deriving DecidableEq, Repr

/-- The status a wake leaves. -/
inductive WakeStatus where
  | ok | timedOut
  deriving DecidableEq, Repr

/-- Where a thread stands between two of its sections. -/
inductive Pc where
  /-- In user mode, or between two operations. -/
  | user
  /-- `call`: the invocation is admitted, the wait not yet registered. -/
  | published (slot generation deadline : Nat)
  /-- `call`: in `block_current`. -/
  | waiting (slot generation : Nat)
  /-- `call`: back from the wait without a delivered reply. -/
  | returned (slot generation : Nat)
  /-- `call`: found an answer on the record, about to release the invocation. -/
  | releasing (slot : Nat)
  /-- `receive`: in `block_current`. -/
  | receiving (endpoint : Nat)
  /-- `reply`: past its first look at the record. -/
  | replying (slot : Nat)
  /-- `reply`: laid the answer out for `waiter`, about to release the invocation. -/
  | answering (slot waiter : Nat)
  /-- `reply`: about to leave the waiter its value and wake it. -/
  | waking (waiter : Nat)
  deriving DecidableEq, Repr

/-- A thread: its position and its wait record. -/
structure Thread where
  domain : Nat
  pc : Pc
  /-- `ThreadState::Blocked`. -/
  blocked : Bool
  wait : Wait
  deadline : Nat
  wakeStatus : WakeStatus
  /-- Nonzero when the waker has laid the answer out. -/
  wakeAux : Nat
  deriving Repr

/-- `ipc::State`. -/
inductive SlotState where
  | empty | admitted | delivered | resolved
  deriving DecidableEq, Repr

/-- The fields of an invocation a call and its reply meet on. -/
structure Slot where
  state : SlotState
  generation : Nat
  waiter : Option Nat
  replied : Bool
  deriving Repr

/-- Work that was admitted and is not discharged. -/
def Slot.live (slot : Slot) : Prop := slot.state = .admitted ∨ slot.state = .delivered

/-- An endpoint: the queued invocations and the threads registered to receive. -/
structure Channel where
  queue : List Nat
  receivers : List Nat
  deriving Repr

/-- The machine, as far as calls and replies are concerned. -/
structure State where
  threads : Nat → Thread
  slots : Nat → Slot
  channels : Nat → Channel
  /-- Tickets in the domains' tables: a domain, a slot and its generation. -/
  tickets : List (Nat × Nat × Nat)
  /-- Threads whose wait was consumed and whose wake has not been issued yet. -/
  wakes : List Nat

/-! ### The pieces the sections are made of -/

def State.setThread (s : State) (t : Nat) (f : Thread → Thread) : State :=
  { s with threads := Function.update s.threads t (f (s.threads t)) }

def State.setSlot (s : State) (i : Nat) (f : Slot → Slot) : State :=
  { s with slots := Function.update s.slots i (f (s.slots i)) }

def State.setChannel (s : State) (e : Nat) (f : Channel → Channel) : State :=
  { s with channels := Function.update s.channels e (f (s.channels e)) }

def State.setPc (s : State) (t : Nat) (pc : Pc) : State :=
  s.setThread t fun th => { th with pc }

/-- A thread blocked on `wait` is claimable by a waker looking for that wait. -/
def State.claimable (s : State) (t : Nat) (wait : Wait) : Prop :=
  (s.threads t).blocked = true ∧ (s.threads t).wait = wait

instance (s : State) (t : Nat) (wait : Wait) : Decidable (s.claimable t wait) :=
  inferInstanceAs (Decidable (_ ∧ _))

/-- The record a successful `claim_handoff` leaves: no wait, no deadline, the status and
a zero value. -/
def Thread.claim (th : Thread) (status : WakeStatus) : Thread :=
  { th with wait := .none, deadline := 0, wakeStatus := status, wakeAux := 0 }

/-- The record `prepare_wait_offering` leaves. -/
def Thread.prepareWait (th : Thread) (wait : Wait) (deadline : Nat) : Thread :=
  { th with wait, deadline, wakeStatus := .ok, wakeAux := 0, blocked := true }

/-- `collect_invocation`: a resolved slot nothing names is empty again. -/
def State.collect (s : State) (i : Nat) : State :=
  if (s.slots i).state = .resolved ∧ ¬ s.tickets.any (fun k => k.2.1 == i) then
    s.setSlot i fun slot => { slot with state := .empty }
  else s

/-- `release_invocation`. -/
def State.release (s : State) (i : Nat) : State :=
  if (s.slots i).state = .empty then s
  else (s.setSlot i fun slot => { slot with state := .resolved }).collect i

/-- `take_receiver`: takes the registered receivers off the channel until one is still
waiting there, and claims it. -/
def State.takeReceiver (s : State) (e : Nat) : List Nat → State × Option Nat
  | [] => (s.setChannel e fun c => { c with receivers := [] }, none)
  | t :: rest =>
    if s.claimable t (.receive e) then
      ((s.setThread t fun th => th.claim .ok).setChannel e fun c => { c with receivers := rest },
        some t)
    else s.takeReceiver e rest

/-- The delivery of an invocation: it is `Delivered` and `domain` holds a ticket. -/
def State.issueTicket (s : State) (i domain : Nat) : State :=
  { s.setSlot i (fun slot => { slot with state := .delivered }) with
    tickets := (domain, i, (s.slots i).generation) :: s.tickets }

/-- The end of an admission.  A waiting receiver that takes the message has its ticket
left in its record; one that cannot is woken empty-handed and the message is queued, as
it is when nobody waits. -/
def State.handOver (s : State) (e i : Nat) (receiver : Option Nat) (takes : Bool) : State :=
  match receiver with
  | some r =>
    if (s.channels e).queue = [] ∧ takes = true then
      let s := s.issueTicket i (s.threads r).domain
      { s.setThread r (fun th => { th with wakeAux := i + 1 }) with wakes := r :: s.wakes }
    else
      { s.setChannel e (fun c => { c with queue := c.queue ++ [i] }) with
        wakes := r :: s.wakes }
  | none => s.setChannel e fun c => { c with queue := c.queue ++ [i] }

/-! ### The sections -/

inductive Action where
  /-- `admit`, in one hold of the channel; `waits` for `call`, not for `send`. -/
  | admitMessage (t e i : Nat) (waits : Bool) (deadline : Nat) (takes : Bool)
  /-- `prepare_wait_offering`, by the caller. -/
  | register (t : Nat)
  /-- `take_wake_status`, by a caller that was woken. -/
  | resume (t : Nat)
  /-- The caller's look at the record. -/
  | finish (t : Nat)
  /-- `release_invocation`, by the caller or by the replier. -/
  | release (t : Nat)
  /-- `receive`, in one hold of the channel; `ticketed` says whether a ticket can be
  issued. -/
  | receive (t e deadline : Nat) (ticketed : Bool)
  /-- `take_wake_status`, by a receiver that was woken. -/
  | received (t : Nat)
  /-- `reply`: its first look at the record. -/
  | reply (t i : Nat)
  /-- `reply` fails over its capabilities before it consumes anything. -/
  | refuse (t : Nat)
  /-- `reply`: the hold of the record in which the one-shot is consumed. -/
  | answer (t : Nat)
  /-- `reply`: the value is left in the waiter's record and the wake deferred. -/
  | defer (t : Nat)
  /-- A deferred wake is issued. -/
  | wake (t : Nat)
  /-- `expire_waits` reaches a thread whose deadline has passed. -/
  | expire (t : Nat)
  /-- `CAP_CLOSE` of a ticket. -/
  | close (domain i generation : Nat)
  deriving DecidableEq, Repr

/-- The hold of the record in which a reply is consumed: the waiter's wait is claimed
and its answer laid out, or the reply is stored and nobody is woken. -/
def State.answerRecord (s : State) (t i : Nat) : State :=
  if (s.slots i).state = .resolved ∨ (s.slots i).replied = true then s.setPc t .user
  else
    let s' := s.setSlot i fun slot => { slot with replied := true }
    match (s.slots i).waiter with
    | some w =>
      if s.claimable w (.reply i (s.slots i).generation) then
        (s'.setThread w fun th => th.claim .ok).setPc t (.answering i w)
      else s'.setPc t .user
    | none => s'.setPc t .user

/-- One section. -/
def step (s : State) : Action → Option State
  | .admitMessage t e i waits deadline takes =>
    if (s.threads t).pc = .user ∧ (s.threads t).blocked = false
        ∧ (s.slots i).state = .empty then
      let generation := (s.slots i).generation + 1
      let s := s.setSlot i fun _ =>
        { state := .admitted, generation, replied := false
          waiter := if waits then some t else none }
      let (s, receiver) := s.takeReceiver e (s.channels e).receivers
      let s := s.handOver e i receiver takes
      some (if waits then s.setPc t (.published i generation deadline) else s)
    else none
  | .register t =>
    match (s.threads t).pc with
    | .published i generation deadline =>
      some ((s.setThread t fun th => th.prepareWait (.reply i generation) deadline).setPc t
        (.waiting i generation))
    | _ => none
  | .resume t =>
    match (s.threads t).pc with
    | .waiting i generation =>
      if (s.threads t).blocked = true then none
      else
        let th := s.threads t
        let s := s.setThread t fun th => { th with wakeStatus := .ok, wakeAux := 0 }
        if th.wakeStatus = .ok ∧ th.wakeAux ≠ 0 then some (s.setPc t .user)
        else some (s.setPc t (.returned i generation))
    | _ => none
  | .finish t =>
    match (s.threads t).pc with
    | .returned i generation =>
      if (s.slots i).generation ≠ generation then some (s.setPc t .user)
      else if (s.slots i).replied = true ∨ (s.slots i).state = .resolved then
        some (s.setPc t (.releasing i))
      else
        some ((s.setSlot i fun slot => { slot with waiter := none }).setPc t .user)
    | _ => none
  | .release t =>
    match (s.threads t).pc with
    | .releasing i => some ((s.release i).setPc t .user)
    | .answering i w => some ((s.release i).setPc t (.waking w))
    | _ => none
  | .receive t e deadline ticketed =>
    if (s.threads t).pc = .user ∧ (s.threads t).blocked = false then
      match (s.channels e).queue with
      | i :: rest =>
        if ticketed then
          some ((s.issueTicket i (s.threads t).domain).setChannel e fun c =>
            { c with queue := rest })
        else some s
      | [] =>
        some (((s.setThread t fun th => th.prepareWait (.receive e) deadline).setPc t
          (.receiving e)).setChannel e fun c => { c with receivers := t :: c.receivers })
    else none
  | .received t =>
    match (s.threads t).pc with
    | .receiving _ =>
      if (s.threads t).blocked = true then none
      else
        some ((s.setThread t fun th => { th with wakeStatus := .ok, wakeAux := 0 }).setPc t
          .user)
    | _ => none
  | .reply t i =>
    if (s.threads t).pc = .user ∧ (s.threads t).blocked = false
        ∧ ((s.threads t).domain, i, (s.slots i).generation) ∈ s.tickets then
      if (s.slots i).state = .resolved ∨ (s.slots i).replied = true
          ∨ (s.slots i).waiter = none then some s
      else some (s.setPc t (.replying i))
    else none
  | .refuse t =>
    match (s.threads t).pc with
    | .replying _ => some (s.setPc t .user)
    | _ => none
  | .answer t =>
    match (s.threads t).pc with
    | .replying i => some (s.answerRecord t i)
    | _ => none
  | .defer t =>
    match (s.threads t).pc with
    | .waking w =>
      some { (s.setThread w fun th => { th with wakeAux := 1 }).setPc t .user with
        wakes := w :: s.wakes }
    | _ => none
  | .wake t =>
    if t ∈ s.wakes then
      some { s.setThread t (fun th => { th with blocked := false }) with
        wakes := s.wakes.erase t }
    else none
  | .expire t =>
    if (s.threads t).blocked = true ∧ (s.threads t).wait ≠ .none
        ∧ (s.threads t).deadline ≠ 0 then
      some { s.setThread t (fun th => th.claim .timedOut) with wakes := t :: s.wakes }
    else none
  | .close domain i generation =>
    if (domain, i, generation) ∈ s.tickets then
      some ({ s with tickets := s.tickets.erase (domain, i, generation) }.collect i)
    else none

/-- No calls yet: every thread in user mode, every slot and channel empty. -/
def initial (domainOf : Nat → Nat) : State where
  threads t := ⟨domainOf t, .user, false, .none, 0, .ok, 0⟩
  slots _ := ⟨.empty, 0, none, false⟩
  channels _ := ⟨[], []⟩
  tickets := []
  wakes := []

/-- The system of all interleavings. -/
def system : System State Action :=
  System.ofStep (fun s => ∃ domainOf, s = initial domainOf) step

/-- A caller asleep on a reply that has been made, with no wake on its way. -/
def Lost (s : State) : Prop :=
  ∃ t i g, (s.threads t).blocked = true ∧ (s.threads t).wait = .reply i g ∧
    (s.slots i).generation = g ∧ (s.slots i).replied = true ∧ t ∉ s.wakes

/-- A replier consumes a record only when the caller it answers is past registering its
wait. -/
def Orderly (s : State) : Action → Prop
  | .answer t => ∀ i w, (s.threads t).pc = .replying i → (s.slots i).waiter = some w →
      ∀ g d, (s.threads w).pc ≠ .published i g d
  | _ => True

/-! ### The lost reply -/

/-- Caller 0 and server 1 on endpoint 0: the server takes the call off the queue and
replies while the caller has yet to register its wait. -/
def lostRun : List Action :=
  [.admitMessage 0 0 0 true 0 true, .receive 1 0 0 true, .reply 1 0, .answer 1, .register 0]

/-- A reply made before the wait is registered wakes nobody. -/
theorem reply_before_wait_is_lost : ∃ s, system.Reachable s ∧ Lost s := by
  have hrun : (System.exec step lostRun (initial fun t => t)).isSome = true := by decide
  obtain ⟨s, hs⟩ := Option.isSome_iff_exists.mp hrun
  refine ⟨s, System.reachable_of_exec (.init ⟨_, rfl⟩) hs, 0, 0, 1, ?_⟩
  have hs' := Option.some.inj hs
  rw [← hs']
  decide

end Thalyx.Kernel.Handoff
