/-
Reused threads: `run_start` to `pthread_exit` and the keys of `user/native/src/pthread.c`,
over `th_thread_body`, `th_thread_start` and `th_thread_join` of `thread.c`.

Every load and store of what two threads share is a step of its own, and any thread may take
the next one.  The initial thread is number 0; a built thread is its own number, and calls
only while it runs a routine.  A routine and its argument are numbers, and so is what it
returns; `NULL` is 0.

What a call does with a thread is compared with what happened, so each slot keeps a log of
the threads it was created for.  A handle alone does not say which of them its holder means:
a call to `pthread_join` is also given the thread's place in that log, which nothing the
program does depends on.
-/
import Mathlib.Logic.Function.Basic
import ThalyxKernel.Lib.Run
import ThalyxKernel.Native.Thread

namespace Thalyx.Native

/-! ### State -/

/-- What `pthread_create` is asked for. -/
structure Job where
  start : Nat
  argument : Nat
  detached : Bool
deriving DecidableEq

/-- `th_pthread`. -/
structure Pthread where
  busy : Bool
  detached : Bool
  start : Nat
  argument : Nat
  result : Nat

/-- Where a built thread is in `th_thread_body` and `run_start`. -/
inductive Pc where
  /-- has not yet said that it is there -/
  | unborn
  /-- waits for its work bit -/
  | parked
  /-- has taken its work bit -/
  | woken
  | running
  /-- the routine has returned, or has been left -/
  | storing (value : Nat)
  /-- reads `detached` -/
  | checking
  /-- clears `busy` -/
  | releasing
  /-- raises its done bit -/
  | finishing
deriving DecidableEq

/-- What has happened to the threads a slot was created for, oldest first. -/
structure Log where
  /-- the routines handed over, with their arguments -/
  created : List (Nat × Nat)
  entered : List (Nat × Nat)
  returned : List Nat
  /-- how often the done bit was raised -/
  raised : Nat
  /-- the calls to `pthread_join` that returned 0: which thread was meant, and the result -/
  joined : List (Nat × Nat)

/-- What belongs to one index: its slot, its worker, its two bits and its thread. -/
structure Cell where
  slot : Pthread
  /-- `workers[index].body` is `run_start`, and the argument is the slot -/
  body : Bool
  work : Bool
  done : Bool
  pc : Pc
  log : Log

/-- The steps of `pthread_create` once it has taken a slot. -/
inductive Fill where
  | detached | start | argument | result | worker | raise | undo
deriving DecidableEq

/-- What a call is doing with a slot that it holds. -/
inductive Stage where
  | none
  | filling (job : Job) (next : Fill)
  | waiting (number : Nat)
  | reading (number : Nat)
  | leaving (number value : Nat)
deriving DecidableEq

/-- Where a thread is in a call. -/
inductive Call where
  | idle
  | loading (job : Job)
  | scanning (job : Job) (alive index : Nat)
  /-- `pthread_join` reads `busy`, and then `detached` -/
  | checking (index number : Nat)
  | checked (index number : Nat)
  | engaged (index : Nat) (stage : Stage)
deriving DecidableEq

/-- One call to `pthread_getspecific`: what it read, or `none` outside the table, and whether
the routine now running on the thread had set the key. -/
structure Read where
  thread : Nat
  key : Nat
  value : Option Nat
  own : Bool
deriving DecidableEq

structure Threads where
  /-- `th_threads_alive` -/
  alive : Nat
  cells : Nat → Cell
  calls : Nat → Call
  keyUsed : Nat → Bool
  keyValue : Nat → Nat → Nat
  /-- the program has left its tables or its own stack -/
  lost : Bool
  own : Nat → Nat → Bool
  reads : List Read

def Cell.blank : Cell where
  slot := ⟨false, false, 0, 0, 0⟩
  body := false
  work := false
  done := false
  pc := .unborn
  log := ⟨[], [], [], 0, []⟩

def Threads.blank : Threads where
  alive := 0
  cells := fun _ => .blank
  calls := fun _ => .idle
  keyUsed := fun _ => false
  keyValue := fun _ _ => 0
  lost := false
  own := fun _ _ => false
  reads := []

def Threads.setCell (s : Threads) (index : Nat) (cell : Cell) : Threads :=
  { s with cells := Function.update s.cells index cell }

def Threads.setCall (s : Threads) (caller : Nat) (call : Call) : Threads :=
  { s with calls := Function.update s.calls caller call }

/-- A frame on the thread's stack. -/
def frameOf (thread : Nat) : Nat :=
  if thread = 0 then thStackTop - 8 else (addThread thread).stack - 8

/-- The row of `key_value` the thread uses, if it is in the table. -/
def rowOf (thread : Nat) : Option Nat := tableEntry (frameOf thread)

/-! ### A built thread -/

/-- The step a built thread takes outside its routine.  `run_start` raises no bit where the
thread is detached: the kernel refuses an empty mask. -/
def Cell.work? (cell : Cell) : Option Cell :=
  match cell.pc with
  | .unborn | .running => none
  | .parked => if cell.work then some { cell with work := false, pc := .woken } else none
  | .woken =>
    if cell.body then
      some { cell with
        pc := .running
        log := { cell.log with
          entered := cell.log.entered ++ [(cell.slot.start, cell.slot.argument)] } }
    else some { cell with pc := .finishing }
  | .storing value =>
    some { cell with slot := { cell.slot with result := value }, pc := .checking }
  | .checking => some { cell with pc := if cell.slot.detached then .releasing else .finishing }
  | .releasing =>
    some { cell with slot := { cell.slot with busy := false }, pc := .finishing }
  | .finishing =>
    some { cell with
      done := true, pc := .parked, log := { cell.log with raised := cell.log.raised + 1 } }

/-- The routine returns. -/
def Cell.return? (cell : Cell) (value : Nat) : Option Cell :=
  if cell.pc = .running then
    some { cell with
      pc := .storing value
      log := { cell.log with returned := cell.log.returned ++ [value] } }
  else none

/-! ### The calls -/

/-- One step of `pthread_create` in a slot that it took, and the next, if it has not returned.
`ok` is the kernel's answer to raising the bit. -/
def Cell.fill (cell : Cell) (job : Job) (ok : Bool) : Fill → Cell × Option Fill
  | .detached => ({ cell with slot := { cell.slot with detached := job.detached } }, some .start)
  | .start => ({ cell with slot := { cell.slot with start := job.start } }, some .argument)
  | .argument =>
    ({ cell with slot := { cell.slot with argument := job.argument } }, some .result)
  | .result => ({ cell with slot := { cell.slot with result := 0 } }, some .worker)
  | .worker => ({ cell with body := true }, some .raise)
  | .raise =>
    if ok then
      ({ cell with
        work := true
        log := { cell.log with
          created := cell.log.created ++ [(job.start, job.argument)] } }, none)
    else (cell, some .undo)
  | .undo => ({ cell with slot := { cell.slot with busy := false } }, none)

/-- One step of a call that holds a slot, and what it does next with the slot.  `ok` is the
kernel's answer to waiting; a wait that is granted takes the bit, and blocks without it. -/
def Cell.engaged (cell : Cell) (ok : Bool) : Stage → Option (Cell × Stage)
  | .none => none
  | .filling job next =>
    let (cell, next) := cell.fill job ok next
    some (cell, next.elim .none (.filling job))
  | .waiting number =>
    if ok then
      if cell.done then some ({ cell with done := false }, .reading number) else none
    else some (cell, .none)
  | .reading number => some (cell, .leaving number cell.slot.result)
  | .leaving number value =>
    some ({ cell with
      slot := { cell.slot with busy := false }
      log := { cell.log with joined := cell.log.joined ++ [(number, value)] } }, .none)

/-- The call that holds the slot at this stage. -/
def Call.at (index : Nat) (stage : Stage) : Call :=
  if stage = .none then .idle else .engaged index stage

/-- One step of a call.  `ok` is also whether `pthread_create` may still wait for a thread. -/
def Threads.advance (s : Threads) (caller : Nat) (ok : Bool) : Option Threads :=
  match s.calls caller with
  | .idle => none
  | .loading job => some (s.setCall caller (.scanning job s.alive 1))
  | .scanning job alive index =>
    if index > thThreadMax then some (s.setCall caller (if ok then .loading job else .idle))
    else if alive.testBit index = true ∧ (s.cells index).slot.busy = false then
      let cell := s.cells index
      some ((s.setCell index { cell with slot := { cell.slot with busy := true } }).setCall caller
        (.engaged index (.filling job .detached)))
    else some (s.setCall caller (.scanning job alive (index + 1)))
  | .checking index number =>
    some (s.setCall caller
      (if (s.cells index).slot.busy then .checked index number else .idle))
  | .checked index number =>
    some (s.setCall caller
      (if (s.cells index).slot.detached then .idle else .engaged index (.waiting number)))
  | .engaged index stage =>
    ((s.cells index).engaged ok stage).map fun p =>
      (s.setCell index p.1).setCall caller (.at index p.2)

/-- The thread may make a call. -/
def Threads.free (s : Threads) (thread : Nat) : Prop :=
  s.calls thread = .idle ∧ (thread = 0 ∨ (s.cells thread).pc = .running)

instance (s : Threads) (thread : Nat) : Decidable (s.free thread) :=
  inferInstanceAs (Decidable (_ ∧ _))

/-- `thread < 2 || thread > TH_THREAD_MAX + 1` does not hold. -/
def isHandle (thread : Nat) : Bool := decide (2 ≤ thread ∧ thread ≤ thThreadMax + 1)

/-! ### Keys -/

/-- `TH_KEYS`. -/
def thKeys : Nat := 64

/-- `pthread_key_create`. -/
def Threads.keyCreate (s : Threads) : Threads :=
  match (List.range thKeys).find? fun key => !s.keyUsed key with
  | none => s
  | some key =>
    { s with
      keyUsed := Function.update s.keyUsed key true
      keyValue := fun row =>
        if row ≤ thThreadMax then Function.update (s.keyValue row) key 0 else s.keyValue row
      own := fun thread => Function.update (s.own thread) key false }

/-- `pthread_key_delete`. -/
def Threads.keyDelete (s : Threads) (key : Nat) : Threads :=
  if key ≥ thKeys ∨ s.keyUsed key = false then s
  else { s with keyUsed := Function.update s.keyUsed key false }

/-- `pthread_setspecific`. -/
def Threads.setKey (s : Threads) (thread key value : Nat) : Threads :=
  if key ≥ thKeys ∨ s.keyUsed key = false then s
  else match rowOf thread with
    | none => { s with lost := true }
    | some row =>
      { s with
        keyValue := Function.update s.keyValue row (Function.update (s.keyValue row) key value)
        own := Function.update s.own thread (Function.update (s.own thread) key true) }

/-- `pthread_getspecific`. -/
def Threads.getKey (s : Threads) (thread key : Nat) : Threads :=
  let value :=
    if key ≥ thKeys then some 0 else (rowOf thread).map fun row => s.keyValue row key
  { s with reads := s.reads ++ [⟨thread, key, value, s.own thread key⟩] }

/-! ### Steps -/

inductive Action where
  | announce (index : Nat)
  | work (index : Nat)
  | returns (index value : Nat)
  | exit (index value : Nat)
  | create (caller : Nat) (job : Job)
  | join (caller thread number : Nat)
  | detach (caller thread : Nat)
  | advance (caller : Nat) (ok : Bool)
  | keyCreate (caller : Nat)
  | keyDelete (caller key : Nat)
  | setKey (caller key value : Nat)
  | getKey (caller key : Nat)

/-- `pthread_exit`: it ends the routine of the thread it takes itself for. -/
def Threads.exit (s : Threads) (index value : Nat) : Option Threads :=
  if threadIndex (frameOf index) = index then
    ((s.cells index).return? value).map (s.setCell index)
  else some { s with lost := true }

/-- A routine starts with no key set by itself. -/
def Threads.forget (s : Threads) (index : Nat) : Threads :=
  if (s.cells index).pc = .woken then { s with own := Function.update s.own index fun _ => false }
  else s

def Threads.step (s : Threads) : Action → Option Threads
  | .announce index =>
    if 1 ≤ index ∧ index ≤ thThreadMax ∧ (s.cells index).pc = .unborn then
      some { s.setCell index { s.cells index with pc := .parked } with
        alive := s.alive ||| 1 <<< index }
    else none
  | .work index => ((s.cells index).work?).map ((s.forget index).setCell index)
  | .returns index value =>
    if s.calls index = .idle then ((s.cells index).return? value).map (s.setCell index) else none
  | .exit index value =>
    if s.calls index = .idle ∧ (s.cells index).pc = .running then s.exit index value else none
  | .create caller job => if s.free caller then some (s.setCall caller (.loading job)) else none
  | .join caller thread number =>
    if s.free caller then
      some (if isHandle thread then s.setCall caller (.checking (thread - 1) number) else s)
    else none
  | .detach caller thread =>
    if s.free caller then
      let cell := s.cells (thread - 1)
      some (if isHandle thread then
        s.setCell (thread - 1) { cell with slot := { cell.slot with detached := true } } else s)
    else none
  | .advance caller ok => s.advance caller ok
  | .keyCreate caller => if s.free caller then some s.keyCreate else none
  | .keyDelete caller key => if s.free caller then some (s.keyDelete key) else none
  | .setKey caller key value => if s.free caller then some (s.setKey caller key value) else none
  | .getKey caller key => if s.free caller then some (s.getKey caller key) else none

/-- Any interleaving, from the start of the program. -/
def pthreads : System Threads Action := System.ofStep (fun s => s = .blank) Threads.step

end Thalyx.Native
