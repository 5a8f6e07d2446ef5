/-
Signals, timers and the threads that wait: `kernel/src/api/evtops.rs`.

A wait tests the bits and registers the thread under the machine lock, and a raise takes the
same lock, claims every registered thread that waits for one of the raised bits, and leaves it
to be woken.  The count of waiters is taken under one hold of the lock and given back under
another, once the thread runs again: by the index of the signal's slot, whatever is in the slot
by then.

Timeouts and cancellations take a thread out of its wait without the machine lock.  A scope that
retires empties the slots of the signals and timers it sponsored.
-/
import ThalyxKernel.Lib.Run
import ThalyxKernel.Kernel.Object

namespace Thalyx.Kernel.Events

/-- `Signal`. -/
structure Signal where
  used : Bool
  generation : Nat
  ownerScope : ScopeId
  bits : BitVec 64
  sequence : BitVec 64
  waiters : Nat
  deriving DecidableEq, Repr

/-- `Signal::empty`. -/
def Signal.empty : Signal := ⟨false, 0, 0, 0, 0, 0⟩

/-- `Timer`. -/
structure Timer where
  used : Bool
  generation : Nat
  ownerScope : ScopeId
  signal : SignalId
  signalGeneration : Nat
  bits : BitVec 64
  deadlineNs : Nat
  armed : Bool
  deriving DecidableEq, Repr

/-- `Timer::empty`. -/
def Timer.empty : Timer := ⟨false, 0, 0, 0, 0, 0, 0, false⟩

/-- Where a thread is, as far as signals go. -/
inductive Phase where
  | running
  /-- Blocked on a signal, as of a generation of its slot, for any of a mask of bits. -/
  | blocked (signal : SignalId) (generation : Nat) (mask : BitVec 64)
  /-- Its wait was consumed, with a status, and it still counts as a waiter of the slot. -/
  | woken (signal : SignalId) (status : Status)
  | gone
  deriving DecidableEq, Repr

/-- The tables of signals and timers, and the threads. -/
structure State (τ : Type) where
  signals : SignalId → Signal
  timers : TimerId → Timer
  threads : τ → Phase

/-- What an operation answers, if it comes to that. -/
inductive Answer where
  | returned (value : BitVec 64)
  | refused (status : Status)
  | silent
  deriving DecidableEq, Repr

variable {τ : Type}

namespace State

/-- `object_alive` of a signal. -/
def alive (s : State τ) (i : SignalId) (generation : Nat) : Bool :=
  (s.signals i).used && (s.signals i).generation == generation

def setSignal (s : State τ) (i : SignalId) (signal : Signal) : State τ :=
  { s with signals := Function.update s.signals i signal }

/-! ### Raising -/

/-- What a raise does to one thread. -/
def claim (i : SignalId) (generation : Nat) (bits : BitVec 64) : Phase → Phase
  | .blocked j g mask =>
    if j = i ∧ g = generation ∧ mask &&& bits ≠ 0 then .woken i .ok else .blocked j g mask
  | phase => phase

/-- `raise_bits`. -/
def raiseBits (s : State τ) (i : SignalId) (generation : Nat) (bits : BitVec 64) :
    State τ :=
  let signal := s.signals i
  if !signal.used ∨ signal.generation ≠ generation then s
  else
    let s := s.setSignal i
      { signal with bits := signal.bits ||| bits, sequence := signal.sequence + 1 }
    if signal.waiters = 0 then s
    else { s with threads := fun t => claim i generation bits (s.threads t) }

/-- One turn of `expire`. -/
def expireOne (now : Nat) (s : State τ) (k : TimerId) : State τ :=
  let timer := s.timers k
  if !timer.used ∨ !timer.armed ∨ now < timer.deadlineNs then s
  else
    { s with timers := Function.update s.timers k { timer with armed := false } }.raiseBits
      timer.signal timer.signalGeneration timer.bits

/-- `expire`. -/
def expire (s : State τ) (now : Nat) : State τ :=
  (List.finRange maxTimers).foldl (expireOne now) s

/-- `on_interrupt`, for the signals that the bindings of the vector name. -/
def onInterrupt (s : State τ) (bindings : List (SignalId × Nat × BitVec 64)) : State τ :=
  bindings.foldl (fun s b => s.raiseBits b.1 b.2.1 b.2.2) s

/-! ### Waiting -/

variable [DecidableEq τ]

def setThread (s : State τ) (t : τ) (phase : Phase) : State τ :=
  { s with threads := Function.update s.threads t phase }

/-- `wait`, up to where the thread blocks.  A count that cannot go up stops the kernel. -/
def wait (s : State τ) (t : τ) (capability : Except Status (SignalId × Nat))
    (bits : BitVec 64) (nonblocking : Bool) : Option (State τ × Answer) :=
  if bits = 0 then some (s, .refused .invalidArgument)
  else match capability with
  | .error status => some (s, .refused status)
  | .ok (i, generation) =>
    if !s.alive i generation then some (s, .refused .peerDead)
    else
      let signal := s.signals i
      let observed := signal.bits &&& bits
      if observed ≠ 0 then
        some (s.setSignal i { signal with bits := signal.bits &&& ~~~observed },
          .returned observed)
      else if nonblocking then some (s, .refused .wouldBlock)
      else if signal.waiters + 1 < 2 ^ 32 then
        some ((s.setThread t (.blocked i generation bits)).setSignal i
          { signal with waiters := signal.waiters + 1 }, .silent)
      else none

/-- `wait`, after `block_current`: the count is given back by the slot's index. -/
def settle (s : State τ) (t : τ) (i : SignalId) : State τ :=
  let s := s.setThread t .running
  if (s.signals i).used then
    s.setSignal i { s.signals i with waiters := (s.signals i).waiters - 1 }
  else s

end State

/-! ### Objects that come and go -/

/-- The first slot that is free. -/
def State.freeSignal (s : State τ) : Option (SignalId) :=
  (List.finRange maxSignals).find? fun i => !(s.signals i).used

/-- `create_signal`, once the scope has sponsored it. -/
def State.createSignal (s : State τ) (sponsor : ScopeId) : State τ × Answer :=
  match s.freeSignal with
  | none => (s, .refused .limitExhausted)
  | some i =>
    (s.setSignal i
      { used := true
        generation := min ((s.signals i).generation + 1) u32Max
        ownerScope := sponsor, bits := 0, sequence := 0, waiters := 0 }, .silent)

/-- `create_timer`, once the signal's handle has resolved and the scope has sponsored it. -/
def State.createTimer (s : State τ) (sponsor : ScopeId) (i : SignalId) (generation : Nat)
    (bits : BitVec 64) : State τ × Answer :=
  if !s.alive i generation then (s, .refused .peerDead)
  else if bits = 0 then (s, .refused .invalidArgument)
  else match (List.finRange maxTimers).find? fun k => !(s.timers k).used with
  | none => (s, .refused .limitExhausted)
  | some k =>
    ({ s with
        timers := Function.update s.timers k
          { used := true
            generation := min ((s.timers k).generation + 1) u32Max
            ownerScope := sponsor, signal := i, signalGeneration := generation, bits
            deadlineNs := 0, armed := false } }, .silent)

/-- `release_sponsored`, of the scopes that are within the root. -/
def State.releaseSponsored (s : State τ) (within : ScopeId → Bool) : State τ :=
  { s with
    signals := fun i =>
      if (s.signals i).used && within (s.signals i).ownerScope then
        { Signal.empty with generation := (s.signals i).generation }
      else s.signals i
    timers := fun k =>
      if (s.timers k).used && within (s.timers k).ownerScope then
        { Timer.empty with generation := (s.timers k).generation }
      else s.timers k }

/-! ### Runs -/

/-- One thing that happens. -/
inductive Act (τ : Type) where
  | createSignal (sponsor : ScopeId)
  | createTimer (sponsor : ScopeId) (signal : SignalId) (generation : Nat) (bits : BitVec 64)
  | arm (timer : TimerId) (deadlineNs : Nat)
  | cancel (timer : TimerId)
  | raise (signal : SignalId) (generation : Nat) (bits : BitVec 64)
  | expire (now : Nat)
  | interrupt (bindings : List (SignalId × Nat × BitVec 64))
  | wait (t : τ) (capability : Except Status (SignalId × Nat)) (bits : BitVec 64)
      (nonblocking : Bool)
  /-- A deadline passes, or a fence cancels the wait. -/
  | giveUp (t : τ) (status : Status)
  /-- A woken thread takes the machine lock again. -/
  | settle (t : τ)
  /-- The thread's domain is terminated. -/
  | stop (t : τ)
  | start (t : τ)
  | retire (within : ScopeId → Bool)

variable [DecidableEq τ]

/-- What an act leaves and answers, where it can happen at all. -/
def perform (s : State τ) : Act τ → Option (State τ × Answer)
  | .createSignal sponsor => some (s.createSignal sponsor)
  | .createTimer sponsor i generation bits => some (s.createTimer sponsor i generation bits)
  | .arm k deadlineNs =>
    if deadlineNs = 0 then some (s, .refused .invalidArgument)
    else some ({ s with
      timers := Function.update s.timers k { s.timers k with deadlineNs, armed := true } },
      .silent)
  | .cancel k =>
    some ({ s with
      timers := Function.update s.timers k
        { s.timers k with deadlineNs := 0, armed := false } }, .silent)
  | .raise i generation bits =>
    if !s.alive i generation then some (s, .refused .peerDead)
    else if bits = 0 then some (s, .refused .invalidArgument)
    else
      let s := s.raiseBits i (s.signals i).generation bits
      some (s, .returned (s.signals i).sequence)
  | .expire now => some (s.expire now, .silent)
  | .interrupt bindings => some (s.onInterrupt bindings, .silent)
  | .wait t capability bits nonblocking =>
    match s.threads t with
    | .running => s.wait t capability bits nonblocking
    | _ => none
  | .giveUp t status =>
    match s.threads t with
    | .blocked i _ _ => some (s.setThread t (.woken i status), .silent)
    | _ => none
  | .settle t =>
    match s.threads t with
    | .woken i status =>
      some (s.settle t i, if status = .ok then .silent else .refused status)
    | _ => none
  | .stop t => some (s.setThread t .gone, .silent)
  | .start t =>
    match s.threads t with
    | .gone => some (s.setThread t .running, .silent)
    | _ => none
  | .retire within => some (s.releaseSponsored within, .silent)

/-- Tables as the kernel starts with them, and no thread in a wait. -/
structure Fresh (s : State τ) : Prop where
  signals : ∀ i, s.signals i = .empty
  timers : ∀ k, s.timers k = .empty
  threads : ∀ t, s.threads t = .running ∨ s.threads t = .gone

/-- The signals of the machine. -/
def machine : System (State τ) (Act τ) :=
  .ofStep Fresh fun s act => (perform s act).map Prod.fst

end Thalyx.Kernel.Events
