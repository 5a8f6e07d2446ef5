/-
The native locks: `mutex_acquire`, `cond_wait`, `rw_acquire`, their releases, and the waits
under them (`user/native/src/pthread.c`, `th_wake` and `th_wait_wake` of
`user/native/src/thread.c`).

A thread's step is one atomic access to what the threads share, or a read of the clock; the
steps of the threads come in any order.  The plain accesses to `owner`, `count` and the kind
of a mutex, which no one but the thread that holds it can tell apart from their neighbours,
are made in one step with each other; those to a reader-writer lock, which its guard
protects, are steps of their own.

`Pc.go` is the code, one line for one place in it: which access is made and where the thread
is afterwards.  What a call does when an inner one has returned is its `Cont`.  A slice of a
wait may end at any moment, and a deadline may have passed at any look at the clock.
-/
import Mathlib.Data.Fintype.Fin
import Mathlib.Data.List.FinRange
import Mathlib.Tactic.Simps.Basic
import ThalyxKernel.Lib.Run
import ThalyxKernel.Native.Thread

namespace Thalyx.Native

namespace Locks

/-- `th_thread_index`: one of the indices that `th_wake` knows. -/
abbrev Tid : Type := Fin (thThreadMax + 1)

/-- A bit for every thread. -/
abbrev Mask : Type := Tid → Bool

/-- The bits that are set, the lowest first, as `wake_all` goes through them. -/
def Mask.members (mask : Mask) : List Tid :=
  (List.finRange (thThreadMax + 1)).filter fun t => mask t

theorem Mask.mem_members {mask : Mask} {t : Tid} : t ∈ mask.members ↔ mask t = true := by
  simp [Mask.members]

/-- Arithmetic on `unsigned int`. -/
abbrev uintRange : Nat := 0x100000000

/-- Arithmetic on `int`, where it wraps. -/
def toInt (n : Int) : Int := (n + 0x80000000) % 0x100000000 - 0x80000000

inductive Kind where
  | normal | recursive | errorcheck
deriving DecidableEq, Repr

/-- A mutex of the program's, or the guard of a reader-writer lock. -/
inductive MutexId where
  | user (n : Nat)
  | guard (l : Nat)
deriving DecidableEq, Repr

/-- What has a sequence that is watched: a condition, or a reader-writer lock. -/
inductive Watch where
  | cond (c : Nat)
  | rw (l : Nat)
deriving DecidableEq, Repr

/-- What has a mask of waiters. -/
inductive Waited where
  | mutex (m : MutexId)
  | watch (w : Watch)
deriving DecidableEq, Repr

/-- How a lock is asked for: with no deadline, with one, or without waiting. -/
inductive Mode where
  | plain | timed | onlyTry
deriving DecidableEq, Repr

/-- `th_mutex`, without its mask and its kind. -/
structure Mutex where
  lock : Nat
  count : Nat
  owner : Nat
deriving DecidableEq, Repr

/-- What a reader-writer lock has besides its guard, its sequence and its mask. -/
structure Rwlock where
  readers : Int
  writer : Nat
deriving DecidableEq, Repr

/-- Who waits for a sequence to move: `cond_wait`, or `rw_acquire`. -/
inductive Waiter where
  | cond (c : Nat) (m : MutexId) (timed : Bool)
  | rw (l : Nat) (exclusive : Bool) (mode : Mode)
deriving DecidableEq, Repr

namespace Waiter

def watch : Waiter → Watch
  | .cond c _ _ => .cond c
  | .rw l _ _ => .rw l

def timed : Waiter → Bool
  | .cond _ _ timed => timed
  | .rw _ _ mode => mode = .timed

end Waiter

/-- What a thread does when an inner call has returned. -/
inductive Cont where
  /-- The call was the program's own. -/
  | ret
  /-- `cond_wait`, with its mutex locked again. -/
  | condDone (m : MutexId)
  /-- `cond_wait` with its mutex unlocked, or `rw_acquire` with the guard unlocked. -/
  | watch (a : Waiter) (seen : Nat)
  /-- `rw_acquire`, with the guard locked. -/
  | rwCheck (l : Nat) (exclusive : Bool) (mode : Mode)
  /-- `pthread_rwlock_unlock`, with the guard locked. -/
  | rwRead (l : Nat)
  /-- `pthread_rwlock_unlock`, with the guard unlocked again. -/
  | wake (waiting : List Tid)
deriving DecidableEq, Repr

/-- Where a thread is: between its calls, or before the access that is named. -/
inductive Pc where
  | idle
  /- `mutex_acquire` -/
  | ownerCheck (m : MutexId) (mode : Mode) (k : Cont)
  | spinning (m : MutexId) (mode : Mode) (spin : Nat) (k : Cont)
  | enrolling (m : MutexId) (mode : Mode) (spin : Nat) (k : Cont)
  | retrying (m : MutexId) (mode : Mode) (spin : Nat) (k : Cont)
  | unenrolling (m : MutexId) (k : Cont)
  /-- In `wait_slice`, for a mutex. -/
  | sleeping (m : MutexId) (mode : Mode) (spin : Nat) (k : Cont)
  | woken (m : MutexId) (mode : Mode) (spin : Nat) (k : Cont)
  | acquired (m : MutexId) (k : Cont)
  /- `pthread_mutex_unlock` -/
  | unlocking (m : MutexId) (k : Cont)
  | releasing (m : MutexId) (k : Cont)
  | released (m : MutexId) (k : Cont)
  /-- In `wake_all`. -/
  | waking (waiting : List Tid) (k : Cont)
  /- `cond_wait`, and the loop it shares with `rw_acquire` -/
  | condSeeing (c : Nat) (m : MutexId) (timed : Bool)
  | condJoining (c : Nat) (m : MutexId) (timed : Bool) (seen : Nat)
  | watching (a : Waiter) (seen : Nat)
  /-- In `wait_slice`, for a sequence. -/
  | dozing (a : Waiter) (seen : Nat)
  | leaving (a : Waiter) (moved : Bool)
  /-- `cond_wait` returns. -/
  | condDone (m : MutexId)
  /- `pthread_cond_signal`, and the end of `pthread_rwlock_unlock` -/
  | signalling (w : Watch)
  | signalled (w : Watch)
  /- `rw_acquire` -/
  | rwCheck (l : Nat) (exclusive : Bool) (mode : Mode)
  | rwTaking (l : Nat) (exclusive : Bool) (readers : Int)
  | rwSeeing (l : Nat) (exclusive : Bool) (mode : Mode)
  | rwJoining (l : Nat) (exclusive : Bool) (mode : Mode) (seen : Nat)
  /- `pthread_rwlock_unlock` -/
  | rwReading (l : Nat)
  | rwGiving (l : Nat) (writer : Nat) (readers : Int)
deriving DecidableEq, Repr

/-- One access to what is shared. -/
inductive Act where
  /-- A read, or none. -/
  | look
  /-- `lock` from 0 to 1. -/
  | lock (m : MutexId)
  | own (m : MutexId)
  | nest (m : MutexId)
  | unnest (m : MutexId)
  | disown (m : MutexId)
  /-- `lock` to 0. -/
  | unlock (m : MutexId)
  | join (o : Waited)
  | leave (o : Waited)
  /-- The sequence is counted up. -/
  | advance (w : Watch)
  /-- The thread's wake bit is raised. -/
  | wake (t : Tid)
  /-- The thread's own wake bit ends its wait. -/
  | consume
  | take (l : Nat) (exclusive : Bool) (readers : Int)
  | give (l : Nat) (writer : Nat) (readers : Int)
deriving DecidableEq, Repr

/-- The memory of the locks, the wake bits of the domain's signal, where the threads are, and how
often each has locked what it has not unlocked. -/
structure State where
  mutexes : MutexId → Mutex
  sequence : Watch → Nat
  waiters : Waited → Mask
  rwlocks : Nat → Rwlock
  raised : Mask
  pcs : Tid → Pc
  depth : Tid → MutexId → Nat
  shared : Tid → Nat → Nat
  alone : Tid → Nat → Bool

/-- The kinds of the program's mutexes. -/
def kindOf (kinds : Nat → Kind) : MutexId → Kind
  | .user n => kinds n
  | .guard _ => .normal

/-- After the waiter's loop. -/
def Waiter.after (moved : Bool) : Waiter → Pc
  | .cond _ m _ => .ownerCheck m .plain (.condDone m)
  | .rw l exclusive mode =>
    if moved then .ownerCheck (.guard l) .plain (.rwCheck l exclusive mode) else .idle

/-- After an inner call. -/
def Cont.resume : Cont → Pc
  | .ret => .idle
  | .condDone m => .condDone m
  | .watch (.rw l exclusive .onlyTry) _ => .leaving (.rw l exclusive .onlyTry) false
  | .watch a seen => .watching a seen
  | .rwCheck l exclusive mode => .rwCheck l exclusive mode
  | .rwRead l => .rwReading l
  | .wake waiting => .waking waiting .ret

/-- One round of `wake_all`. -/
def wakeAll (k : Cont) : List Tid → Act × Pc
  | [] => (.look, k.resume)
  | i :: rest => (.wake i, .waking rest k)

/-- After the mask has been read: a reader-writer lock's guard is unlocked before the waiting threads
are woken. -/
def Watch.signalled (waiting : List Tid) : Watch → Pc
  | .cond _ => .waking waiting .ret
  | .rw l => .unlocking (.guard l) (.wake waiting)

/-- The next access of a thread, and where it is then.  `late` is what the clock says: that the
deadline has passed, or the slice of a wait. -/
def Pc.go (kinds : Nat → Kind) (s : State) (t : Tid) (late : Bool) : Pc → Option (Act × Pc)
  | .idle => none
  | .ownerCheck m mode k =>
    if (s.mutexes m).owner = t + 1 ∧ kindOf kinds m = .recursive then some (.nest m, k.resume)
    else if (s.mutexes m).owner = t + 1 ∧ kindOf kinds m = .errorcheck then
      some (.look, k.resume)
    else some (.look, .spinning m mode 0 k)
  | .spinning m mode spin k =>
    if (s.mutexes m).lock = 0 then some (.lock m, .acquired m k)
    else if mode = .onlyTry then some (.look, k.resume)
    else if spin < 64 then some (.look, .spinning m mode ((spin + 1) % uintRange) k)
    else some (.look, .enrolling m mode spin k)
  | .enrolling m mode spin k =>
    if mode = .timed ∧ late then some (.look, k.resume)
    else some (.join (.mutex m), .retrying m mode spin k)
  | .retrying m mode spin k =>
    if (s.mutexes m).lock = 0 then some (.lock m, .unenrolling m k)
    else some (.look, .sleeping m mode spin k)
  | .unenrolling m k => some (.leave (.mutex m), .acquired m k)
  | .sleeping m mode spin k =>
    if late then some (.look, .woken m mode spin k)
    else if s.raised t then some (.consume, .woken m mode spin k)
    else none
  | .woken m mode spin k =>
    some (.leave (.mutex m), .spinning m mode ((spin + 1) % uintRange) k)
  | .acquired m k => some (.own m, k.resume)
  | .unlocking m k =>
    if kindOf kinds m = .errorcheck ∧ (s.mutexes m).owner ≠ t + 1 then some (.look, k.resume)
    else if kindOf kinds m = .recursive ∧ 1 < (s.mutexes m).count then
      some (.unnest m, k.resume)
    else some (.disown m, .releasing m k)
  | .releasing m k => some (.unlock m, .released m k)
  | .released m k => some (.look, .waking (s.waiters (.mutex m)).members k)
  | .waking waiting k => some (wakeAll k waiting)
  | .condSeeing c m timed => some (.look, .condJoining c m timed (s.sequence (.cond c)))
  | .condJoining c m timed seen =>
    some (.join (.watch (.cond c)), .unlocking m (.watch (.cond c m timed) seen))
  | .watching a seen =>
    if s.sequence a.watch ≠ seen then some (.look, .leaving a true)
    else if a.timed ∧ late then some (.look, .leaving a false)
    else some (.look, .dozing a seen)
  | .dozing a seen =>
    if late then some (.look, .watching a seen)
    else if s.raised t then some (.consume, .watching a seen)
    else none
  | .leaving a moved => some (.leave (.watch a.watch), a.after moved)
  | .condDone _ => some (.look, .idle)
  | .signalling w => some (.advance w, .signalled w)
  | .signalled w => some (.look, w.signalled (s.waiters (.watch w)).members)
  | .rwCheck l exclusive mode =>
    if (s.rwlocks l).writer = 0 ∧ (exclusive = true → (s.rwlocks l).readers = 0) then
      some (.look, .rwTaking l exclusive (s.rwlocks l).readers)
    else some (.look, .rwSeeing l exclusive mode)
  | .rwTaking l exclusive readers =>
    some (.take l exclusive readers, .unlocking (.guard l) .ret)
  | .rwSeeing l exclusive mode =>
    some (.look, .rwJoining l exclusive mode (s.sequence (.rw l)))
  | .rwJoining l exclusive mode seen =>
    some (.join (.watch (.rw l)), .unlocking (.guard l) (.watch (.rw l exclusive mode) seen))
  | .rwReading l => some (.look, .rwGiving l (s.rwlocks l).writer (s.rwlocks l).readers)
  | .rwGiving l writer readers => some (.give l writer readers, .signalling (.rw l))

namespace State

@[simps]
def setMutex (s : State) (m : MutexId) (value : Mutex) : State :=
  { s with mutexes := fun m' => if m' = m then value else s.mutexes m' }

@[simps]
def setWaiter (s : State) (o : Waited) (t : Tid) (value : Bool) : State :=
  { s with waiters := fun o' u => if o' = o ∧ u = t then value else s.waiters o' u }

@[simps]
def setSequence (s : State) (w : Watch) (n : Nat) : State :=
  { s with sequence := fun w' => if w' = w then n else s.sequence w' }

@[simps]
def setRwlock (s : State) (l : Nat) (value : Rwlock) : State :=
  { s with rwlocks := fun l' => if l' = l then value else s.rwlocks l' }

@[simps]
def setRaised (s : State) (t : Tid) (value : Bool) : State :=
  { s with raised := fun u => if u = t then value else s.raised u }

@[simps]
def setDepth (s : State) (t : Tid) (m : MutexId) (n : Nat) : State :=
  { s with depth := fun u m' => if u = t ∧ m' = m then n else s.depth u m' }

@[simps]
def setShared (s : State) (t : Tid) (l : Nat) (n : Nat) : State :=
  { s with shared := fun u l' => if u = t ∧ l' = l then n else s.shared u l' }

@[simps]
def setAlone (s : State) (t : Tid) (l : Nat) (value : Bool) : State :=
  { s with alone := fun u l' => if u = t ∧ l' = l then value else s.alone u l' }

/-- What an access does. -/
def perform (s : State) (t : Tid) : Act → State
  | .look => s
  | .lock m => (s.setMutex m { s.mutexes m with lock := 1 }).setDepth t m 1
  | .own m => s.setMutex m { s.mutexes m with owner := t + 1, count := 1 }
  | .nest m =>
    (s.setMutex m { s.mutexes m with count := ((s.mutexes m).count + 1) % uintRange }).setDepth
      t m (s.depth t m + 1)
  | .unnest m =>
    (s.setMutex m { s.mutexes m with count := (s.mutexes m).count - 1 }).setDepth t m
      (s.depth t m - 1)
  | .disown m => s.setMutex m { s.mutexes m with count := 0, owner := 0 }
  | .unlock m => (s.setMutex m { s.mutexes m with lock := 0 }).setDepth t m (s.depth t m - 1)
  | .join o => s.setWaiter o t true
  | .leave o => s.setWaiter o t false
  | .advance w => s.setSequence w ((s.sequence w + 1) % uintRange)
  | .wake i => s.setRaised i true
  | .consume => s.setRaised t false
  | .take l exclusive readers =>
    if exclusive then (s.setRwlock l { s.rwlocks l with writer := 1 }).setAlone t l true
    else
      (s.setRwlock l { s.rwlocks l with readers := toInt (readers + 1) }).setShared t l
        (s.shared t l + 1)
  | .give l writer readers =>
    if writer ≠ 0 then (s.setRwlock l { s.rwlocks l with writer := 0 }).setAlone t l false
    else if 0 < readers then
      (s.setRwlock l { s.rwlocks l with readers := readers - 1 }).setShared t l
        (s.shared t l - 1)
    else s

@[simps]
def move (s : State) (t : Tid) (pc : Pc) : State :=
  { s with pcs := fun u => if u = t then pc else s.pcs u }

end State

/-- A call of the program's. -/
inductive Call where
  /-- `pthread_mutex_lock`, `_trylock`, `_timedlock`, `_clocklock` -/
  | lock (n : Nat) (mode : Mode)
  | unlock (n : Nat)
  /-- `pthread_cond_wait`, `_timedwait`, `_clockwait` -/
  | condWait (c n : Nat) (timed : Bool)
  /-- `pthread_cond_signal`, `_broadcast` -/
  | signal (c : Nat)
  /-- The calls that lock a reader-writer lock. -/
  | rwLock (l : Nat) (exclusive : Bool) (mode : Mode)
  | rwUnlock (l : Nat)
deriving DecidableEq, Repr

/-- Where a call begins. -/
def Call.start : Call → Pc
  | .lock n mode => .ownerCheck (.user n) mode .ret
  | .unlock n => .unlocking (.user n) .ret
  | .condWait c n timed => .condSeeing c (.user n) timed
  | .signal c => .signalling (.cond c)
  | .rwLock l exclusive mode => .ownerCheck (.guard l) .plain (.rwCheck l exclusive mode)
  | .rwUnlock l => .ownerCheck (.guard l) .plain (.rwRead l)

inductive Event where
  | call (t : Tid) (call : Call)
  | go (t : Tid) (late : Bool)
deriving DecidableEq, Repr

namespace State

def step (kinds : Nat → Kind) (s : State) : Event → Option State
  | .call t call => if s.pcs t = .idle then some (s.move t call.start) else none
  | .go t late =>
    ((s.pcs t).go kinds s t late).map fun next => (s.perform t next.1).move t next.2

/-- The zeros of static memory. -/
def zeroed : State where
  mutexes _ := ⟨0, 0, 0⟩
  sequence _ := 0
  waiters _ _ := false
  rwlocks _ := ⟨0, 0⟩
  raised _ := false
  pcs _ := .idle
  depth _ _ := 0
  shared _ _ := 0
  alone _ _ := false

/-- All is as the zeros of static memory leave it. -/
structure Initial (s : State) : Prop where
  mutexes : ∀ m, s.mutexes m = ⟨0, 0, 0⟩
  sequence : ∀ w, s.sequence w = 0
  waiters : ∀ o t, s.waiters o t = false
  rwlocks : ∀ l, s.rwlocks l = ⟨0, 0⟩
  pcs : ∀ t, s.pcs t = .idle
  depth : ∀ t m, s.depth t m = 0
  shared : ∀ t l, s.shared t l = 0
  alone : ∀ t l, s.alone t l = false

/-- The thread holds the reader-writer lock, with others or alone. -/
def HoldsRw (s : State) (t : Tid) (l : Nat) : Prop := s.alone t l = true ∨ 0 < s.shared t l

instance (s : State) (t : Tid) (l : Nat) : Decidable (s.HoldsRw t l) :=
  inferInstanceAs (Decidable (_ ∨ _))

/-- Only a holder unlocks, or waits with the mutex. -/
def Permitted (s : State) : Event → Prop
  | .call t (.unlock n) | .call t (.condWait _ n _) => 0 < s.depth t (.user n)
  | .call t (.rwUnlock l) => s.HoldsRw t l
  | _ => True

instance (s : State) : (event : Event) → Decidable (s.Permitted event)
  | .call t (.unlock n) => inferInstanceAs (Decidable (0 < s.depth t (.user n)))
  | .call t (.condWait _ n _) => inferInstanceAs (Decidable (0 < s.depth t (.user n)))
  | .call t (.rwUnlock l) => inferInstanceAs (Decidable (s.HoldsRw t l))
  | .call _ (.lock _ _) | .call _ (.signal _) | .call _ (.rwLock _ _ _) | .go _ _ => .isTrue trivial

/-- Every run of the threads in which only holders unlock. -/
def locks (kinds : Nat → Kind) : System State Event :=
  (System.ofStep Initial (step kinds)).within Permitted

end State

/-- The counter that the next access counts up has room: `count` can say how deeply a recursive mutex
is locked, and `readers` how many there are. -/
def Pc.HasRoom (kinds : Nat → Kind) (s : State) (t : Tid) : Pc → Prop
  | .ownerCheck m _ _ =>
    (s.mutexes m).owner = t + 1 → kindOf kinds m = .recursive →
      (s.mutexes m).count + 1 < uintRange
  | .rwTaking _ false readers => readers + 1 < 0x80000000
  | _ => True

instance (kinds : Nat → Kind) (s : State) (t : Tid) (pc : Pc) : Decidable (pc.HasRoom kinds s t) := by
  unfold Pc.HasRoom
  split <;> infer_instance

namespace State

def Room (kinds : Nat → Kind) (s : State) : Event → Prop
  | .call _ _ => True
  | .go t _ => (s.pcs t).HasRoom kinds s t

instance (kinds : Nat → Kind) (s : State) : (event : Event) → Decidable (s.Room kinds event)
  | .call _ _ => .isTrue trivial
  | .go t _ => inferInstanceAs (Decidable ((s.pcs t).HasRoom kinds s t))

/-- Every such run in which the counters have room. -/
def roomy (kinds : Nat → Kind) : System State Event :=
  (System.ofStep Initial (step kinds)).within fun s event => s.Permitted event ∧ s.Room kinds event

end State

/-! ### What the locks are for -/

/-- What is left to do of a call, once an inner one has returned, raises the thread's wake bit. -/
def Cont.Raises (k : Cont) (t : Tid) : Prop :=
  match k with
  | .wake waiting => t ∈ waiting
  | _ => False

/-- A thread at this place is between a releasing step, of a mutex or of a sequence, and the step
that raises the other's wake bit. -/
def Pc.Owes (s : State) (t : Tid) : Pc → Prop
  | .released m k => s.waiters (.mutex m) t = true ∨ k.Raises t
  | .signalled w => s.waiters (.watch w) t = true
  | .waking waiting k => t ∈ waiting ∨ k.Raises t
  | .unlocking _ k | .releasing _ k => k.Raises t
  | _ => False

namespace State

/-- The thread's wake bit is raised, or will be by another that is on its way. -/
def Owed (s : State) (t : Tid) : Prop := s.raised t = true ∨ ∃ r, (s.pcs r).Owes s t

/-- **What the locks are for.**  At most one thread holds a mutex; one that holds a reader-writer
lock alone is its only holder; a wait for a condition returns with its mutex held; and no thread
is left asleep, neither for a mutex that is free nor for a sequence that has moved. -/
structure Safe (s : State) : Prop where
  mutex : ∀ {t u m}, 0 < s.depth t m → 0 < s.depth u m → t = u
  rwlock : ∀ {t l}, s.alone t l = true → ∀ u, (s.alone u l = true → u = t) ∧ s.shared u l = 0
  returns : ∀ {t m}, s.pcs t = .condDone m → 0 < s.depth t m
  sleepers : ∀ {t m mode spin k}, s.pcs t = .sleeping m mode spin k → (s.mutexes m).lock = 0 →
    s.Owed t
  watchers : ∀ {t a seen}, s.pcs t = .dozing a seen → s.sequence a.watch ≠ seen → s.Owed t

end State

end Locks

end Thalyx.Native
