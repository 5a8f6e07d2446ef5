/-
What the places in the code of the locks mean, and what a step leads from one to another.

A place says which mutex its thread counts on, whether it has that mutex without being its
owner, which mask holds the thread's bit, and which reader-writer lock the thread is about
to unlock; what is left to do of an outer call says the same for later.  Every lemma about
`Pc.go` is one case a place.  `Moves` is what they come to: what an invariant has to know
of a step, whether it goes on with a call or begins one.
-/
import ThalyxKernel.Native.Locks.Model

namespace Thalyx.Native

namespace Locks

/-- The mutex that what is left to do of a call counts on. -/
def Cont.held : Cont → Option MutexId
  | .condDone m => some m
  | .rwCheck l _ _ | .rwRead l => some (.guard l)
  | _ => none

/-- The mask that what is left to do of a call takes the thread's bit out of. -/
def Cont.enrolled : Cont → Option Waited
  | .watch a _ => some (.watch a.watch)
  | _ => none

/-- The guard of what is watched. -/
def Watch.guard : Watch → Option MutexId
  | .cond _ => none
  | .rw l => some (.guard l)

/-- The mutex the thread holds, where the code counts on it. -/
def Pc.held : Pc → Option MutexId
  | .unenrolling m _ | .acquired m _ | .unlocking m _ | .releasing m _ => some m
  | .condSeeing _ m _ | .condJoining _ m _ _ | .condDone m => some m
  | .signalling w | .signalled w => w.guard
  | .rwCheck l _ _ | .rwTaking l _ _ | .rwSeeing l _ _ | .rwJoining l _ _ _ => some (.guard l)
  | .rwReading l | .rwGiving l _ _ => some (.guard l)
  | _ => none

/-- The mutex whose `lock` the thread has set without its `owner`. -/
def Pc.hands : Pc → Option MutexId
  | .unenrolling m _ | .acquired m _ | .releasing m _ => some m
  | _ => none

/-- The mask that holds the thread's bit. -/
def Pc.enrolled : Pc → Option Waited
  | .retrying m _ _ _ | .unenrolling m _ | .sleeping m _ _ _ | .woken m _ _ _ => some (.mutex m)
  | .unlocking _ k | .releasing _ k | .released _ k | .waking _ k => k.enrolled
  | .watching a _ | .dozing a _ | .leaving a _ => some (.watch a.watch)
  | _ => none

/-- The reader-writer lock that what is left to do of a call unlocks. -/
def Cont.unlocks : Cont → Option Nat
  | .rwRead l => some l
  | _ => none

/-- The reader-writer lock the thread is about to unlock. -/
def Pc.unlocks : Pc → Option Nat
  | .ownerCheck _ _ k | .spinning _ _ _ k | .enrolling _ _ _ k | .retrying _ _ _ k => k.unlocks
  | .unenrolling _ k | .sleeping _ _ _ k | .woken _ _ _ k | .acquired _ k => k.unlocks
  | .rwReading l | .rwGiving l _ _ => some l
  | _ => none

/-- A place that only a look of the thread's own leads to. -/
def Pc.looked : Pc → Bool
  | .sleeping _ _ _ _ | .dozing _ _ | .rwTaking _ _ _ | .rwGiving _ _ _ => true
  | _ => false

/-- A mutex is locked for the program, or for what counts on it and then without a deadline. -/
def Cont.Fits (k : Cont) (m : MutexId) (mode : Mode) : Prop :=
  k.enrolled = none ∧ ∀ m', k.held = some m' → m' = m ∧ mode = .plain

/-- What is left to do fits the place. -/
def Pc.Wf : Pc → Prop
  | .ownerCheck m mode k | .spinning m mode _ k | .enrolling m mode _ k => k.Fits m mode
  | .retrying m mode _ k | .sleeping m mode _ k | .woken m mode _ k => k.Fits m mode
  | .unenrolling m k | .acquired m k => k.Fits m .plain
  | .unlocking _ k | .releasing _ k | .released _ k | .waking _ k => k.held = none
  | _ => True

/-- The mutex whose fields an access writes. -/
def Act.on : Act → Option MutexId
  | .lock m | .own m | .nest m | .unnest m | .disown m | .unlock m => some m
  | _ => none

/-- The reader-writer lock whose fields an access writes. -/
def Act.onRw : Act → Option Nat
  | .take l _ _ | .give l _ _ => some l
  | _ => none

/-! ### After an inner call, and after a wait -/

namespace Cont

theorem resume_place (k : Cont) : k.resume.held = k.held ∧ k.resume.enrolled = k.enrolled ∧
    k.resume.hands = none ∧ k.resume.unlocks = k.unlocks ∧ k.resume.looked = false ∧
    k.resume.Wf := by
  fun_cases Cont.resume k <;>
    refine ⟨rfl, rfl, rfl, rfl, rfl, ?_⟩ <;>
    trivial

@[simp, grind =]
theorem resume_held (k : Cont) : k.resume.held = k.held := k.resume_place.1

@[simp, grind =]
theorem resume_enrolled (k : Cont) : k.resume.enrolled = k.enrolled := k.resume_place.2.1

@[simp, grind =]
theorem resume_hands (k : Cont) : k.resume.hands = none := k.resume_place.2.2.1

@[simp, grind =]
theorem resume_unlocks (k : Cont) : k.resume.unlocks = k.unlocks := k.resume_place.2.2.2.1

@[simp, grind =]
theorem resume_looked (k : Cont) : k.resume.looked = false := k.resume_place.2.2.2.2.1

theorem resume_wf (k : Cont) : k.resume.Wf := k.resume_place.2.2.2.2.2

@[simp, grind =]
theorem resume_owes (s : State) (u : Tid) (k : Cont) : k.resume.Owes s u ↔ k.Raises u := by
  fun_cases Cont.resume k <;> simp [Pc.Owes, Cont.Raises]

theorem held_of_unlocks {k : Cont} {l : Nat} (h : k.unlocks = some l) :
    k.held = some (.guard l) := by
  cases k with
  | rwRead l' =>
    obtain rfl : l' = l := by simpa [Cont.unlocks] using h
    rfl
  | _ => simp [Cont.unlocks] at h

end Cont

namespace Waiter

theorem after_place (a : Waiter) (moved : Bool) : (a.after moved).held = none ∧
    (a.after moved).hands = none ∧ (a.after moved).enrolled = none ∧
    (a.after moved).unlocks = none ∧ (a.after moved).looked = false ∧ (a.after moved).Wf := by
  fun_cases Waiter.after moved a <;>
    refine ⟨rfl, rfl, rfl, rfl, rfl, ?_⟩ <;>
    simp [Pc.Wf, Cont.Fits, Cont.held, Cont.enrolled]

@[simp, grind =]
theorem after_held (a : Waiter) (moved : Bool) : (a.after moved).held = none :=
  (a.after_place moved).1

@[simp, grind =]
theorem after_hands (a : Waiter) (moved : Bool) : (a.after moved).hands = none :=
  (a.after_place moved).2.1

@[simp, grind =]
theorem after_enrolled (a : Waiter) (moved : Bool) : (a.after moved).enrolled = none :=
  (a.after_place moved).2.2.1

@[simp, grind =]
theorem after_unlocks (a : Waiter) (moved : Bool) : (a.after moved).unlocks = none :=
  (a.after_place moved).2.2.2.1

@[simp, grind =]
theorem after_looked (a : Waiter) (moved : Bool) : (a.after moved).looked = false :=
  (a.after_place moved).2.2.2.2.1

theorem after_wf (a : Waiter) (moved : Bool) : (a.after moved).Wf :=
  (a.after_place moved).2.2.2.2.2

end Waiter

namespace Pc

variable {kinds : Nat → Kind} {s : State} {t : Tid} {late : Bool} {pc pc' : Pc} {act : Act}
variable {m : MutexId} {l : Nat}

attribute [local grind =] wakeAll.eq_def Watch.signalled.eq_def

theorem hands_held (h : pc.hands = some m) : pc.held = some m := by
  cases pc <;> grind [Pc.hands, Pc.held]

/-! ### What a place keeps of the one before -/

theorem go_wf (hwf : pc.Wf) (h : pc.go kinds s t late = some (act, pc')) : pc'.Wf := by
  cases pc <;> simp only [Pc.go] at h <;>
    grind [Pc.Wf, Cont.resume_wf, Waiter.after_wf, Cont.Fits, Cont.held]

theorem go_held (hwf : pc.Wf) (h : pc.go kinds s t late = some (act, pc'))
    (hm : pc'.held = some m) :
    act = .lock m ∨ ((pc.held = some m ∨ (s.mutexes m).owner = t + 1) ∧
      act ≠ .unnest m ∧ act ≠ .unlock m) := by
  cases pc <;> simp only [Pc.go] at h <;> grind [Pc.Wf, Pc.held, Watch.guard, Cont.Fits]

theorem go_hands (h : pc.go kinds s t late = some (act, pc')) (hon : act.on ≠ some m) :
    pc'.hands = some m ↔ pc.hands = some m := by
  cases pc <;> simp only [Pc.go] at h <;> grind [Pc.hands, Act.on]

theorem go_enrolled {o : Waited} (hwf : pc.Wf) (h : pc.go kinds s t late = some (act, pc'))
    (ho : pc'.enrolled = some o) :
    act = .join o ∨ (pc.enrolled = some o ∧ ∀ o', act ≠ .leave o') := by
  cases pc <;> simp only [Pc.go] at h <;>
    grind [Pc.Wf, Pc.enrolled, Cont.Fits, Cont.enrolled, Waiter.watch]

theorem go_unlocks (hwf : pc.Wf) (h : pc.go kinds s t late = some (act, pc'))
    (hl : pc'.unlocks = some l) : pc.unlocks = some l ∧ ∀ l', act.onRw ≠ some l' := by
  cases pc <;> simp only [Pc.go] at h <;>
    grind [Pc.Wf, Pc.unlocks, → Cont.held_of_unlocks, Act.onRw]

theorem go_owes {u : Tid} (h : pc.go kinds s t late = some (act, pc')) (ho : pc.Owes s u) :
    act = .wake u ∨ pc'.Owes s u := by
  cases pc <;> simp only [Pc.go] at h <;> grind [Pc.Owes, Cont.Raises, Mask.mem_members]

/-! ### The accesses that write -/

theorem go_lock (h : pc.go kinds s t late = some (.lock m, pc')) :
    (s.mutexes m).lock = 0 ∧ pc'.hands = some m := by
  cases pc <;> simp only [Pc.go] at h <;> grind [Pc.hands]

theorem go_own (h : pc.go kinds s t late = some (.own m, pc')) :
    pc.hands = some m ∧ pc'.hands = none := by
  cases pc <;> simp only [Pc.go] at h <;> grind [Pc.hands]

theorem go_nest (h : pc.go kinds s t late = some (.nest m, pc')) :
    (∃ mode k, pc = .ownerCheck m mode k) ∧ (s.mutexes m).owner = t + 1 ∧
      kindOf kinds m = .recursive ∧ pc'.hands = none := by
  cases pc with
  | ownerCheck m' mode k =>
    simp only [Pc.go] at h
    refine ⟨⟨mode, k, ?_⟩, ?_⟩ <;> grind
  | _ =>
    simp only [Pc.go] at h
    grind

theorem go_unnest (h : pc.go kinds s t late = some (.unnest m, pc')) :
    pc.held = some m ∧ pc.hands = none ∧ 1 < (s.mutexes m).count ∧
      kindOf kinds m = .recursive ∧ pc'.hands = none := by
  cases pc <;> simp only [Pc.go] at h <;> grind [Pc.hands, Pc.held]

theorem go_disown (h : pc.go kinds s t late = some (.disown m, pc')) :
    pc.held = some m ∧ pc.hands = none ∧
      ¬ (kindOf kinds m = .recursive ∧ 1 < (s.mutexes m).count) ∧ pc'.hands = some m := by
  cases pc <;> simp only [Pc.go] at h <;> grind [Pc.hands, Pc.held]

theorem go_unlock (h : pc.go kinds s t late = some (.unlock m, pc')) :
    pc.hands = some m ∧ pc'.hands = none ∧ ∃ k, pc' = .released m k := by
  cases pc <;> simp only [Pc.go] at h <;> grind [Pc.hands]

theorem go_advance {w : Watch} (h : pc.go kinds s t late = some (.advance w, pc')) :
    pc' = .signalled w := by
  cases pc <;> simp only [Pc.go] at h <;> grind

variable {exclusive : Bool} {readers : Int}

theorem go_take (h : pc.go kinds s t late = some (.take l exclusive readers, pc')) :
    pc = .rwTaking l exclusive readers := by
  cases pc <;> simp only [Pc.go] at h <;> grind

theorem go_give {writer : Nat} (h : pc.go kinds s t late = some (.give l writer readers, pc')) :
    pc = .rwGiving l writer readers := by
  cases pc <;> simp only [Pc.go] at h <;> grind

theorem held_of_onRw (h : pc.go kinds s t late = some (act, pc')) (hon : act.onRw = some l) :
    pc.held = some (.guard l) := by
  cases act with
  | take l' exclusive readers =>
    obtain rfl : l' = l := by simpa [Act.onRw] using hon
    rw [go_take h]
    rfl
  | give l' writer readers =>
    obtain rfl : l' = l := by simpa [Act.onRw] using hon
    rw [go_give h]
    rfl
  | _ => simp [Act.onRw] at hon

/-! ### What was seen on the way to a place -/

theorem go_sleeping {mode : Mode} {spin : Nat} {k : Cont}
    (h : pc.go kinds s t late = some (act, .sleeping m mode spin k)) :
    act = .look ∧ (s.mutexes m).lock ≠ 0 := by
  have hlooked : (Pc.sleeping m mode spin k).looked = true := rfl
  cases pc <;> simp only [Pc.go] at h <;> grind

theorem go_dozing {a : Waiter} {seen : Nat}
    (h : pc.go kinds s t late = some (act, .dozing a seen)) :
    act = .look ∧ s.sequence a.watch = seen := by
  have hlooked : (Pc.dozing a seen).looked = true := rfl
  cases pc <;> simp only [Pc.go] at h <;> grind

theorem go_rwTaking (h : pc.go kinds s t late = some (act, .rwTaking l exclusive readers)) :
    act = .look ∧ (s.rwlocks l).writer = 0 ∧ (exclusive = true → readers = 0) ∧
      readers = (s.rwlocks l).readers := by
  have hlooked : (Pc.rwTaking l exclusive readers).looked = true := rfl
  cases pc <;> simp only [Pc.go] at h <;> grind

theorem go_rwGiving {writer : Nat}
    (h : pc.go kinds s t late = some (act, .rwGiving l writer readers)) :
    act = .look ∧ writer = (s.rwlocks l).writer ∧ readers = (s.rwlocks l).readers := by
  have hlooked : (Pc.rwGiving l writer readers).looked = true := rfl
  cases pc <;> simp only [Pc.go] at h <;> grind

end Pc

/-! ### Where a call begins -/

namespace Call

variable {s : State} {t : Tid} {call : Call}

theorem start_wf (call : Call) : call.start.Wf := by
  cases call <;> simp [Call.start, Pc.Wf, Cont.Fits, Cont.held, Cont.enrolled]

theorem start_hands (call : Call) : call.start.hands = none := by
  cases call <;> rfl

theorem start_enrolled (call : Call) : call.start.enrolled = none := by
  cases call <;> rfl

theorem start_looked (call : Call) : call.start.looked = false := by
  cases call <;> rfl

theorem start_held {m : MutexId} (hok : s.Permitted (.call t call))
    (hm : call.start.held = some m) : 0 < s.depth t m := by
  cases call <;> simp_all [Call.start, Pc.held, State.Permitted, Watch.guard]

theorem start_unlocks {l : Nat} (hok : s.Permitted (.call t call))
    (hl : call.start.unlocks = some l) : s.HoldsRw t l := by
  cases call <;> simp_all [Call.start, Pc.unlocks, Cont.unlocks, State.Permitted]

end Call

/-! ### A step of a thread -/

namespace State

/-- What an invariant has to know of a step: the thread makes this access and is at this place
then. -/
structure Moves (s : State) (t : Tid) (act : Act) (pc' : Pc) : Prop where
  wf : pc'.Wf
  held : ∀ m, pc'.held = some m →
    act = .lock m ∨ (0 < s.depth t m ∧ act ≠ .unnest m ∧ act ≠ .unlock m)
  hands : ∀ m, act.on ≠ some m → (pc'.hands = some m ↔ (s.pcs t).hands = some m)
  enrolled : ∀ o, pc'.enrolled = some o →
    act = .join o ∨ ((s.pcs t).enrolled = some o ∧ ∀ o', act ≠ .leave o')
  owes : ∀ u, (s.pcs t).Owes s u → act = .wake u ∨ pc'.Owes s u
  unlocks : ∀ l, pc'.unlocks = some l → s.HoldsRw t l ∧ act.onRw ≠ some l
  onRw : ∀ l, act.onRw = some l → 0 < s.depth t (.guard l)
  released : ∀ m, act = .unlock m → ∃ k, pc' = .released m k
  signalled : ∀ w, act = .advance w → pc' = .signalled w
  sleeping : ∀ {m mode spin k}, pc' = .sleeping m mode spin k →
    act = .look ∧ (s.mutexes m).lock ≠ 0
  dozing : ∀ {a seen}, pc' = .dozing a seen → act = .look ∧ s.sequence a.watch = seen
  taking : ∀ {l exclusive readers}, pc' = .rwTaking l exclusive readers →
    act = .look ∧ (s.rwlocks l).writer = 0 ∧ (exclusive = true → readers = 0) ∧
      readers = (s.rwlocks l).readers
  giving : ∀ {l writer readers}, pc' = .rwGiving l writer readers →
    act = .look ∧ writer = (s.rwlocks l).writer ∧ readers = (s.rwlocks l).readers

theorem Moves.of_go {kinds : Nat → Kind} {s : State} {t : Tid} {late : Bool} {act : Act} {pc' : Pc}
    (h : (s.pcs t).go kinds s t late = some (act, pc')) (hwf : (s.pcs t).Wf)
    (hheld : ∀ m, (s.pcs t).held = some m → 0 < s.depth t m)
    (howner : ∀ m, (s.mutexes m).owner = t + 1 → 0 < s.depth t m)
    (hunlocks : ∀ l, (s.pcs t).unlocks = some l → s.HoldsRw t l) : s.Moves t act pc' where
  wf := Pc.go_wf hwf h
  held := by
    intro m hm
    rcases Pc.go_held hwf h hm with hlock | ⟨hold, hacts⟩
    · exact .inl hlock
    · exact .inr ⟨hold.elim (hheld m) (howner m), hacts⟩
  hands := fun _ hon => Pc.go_hands h hon
  enrolled := fun _ ho => Pc.go_enrolled hwf h ho
  owes := fun _ ho => Pc.go_owes h ho
  unlocks := by
    intro l hl
    obtain ⟨hold, hon⟩ := Pc.go_unlocks hwf h hl
    exact ⟨hunlocks l hold, hon l⟩
  onRw := fun l hon => hheld _ (Pc.held_of_onRw h hon)
  released := by
    rintro m rfl
    exact (Pc.go_unlock h).2.2
  signalled := by
    rintro w rfl
    exact Pc.go_advance h
  sleeping := by
    rintro m mode spin k rfl
    exact Pc.go_sleeping h
  dozing := by
    rintro a seen rfl
    exact Pc.go_dozing h
  taking := by
    rintro l exclusive readers rfl
    exact Pc.go_rwTaking h
  giving := by
    rintro l writer readers rfl
    exact Pc.go_rwGiving h

theorem Moves.of_call {s : State} {t : Tid} {call : Call} (hidle : s.pcs t = .idle)
    (hok : s.Permitted (.call t call)) : s.Moves t .look call.start where
  wf := Call.start_wf call
  held := fun m hm => .inr ⟨Call.start_held hok hm, nofun, nofun⟩
  hands := by
    intro m _
    rw [hidle, Call.start_hands]
    rfl
  enrolled := by
    intro o ho
    simp [Call.start_enrolled] at ho
  owes := by
    intro u hu
    simp [hidle, Pc.Owes] at hu
  unlocks := fun l hl => ⟨Call.start_unlocks hok hl, nofun⟩
  onRw := nofun
  released := nofun
  signalled := nofun
  sleeping := by
    intro m mode spin k hpc
    exact absurd (hpc ▸ Call.start_looked call) nofun
  dozing := by
    intro a seen hpc
    exact absurd (hpc ▸ Call.start_looked call) nofun
  taking := by
    intro l exclusive readers hpc
    exact absurd (hpc ▸ Call.start_looked call) nofun
  giving := by
    intro l writer readers hpc
    exact absurd (hpc ▸ Call.start_looked call) nofun

end State

end Locks

end Thalyx.Native
