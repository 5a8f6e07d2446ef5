/-
No thread is left asleep.

A thread's bit is in the mask its place says, and only its own steps take it out.  So a
thread that frees a mutex, or moves a sequence, finds in the mask everyone who sleeps for
it, and owes each of them a raised wake bit from that step on; what is owed stays owed until
the bit is raised, and a raised bit ends only the wait of its own thread.
-/
import ThalyxKernel.Native.Locks.Exclusion

namespace Thalyx.Native

namespace Locks

namespace State

variable {s : State} {t u : Tid} {pc pc' : Pc} {act : Act} {m : MutexId}

/-! ### What an access leaves alone -/

theorem perform_waiters_other (o : Waited) (hu : u ≠ t) :
    (s.perform t act).waiters o u = s.waiters o u := by
  fun_cases perform s t act <;> simp_all

theorem perform_waiters {o : Waited} (hin : s.waiters o t = true)
    (hleave : ∀ o', act ≠ .leave o') : (s.perform t act).waiters o t = true := by
  fun_cases perform s t act <;> simp_all

theorem perform_raised (hraised : s.raised u = true) (hu : u ≠ t) :
    (s.perform t act).raised u = true := by
  fun_cases perform s t act <;> simp_all

theorem perform_lock (hfree : ((s.perform t act).mutexes m).lock = 0) :
    act = .unlock m ∨ (s.mutexes m).lock = 0 := by
  revert hfree
  fun_cases perform s t act <;> simp <;> grind

theorem perform_sequence (s : State) (t : Tid) (act : Act) (w : Watch) :
    act = .advance w ∨ (s.perform t act).sequence w = s.sequence w := by
  fun_cases perform s t act <;> simp
  grind

/-! ### The masks -/

/-- A thread has its bit in the mask its place says. -/
def Enrolled (s : State) : Prop :=
  ∀ t o, (s.pcs t).enrolled = some o → s.waiters o t = true

theorem Enrolled.step (h : s.Enrolled) (hmoves : s.Moves t act pc') :
    ((s.perform t act).move t pc').Enrolled := by
  intro u o ho
  by_cases hu : u = t
  · subst hu
    rcases hmoves.enrolled o (by simpa using ho) with rfl | ⟨hold, hleave⟩
    · simp [perform]
    · simpa using perform_waiters (h u o hold) hleave
  · have hin := h u o (by simpa [hu] using ho)
    simpa [perform_waiters_other o hu] using hin

/-! ### What is owed -/

theorem owes_congr {s' : State} (h : ∀ o, s'.waiters o u = s.waiters o u) :
    pc.Owes s' u ↔ pc.Owes s u := by
  cases pc <;> simp [Pc.Owes, h]

theorem Owed.step (h : s.Owed u) (hmoves : s.Moves t act pc') (hu : u ≠ t) :
    ((s.perform t act).move t pc').Owed u := by
  have hwaiters : ∀ o, ((s.perform t act).move t pc').waiters o u = s.waiters o u := by
    intro o
    simp [perform_waiters_other o hu]
  rcases h with hraised | ⟨r, hr⟩
  · exact .inl (by simpa using perform_raised hraised hu)
  · by_cases hrt : r = t
    · subst hrt
      rcases hmoves.owes u hr with rfl | howes
      · exact .inl (by simp [perform])
      · exact .inr ⟨r, by simpa [owes_congr hwaiters] using howes⟩
    · exact .inr ⟨r, by simpa [owes_congr hwaiters, hrt] using hr⟩

/-! ### The sleepers -/

/-- No thread is left asleep for a free mutex. -/
def Woken (s : State) : Prop :=
  ∀ u m mode spin k, s.pcs u = .sleeping m mode spin k → (s.mutexes m).lock = 0 → s.Owed u

/-- No thread is left asleep for a sequence that has moved. -/
def Noticed (s : State) : Prop :=
  ∀ u a seen, s.pcs u = .dozing a seen → s.sequence a.watch ≠ seen → s.Owed u

theorem Woken.step (h : s.Woken) (henrolled : s.Enrolled) (hmoves : s.Moves t act pc') :
    ((s.perform t act).move t pc').Woken := by
  intro u m mode spin k hpc hfree
  by_cases hu : u = t
  · subst hu
    obtain ⟨rfl, hlocked⟩ := hmoves.sleeping (by simpa using hpc)
    exact absurd (by simpa [perform] using hfree) hlocked
  · have hold : s.pcs u = .sleeping m mode spin k := by simpa [hu] using hpc
    rcases perform_lock (by simpa using hfree) with rfl | hfree
    · obtain ⟨k', rfl⟩ := hmoves.released m rfl
      have hin : s.waiters (.mutex m) u = true := henrolled u _ (by rw [hold]; rfl)
      exact .inr ⟨t, by simp [Pc.Owes, perform_waiters_other (.mutex m) hu, hin]⟩
    · exact (h u m mode spin k hold hfree).step hmoves hu

theorem Noticed.step (h : s.Noticed) (henrolled : s.Enrolled) (hmoves : s.Moves t act pc') :
    ((s.perform t act).move t pc').Noticed := by
  intro u a seen hpc hmoved
  by_cases hu : u = t
  · subst hu
    obtain ⟨rfl, hsame⟩ := hmoves.dozing (by simpa using hpc)
    exact absurd hsame (by simpa [perform] using hmoved)
  · have hold : s.pcs u = .dozing a seen := by simpa [hu] using hpc
    rcases perform_sequence s t act a.watch with rfl | hsame
    · obtain rfl := hmoves.signalled _ rfl
      have hin : s.waiters (.watch a.watch) u = true := henrolled u _ (by rw [hold]; rfl)
      exact .inr ⟨t, by simp [Pc.Owes, perform_waiters_other (.watch a.watch) hu, hin]⟩
    · exact (h u a seen hold (by simpa [hsame] using hmoved)).step hmoves hu

end State

end Locks

end Thalyx.Native
