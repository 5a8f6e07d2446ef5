/-
Who holds a mutex, and who holds a reader-writer lock.

`OwnedAt` says what the fields of one mutex mean for the threads: `lock` is free only when
no one holds it, `owner` names the one that does, except on its way in and out, and `count`
is how often it has locked.  `RwAt` says the same of a reader-writer lock; its guard is what
lets a thread act on what it has read of it.  A step that writes no field of the lock keeps
either; each access that does write has a lemma of its own.
-/
import Mathlib.Algebra.BigOperators.Fin
import Mathlib.Algebra.BigOperators.Group.Finset.Piecewise
import ThalyxKernel.Native.Locks.Places

namespace Thalyx.Native

open Finset

namespace Locks

namespace State

variable {kinds : Nat → Kind} {s : State} {t u : Tid} {pc' : Pc} {act : Act}
variable {m : MutexId} {l : Nat}

/-! ### What an access leaves alone -/

theorem perform_frame (s : State) (t : Tid) (act : Act) :
    (∀ u, (s.perform t act).pcs u = s.pcs u) ∧
    (∀ m, act.on ≠ some m →
      (s.perform t act).mutexes m = s.mutexes m ∧
        ∀ u, (s.perform t act).depth u m = s.depth u m) ∧
    (∀ l, act.onRw ≠ some l →
      (s.perform t act).rwlocks l = s.rwlocks l ∧
        (∀ u, (s.perform t act).shared u l = s.shared u l) ∧
        ∀ u, (s.perform t act).alone u l = s.alone u l) ∧
    ∀ u, u ≠ t →
      (∀ m, (s.perform t act).depth u m = s.depth u m) ∧
        ∀ l, (s.perform t act).shared u l = s.shared u l ∧
          (s.perform t act).alone u l = s.alone u l := by
  fun_cases perform s t act <;>
    refine ⟨fun u => by simp, fun m hon => ⟨?_, fun u => ?_⟩, fun l hon => ⟨?_, fun u => ?_, fun u => ?_⟩,
      fun u hu => ⟨fun m => ?_, fun l => ⟨?_, ?_⟩⟩⟩ <;>
    simp_all [Act.on, Act.onRw, eq_comm]

@[simp] theorem perform_pcs (s : State) (t u : Tid) (act : Act) :
    (s.perform t act).pcs u = s.pcs u := (s.perform_frame t act).1 u

theorem perform_mutex (hon : act.on ≠ some m) : (s.perform t act).mutexes m = s.mutexes m :=
  ((s.perform_frame t act).2.1 m hon).1

theorem perform_depth (hon : act.on ≠ some m) : (s.perform t act).depth u m = s.depth u m :=
  ((s.perform_frame t act).2.1 m hon).2 u

theorem perform_depth_other (hu : u ≠ t) : (s.perform t act).depth u m = s.depth u m :=
  ((s.perform_frame t act).2.2.2 u hu).1 m

theorem perform_depth_pos (hm : 0 < s.depth t m) (hunnest : act ≠ .unnest m)
    (hunlock : act ≠ .unlock m) : 0 < (s.perform t act).depth t m := by
  fun_cases perform s t act <;> simp_all <;> split <;> simp_all

theorem perform_rwlock (hon : act.onRw ≠ some l) :
    (s.perform t act).rwlocks l = s.rwlocks l := ((s.perform_frame t act).2.2.1 l hon).1

theorem perform_shared (hon : act.onRw ≠ some l) :
    (s.perform t act).shared u l = s.shared u l := ((s.perform_frame t act).2.2.1 l hon).2.1 u

theorem perform_alone (hon : act.onRw ≠ some l) : (s.perform t act).alone u l = s.alone u l :=
  ((s.perform_frame t act).2.2.1 l hon).2.2 u

theorem perform_holdsRw (hon : act.onRw ≠ some l ∨ u ≠ t) (h : s.HoldsRw u l) :
    (s.perform t act).HoldsRw u l := by
  rcases hon with hon | hu
  · simpa [HoldsRw, perform_shared hon, perform_alone hon] using h
  · obtain ⟨hshared, halone⟩ := ((s.perform_frame t act).2.2.2 u hu).2 l
    simpa [HoldsRw, hshared, halone] using h

/-! ### The holders of one mutex -/

/-- The fields of a mutex, and how often the threads have locked it. -/
structure OwnedAt (kinds : Nat → Kind) (s : State) (m : MutexId) : Prop where
  free : (s.mutexes m).lock = 0 → ∀ t, s.depth t m = 0
  one : ∀ {t u}, 0 < s.depth t m → 0 < s.depth u m → t = u
  /-- Who is the owner has the mutex, and neither is yet to write so nor has just taken it back. -/
  counted : ∀ {t : Tid}, (s.mutexes m).owner = t + 1 →
    0 < s.depth t m ∧ (s.mutexes m).count = s.depth t m ∧ (s.pcs t).hands ≠ some m
  owned : ∀ {t}, 0 < s.depth t m →
    (s.mutexes m).owner = t + 1 ∨ s.depth t m = 1 ∧ (s.pcs t).hands = some m
  flat : kindOf kinds m ≠ .recursive → ∀ t, s.depth t m ≤ 1

namespace OwnedAt

theorem frame (h : s.OwnedAt kinds m) (hon : act.on ≠ some m)
    (hhands : pc'.hands = some m ↔ (s.pcs t).hands = some m) :
    ((s.perform t act).move t pc').OwnedAt kinds m := by
  obtain ⟨hfree, hone, hcounted, howned, hflat⟩ := h
  constructor <;>
    simp only [move_mutexes, move_depth, move_pcs, perform_mutex hon, perform_depth hon,
      perform_pcs] <;>
    grind

theorem lock (h : s.OwnedAt kinds m) (hlock : (s.mutexes m).lock = 0)
    (hhands : pc'.hands = some m) : ((s.perform t (.lock m)).move t pc').OwnedAt kinds m := by
  have hnone := h.free hlock
  obtain ⟨-, hone, hcounted, howned, hflat⟩ := h
  constructor <;> simp [perform] <;> grind

theorem own (h : s.OwnedAt kinds m) (hheld : 0 < s.depth t m)
    (hhands : (s.pcs t).hands = some m) (hhands' : pc'.hands = none) :
    ((s.perform t (.own m)).move t pc').OwnedAt kinds m := by
  obtain ⟨hfree, hone, hcounted, howned, hflat⟩ := h
  constructor <;> simp [perform] <;> grind

theorem nest (h : s.OwnedAt kinds m) (howner : (s.mutexes m).owner = t + 1)
    (hkind : kindOf kinds m = .recursive) (hroom : (s.mutexes m).count + 1 < uintRange)
    (hhands' : pc'.hands = none) : ((s.perform t (.nest m)).move t pc').OwnedAt kinds m := by
  obtain ⟨hfree, hone, hcounted, howned, hflat⟩ := h
  constructor <;> simp [perform] <;> grind

theorem unnest (h : s.OwnedAt kinds m) (hheld : 0 < s.depth t m)
    (hcount : 1 < (s.mutexes m).count) (hkind : kindOf kinds m = .recursive)
    (hhands : (s.pcs t).hands = none) (hhands' : pc'.hands = none) :
    ((s.perform t (.unnest m)).move t pc').OwnedAt kinds m := by
  obtain ⟨hfree, hone, hcounted, howned, hflat⟩ := h
  constructor <;> simp [perform] <;> grind

theorem disown (h : s.OwnedAt kinds m) (hheld : 0 < s.depth t m)
    (hlast : ¬ (kindOf kinds m = .recursive ∧ 1 < (s.mutexes m).count))
    (hhands' : pc'.hands = some m) : ((s.perform t (.disown m)).move t pc').OwnedAt kinds m := by
  obtain ⟨hfree, hone, hcounted, howned, hflat⟩ := h
  constructor <;> simp [perform] <;> grind

theorem unlock (h : s.OwnedAt kinds m) (hheld : 0 < s.depth t m)
    (hhands : (s.pcs t).hands = some m) :
    ((s.perform t (.unlock m)).move t pc').OwnedAt kinds m := by
  obtain ⟨hfree, hone, hcounted, howned, hflat⟩ := h
  constructor <;> simp [perform] <;> grind

end OwnedAt

/-! ### The holders of one reader-writer lock -/

/-- The fields of a reader-writer lock, and who has locked it. -/
structure RwAt (s : State) (l : Nat) : Prop where
  readers : (s.rwlocks l).readers = (∑ t, s.shared t l : Nat)
  small : (s.rwlocks l).readers < 0x80000000
  writer : (s.rwlocks l).writer ≠ 0 ↔ ∃ t, s.alone t l = true
  one : ∀ {t u}, s.alone t l = true → s.alone u l = true → t = u
  apart : ∀ {t}, s.alone t l = true → ∀ u, s.shared u l = 0

theorem sum_changed (f : Tid → Nat) (t : Tid) (n : Nat) :
    (∑ u, if u = t then n else f u) + f t = (∑ u, f u) + n := by
  have hrest : ∑ u ∈ Finset.univ.erase t, (if u = t then n else f u) =
      ∑ u ∈ Finset.univ.erase t, f u :=
    sum_congr rfl fun u hu => if_neg (ne_of_mem_erase hu)
  have hnew := add_sum_erase Finset.univ (fun u => if u = t then n else f u)
    (mem_univ t)
  have hold := add_sum_erase Finset.univ f (mem_univ t)
  simp only [if_true] at hnew
  omega

namespace RwAt

theorem frame (h : s.RwAt l) (hon : act.onRw ≠ some l) : ((s.perform t act).move t pc').RwAt l := by
  obtain ⟨hreaders, hsmall, hwriter, hone, hapart⟩ := h
  constructor <;>
    simpa only [move_rwlocks, move_shared, move_alone, perform_rwlock hon, perform_shared hon,
      perform_alone hon]

theorem unread (h : s.RwAt l) (hreaders : (s.rwlocks l).readers = 0) (u : Tid) :
    s.shared u l = 0 := by
  have hsum : ∑ t, s.shared t l = 0 := by
    have hcount := h.readers
    omega
  exact Finset.sum_eq_zero_iff.mp hsum u (mem_univ u)

theorem unwritten (h : s.RwAt l) (hwriter : (s.rwlocks l).writer = 0) (u : Tid) :
    s.alone u l = false := by
  by_contra hu
  exact h.writer.mpr ⟨u, by simpa using hu⟩ hwriter

variable {readers : Int}

theorem takeAlone (h : s.RwAt l) (hwriter : (s.rwlocks l).writer = 0)
    (hreaders : (s.rwlocks l).readers = 0) :
    ((s.perform t (.take l true readers)).move t pc').RwAt l := by
  have hnone := h.unwritten hwriter
  have hread := h.unread hreaders
  constructor <;> simp [perform, hreaders, hnone, hread]

theorem takeShared (h : s.RwAt l) (hwriter : (s.rwlocks l).writer = 0)
    (hreaders : readers = (s.rwlocks l).readers) (hroom : readers + 1 < 0x80000000) :
    ((s.perform t (.take l false readers)).move t pc').RwAt l := by
  have hnone := h.unwritten hwriter
  have hcount := h.readers
  have hint : toInt (readers + 1) = readers + 1 := by
    unfold toInt
    omega
  have hsum := sum_changed (fun u => s.shared u l) t (s.shared t l + 1)
  constructor
  · simp [perform, hint, -Nat.cast_sum, -Nat.cast_ite]
    omega
  · simpa [perform, hint] using hroom
  · simp [perform, hwriter, hnone]
  · simp [perform, hnone]
  · simp [perform, hnone]

theorem giveAlone {writer : Nat} (h : s.RwAt l) (hw : writer ≠ 0)
    (hwriter : writer = (s.rwlocks l).writer) (hholds : s.HoldsRw t l) :
    ((s.perform t (.give l writer readers)).move t pc').RwAt l := by
  obtain ⟨u, hu⟩ := h.writer.mp (hwriter ▸ hw)
  have hshared := h.apart hu
  have ht : s.alone t l = true := hholds.resolve_right (by simp [hshared])
  have hothers : ∀ v, v ≠ t → s.alone v l = false := by
    intro v hv
    by_contra hv'
    exact hv (h.one (by simpa using hv') ht)
  constructor
  · simpa [perform, hw] using h.readers
  · simpa [perform, hw] using h.small
  · simpa [perform, hw] using hothers
  · simp [perform, hw]
    grind
  · simp [perform, hw, hshared]

theorem giveShared (h : s.RwAt l) (hwriter : (s.rwlocks l).writer = 0)
    (hreaders : readers = (s.rwlocks l).readers) (hholds : s.HoldsRw t l) :
    ((s.perform t (.give l 0 readers)).move t pc').RwAt l := by
  have hnone := h.unwritten hwriter
  have hshared : 0 < s.shared t l := hholds.resolve_left (by simp [hnone])
  have hcount := h.readers
  have hsmall := h.small
  have hle := sum_changed (fun u => s.shared u l) t 0
  have hpos : 0 < readers := by omega
  have hsum := sum_changed (fun u => s.shared u l) t (s.shared t l - 1)
  constructor
  · simp [perform, hpos, -Nat.cast_sum, -Nat.cast_ite]
    omega
  · simp [perform, hpos]
    omega
  · simp [perform, hpos, hwriter, hnone]
  · simp [perform, hpos, hnone]
  · simp [perform, hpos, hnone]

end RwAt

/-! ### The threads hold what their places say -/

structure Placed (s : State) : Prop where
  wf : ∀ t, (s.pcs t).Wf
  held : ∀ t m, (s.pcs t).held = some m → 0 < s.depth t m
  unlocks : ∀ t l, (s.pcs t).unlocks = some l → s.HoldsRw t l
  taking : ∀ {t l exclusive readers}, s.pcs t = .rwTaking l exclusive readers →
    (s.rwlocks l).writer = 0 ∧ (exclusive = true → readers = 0) ∧ readers = (s.rwlocks l).readers
  giving : ∀ {t l writer readers}, s.pcs t = .rwGiving l writer readers →
    writer = (s.rwlocks l).writer ∧ readers = (s.rwlocks l).readers

theorem Placed.step (h : s.Placed) (hmoves : s.Moves t act pc')
    (hone : ∀ {u m}, 0 < s.depth u m → 0 < s.depth t m → u = t) :
    ((s.perform t act).move t pc').Placed := by
  have hundisturbed : ∀ {u l}, u ≠ t → (s.pcs u).held = some (.guard l) → act.onRw ≠ some l :=
    fun hu hheld hon => hu (hone (h.held _ _ hheld) (hmoves.onRw _ hon))
  constructor
  · intro u
    by_cases hu : u = t
    · simpa [hu] using hmoves.wf
    · simpa [hu] using h.wf u
  · intro u m hm
    by_cases hu : u = t
    · subst hu
      rcases hmoves.held m (by simpa using hm) with rfl | ⟨hpos, hunnest, hunlock⟩
      · simp [perform]
      · simpa using perform_depth_pos hpos hunnest hunlock
    · have hold := h.held u m (by simpa [hu] using hm)
      simpa [perform_depth_other hu] using hold
  · intro u l hl
    by_cases hu : u = t
    · subst hu
      obtain ⟨hold, hon⟩ := hmoves.unlocks l (by simpa using hl)
      exact perform_holdsRw (.inl hon) hold
    · exact perform_holdsRw (.inr hu) (h.unlocks u l (by simpa [hu] using hl))
  · intro u l exclusive readers hpc
    by_cases hu : u = t
    · subst hu
      obtain ⟨rfl, hread⟩ := hmoves.taking (by simpa using hpc)
      exact hread
    · have hold : s.pcs u = .rwTaking l exclusive readers := by simpa [hu] using hpc
      have hon := hundisturbed hu (by rw [hold]; rfl)
      simpa [perform_rwlock hon] using h.taking hold
  · intro u l writer readers hpc
    by_cases hu : u = t
    · subst hu
      obtain ⟨rfl, hread⟩ := hmoves.giving (by simpa using hpc)
      exact hread
    · have hold : s.pcs u = .rwGiving l writer readers := by simpa [hu] using hpc
      have hon := hundisturbed hu (by rw [hold]; rfl)
      simpa [perform_rwlock hon] using h.giving hold

end State

end Locks

end Thalyx.Native
