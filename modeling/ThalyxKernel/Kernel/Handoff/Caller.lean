/-
The sections of a caller keep the invariant: registering the wait, coming back from it,
looking at the record, releasing the invocation.  `release_invocation` is shared with the
replier, whose release is here too.
-/
import ThalyxKernel.Kernel.Handoff.Invariant

namespace Thalyx.Kernel.Handoff

open Option

variable {s s' : State} {i t : Nat}

theorem inv_register {g d : Nat} (h : Inv s) (hpc : (s.threads t).pc = .published i g d) :
    Inv ((s.setThread t fun th => th.prepareWait (.reply i g) d).setPc t (.waiting i g)) := by
  have ht := h.ok t
  unfold ThreadOk at ht
  rw [hpc] at ht
  obtain ⟨hawake, howns, hreply⟩ := ht
  refine h.goes rfl rfl ?_ hawake.not_blocked rfl ?_
  · intro x hx
    rw [threads_setThread, if_neg hx]
  · unfold ThreadOk
    simp only [threads_setPc, if_pos]
    refine .asleep ?_ ?_ (howns.of_slot_eq rfl) hreply <;>
      simp only [threads_setPc, threads_setThread, if_pos, Thread.prepareWait]

theorem inv_resume (h : Inv s) (hs : step s (.resume t) = some s') : Inv s' := by
  simp only [step] at hs
  split at hs
  case h_2 => cases hs
  case h_1 i g hpc =>
    by_cases hb : (s.threads t).blocked = true
    · rw [if_pos hb] at hs
      cases hs
    · rw [if_neg hb] at hs
      have hrunning : (s.threads t).blocked = false := Bool.not_eq_true _ ▸ hb
      have ht := h.ok t
      unfold ThreadOk at ht
      rw [hpc] at ht
      by_cases hdone : (s.threads t).wakeStatus = .ok ∧ (s.threads t).wakeAux ≠ 0
      · rw [if_pos hdone] at hs
        have hwait : (s.threads t).wait = .none := by
          cases ht with
          | asleep hblocked => exact absurd hblocked hb
          | claimed hc => exact hc.wait_none
          | answered hw => exact hw
          | expired hw => exact hw
        rw [← some.inj hs]
        refine h.goes rfl rfl ?_ hrunning rfl (threadOk_user ?_ ?_)
        · intro x hx
          rw [threads_setThread, if_neg hx]
        · simpa using hrunning
        · simpa using hwait
      · rw [if_neg hdone] at hs
        have hexp : (s.threads t).wait = .none ∧ Owns s t i g := by
          cases ht with
          | asleep hblocked => exact absurd hblocked hb
          | claimed hc => exact absurd hc.blocked hb
          | answered _ hok haux => exact absurd ⟨hok, haux⟩ hdone
          | expired hw _ ho => exact ⟨hw, ho⟩
        rw [← some.inj hs]
        refine h.goes rfl rfl ?_ hrunning rfl ?_
        · intro x hx
          rw [threads_setThread, if_neg hx]
        · unfold ThreadOk
          simp only [threads_setPc, if_pos]
          exact ⟨awake_setPc (by simpa using hrunning) (by simpa using hexp.1),
            hexp.2.of_slot_eq rfl⟩

theorem inv_setPc_user (h : Inv s) (hawake : Awake s t) : Inv (s.setPc t .user) :=
  h.goes rfl rfl (fun _ _ => rfl) hawake.not_blocked rfl
    (threadOk_user hawake.not_blocked hawake.wait_none)

theorem inv_finish (h : Inv s) (hs : step s (.finish t) = some s') : Inv s' := by
  simp only [step] at hs
  split at hs
  case h_2 => cases hs
  case h_1 i g hpc =>
    have ht := h.ok t
    unfold ThreadOk at ht
    rw [hpc] at ht
    obtain ⟨hawake, howns⟩ := ht
    rw [if_neg (by simpa using howns.generation_eq)] at hs
    by_cases hans : (s.slots i).replied = true ∨ (s.slots i).state = .resolved
    · rw [if_pos hans] at hs
      rw [← some.inj hs]
      refine h.goes rfl rfl (fun _ _ => rfl) hawake.not_blocked rfl ?_
      unfold ThreadOk
      simp only [threads_setPc, if_pos]
      exact ⟨awake_setPc hawake.not_blocked hawake.wait_none, g, howns.of_slot_eq rfl⟩
    · rw [if_neg hans] at hs
      rw [← some.inj hs]
      refine h.of_owned howns.waiter_eq ?_ rfl ?_ hawake.not_blocked
        (threadOk_user hawake.not_blocked hawake.wait_none) fun w hw =>
          absurd hw (not_serves_setPc rfl w)
      · intro j hj
        simp only [slots_setPc, slots_setSlot, if_neg hj]
      · intro x hx
        simp only [threads_setPc, threads_setSlot, if_neg hx]

/-! `release_invocation` touches one slot, and leaves it resolved or empty. -/

theorem threads_collect (s : State) (i : Nat) : (s.collect i).threads = s.threads := by
  unfold State.collect
  split <;> rfl

theorem wakes_collect (s : State) (i : Nat) : (s.collect i).wakes = s.wakes := by
  unfold State.collect
  split <;> rfl

theorem slots_collect_of_ne (s : State) {j : Nat} (hj : j ≠ i) :
    (s.collect i).slots j = s.slots j := by
  unfold State.collect
  split
  · simp only [slots_setSlot, if_neg hj]
  · rfl

theorem threads_release (s : State) (i : Nat) : (s.release i).threads = s.threads := by
  unfold State.release
  split
  · rfl
  · rw [threads_collect, threads_setSlot]

theorem wakes_release (s : State) (i : Nat) : (s.release i).wakes = s.wakes := by
  unfold State.release
  split
  · rfl
  · rw [wakes_collect, wakes_setSlot]

theorem slots_release_of_ne (s : State) {j : Nat} (hj : j ≠ i) :
    (s.release i).slots j = s.slots j := by
  unfold State.release
  split
  · rfl
  · rw [slots_collect_of_ne _ hj, slots_setSlot, if_neg hj]

theorem inv_release (h : Inv s) (hs : step s (.release t) = some s') : Inv s' := by
  have ht := h.ok t
  unfold ThreadOk at ht
  simp only [step] at hs
  split at hs
  case h_1 i hpc =>
    rw [hpc] at ht
    obtain ⟨hawake, g, howns⟩ := ht
    rw [← some.inj hs]
    refine h.of_owned howns.waiter_eq ?_ ?_ ?_ hawake.not_blocked (threadOk_user ?_ ?_)
      fun w hw => absurd hw (not_serves_setPc rfl w)
    · intro j hj
      rw [slots_setPc, slots_release_of_ne _ hj]
    · rw [wakes_setPc, wakes_release]
    · intro x hx
      simp only [threads_setPc, threads_release, if_neg hx]
    · simpa [threads_release] using hawake.not_blocked
    · simpa [threads_release] using hawake.wait_none
  case h_2 i w hpc =>
    -- the slot is the claimed caller's, and that caller relies on it no longer
    rw [hpc] at ht
    obtain ⟨hawake, hclaimed, g, howns⟩ := ht
    have hwt : w ≠ t := h.served_ne hawake.not_blocked (.inl ⟨i, hpc⟩)
    have hthread : ∀ x, x ≠ t → ((s.release i).setPc t (.waking w)).threads x = s.threads x := by
      intro x hx
      simp only [threads_setPc, threads_release, if_neg hx]
    have hwakes : ((s.release i).setPc t (.waking w)).wakes = s.wakes := by
      rw [wakes_setPc, wakes_release]
    have howner : ∀ {x j g'}, Owns s x j g' → j = i → x = w := by
      intro x j g' ho hj
      rw [hj] at ho
      have hw := ho.waiter_eq
      rw [howns.waiter_eq] at hw
      exact (some.inj hw).symm
    have hkeep : ∀ {x j g'}, x ≠ w → Owns s x j g' →
        Owns ((s.release i).setPc t (.waking w)) x j g' := by
      intro x j g' hx ho
      have hj : ((s.release i).setPc t (.waking w)).slots j = s.slots j := by
        rw [slots_setPc, slots_release_of_ne _ fun hj => hx (howner ho hj)]
      exact ho.of_slot_eq hj
    rw [← some.inj hs]
    refine h.of_frames hwakes ?_ (h.not_pending hawake.not_blocked) ?_ ?_
    · intro x hx
      refine ⟨hthread x hx, ?_, ?_, ?_, ?_, ?_⟩
      · intro j g' hnc ho
        exact hkeep (fun hxw => hnc (hxw ▸ hclaimed)) ho
      · intro j g' ho hr hwhere
        have hxw : x ≠ w := by
          rintro rfl
          rcases hwhere with ⟨d, hpub⟩ | hwait
          · obtain ⟨i', g'', hwaiting⟩ := hclaimed.is_waiting
            rw [hpub] at hwaiting
            cases hwaiting
          · rw [hclaimed.wait_none] at hwait
            cases hwait
        rw [slots_setPc, slots_release_of_ne _ fun hj => hxw (howner ho hj)]
        exact hr
      · intro hc
        exact hc.frame (hthread x hx) (by rw [hwakes]; exact hc.not_woken)
      · intro w' hsrv
        have hc := h.claimed_of_serves hsrv
        exact hc.frame (hthread w' (h.served_ne hawake.not_blocked hsrv))
          (by rw [hwakes]; exact hc.not_woken)
      · intro j w' g' hpc' ho
        refine hkeep ?_ ho
        rintro rfl
        exact hx (h.unique (.inl ⟨j, hpc'⟩) (.inl ⟨i, hpc⟩))
    · unfold ThreadOk
      simp only [threads_setPc, if_pos]
      refine ⟨awake_setPc (by simpa [threads_release] using hawake.not_blocked)
        (by simpa [threads_release] using hawake.wait_none), ?_⟩
      exact hclaimed.frame (hthread w hwt) (by rw [hwakes]; exact hclaimed.not_woken)
    · rintro w' (⟨j, hw⟩ | hw)
      · simp only [threads_setPc, if_pos, reduceCtorEq] at hw
      · simp only [threads_setPc, if_pos, Pc.waking.injEq] at hw
        exact .inl ⟨i, hw ▸ hpc⟩
  case h_3 => cases hs

end Thalyx.Kernel.Handoff
