/-
The sections of a receiver and of a replier, the wakes and the deadlines keep the
invariant.  The record hold of a reply is the one section that needs a hypothesis: the
caller it answers has registered its wait.
-/
import ThalyxKernel.Kernel.Handoff.Caller

namespace Thalyx.Kernel.Handoff

open Option

variable {s s' : State}

theorem Inv.of_slots (h : Inv s) (hth : s'.threads = s.threads)
    (hwakes : s'.wakes = s.wakes) (howns : ∀ {x j g}, Owns s x j g → Owns s' x j g)
    (hreplied : ∀ {x j g}, Owns s x j g → (s'.slots j).replied = (s.slots j).replied) : Inv s' := by
  have hback : ∀ {r w}, Serves s' r w → Serves s r w := fun hs =>
    hs.of_thread_eq (by rw [hth])
  have hclaimed : ∀ {w}, Claimed s w → Claimed s' w := fun hc =>
    hc.frame (by rw [hth]) (by rw [hwakes]; exact hc.not_woken)
  refine ⟨?_, fun hr hr' => h.unique (hback hr) (hback hr'), ?_, ?_⟩
  · intro x
    refine (h.ok x).frame ⟨by rw [hth], fun j g _ ho => howns ho, ?_, hclaimed, ?_, ?_⟩
    · intro j g ho hr _
      rw [hreplied ho]
      exact hr
    · intro w hs
      exact hclaimed (h.claimed_of_serves hs)
    · intro j w g _ ho
      exact howns ho
  · intro x hx
    rw [hwakes] at hx
    rw [hth]
    exact h.pending x hx
  · rw [hwakes]
    exact h.nodup

theorem slots_issueTicket (s : State) (i domain j : Nat) :
    (s.issueTicket i domain).slots j
      = if j = i then { s.slots i with state := .delivered } else s.slots j :=
  slots_setSlot s i j fun slot => { slot with state := .delivered }

theorem inv_issueTicket (h : Inv s) (i domain : Nat) : Inv (s.issueTicket i domain) := by
  have hslot := slots_issueTicket s i domain
  refine h.of_slots rfl rfl ?_ ?_
  · intro x j g ho
    by_cases hj : j = i
    · subst hj
      refine ⟨?_, ?_, ?_⟩
      · rw [hslot, if_pos rfl]
        exact ho.generation_eq
      · rw [hslot, if_pos rfl]
        exact Or.inr rfl
      · rw [hslot, if_pos rfl]
        exact ho.waiter_eq
    · exact ho.of_slot_eq (by rw [hslot, if_neg hj])
  · intro x j g _
    rw [hslot]
    split
    · rename_i hj
      rw [hj]
    · rfl

theorem inv_collect (h : Inv s) (i : Nat) : Inv (s.collect i) := by
  have hkeep : ∀ {x j g}, Owns s x j g → (s.collect i).slots j = s.slots j := by
    intro x j g ho
    by_cases hj : j = i
    · unfold State.collect
      rw [if_neg]
      rintro ⟨hres, -⟩
      rcases ho.live with hl | hl
      · rw [hj, hres] at hl
        cases hl
      · rw [hj, hres] at hl
        cases hl
    · exact slots_collect_of_ne s hj
  refine h.of_slots (threads_collect s i) (wakes_collect s i) ?_ ?_
  · intro x j g ho
    exact ho.of_slot_eq (hkeep ho)
  · intro x j g ho
    rw [hkeep ho]

theorem Inv.of_eq (h : Inv s) (hth : s'.threads = s.threads)
    (hslots : s'.slots = s.slots) (hwakes : s'.wakes = s.wakes) : Inv s' :=
  h.of_slots hth hwakes
    (fun ho => ho.of_slot_eq (by rw [hslots]))
    (fun _ => by rw [hslots])

variable {i t : Nat}

theorem inv_close {domain g : Nat} (h : Inv s)
    (hs : step s (.close domain i g) = some s') : Inv s' := by
  obtain ⟨-, hs⟩ := ite_none_right_eq_some.mp hs
  rw [← some.inj hs]
  refine inv_collect ?_ i
  exact h.of_eq rfl rfl rfl

variable {e w : Nat}

theorem inv_receive {d : Nat} {ticketed : Bool} (h : Inv s)
    (hs : step s (.receive t e d ticketed) = some s') : Inv s' := by
  obtain ⟨hgo, hs⟩ := ite_none_right_eq_some.mp hs
  split at hs
  case h_1 i rest hq =>
    split at hs
    · rw [← some.inj hs]
      exact (inv_issueTicket h i (s.threads t).domain).of_eq rfl rfl rfl
    · rw [← some.inj hs]
      exact h
  case h_2 =>
    rw [← some.inj hs]
    have hmoved : Inv ((s.setThread t fun th => th.prepareWait (.receive e) d).setPc t
        (.receiving e)) := by
      refine h.goes rfl rfl ?_ hgo.2 rfl ?_
      · intro x hx
        rw [threads_setThread, if_neg hx]
      · unfold ThreadOk
        simp only [threads_setPc, threads_setThread, if_pos, Thread.prepareWait, and_self,
          or_true]
    exact hmoved.of_eq rfl rfl rfl

theorem inv_received (h : Inv s) (hs : step s (.received t) = some s') : Inv s' := by
  simp only [step] at hs
  split at hs
  case h_2 => cases hs
  case h_1 e hpc =>
    by_cases hb : (s.threads t).blocked = true
    · rw [if_pos hb] at hs
      cases hs
    · rw [if_neg hb] at hs
      rw [← some.inj hs]
      have hrunning : (s.threads t).blocked = false := Bool.not_eq_true _ ▸ hb
      have ht := h.ok t
      unfold ThreadOk at ht
      rw [hpc] at ht
      have hwait : (s.threads t).wait = .none := by
        rcases ht with hw | ⟨hblocked, -⟩
        · exact hw
        · exact absurd hblocked hb
      refine h.goes rfl rfl ?_ hrunning rfl (threadOk_user ?_ ?_)
      · intro x hx
        rw [threads_setThread, if_neg hx]
      · simpa using hrunning
      · simpa using hwait

theorem inv_reply (h : Inv s) (hs : step s (.reply t i) = some s') : Inv s' := by
  obtain ⟨hgo, hs⟩ := ite_none_right_eq_some.mp hs
  have hawake := awake_of_user h hgo.1
  split at hs
  · rw [← some.inj hs]
    exact h
  · rw [← some.inj hs]
    refine h.goes rfl rfl (fun _ _ => rfl) hawake.not_blocked rfl ?_
    unfold ThreadOk
    simp only [threads_setPc, if_pos]
    exact awake_setPc hawake.not_blocked hawake.wait_none

theorem awake_of_replying (h : Inv s) (hpc : (s.threads t).pc = .replying i) : Awake s t := by
  have ht := h.ok t
  unfold ThreadOk at ht
  rw [hpc] at ht
  exact ht

theorem inv_refuse (h : Inv s) (hs : step s (.refuse t) = some s') : Inv s' := by
  simp only [step] at hs
  split at hs
  · rename_i hpc
    rw [← some.inj hs]
    exact inv_setPc_user h (awake_of_replying h hpc)
  · cases hs

theorem inv_wake (h : Inv s) (hs : step s (.wake t) = some s') : Inv s' := by
  obtain ⟨hmem, hs⟩ := ite_none_right_eq_some.mp hs
  rw [← some.inj hs]
  have hnc : ¬ Claimed s t := fun hc => hc.not_woken hmem
  have hsub : ∀ {x}, x ∈ s.wakes.erase t → x ∈ s.wakes ∧ x ≠ t := by
    intro x hx
    exact ⟨List.mem_of_mem_erase hx, fun hxt => h.nodup.not_mem_erase (hxt ▸ hx)⟩
  have hserved : ∀ {r w}, Serves s r w → w ≠ t := by
    intro r w hsrv hw
    rw [hw] at hsrv
    exact hnc (h.claimed_of_serves hsrv)
  refine ⟨?_, ?_, ?_, h.nodup.erase t⟩
  · intro x
    by_cases hx : x = t
    · -- the woken thread waits for nothing, and only its `blocked` flag changes
      subst hx
      have hx := h.ok x
      unfold ThreadOk at hx ⊢
      simp only [threads_setThread, if_pos]
      have hwait := (h.pending x hmem).1
      have hblocked := (h.pending x hmem).2
      split at hx
      case h_3 i g hpc =>
        cases hx with
        | asleep _ hw => rw [hwait] at hw; cases hw
        | claimed hc => exact absurd hc hnc
        | answered hw hok haux =>
          exact .answered (by simpa using hw) (by simpa using hok) (by simpa using haux)
        | expired hw hst ho =>
          exact .expired (by simpa using hw) (by simpa using hst)
            (ho.of_slot_eq rfl)
      case h_6 => exact Or.inl hwait
      case h_1 => simp [hx.not_blocked] at hblocked
      case h_2 => simp [hx.1.not_blocked] at hblocked
      case h_4 => simp [hx.1.not_blocked] at hblocked
      case h_5 => simp [hx.1.not_blocked] at hblocked
      case h_7 => simp [hx.not_blocked] at hblocked
      case h_8 => simp [hx.1.not_blocked] at hblocked
      case h_9 => simp [hx.1.not_blocked] at hblocked
    · refine (h.ok x).frame (Frame.of_slots_eq h rfl ?_ ?_ ?_)
      · simp only [threads_setThread, if_neg hx]
      · intro hc hin
        exact hc.not_woken (hsub hin).1
      · intro w hsrv
        refine ⟨by simp only [threads_setThread, if_neg (hserved hsrv)], fun hin => ?_⟩
        exact (h.claimed_of_serves hsrv).not_woken (hsub hin).1
  · have hback : ∀ {r w}, Serves { s.setThread t (fun th => { th with blocked := false }) with
        wakes := s.wakes.erase t } r w → Serves s r w := by
      intro r w hsrv
      unfold Serves at hsrv ⊢
      simp only [threads_setThread] at hsrv
      by_cases hr : r = t
      · simpa [hr] using hsrv
      · simpa [hr] using hsrv
    intro r r' w hr hr'
    exact h.unique (hback hr) (hback hr')
  · intro x hx
    simp only [threads_setThread, if_neg (hsub hx).2]
    exact h.pending x (hsub hx).1

theorem Inv.push_wake (h : Inv s)
    (hw : (s.threads w).wait = .none ∧ (s.threads w).blocked = true) (hnw : w ∉ s.wakes)
    (hns : ∀ r, ¬ Serves s r w) (hok : ThreadOk { s with wakes := w :: s.wakes } w) :
    Inv { s with wakes := w :: s.wakes } := by
  have hmem : ∀ {x}, x ≠ w → x ∉ s.wakes → x ∉ w :: s.wakes := by
    intro x hx hnx hin
    rcases List.mem_cons.mp hin with heq | hin
    · exact hx heq
    · exact hnx hin
  refine ⟨?_, h.unique, ?_, List.nodup_cons.mpr ⟨hnw, h.nodup⟩⟩
  · intro x
    by_cases hx : x = w
    · rw [hx]
      exact hok
    · refine (h.ok x).frame (Frame.of_slots_eq h rfl rfl ?_ ?_)
      · intro hc
        exact hmem hx hc.not_woken
      · intro w' hs
        refine ⟨rfl, hmem ?_ (h.claimed_of_serves hs).not_woken⟩
        rintro rfl
        exact hns x hs
  · intro x hx
    rcases List.mem_cons.mp hx with rfl | hx
    · exact hw
    · exact h.pending x hx

theorem Inv.set_record {f : Thread → Thread} (h : Inv s)
    (hpc : (f (s.threads t)).pc = (s.threads t).pc) (hnc : ¬ Claimed s t) (hnw : t ∉ s.wakes)
    (hok : ThreadOk (s.setThread t f) t) : Inv (s.setThread t f) := by
  have hserved : ∀ {r w}, Serves s r w → w ≠ t := by
    intro r w hs hw
    rw [hw] at hs
    exact hnc (h.claimed_of_serves hs)
  refine h.of_frames rfl ?_ hnw hok ?_
  · intro x hx
    refine Frame.of_slots_eq h rfl (by simp only [threads_setThread, if_neg hx]) ?_ ?_
    · intro hc
      exact hc.not_woken
    · intro w hs
      exact ⟨by simp only [threads_setThread, if_neg (hserved hs)],
        (h.claimed_of_serves hs).not_woken⟩
  · intro w hs
    unfold Serves at hs ⊢
    simpa only [threads_setThread, if_pos, hpc] using hs

theorem Inv.of_wait_ne (h : Inv s) (hw : (s.threads t).wait ≠ .none) :
    t ∉ s.wakes ∧ ¬ Claimed s t :=
  ⟨fun hmem => hw (h.pending t hmem).1, fun hc => hw hc.wait_none⟩

theorem Inv.receiving_of_wait (h : Inv s)
    (hwait : (s.threads t).wait = .receive e) : (s.threads t).pc = .receiving e := by
  rcases h.waiting (t := t) (by rw [hwait]; exact nofun) with ⟨i, g, hw, -⟩ | ⟨e', hw, hpc⟩
  · exact absurd (hwait.symm.trans hw) nofun
  · rw [hpc, Wait.receive.inj (hwait.symm.trans hw)]

theorem inv_expire (h : Inv s) (hs : step s (.expire t) = some s') : Inv s' := by
  obtain ⟨hgo, hs⟩ := ite_none_right_eq_some.mp hs
  obtain ⟨hblocked, hwait, -⟩ := hgo
  obtain ⟨hnw, hnc⟩ := h.of_wait_ne hwait
  -- a timed-out caller keeps its invocation; a timed-out receiver relies on nothing
  have hok : ∀ wakes, ThreadOk
      { s.setThread t (fun th => th.claim .timedOut) with wakes := wakes } t := by
    intro wakes
    unfold ThreadOk
    simp only [threads_setThread, if_pos, Thread.claim]
    cases hw : (s.threads t).wait with
    | none => exact absurd hw hwait
    | reply i g =>
      obtain ⟨hpc, -, ho, -⟩ := h.asleep hw
      rw [hpc]
      exact .expired (by simp) (by simp) (ho.of_slot_eq rfl)
    | receive e =>
      rw [h.receiving_of_wait hw]
      exact Or.inl trivial
  have hmid : Inv (s.setThread t fun th => th.claim .timedOut) :=
    h.set_record rfl hnc hnw (hok s.wakes)
  rw [← some.inj hs]
  refine hmid.push_wake ?_ hnw ?_ (hok _)
  · simp only [threads_setThread, if_pos, Thread.claim, hblocked, and_self]
  · intro r hsrv
    refine hnc (h.claimed_of_serves (r := r) ?_)
    unfold Serves at hsrv ⊢
    simp only [threads_setThread] at hsrv
    split at hsrv
    · rename_i hr
      rw [hr]
      exact hsrv
    · exact hsrv

theorem inv_defer (h : Inv s) (hs : step s (.defer t) = some s') : Inv s' := by
  simp only [step] at hs
  split at hs
  case h_2 => cases hs
  case h_1 w hpc =>
    have ht := h.ok t
    unfold ThreadOk at ht
    rw [hpc] at ht
    obtain ⟨hawake, hclaimed⟩ := ht
    have hwt : w ≠ t := h.served_ne hawake.not_blocked (.inr hpc)
    obtain ⟨i, g, hwpc⟩ := hclaimed.is_waiting
    -- the replier lets go first; then the answered caller's wake is deferred
    have hlet : Inv (s.setPc t .user) := inv_setPc_user h hawake
    have hfree : ∀ r, ¬ Serves (s.setPc t .user) r w := by
      intro r hsrv
      by_cases hr : r = t
      · subst hr
        exact not_serves_setPc rfl w hsrv
      · have hsrv' : Serves s r w :=
          hsrv.of_thread_eq (by simp only [threads_setPc, if_neg hr])
        exact hr (h.unique hsrv' (.inr hpc))
    have hokw : ∀ wakes, ThreadOk
        { (s.setThread w fun th => { th with wakeAux := 1 }).setPc t .user with wakes := wakes }
        w := by
      intro wakes
      unfold ThreadOk
      simp only [threads_setPc, threads_setThread, if_neg hwt, if_pos, hwpc]
      refine .answered ?_ ?_ ?_ <;>
        simp only [threads_setPc, threads_setThread, if_neg hwt, if_pos]
      · exact hclaimed.wait_none
      · exact hclaimed.status_ok
      · exact Nat.one_ne_zero
    have hback : ∀ {r w'}, Serves ((s.setThread w fun th => { th with wakeAux := 1 }).setPc t
        .user) r w' → Serves (s.setPc t .user) r w' := by
      intro r w' hsrv
      unfold Serves at hsrv ⊢
      simp only [threads_setPc, threads_setThread] at hsrv ⊢
      by_cases hr : r = t
      · simp [hr] at hsrv
      · by_cases hrw : r = w
        · simpa [hr, hrw, hwt] using hsrv
        · simpa [hr, hrw] using hsrv
    have hmid : Inv ((s.setThread w fun th => { th with wakeAux := 1 }).setPc t .user) := by
      refine hlet.of_frames rfl ?_ hclaimed.not_woken (hokw s.wakes) fun w' hsrv => hback hsrv
      intro x hx
      have hthx : ((s.setThread w fun th => { th with wakeAux := 1 }).setPc t .user).threads x
          = (s.setPc t .user).threads x := by
        simp only [threads_setPc, threads_setThread, if_neg hx, if_neg hwt.symm]
      refine Frame.of_slots_eq hlet rfl hthx (fun hc => hc.not_woken) ?_
      intro w' hsrv
      have hw' : w' ≠ w := by
        rintro rfl
        exact hfree x hsrv
      refine ⟨?_, (hlet.claimed_of_serves hsrv).not_woken⟩
      simp only [threads_setPc, threads_setThread, if_neg hw', if_neg hwt.symm]
    rw [← some.inj hs]
    refine hmid.push_wake ?_ hclaimed.not_woken ?_ (hokw _)
    · simp only [threads_setPc, threads_setThread, if_neg hwt, if_pos]
      exact ⟨hclaimed.wait_none, hclaimed.blocked⟩
    · intro r hsrv
      exact hfree r (hback hsrv)

theorem inv_answer_claimed (h : Inv s)
    (hpc : (s.threads t).pc = .replying i) (hwaiter : (s.slots i).waiter = some w)
    (hclaim : s.claimable w (.reply i (s.slots i).generation)) :
    Inv (((s.setSlot i fun slot => { slot with replied := true }).setThread w fun th =>
      th.claim .ok).setPc t (.answering i w)) := by
  have hawake := awake_of_replying h hpc
  obtain ⟨hblocked, hwait⟩ := hclaim
  obtain ⟨hwpc, -, howns, -⟩ := h.asleep hwait
  obtain ⟨hnw, hnc⟩ := h.of_wait_ne (t := w) (by rw [hwait]; exact nofun)
  have hwt : w ≠ t := by
    rintro rfl
    rw [hpc] at hwpc
    cases hwpc
  generalize hs' : ((s.setSlot i fun slot => { slot with replied := true }).setThread w fun th =>
      th.claim .ok).setPc t (.answering i w) = s'
  have hthx : ∀ x, x ≠ t → x ≠ w → s'.threads x = s.threads x := by
    intro x hx hxw
    rw [← hs']
    simp only [threads_setPc, threads_setThread, threads_setSlot, if_neg hx, if_neg hxw]
  have hthw : s'.threads w = (s.threads w).claim .ok := by
    rw [← hs']
    simp only [threads_setPc, threads_setThread, threads_setSlot, if_neg hwt, if_pos]
  have htht : s'.threads t = { s.threads t with pc := .answering i w } := by
    rw [← hs']
    simp only [threads_setPc, threads_setThread, threads_setSlot, if_neg hwt.symm, if_pos]
  have hslot : ∀ j, s'.slots j = if j = i then { s.slots i with replied := true }
      else s.slots j := by
    intro j
    rw [← hs']
    simp only [slots_setPc, slots_setThread, slots_setSlot]
  have hwakes : s'.wakes = s.wakes := by
    rw [← hs']
    rfl
  have hkeep : ∀ {x j g}, Owns s x j g → Owns s' x j g := by
    intro x j g ho
    by_cases hj : j = i
    · subst hj
      exact ⟨by rw [hslot, if_pos rfl]; exact ho.generation_eq,
        by rw [hslot, if_pos rfl]; exact ho.live, by rw [hslot, if_pos rfl]; exact ho.waiter_eq⟩
    · exact ho.of_slot_eq (by rw [hslot, if_neg hj])
  have hclaimedw : Claimed s' w := by
    refine ⟨?_, ?_, ?_, by rw [hwakes]; exact hnw, ?_⟩ <;> rw [hthw]
    · exact hblocked
    · rfl
    · rfl
    · exact ⟨i, _, hwpc⟩
  have hserved : ∀ {r w'}, Serves s r w' → w' ≠ t ∧ w' ≠ w := by
    intro r w' hsrv
    refine ⟨h.served_ne hawake.not_blocked hsrv, ?_⟩
    rintro rfl
    exact hnc (h.claimed_of_serves hsrv)
  have hframe : ∀ x, x ≠ t → x ≠ w → Frame s s' x := by
    intro x hx hxw
    refine ⟨hthx x hx hxw, fun j g _ ho => hkeep ho, ?_, ?_, ?_, fun j w' g _ ho => hkeep ho⟩
    · intro j g ho hr _
      have hj : j ≠ i := by
        rintro rfl
        have hx' := ho.waiter_eq
        rw [hwaiter] at hx'
        exact hxw (some.inj hx').symm
      rw [hslot, if_neg hj]
      exact hr
    · intro hc
      exact hc.frame (hthx x hx hxw) (by rw [hwakes]; exact hc.not_woken)
    · intro w' hsrv
      have hc := h.claimed_of_serves hsrv
      exact hc.frame (hthx w' (hserved hsrv).1 (hserved hsrv).2) (by rw [hwakes]; exact hc.not_woken)
  -- a replier of the new state is `t` with `w`, or one of the old state
  have hback : ∀ {r w'}, Serves s' r w' → r = t ∧ w' = w ∨ Serves s r w' := by
    intro r w' hsrv
    by_cases hr : r = t
    · left
      subst hr
      rcases hsrv with ⟨j, hw⟩ | hw
      · rw [htht] at hw
        exact ⟨rfl, (Pc.answering.inj hw).2.symm⟩
      · rw [htht] at hw
        cases hw
    · by_cases hrw : r = w
      · subst hrw
        rcases hsrv with ⟨j, hw⟩ | hw
        · rw [hthw] at hw
          exact absurd (hwpc.symm.trans hw) nofun
        · rw [hthw] at hw
          exact absurd (hwpc.symm.trans hw) nofun
      · exact .inr (hsrv.of_thread_eq (hthx r hr hrw))
  refine ⟨?_, ?_, ?_, by rw [hwakes]; exact h.nodup⟩
  · intro x
    by_cases hx : x = t
    · subst hx
      unfold ThreadOk
      rw [htht]
      refine ⟨⟨?_, ?_⟩, hclaimedw, _, hkeep howns⟩ <;> rw [htht]
      · exact hawake.not_blocked
      · exact hawake.wait_none
    · by_cases hxw : x = w
      · subst hxw
        have hpcx : (s'.threads x).pc = .waiting i (s.slots i).generation := by
          rw [hthw]
          exact hwpc
        unfold ThreadOk
        rw [hpcx]
        exact .claimed hclaimedw
      · exact (h.ok x).frame (hframe x hx hxw)
  · intro r r' w' hr hr'
    rcases hback hr with ⟨hrt, hw'⟩ | hr0
    · rcases hback hr' with ⟨hrt', -⟩ | hr0'
      · rw [hrt, hrt']
      · exact absurd hw' (hserved hr0').2
    · rcases hback hr' with ⟨-, hw'⟩ | hr0'
      · exact absurd hw' (hserved hr0).2
      · exact h.unique hr0 hr0'
  · intro x hx
    rw [hwakes] at hx
    have hxt : x ≠ t := by
      rintro rfl
      exact h.not_pending hawake.not_blocked hx
    have hxw : x ≠ w := by
      rintro rfl
      exact hnw hx
    rw [hthx x hxt hxw]
    exact h.pending x hx

theorem inv_answer (h : Inv s) (horder : Orderly s (.answer t))
    (hs : step s (.answer t) = some s') : Inv s' := by
  simp only [step] at hs
  split at hs
  case h_2 => cases hs
  case h_1 i hpc =>
    have hawake := awake_of_replying h hpc
    rw [← some.inj hs]
    unfold State.answerRecord
    by_cases hdone : (s.slots i).state = .resolved ∨ (s.slots i).replied = true
    · rw [if_pos hdone]
      exact inv_setPc_user h hawake
    · rw [if_neg hdone]
      have hslot : ∀ j, (s.setSlot i fun slot => { slot with replied := true }).slots j
          = if j = i then { s.slots i with replied := true } else s.slots j :=
        fun j => slots_setSlot s i j _
      have howns : ∀ {x j g}, Owns s x j g →
          Owns (s.setSlot i fun slot => { slot with replied := true }) x j g := by
        intro x j g ho
        by_cases hj : j = i
        · subst hj
          exact ⟨by rw [hslot, if_pos rfl]; exact ho.generation_eq,
            by rw [hslot, if_pos rfl]; exact ho.live, by rw [hslot, if_pos rfl]; exact ho.waiter_eq⟩
        · exact ho.of_slot_eq (by rw [hslot, if_neg hj])
      -- whoever still counts on the reply not being made is the waiter, asleep on it
      have hcounts : ∀ {x j g}, Owns s x j g →
          ((∃ d, (s.threads x).pc = .published j g d) ∨ (s.threads x).wait = .reply j g) →
          j = i → (s.slots i).waiter = some x ∧
            s.claimable x (.reply i (s.slots i).generation) := by
        intro x j g ho hwhere hj
        subst hj
        refine ⟨ho.waiter_eq, ?_⟩
        rcases hwhere with ⟨d, hpub⟩ | hwait
        · exact absurd hpub (horder _ x hpc ho.waiter_eq g d)
        · rw [ho.generation_eq]
          exact ⟨(h.asleep hwait).2.1, hwait⟩
      -- nobody is woken: no thread was asleep on this reply
      have hstored : (∀ w, (s.slots i).waiter = some w →
          ¬ s.claimable w (.reply i (s.slots i).generation)) →
          Inv ((s.setSlot i fun slot => { slot with replied := true }).setPc t .user) := by
        intro hnone
        refine h.of_frames rfl ?_ (h.not_pending hawake.not_blocked)
          (threadOk_user hawake.not_blocked hawake.wait_none) fun w hw =>
            absurd hw (not_serves_setPc rfl w)
        · intro x hx
          have hthx : ∀ y, y ≠ t → ((s.setSlot i fun slot =>
              { slot with replied := true }).setPc t .user).threads y = s.threads y := by
            intro y hy
            simp only [threads_setPc, threads_setSlot, if_neg hy]
          refine ⟨hthx x hx, fun j g _ ho => (howns ho).of_slot_eq rfl, ?_, ?_, ?_,
            fun j w g _ ho => (howns ho).of_slot_eq rfl⟩
          · intro j g ho hr hwhere
            have hj : j ≠ i := fun hj =>
              hnone x (hcounts ho hwhere hj).1 (hcounts ho hwhere hj).2
            rw [slots_setPc, hslot, if_neg hj]
            exact hr
          · intro hc
            exact hc.frame (hthx x hx) hc.not_woken
          · intro w hsrv
            have hc := h.claimed_of_serves hsrv
            exact hc.frame (hthx w (h.served_ne hawake.not_blocked hsrv)) hc.not_woken
      split
      case h_2 hnone =>
        refine hstored fun w hw => ?_
        rw [hnone] at hw
        cases hw
      case h_1 w hwaiter =>
        by_cases hclaim : s.claimable w (.reply i (s.slots i).generation)
        · rw [if_pos hclaim]
          exact inv_answer_claimed h hpc hwaiter hclaim
        · rw [if_neg hclaim]
          refine hstored fun w' hw' => ?_
          rw [hwaiter] at hw'
          rw [← some.inj hw']
          exact hclaim

end Thalyx.Kernel.Handoff
