/-
Admissions, and the result: in an orderly run no reply is lost.
-/
import ThalyxKernel.Kernel.Handoff.Replier

namespace Thalyx.Kernel.Handoff

open Option

/-! An admission writes an empty slot, which nobody owns, and may claim a receiver. -/

variable {s : State}
variable {e i t : Nat}

theorem inv_setSlot_of_empty (h : Inv s) (hempty : (s.slots i).state = .empty)
    (f : Slot → Slot) : Inv (s.setSlot i f) := by
  have hne : ∀ {x j g}, Owns s x j g → j ≠ i := by
    rintro x j g ho rfl
    rcases ho.live with hl | hl
    · rw [hempty] at hl
      cases hl
    · rw [hempty] at hl
      cases hl
  refine h.of_slots rfl rfl ?_ ?_
  · intro x j g ho
    exact ho.of_slot_eq (by rw [slots_setSlot, if_neg (hne ho)])
  · intro x j g ho
    rw [slots_setSlot, if_neg (hne ho)]

theorem threadOk_receiving (hpc : (s.threads t).pc = .receiving e)
    (hwait : (s.threads t).wait = .none) : ThreadOk s t := by
  unfold ThreadOk
  rw [hpc]
  exact Or.inl hwait

/-- What `take_receiver` leaves: the invariant, every slot, and every thread but the
receiver it claims, which waits for nothing any more. -/
structure Taken (s s' : State) (receiver : Option Nat) : Prop where
  inv : Inv s'
  slots_eq : s'.slots = s.slots
  wakes_eq : s'.wakes = s.wakes
  threads_eq : ∀ x, receiver ≠ some x → s'.threads x = s.threads x
  claimed : ∀ r, receiver = some r → r ∉ s.wakes ∧ (s.threads r).blocked = true ∧
    (s'.threads r).wait = .none ∧ (s'.threads r).blocked = true ∧
      ∃ e, (s'.threads r).pc = .receiving e

theorem takeReceiver_taken (h : Inv s) (e : Nat) (l : List Nat) :
    Taken s (s.takeReceiver e l).1 (s.takeReceiver e l).2 := by
  induction l with
  | nil =>
    exact ⟨h.of_eq rfl rfl rfl, rfl, rfl, fun _ _ => rfl, fun r hr => by cases hr⟩
  | cons t rest ih =>
    unfold State.takeReceiver
    by_cases hclaim : s.claimable t (.receive e)
    · rw [if_pos hclaim]
      obtain ⟨hblocked, hwait⟩ := hclaim
      obtain ⟨hnw, hnc⟩ := h.of_wait_ne (t := t) (by rw [hwait]; exact nofun)
      have hpc := h.receiving_of_wait hwait
      have hinv : Inv (s.setThread t fun th => th.claim .ok) := by
        refine h.set_record rfl hnc hnw (threadOk_receiving (e := e) ?_ ?_) <;>
          simp only [threads_setThread, if_pos, Thread.claim, hpc]
      refine ⟨hinv.of_eq rfl rfl rfl, rfl, rfl, ?_, ?_⟩
      · intro x hx
        have hxt : x ≠ t := fun hxt => hx (by rw [hxt])
        simp only [threads_setChannel, threads_setThread, if_neg hxt]
      · intro r hr
        obtain rfl := some.inj hr
        simp only [threads_setChannel, threads_setThread, if_pos, Thread.claim]
        exact ⟨hnw, hblocked, trivial, hblocked, e, hpc⟩
    · rw [if_neg hclaim]
      exact ih

theorem inv_wake_receiver {r : Nat} (h : Inv s) (hnw : r ∉ s.wakes)
    (hwait : (s.threads r).wait = .none) (hblocked : (s.threads r).blocked = true)
    (hpc : (s.threads r).pc = .receiving e) : Inv { s with wakes := r :: s.wakes } := by
  refine h.push_wake ⟨hwait, hblocked⟩ hnw ?_ ?_
  · intro x hsrv
    obtain ⟨i, g, hw⟩ := (h.claimed_of_serves hsrv).is_waiting
    rw [hpc] at hw
    cases hw
  · exact threadOk_receiving hpc hwait

/-- What the end of an admission leaves: the invariant, every thread but the receiver,
and every slot but for the state of the one admitted, which stays live. -/
theorem handOver_spec {receiver : Option Nat} (takes : Bool) (h : Inv s)
    (hclaimed : ∀ r, receiver = some r → r ∉ s.wakes ∧ (s.threads r).wait = .none ∧
      (s.threads r).blocked = true ∧ ∃ e, (s.threads r).pc = .receiving e)
    (hlive : (s.slots i).live) :
    Inv (s.handOver e i receiver takes) ∧
      (∀ x, receiver ≠ some x → (s.handOver e i receiver takes).threads x = s.threads x) ∧
      ((s.handOver e i receiver takes).slots i).live ∧
      ((s.handOver e i receiver takes).slots i).generation = (s.slots i).generation ∧
      ((s.handOver e i receiver takes).slots i).waiter = (s.slots i).waiter ∧
      ((s.handOver e i receiver takes).slots i).replied = (s.slots i).replied := by
  cases receiver with
  | none => exact ⟨h.of_eq rfl rfl rfl, fun _ _ => rfl, hlive, rfl, rfl, rfl⟩
  | some r =>
    obtain ⟨hnw, hwait, hblocked, e', hpc⟩ := hclaimed r rfl
    unfold State.handOver
    dsimp only
    split
    · have hticket := inv_issueTicket h i (s.threads r).domain
      have hnc : ¬ Claimed (s.issueTicket i (s.threads r).domain) r :=
        not_claimed_of_pc fun j g hw => by
          have hpc' : (s.threads r).pc = .waiting j g := hw
          rw [hpc] at hpc'
          cases hpc'
      have hrecord : Inv ((s.issueTicket i (s.threads r).domain).setThread r fun th =>
          { th with wakeAux := i + 1 }) := by
        refine hticket.set_record rfl hnc hnw (threadOk_receiving (e := e') ?_ ?_)
        · rw [threads_setThread, if_pos rfl]
          exact hpc
        · rw [threads_setThread, if_pos rfl]
          exact hwait
      refine ⟨?_, ?_, ?_, ?_, ?_, ?_⟩
      · refine inv_wake_receiver (e := e') hrecord hnw ?_ ?_ ?_ <;>
          rw [threads_setThread, if_pos rfl]
        · exact hwait
        · exact hblocked
        · exact hpc
      · intro x hx
        have hxr : x ≠ r := fun hxr => hx (by rw [hxr])
        simp only [threads_setThread, if_neg hxr]
        rfl
      all_goals
        simp only [slots_setThread, slots_issueTicket, if_pos]
      · exact Or.inr rfl
    · refine ⟨?_, fun _ _ => rfl, hlive, rfl, rfl, rfl⟩
      have hwoken := inv_wake_receiver h hnw hwait hblocked hpc
      exact hwoken.of_eq rfl rfl rfl

theorem inv_admit {s' : State} {d : Nat} {waits takes : Bool} (h : Inv s)
    (hs : step s (.admitMessage t e i waits d takes) = some s') : Inv s' := by
  obtain ⟨hgo, hs⟩ := ite_none_right_eq_some.mp hs
  obtain ⟨hpc, hrunning, hempty⟩ := hgo
  generalize hs1 : s.setSlot i (fun _ =>
    { state := .admitted, generation := (s.slots i).generation + 1
      waiter := if waits then some t else none, replied := false }) = s1 at hs
  have h1 : Inv s1 := hs1 ▸ inv_setSlot_of_empty h hempty _
  have hslot1 : s1.slots i = { state := .admitted, generation := (s.slots i).generation + 1
                               waiter := if waits then some t else none, replied := false } := by
    rw [← hs1, slots_setSlot, if_pos rfl]
  have hthread1 : s1.threads = s.threads := by
    rw [← hs1]
    rfl
  have htaken := takeReceiver_taken h1 e (s1.channels e).receivers
  generalize hs2 : s1.takeReceiver e (s1.channels e).receivers = taken at hs htaken
  obtain ⟨s2, receiver⟩ := taken
  dsimp only at hs htaken
  have hlive : (s2.slots i).live := by
    rw [htaken.slots_eq, hslot1]
    exact Or.inl rfl
  obtain ⟨hinv, hthreads, hlive', hgen, hwaiter, hreplied⟩ :=
    handOver_spec (e := e) takes htaken.inv
      (fun r hr => by
        obtain ⟨hnw, -, hwait, hblocked, hrecv⟩ := htaken.claimed r hr
        exact ⟨htaken.wakes_eq ▸ hnw, hwait, hblocked, hrecv⟩) hlive
  -- the caller is running, so it is not the receiver that was claimed
  have hnot : receiver ≠ some t := by
    intro hr
    have hblocked := (htaken.claimed t hr).2.1
    rw [hthread1, hrunning] at hblocked
    cases hblocked
  have hthread : (s2.handOver e i receiver takes).threads t = s.threads t := by
    rw [hthreads t hnot, htaken.threads_eq t hnot, hthread1]
  cases waits with
  | false =>
    rw [← some.inj hs]
    exact hinv
  | true =>
    rw [← some.inj hs]
    have hawake := awake_of_user h hpc
    refine hinv.goes rfl rfl (fun _ _ => rfl) (by rw [hthread]; exact hrunning) rfl ?_
    · unfold ThreadOk
      simp only [threads_setPc, if_pos]
      refine ⟨⟨?_, ?_⟩, ⟨?_, ?_, ?_⟩, ?_⟩
      · simp only [threads_setPc, if_pos, hthread]
        exact hrunning
      · simp only [threads_setPc, if_pos, hthread]
        exact hawake.wait_none
      · rw [slots_setPc, hgen, htaken.slots_eq, hslot1]
      · exact hlive'
      · rw [slots_setPc, hwaiter, htaken.slots_eq, hslot1]
        rfl
      · rw [slots_setPc, hreplied, htaken.slots_eq, hslot1]

/-! ### The result -/

/-- **One orderly section keeps the invariant.** -/
theorem inv_step {s' : State} {a : Action} (h : Inv s) (horder : Orderly s a)
    (hs : step s a = some s') : Inv s' := by
  cases a with
  | admitMessage t e i waits d takes => exact inv_admit h hs
  | register t =>
    simp only [step] at hs
    split at hs
    · rename_i hpc
      rw [← some.inj hs]
      exact inv_register h hpc
    · cases hs
  | resume t => exact inv_resume h hs
  | finish t => exact inv_finish h hs
  | release t => exact inv_release h hs
  | receive t e d ticketed => exact inv_receive h hs
  | received t => exact inv_received h hs
  | reply t i => exact inv_reply h hs
  | refuse t => exact inv_refuse h hs
  | answer t => exact inv_answer h horder hs
  | defer t => exact inv_defer h hs
  | wake t => exact inv_wake h hs
  | expire t => exact inv_expire h hs
  | close domain i g => exact inv_close h hs

/-- **In every run in which no replier consumes the record of a caller that has yet to
register its wait, no reply is lost.** -/
theorem no_reply_lost {s : State} (h : (system.within Orderly).Reachable s) : ¬ Lost s := by
  have hinv : Inv s := by
    refine h.invariant ?_ ?_
    · rintro s ⟨domainOf, rfl⟩
      exact inv_initial domainOf
    · intro s a s' hs hstep
      exact inv_step hs hstep.1 hstep.2
  exact hinv.not_lost

/-- The same call with the wait registered first, up to the server's record hold. -/
def answeredRun : List Action :=
  [.admitMessage 0 0 0 true 0 true, .register 0, .receive 1 0 0 true, .reply 1 0]

/-- The orderly run of the same call: the server replies to a registered caller, which is
left claimed and not lost. -/
theorem registered_caller_is_answered :
    ∃ s, (system.within Orderly).Reachable s ∧ (s.slots 0).replied = true ∧ ¬ Lost s := by
  have hrun : (System.exec step answeredRun (initial fun t => t)).isSome = true := by decide
  obtain ⟨s, hs⟩ := isSome_iff_exists.mp hrun
  have hreach : (system.within Orderly).Reachable s := by
    refine System.reachable_within_of_exec (.init ⟨_, rfl⟩) ?_ hs
    intro a ha t
    simp only [answeredRun, List.mem_cons, List.not_mem_nil, or_false] at ha
    rcases ha with rfl | rfl | rfl | rfl <;> trivial
  have hanswer : (step s (.answer 1)).isSome = true := by
    rw [← some.inj hs]
    decide
  obtain ⟨s', hs'⟩ := isSome_iff_exists.mp hanswer
  have horder : Orderly s (.answer 1) := by
    intro i w hpc hw g d hpub
    have hi : i = 0 := by
      rw [← some.inj hs] at hpc
      exact (Pc.replying.inj hpc).symm
    subst hi
    rw [← some.inj hs] at hw hpub
    have hw0 : w = 0 := (some.inj hw).symm
    subst hw0
    cases hpub
  refine ⟨s', hreach.step ⟨horder, hs'⟩, ?_, no_reply_lost (hreach.step ⟨horder, hs'⟩)⟩
  rw [← some.inj hs] at hs'
  rw [← some.inj hs']
  decide

end Thalyx.Kernel.Handoff
