/-
The invariant behind replies that are not lost.

What each thread may rely on depends on where it stands: a caller that has published
owns its slot and its reply has not been made; one that sleeps is registered on a reply
that has not been made, or was claimed, answered or timed out; a replier that claimed a
caller is the only one on its way to waking it.  `Inv` collects this for all threads.

A section touches one or two threads and at most one slot, so most of the work is the
frame: `Frame` lists what a thread relies on, and the `Inv.of_…` lemmas are the shapes of
section that keep it.
-/
import ThalyxKernel.Kernel.Handoff.Model

namespace Thalyx.Kernel.Handoff

/-! ### Reading a state after an update -/

@[simp] theorem threads_setThread (s : State) (t x : Nat) (f : Thread → Thread) :
    (s.setThread t f).threads x = if x = t then f (s.threads t) else s.threads x := by
  simp only [State.setThread, Function.update_apply]

@[simp] theorem slots_setThread (s : State) (t : Nat) (f : Thread → Thread) :
    (s.setThread t f).slots = s.slots := rfl

@[simp] theorem wakes_setThread (s : State) (t : Nat) (f : Thread → Thread) :
    (s.setThread t f).wakes = s.wakes := rfl

@[simp] theorem slots_setSlot (s : State) (i x : Nat) (f : Slot → Slot) :
    (s.setSlot i f).slots x = if x = i then f (s.slots i) else s.slots x := by
  simp only [State.setSlot, Function.update_apply]

@[simp] theorem threads_setSlot (s : State) (i : Nat) (f : Slot → Slot) :
    (s.setSlot i f).threads = s.threads := rfl

@[simp] theorem wakes_setSlot (s : State) (i : Nat) (f : Slot → Slot) :
    (s.setSlot i f).wakes = s.wakes := rfl

@[simp] theorem threads_setChannel (s : State) (e : Nat) (f : Channel → Channel) :
    (s.setChannel e f).threads = s.threads := rfl

@[simp] theorem slots_setChannel (s : State) (e : Nat) (f : Channel → Channel) :
    (s.setChannel e f).slots = s.slots := rfl

@[simp] theorem wakes_setChannel (s : State) (e : Nat) (f : Channel → Channel) :
    (s.setChannel e f).wakes = s.wakes := rfl

@[simp] theorem threads_setPc (s : State) (t x : Nat) (pc : Pc) :
    (s.setPc t pc).threads x = if x = t then { s.threads t with pc } else s.threads x := by
  simp only [State.setPc, threads_setThread]

@[simp] theorem slots_setPc (s : State) (t : Nat) (pc : Pc) : (s.setPc t pc).slots = s.slots := rfl

@[simp] theorem wakes_setPc (s : State) (t : Nat) (pc : Pc) : (s.setPc t pc).wakes = s.wakes := rfl

/-! ### The invariant -/

/-- `t` is the waiter of the invocation `g` of slot `i`, which is not discharged. -/
structure Owns (s : State) (t i g : Nat) : Prop where
  generation_eq : (s.slots i).generation = g
  live : (s.slots i).live
  waiter_eq : (s.slots i).waiter = some t

variable {s s' : State} {i r t w : Nat}
variable {g x : Nat}

theorem Owns.of_slot_eq (h : Owns s t i g) (hs : s'.slots i = s.slots i) : Owns s' t i g := by
  refine ⟨?_, ?_, ?_⟩ <;> rw [hs]
  · exact h.generation_eq
  · exact h.live
  · exact h.waiter_eq

/-- `w`'s wait on a reply was consumed by a replier that has not deferred the wake yet. -/
structure Claimed (s : State) (w : Nat) : Prop where
  blocked : (s.threads w).blocked = true
  wait_none : (s.threads w).wait = .none
  status_ok : (s.threads w).wakeStatus = .ok
  not_woken : w ∉ s.wakes
  is_waiting : ∃ i g, (s.threads w).pc = .waiting i g

/-- Neither blocked nor about to be woken. -/
structure Awake (s : State) (t : Nat) : Prop where
  not_blocked : (s.threads t).blocked = false
  wait_none : (s.threads t).wait = .none

/-- A caller in `block_current`: asleep on a reply that has not been made; claimed by a
replier; with its answer laid out; or timed out with the invocation still its own. -/
inductive InWait (s : State) (t i g : Nat) : Prop where
  | asleep (hblocked : (s.threads t).blocked = true) (hwait : (s.threads t).wait = .reply i g)
      (howns : Owns s t i g) (hreply : (s.slots i).replied = false)
  | claimed (h : Claimed s t)
  | answered (hwait : (s.threads t).wait = .none) (hok : (s.threads t).wakeStatus = .ok)
      (haux : (s.threads t).wakeAux ≠ 0)
  | expired (hwait : (s.threads t).wait = .none) (hst : (s.threads t).wakeStatus = .timedOut)
      (howns : Owns s t i g)

/-- What a thread may rely on where it stands. -/
def ThreadOk (s : State) (t : Nat) : Prop :=
  match (s.threads t).pc with
  | .user => Awake s t
  | .published i g _ => Awake s t ∧ Owns s t i g ∧ (s.slots i).replied = false
  | .waiting i g => InWait s t i g
  | .returned i g => Awake s t ∧ Owns s t i g
  | .releasing i => Awake s t ∧ ∃ g, Owns s t i g
  | .receiving e => (s.threads t).wait = .none ∨
      (s.threads t).blocked = true ∧ (s.threads t).wait = .receive e
  | .replying _ => Awake s t
  | .answering i w => Awake s t ∧ Claimed s w ∧ ∃ g, Owns s w i g
  | .waking w => Awake s t ∧ Claimed s w

/-- `r` has claimed `w`'s wait and is on its way to waking it. -/
def Serves (s : State) (r w : Nat) : Prop :=
  (∃ i, (s.threads r).pc = .answering i w) ∨ (s.threads r).pc = .waking w

/-- **The invariant.**  Each thread finds what it relies on; a claimed caller has one
replier; a thread whose wake is on its way waits for nothing. -/
structure Inv (s : State) : Prop where
  ok : ∀ t, ThreadOk s t
  unique : ∀ {r r' w}, Serves s r w → Serves s r' w → r = r'
  pending : ∀ t ∈ s.wakes, (s.threads t).wait = .none ∧ (s.threads t).blocked = true
  nodup : s.wakes.Nodup

theorem not_claimed_of_pc (h : ∀ i g, (s.threads t).pc ≠ .waiting i g) : ¬ Claimed s t := by
  intro hc
  obtain ⟨i, g, hpc⟩ := hc.is_waiting
  exact h i g hpc

theorem Inv.claimed_of_serves (h : Inv s) (hs : Serves s r w) : Claimed s w := by
  have hr := h.ok r
  unfold ThreadOk at hr
  rcases hs with ⟨i, hpc⟩ | hpc
  · rw [hpc] at hr
    exact hr.2.1
  · rw [hpc] at hr
    exact hr.2

theorem Inv.waiting (h : Inv s) (hwait : (s.threads t).wait ≠ .none) :
    (∃ i g, (s.threads t).wait = .reply i g ∧ (s.threads t).pc = .waiting i g ∧
      (s.threads t).blocked = true ∧ Owns s t i g ∧ (s.slots i).replied = false) ∨
    ∃ e, (s.threads t).wait = .receive e ∧ (s.threads t).pc = .receiving e := by
  have ht := h.ok t
  unfold ThreadOk at ht
  split at ht
  case h_1 => exact absurd ht.wait_none hwait
  case h_2 => exact absurd ht.1.wait_none hwait
  case h_3 i g hpc =>
    cases ht with
    | asleep hb hw ho hr => exact .inl ⟨i, g, hw, hpc, hb, ho, hr⟩
    | claimed hc => exact absurd hc.wait_none hwait
    | answered hw => exact absurd hw hwait
    | expired hw => exact absurd hw hwait
  case h_4 => exact absurd ht.1.wait_none hwait
  case h_5 => exact absurd ht.1.wait_none hwait
  case h_6 e hpc =>
    rcases ht with hw | ⟨-, hw⟩
    · exact absurd hw hwait
    · exact .inr ⟨e, hw, hpc⟩
  case h_7 => exact absurd ht.wait_none hwait
  case h_8 => exact absurd ht.1.wait_none hwait
  case h_9 => exact absurd ht.1.wait_none hwait

theorem Inv.asleep (h : Inv s) (hwait : (s.threads t).wait = .reply i g) :
    (s.threads t).pc = .waiting i g ∧ (s.threads t).blocked = true ∧ Owns s t i g ∧
      (s.slots i).replied = false := by
  rcases h.waiting (t := t) (by rw [hwait]; exact nofun) with ⟨i', g', hw, hrest⟩ | ⟨e, hw, -⟩
  · obtain ⟨rfl, rfl⟩ := Wait.reply.inj (hwait.symm.trans hw)
    exact hrest
  · exact absurd (hwait.symm.trans hw) nofun

/-- **A state with the invariant has no lost reply.** -/
theorem Inv.not_lost (h : Inv s) : ¬ Lost s := by
  rintro ⟨t, i, g, -, hwait, -, hreplied, -⟩
  have hr := (h.asleep hwait).2.2.2
  rw [hreplied] at hr
  cases hr

theorem inv_initial (domainOf : Nat → Nat) : Inv (initial domainOf) := by
  refine ⟨fun t => ⟨rfl, rfl⟩, ?_, ?_, List.nodup_nil⟩
  · rintro r r' w (⟨i, h⟩ | h) - <;> cases h
  · intro t ht
    cases ht

/-! ### What a step leaves alone

A section touches one or two threads and at most one slot.  For every other thread it
is enough that what the thread relies on is kept. -/

/-- What `x` relies on is kept from `s` to `s'`. -/
structure Frame (s s' : State) (x : Nat) : Prop where
  thread_eq : s'.threads x = s.threads x
  owns : ∀ i g, ¬ Claimed s x → Owns s x i g → Owns s' x i g
  unanswered : ∀ i g, Owns s x i g → (s.slots i).replied = false →
    ((∃ d, (s.threads x).pc = .published i g d) ∨ (s.threads x).wait = .reply i g) →
    (s'.slots i).replied = false
  claimed : Claimed s x → Claimed s' x
  serves : ∀ w, Serves s x w → Claimed s' w
  answers : ∀ i w g, (s.threads x).pc = .answering i w → Owns s w i g → Owns s' w i g

theorem ThreadOk.frame (h : ThreadOk s x) (hf : Frame s s' x) : ThreadOk s' x := by
  have hth := hf.thread_eq
  have hawake : Awake s x → Awake s' x := fun ha =>
    ⟨by rw [hth]; exact ha.not_blocked, by rw [hth]; exact ha.wait_none⟩
  unfold ThreadOk at h ⊢
  rw [hth]
  split at h
  case h_1 => exact hawake h
  case h_2 i g d hpc =>
    have hnc : ¬ Claimed s x := not_claimed_of_pc fun i g => by rw [hpc]; exact nofun
    exact ⟨hawake h.1, hf.owns i g hnc h.2.1, hf.unanswered i g h.2.1 h.2.2 (.inl ⟨d, hpc⟩)⟩
  case h_3 i g hpc =>
    cases h with
    | asleep hb hw ho hr =>
      have hnc : ¬ Claimed s x := fun hc => by rw [hc.wait_none] at hw; cases hw
      exact .asleep (by rw [hth]; exact hb) (by rw [hth]; exact hw) (hf.owns i g hnc ho)
        (hf.unanswered i g ho hr (.inr hw))
    | claimed hc => exact .claimed (hf.claimed hc)
    | answered hw hok haux =>
      exact .answered (by rw [hth]; exact hw) (by rw [hth]; exact hok) (by rw [hth]; exact haux)
    | expired hw hst ho =>
      have hnc : ¬ Claimed s x := fun hc => by rw [hc.status_ok] at hst; cases hst
      exact .expired (by rw [hth]; exact hw) (by rw [hth]; exact hst) (hf.owns i g hnc ho)
  case h_4 i g hpc =>
    have hnc : ¬ Claimed s x := not_claimed_of_pc fun i g => by rw [hpc]; exact nofun
    exact ⟨hawake h.1, hf.owns i g hnc h.2⟩
  case h_5 i hpc =>
    have hnc : ¬ Claimed s x := not_claimed_of_pc fun i g => by rw [hpc]; exact nofun
    obtain ⟨ha, g, ho⟩ := h
    exact ⟨hawake ha, g, hf.owns i g hnc ho⟩
  case h_6 => exact h
  case h_7 => exact hawake h
  case h_8 i w hpc =>
    obtain ⟨ha, -, g, ho⟩ := h
    exact ⟨hawake ha, hf.serves w (.inl ⟨i, hpc⟩), g, hf.answers i w g hpc ho⟩
  case h_9 w hpc => exact ⟨hawake h.1, hf.serves w (.inr hpc)⟩

theorem Claimed.frame (h : Claimed s w)
    (hth : s'.threads w = s.threads w) (hw : w ∉ s'.wakes) : Claimed s' w := by
  refine ⟨?_, ?_, ?_, hw, ?_⟩
  · rw [hth]; exact h.blocked
  · rw [hth]; exact h.wait_none
  · rw [hth]; exact h.status_ok
  · rw [hth]; exact h.is_waiting

theorem Frame.of_slots_eq (h : Inv s) (hslots : s'.slots = s.slots)
    (hth : s'.threads x = s.threads x) (hwakes : Claimed s x → x ∉ s'.wakes)
    (hserved : ∀ w, Serves s x w → s'.threads w = s.threads w ∧ w ∉ s'.wakes) : Frame s s' x := by
  have howns : ∀ {t i g}, Owns s t i g → Owns s' t i g := fun ho =>
    ho.of_slot_eq (by rw [hslots])
  refine ⟨hth, fun i g _ ho => howns ho, ?_, fun hc => hc.frame hth (hwakes hc), ?_, ?_⟩
  · intro i g _ hr _
    rw [hslots]
    exact hr
  · intro w hs
    exact (h.claimed_of_serves hs).frame (hserved w hs).1 (hserved w hs).2
  · intro i w g _ ho
    exact howns ho

theorem Serves.of_thread_eq (h : Serves s' r w)
    (hth : s'.threads r = s.threads r) : Serves s r w := by
  unfold Serves at h ⊢
  rw [hth] at h
  exact h

theorem Inv.not_pending (h : Inv s) (hb : (s.threads t).blocked = false) : t ∉ s.wakes := by
  intro hmem
  have hblocked := (h.pending t hmem).2
  rw [hb] at hblocked
  cases hblocked

theorem Inv.of_frames (h : Inv s) (hwakes : s'.wakes = s.wakes)
    (hframe : ∀ x, x ≠ t → Frame s s' x) (hnw : t ∉ s.wakes) (hok : ThreadOk s' t)
    (hserves : ∀ w, Serves s' t w → Serves s t w) : Inv s' := by
  have hback : ∀ {r w}, Serves s' r w → Serves s r w := by
    intro r w hs
    by_cases hr : r = t
    · rw [hr] at hs ⊢
      exact hserves w hs
    · exact hs.of_thread_eq (hframe r hr).thread_eq
  refine ⟨?_, ?_, ?_, ?_⟩
  · intro x
    by_cases hx : x = t
    · rw [hx]
      exact hok
    · exact (h.ok x).frame (hframe x hx)
  · intro r r' w hr hr'
    exact h.unique (hback hr) (hback hr')
  · intro x hx
    rw [hwakes] at hx
    have hxt : x ≠ t := fun hxt => hnw (hxt ▸ hx)
    rw [(hframe x hxt).thread_eq]
    exact h.pending x hx
  · rw [hwakes]
    exact h.nodup

theorem not_claimed_of_running (h : (s.threads t).blocked = false) : ¬ Claimed s t := by
  intro hc
  have hb := hc.blocked
  rw [h] at hb
  cases hb

theorem Inv.served_ne (h : Inv s)
    (hrunning : (s.threads t).blocked = false) (hs : Serves s r w) : w ≠ t := by
  intro hw
  rw [hw] at hs
  exact not_claimed_of_running hrunning (h.claimed_of_serves hs)

theorem Inv.of_thread (h : Inv s) (hslots : s'.slots = s.slots)
    (hwakes : s'.wakes = s.wakes) (hth : ∀ x, x ≠ t → s'.threads x = s.threads x)
    (hrunning : (s.threads t).blocked = false) (hok : ThreadOk s' t)
    (hserves : ∀ w, Serves s' t w → Serves s t w) : Inv s' := by
  refine h.of_frames hwakes ?_ (h.not_pending hrunning) hok hserves
  intro x hx
  refine Frame.of_slots_eq h hslots (hth x hx) ?_ ?_
  · intro hc
    rw [hwakes]
    exact hc.not_woken
  · intro w hs
    rw [hwakes]
    exact ⟨hth w (h.served_ne hrunning hs), (h.claimed_of_serves hs).not_woken⟩

theorem Inv.of_owned (h : Inv s)
    (hwaiter : (s.slots i).waiter = some t) (hslots : ∀ j, j ≠ i → s'.slots j = s.slots j)
    (hwakes : s'.wakes = s.wakes) (hth : ∀ x, x ≠ t → s'.threads x = s.threads x)
    (hrunning : (s.threads t).blocked = false) (hok : ThreadOk s' t)
    (hserves : ∀ w, Serves s' t w → Serves s t w) : Inv s' := by
  -- nobody else can own the slot, and nobody else can be answering for it
  have hother : ∀ {x j g}, x ≠ t → Owns s x j g → j ≠ i := by
    intro x j g hx ho hj
    rw [hj] at ho
    have hw := ho.waiter_eq
    rw [hwaiter] at hw
    exact hx (Option.some.inj hw).symm
  have hkeep : ∀ {x j g}, x ≠ t → Owns s x j g → Owns s' x j g := by
    intro x j g hx ho
    exact ho.of_slot_eq (hslots j (hother hx ho))
  refine h.of_frames hwakes ?_ (h.not_pending hrunning) hok hserves
  intro x hx
  refine ⟨hth x hx, fun j g _ ho => hkeep hx ho, ?_, ?_, ?_, ?_⟩
  · intro j g ho hr _
    rw [hslots j (hother hx ho)]
    exact hr
  · intro hc
    exact hc.frame (hth x hx) (by rw [hwakes]; exact hc.not_woken)
  · intro w hs
    have hc := h.claimed_of_serves hs
    exact hc.frame (hth w (h.served_ne hrunning hs)) (by rw [hwakes]; exact hc.not_woken)
  · intro j w g hpc ho
    exact hkeep (h.served_ne hrunning (.inl ⟨j, hpc⟩)) ho

/-- A place in which a thread wakes nobody. -/
def Pc.aside : Pc → Bool
  | .answering .. => false
  | .waking .. => false
  | _ => true

variable {pc : Pc}

theorem not_serves_setPc (haside : pc.aside = true) (w : Nat) : ¬ Serves (s.setPc t pc) t w := by
  unfold Serves
  simp only [threads_setPc, if_pos]
  rintro (⟨j, rfl⟩ | rfl) <;> cases haside

theorem Inv.goes {s₁ : State} (h : Inv s) (hslots : s₁.slots = s.slots)
    (hwakes : s₁.wakes = s.wakes) (hth : ∀ x, x ≠ t → s₁.threads x = s.threads x)
    (hrunning : (s.threads t).blocked = false) (haside : pc.aside = true)
    (hok : ThreadOk (s₁.setPc t pc) t) : Inv (s₁.setPc t pc) := by
  refine h.of_thread hslots hwakes ?_ hrunning hok fun w hw =>
    absurd hw (not_serves_setPc haside w)
  intro x hx
  rw [threads_setPc, if_neg hx, hth x hx]

theorem awake_setPc (hrunning : (s.threads t).blocked = false)
    (hwait : (s.threads t).wait = .none) : Awake (s.setPc t pc) t :=
  ⟨by simpa using hrunning, by simpa using hwait⟩

theorem threadOk_user (hrunning : (s.threads t).blocked = false)
    (hwait : (s.threads t).wait = .none) : ThreadOk (s.setPc t .user) t := by
  unfold ThreadOk
  simp only [threads_setPc, if_pos]
  exact awake_setPc hrunning hwait

theorem awake_of_user (h : Inv s) (hpc : (s.threads t).pc = .user) : Awake s t := by
  have ht := h.ok t
  unfold ThreadOk at ht
  rw [hpc] at ht
  exact ht

end Thalyx.Kernel.Handoff
