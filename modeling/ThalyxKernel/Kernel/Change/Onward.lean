/-
Admitted work over whole runs.

An identity is given to one invocation and never again, so work can be followed by it: what is
not discharged yet stays in its slot, where it was sent and on whose behalf, goes from the queue
to its receiver and never back, and an answer to it is not taken back.  Work that was discharged
is not found again, under its identity, in any later state.  The generations of the tables go
only up, as far as 32 bits go, so a reference that has become stale stays so.
-/
import ThalyxKernel.Kernel.Change.Work

namespace Thalyx.Kernel

open Function Machine

/-- Which work it is: where it was sent, on whose behalf, and by which grant. -/
def Record.sent (r : Record) : Nat × EndpointId × Nat × DomainId × Nat × Option GrantId :=
  (r.id, r.endpoint, r.endpointGeneration, r.originDomain, r.originDomainGeneration, r.grant)

/-- The same work, no less far on. -/
structure Record.CarriesOn (r r' : Record) : Prop where
  sent : r'.sent = r.sent
  delivered : r.state = .delivered → r'.state = .delivered
  replied : r.replied = true → r'.replied = true

/-- Undischarged work that is not newer than a state was undischarged in it, and is no less far
on since; and no generation has gone back. -/
structure Onward (s t : Machine) : Prop where
  nextObjectId : s.nextObjectId ≤ t.nextObjectId
  generation : ∀ object, min (s.generation object) u32Max ≤ t.generation object
  work : ∀ i, (t.invocations i).unresolved = true → (t.invocations i).id < s.nextObjectId →
    (s.invocations i).unresolved = true ∧
      (s.invocations i).record.CarriesOn (t.invocations i).record

namespace Onward

variable {s t u : Machine}

theorem trans (h : Onward s t) (h' : Onward t u) : Onward s u where
  nextObjectId := h.nextObjectId.trans h'.nextObjectId
  generation object :=
    (le_min (h.generation object) (min_le_right _ _)).trans (h'.generation object)
  work i hu hlt := by
    obtain ⟨hut, hon'⟩ := h'.work i hu (hlt.trans_le h.nextObjectId)
    have hid : (u.invocations i).id = (t.invocations i).id := congrArg Prod.fst hon'.sent
    obtain ⟨hus, hon⟩ := h.work i hut (hid ▸ hlt)
    exact ⟨hus, hon'.sent.trans hon.sent, fun hd => hon'.delivered (hon.delivered hd),
      fun hr => hon'.replied (hon.replied hr)⟩

theorem of_records (hn : s.nextObjectId ≤ t.nextObjectId)
    (hg : ∀ object, min (s.generation object) u32Max ≤ t.generation object)
    (h : ∀ i, (t.invocations i).unresolved = true →
      (t.invocations i).record = (s.invocations i).record) : Onward s t where
  nextObjectId := hn
  generation := hg
  work i hu _ := by
    have hrecord := h i hu
    have hstate : (t.invocations i).state = (s.invocations i).state :=
      congrArg Record.state hrecord
    refine ⟨?_, by rw [hrecord], fun hd => hstate.trans hd, fun hr => ?_⟩
    · unfold Invocation.unresolved at hu ⊢
      rwa [hstate] at hu
    · exact (congrArg Record.replied hrecord).trans hr

theorem of_same (hn : s.nextObjectId ≤ t.nextObjectId) (hg : t.generation = s.generation)
    (h : t.invocations = s.invocations) : Onward s t :=
  of_records hn (fun object => hg ▸ min_le_left _ _) fun i _ => by rw [h]

theorem refl (s : Machine) : Onward s s := of_same le_rfl rfl rfl

theorem renew (hn : s.nextObjectId ≤ t.nextObjectId) {object : Obj}
    (hg : t.generation = update s.generation object (s.nextGeneration object))
    (h : t.invocations = s.invocations) : Onward s t := by
  refine of_records hn (fun other => ?_) fun i _ => by rw [h]
  rw [hg]
  by_cases ho : other = object
  · subst ho
    rw [update_self]
    exact min_le_min_right _ (Nat.le_succ _)
  · rw [update_of_ne ho]
    exact min_le_left _ _

theorem foldl {ι : Type} {f : Machine → ι → Machine} (h : ∀ s i, Onward s (f s i))
    (l : List ι) (s : Machine) : Onward s (l.foldl f s) := by
  induction l generalizing s with
  | nil => exact refl s
  | cons i rest ih => exact (h s i).trans (ih _)

theorem of_core {n : Nat} (h : t.core = { s.core with nextObjectId := n })
    (hn : s.nextObjectId ≤ n) : Onward s t :=
  of_records (hn.trans_eq (congrArg Core.nextObjectId h).symm)
    (fun object => (min_le_left _ _).trans_eq (congrFun (congrArg Core.generation h) object).symm)
    fun i _ => congrFun (congrArg Core.invocations h) i

theorem aside (h : t.core = s.core) : Onward s t := of_core (n := s.nextObjectId) h le_rfl

theorem of_stands (h : Stands s t) : Onward s t := by
  refine of_records h.nextObjectId (fun object => h.generation ▸ min_le_left _ _) fun i hu => ?_
  rcases h.invocations i with ⟨hsame, -⟩ | ⟨-, hempty⟩
  · rw [hsame]
  · simp [Invocation.unresolved, hempty] at hu

theorem of_calm (h : Calm s t) : Onward s t :=
  of_same h.nextObjectId.ge h.generation h.invocations

theorem of_discharges {i : InvocationId} (h : Discharges i s t) : Onward s t := by
  refine of_records h.nextObjectId.ge (fun object => h.generation ▸ min_le_left _ _) fun j hu => ?_
  by_cases hj : j = i
  · subst hj
    rw [h.done] at hu
    cases hu
  · rw [(h.other j hj).1]

theorem setInvocation {i : InvocationId} {f : Invocation → Invocation}
    (h : (f (s.invocations i)).record = (s.invocations i).record) :
    Onward s (s.setInvocation i f) :=
  aside (Machine.setInvocation_core s i h)

end Onward

namespace Machine

variable {s t : Machine}

/-! ### Withdrawals -/

theorem unlink_onward (s : Machine) (e : EndpointId) (previous : Option MessageId)
    (m : MessageId) : Onward s (s.unlink e previous m) := by
  cases previous <;> exact .of_same le_rfl rfl rfl

theorem withdrawMessage_onward (s : Machine) (e : EndpointId) (previous : Option MessageId)
    (m : MessageId) (cancel : Cancel) : Onward s (s.withdrawMessage e previous m cancel) := by
  have hcarried : Onward (s.unlink e previous m)
      ((s.unlink e previous m).releaseCarried e (s.messages m).caps) := by
    unfold releaseCarried
    split
    · exact .refl _
    · exact .of_stands (releaseSlots_stands _ _ _)
  refine ((s.unlink_onward e previous m).trans hcarried).trans ?_
  unfold withdrawMessage
  dsimp only
  generalize (s.unlink e previous m).releaseCarried e (s.messages m).caps = u
  have hemptied : Onward u ((u.setMessage m fun _ => .empty).releaseMessage m) :=
    .of_same le_rfl rfl rfl
  exact hemptied.trans (.setInvocation rfl)

section Loop

variable {pick : Machine → InvocationId → Bool} {cancel : Cancel}
  {discharge : Machine → InvocationId → Machine}

theorem withdrawFrom_onward (hd : ∀ s i, Onward s (discharge s i)) (e : EndpointId) (n : Nat)
    (previous next : Option MessageId) (s : Machine) :
    Onward s (withdrawFrom pick cancel discharge e n previous next s) := by
  induction n generalizing previous next s with
  | zero => exact .refl s
  | succ n ih =>
    cases next with
    | none => exact .refl s
    | some m =>
      unfold withdrawFrom
      dsimp only
      split
      · exact (s.withdrawMessage_onward e previous m cancel).trans ((hd _ _).trans (ih _ _ _))
      · exact ih _ _ _

theorem withdrawAll_onward (hd : ∀ s i, Discharges i s (discharge s i)) :
    Onward s (s.withdrawAll pick cancel discharge) := by
  refine Onward.foldl (fun t e => ?_) _ s
  split
  · exact withdrawFrom_onward (fun s i => .of_discharges (hd s i)) e maxMessages none _ t
  · exact .refl t

end Loop

/-! ### Admissions and deliveries -/

variable {receiver : DomainId} {ticket : Handle} {i : InvocationId} {e : EndpointId}
  {m : MessageId}

theorem issueTicket_onward (h : s.issueTicket receiver i = (t, some ticket)) : Onward s t := by
  obtain ⟨g, u, v, hg, hc, rfl⟩ := Path.issueTicket_some h
  have hinstalled := u.capInstall_stands receiver ⟨.invocation i, s.generation (.invocation i)⟩
    (some g) none
  rw [hc] at hinstalled
  exact (Onward.of_stands ((grantAlloc_stands hg).trans hinstalled)).trans (.setInvocation rfl)

theorem giveUpGrant_onward (h : Onward s t) (grant : Option GrantId) (d : DomainId)
    (f : Domain → Domain) : Onward s ((t.dropGrantRef grant).setDomain d f) := by
  refine h.trans ?_
  cases grant <;> exact .of_same le_rfl rfl rfl

theorem dropFaultChannel_onward (s : Machine) (d : DomainId) :
    Onward s (s.dropFaultChannel d) := by
  unfold dropFaultChannel
  cases (s.domains d).faultEndpoint with
  | none => exact .refl s
  | some reference =>
    obtain ⟨object, generation⟩ := reference
    cases object with
    | endpoint e =>
      refine giveUpGrant_onward ?_ _ _ _
      dsimp only
      split <;> exact .of_same le_rfl rfl rfl
    | _ => exact giveUpGrant_onward (.refl s) _ _ _

theorem restate_onward {s : Machine} {p : Scopes → ScopeId → Bool} {state : ScopeState}
    (hp : Settled p) (hstate : state ≠ .empty) :
    Onward s (restate p state (List.finRange maxScopes) s) := by
  obtain ⟨fenced, heq⟩ := (restate_spec hp hstate (List.nodup_finRange _) s).2.1
  rw [heq]
  exact .of_same le_rfl rfl rfl

theorem markDelivered_onward (h : (s.invocations i).state = .admitted) :
    Onward s (s.markDelivered i) where
  nextObjectId := le_rfl
  generation _ := min_le_left _ _
  work j hu _ := by
    by_cases hj : j = i
    · subst hj
      have hself : (s.markDelivered j).invocations j =
          { s.invocations j with state := .delivered, message := none } := update_self _ _ _
      rw [hself]
      refine ⟨by simp [Invocation.unresolved, h], rfl, fun _ => rfl, id⟩
    · have hsame : (s.markDelivered i).invocations j = s.invocations j := update_of_ne hj _ _
      rw [hsame] at hu ⊢
      exact ⟨hu, rfl, id, id⟩

/-- **An admission is new work**, under an identity that was not given before. -/
theorem publish_onward (s : Machine) (ctx : Ctx) (e : EndpointId) (receiver : DomainId)
    (request : SendRequest) (kind : MessageKind) (waiter : Option ThreadId) (i : InvocationId)
    (m : MessageId) (charged : Nat) (installed : List DeliveredCap) :
    Onward s (s.counted.publish ctx e receiver request kind waiter i m s.nextObjectId charged
      installed) := by
  have hwritten := s.writeInvocation_written ctx e receiver i m waiter charged
  have hother : ∀ j, j ≠ i → (s.counted.writeInvocation ctx e receiver i m s.nextObjectId waiter
      charged).invocations j = s.invocations j := fun j hj => update_of_ne hj _ _
  have hnew : Onward s
      (s.counted.writeInvocation ctx e receiver i m s.nextObjectId waiter charged) := by
    refine ⟨hwritten.nextObjectId.le, fun object => ?_, fun j hu hlt => ?_⟩
    · show _ ≤ update s.generation (.invocation i) (s.generation (.invocation i) + 1) object
      by_cases ho : object = .invocation i
      · subst ho
        rw [update_self]
        exact (min_le_left _ _).trans (Nat.le_succ _)
      · rw [update_of_ne ho]
        exact min_le_left _ _
    by_cases hj : j = i
    · subst hj
      rw [hwritten.id] at hlt
      exact absurd hlt (lt_irrefl _)
    · rw [hother j hj] at hu ⊢
      exact ⟨hu, rfl, id, id⟩
  obtain ⟨u, hu, hends⟩ := s.counted.publish_cases ctx e receiver request kind waiter i m
    s.nextObjectId charged installed
  have hwritten' := hwritten.of_quiet (Quiet.aside hu)
  refine (hnew.trans (.aside hu)).trans ?_
  rcases hends with ⟨holder, t, ticket, -, -, ht, hcore⟩ | ⟨v, n, hn, hv, hcore⟩
  · have hstate := (hwritten'.of_quiet (issueTicket_quiet ht)).state
    refine (issueTicket_onward ht).trans ((markDelivered_onward hstate).trans ?_)
    have hreleased : Onward (t.markDelivered i) ((t.markDelivered i).releaseMessage m) :=
      .of_same le_rfl rfl rfl
    exact hreleased.trans (.aside hcore)
  · have hqueued : Onward v (v.enqueue e m i kind (request.payload.take request.payloadLen)
        installed charged) := by
      unfold enqueue
      dsimp only
      split <;> exact .of_same le_rfl rfl rfl
    exact (Onward.of_core hv hn).trans (hqueued.trans (.aside hcore))

/-- **A delivery takes admitted work out of its queue.** -/
theorem deliver_onward (hs : s.Queued) (he : (s.endpoints e).used = true)
    (hm : (s.endpoints e).head = some m) (h : s.deliver receiver e m = (t, .ok ticket)) :
    Onward s t := by
  obtain ⟨l, hl⟩ := hs.queue e he
  have hin : m ∈ l := by
    cases l with
    | nil => exact absurd (hm.symm.trans hl.chain) (by simp)
    | cons a after => exact Option.some.inj (hl.chain.1.symm.trans hm) ▸ List.mem_cons_self
  have hstate := (hs.carried m (hl.used m hin)).state
  unfold deliver at h
  dsimp only at h
  split at h
  · cases (Prod.mk.inj h).2
  · split at h
    · cases (Prod.mk.inj h).2
    · rename_i u ticket' hu
      have hkept := congrArg Work.state ((issueTicket_quiet hu).kept _ hstate)
      have hdelivered := markDelivered_onward (s := u.dequeue e m) (hkept.trans hstate)
      have hdequeued : Onward u (u.dequeue e m) := .of_same le_rfl rfl rfl
      refine (issueTicket_onward hu).trans (hdequeued.trans (hdelivered.trans ?_))
      exact (Prod.mk.inj h).1 ▸ .of_same le_rfl rfl rfl

end Machine

/-! ### Changes and runs -/

variable {drops : Machine → EndpointId → Prop} {s t : Machine}

/-- **Every change carries the admitted work on.** -/
theorem Change.onward (h : Change drops s t) (hs : s.InOrder) : Onward s t := by
  cases h with
  | aside h => exact .aside h
  | identity h hn => exact .of_core h hn
  | @capInstall _ domain object g at? handle h _ _ =>
    have hstands := s.capInstall_stands domain object (some g) at?
    rw [h] at hstands
    exact .of_stands hstands
  | @capRelease domain slot _ => exact .of_stands (s.capReleaseSlot_stands domain slot)
  | grantAlloc h _ => exact .of_stands (grantAlloc_stands h)
  | renew => exact .renew le_rfl rfl rfl
  | openScope => exact .renew (Nat.le_succ _) rfl rfl
  | openDomain => exact .renew le_rfl rfl rfl
  | openEndpoint => exact .renew le_rfl rfl rfl
  | placeBarrier root =>
    rw [placeBarrier_eq]
    exact restate_onward (settled_openWithin root) (by decide)
  | advanceQuiescence => exact restate_onward settled_drained (by decide)
  | retireScopes root =>
    rw [retireScopes_eq]
    exact restate_onward (settled_usedWithin root) (by decide)
  | @dropFaultChannel i => exact s.dropFaultChannel_onward i
  | withdrawMap m => exact .of_calm (s.withdrawMapDeferring_calm m)
  | publish => exact s.publish_onward _ _ _ _ _ _ _ _ _ _
  | deliver h hu hm => exact deliver_onward hs.queued hu hm h
  | @markReplied i h =>
    refine ⟨le_rfl, fun _ => min_le_left _ _, fun j hu _ => ?_⟩
    by_cases hj : j = i
    · subst hj
      have hself : (s.answeredFirst j).invocations j =
          { s.invocations j with replied := true, outcome := some .committed } := update_self _ _ _
      rw [hself] at hu ⊢
      exact ⟨hu, rfl, id, fun _ => rfl⟩
    · have hsame : (s.answeredFirst i).invocations j = s.invocations j := update_of_ne hj _ _
      rw [hsame] at hu ⊢
      exact ⟨hu, rfl, id, id⟩
  | @discharge i _ => exact .of_discharges (s.releaseInvocation_discharges i)
  | withdrawUndelivered root => exact withdrawAll_onward dischargeFenced_discharges
  | withdrawOrigin domain => exact withdrawAll_onward releaseInvocation_discharges
  | _ => exact .of_same le_rfl rfl rfl

theorem Path.onward (h : Path drops s t) (hs : s.InOrder) : Onward s t := by
  have hpath : t.InOrder ∧ Onward s t := by
    induction h with
    | refl => exact ⟨hs, .refl s⟩
    | tail _ hc ih => exact ⟨hc.inOrder ih.1, ih.2.trans (hc.onward ih.1)⟩
  exact hpath.2

theorem reachable_inOrder (h : kernel.Reachable s) : s.InOrder :=
  (reachable_invariant (I := fun _ => True) (fun _ => trivial) (fun _ _ _ _ _ => trivial) h).1

/-- **Every queue is a line in the order of admission**, with exact counters, in every state the
kernel reaches: each message in use carries one admitted invocation and each admitted invocation
has one, and nothing was delivered from an endpoint before what is queued there. -/
theorem queues_in_admission_order (h : kernel.Reachable s) : s.Queued :=
  (reachable_inOrder h).queued

/-- A letter of the first domain to itself, and the round in which it takes it. -/
def letter : List Step :=
  [.first 2 (.create (.endpoint ⟨4, 0⟩)), .enter ⟨0, 8, ⟨0, 1⟩, true, 0, 0⟩ .receive,
    .first 0 (.send ⟨0, 0, fun _ => .zero, fun _ => 0, []⟩)]
def takesLetter : Step := .enter ⟨0, 8, ⟨0, 1⟩, true, 0, 0⟩ .receive

theorem queues_in_admission_order_letter : ∃ s : Machine, kernel.Reachable s ∧
    (s.endpoints 0).queued = 1 ∧ s.Queued := by
  obtain ⟨s, hreachable, hs⟩ := small_reaches [] letter (fun s => (s.endpoints 0).queued == 1)
    (by decide) (by decide +kernel)
  exact ⟨s, hreachable, by simpa using hs, queues_in_admission_order hreachable⟩

theorem runs_onward (hs : kernel.Reachable s) (h : kernel.Runs s t) : Onward s t := by
  induction h with
  | refl => exact .refl s
  | @step u v a hruns hstep ih =>
    have horder := reachable_inOrder (hs.of_runs hruns)
    exact ih.trans ((Path.of_step horder hstep (u.lets_any a)).onward horder)

/-- **No work is delivered twice, answered twice or found again**: whatever is undischarged after
a run and was admitted before it was undischarged before it, in the same slot, sent to the same
place on the same behalf; what was delivered is delivered still, and what was answered is
answered. -/
theorem work_goes_on (hs : kernel.Reachable s) (h : kernel.Runs s t) {i : InvocationId}
    (hu : (t.invocations i).unresolved = true) (hlt : (t.invocations i).id < s.nextObjectId) :
    (s.invocations i).unresolved = true ∧
      (s.invocations i).record.CarriesOn (t.invocations i).record :=
  (runs_onward hs h).work i hu hlt

theorem work_goes_on_letter : ∃ s t : Machine, (s.invocations 0).state = .admitted ∧
    (t.invocations 0).state = .delivered ∧
    (s.invocations 0).record.CarriesOn (t.invocations 0).record := by
  obtain ⟨s, hreachable, hs⟩ := small_reaches [] letter
    (fun s => (s.invocations 0).state == .admitted &&
      (s.takes takesLetter).any fun t => (t.invocations 0).state == .delivered &&
        decide ((t.invocations 0).id < s.nextObjectId))
    (by decide) (by decide +kernel)
  simp only [Bool.and_eq_true, beq_iff_eq, Option.any_eq_true, decide_eq_true_eq] at hs
  obtain ⟨hadmitted, t, ht, hdelivered, hlt⟩ := hs
  exact ⟨s, t, hadmitted, hdelivered,
    (work_goes_on hreachable ((System.Runs.refl s).step (steps_of_takes ht))
      (by simp [Invocation.unresolved, hdelivered]) hlt).2⟩

/-- **A stale reference never revives**: an object of an earlier generation than its table entry
is at, as far as 32 bits go, is not alive in any later state. -/
theorem stale_never_revives (hs : kernel.Reachable s) (h : kernel.Runs s t) {ref : ObjRef}
    (hstale : ref.generation < min (s.generation ref.object) u32Max) :
    t.objectAlive ref = false := by
  have hlt := hstale.trans_le ((runs_onward hs h).generation ref.object)
  simp [objectAlive, Nat.ne_of_gt hlt]

theorem stale_never_revives_letter : ∃ s t : Machine, kernel.Reachable s ∧ kernel.Runs s t ∧
    t.objectAlive ⟨.invocation 0, 0⟩ = false := by
  obtain ⟨s, hreachable, hs⟩ := small_reaches [] letter
    (fun s => decide (0 < min (s.generation (.invocation 0)) u32Max)) (by decide) (by decide +kernel)
  have hruns : kernel.Runs s s.advanceQuiescence := (System.Runs.refl s).step (a := .advance) rfl
  exact ⟨s, _, hreachable, hruns, stale_never_revives hreachable hruns (of_decide_eq_true hs)⟩

end Thalyx.Kernel
