/-
An admission, from the written invocation to its message in a queue or its ticket in a table.

The invocation is written before it is decided where its message goes.  `Written` is what the
machine is in between: everything as it was, one more admitted invocation, and no message for
it yet.
-/
import ThalyxKernel.Kernel.Change.Linking

namespace Thalyx.Kernel

open Function List

namespace Machine

variable {s t u : Machine} {e : EndpointId} {m : MessageId} {i : InvocationId}

/-! ### The written invocation -/

/-- Invocation `i` is admitted on `e`, and its message `m` is not in the queue yet. -/
structure Written (s : Machine) (e : EndpointId) (m : MessageId) (i : InvocationId)
    (t : Machine) : Prop where
  links : ∀ e', (t.endpoints e').links = (s.endpoints e').links
  messages : t.messages = s.messages
  generation : ∀ e', t.generation (.endpoint e') = s.generation (.endpoint e')
  state : (t.invocations i).state = .admitted
  id : (t.invocations i).id = s.nextObjectId
  endpoint : (t.invocations i).endpoint = e
  endpointGeneration : (t.invocations i).endpointGeneration = s.generation (.endpoint e)
  message : (t.invocations i).message = some m
  others : Others i s t
  nextObjectId : s.nextObjectId < t.nextObjectId

theorem Written.of_quiet (h : s.Written e m i t) (hq : Quiet t u) : s.Written e m i u := by
  have hwork := hq.kept i h.state
  refine ⟨fun e' => (hq.links e').trans (h.links e'), hq.messages.trans h.messages,
    fun e' => (hq.generation e').trans (h.generation e'), ?_, ?_, ?_, ?_, ?_,
    h.others.trans (Others.of_quiet hq i), h.nextObjectId.trans_le hq.nextObjectId⟩
  · exact (congrArg Work.state hwork).trans h.state
  · exact (congrArg Work.id hwork).trans h.id
  · exact (congrArg Work.endpoint hwork).trans h.endpoint
  · exact (congrArg Work.endpointGeneration hwork).trans h.endpointGeneration
  · exact (congrArg Work.message hwork).trans h.message

theorem writeInvocation_written (s : Machine) (ctx : Ctx) (e : EndpointId) (receiver : DomainId)
    (i : InvocationId) (m : MessageId) (waiter : Option ThreadId) (charged : Nat) :
    s.Written e m i
      (s.counted.writeInvocation ctx e receiver i m s.nextObjectId waiter charged) := by
  have hat : ∀ j, j ≠ i → (s.counted.writeInvocation ctx e receiver i m s.nextObjectId waiter
      charged).invocations j = s.invocations j := by
    intro j hj
    show Function.update s.invocations i _ j = _
    rw [update_of_ne hj]
  refine ⟨fun _ => rfl, rfl, ?_, ?_, ?_, ?_, ?_, ?_, Others.of_update hat, Nat.lt_succ_self _⟩
  · intro e'
    have hne : Obj.endpoint e' ≠ .invocation i := by simp
    show Function.update s.generation (.invocation i) (s.generation (.invocation i) + 1)
      (.endpoint e') = _
    exact update_of_ne hne _ _
  all_goals simp [writeInvocation, setScope, addGrantRef, setGrantOf, setInvocation, renew, counted]

/-! ### The message queued -/

section Enqueue

variable (s : Machine) (e : EndpointId) (m : MessageId) (i : InvocationId) (kind : MessageKind)
  (payload : List UInt8) (caps : List DeliveredCap) (charged : Nat)

theorem enqueue_self :
    ((s.enqueue e m i kind payload caps charged).messages m).cell =
        ⟨true, e, s.generation (.endpoint e), i, kind == .fault⟩ ∧
      ((s.endpoints e).tail ≠ some m →
        ((s.enqueue e m i kind payload caps charged).messages m).next = none) := by
  unfold enqueue
  dsimp only
  split
  · simp [setMessage, setEndpoint, Message.cell]
  · rename_i tail htail
    by_cases hm : m = tail
    · subst hm
      refine ⟨by simp [setMessage, setEndpoint, Message.cell], fun hne => absurd ?_ hne⟩
      exact htail
    · simp [setMessage, setEndpoint, Message.cell, hm]

theorem enqueue_other {m' : MessageId} (hm : m' ≠ m) :
    ((s.enqueue e m i kind payload caps charged).messages m').cell = (s.messages m').cell ∧
      ((s.enqueue e m i kind payload caps charged).messages m').next =
        if (s.endpoints e).tail = some m' then some m else (s.messages m').next := by
  unfold enqueue
  dsimp only
  have htail : ((s.setMessage m fun _ =>
      { used := true, next := none, endpoint := e
        endpointGeneration := s.generation (.endpoint e), invocation := i
        reservedCell := kind == .fault, kind, payload, caps, chargedBytes := charged }).endpoints
          e).tail = (s.endpoints e).tail := rfl
  rw [htail]
  cases ht : (s.endpoints e).tail with
  | none => simp [setMessage, setEndpoint, hm]
  | some tail =>
    by_cases hmt : m' = tail
    · subst hmt
      simp [setMessage, setEndpoint, Message.cell, hm]
    · simp [setMessage, setEndpoint, hm, hmt, Ne.symm hmt]

theorem enqueue_links :
    ((s.enqueue e m i kind payload caps charged).endpoints e).links =
      ⟨(s.endpoints e).used, (s.endpoints e).queued + 1,
        (if kind = .fault then (s.endpoints e).reservedUsed + 1 else (s.endpoints e).reservedUsed),
        (if (s.endpoints e).tail = none then some m else (s.endpoints e).head), some m⟩ := by
  unfold enqueue
  dsimp only
  have htail : ((s.setMessage m fun _ =>
      { used := true, next := none, endpoint := e
        endpointGeneration := s.generation (.endpoint e), invocation := i
        reservedCell := kind == .fault, kind, payload, caps, chargedBytes := charged }).endpoints
          e).tail = (s.endpoints e).tail := rfl
  rw [htail]
  cases ht : (s.endpoints e).tail with
  | none => simp [setMessage, setEndpoint, Endpoint.links]
  | some tail => simp [setMessage, setEndpoint, Endpoint.links]

theorem enqueue_rest :
    (s.enqueue e m i kind payload caps charged).invocations = s.invocations ∧
      (s.enqueue e m i kind payload caps charged).invocationFree = s.invocationFree ∧
      (s.enqueue e m i kind payload caps charged).messageFree = s.messageFree ∧
      (s.enqueue e m i kind payload caps charged).generation = s.generation ∧
      (s.enqueue e m i kind payload caps charged).grants = s.grants ∧
      (s.enqueue e m i kind payload caps charged).nextObjectId = s.nextObjectId ∧
      ∀ e', e' ≠ e →
        (s.enqueue e m i kind payload caps charged).endpoints e' = s.endpoints e' := by
  unfold enqueue
  dsimp only
  split
  · refine ⟨rfl, rfl, rfl, rfl, rfl, rfl, fun e' he' => ?_⟩
    simp [setEndpoint, setMessage, he']
  · refine ⟨rfl, rfl, rfl, rfl, rfl, rfl, fun e' he' => ?_⟩
    simp [setEndpoint, setMessage, he']

theorem enqueue_chain {s : Machine} {e : EndpointId} {m : MessageId} {l : List MessageId}
    (h : Chain (fun m => (s.messages m).next) (s.endpoints e).head l)
    (htail : (s.endpoints e).tail = l.getLast?) (hm : m ∉ l) :
    Chain (fun m' => ((s.enqueue e m i kind payload caps charged).messages m').next)
      ((s.enqueue e m i kind payload caps charged).endpoints e).head (l ++ [m]) := by
  have hlinks := s.enqueue_links e m i kind payload caps charged
  have hhead : ((s.enqueue e m i kind payload caps charged).endpoints e).head =
      if (s.endpoints e).tail = none then some m else (s.endpoints e).head :=
    congrArg Links.head hlinks
  have hself : (s.endpoints e).tail ≠ some m := by
    rw [htail]
    intro hlast
    exact hm (mem_of_getLast? hlast)
  have hnext := (s.enqueue_self e m i kind payload caps charged).2 hself
  rcases l.eq_nil_or_concat' with rfl | ⟨b, p, rfl⟩
  · rw [hhead, htail]
    exact ⟨rfl, hnext⟩
  · have hlast : (b ++ [p]).getLast? = some p := by simp
    rw [hhead, htail, hlast, if_neg (by simp)]
    have hclean := h.update_of_notMem hm none
    have hlinked := hclean.link hm (update_self _ _ _)
    refine hlinked.congr fun m' hm' => ?_
    by_cases hne : m' = m
    · subst hne
      have hp : m' ≠ p := by
        rintro rfl
        exact hm (by simp)
      rw [hnext, update_of_ne hp, update_self]
    · have hother := (s.enqueue_other e m i kind payload caps charged hne).2
      rw [hother, htail, hlast]
      by_cases hp : m' = p
      · subst hp
        simp
      · rw [update_of_ne hp, update_of_ne hne, if_neg]
        intro heq
        exact hp (Option.some.inj heq).symm

end Enqueue

section Admitted

variable {kind : MessageKind} {payload : List UInt8} {caps : List DeliveredCap} {charged : Nat}
variable {j : InvocationId}

theorem Written.ne (hi : (s.invocations i).state = .empty)
    (hj : (s.invocations j).state = .admitted) : j ≠ i := by
  rintro rfl
  rw [hi] at hj
  cases hj

theorem Written.earlier (h : s.Written e m i t) (hs : s.Queued) (hj : j ≠ i)
    (hu : (t.invocations j).unresolved = true) :
    (t.invocations j).work = (s.invocations j).work ∧ (t.invocations j).id < s.nextObjectId := by
  have hwork := h.others.live j hj hu
  refine ⟨hwork, ?_⟩
  rw [show (t.invocations j).id = _ from congrArg Work.id hwork]
  exact hs.bound j ((Quiet.unresolved_of_work hwork).symm.trans hu)

theorem Written.queueOf (h : s.Written e m i t) (hs : s.Queued)
    (hm : (s.messages m).used = false) (hi : (s.invocations i).state = .empty)
    {l : List MessageId} (hl : s.QueueOf e l) :
    (t.enqueue e m i kind payload caps charged).QueueOf e (l ++ [m]) := by
  obtain ⟨hinvocations, -, -, hgeneration, -, -, -⟩ := t.enqueue_rest e m i kind payload caps charged
  have hlinks := t.enqueue_links e m i kind payload caps charged
  have hold := h.links e
  have hself := (t.enqueue_self e m i kind payload caps charged).1
  have hother := fun (m' : MessageId) (hm' : m' ≠ m) =>
    (t.enqueue_other e m i kind payload caps charged hm').1
  have hchain := @enqueue_chain i kind payload caps charged t e m l
  generalize t.enqueue e m i kind payload caps charged = u at *
  have hmem : ∀ m' ∈ l, m' ≠ m := by
    rintro m' hm' rfl
    rw [hl.used m' hm'] at hm
    cases hm
  have hcell : ∀ m' ∈ l, (u.messages m').cell = (s.messages m').cell := by
    intro m' hm'
    rw [hother m' (hmem m' hm'), h.messages]
  have hid : ∀ m' ∈ l, u.idOf m' = s.idOf m' := by
    intro m' hm'
    have hadmitted := (hs.carried m' (hl.used m' hm')).state
    refine idOf_of_same (hcell m' hm') ?_
    rw [hinvocations]
    exact h.others.kept _ (Written.ne hi hadmitted) hadmitted
  have hnew : u.idOf m = s.nextObjectId := by
    unfold Machine.idOf
    rw [show (u.messages m).invocation = i from congrArg Cell.invocation hself, hinvocations]
    exact h.id
  refine ⟨?_, ?_, ?_, ?_, ?_, ?_, ?_, ?_⟩
  · refine hchain ?_ ?_ (fun hin => hmem m hin rfl)
    · rw [h.messages, show (t.endpoints e).head = _ from congrArg Links.head hold]
      exact hl.chain
    · exact (congrArg Links.tail hold).trans hl.tail
  · rw [show (u.endpoints e).tail = _ from congrArg Links.tail hlinks]
    simp
  · rw [show (u.endpoints e).queued = _ from congrArg Links.queued hlinks]
    dsimp only
    rw [show (t.endpoints e).queued = _ from congrArg Links.queued hold]
    simpa [Endpoint.links] using hl.queued
  · have hcount : l.countP (fun m' => (u.messages m').reservedCell) =
        l.countP fun m' => (s.messages m').reservedCell := by
      refine countP_congr fun m' hm' => ?_
      rw [show (u.messages m').reservedCell = _ from congrArg Cell.reservedCell (hcell m' hm')]
      rfl
    have hcellm : (u.messages m).reservedCell = (kind == .fault) :=
      congrArg Cell.reservedCell hself
    have hbefore : (t.endpoints e).reservedUsed = (s.endpoints e).reservedUsed :=
      congrArg Links.reservedUsed hold
    have hreserved : (u.endpoints e).reservedUsed =
        if kind = .fault then (t.endpoints e).reservedUsed + 1 else (t.endpoints e).reservedUsed :=
      congrArg Links.reservedUsed hlinks
    rw [hreserved, hbefore, countP_append, hcount, hl.reserved, countP_singleton, hcellm]
    cases kind <;> simp
  · intro m' hm'
    rcases mem_append.mp hm' with hin | hin
    · exact (congrArg Cell.used (hcell m' hin)).trans (hl.used m' hin)
    · rw [mem_singleton.mp hin]
      exact congrArg Cell.used hself
  · intro m' hm'
    rw [hgeneration, h.generation]
    rcases mem_append.mp hm' with hin | hin
    · exact ⟨(congrArg Cell.endpoint (hcell m' hin)).trans (hl.here m' hin).1,
        (congrArg Cell.endpointGeneration (hcell m' hin)).trans (hl.here m' hin).2⟩
    · rw [mem_singleton.mp hin]
      exact ⟨congrArg Cell.endpoint hself,
        (congrArg Cell.endpointGeneration hself).trans (h.generation e)⟩
  · refine pairwise_append.mpr ⟨?_, pairwise_singleton _ _, ?_⟩
    · refine hl.ordered.imp_of_mem fun hm hm' hlt => ?_
      rw [hid _ hm, hid _ hm']
      exact hlt
    · intro m' hm' m'' hm''
      rw [mem_singleton.mp hm'', hid m' hm', hnew]
      refine hs.bound _ ?_
      simp [Invocation.unresolved, (hs.carried m' (hl.used m' hm')).state]
  · intro m' hm' j hj he
    rw [hinvocations] at hj he ⊢
    have hji : j ≠ i := by
      rintro rfl
      rw [h.state] at hj
      cases hj
    obtain ⟨hwork, hlt⟩ := h.earlier hs hji (by simp [Invocation.unresolved, hj])
    rcases mem_append.mp hm' with hin | hin
    · rw [hid m' hin, show (t.invocations j).id = _ from congrArg Work.id hwork]
      exact hl.later m' hin j ((congrArg Work.state hwork).symm.trans hj)
        ((congrArg Work.endpoint hwork).symm.trans he)
    · rw [mem_singleton.mp hin, hnew]
      exact hlt

/-- **A message linked behind its queue leaves the queues and the admitted work in agreement.** -/
theorem Written.enqueued (h : s.Written e m i t) (hs : s.Queued)
    (hm : (s.messages m).used = false) (hi : (s.invocations i).state = .empty)
    (he : (s.endpoints e).used = true) : (t.enqueue e m i kind payload caps charged).Queued := by
  obtain ⟨hinvocations, -, -, hgeneration, -, hnext, hendpoints⟩ :=
    t.enqueue_rest e m i kind payload caps charged
  have hself := (t.enqueue_self e m i kind payload caps charged).1
  have hother := fun (m' : MessageId) (hm' : m' ≠ m) =>
    t.enqueue_other e m i kind payload caps charged hm'
  have hqueueOf := @h.queueOf _ _ _ _ _ kind payload caps charged hs hm hi
  generalize t.enqueue e m i kind payload caps charged = u at *
  have hold : ∀ m', (s.messages m').used = true → m' ≠ m ∧
      (u.messages m').cell = (s.messages m').cell ∧
      (u.invocations (s.messages m').invocation).work =
        (s.invocations (s.messages m').invocation).work := by
    intro m' hm'
    have hne : m' ≠ m := by
      rintro rfl
      rw [hm] at hm'
      cases hm'
    have hadmitted := (hs.carried m' hm').state
    refine ⟨hne, ?_, ?_⟩
    · rw [(hother m' hne).1, h.messages]
    · rw [hinvocations]
      exact h.others.kept _ (Written.ne hi hadmitted) hadmitted
  have hcarries : u.Carries m i := by
    refine ⟨congrArg Cell.used hself, congrArg Cell.invocation hself, ?_, ?_, ?_, ?_⟩
    · rw [hinvocations]
      exact h.state
    · rw [hinvocations]
      exact h.message
    · rw [hinvocations, show (u.messages m).endpoint = _
        from congrArg Cell.endpoint hself]
      exact h.endpoint
    · rw [hinvocations, show (u.messages
        m).endpointGeneration = _ from congrArg Cell.endpointGeneration hself]
      exact h.endpointGeneration.trans (h.generation e).symm
  refine ⟨?_, ?_, ?_, ?_⟩
  · intro e' he'
    by_cases hee : e' = e
    · subst hee
      obtain ⟨l, hl⟩ := hs.queue e' he
      exact ⟨_, hqueueOf hl⟩
    · have hlinks : (u.endpoints e').links =
          (s.endpoints e').links := by
        rw [hendpoints e' hee]
        exact h.links e'
      obtain ⟨l, hl⟩ := hs.queue e' ((congrArg Links.used hlinks).symm.trans he')
      have htail : ∀ m' ∈ l, (t.endpoints e).tail ≠ some m' := by
        intro m' hm' htail
        obtain ⟨l', hl'⟩ := hs.queue e he
        have htail' : l'.getLast? = some m' := by
          rw [← hl'.tail, ← htail]
          exact (congrArg Links.tail (h.links e)).symm
        exact hee (hl.endpoint_unique hl' hm' (mem_of_getLast? htail'))
      refine ⟨l, hl.of_same hlinks ?_ (fun m' hm' => (hold m' (hl.used m' hm')).2.1) ?_ ?_ ?_⟩
      · rw [hgeneration]
        exact h.generation e'
      · intro m' hm'
        rw [(hother m' (hold m' (hl.used m' hm')).1).2,
          if_neg (htail m' hm'), h.messages]
      · intro m' hm'
        obtain ⟨-, hcell, hwork⟩ := hold m' (hl.used m' hm')
        exact idOf_of_same hcell hwork
      · intro j hj hje m' hm'
        rw [hinvocations] at hj hje ⊢
        have hji : j ≠ i := by
          rintro rfl
          rw [h.state] at hj
          cases hj
        obtain ⟨hwork, -⟩ := h.earlier hs hji (by simp [Invocation.unresolved, hj])
        rw [show (t.invocations j).id = _ from congrArg Work.id hwork]
        exact hl.later m' hm' j ((congrArg Work.state hwork).symm.trans hj)
          ((congrArg Work.endpoint hwork).symm.trans hje)
  · intro m' hm'
    by_cases hne : m' = m
    · subst hne
      rw [show (u.messages m').invocation = i from
        congrArg Cell.invocation hself]
      exact hcarries
    · have hcell := (hother m' hne).1
      rw [h.messages] at hcell
      have hused := (congrArg Cell.used hcell).symm.trans hm'
      rw [show (u.messages m').invocation = _ from
        congrArg Cell.invocation hcell]
      exact (hs.carried m' hused).of_same hcell (hold m' hused).2.2
  · intro j hj
    by_cases hji : j = i
    · subst hji
      exact ⟨m, hcarries⟩
    · rw [hinvocations] at hj
      obtain ⟨hwork, -⟩ := h.earlier hs hji (by simp [Invocation.unresolved, hj])
      obtain ⟨m', hc⟩ := hs.linked j ((congrArg Work.state hwork).symm.trans hj)
      obtain ⟨-, hcell, hwork'⟩ := hold m' hc.used
      rw [hc.invocation] at hwork'
      exact ⟨m', hc.of_same hcell hwork'⟩
  · intro j hj
    rw [hinvocations] at hj ⊢
    rw [hnext]
    by_cases hji : j = i
    · subst hji
      rw [h.id]
      exact h.nextObjectId
    · exact (h.earlier hs hji hj).2.trans h.nextObjectId

theorem Written.delivered (h : s.Written e m i t) (hs : s.Queued)
    (hi : (s.invocations i).state = .empty) (he : (t.endpoints e).head = none) :
    (t.markDelivered i).Queued := by
  have hother : ∀ j, j ≠ i → (t.markDelivered i).invocations j = t.invocations j := fun j hj =>
    update_of_ne hj _ _
  have hself : (t.markDelivered i).invocations i =
      { t.invocations i with state := .delivered, message := none } := update_self _ _ _
  have hold : ∀ m', (s.messages m').used = true →
      ((t.markDelivered i).messages m').cell = (s.messages m').cell ∧
      ((t.markDelivered i).invocations (s.messages m').invocation).work =
        (s.invocations (s.messages m').invocation).work := by
    intro m' hm'
    have hadmitted := (hs.carried m' hm').state
    have hne := Written.ne hi hadmitted
    refine ⟨congrArg Message.cell (congrFun h.messages m'), ?_⟩
    rw [hother _ hne]
    exact h.others.kept _ hne hadmitted
  refine ⟨?_, ?_, ?_, ?_⟩
  · intro e' he'
    have hlinks := h.links e'
    obtain ⟨l, hl⟩ := hs.queue e' ((congrArg Links.used hlinks).symm.trans he')
    refine ⟨l, hl.of_same hlinks (h.generation e') (fun m' hm' => (hold m' (hl.used m' hm')).1)
      (fun m' hm' => congrArg Message.next (congrFun h.messages m')) ?_ ?_⟩
    · intro m' hm'
      obtain ⟨hcell, hwork⟩ := hold m' (hl.used m' hm')
      exact idOf_of_same hcell hwork
    · intro j hj hje m' hm'
      by_cases hji : j = i
      · subst hji
        rw [hself] at hje
        have hee : e' = e := hje.symm.trans h.endpoint
        subst hee
        -- The queue it was delivered past is empty.
        have hhead : (s.endpoints e').head = none := (congrArg Links.head hlinks).symm.trans he
        have hchain := hl.chain
        rw [hhead] at hchain
        have hnil : l = [] := hchain.unique rfl
        rw [hnil] at hm'
        cases hm'
      · rw [hother j hji] at hj hje ⊢
        obtain ⟨hwork, -⟩ := h.earlier hs hji (by simp [Invocation.unresolved, hj])
        rw [show (t.invocations j).id = _ from congrArg Work.id hwork]
        exact hl.later m' hm' j ((congrArg Work.state hwork).symm.trans hj)
          ((congrArg Work.endpoint hwork).symm.trans hje)
  · intro m' hm'
    have hcell : ((t.markDelivered i).messages m').cell = (s.messages m').cell :=
      congrArg Message.cell (congrFun h.messages m')
    have hused := (congrArg Cell.used hcell).symm.trans hm'
    rw [show ((t.markDelivered i).messages m').invocation = _ from congrArg Cell.invocation hcell]
    exact (hs.carried m' hused).of_same hcell (hold m' hused).2
  · intro j hj
    have hji : j ≠ i := by
      rintro rfl
      rw [hself] at hj
      cases hj
    rw [hother j hji] at hj
    obtain ⟨hwork, -⟩ := h.earlier hs hji (by simp [Invocation.unresolved, hj])
    obtain ⟨m', hc⟩ := hs.linked j ((congrArg Work.state hwork).symm.trans hj)
    obtain ⟨hcell, hwork'⟩ := hold m' hc.used
    rw [hc.invocation] at hwork'
    exact ⟨m', hc.of_same hcell hwork'⟩
  · intro j hj
    by_cases hji : j = i
    · subst hji
      rw [hself]
      show (t.invocations j).id < t.nextObjectId
      rw [h.id]
      exact h.nextObjectId
    · rw [hother j hji] at hj ⊢
      exact (h.earlier hs hji hj).2.trans h.nextObjectId

end Admitted

/-! ### The whole of it -/

variable {receiver : DomainId} {ticket : Handle}

theorem issueTicket_quiet (h : s.issueTicket receiver i = (t, some ticket)) : Quiet s t := by
  obtain ⟨g, u, v, hg, hc, rfl⟩ := Path.issueTicket_some h
  have hinstalled := u.capInstall_stands receiver ⟨.invocation i, s.generation (.invocation i)⟩
    (some g) none
  rw [hc] at hinstalled
  refine (Quiet.of_stands ((grantAlloc_stands hg).trans hinstalled)).trans ?_
  refine Quiet.of_same (fun _ => rfl) rfl (fun _ => rfl) ?_ le_rfl
  intro j
  by_cases hj : j = i
  · subst hj
    simp [setInvocation, Invocation.work]
  · simp [setInvocation, hj]

/-- **How an admission ends**: with a ticket in the hands of a receiver that waited before an
empty queue, or with the message behind the last one. -/
theorem publish_cases (s : Machine) (ctx : Ctx) (e : EndpointId) (receiver : DomainId)
    (request : SendRequest) (kind : MessageKind) (waiter : Option ThreadId) (i : InvocationId)
    (m : MessageId) (id charged : Nat) (installed : List DeliveredCap) :
    ∃ u : Machine, u.core = (s.writeInvocation ctx e receiver i m id waiter charged).core ∧
      ((∃ (holder : DomainId) (t : Machine) (ticket : Handle), (u.endpoints e).head = none ∧
          (u.endpoints e).receiverDomain = some holder ∧
          u.issueTicket holder i = (t, some ticket) ∧
          (s.publish ctx e receiver request kind waiter i m id charged installed).core =
            ((t.markDelivered i).releaseMessage m).core) ∨
        ∃ (v : Machine) (n : Nat), u.nextObjectId ≤ n ∧
          v.core = { u.core with nextObjectId := n } ∧
          (s.publish ctx e receiver request kind waiter i m id charged installed).core =
            (v.enqueue e m i kind (request.payload.take request.payloadLen) installed
              charged).core) := by
  unfold publish
  dsimp only
  generalize s.writeInvocation ctx e receiver i m id waiter charged = w
  have htaken := takeReceiverFrom_core e ctx.now (List.finRange maxThreads) w
  unfold takeReceiver
  rcases hr : takeReceiverFrom e ctx.now (List.finRange maxThreads) w with
    ⟨u, _ | ⟨thread, offer⟩⟩ <;> rw [hr] at htaken
  · exact ⟨u, htaken, .inr ⟨u, u.nextObjectId, le_rfl, rfl, receipt_core _ _ _⟩⟩
  · refine ⟨u, htaken, ?_⟩
    dsimp only
    unfold handOver
    split
    · rename_i hoffer
      have hhead : (u.endpoints e).head = none := by
        simp only [Bool.and_eq_true, Option.isNone_iff_eq_none] at hoffer
        exact hoffer.1
      split
      · exact .inr ⟨u, u.nextObjectId, le_rfl, rfl, receipt_core _ _ _⟩
      · rename_i holder hholder
        split
        · rename_i t ht
          obtain ⟨n, hn, hcore⟩ := Path.issueTicket_none ht
          exact .inr ⟨t, n, hn, hcore, receipt_core _ _ _⟩
        · rename_i t ticket ht
          exact .inl ⟨holder, t, ticket, hhead, hholder, ht, receipt_core _ _ _⟩
    · exact .inr ⟨u, u.nextObjectId, le_rfl, rfl, receipt_core _ _ _⟩

/-- **An admission keeps the queues and the admitted work in agreement.** -/
theorem publish_queued {ctx : Ctx} {request : SendRequest}
    {kind : MessageKind} {waiter : Option ThreadId} {charged : Nat}
    {installed : List DeliveredCap} (hs : s.Queued) (hc : s.Claimed e m i) :
    (s.counted.publish ctx e receiver request kind waiter i m s.nextObjectId charged
      installed).Queued := by
  have hwritten := s.writeInvocation_written ctx e receiver i m waiter charged
  obtain ⟨u, hu, hends⟩ := s.counted.publish_cases ctx e receiver request kind waiter i m
    s.nextObjectId charged installed
  have hwritten' := hwritten.of_quiet (Quiet.aside hu)
  rcases hends with ⟨holder, t, ticket, hhead, -, ht, hcore⟩ | ⟨v, n, hn, hv, hcore⟩
  · have hquiet := issueTicket_quiet ht
    have hnone : (t.endpoints e).head = none :=
      (congrArg Links.head (hquiet.links e)).trans hhead
    have hdelivered := (hwritten'.of_quiet hquiet).delivered hs hc.invocation hnone
    refine ((Quiet.of_same ?_ ?_ ?_ ?_ ?_ : Quiet _ _).trans (Quiet.aside hcore)).queued hdelivered
    · exact fun _ => rfl
    · rfl
    · exact fun _ => rfl
    · exact fun _ => rfl
    · exact le_rfl
  · have hqueued : (v.enqueue e m i kind (request.payload.take request.payloadLen) installed
        charged).Queued :=
      (hwritten'.of_quiet (Quiet.of_core hv hn)).enqueued hs hc.message hc.invocation hc.used
    exact (Quiet.aside hcore).queued hqueued

/-- **A delivery keeps the queues and the admitted work in agreement.** -/
theorem deliver_queued (hs : s.Queued)
    (he : (s.endpoints e).used = true) (hm : (s.endpoints e).head = some m)
    (h : s.deliver receiver e m = (t, .ok ticket)) : t.Queued := by
  unfold deliver at h
  dsimp only at h
  split at h
  · cases (Prod.mk.inj h).2
  · split at h
    · cases (Prod.mk.inj h).2
    · rename_i u ticket' hu
      have hquiet := issueTicket_quiet hu
      obtain ⟨l, hl⟩ := hs.queue e he
      have hcons : ∃ after, l = m :: after := by
        cases l with
        | nil => exact absurd (hm.symm.trans hl.chain) (by simp)
        | cons a after => exact ⟨after, by rw [Option.some.inj (hl.chain.1.symm.trans hm)]⟩
      obtain ⟨after, rfl⟩ := hcons
      have hqueue := hquiet.queueOf hs hl
      have hremoved := takeOff_removed hqueue
      have hsame : (u.messages m).invocation = (s.messages m).invocation := by
        rw [hquiet.messages]
      have heq : t = u.takeOff e m (u.messages m).invocation := by
        rw [hsame]
        exact (Prod.mk.inj h).1.symm
      rw [heq]
      exact hremoved.queued (hquiet.queued hs) hqueue

end Machine

end Thalyx.Kernel
