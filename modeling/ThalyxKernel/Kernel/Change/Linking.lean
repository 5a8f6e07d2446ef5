/-
How a queue is edited: a message linked behind the last one, and one taken out.

An admission first writes the invocation and then links its message; between the two the
queues do not agree with the admitted work, so both are one edit here.  Delivery takes the
first message out and a withdrawal any; what becomes of the invocation is the only difference.
-/
import ThalyxKernel.Kernel.Change.Grants

namespace Thalyx.Kernel

open Function List

namespace Machine

variable {s t u : Machine} {e : EndpointId} {m : MessageId} {i : InvocationId}

/-- All work but one invocation's is as it was. -/
structure Others (i : InvocationId) (s t : Machine) : Prop where
  kept : ∀ j, j ≠ i → (s.invocations j).state = .admitted →
    (t.invocations j).work = (s.invocations j).work
  live : ∀ j, j ≠ i → (t.invocations j).unresolved = true →
    (t.invocations j).work = (s.invocations j).work

theorem Others.of_quiet (h : Quiet s t) (i : InvocationId) : Others i s t :=
  ⟨fun j _ => h.kept j, fun j _ => h.live j⟩

theorem Others.trans (h : Others i s t) (h' : Others i t u) : Others i s u where
  kept j hj hs := by
    have hwork := h.kept j hj hs
    exact (h'.kept j hj ((congrArg Work.state hwork).trans hs)).trans hwork
  live j hj hu := by
    have hwork := h'.live j hj hu
    exact hwork.trans (h.live j hj ((Quiet.unresolved_of_work hwork).symm.trans hu))

theorem Others.of_update (h : ∀ j, j ≠ i → t.invocations j = s.invocations j) : Others i s t :=
  ⟨fun j hj _ => by rw [h j hj], fun j hj _ => by rw [h j hj]⟩

theorem QueueOf.endpoint_unique {e' : EndpointId} {l l' : List MessageId} (h : s.QueueOf e l)
    (h' : s.QueueOf e' l') (hm : m ∈ l) (hm' : m ∈ l') : e = e' :=
  (h.here m hm).1.symm.trans (h'.here m hm').1

theorem Queued.invocation_inj (hs : s.Queued) {m' : MessageId} (hm : (s.messages m).used = true)
    (hm' : (s.messages m').used = true)
    (h : (s.messages m').invocation = (s.messages m).invocation) : m' = m := by
  have hc := (hs.carried m hm).message
  have hc' := (hs.carried m' hm').message
  rw [h] at hc'
  exact Option.some.inj (hc'.symm.trans hc)

/-! ### Taking a message out -/

/-- What is left when message `m` is taken out of a queue, from between `before` and `after`. -/
structure Removed (s : Machine) (e : EndpointId) (before : List MessageId) (m : MessageId)
    (after : List MessageId) (t : Machine) : Prop where
  links : ∀ e', e' ≠ e → (t.endpoints e').links = (s.endpoints e').links
  chain : Chain (fun m => (t.messages m).next) (t.endpoints e).head (before ++ after)
  tail : (t.endpoints e).tail = (before ++ after).getLast?
  count : (t.endpoints e).queued = (s.endpoints e).queued - 1
  reserved : (t.endpoints e).reservedUsed =
    if (s.messages m).reservedCell then (s.endpoints e).reservedUsed - 1
    else (s.endpoints e).reservedUsed
  doors : ∀ e', (t.endpoints e').door = (s.endpoints e').door
  generation : t.generation = s.generation
  unused : (t.messages m).used = false
  cells : ∀ m', m' ≠ m → (t.messages m').cell = (s.messages m').cell
  next : ∀ m', m' ≠ m → m' ∉ before → (t.messages m').next = (s.messages m').next
  others : Others (s.messages m).invocation s t
  /-- The invocation is delivered, when its message was the first, or discharged. -/
  done : ((t.invocations (s.messages m).invocation).unresolved = false) ∨
    (before = [] ∧ (t.invocations (s.messages m).invocation).state = .delivered ∧
      (t.invocations (s.messages m).invocation).id =
        (s.invocations (s.messages m).invocation).id ∧
      (t.invocations (s.messages m).invocation).endpoint =
        (s.invocations (s.messages m).invocation).endpoint)
  nextObjectId : s.nextObjectId ≤ t.nextObjectId

section Removed

variable {before after : List MessageId}

theorem Removed.not_admitted (h : s.Removed e before m after t) :
    (t.invocations (s.messages m).invocation).state ≠ .admitted := by
  rcases h.done with hresolved | ⟨-, hdelivered, -, -⟩
  · intro hadmitted
    simp [Invocation.unresolved, hadmitted] at hresolved
  · simp [hdelivered]

variable {m' : MessageId}

theorem Removed.carries (h : s.Removed e before m after t) (hs : s.Queued)
    (hm : (s.messages m).used = true) (hne : m' ≠ m)
    (hm' : (s.messages m').used = true) : t.Carries m' (s.messages m').invocation := by
  have hc := hs.carried m' hm'
  have hother : (s.messages m').invocation ≠ (s.messages m).invocation := fun heq =>
    hne (hs.invocation_inj hm hm' heq)
  exact hc.of_same (h.cells m' hne) (h.others.kept _ hother hc.state)

theorem Removed.idOf (h : s.Removed e before m after t) (hs : s.Queued)
    (hm : (s.messages m).used = true) (hne : m' ≠ m)
    (hm' : (s.messages m').used = true) : t.idOf m' = s.idOf m' := by
  have hother : (s.messages m').invocation ≠ (s.messages m).invocation := fun heq =>
    hne (hs.invocation_inj hm hm' heq)
  exact idOf_of_same (h.cells m' hne) (h.others.kept _ hother (hs.carried m' hm').state)

variable {e' : EndpointId} {l : List MessageId}

theorem Removed.later (h : s.Removed e before m after t)
    (hq : s.QueueOf e (before ++ m :: after)) (hs : s.Queued)
    (hl : s.QueueOf e' l) {j : InvocationId}
    (hj : (t.invocations j).state = .delivered) (he : (t.invocations j).endpoint = e')
    (hm' : m' ∈ l) (hne : m' ≠ m) : (t.invocations j).id < s.idOf m' := by
  have hmem : m ∈ before ++ m :: after := by simp
  have hc := hs.carried m (hq.used m hmem)
  by_cases hji : j = (s.messages m).invocation
  · subst hji
    rcases h.done with hresolved | ⟨rfl, -, hid, hendpoint⟩
    · simp [Invocation.unresolved, hj] at hresolved
    · have hee : e' = e := by
        rw [← he, hendpoint, hc.endpoint]
        exact (hq.here m hmem).1
      subst hee
      have hsame : l = m :: after := hl.chain.unique hq.chain
      subst hsame
      rw [hid]
      have hafter : m' ∈ after := (mem_cons.mp hm').resolve_left hne
      exact (pairwise_cons.mp hl.ordered).1 m' hafter
  · have hwork := h.others.live j hji (by simp [Invocation.unresolved, hj])
    rw [show (t.invocations j).id = _ from congrArg Work.id hwork]
    exact hl.later m' hm' j ((congrArg Work.state hwork).symm.trans hj)
      ((congrArg Work.endpoint hwork).symm.trans he)

theorem Removed.queueOf (h : s.Removed e before m after t) (hs : s.Queued)
    (hq : s.QueueOf e (before ++ m :: after)) : t.QueueOf e (before ++ after) := by
  have hnodup := hq.chain.nodup
  have hmem : m ∈ before ++ m :: after := by simp
  have hsub : ∀ m' ∈ before ++ after, m' ∈ before ++ m :: after ∧ m' ≠ m := by
    intro m' hm'
    have hin : m' ∈ before ∨ m' ∈ after := mem_append.mp hm'
    refine ⟨by rcases hin with h | h <;> simp [h], ?_⟩
    rintro rfl
    rw [nodup_append] at hnodup
    rcases hin with hin | hin
    · exact hnodup.2.2 m' hin m' (by simp) rfl
    · exact (nodup_cons.mp hnodup.2.1).1 hin
  have hid : ∀ m' ∈ before ++ after, t.idOf m' = s.idOf m' := fun m' hm' =>
    h.idOf hs (hq.used m hmem) (hsub m' hm').2 (hq.used m' (hsub m' hm').1)
  refine ⟨h.chain, h.tail, ?_, ?_, ?_, ?_, ?_, ?_⟩
  · rw [h.count, hq.queued]
    simp only [length_append, length_cons]
    omega
  · have hcount : (before ++ after).countP (fun m => (t.messages m).reservedCell) =
        (before ++ after).countP fun m => (s.messages m).reservedCell := by
      refine countP_congr fun m' hm' => ?_
      have hsame : (t.messages m').reservedCell = (s.messages m').reservedCell :=
        congrArg Cell.reservedCell (h.cells m' (hsub m' hm').2)
      rw [hsame]
    rw [h.reserved, hcount, hq.reserved]
    simp only [countP_append, countP_cons]
    split <;> simp_all
  · intro m' hm'
    exact (congrArg Cell.used (h.cells m' (hsub m' hm').2)).trans (hq.used m' (hsub m' hm').1)
  · intro m' hm'
    have hcell := h.cells m' (hsub m' hm').2
    rw [h.generation]
    exact ⟨(congrArg Cell.endpoint hcell).trans (hq.here m' (hsub m' hm').1).1,
      (congrArg Cell.endpointGeneration hcell).trans (hq.here m' (hsub m' hm').1).2⟩
  · have hordered : (before ++ after).Pairwise fun m m' => s.idOf m < s.idOf m' :=
      hq.ordered.sublist (by simp)
    refine hordered.imp_of_mem fun hm hm' hlt => ?_
    rw [hid _ hm, hid _ hm']
    exact hlt
  · intro m' hm' j hj he
    rw [hid m' hm']
    exact h.later hq hs hq hj he (hsub m' hm').1 (hsub m' hm').2

theorem Removed.queueOf_other (h : s.Removed e before m after t) (hs : s.Queued)
    (hq : s.QueueOf e (before ++ m :: after)) (hee : e' ≠ e)
    (hl : s.QueueOf e' l) : t.QueueOf e' l := by
  have hmem : m ∈ before ++ m :: after := by simp
  have hne : ∀ m' ∈ l, m' ≠ m := by
    rintro m' hm' rfl
    exact hee (hl.endpoint_unique hq hm' hmem)
  refine hl.of_same (h.links e' hee) (by rw [h.generation])
    (fun m' hm' => h.cells m' (hne m' hm')) ?_ ?_ ?_
  · intro m' hm'
    refine h.next m' (hne m' hm') fun hbefore => hee ?_
    exact hl.endpoint_unique hq hm' (mem_append_left _ hbefore)
  · intro m' hm'
    exact h.idOf hs (hq.used m hmem) (hne m' hm') (hl.used m' hm')
  · intro j hj he m' hm'
    exact h.later hq hs hl hj he hm' (hne m' hm')

/-- **A message taken out leaves the queues and the admitted work in agreement.** -/
theorem Removed.queued (h : s.Removed e before m after t) (hs : s.Queued)
    (hq : s.QueueOf e (before ++ m :: after)) : t.Queued where
  queue e' he' := by
    by_cases hee : e' = e
    · subst hee
      exact ⟨_, h.queueOf hs hq⟩
    · have hlinks := h.links e' hee
      obtain ⟨l, hl⟩ := hs.queue e' ((congrArg Links.used hlinks).symm.trans he')
      exact ⟨l, h.queueOf_other hs hq hee hl⟩
  carried m' hm' := by
    have hne : m' ≠ m := by
      rintro rfl
      rw [h.unused] at hm'
      cases hm'
    have hcell := h.cells m' hne
    rw [show (t.messages m').invocation = _ from congrArg Cell.invocation hcell]
    exact h.carries hs (hq.used m (by simp)) hne ((congrArg Cell.used hcell).symm.trans hm')
  linked j hj := by
    have hji : j ≠ (s.messages m).invocation := by
      rintro rfl
      exact h.not_admitted hj
    have hwork := h.others.live j hji (by simp [Invocation.unresolved, hj])
    obtain ⟨m', hc⟩ := hs.linked j ((congrArg Work.state hwork).symm.trans hj)
    have hne : m' ≠ m := by
      rintro rfl
      exact hji hc.invocation.symm
    have hkept := h.carries hs (hq.used m (by simp)) hne hc.used
    rw [hc.invocation] at hkept
    exact ⟨m', hkept⟩
  bound j hj := by
    by_cases hji : j = (s.messages m).invocation
    · subst hji
      rcases h.done with hresolved | ⟨-, -, hid, -⟩
      · rw [hresolved] at hj
        cases hj
      · rw [hid]
        refine (hs.bound _ ?_).trans_le h.nextObjectId
        have hc := hs.carried m (hq.used m (by simp))
        simp [Invocation.unresolved, hc.state]
    · have hwork := h.others.live j hji hj
      rw [show (t.invocations j).id = _ from congrArg Work.id hwork]
      exact (hs.bound j ((Quiet.unresolved_of_work hwork).symm.trans hj)).trans_le h.nextObjectId

end Removed

/-! ### Discharges -/

/-- One invocation is discharged and nothing else is touched that queues depend on. -/
structure Discharges (i : InvocationId) (s t : Machine) : Prop where
  endpoints : t.endpoints = s.endpoints
  messages : t.messages = s.messages
  messageFree : t.messageFree = s.messageFree
  generation : t.generation = s.generation
  nextObjectId : t.nextObjectId = s.nextObjectId
  other : ∀ j, j ≠ i → t.invocations j = s.invocations j ∧ t.invocationFree j = s.invocationFree j
  done : (t.invocations i).unresolved = false

theorem collectInvocation_resolved (s : Machine) {i : InvocationId}
    (h : (s.invocations i).unresolved = false) : Discharges i s (s.collectInvocation i) := by
  unfold collectInvocation
  split
  · exact ⟨rfl, rfl, rfl, rfl, rfl, fun j _ => ⟨rfl, rfl⟩, h⟩
  · refine ⟨rfl, rfl, rfl, rfl, rfl, ?_, ?_⟩
    · intro j hj
      exact ⟨update_of_ne hj _ _, update_of_ne hj _ _⟩
    · simp [freeInvocation, setInvocation, Invocation.unresolved]

theorem releaseInvocation_discharges (s : Machine) (i : InvocationId) :
    Discharges i s (s.releaseInvocation i) := by
  by_cases hempty : (s.invocations i).state = .empty
  · unfold releaseInvocation
    dsimp only
    rw [if_pos hempty]
    exact ⟨rfl, rfl, rfl, rfl, rfl, fun j _ => ⟨rfl, rfl⟩,
      by simp [Invocation.unresolved, hempty]⟩
  · obtain ⟨scopes, grants, hint, heq, -, -⟩ := s.releaseInvocation_eq hempty
    rw [heq]
    generalize ht : ({ s with
      scopes, grants, grantHint := hint
      invocations := update s.invocations i (resolvedRecord (s.invocations i)) } :
        Machine) = t
    have hresolved : (t.invocations i).unresolved = false := by
      rw [← ht]
      simp [Invocation.unresolved, resolvedRecord]
    obtain ⟨he, hm, hmf, hg, hn, ho, hd⟩ := t.collectInvocation_resolved hresolved
    subst ht
    refine ⟨he, hm, hmf, hg, hn, fun j hj => ⟨?_, (ho j hj).2⟩, hd⟩
    exact (ho j hj).1.trans (update_of_ne hj _ _)

theorem dischargeFenced_discharges (s : Machine) (i : InvocationId) :
    Discharges i s (s.dischargeFenced i) := by
  have hcalm := s.wakeWaiter_calm i .cancelled
  unfold dischargeFenced
  dsimp only
  generalize s.wakeWaiter i .cancelled = t at hcalm ⊢
  obtain ⟨he, hm, hmf, hg, hn, ho, hd⟩ := t.releaseInvocation_discharges i
  refine ⟨he.trans hcalm.endpoints, hm.trans hcalm.messages, hmf.trans hcalm.messageFree,
    hg.trans hcalm.generation, hn.trans hcalm.nextObjectId, fun j hj => ?_, hd⟩
  rw [← hcalm.invocations, ← hcalm.invocationFree]
  exact ho j hj

/-! ### Withdrawing -/

section Withdrawing

variable {before after : List MessageId} {cancel : Cancel}

theorem unlink_chain (hq : s.QueueOf e (before ++ m :: after)) :
    Chain (fun m' => ((s.unlink e before.getLast? m).messages m').next)
      ((s.unlink e before.getLast? m).endpoints e).head (before ++ after) := by
  rcases before.eq_nil_or_concat' with rfl | ⟨b, p, rfl⟩
  · have hchain := hq.chain.2
    simpa [unlink, setEndpoint] using hchain
  · have hchain := hq.chain
    rw [append_assoc, singleton_append] at hchain
    have hunlinked := hchain.unlink
    have hlast : (b ++ [p]).getLast? = some p := by simp
    rw [append_assoc, singleton_append]
    have hhead : ((s.unlink e (b ++ [p]).getLast? m).endpoints e).head = (s.endpoints e).head := by
      simp [unlink, setEndpoint, setMessage, hlast]
    rw [hhead]
    refine hunlinked.congr fun m' _ => ?_
    by_cases hp : m' = p
    · subst hp
      simp [unlink, setEndpoint, setMessage, hlast]
    · simp [unlink, setEndpoint, setMessage, hlast, hp]

theorem unlink_tail (hq : s.QueueOf e (before ++ m :: after)) :
    ((s.unlink e before.getLast? m).endpoints e).tail = (before ++ after).getLast? := by
  have htail : ((s.unlink e before.getLast? m).endpoints e).tail =
      if (s.endpoints e).tail = some m then before.getLast? else (s.endpoints e).tail := by
    unfold unlink
    cases before.getLast? with
    | none => simp only [setEndpoint, update_self]
    | some p =>
      simp only [setEndpoint, setMessage, update_self]
      rfl
  rw [htail, hq.tail]
  cases after with
  | nil => simp
  | cons a rest =>
    have hnodup := hq.chain.nodup
    have hlast : (before ++ m :: a :: rest).getLast? = (a :: rest).getLast? := by
      simp [getLast?_append, getLast?_cons]
    have hsame : (before ++ a :: rest).getLast? = (a :: rest).getLast? := by
      simp [getLast?_append, getLast?_cons]
    rw [hlast, hsame, if_neg]
    intro heq
    have hmem : m ∈ a :: rest := mem_of_getLast? heq
    exact (nodup_cons.mp (nodup_append.mp hnodup).2.1).1 hmem

theorem unlink_cells (s : Machine) (e : EndpointId) (previous : Option MessageId) (m m' : MessageId) :
    ((s.unlink e previous m).messages m').cell = (s.messages m').cell ∧
      (previous ≠ some m' →
        ((s.unlink e previous m).messages m').next = (s.messages m').next) := by
  unfold unlink
  cases previous with
  | none => exact ⟨rfl, fun _ => rfl⟩
  | some p =>
    by_cases hp : m' = p
    · subst hp
      exact ⟨by simp [setEndpoint, setMessage, Message.cell], fun hne => absurd rfl hne⟩
    · exact ⟨by simp [setEndpoint, setMessage, hp], fun _ => by simp [setEndpoint, setMessage, hp]⟩

theorem unlink_endpoints (s : Machine) (e : EndpointId) (previous : Option MessageId)
    (m : MessageId) {e' : EndpointId} (h : e' ≠ e) :
    (s.unlink e previous m).endpoints e' = s.endpoints e' := by
  unfold unlink
  cases previous <;> simp [setEndpoint, setMessage, h]

theorem unlink_door (s : Machine) (e : EndpointId) (previous : Option MessageId) (m : MessageId)
    (e' : EndpointId) : ((s.unlink e previous m).endpoints e').door = (s.endpoints e').door := by
  by_cases he : e' = e
  · subst he
    unfold unlink
    cases previous <;> simp [setEndpoint, setMessage, Endpoint.door]
  · rw [unlink_endpoints s e previous m he]

theorem unlink_counters (s : Machine) (e : EndpointId) (previous : Option MessageId)
    (m : MessageId) :
    ((s.unlink e previous m).endpoints e).queued = (s.endpoints e).queued - 1 ∧
      ((s.unlink e previous m).endpoints e).reservedUsed =
        (if (s.messages m).reservedCell then (s.endpoints e).reservedUsed - 1
        else (s.endpoints e).reservedUsed) := by
  unfold unlink
  cases previous <;> simp [setEndpoint, setMessage]

theorem unlink_rest (s : Machine) (e : EndpointId) (previous : Option MessageId) (m : MessageId) :
    (s.unlink e previous m).invocations = s.invocations ∧
      (s.unlink e previous m).invocationFree = s.invocationFree ∧
      (s.unlink e previous m).generation = s.generation ∧
      (s.unlink e previous m).nextObjectId = s.nextObjectId := by
  unfold unlink
  cases previous <;> exact ⟨rfl, rfl, rfl, rfl⟩

theorem releaseCarried_stands (s : Machine) (e : EndpointId) (caps : List DeliveredCap) :
    Stands s (s.releaseCarried e caps) := by
  unfold releaseCarried
  split
  · exact Stands.refl s
  · exact s.releaseSlots_stands _ _

/-- **One message withdrawn and its invocation discharged.** -/
theorem withdrawMessage_removed (hq : s.QueueOf e (before ++ m :: after))
    (hd : Discharges (s.messages m).invocation
      (s.withdrawMessage e before.getLast? m cancel) t) : s.Removed e before m after t := by
  have hstands := (s.unlink e before.getLast? m).releaseCarried_stands e (s.messages m).caps
  obtain ⟨hinvocations, -, hgeneration, hnext⟩ := s.unlink_rest e before.getLast? m
  have hendpoints : t.endpoints = (s.unlink e before.getLast? m).endpoints :=
    hd.endpoints.trans hstands.endpoints
  have hmessages : t.messages =
      update (s.unlink e before.getLast? m).messages m .empty := by
    rw [hd.messages, ← hstands.messages]
    rfl
  have hat : ∀ m', m' ≠ m → t.messages m' = (s.unlink e before.getLast? m).messages m' := by
    intro m' hne
    rw [hmessages, update_of_ne hne]
  have hmem : ∀ m' ∈ before ++ after, m' ≠ m := by
    rintro m' hm' rfl
    have hnodup := hq.chain.nodup
    rw [nodup_append] at hnodup
    rcases mem_append.mp hm' with hin | hin
    · exact hnodup.2.2 m' hin m' (by simp) rfl
    · exact (nodup_cons.mp hnodup.2.1).1 hin
  refine ⟨?_, ?_, ?_, ?_, ?_, ?_, ?_, ?_, ?_, ?_, ?_, ?_, ?_⟩
  · intro e' he'
    rw [hendpoints, unlink_endpoints s e _ m he']
  · rw [hendpoints]
    refine (unlink_chain hq).congr fun m' hm' => ?_
    rw [hat m' (hmem m' hm')]
  · rw [hendpoints]
    exact unlink_tail hq
  · rw [hendpoints]
    exact (s.unlink_counters e _ m).1
  · rw [hendpoints]
    exact (s.unlink_counters e _ m).2
  · intro e'
    rw [hendpoints]
    exact s.unlink_door e _ m e'
  · rw [hd.generation, ← hgeneration, ← hstands.generation]
    rfl
  · rw [hmessages, update_self]
    rfl
  · intro m' hne
    rw [hat m' hne]
    exact (s.unlink_cells e _ m m').1
  · intro m' hne hbefore
    rw [hat m' hne]
    refine (s.unlink_cells e _ m m').2 fun hlast => hbefore ?_
    exact mem_of_getLast? hlast
  · have hcarried : Others (s.messages m).invocation s
        ((s.unlink e before.getLast? m).releaseCarried e (s.messages m).caps) := by
      have hquiet := Others.of_quiet (Quiet.of_stands hstands) (s.messages m).invocation
      exact (Others.of_update (s := s) fun j _ => by rw [hinvocations]).trans hquiet
    refine hcarried.trans (Others.of_update fun j hj => ?_)
    rw [(hd.other j hj).1]
    exact update_of_ne hj _ _
  · exact Or.inl hd.done
  · rw [hd.nextObjectId, ← hnext]
    exact hstands.nextObjectId

end Withdrawing

/-! ### Delivering -/

/-- The first message taken off and its invocation marked. -/
def takeOff (s : Machine) (e : EndpointId) (m : MessageId) (i : InvocationId) : Machine :=
  ((s.dequeue e m).markDelivered i).emptyMessage m

theorem takeOff_removed {after : List MessageId} (hq : s.QueueOf e (m :: after)) :
    s.Removed e [] m after (s.takeOff e m (s.messages m).invocation) := by
  have hat : ∀ m', m' ≠ m →
      (s.takeOff e m (s.messages m).invocation).messages m' = s.messages m' := by
    intro m' hne
    exact update_of_ne hne _ _
  have hself : (s.takeOff e m (s.messages m).invocation).endpoints e =
      { s.endpoints e with
        head := (s.messages m).next
        tail := if (s.messages m).next.isNone then none else (s.endpoints e).tail
        queued := (s.endpoints e).queued - 1
        reservedUsed := if (s.messages m).reservedCell then (s.endpoints e).reservedUsed - 1
          else (s.endpoints e).reservedUsed } := update_self _ _ _
  have hmem : ∀ m' ∈ after, m' ≠ m := by
    rintro m' hm' rfl
    exact (nodup_cons.mp hq.chain.nodup).1 hm'
  refine ⟨?_, ?_, ?_, ?_, ?_, ?_, rfl, ?_, ?_, ?_, ?_, ?_, le_rfl⟩
  · intro e' he'
    show (update s.endpoints e _ e').links = _
    rw [update_of_ne he']
  · rw [hself]
    refine hq.chain.2.congr fun m' hm' => ?_
    rw [hat m' (hmem m' hm')]
  · rw [hself]
    have hnext : (s.messages m).next = after.head? := hq.chain.2.head?
    have htail := hq.tail
    rw [hnext]
    cases after with
    | nil => rfl
    | cons a rest => simpa [getLast?_cons_cons] using htail
  · rw [hself]
  · rw [hself]
  · intro e'
    by_cases he : e' = e
    · subst he
      rw [hself]
      rfl
    · show (update s.endpoints e _ e').door = _
      rw [update_of_ne he]
  · show (update s.messages m _ m).used = false
    rw [update_self]
  · intro m' hne
    rw [hat m' hne]
  · intro m' hne _
    rw [hat m' hne]
  · refine Others.of_update fun j hj => ?_
    exact update_of_ne hj _ _
  · refine Or.inr ⟨rfl, ?_, ?_, ?_⟩ <;> simp [takeOff, markDelivered, emptyMessage, dequeue,
      setInvocation, setEndpoint, setMessage, releaseMessage]

end Machine

end Thalyx.Kernel
