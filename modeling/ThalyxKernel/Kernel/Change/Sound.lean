/-
The pools and the tickets are kept by every change, and so every step of the kernel is a path.

A change that admits nothing, grants nothing and claims nothing keeps them for a reason that
is always the same; what is left are the claims, the admission and the delivery.
-/
import ThalyxKernel.Kernel.Change.Withdrawal

namespace Thalyx.Kernel

open Fallible (final Leads)

/-! ### Pruned tables -/

namespace Grants

/-- Every node in use was in use before and of the same object. -/
def Fewer (t t' : Grants) : Prop :=
  ∀ g, (t' g).used = true → (t g).used = true ∧ (t' g).object = (t g).object

theorem fewer_of_prune {t t' : Grants} (h : Prune t t') : Fewer t t' := by
  intro k hk
  cases h with
  | count g refs =>
    by_cases hkg : k = g
    · subst hkg
      simpa using hk
    · simpa [hkg] using hk
  | fence g =>
    by_cases hkg : k = g
    · subst hkg
      simpa using hk
    · simpa [hkg] using hk
  | @free g _ _ _ =>
    by_cases hkg : k = g
    · subst hkg
      simp [freed_self, Grant.empty] at hk
    · rw [freed_of_ne t hkg] at hk ⊢
      split at hk <;> simp_all

theorem fewer_of_pruned {t t' : Grants} (h : Pruned t t') : Fewer t t' := by
  induction h with
  | refl => exact fun g hg => ⟨hg, rfl⟩
  | tail _ hp ih =>
    intro g hg
    obtain ⟨hu, ho⟩ := fewer_of_prune hp g hg
    obtain ⟨hu', ho'⟩ := ih g hu
    exact ⟨hu', ho.trans ho'⟩

end Grants

/-! ### Changes that admit nothing -/

/-- What a change that admits, grants and claims nothing may do. -/
structure Settles (s t : Machine) : Prop where
  messages : ∀ m, (t.messages m).used = false ∨
    ((t.messages m).used = (s.messages m).used ∧ t.messageFree m = s.messageFree m)
  invocations : ∀ i,
    ((t.invocations i).state = (s.invocations i).state ∧
      (t.invocations i).replied = (s.invocations i).replied ∧
      t.invocationFree i = s.invocationFree i) ∨
    ((t.invocations i).state ≠ .admitted ∧
      (t.invocationFree i = true → (t.invocations i).state = .empty))
  grants : Grants.Fewer s.grants t.grants
  generation : ∀ i, t.generation (.invocation i) = s.generation (.invocation i)

namespace Settles

variable {s t : Machine}

theorem sound (h : Settles s t) (hs : s.Sound) : t.Sound where
  message m hm := by
    rcases h.messages m with hu | ⟨hu, hf⟩
    · exact hu
    · rw [hu]
      exact hs.message m (hf ▸ hm)
  invocation i hi := by
    rcases h.invocations i with ⟨hstate, -, hf⟩ | ⟨-, hfree⟩
    · rw [hstate]
      exact hs.invocation i (hf ▸ hi)
    · exact hfree hi
  bounded g i hu ho := by
    obtain ⟨hu', ho'⟩ := h.grants g hu
    rw [ho', h.generation]
    exact hs.bounded g i hu' (ho' ▸ ho)
  named g i hu ho := by
    obtain ⟨hu', ho'⟩ := h.grants g hu
    rcases h.invocations i with ⟨hstate, -, -⟩ | ⟨hstate, -⟩
    · rw [hstate]
      refine hs.named g i hu' ?_
      rw [← ho', ho, h.generation]
    · exact hstate
  replied i hi := by
    rcases h.invocations i with ⟨hstate, hr, -⟩ | ⟨hstate, -⟩
    · rw [hstate]
      exact hs.replied i (hr ▸ hi)
    · exact hstate

theorem of_pruned (hm : t.messages = s.messages) (hmf : t.messageFree = s.messageFree)
    (hi : t.invocations = s.invocations) (hif : t.invocationFree = s.invocationFree)
    (hg : Grants.Pruned s.grants t.grants)
    (hgen : ∀ i, t.generation (.invocation i) = s.generation (.invocation i)) : Settles s t where
  messages m := .inr ⟨by rw [hm], by rw [hmf]⟩
  invocations i := .inl ⟨by rw [hi], by rw [hi], by rw [hif]⟩
  grants := Grants.fewer_of_pruned hg
  generation := hgen

theorem of_stands (h : Stands s t) (hg : Grants.Pruned s.grants t.grants) : Settles s t where
  messages m := .inr ⟨by rw [h.messages], by rw [h.messageFree]⟩
  invocations i := by
    rcases h.invocations i with ⟨hr, hf⟩ | ⟨-, hempty⟩
    · exact .inl ⟨by rw [hr], by rw [hr], hf⟩
    · exact .inr ⟨by simp [hempty], fun _ => hempty⟩
  grants := Grants.fewer_of_pruned hg
  generation i := by rw [h.generation]

end Settles

namespace Machine

variable {s t : Machine}

theorem Sound.of_core (hs : s.Sound) {n : Nat} (h : t.core = { s.core with nextObjectId := n }) :
    t.Sound := by
  have hm : t.messages = s.messages := congrArg Core.messages h
  have hmf : t.messageFree = s.messageFree := congrArg Core.messageFree h
  have hif : t.invocationFree = s.invocationFree := congrArg Core.invocationFree h
  have hgen : t.generation = s.generation := congrArg Core.generation h
  have hrecord : ∀ i, (t.invocations i).record = (s.invocations i).record :=
    congrFun (congrArg Core.invocations h)
  have hgrants : ∀ g, (t.grants g).shown = (s.grants g).shown :=
    congrFun (congrArg Core.grants h)
  refine Settles.sound ⟨fun m => .inr ⟨by rw [hm], by rw [hmf]⟩, fun i => .inl ⟨?_, ?_, ?_⟩,
    ?_, fun i => by rw [hgen]⟩ hs
  · exact congrArg Record.state (hrecord i)
  · exact congrArg Record.replied (hrecord i)
  · rw [hif]
  · intro g hg
    have hshown := hgrants g
    unfold Grant.shown at hshown
    rw [if_pos hg] at hshown
    split at hshown
    · rename_i hu
      exact ⟨hu, congrArg Grant.object (Option.some.inj hshown)⟩
    · cases hshown

/-! ### Discharge -/

theorem releaseInvocation_sound (hs : s.Sound) (i : InvocationId) :
    (s.releaseInvocation i).Sound := by
  by_cases hempty : (s.invocations i).state = .empty
  · unfold releaseInvocation
    dsimp only
    rw [if_pos hempty]
    exact hs
  · obtain ⟨scopes, grants, hint, heq, -, hpruned⟩ := s.releaseInvocation_eq hempty
    rw [heq]
    have htaken : s.invocationFree i = false := by
      by_contra hfree
      exact hempty (hs.invocation i (by simpa using hfree))
    have hresolved : ({ s with
        scopes, grants, grantHint := hint
        invocations := Function.update s.invocations i (resolvedRecord (s.invocations i)) } :
          Machine).Sound := by
      refine Settles.sound (s := s) ⟨fun m => .inr ⟨rfl, rfl⟩, ?_,
        Grants.fewer_of_pruned hpruned, fun _ => rfl⟩ hs
      intro j
      by_cases hj : j = i
      · subst hj
        refine .inr ⟨?_, fun hfree => ?_⟩
        · simp [resolvedRecord]
        · exact absurd htaken (by simpa using hfree)
      · refine .inl ⟨?_, ?_, rfl⟩ <;> simp [hj]
    refine Settles.sound (Settles.of_stands (collectInvocation_stands _ i) ?_) hresolved
    rw [collectInvocation_grants]
    exact .refl _

/-! ### Withdrawals -/

theorem Sound.aside (hs : s.Sound) (h : t.core = s.core) : t.Sound :=
  hs.of_core (n := s.nextObjectId) h

theorem dischargeFenced_sound (hs : s.Sound) (i : InvocationId) : (s.dischargeFenced i).Sound := by
  have hwoken : (s.wakeWaiter i .cancelled).Sound := hs.aside (s.wakeWaiter_core i .cancelled)
  unfold dischargeFenced
  dsimp only
  generalize s.wakeWaiter i .cancelled = t at hwoken ⊢
  exact (releaseInvocation_sound hwoken i).aside (setScope_core _ _ rfl)

theorem withdrawMessage_sound (hs : s.Sound) (e : EndpointId) (previous : Option MessageId)
    (m : MessageId) (cancel : Cancel) : (s.withdrawMessage e previous m cancel).Sound := by
  have hunlinked : (s.unlink e previous m).Sound := by
    obtain ⟨hi, hif, hg, -⟩ := s.unlink_rest e previous m
    have hgrants := s.unlink_grants e previous m
    refine Settles.sound ⟨fun m' => .inr ⟨?_, ?_⟩, fun j => .inl ⟨by rw [hi], by rw [hi],
      by rw [hif]⟩, fun g hu => ?_, fun j => by rw [hg]⟩ hs
    · exact congrArg Cell.used (s.unlink_cells e previous m m').1
    · unfold unlink
      cases previous <;> rfl
    · rw [hgrants] at hu ⊢
      exact ⟨hu, rfl⟩
  have hstands := (s.unlink e previous m).releaseCarried_stands e (s.messages m).caps
  have hpruned := (s.unlink e previous m).releaseCarried_pruned e (s.messages m).caps
  have hcarried := Settles.sound (Settles.of_stands hstands hpruned) hunlinked
  unfold withdrawMessage
  dsimp only
  generalize (s.unlink e previous m).releaseCarried e (s.messages m).caps = u at hcarried ⊢
  refine Settles.sound (s := u) ⟨?_, ?_, fun g hu => ⟨hu, rfl⟩, fun _ => rfl⟩ hcarried
  · intro m'
    by_cases hm : m' = m
    · subst hm
      exact .inl (by simp [setInvocation, releaseMessage, setMessage, Message.empty])
    · exact .inr (by simp [setInvocation, releaseMessage, setMessage, hm])
  · intro j
    refine .inl ?_
    by_cases hj : j = (s.messages m).invocation
    · subst hj
      simp [setInvocation, releaseMessage, setMessage]
    · simp [setInvocation, releaseMessage, setMessage, hj]

section Loop

variable {pick : Machine → InvocationId → Bool} {cancel : Cancel}
  {discharge : Machine → InvocationId → Machine}

theorem withdrawFrom_sound (hd : ∀ s : Machine, s.Sound → ∀ i, (discharge s i).Sound)
    (e : EndpointId) (n : Nat) (previous cursor : Option MessageId) (hs : s.Sound) :
    (withdrawFrom pick cancel discharge e n previous cursor s).Sound := by
  induction n generalizing s previous cursor with
  | zero => exact hs
  | succ n ih =>
    cases cursor with
    | none => exact hs
    | some m =>
      unfold withdrawFrom
      dsimp only
      split
      · exact ih _ _ (hd _ (withdrawMessage_sound hs e previous m cancel) _)
      · exact ih _ _ hs

theorem withdrawAll_sound (hd : ∀ s : Machine, s.Sound → ∀ i, (discharge s i).Sound)
    (hs : s.Sound) : (s.withdrawAll pick cancel discharge).Sound := by
  unfold withdrawAll
  generalize List.finRange maxEndpoints = l
  induction l generalizing s with
  | nil => exact hs
  | cons e rest ih =>
    rw [List.foldl_cons]
    refine ih ?_
    split
    · exact withdrawFrom_sound hd e maxMessages none _ hs
    · exact hs

end Loop

/-! ### Tickets -/

theorem issued_sound {receiver : DomainId} {i : InvocationId} {ticket : Handle} (hs : s.Sound)
    (hi : (s.invocations i).state = .admitted)
    (h : s.issueTicket receiver i = (t, some ticket)) : (t.markDelivered i).Sound := by
  obtain ⟨g, u, v, hg, hc, rfl⟩ := Path.issueTicket_some h
  have hgranted := grantAlloc_stands hg
  have hinstalled := u.capInstall_stands receiver ⟨.invocation i, s.generation (.invocation i)⟩
    (some g) none
  have hpruned := u.capInstall_pruned receiver ⟨.invocation i, s.generation (.invocation i)⟩
    (some g) none
  rw [hc] at hinstalled hpruned
  have hstands := hgranted.trans hinstalled
  obtain ⟨-, hfree, hu⟩ := grantAlloc_some hg
  -- The nodes in use are those from before and the ticket's.
  have hnodes : ∀ k, (v.grants k).used = true →
      (k = g ∧ (v.grants k).object = ⟨.invocation i, s.generation (.invocation i)⟩) ∨
      ((s.grants k).used = true ∧ (v.grants k).object = (s.grants k).object) := by
    intro k hk
    obtain ⟨hk', ho⟩ := Grants.fewer_of_pruned hpruned k hk
    have hgrants : u.grants = Function.update s.grants g (s.newGrant
        (s.domains receiver).ownerScope none ⟨.invocation i, s.generation (.invocation i)⟩
        ticketRights 0 none (s.invocations i).facet) := by
      rw [hu]
      rfl
    rw [hgrants] at hk' ho
    by_cases hkg : k = g
    · subst hkg
      rw [Function.update_self] at ho
      exact .inl ⟨rfl, ho⟩
    · rw [Function.update_of_ne hkg] at hk' ho
      exact .inr ⟨hk', ho⟩
  have hself : (((v.setInvocation i fun slot => { slot with receiverDomain := receiver }).markDelivered
      i).invocations i).state = .delivered := by
    simp [markDelivered, setInvocation]
  have hother : ∀ j, j ≠ i →
      (((v.setInvocation i fun slot => { slot with receiverDomain := receiver }).markDelivered
        i).invocations j) = v.invocations j := by
    intro j hj
    simp [markDelivered, setInvocation, hj]
  have hkept : ∀ j, (v.invocations j = s.invocations j ∧ v.invocationFree j = s.invocationFree j) ∨
      (v.invocations j).state = .empty := fun j => (hstands.invocations j).imp id And.right
  refine ⟨?_, ?_, ?_, ?_, ?_⟩
  · intro m hm
    have hm' : v.messageFree m = true := hm
    show (v.messages m).used = false
    rw [hstands.messageFree] at hm'
    rw [hstands.messages]
    exact hs.message m hm'
  · intro j hj
    have hj' : v.invocationFree j = true := hj
    by_cases hji : j = i
    · subst hji
      rw [(hstands.live j (by simp [hi])).2] at hj'
      have hempty := hs.invocation j hj'
      rw [hi] at hempty
      cases hempty
    · rw [hother j hji]
      rcases hkept j with ⟨hsame, hfree'⟩ | hempty
      · rw [hsame]
        exact hs.invocation j (hfree' ▸ hj')
      · exact hempty
  · intro k j hk ho
    have hk' : (v.grants k).used = true := hk
    have ho' : (v.grants k).object.object = .invocation j := ho
    show (v.grants k).object.generation ≤ v.generation (.invocation j)
    rw [hstands.generation]
    rcases hnodes k hk' with ⟨-, hobject⟩ | ⟨hused, hobject⟩
    · rw [hobject] at ho' ⊢
      obtain rfl := Obj.invocation.inj ho'
      exact le_rfl
    · rw [hobject] at ho' ⊢
      exact hs.bounded k j hused ho'
  · intro k j hk ho
    by_cases hji : j = i
    · subst hji
      rw [hself]
      simp
    · have hk' : (v.grants k).used = true := hk
      have ho' : (v.grants k).object = ⟨.invocation j, v.generation (.invocation j)⟩ := ho
      rw [hstands.generation] at ho'
      rw [hother j hji]
      rcases hnodes k hk' with ⟨-, hobject⟩ | ⟨hused, hobject⟩
      · rw [hobject] at ho'
        exact absurd (Obj.invocation.inj (ObjRef.mk.inj ho').1).symm hji
      · have hnot := hs.named k j hused (hobject ▸ ho')
        rcases hkept j with ⟨hsame, -⟩ | hempty
        · rw [hsame]
          exact hnot
        · simp [hempty]
  · intro j hj
    by_cases hji : j = i
    · subst hji
      rw [hself]
      simp
    · rw [hother j hji] at hj ⊢
      rcases hkept j with ⟨hsame, -⟩ | hempty
      · rw [hsame] at hj ⊢
        exact hs.replied j hj
      · simp [hempty]

/-! ### Admission and delivery -/

section Admission

variable {e : EndpointId} {m : MessageId} {i : InvocationId}

theorem writeInvocation_sound (hs : s.Sound) (hc : s.Claimed e m i) (ctx : Ctx)
    (receiver : DomainId) (waiter : Option ThreadId) (charged : Nat) :
    (s.counted.writeInvocation ctx e receiver i m s.nextObjectId waiter charged).Sound := by
  generalize hw : s.counted.writeInvocation ctx e receiver i m s.nextObjectId waiter charged = w
  have hpruned := s.counted.writeInvocation_pruned ctx e receiver i m s.nextObjectId waiter charged
  rw [hw] at hpruned
  have hfewer : Grants.Fewer s.grants w.grants := Grants.fewer_of_pruned hpruned
  have hgeneration : ∀ j, w.generation (.invocation j) =
      if j = i then s.generation (.invocation i) + 1 else s.generation (.invocation j) := by
    intro j
    rw [← hw]
    show Function.update s.generation (.invocation i) (s.generation (.invocation i) + 1)
      (.invocation j) = _
    by_cases hj : j = i
    · subst hj
      simp
    · simp [hj]
  have hother : ∀ j, j ≠ i → w.invocations j = s.invocations j := by
    intro j hj
    rw [← hw]
    exact Function.update_of_ne hj _ _
  have hfree : w.invocationFree = s.invocationFree := by
    rw [← hw]
    rfl
  have hmessages : w.messages = s.messages ∧ w.messageFree = s.messageFree := by
    rw [← hw]
    exact ⟨rfl, rfl⟩
  have hreplied : (w.invocations i).replied = false := by
    rw [← hw]
    simp [writeInvocation, setScope, addGrantRef, setGrantOf, setInvocation, renew, counted]
  refine ⟨?_, ?_, ?_, ?_, ?_⟩
  · rw [hmessages.1, hmessages.2]
    exact hs.message
  · intro j hj
    rw [hfree] at hj
    by_cases hji : j = i
    · subst hji
      rw [hc.invocationTaken] at hj
      cases hj
    · rw [hother j hji]
      exact hs.invocation j hj
  · intro g j hu ho
    obtain ⟨hu', ho'⟩ := hfewer g hu
    rw [ho'] at ho ⊢
    have hle := hs.bounded g j hu' ho
    rw [hgeneration j]
    split
    · rename_i hji
      subst hji
      exact Nat.le_succ_of_le hle
    · exact hle
  · intro g j hu ho
    obtain ⟨hu', ho'⟩ := hfewer g hu
    rw [ho', hgeneration j] at ho
    by_cases hji : j = i
    · subst hji
      -- The generation is new: no grant is of it.
      have hle := hs.bounded g j hu' (by rw [ho])
      rw [ho, if_pos rfl] at hle
      exact absurd hle (Nat.not_succ_le_self _)
    · rw [if_neg hji] at ho
      rw [hother j hji]
      exact hs.named g j hu' ho
  · intro j hj
    by_cases hji : j = i
    · subst hji
      rw [hreplied] at hj
      cases hj
    · rw [hother j hji] at hj ⊢
      exact hs.replied j hj

theorem enqueue_sound (hs : s.Sound) (hm : s.messageFree m = false) (kind : MessageKind)
    (payload : List UInt8) (caps : List DeliveredCap) (charged : Nat) :
    (s.enqueue e m i kind payload caps charged).Sound := by
  obtain ⟨hi, hif, hmf, hg, hgrants, -, -⟩ := s.enqueue_rest e m i kind payload caps charged
  refine ⟨?_, ?_, ?_, ?_, ?_⟩
  · intro m' hm'
    rw [hmf] at hm'
    have hne : m' ≠ m := by
      rintro rfl
      rw [hm] at hm'
      cases hm'
    rw [show (Message.used _) = _ from
      congrArg Cell.used (s.enqueue_other e m i kind payload caps charged hne).1]
    exact hs.message m' hm'
  · rw [hi, hif]
    exact hs.invocation
  · rw [hgrants, hg]
    exact hs.bounded
  · rw [hgrants, hg, hi]
    exact hs.named
  · rw [hi]
    exact hs.replied

variable {receiver : DomainId}

theorem publish_sound {ctx : Ctx} {request : SendRequest}
    {kind : MessageKind} {waiter : Option ThreadId} {charged : Nat}
    {installed : List DeliveredCap} (hs : s.Sound) (hc : s.Claimed e m i) :
    (s.counted.publish ctx e receiver request kind waiter i m s.nextObjectId charged
      installed).Sound := by
  have hwritten := writeInvocation_sound hs hc ctx receiver waiter charged
  have hw := s.writeInvocation_written ctx e receiver i m waiter charged
  have htaken : (s.counted.writeInvocation ctx e receiver i m s.nextObjectId waiter
    charged).messageFree m = false := hc.messageTaken
  obtain ⟨u, hu, hends⟩ := s.counted.publish_cases ctx e receiver request kind waiter i m
    s.nextObjectId charged installed
  have hsound := hwritten.aside hu
  have hmessages : u.messages = s.messages := (congrArg Core.messages hu).trans hw.messages
  have htaken' : u.messageFree m = false :=
    (congrFun (congrArg Core.messageFree hu) m).trans htaken
  rcases hends with ⟨holder, t, ticket, -, -, ht, hcore⟩ | ⟨v, n, -, hv, hcore⟩
  · have hstate : (u.invocations i).state = .admitted :=
      (congrArg Record.state (record_of_core hu i)).trans hw.state
    have hissued := issued_sound hsound hstate ht
    have hmessage : ((t.markDelivered i).messages m).used = false := by
      show (t.messages m).used = false
      rw [(issueTicket_quiet ht).messages, hmessages]
      exact hc.message
    refine Sound.aside ?_ hcore
    refine ⟨?_, hissued.invocation, hissued.bounded, hissued.named, hissued.replied⟩
    intro m' hm'
    by_cases hne : m' = m
    · subst hne
      exact hmessage
    · refine hissued.message m' ?_
      rw [← hm']
      exact (Function.update_of_ne hne _ _).symm
  · have htaken'' : v.messageFree m = false :=
      (congrFun (congrArg Core.messageFree hv) m).trans htaken'
    exact (enqueue_sound (hsound.of_core hv) htaken'' kind _ installed charged).aside hcore

theorem deliver_sound {ticket : Handle} (hs : s.Sound) (hq : s.Queued)
    (he : (s.endpoints e).used = true) (hm : (s.endpoints e).head = some m)
    (h : s.deliver receiver e m = (t, .ok ticket)) : t.Sound := by
  unfold deliver at h
  dsimp only at h
  split at h
  · cases (Prod.mk.inj h).2
  · split at h
    · cases (Prod.mk.inj h).2
    · rename_i u ticket' hu
      obtain ⟨l, hl⟩ := hq.queue e he
      have hmem : m ∈ l := by
        have hhead := hl.chain.head?
        rw [hm] at hhead
        exact List.mem_of_head? hhead.symm
      have hstate := (hq.carried m (hl.used m hmem)).state
      have hissued := issued_sound hs hstate hu
      rw [← (Prod.mk.inj h).1]
      refine ⟨?_, hissued.invocation, hissued.bounded, hissued.named, hissued.replied⟩
      intro m' hm'
      by_cases hne : m' = m
      · subst hne
        show (Function.update u.messages m' _ m').used = false
        rw [Function.update_self]
      · show (Function.update u.messages m _ m').used = false
        rw [Function.update_of_ne hne]
        refine hissued.message m' ?_
        rw [← hm']
        exact (Function.update_of_ne hne _ _).symm

end Admission

end Machine

end Thalyx.Kernel
