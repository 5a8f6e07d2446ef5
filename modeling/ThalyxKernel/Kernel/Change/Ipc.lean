/-
Admission, delivery and discharge, as paths.

An admission claims a message and an invocation and gives them back when it is refused, and a
ticket stands for work that was delivered.  That these are so is not checked anywhere: it
follows from how the pools and the tickets are kept, which is what `Sound` says.
-/
import ThalyxKernel.Kernel.Change.Lifecycle

namespace Thalyx.Kernel

open Fallible (final Leads Within)

/-- What the operations on admitted work rely on. -/
structure Machine.Sound (s : Machine) : Prop where
  /-- A message that can be claimed is in no queue. -/
  message : ∀ m, s.messageFree m = true → (s.messages m).used = false
  invocation : ∀ i, s.invocationFree i = true → (s.invocations i).state = .empty
  /-- No grant is of an invocation of a later generation. -/
  bounded : ∀ g i, (s.grants g).used = true → (s.grants g).object.object = .invocation i →
    (s.grants g).object.generation ≤ s.generation (.invocation i)
  /-- Work that somebody has a ticket for is not in a queue. -/
  named : ∀ g i, (s.grants g).used = true →
    (s.grants g).object = ⟨.invocation i, s.generation (.invocation i)⟩ →
    (s.invocations i).state ≠ .admitted
  replied : ∀ i, (s.invocations i).replied = true → (s.invocations i).state ≠ .admitted

namespace Machine

variable {s t : Machine} {endpoint : EndpointId} {m : MessageId} {i : InvocationId}

theorem Claimed.of_core (h : s.Claimed endpoint m i) (hc : t.core = s.core) :
    t.Claimed endpoint m i where
  used := (congrArg Queue.used (queue_of_core hc endpoint)).trans h.used
  opened := (congrArg Queue.opened (queue_of_core hc endpoint)).trans h.opened
  message := by
    have hm : t.messages = s.messages := congrArg Core.messages hc
    rw [hm]
    exact h.message
  messageTaken := by
    have hm : t.messageFree = s.messageFree := congrArg Core.messageFree hc
    rw [hm]
    exact h.messageTaken
  invocation := (congrArg Record.state (record_of_core hc i)).trans h.invocation
  invocationTaken := by
    have hi : t.invocationFree = s.invocationFree := congrArg Core.invocationFree hc
    rw [hi]
    exact h.invocationTaken

theorem Claimed.of_stands (h : s.Claimed endpoint m i) (hs : Stands s t) :
    t.Claimed endpoint m i := by
  obtain ⟨hrecord, hfree⟩ := hs.live i (by simp [h.invocation])
  refine ⟨?_, ?_, ?_, ?_, ?_, ?_⟩
  · rw [hs.endpoints]
    exact h.used
  · rw [hs.endpoints]
    exact h.opened
  · rw [hs.messages]
    exact h.message
  · rw [hs.messageFree]
    exact h.messageTaken
  · rw [hrecord]
    exact h.invocation
  · rw [hfree]
    exact h.invocationTaken

/-- A capability about to cross is of a grant in use. -/
def Backed (s : Machine) (sources : List Source) : Prop :=
  ∀ source ∈ sources, (s.grants source.grant).used = true ∧
    (s.grants source.grant).object = source.object

variable {sources : List Source}

theorem Backed.of_core (h : s.Backed sources) (hc : t.core = s.core) : t.Backed sources := by
  intro source hsource
  rw [node_of_core hc (h source hsource).1]
  exact h source hsource

theorem sources_backed {ctx : Ctx} {request : SendRequest} {ks : List (Fin maxMessageCaps)}
    {found : List Source} (hfound : s.Backed found)
    (h : s.sources ctx request ks found = .ok sources) : s.Backed sources := by
  induction ks generalizing found with
  | nil =>
    rw [← Except.ok.inj h]
    exact hfound
  | cons k rest ih =>
    unfold Machine.sources at h
    split at h
    · cases h
    · split at h
      · cases h
      · rename_i cap hcap
        split at h
        · cases h
        · refine ih ?_ h
          obtain ⟨entry, -, -, -, hused, hobject, -⟩ := resolveEntry_ok hcap
          intro source hsource
          rcases List.mem_append.mp hsource with hin | hnew
          · exact hfound source hin
          · rw [List.mem_singleton.mp hnew]
            exact ⟨hused, hobject⟩

theorem capInstall_backed {domain : DomainId} {object : ObjRef} {grant : Option GrantId}
    {at? : Option CapSlot} (h : s.Backed sources) :
    (s.capInstall domain object grant at?).1.Backed sources := by
  intro source hsource
  obtain ⟨refs, hrefs⟩ := s.capInstall_grant domain object grant at? source.grant
  rw [hrefs]
  exact h source hsource

theorem installAll_stands (receiver : DomainId) (sources : List Source)
    (placed : List DeliveredCap) (s : Machine) :
    Stands s (installAll receiver sources placed s).1 := by
  induction sources generalizing s placed with
  | nil => exact Stands.refl s
  | cons source rest ih =>
    unfold installAll
    have h := s.capInstall_stands receiver source.object (some source.grant) none
    rcases hc : s.capInstall receiver source.object (some source.grant) none with ⟨t, _ | handle⟩
    · rw [hc] at h
      exact h
    · rw [hc] at h
      exact h.trans (ih _ t)

theorem takeReceiverFrom_core (endpoint : EndpointId) (now : Nat) (l : List ThreadId)
    (s : Machine) : (takeReceiverFrom endpoint now l s).1.core = s.core := by
  induction l generalizing s with
  | nil => rfl
  | cons i rest ih =>
    unfold takeReceiverFrom
    split
    · dsimp only
      have hset : (s.setEndpoint endpoint fun e =>
          { e with receivers := Function.update e.receivers i false }).core = s.core :=
        setEndpoint_core s endpoint rfl
      generalize (s.setEndpoint endpoint fun e =>
          { e with receivers := Function.update e.receivers i false }) = t at hset ⊢
      have hclaim := t.claimHandoff_core i
        (.receive endpoint (t.generation (.endpoint endpoint))) .ok 0
      split
      · rename_i u hu
        rw [hu] at hclaim
        exact (ih u).trans (hclaim.trans hset)
      · rename_i u offer hu
        rw [hu] at hclaim
        split
        · exact hclaim.trans hset
        · split <;> exact hclaim.trans hset
    · exact ih s

theorem setWakeAux_core (s : Machine) (i : ThreadId) (aux : Nat) :
    (s.setWakeAux i aux).core = s.core := rfl

theorem wake_core (s : Machine) (i : ThreadId) : (s.wake i).core = s.core := rfl

theorem chargeTo_core (s : Machine) (thread : ThreadId) (scope : ScopeId) (recovery : Bool) :
    (s.chargeTo thread scope recovery).core = s.core := by
  unfold chargeTo
  split
  · exact (takeParallelism_core _ _).trans (dropParallelism_core _ _)
  · exact takeParallelism_core _ _

theorem bind_core (s : Machine) (thread : ThreadId) (i : InvocationId) (payer : ScopeId × Bool) :
    (s.bind thread i payer).core = s.core := s.chargeTo_core thread payer.1 payer.2

theorem unbind_core (s : Machine) (thread : ThreadId) : (s.unbind thread).core = s.core := by
  unfold unbind
  split
  · rfl
  · dsimp only
    split <;> rfl

theorem storeReply_core (s : Machine) (i : InvocationId) (request : ReplyRequest)
    (installed : List Handle) : (s.storeReply i request installed).core = s.core :=
  setInvocation_core s i rfl

end Machine

namespace Path

open Machine

variable {drops : Machine → EndpointId → Prop} {s t : Machine} {caller : Caller}

/-! ### Admission -/

section Admission

variable {endpoint : EndpointId} {m : MessageId} {i : InvocationId}

theorem returnAdmission (h : s.Claimed endpoint m i) (origin : ScopeId) (charged : Nat) :
    Path drops s (s.returnAdmission m i origin charged) := by
  have hboth : Path drops s ((s.freeInvocation i).releaseMessage m) :=
    (of_change (.freeInvocation h.invocation)).trans (of_change (.releaseMessage h.message))
  unfold Machine.returnAdmission
  dsimp only
  split
  · exact hboth.then_aside (release_core _ _ _ _)
  · exact hboth

variable {receiver : DomainId} {sources : List Source}

theorem installAll {placed : List DeliveredCap}
    (h : s.Backed sources) : Path drops s (Machine.installAll receiver sources placed s).1 := by
  induction sources generalizing s placed with
  | nil => exact refl s
  | cons source rest ih =>
    obtain ⟨hu, ho⟩ := h source List.mem_cons_self
    have hinstall : Path drops s
        (s.capInstall receiver source.object (some source.grant) none).1 := capInstall hu ho
    have hback : (s.capInstall receiver source.object (some source.grant) none).1.Backed
        (source :: rest) := capInstall_backed h
    unfold Machine.installAll
    rcases hc : s.capInstall receiver source.object (some source.grant) none with ⟨t, _ | handle⟩
    · rw [hc] at hinstall
      exact hinstall
    · rw [hc] at hinstall hback
      exact hinstall.trans (ih fun k hk => hback k (List.mem_cons_of_mem _ hk))

variable {α : Type} {origin : ScopeId}

theorem installed {charged : Nat} {f : List DeliveredCap → Op α} (hc : s.Claimed endpoint m i)
    (hb : s.Backed sources)
    (h : ∀ placed t, t.Claimed endpoint m i → Leads (Path drops) (f placed) t) :
    Leads (Path drops) (Op.installAll receiver sources origin charged m i >>= f) s := by
  have hpath : Path drops _ (Machine.installAll receiver sources [] s).1 := installAll hb
  have hstands := installAll_stands receiver sources [] s
  refine bind ?_ fun placed t ht => ?_
  · unfold Leads Op.installAll
    rcases hi : Machine.installAll receiver sources [] s with ⟨t, placed, _ | _⟩
    · rw [hi] at hpath hstands
      have hreleased : Path drops _ _ :=
        releaseSlots t receiver (placed.map DeliveredCap.slot)
      have hkept := t.releaseSlots_stands receiver (placed.map DeliveredCap.slot)
      dsimp only
      generalize t.releaseSlots receiver (placed.map DeliveredCap.slot) = u at hreleased hkept ⊢
      have hclaimed : u.releaseReceipt.Claimed endpoint m i :=
        (hc.of_stands (hstands.trans hkept)).of_core u.releaseReceipt_core
      exact (hpath.trans (hreleased.then_aside u.releaseReceipt_core)).trans
        (returnAdmission hclaimed origin charged)
    · rw [hi] at hpath
      exact hpath
  · unfold Op.installAll at ht
    rcases hi : Machine.installAll receiver sources [] s with ⟨u, placed', _ | _⟩
    · simp [hi] at ht
    · rw [hi] at hstands
      simp only [hi] at ht
      obtain ⟨rfl, rfl⟩ := EStateM.Result.ok.inj ht
      exact h _ _ (hc.of_stands hstands)

theorem claimMessage {f : MessageId → Op α} (h : ∀ m, s.messageFree m = true →
      Leads (Path drops) (f m) { s with messageFree := Function.update s.messageFree m false }) :
    Leads (Path drops) (Op.claimMessage >>= f) s := by
  unfold Leads
  cases hm : (List.finRange maxMessages).find? s.messageFree with
  | none =>
    have herr : Op.claimMessage s = .error .limitExhausted s := by
      simp [Op.claimMessage, Machine.claimMessage, hm]
    rw [Fallible.bind_of_error herr]
    exact refl s
  | some m =>
    have hok : Op.claimMessage s =
        .ok m { s with messageFree := Function.update s.messageFree m false } := by
      simp [Op.claimMessage, Machine.claimMessage, hm]
    have hfree : s.messageFree m = true := List.find?_some hm
    rw [Fallible.bind_of_ok hok]
    exact (of_change (.claimMessage hfree)).trans (h m hfree)

theorem claimInvocation {f : InvocationId → Op α} (hm : (s.messages m).used = false)
    (h : ∀ i, s.invocationFree i = true → Leads (Path drops) (f i)
      { s with invocationFree := Function.update s.invocationFree i false }) :
    Leads (Path drops) (Op.claimInvocation m >>= f) s := by
  unfold Leads
  cases hi : (List.finRange maxInvocations).find? s.invocationFree with
  | none =>
    have herr : Op.claimInvocation m s = .error .limitExhausted (s.releaseMessage m) := by
      simp [Op.claimInvocation, Machine.claimInvocation, hi]
    rw [Fallible.bind_of_error herr]
    exact of_change (.releaseMessage hm)
  | some i =>
    have hok : Op.claimInvocation m s =
        .ok i { s with invocationFree := Function.update s.invocationFree i false } := by
      simp [Op.claimInvocation, Machine.claimInvocation, hi]
    have hfree : s.invocationFree i = true := List.find?_some hi
    rw [Fallible.bind_of_ok hok]
    exact (of_change (.claimInvocation hfree)).trans (h i hfree)

variable {kind : MessageKind}

theorem chargeBytes {payloadLen : Nat} {f : Nat → Op α} (hc : s.Claimed endpoint m i)
    (h : ∀ charged t, t.core = s.core → Leads (Path drops) (f charged) t) :
    Leads (Path drops) (Op.chargeBytes kind origin payloadLen m i >>= f) s := by
  refine bind ?_ fun charged t ht => ?_
  · unfold Leads Op.chargeBytes
    split
    · exact refl s
    · dsimp only
      split
      · rename_i scopes hr
        exact aside (s.reserve_core hr)
      · exact returnAdmission hc origin 0
  · refine h charged t ?_
    unfold Op.chargeBytes at ht
    split at ht
    · exact (EStateM.Result.ok.inj ht).2 ▸ rfl
    · dsimp only at ht
      split at ht
      · rename_i scopes hr
        exact (EStateM.Result.ok.inj ht).2 ▸ s.reserve_core hr
      · cases ht

theorem claimReceipt {charged : Nat} {f : Unit → Op α}
    (hc : s.Claimed endpoint m i) (h : ∀ t, t.core = s.core → Leads (Path drops) (f ()) t) :
    Leads (Path drops) (Op.claimReceipt origin charged m i >>= f) s := by
  refine bind ?_ fun _ t ht => ?_
  · unfold Leads Op.claimReceipt
    split
    · rename_i t hr
      exact aside (reserveReceipt_core hr)
    · exact returnAdmission hc origin charged
  · refine h t ?_
    unfold Op.claimReceipt at ht
    split at ht
    · rename_i u hr
      exact (EStateM.Result.ok.inj ht).2 ▸ reserveReceipt_core hr
    · cases ht

variable {request : SendRequest} {waiter : Option ThreadId}

/-- **An admission**: everything it claims goes back when it is refused, but for an identity
that was not to be had. -/
theorem admitReserved {ctx : Ctx} (hs : s.Sound)
    (hu : (s.endpoints endpoint).used = true) (ho : (s.endpoints endpoint).opened = true)
    (hb : s.Backed sources) :
    Leads (Path drops) (Kernel.admitReserved ctx endpoint request kind waiter receiver sources)
      s := by
  refine claimMessage fun m hm => claimInvocation (hs.message m hm) fun i hi => get ?_
  have hclaimed : ({ s with
      messageFree := Function.update s.messageFree m false
      invocationFree := Function.update s.invocationFree i false } : Machine).Claimed endpoint m i :=
    ⟨hu, ho, hs.message m hm, Function.update_self _ _ _, hs.invocation i hi,
      Function.update_self _ _ _⟩
  have hback : ({ s with
      messageFree := Function.update s.messageFree m false
      invocationFree := Function.update s.invocationFree i false } : Machine).Backed sources := hb
  refine chargeBytes hclaimed fun charged t ht => ?_
  refine claimReceipt (hclaimed.of_core ht) fun u hu => ?_
  refine installed ((hclaimed.of_core ht).of_core hu) ((hback.of_core ht).of_core hu)
    fun placed v hv => ?_
  refine modify (consumeMoves v ctx.domain sources) ?_
  have hv' := hv.of_stands (v.consumeMoves_stands ctx.domain sources)
  generalize v.consumeMoves ctx.domain sources = w at hv' ⊢
  exact nextIdWith rfl (of_change (.publish hv'))

theorem admitMessage {ctx : Ctx} (hs : s.Sound) (hu : (s.endpoints endpoint).used = true) :
    Leads (Path drops) (Kernel.admitMessage ctx endpoint request kind waiter) s := by
  refine ask fun receiver hr => require fun _ => require fun _ => require fun _ => ?_
  refine ask fun sources hsources => require fun _ => require fun _ => ?_
  refine admitReserved hs hu ?_ (sources_backed (fun _ h => by cases h) hsources)
  by_contra hno
  have hclosed : (s.endpoints endpoint).opened = false := by simpa using hno
  simp [receiverOf, hclosed] at hr

theorem endpoint_used {kind : Option ObjKind} {required : Rights} {cap : Resolved} {now : Nat}
    {domain : DomainId} {handle : Handle} (h : s.resolve domain handle kind required now = .ok cap)
    (he : cap.object.object = .endpoint endpoint) : (s.endpoints endpoint).used = true := by
  obtain ⟨-, -, -, -, -, -, -, -, -, -, halive⟩ := resolveEntry_ok h
  simp only [objectAlive, he, Machine.used, Bool.and_eq_true] at halive
  exact halive.1

theorem send (hs : s.Sound) (request : SendRequest) :
    Leads (Path drops) (Kernel.send caller request) s :=
  atEndpoint fun _ _ hcap he =>
    bind (admitMessage hs (endpoint_used hcap he)) fun _ _ _ => of_pure _

theorem call (hs : s.Sound) (request : SendRequest) :
    Leads (Path drops) (Kernel.call caller request) s := by
  refine require fun _ => atEndpoint fun _ _ hcap he => ?_
  refine bind (admitMessage hs (endpoint_used hcap he)) fun admitted t _ => ?_
  exact aside rfl

end Admission

/-! ### Delivery -/

variable {domain origin responder : DomainId}

theorem collect_granted_core {g : GrantId} {node : Grant} {u : Machine}
    {object : ObjRef} (hfree : (s.grants g).used = false) (hp : node.parent = none)
    (hu : node.used = true) (hr : node.refs = 0) (hch : node.children = 0)
    (h : (s.granted g node).capInstall domain object (some g) none = (u, none)) :
    (u.collectGrant (some g)).core = { s.core with nextObjectId := s.nextObjectId + 1 } := by
  obtain ⟨hgrants, hscopes⟩ : u.grants = Function.update s.grants g node ∧
      ∀ k, (u.scopes k).place = (s.scopes k).place := by
    obtain ⟨table, -, rfl⟩ := capInstall_none h
    exact ⟨by simp [granted, setGrantOf, hp], fun _ => rfl⟩
  have hat : u.grants g = node := by rw [hgrants, Function.update_self]
  have hcollect : u.collectGrant (some g) = u.freeGrant g := by
    unfold collectGrant
    show (if _ then _ else _) = _
    simp only [hat, hu, hr, hch, hp, collectGrantUpTo]
    rfl
  have hfreed : (u.freeGrant g).grants = Function.update s.grants g .empty := by
    unfold freeGrant
    simp [setGrantOf, setGrant, hat, hgrants, hp]
  rw [hcollect]
  refine uninstalled_core h (fun k => (release_place _ _ _ _ k).trans (hscopes k)) ?_ rfl
  rw [hfreed]
  refine congrFun (update_seen Grant.shown s.grants g _ ?_)
  simp [Grant.shown, Grant.empty, hfree]

variable {receiver : DomainId} {i : InvocationId}

theorem issueTicket_none (h : s.issueTicket receiver i = (t, none)) :
    ∃ n, s.nextObjectId ≤ n ∧ t.core = { s.core with nextObjectId := n } := by
  unfold issueTicket at h
  dsimp only at h
  split at h
  · rename_i u hg
    obtain rfl := (Prod.mk.inj h).1
    rcases (grantAlloc_none hg).2 with rfl | rfl
    · exact ⟨_, le_rfl, rfl⟩
    · exact ⟨_, Nat.le_succ _, rfl⟩
  · rename_i u g hg
    obtain ⟨-, hfree, rfl⟩ := grantAlloc_some hg
    split at h
    · rename_i v hc
      obtain rfl := (Prod.mk.inj h).1
      exact ⟨_, Nat.le_succ _,
        collect_granted_core (freeGrantNode_unused hfree) rfl rfl rfl rfl hc⟩
    · cases h

theorem issueTicket_some {ticket : Handle} (h : s.issueTicket receiver i = (t, some ticket)) :
    ∃ g u v, s.grantAlloc (s.domains receiver).ownerScope none
        ⟨.invocation i, s.generation (.invocation i)⟩ ticketRights 0 none
        (s.invocations i).facet = (u, some g) ∧
      u.capInstall receiver ⟨.invocation i, s.generation (.invocation i)⟩ (some g) none =
        (v, some ticket) ∧
      t = v.setInvocation i fun slot => { slot with receiverDomain := receiver } := by
  unfold issueTicket at h
  dsimp only at h
  split at h
  · cases h
  · rename_i u g hg
    split at h
    · cases h
    · rename_i v handle hc
      simp only [Prod.mk.injEq, Option.some.injEq] at h
      obtain ⟨rfl, rfl⟩ := h
      exact ⟨g, u, v, hg, hc, rfl⟩

variable {endpoint : EndpointId}

theorem deliver {m : MessageId}
    (hu : (s.endpoints endpoint).used = true) (hm : (s.endpoints endpoint).head = some m) :
    Path drops s (s.deliver receiver endpoint m).1 := by
  rcases hd : s.deliver receiver endpoint m with ⟨t, code | ticket⟩
  · unfold Machine.deliver at hd
    dsimp only at hd
    split at hd
    · rw [← (Prod.mk.inj hd).1]
      exact refl s
    · split at hd
      · rename_i u hu
        obtain ⟨n, hn, hcore⟩ := issueTicket_none hu
        rw [← (Prod.mk.inj hd).1]
        exact of_change (.identity hcore hn)
      · cases (Prod.mk.inj hd).2
  · exact of_change (.deliver hd hu hm)

theorem receiveOn (hu : (s.endpoints endpoint).used = true) :
    Leads (Path drops) (Machine.receiveOn caller endpoint) s := by
  unfold Leads Machine.receiveOn
  split
  · rename_i m hm
    have h : Path drops s (s.deliver caller.domain endpoint m).1 := deliver hu hm
    split
    · rename_i t ticket ht
      rw [ht] at h
      exact h
    · rename_i t code ht
      rw [ht] at h
      exact h
  · split
    · exact refl s
    · refine aside ?_
      dsimp only [final]
      exact setEndpoint_core _ endpoint rfl

theorem receive (ha : (s.domains caller.domain).state = .runnable) :
    Leads (Path drops) (Kernel.receive caller) s := by
  refine atEndpoint fun cap endpoint hcap he => orElse ?_ fun _ t ht => receiveOn ?_
  · unfold Machine.selfClaim
    split
    · rename_i hnone
      exact of_change (.claimReceiver (Or.inl hnone) (Or.inr ha))
    · exact refl s
  · have hused := endpoint_used hcap he
    unfold Machine.selfClaim at ht
    split at ht
    · rw [← (Prod.mk.inj ht).1]
      simpa [setEndpoint] using hused
    · rw [← (Prod.mk.inj ht).1]
      exact hused

/-! ### Reply and resolution -/

variable {now : Nat}

theorem not_admitted_of_resolve (hs : s.Sound) {handle : Handle}
    {kind : Option ObjKind} {required : Rights} {cap : Resolved}
    (h : s.resolve domain handle kind required now = .ok cap)
    (hi : cap.object.object = .invocation i) : (s.invocations i).state ≠ .admitted := by
  obtain ⟨entry, -, -, -, hused, hobject, -, -, -, -, halive⟩ := resolveEntry_ok h
  simp only [objectAlive, Bool.and_eq_true, beq_iff_eq] at halive
  refine hs.named cap.grant i hused ?_
  rw [hobject, ← hi, halive.2]

variable {request : ReplyRequest} {ks : List (Fin maxMessageCaps)} {installed : List Handle}

theorem transfer (s : Machine) :
    Leads (Path drops) (Machine.transfer responder origin now request ks installed) s := by
  induction ks generalizing s installed with
  | nil => exact refl s
  | cons k rest ih =>
    unfold Leads Machine.transfer
    dsimp only
    split
    · exact refl s
    · split
      · exact releaseSlots s origin _
      · rename_i cap hcap
        obtain ⟨entry, -, -, -, hused, hobject, -⟩ := resolveEntry_ok hcap
        have hinstall : Path drops s
            (s.capInstall origin cap.object (some cap.grant) none).1 := capInstall hused hobject
        split
        · rename_i t ht
          rw [ht] at hinstall
          exact hinstall.trans (releaseSlots t origin _)
        · rename_i t handle ht
          rw [ht] at hinstall
          refine hinstall.trans ?_
          split
          · exact (capReleaseSlot t responder cap.slot).trans (ih _)
          · exact ih t

theorem transfer_stands (s : Machine) :
    Stands s (final (Machine.transfer responder origin now request ks installed s)) := by
  induction ks generalizing s installed with
  | nil => exact Stands.refl s
  | cons k rest ih =>
    unfold Machine.transfer
    dsimp only
    split
    · exact Stands.refl s
    · split
      · exact s.releaseSlots_stands origin _
      · rename_i cap hcap
        have hinstall := s.capInstall_stands origin cap.object (some cap.grant) none
        split
        · rename_i t ht
          rw [ht] at hinstall
          exact hinstall.trans (t.releaseSlots_stands origin _)
        · rename_i t handle ht
          rw [ht] at hinstall
          refine hinstall.trans ?_
          split
          · exact (t.capReleaseSlot_stands responder cap.slot).trans (ih _)
          · exact ih t

theorem answer (h : (s.invocations i).state ≠ .admitted)
    (request : ReplyRequest) (installed : List Handle) :
    Path drops s (s.answer i request installed) := by
  have hmarked : Path drops s (s.answeredFirst i) := of_change (.markReplied h)
  have hstate : ((s.answeredFirst i).invocations i).state ≠ .admitted := by
    simpa [answeredFirst, setInvocation] using h
  unfold Machine.answer
  dsimp only
  generalize ht : (s.setInvocation i fun slot =>
    { slot with replied := true, outcome := some .committed }) = t
  rw [show s.answeredFirst i = t from ht] at hmarked hstate
  split
  · exact hmarked.then_aside (storeReply_core t i request installed)
  · rename_i waiter _
    have hclaim := t.claimHandoff_core waiter (.reply i (t.generation (.invocation i))) .ok 0
    split
    · rename_i u hu
      rw [hu] at hclaim
      exact (hmarked.then_aside hclaim).then_aside (storeReply_core u i request installed)
    · rename_i u offer hu
      rw [hu] at hclaim
      split
      · have hdischarge : Path drops u (u.releaseInvocation i) := by
          refine of_change (.discharge ?_)
          rw [show (u.invocations i).state = (t.invocations i).state from
            congrArg Record.state (record_of_core hclaim i)]
          exact hstate
        exact ((hmarked.then_aside hclaim).trans hdischarge).then_aside rfl
      · exact (hmarked.then_aside hclaim).then_aside (storeReply_core u i request installed)

theorem reply (hs : s.Sound) (request : ReplyRequest) (raced : Bool) :
    Leads (Path drops) (Kernel.reply caller request raced) s := by
  refine atInvocation fun cap i hcap hi => require fun _ => ask fun origin horigin => ?_
  have hstate := not_admitted_of_resolve hs hcap hi
  have hlive : (s.invocations i).state ≠ .resolved := by
    intro hresolved
    simp [answerable, hresolved] at horigin
  refine bind (transfer s) fun installed t ht => ?_
  have hstands : Stands s (final (Machine.transfer caller.domain origin caller.now request
      request.listed [] s)) := transfer_stands s
  rw [ht, Fallible.final_ok] at hstands
  have hstate' : (t.invocations i).state ≠ .admitted := by
    rw [(hstands.live i hlive).1]
    exact hstate
  have honce : ∀ u : Machine, (u.invocations i).state ≠ .admitted →
      Leads (Path drops) (Machine.answerOnce i origin request installed) u := by
    intro u hu
    unfold Leads answerOnce
    split
    · exact releaseSlots u origin _
    · exact answer hu request installed
  cases raced with
  | false => exact honce t hstate'
  | true =>
    refine modify (of_change (.markReplied hstate')) (honce _ ?_)
    simpa [answeredFirst, setInvocation] using hstate'

theorem resolveInvocation (hs : s.Sound) (request : ResolveRequest) :
    Leads (Path drops) (Kernel.resolveInvocation caller request) s := by
  refine atInvocation fun cap i hcap hi => require fun _ => require fun _ => require fun _ => ?_
  have hstate := not_admitted_of_resolve hs hcap hi
  refine get (modify ?_ (of_pure _))
  dsimp only
  have hwoken : ((s.setInvocation i fun slot => { slot with outcome := request.outcome }).wakeWaiter i
      (Outcome.status request.outcome)).core = s.core :=
    (wakeWaiter_core _ i _).trans (setInvocation_core s i rfl)
  generalize (s.setInvocation i fun slot =>
    { slot with outcome := request.outcome }).wakeWaiter i (Outcome.status request.outcome) = t
    at hwoken ⊢
  refine (aside hwoken).trans (of_change (.discharge ?_))
  rw [show (t.invocations i).state = (s.invocations i).state from
    congrArg Record.state (record_of_core hwoken i)]
  exact hstate

theorem beginEffect (s : Machine) (request : EffectRequest) :
    Leads (Path drops) (Kernel.beginEffect caller request) s := by
  refine atInvocation fun cap i _ _ => require fun _ => require fun _ => require fun _ => ?_
  unfold Leads admitEffect
  split
  · dsimp only
    split
    · exact refl s
    · split
      · exact refl s
      · rename_i t ht
        refine aside ((receipt_core _ _ _).trans ?_)
        refine (setScope_core _ _ rfl).trans ((setInvocation_core _ i rfl).trans ?_)
        exact (setScope_core t _ rfl).trans (reserveReceipt_core ht)
  · exact aside ((receipt_core _ _ _).trans (setInvocation_core s i rfl))

theorem returnFromCall (hs : s.Sound) (thread : ThreadId) :
    Path drops s (final (Kernel.returnFromCall thread s)) := by
  unfold Kernel.returnFromCall
  dsimp only
  have hcleared : (s.setThread thread fun t =>
      { t with wakeStatus := .ok, wakeAux := 0, calling := none }).core = s.core := rfl
  generalize (s.setThread thread fun t =>
      { t with wakeStatus := .ok, wakeAux := 0, calling := none }) = t at hcleared ⊢
  split
  · exact aside hcleared
  · rename_i i generation _
    split
    · exact aside hcleared
    · split
      · exact aside hcleared
      · split
        · rename_i hreplied
          refine (aside hcleared).trans (of_change (.discharge ?_))
          have hstate : (t.invocations i).state = (s.invocations i).state :=
            congrArg Record.state (record_of_core hcleared i)
          have hflag : (t.invocations i).replied = (s.invocations i).replied :=
            congrArg Record.replied (record_of_core hcleared i)
          rw [hstate]
          exact hs.replied i (hflag ▸ hreplied)
        · split
          · refine (aside hcleared).then_aside ?_
            rw [Fallible.final_error]
            exact setInvocation_core t i rfl
          · rename_i hresolved
            have hdischarge : Path drops t (t.releaseInvocation i) := by
              refine of_change (.discharge ?_)
              simp only [ne_eq, not_not] at hresolved
              simp [hresolved]
            split <;> exact (aside hcleared).trans hdischarge

theorem bindWorker (s : Machine) : Leads (Path drops) (Kernel.bindWorker caller) s := by
  refine atInvocation fun cap i _ _ => require fun _ => require fun _ => get (require fun _ => ?_)
  exact modify (aside (bind_core s _ i _)) (get (of_pure _))

theorem unbindWorker (s : Machine) : Leads (Path drops) (Kernel.unbindWorker caller) s := by
  refine atInvocation fun cap i _ _ => require fun _ => ?_
  exact aside ((chargeTo_core _ _ _ _).trans (unbind_core s _))

/-! ### Faults -/

theorem deliverFault (hs : s.Sound) (domain : DomainId) (thread : ThreadId)
    (report : List UInt8) (now : Nat) : Path drops s (s.deliverFault domain thread report now) := by
  unfold Machine.deliverFault
  split
  · split
    · exact refl s
    · rename_i object _ _ _ halive
      split
      · rename_i e he
        refine admitMessage hs ?_
        simp only [objectAlive, he, Machine.used] at halive
        simp_all
      · exact refl s
  · exact refl s

theorem terminateOnFault (hs : s.Sound) (domain : DomainId) (thread : ThreadId)
    (report : List UInt8) (now : Nat)
    (hd : ∀ v, Calm (s.deliverFault domain thread report now) v → Leaves drops v domain) :
    Path drops s (s.terminateOnFault thread domain report now) :=
  (deliverFault hs domain thread report now).trans (terminateIn true fun _ => hd)

end Path

end Thalyx.Kernel
