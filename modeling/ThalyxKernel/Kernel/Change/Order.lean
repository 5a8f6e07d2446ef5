/-
The pools, the tickets and the queues are in order, and every change keeps them so.

Most changes do not come near any of them.  The others are an endpoint opened or dropped, an
admission, a delivery, a discharge and a withdrawal.
-/
import ThalyxKernel.Kernel.Change.Sound

namespace Thalyx.Kernel

open Function Quiet

/-- Pools, tickets and queues are in order. -/
structure Machine.InOrder (s : Machine) : Prop where
  sound : s.Sound
  queued : s.Queued

namespace Machine

variable {s t : Machine}

theorem InOrder.of_quiet (h : s.InOrder) (hs : Settles s t) (hq : Quiet s t) : t.InOrder :=
  ⟨hs.sound h.sound, hq.queued h.queued⟩

theorem InOrder.of_stands (h : s.InOrder) (hs : Stands s t)
    (hp : Grants.Pruned s.grants t.grants) : t.InOrder :=
  h.of_quiet (Settles.of_stands hs hp) (Quiet.of_stands hs)

theorem InOrder.of_calm (h : s.InOrder) (hc : Calm s t)
    (hp : Grants.Pruned s.grants t.grants) : t.InOrder :=
  h.of_quiet (Settles.of_pruned hc.messages hc.messageFree hc.invocations hc.invocationFree hp
    fun i => by rw [hc.generation]) hc.quiet

theorem InOrder.of_pruned (h : s.InOrder) (hm : t.messages = s.messages)
    (hmf : t.messageFree = s.messageFree) (hi : t.invocations = s.invocations)
    (hif : t.invocationFree = s.invocationFree) (hg : Grants.Pruned s.grants t.grants)
    (hgen : ∀ object, object.kind = .invocation ∨ object.kind = .endpoint →
      t.generation object = s.generation object)
    (hl : ∀ e, (t.endpoints e).links = (s.endpoints e).links)
    (hn : s.nextObjectId ≤ t.nextObjectId) : t.InOrder :=
  h.of_quiet
    (Settles.of_pruned hm hmf hi hif hg fun i => hgen (.invocation i) (.inl rfl))
    (of_same hl hm (fun e => hgen (.endpoint e) (.inr rfl)) (fun i => by rw [hi]) hn)

theorem update_generation {f : Obj → Nat} {object other : Obj} {n : Nat}
    (h : object.kind ≠ .invocation ∧ object.kind ≠ .endpoint)
    (ho : other.kind = .invocation ∨ other.kind = .endpoint) :
    update f object n other = f other := by
  refine update_of_ne ?_ _ _
  rintro rfl
  rcases ho with ho | ho
  · exact h.1 ho
  · exact h.2 ho

/-! ### Grants -/

theorem grantAlloc_sound {sponsor : ScopeId} {parent : Option GrantId} {object : ObjRef}
    {rights : Rights} {deadlineNs : Nat} {lifeScope : Option ScopeId} {facet : Nat} {g : GrantId}
    (hs : s.Sound) (hp : s.Derives object rights deadlineNs parent)
    (h : s.grantAlloc sponsor parent object rights deadlineNs lifeScope facet = (t, some g)) :
    t.Sound := by
  have hstands := grantAlloc_stands h
  obtain ⟨-, hfree, rfl⟩ := grantAlloc_some h
  -- A node in use was there before, or is of the object of one that was.
  have hnodes : ∀ k, ((s.granted g (s.newGrant sponsor parent object rights deadlineNs lifeScope
      facet)).grants k).used = true →
      (∀ i, ((s.granted g (s.newGrant sponsor parent object rights deadlineNs lifeScope
        facet)).grants k).object.object ≠ .invocation i) ∨
      ∃ k', (s.grants k').used = true ∧
        ((s.granted g (s.newGrant sponsor parent object rights deadlineNs lifeScope
          facet)).grants k).object = (s.grants k').object := by
    intro k hk
    cases hp with
    | root hroot =>
      by_cases hkg : k = g
      · subst hkg
        refine .inl fun i => ?_
        simpa [granted, setGrantOf, newGrant] using hroot i
      · refine .inr ⟨k, ?_, ?_⟩ <;> simp_all [granted, setGrantOf, newGrant]
    | @child p hused hobject _ _ =>
      have hpg : p ≠ g := by
        rintro rfl
        rw [freeGrantNode_unused hfree] at hused
        cases hused
      by_cases hkg : k = g
      · subst hkg
        refine .inr ⟨p, hused, ?_⟩
        simp [granted, setGrantOf, newGrant, Ne.symm hpg, hobject]
      · by_cases hkp : k = p
        · subst hkp
          refine .inr ⟨k, hused, ?_⟩
          simp [granted, setGrantOf, newGrant, hkg]
        · refine .inr ⟨k, ?_, ?_⟩ <;> simp_all [granted, setGrantOf, newGrant]
  refine ⟨hs.message, hs.invocation, ?_, ?_, hs.replied⟩
  · intro k i hk ho
    rcases hnodes k hk with hnot | ⟨k', hk', hobject⟩
    · exact absurd ho (hnot i)
    · rw [hobject] at ho ⊢
      exact hs.bounded k' i hk' ho
  · intro k i hk ho
    rcases hnodes k hk with hnot | ⟨k', hk', hobject⟩
    · exact absurd (congrArg ObjRef.object ho) (hnot i)
    · rw [hobject] at ho
      exact hs.named k' i hk' ho

/-! ### Endpoints -/

theorem openEndpoint_queued (hs : s.Queued) {e : EndpointId} (ownerScope : ScopeId)
    (capacity id : Nat) : (s.openEndpoint ownerScope capacity e id).Queued := by
  have hother : ∀ e', e' ≠ e →
      (s.openEndpoint ownerScope capacity e id).endpoints e' = s.endpoints e' :=
    fun e' he' => update_of_ne he' _ _
  have hself : (s.openEndpoint ownerScope capacity e id).endpoints e =
      { Endpoint.empty with used := true, opened := true, id, ownerScope, capacity } :=
    update_self _ _ _
  refine ⟨?_, fun m hm => (hs.carried m hm).of_same rfl rfl, fun i hi => ?_, hs.bound⟩
  · intro e' he'
    by_cases hee : e' = e
    · subst hee
      refine ⟨[], ?_, ?_, ?_, ?_, ?_, ?_, ?_, ?_⟩
      · rw [hself]
        rfl
      · rw [hself]
        rfl
      · rw [hself]
        rfl
      · rw [hself]
        rfl
      · intro m hm
        cases hm
      · intro m hm
        cases hm
      · exact List.Pairwise.nil
      · intro m hm
        cases hm
    · rw [hother e' hee] at he'
      obtain ⟨l, hl⟩ := hs.queue e' he'
      refine ⟨l, hl.of_same (by rw [hother e' hee]) ?_ (fun _ _ => rfl) (fun _ _ => rfl)
        (fun _ _ => rfl) fun j hj hje m hm => hl.later m hm j hj hje⟩
      show update s.generation (.endpoint e) (s.nextGeneration (.endpoint e))
        (.endpoint e') = _
      exact update_of_ne (by simpa using hee) _ _
  · obtain ⟨m, hc⟩ := hs.linked i hi
    exact ⟨m, hc.of_same rfl rfl⟩

theorem dropEndpoint_queued (hs : s.Queued) (e : EndpointId) :
    (s.setEndpoint e fun _ => .empty).Queued := by
  have hother : ∀ e', e' ≠ e → (s.setEndpoint e fun _ => .empty).endpoints e' = s.endpoints e' :=
    fun e' he' => update_of_ne he' _ _
  refine ⟨?_, fun m hm => (hs.carried m hm).of_same rfl rfl, fun i hi => ?_, hs.bound⟩
  · intro e' he'
    have hee : e' ≠ e := by
      rintro rfl
      simp [setEndpoint, Endpoint.empty] at he'
    rw [hother e' hee] at he'
    obtain ⟨l, hl⟩ := hs.queue e' he'
    refine ⟨l, hl.of_same (by rw [hother e' hee]) rfl (fun _ _ => rfl) (fun _ _ => rfl)
      (fun _ _ => rfl) fun j hj hje m hm => hl.later m hm j hj hje⟩
  · obtain ⟨m, hc⟩ := hs.linked i hi
    exact ⟨m, hc.of_same rfl rfl⟩

theorem setEndpoint_links (s : Machine) (e : EndpointId) {f : Endpoint → Endpoint}
    (h : (f (s.endpoints e)).links = (s.endpoints e).links) (e' : EndpointId) :
    ((s.setEndpoint e f).endpoints e').links = (s.endpoints e').links :=
  congrFun (update_seen Endpoint.links s.endpoints e _ h) e'

theorem dropFaultChannel_inOrder (h : s.InOrder) (i : DomainId) : (s.dropFaultChannel i).InOrder := by
  have hpruned := s.dropFaultChannel_pruned i
  unfold dropFaultChannel at hpruned ⊢
  split
  · exact h
  · rename_i object hobject
    rw [hobject] at hpruned
    dsimp only at hpruned ⊢
    split
    · rename_i e he
      rw [he] at hpruned
      dsimp only at hpruned
      split
      · rename_i hc
        rw [if_pos hc] at hpruned
        exact h.of_pruned rfl rfl rfl rfl hpruned (fun _ _ => rfl)
          (setEndpoint_links s e (f := fun slot =>
            { slot with reservedCells := slot.reservedCells - 1 }) rfl) le_rfl
      · rename_i hc
        rw [if_neg hc] at hpruned
        exact h.of_calm ⟨rfl, rfl, rfl, rfl, rfl, rfl, rfl⟩ hpruned
    · rename_i hother
      refine h.of_calm ⟨rfl, rfl, rfl, rfl, rfl, rfl, rfl⟩ ?_
      split at hpruned
      · rename_i e he
        exact absurd he (hother e)
      · exact hpruned

/-! ### Work -/

variable {i : InvocationId}

theorem Discharges.quiet (h : Discharges i s t)
    (hi : (s.invocations i).state ≠ .admitted) : Quiet s t where
  links e := by rw [h.endpoints]
  messages := h.messages
  generation e := by rw [h.generation]
  kept j hj := by
    have hji : j ≠ i := by
      rintro rfl
      exact hi hj
    rw [(h.other j hji).1]
  live j hj := by
    have hji : j ≠ i := by
      rintro rfl
      rw [h.done] at hj
      cases hj
    rw [(h.other j hji).1]
  nextObjectId := by rw [h.nextObjectId]

theorem answeredFirst_inOrder (h : s.InOrder)
    (hi : (s.invocations i).state ≠ .admitted) : (s.answeredFirst i).InOrder := by
  have hwork : ∀ j, ((s.answeredFirst i).invocations j).work = (s.invocations j).work := by
    intro j
    by_cases hj : j = i
    · subst hj
      simp [answeredFirst, setInvocation, Invocation.work]
    · simp [answeredFirst, setInvocation, hj]
  have hstate : ∀ j, ((s.answeredFirst i).invocations j).state = (s.invocations j).state :=
    fun j => congrArg Work.state (hwork j)
  have hquiet : Quiet s (s.answeredFirst i) :=
    of_same (fun _ => rfl) rfl (fun _ => rfl) hwork le_rfl
  refine ⟨⟨h.sound.message, ?_, h.sound.bounded, ?_, ?_⟩,
    hquiet.queued h.queued⟩
  · intro j hj
    rw [hstate j]
    exact h.sound.invocation j hj
  · intro g j hu ho
    rw [hstate j]
    exact h.sound.named g j hu ho
  · intro j hj
    rw [hstate j]
    by_cases hji : j = i
    · subst hji
      exact hi
    · refine h.sound.replied j ?_
      simpa [answeredFirst, setInvocation, hji] using hj

theorem restate_inOrder (h : s.InOrder) {p : Scopes → ScopeId → Bool} (hp : Settled p)
    {state : ScopeState} (hstate : state ≠ .empty) :
    (restate p state (List.finRange maxScopes) s).InOrder := by
  obtain ⟨-, ⟨fenced, heq⟩, -⟩ := restate_spec hp hstate (List.nodup_finRange maxScopes) s
  rw [heq]
  exact h.of_calm ⟨rfl, rfl, rfl, rfl, rfl, rfl, rfl⟩ (.refl _)

end Machine

open Machine

/-- **Every change keeps the pools, the tickets and the queues in order.** -/
theorem Change.inOrder {drops : Machine → EndpointId → Prop} {s t : Machine}
    (h : Change drops s t) (hs : s.InOrder) : t.InOrder := by
  cases h with
  | aside h => exact ⟨hs.sound.aside h, (Quiet.aside h).queued hs.queued⟩
  | identity h hn => exact ⟨hs.sound.of_core h, (of_core h hn).queued hs.queued⟩
  | @renew object hk =>
    refine hs.of_pruned rfl rfl rfl rfl (.refl _) (fun other ho => ?_) (fun _ => rfl) le_rfl
    refine update_generation ?_ ho
    rcases hk with hk | hk | hk | hk <;> simp [hk]
  | @capInstall _ domain object g at? handle h _ _ =>
    have hstands := s.capInstall_stands domain object (some g) at?
    have hpruned := s.capInstall_pruned domain object (some g) at?
    rw [h] at hstands hpruned
    exact hs.of_stands hstands hpruned
  | @capRelease domain slot _ =>
    exact hs.of_stands (s.capReleaseSlot_stands domain slot) (s.capReleaseSlot_pruned domain slot)
  | grantAlloc h hp =>
    exact ⟨grantAlloc_sound hs.sound hp h, (Quiet.of_stands (grantAlloc_stands h)).queued hs.queued⟩
  | fenceLineage root =>
    have hpruned := fenceLineage_pruned s.grants root
    generalize Kernel.fenceLineage s.grants root = grants at hpruned ⊢
    exact hs.of_calm ⟨rfl, rfl, rfl, rfl, rfl, rfl, rfl⟩ hpruned
  | @openScope i parent limits _ _ _ =>
    have hgeneration : ∀ other : Obj, other.kind = .invocation ∨ other.kind = .endpoint →
        update s.generation (.scope i) (s.nextGeneration (.scope i)) other =
          s.generation other := fun other => update_generation (by simp [Obj.kind])
    exact hs.of_pruned rfl rfl rfl rfl (.refl _) hgeneration (fun _ => rfl) (Nat.le_succ _)
  | collectRetired _ => exact hs.of_calm ⟨rfl, rfl, rfl, rfl, rfl, rfl, rfl⟩ (.refl _)
  | placeBarrier root =>
    rw [placeBarrier_eq]
    exact restate_inOrder hs (settled_openWithin root) (by decide)
  | advanceQuiescence =>
    rw [advanceQuiescence_eq]
    exact restate_inOrder hs settled_drained (by decide)
  | retireScopes root =>
    rw [retireScopes_eq]
    exact restate_inOrder hs (settled_usedWithin root) (by decide)
  | @openDomain i id ownerScope managed pages _ =>
    have hgeneration : ∀ other : Obj, other.kind = .invocation ∨ other.kind = .endpoint →
        update s.generation (.domain i) (s.nextGeneration (.domain i)) other =
          s.generation other := fun other => update_generation (by simp [Obj.kind])
    exact hs.of_pruned rfl rfl rfl rfl (.refl _) hgeneration (fun _ => rfl) le_rfl
  | clearDomain _ => exact hs.of_calm ⟨rfl, rfl, rfl, rfl, rfl, rfl, rfl⟩ (.refl _)
  | domainState _ => exact hs.of_calm ⟨rfl, rfl, rfl, rfl, rfl, rfl, rfl⟩ (.refl _)
  | @openFaultChannel i endpoint e _ _ _ _ =>
    refine hs.of_pruned rfl rfl rfl rfl (s.openFaultChannel_pruned i endpoint e)
      (fun _ _ => rfl) ?_ le_rfl
    exact setEndpoint_links s e (f := fun slot =>
      { slot with reservedCells := slot.reservedCells + 1 }) rfl
  | dropFaultChannel i => exact dropFaultChannel_inOrder hs i
  | @recordMap record target memory object request before _ _ =>
    exact hs.of_calm ⟨rfl, rfl, rfl, rfl, rfl, rfl, rfl⟩
      (s.recordMap_pruned record target memory object request before)
  | withdrawMap m =>
    exact hs.of_calm (s.withdrawMapDeferring_calm m) (s.withdrawMapDeferring_pruned m)
  | @openEndpoint e ownerScope capacity id _ =>
    have hgeneration : ∀ i, update s.generation (.endpoint e)
        (s.nextGeneration (.endpoint e)) (.invocation i) = s.generation (.invocation i) := by
      simp
    have hsettles : Settles s (s.openEndpoint ownerScope capacity e id) :=
      Settles.of_pruned rfl rfl rfl rfl (.refl _) hgeneration
    exact ⟨hsettles.sound hs.sound, openEndpoint_queued hs.queued ownerScope capacity id⟩
  | @dropEndpoint e _ =>
    have hsettles : Settles s (s.setEndpoint e fun _ => .empty) :=
      Settles.of_pruned rfl rfl rfl rfl (.refl _) fun _ => rfl
    exact ⟨hsettles.sound hs.sound, dropEndpoint_queued hs.queued e⟩
  | @claimReceiver e domain _ _ =>
    refine hs.of_pruned rfl rfl rfl rfl (.refl _) (fun _ _ => rfl) ?_ le_rfl
    exact setEndpoint_links s e rfl
  | @closeEndpoints domain _ =>
    refine hs.of_pruned rfl rfl rfl rfl (.refl _) (fun _ _ => rfl) ?_ le_rfl
    intro e
    show (if _ then _ else _ : Endpoint).links = _
    split <;> rfl
  | @claimMessage m _ =>
    refine ⟨⟨?_, hs.sound.invocation, hs.sound.bounded, hs.sound.named, hs.sound.replied⟩,
      (of_flags s _ _).queued hs.queued⟩
    intro m' hm'
    refine hs.sound.message m' ?_
    by_cases hm : m' = m
    · subst hm
      simp at hm'
    · simpa [hm] using hm'
  | @claimInvocation i _ =>
    refine ⟨⟨hs.sound.message, ?_, hs.sound.bounded, hs.sound.named, hs.sound.replied⟩,
      (of_flags s _ _).queued hs.queued⟩
    intro j hj
    refine hs.sound.invocation j ?_
    by_cases hi : j = i
    · subst hi
      simp at hj
    · simpa [hi] using hj
  | @releaseMessage m h =>
    refine ⟨⟨?_, hs.sound.invocation, hs.sound.bounded, hs.sound.named, hs.sound.replied⟩,
      (of_flags s _ _).queued hs.queued⟩
    intro m' hm'
    by_cases hm : m' = m
    · subst hm
      exact h
    · exact hs.sound.message m' (by simpa [Machine.releaseMessage, hm] using hm')
  | @freeInvocation i h =>
    refine ⟨⟨hs.sound.message, ?_, hs.sound.bounded, hs.sound.named, hs.sound.replied⟩,
      (of_flags s _ _).queued hs.queued⟩
    intro j hj
    by_cases hi : j = i
    · subst hi
      exact h
    · exact hs.sound.invocation j (by simpa [Machine.freeInvocation, hi] using hj)
  | publish h => exact ⟨publish_sound hs.sound h, publish_queued hs.queued h⟩
  | deliver h hu hm =>
    exact ⟨deliver_sound hs.sound hs.queued hu hm h, deliver_queued hs.queued hu hm h⟩
  | markReplied h => exact answeredFirst_inOrder hs h
  | @discharge i h =>
    exact ⟨releaseInvocation_sound hs.sound i,
      ((s.releaseInvocation_discharges i).quiet h).queued hs.queued⟩
  | withdrawUndelivered root =>
    exact ⟨withdrawAll_sound (fun _ h i => dischargeFenced_sound h i) hs.sound,
      (withdrawAll_thinned dischargeFenced_discharges hs.queued).1.queued⟩
  | withdrawOrigin domain =>
    exact ⟨withdrawAll_sound (fun _ h i => releaseInvocation_sound h i) hs.sound,
      (withdrawAll_thinned releaseInvocation_discharges hs.queued).1.queued⟩

end Thalyx.Kernel
