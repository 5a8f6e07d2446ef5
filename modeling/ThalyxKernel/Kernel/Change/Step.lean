/-
Every step of the kernel is a path of changes, and so is every boot from its root scope on.

From here on an invariant of the kernel is what holds after the root scope is established and
is kept by every change.
-/
import ThalyxKernel.Kernel.Change.Order

namespace Thalyx.Kernel

open Fallible (final Leads)

/-! ### Steps -/

/-- The endpoints a step takes away or leaves without a receiver may go. -/
def Machine.Lets (drops : Machine → EndpointId → Prop) (s : Machine) : Step → Prop
  | .enter caller .retire =>
    ∀ root, s.Retires caller root → ∀ e, (s.endpoints e).used = true →
      s.scopes.isWithin root (s.endpoints e).ownerScope = true →
      ∀ t : Machine, t.endpoints e = s.endpoints e → drops t e
  | .enter caller .terminate =>
    ∀ target, s.Stops caller target → ∀ v, Calm s v → Path.Leaves drops v target
  | .exit _ domain => ∀ v, Calm s v → Path.Leaves drops v domain
  | .fault thread domain report now =>
    ∀ v, Calm (s.deliverFault domain thread report now) v → Path.Leaves drops v domain
  | _ => True

/-- The machine of the root scope alone. -/
def Hardware.rooted (hw : Hardware) : Machine :=
  (hw.blank.counted.renew (.scope Boot.root) 1).setScope Boot.root fun _ =>
    { Scope.empty with
      state := .opened
      id := 1
      limits := ⟨hw.allocator.freeFrames, rootMetadata, hw.budgetNs, rootQueueBytes,
        rootClosureReserveNs, maxThreads⟩ }

namespace Path

variable {drops : Machine → EndpointId → Prop} {s t : Machine} {caller : Caller}

theorem fence (s : Machine) : Leads (Path drops) (Kernel.fence caller) s :=
  atScope fun _ root _ _ => of_modify (fenceScope s root)

theorem drainStatus (s : Machine) : Leads (Path drops) (Kernel.drainStatus caller) s :=
  atScope fun _ _ _ _ => of_modify (of_change .advanceQuiescence)

theorem elsewhere (h : Elsewhere s t) : Path drops s t := by
  refine of_change (.identity (n := t.nextObjectId) ?_ h.nextObjectId)
  have hscopes : (fun i => (t.scopes i).place) = fun i => (s.scopes i).place := by
    funext i
    obtain ⟨used, closure, parallelism, heq⟩ := h.scopes i
    rw [heq]
    rfl
  have hdomains : (fun i => (t.domains i).place) = fun i => (s.domains i).place := by
    funext i
    obtain ⟨space, heq⟩ := h.domains i
    rw [heq]
    rfl
  unfold Machine.core
  rw [hscopes, hdomains, h.fenced, h.caps, h.grants, h.generation, h.maps, h.endpoints,
    h.messages, h.messageFree, h.invocations, h.invocationFree]

theorem operation (hs : s.InOrder) (hc : s.Enters caller.thread caller.domain)
    (operation : Operation) (hl : s.Lets drops (.enter caller operation)) :
    Path drops s (operation.run caller s) := by
  cases operation with
  | create c => exact creation s caller c
  | copy => exact copyCap s
  | close => exact closeCap s
  | fenceCap => exact fenceCap s
  | setLimits request => exact setLimits s request
  | fence => exact fence s
  | drainStatus => exact drainStatus s
  | retire => exact retire hl
  | map request => exact map s request
  | unmap request => exact unmap s request
  | sealMemory => exact sealMemory s
  | addThread request => exact addThread s request
  | setFaultChannel request => exact setFaultChannel s request
  | activate => exact activate s
  | terminate => exact terminate hl
  | send request => exact send hs.sound request
  | call request => exact call hs.sound request
  | receive => exact receive hc.alive
  | reply request raced => exact reply hs.sound request raced
  | beginEffect request => exact beginEffect s request
  | resolve request => exact resolveInvocation hs.sound request
  | bindWorker => exact bindWorker s
  | unbindWorker => exact unbindWorker s

/-- **Every step is a path.** -/
theorem of_step (hs : s.InOrder) {a : Step} (h : s.Steps a t) (hl : s.Lets drops a) :
    Path drops s t := by
  cases a with
  | enter caller op =>
    obtain ⟨henters, rfl⟩ := h
    exact operation hs henters op hl
  | returnFromCall thread =>
    obtain ⟨-, -, rfl⟩ := h
    exact returnFromCall hs.sound thread
  | finishUnmap thread acknowledged =>
    obtain ⟨-, rfl⟩ := h
    exact finishUnmap s thread acknowledged
  | finishSeal thread acknowledged =>
    obtain ⟨-, rfl⟩ := h
    exact finishSeal s thread acknowledged
  | exit thread domain =>
    obtain ⟨-, rfl⟩ := h
    exact terminateIn false fun _ => hl
  | fault thread domain report now =>
    obtain ⟨-, rfl⟩ := h
    exact terminateOnFault hs.sound domain thread report now hl
  | reap domain =>
    obtain ⟨hr, rfl⟩ := h
    exact reap hr
  | drainMemory =>
    have hcore := s.drainPendingMemory_core
    rw [← show t = s.drainPendingMemory from h] at hcore
    exact aside hcore
  | advance =>
    rw [show t = s.advanceQuiescence from h]
    exact of_change .advanceQuiescence
  | elsewhere => exact elsewhere h

/-! ### The boot -/

section Boot

open Boot Machine

variable {domain : DomainId} {system : ScopeId}

theorem find_ok {ε α : Type} {g : Machine → Option α} {e : ε} {a : α}
    (h : Op.orElse (fun s => (s, g s)) e s = .ok a t) : t = s ∧ g s = some a := by
  unfold Op.orElse at h
  cases hg : g s <;> simp [hg] at h
  exact ⟨h.2.symm, by rw [h.1]⟩

theorem install (s : Machine) {slot : CapSlot} {object : ObjRef} {rights : Rights}
    {sponsor : ScopeId} (ho : ∀ i, object.object ≠ .invocation i) :
    Leads (Path drops) (Boot.install domain slot object rights sponsor) s := by
  have hroot : s.Derives object rights 0 none := .root ho
  refine orElse (grantAlloc hroot) fun g t ht => of_orElse (capInstall ?_ ?_) <;>
    rw [grantAlloc_node ht hroot] <;> rfl

theorem attempt {b : Boot.Boot Unit} (h : Leads (Path drops) b s) :
    Leads (Path drops) (Boot.attempt b) s := by
  unfold Leads Boot.attempt at *
  cases hb : b s <;> rw [hb] at h <;> exact h

theorem imageObject (s : Machine) (sponsor : ScopeId) (module : BootModule) :
    Leads (Path drops) (Boot.imageObject sponsor module) s := by
  refine require fun _ => find fun i _ => reserve rfl fun scopes _ => ?_
  refine reserve (release_core _ _ _ _) fun scopes' _ => ?_
  have hframes : ∀ t : Machine, Leads (Path drops) (allocModule sponsor module.pages) t := by
    intro t
    unfold Leads allocModule
    split <;> exact aside rfl
  refine bind (hframes _) fun base t _ => nextId rfl ?_
  have hopened : Path drops t.counted
      (openModule sponsor base module.pages i t.nextObjectId t.counted) :=
    (openMemory t.counted sponsor base ⟨module.pages, moduleRights, 0⟩ i t.nextObjectId).then_aside
      rfl
  exact modify hopened (of_pure i)

theorem installModule (s : Machine) (slot : CapSlot) (module : BootModule) :
    Leads (Path drops) (Boot.installModule domain system slot module) s := by
  refine bind (imageObject s system module) fun i t _ => get ?_
  exact bind (install t fun _ => by simp) fun _ u _ => of_pure _

theorem installModules (modules : List BootModule) (slot : Nat) (s : Machine) :
    Leads (Path drops) (Boot.installModules domain system modules slot) s := by
  induction modules generalizing slot s with
  | nil => exact of_pure _
  | cons module rest ih =>
    unfold Boot.installModules
    split
    · exact bind (attempt (installModule s _ module)) fun installed t _ => ih _ t
    · exact of_pure _

theorem installDevices (devices : List DeviceId) (count : Nat) (s : Machine) :
    Leads (Path drops) (Boot.installDevices system devices count) s := by
  induction devices generalizing count s with
  | nil => exact of_pure _
  | cons i rest ih =>
    unfold Boot.installDevices
    refine get ?_
    split
    · split
      · refine bind (attempt ?_) fun installed t _ => ih _ t
        exact bind (install s fun _ => by simp) fun _ u _ => of_pure _
      · exact of_pure _
    · exact ih _ s

theorem establishControlLog (s : Machine) : Leads (Path drops) Boot.establishControlLog s := by
  refine find fun i _ => reserve rfl fun scopes _ => nextId rfl ?_
  have hrenew : Change drops { s with scopes }.counted _ :=
    .renew (Or.inr (Or.inr (Or.inr (rfl : (Obj.controlLog i).kind = _))))
  exact of_modify ((of_change hrenew).then_aside rfl)

theorem establishControlLog_place (s : Machine) (i : ScopeId) :
    ((final (Boot.establishControlLog s)).scopes i).place = (s.scopes i).place := by
  have hwithin : Fallible.Within
      (fun s t : Machine => ∀ i, (t.scopes i).place = (s.scopes i).place)
      Boot.establishControlLog := by
    have htrans : ∀ s t u : Machine, (∀ i, (t.scopes i).place = (s.scopes i).place) →
        (∀ i, (u.scopes i).place = (t.scopes i).place) →
        ∀ i, (u.scopes i).place = (s.scopes i).place := fun s t u h h' i => (h' i).trans (h i)
    refine .bind htrans ?_ fun i => .bind htrans ?_ fun _ => .bind htrans ?_ fun _ => ?_
    · intro s j
      cases h : logSlot s <;> simp [Op.orElse, h]
    · intro s
      unfold Op.reserve
      split
      · rename_i scopes hr
        intro j
        show (scopes j).place = _
        rw [Scopes.reserve_eq hr]
        rfl
      · exact fun _ => rfl
    · intro s j
      by_cases hid : s.nextObjectId = u64Max <;> simp [Op.nextId, Machine.nextId, hid]
    · intro s j
      rfl
  exact hwithin s i

variable {limits : Machine → Limits}

theorem childScope {parent : ScopeId}
    (hp : (s.scopes parent).state = .opened) (hd : (s.scopes parent).depth + 1 < maxScopeDepth) :
    Leads (Path drops) (Boot.childScope parent limits) s := by
  refine find fun i hi => reserve rfl fun scopes hr => nextIdWith rfl ?_
  have hplace : ∀ j, (scopes j).place = (s.scopes j).place := fun j => by
    rw [Scopes.reserve_eq hr]
    rfl
  have hempty : (s.scopes i).state = .empty := by
    have hfound := List.find?_some hi
    simpa using hfound
  have hdepth : (scopes parent).depth = (s.scopes parent).depth :=
    congrArg ScopePlace.depth (hplace parent)
  exact of_change (.openScope _ ((congrArg ScopePlace.state (hplace i)).trans hempty)
    ((congrArg ScopePlace.state (hplace parent)).trans hp) (by rw [hdepth]; exact hd))

theorem childScope_opened {parent i : ScopeId}
    (hp : (s.scopes parent).state = .opened) (h : Boot.childScope parent limits s = .ok i t) :
    (t.scopes i).state = .opened ∧ (t.scopes i).depth = (s.scopes parent).depth + 1 := by
  obtain ⟨j, s₁, hfind, h⟩ := Fallible.bind_ok_iff.1 h
  obtain ⟨_, s₂, hres, h⟩ := Fallible.bind_ok_iff.1 h
  obtain ⟨id, s₃, hid, h⟩ := Fallible.bind_ok_iff.1 h
  obtain ⟨rfl, rfl⟩ := EStateM.Result.ok.inj h
  obtain ⟨rfl, hj⟩ := find_ok hfind
  obtain ⟨scopes, hr, rfl⟩ := Op.reserve_ok hres
  obtain ⟨-, rfl⟩ := Op.nextId_ok hid
  have hempty : (s₁.scopes j).state = .empty := by simpa using List.find?_some hj
  have hne : j ≠ parent := fun heq => by simp [heq, hp] at hempty
  have hdepth : (scopes parent).depth = (s₁.scopes parent).depth := by
    rw [Scopes.reserve_eq hr]
    rfl
  constructor
  · show (Function.update (Function.update scopes j _) parent _ j).state = _
    rw [Function.update_of_ne hne, Function.update_self]
  · show (Function.update (Function.update scopes j _) parent _ j).depth = _
    rw [Function.update_of_ne hne, Function.update_self, ← hdepth]
    rfl

theorem createSupervisor (s : Machine) (image : Option Image) (own : ScopeId) :
    Leads (Path drops) (Boot.createSupervisor image own) s := by
  have h : Leads (Path drops) (Machine.createIn image own false) s := createIn s image own false
  unfold Leads Boot.createSupervisor at *
  cases hc : Machine.createIn image own false s <;> rw [hc] at h <;> exact h

variable {image : Option Image} {modules : List BootModule}

theorem establishSupervisor {budgetNs : Nat}
    (hp : (s.scopes root).state = .opened) (hd : (s.scopes root).depth = 0) :
    Leads (Path drops) (Boot.establishSupervisor budgetNs image modules) s := by
  refine bind (childScope hp (by rw [hd]; decide)) fun system t ht => ?_
  obtain ⟨hopened, hdepth⟩ := childScope_opened hp ht
  rw [hd] at hdepth
  refine bind (childScope hopened (by rw [hdepth]; decide)) fun own u _ => ?_
  refine bind (createSupervisor u image own) fun index u₁ _ => get ?_
  refine bind (install u₁ fun _ => by simp) fun _ u₂ _ => get ?_
  refine bind (install u₂ fun _ => by simp) fun _ u₃ _ => find fun log _ => get ?_
  refine bind (install u₃ fun _ => by simp) fun _ u₄ _ => ?_
  refine bind (installDevices _ _ u₄) fun _ u₅ _ => ?_
  exact bind (installModules modules _ u₅) fun _ u₆ _ => of_pure _

theorem establishRoot_blank (hw : Hardware) :
    Boot.establishRoot hw.budgetNs hw.blank = .ok () hw.rooted := by
  have hid : Op.nextId (ε := Unit) id () hw.blank = .ok 1 hw.blank.counted := by
    have hne : hw.blank.nextObjectId ≠ u64Max := by
      show 1 ≠ u64Max
      decide
    simp [Op.nextId, Machine.nextId, hne, Machine.counted]
    rfl
  unfold Boot.establishRoot
  rw [Fallible.bind_of_ok hid]
  rfl

/-- **Every boot is a path from its root scope on.** -/
theorem of_boot {hw : Hardware}
    (h : Boot.boot hw image modules hw.blank = .ok () s) : Path drops hw.rooted s := by
  have hopened : (hw.rooted.scopes root).place = ⟨.opened, 1, none, 0, 0⟩ := by
    simp [Hardware.rooted, setScope, Scopes.set, Scope.place, Scope.empty]
  unfold Boot.boot at h
  rw [Fallible.bind_of_ok (establishRoot_blank hw)] at h
  refine Leads.of_ok (bind (attempt (establishControlLog _)) fun made t ht => ?_) h
  have hroot : (t.scopes root).place = ⟨.opened, 1, none, 0, 0⟩ := by
    have hfinal : t = final (Boot.establishControlLog hw.rooted) := by
      unfold Boot.attempt at ht
      cases hl : Boot.establishControlLog hw.rooted <;> rw [hl] at ht <;>
        exact (EStateM.Result.ok.inj ht).2.symm
    rw [hfinal, establishControlLog_place, hopened]
  refine bind (establishSupervisor (congrArg ScopePlace.state hroot)
    (congrArg ScopePlace.depth hroot)) fun index u _ => ?_
  exact require fun hactivatable => of_modify (activateIn hactivatable)

end Boot

end Path

/-! ### Invariants of the kernel -/

theorem Machine.rooted_inOrder (hw : Hardware) : hw.rooted.InOrder := by
  have hgrants : ∀ g, (hw.rooted.grants g).used = false := fun _ => rfl
  have hinvocations : ∀ i, (hw.rooted.invocations i).state = .empty := fun _ => rfl
  refine ⟨⟨fun _ _ => rfl, fun _ _ => rfl, ?_, ?_, ?_⟩, ?_, ?_, ?_, ?_⟩
  · intro g i hg
    rw [hgrants] at hg
    cases hg
  · intro g i hg
    rw [hgrants] at hg
    cases hg
  · intro i _
    rw [hinvocations]
    decide
  · intro e he
    cases he
  · intro m hm
    cases hm
  · intro i hi
    rw [hinvocations] at hi
    cases hi
  · intro i hi
    cases hi

section Invariants

variable {drops : Machine → EndpointId → Prop} {ok : Machine → Step → Prop}

/-- **What holds of the root scope alone and is kept by every change holds in every run whose
steps let endpoints go only where they may.** -/
theorem reachable_within {I : Machine → Prop} (hroot : ∀ hw : Hardware, I hw.rooted)
    (hchange : ∀ s t, s.InOrder → I s → Change drops s t → I t)
    (hok : ∀ s a, s.InOrder → I s → ok s a → s.Lets drops a) {s : Machine}
    (h : (kernel.within ok).Reachable s) : s.InOrder ∧ I s := by
  have hpath : ∀ {s t : Machine}, s.InOrder ∧ I s → Path drops s t → t.InOrder ∧ I t := by
    intro s t hs hp
    induction hp with
    | refl => exact hs
    | tail _ hc ih => exact ⟨hc.inOrder ih.1, hchange _ _ ih.1 ih.2 hc⟩
  refine h.invariant (I := fun s => s.InOrder ∧ I s) ?_ ?_
  · rintro s ⟨hw, image, modules, -, hboot⟩
    exact hpath ⟨Machine.rooted_inOrder hw, hroot hw⟩ (Path.of_boot hboot)
  · rintro s a t hs ⟨hoka, hst⟩
    exact hpath hs (Path.of_step hs.1 hst (hok s a hs.1 hs.2 hoka))

end Invariants

theorem Machine.lets_any (s : Machine) (a : Step) : s.Lets (fun _ _ => True) a := by
  cases a with
  | enter caller operation =>
    cases operation with
    | retire => exact fun _ _ _ _ _ _ _ => trivial
    | terminate => exact fun _ _ _ _ _ _ _ _ => trivial
    | _ => trivial
  | exit | fault => exact fun _ _ _ _ _ _ => trivial
  | _ => trivial

/-- **What holds of the root scope alone and is kept by every change holds of every reachable
machine.** -/
theorem reachable_invariant {I : Machine → Prop} (hroot : ∀ hw : Hardware, I hw.rooted)
    (hchange : ∀ s t, s.InOrder → I s → Change (fun _ _ => True) s t → I t) {s : Machine}
    (h : kernel.Reachable s) : s.InOrder ∧ I s := by
  have hany : (kernel.within fun _ _ => True).Reachable s := by
    induction h with
    | init hs => exact .init hs
    | step _ hst ih => exact ih.step ⟨trivial, hst⟩
  exact reachable_within hroot hchange (fun s a _ _ _ => s.lets_any a) hany

end Thalyx.Kernel
