/-
Barriers, mappings and the life of a domain, as paths.

Retirement is the one operation that takes endpoints away.  Each is taken as it was when the
operation began, so what is demanded of it can be asked of the machine before.
-/
import ThalyxKernel.Kernel.Change.Creation
import ThalyxKernel.Kernel.Change.Queue
import ThalyxKernel.Kernel.Change.States

namespace Thalyx.Kernel

open Fallible (final Leads Within)

/-- `root` is retired by this call: the handle names it and it is quiescent by now. -/
def Machine.Retires (s : Machine) (caller : Caller) (root : ScopeId) : Prop :=
  ∃ cap, s.resolve caller.domain caller.handle (some .scope) Right.scopeFence caller.now = .ok cap ∧
    cap.object.object = .scope root ∧
    (s.advanceQuiescence.scopes root).state ≠ .opened ∧
    (s.advanceQuiescence.scopes root).state ≠ .fenced ∧
    (s.advanceQuiescence.scopes root).state ≠ .retired

/-- `target` is stopped by this call: the handle names it and it is still there. -/
def Machine.Stops (s : Machine) (caller : Caller) (target : DomainId) : Prop :=
  ∃ cap, s.resolve caller.domain caller.handle (some .domain) Right.domainStop caller.now = .ok cap ∧
    cap.object.object = .domain target ∧
    ((s.domains target).state = .building ∨ (s.domains target).state = .runnable)

namespace Machine

/-! ### Bookkeeping -/

section Bookkeeping

variable (s : Machine)

theorem claimHandoff_core (i : ThreadId) (wait : Wait) (status : Status) (aux : Nat) :
    (s.claimHandoff i wait status aux).1.core = s.core := by
  unfold claimHandoff
  split <;> rfl

theorem wakeWaiter_core (i : InvocationId) (code : Status) :
    (s.wakeWaiter i code).core = s.core := by
  unfold wakeWaiter
  split
  · rfl
  · rename_i waiter _
    have h := s.claimHandoff_core waiter (.reply i (s.generation (.invocation i))) code 0
    split
    · rename_i t offer ht
      rw [ht] at h
      exact h
    · rename_i t ht
      rw [ht] at h
      exact h

theorem cancelWaits_core (root : ScopeId) : (s.cancelWaits root).core = s.core := rfl

theorem markCancelled_core (root : ScopeId) : (s.markCancelled root).core = s.core := by
  have h : ∀ i, ((s.markCancelled root).invocations i).record = (s.invocations i).record := by
    intro i
    unfold markCancelled
    dsimp only
    split <;> rfl
  show ({ s.core with invocations := fun i => ((s.markCancelled root).invocations i).record } :
    Core) = s.core
  rw [funext h]
  rfl

theorem freeMemory_core (i : MemoryId) (give : FrameAllocator → Frame → Owner → FrameAllocator) :
    (s.freeMemory i give).core = s.core :=
  (release_core _ _ _ _).trans (release_core _ _ _ _)

theorem collectMemory_core (i : MemoryId) (acknowledged : Bool) :
    (s.collectMemory i acknowledged).core = s.core := by
  unfold collectMemory
  dsimp only
  split
  · rfl
  · split
    · rfl
    · split
      · exact freeMemory_core _ _ _
      · exact freeMemory_core _ _ _

theorem drainPendingMemory_core : s.drainPendingMemory.core = s.core := by
  refine (foldl_core ?_ _ _).trans rfl
  intro t i
  split
  · exact t.collectMemory_core i false
  · rfl

theorem stopThread_core (i : ThreadId) : (s.stopThread i).core = s.core := by
  unfold stopThread
  split
  · exact dropParallelism_core _ _
  · rfl

theorem stopThreads_core (target : DomainId) : (s.stopThreads target).core = s.core := by
  refine foldl_core ?_ _ s
  intro t slot
  split
  · exact t.stopThread_core _
  · rfl

theorem mapPages_spec (target : DomainId) (base vaddr : Nat) (rights : PageRights)
    (n page : Nat) (s : Machine) :
    (s.mapPages target base vaddr rights n page).1.core = s.core ∧
      (s.mapPages target base vaddr rights n page).1.grants = s.grants := by
  induction n generalizing s page with
  | zero => exact ⟨rfl, rfl⟩
  | succ n ih =>
    have hset : ∀ (allocator : FrameAllocator) (f : Domain → Domain)
        (_ : (f (s.domains target)).place = (s.domains target).place),
        ({ s with allocator }.setDomain target f).core = s.core :=
      fun allocator f hf => setDomain_core { s with allocator } target hf
    unfold mapPages
    split
    · exact ⟨rfl, rfl⟩
    · split
      · rename_i allocator space' _
        obtain ⟨hcore, hgrants⟩ := ih (page + 1)
          ({ s with allocator }.setDomain target fun d => { d with space := some space' })
        exact ⟨hcore.trans (hset _ _ rfl), hgrants⟩
      · exact ⟨(setDomain_core _ target rfl).trans (hset _ _ rfl), rfl⟩

end Bookkeeping

end Machine

namespace Path

open Machine

variable {drops : Machine → EndpointId → Prop} {s t : Machine} {caller : Caller}

/-! ### Capabilities -/

theorem copyCap (s : Machine) : Leads (Path drops) (Kernel.copyCap caller) s := by
  refine enter fun cap hcap => of_orElse ?_
  obtain ⟨entry, -, -, -, hused, hobject, -⟩ := resolveEntry_ok hcap
  exact capInstall hused hobject

theorem closeCap (s : Machine) : Leads (Path drops) (Kernel.closeCap caller) s := by
  refine ask fun cap _ => of_orElse ?_
  have h : Path drops _ _ := capRelease s caller.domain caller.handle
  rcases hr : s.capRelease caller.domain caller.handle with ⟨t, released⟩
  rw [hr] at h
  exact h

theorem fenceCap (s : Machine) : Leads (Path drops) (Kernel.fenceCap caller) s := by
  refine enter fun cap _ => ?_
  exact (of_change (.fenceLineage cap.grant)).then_aside (receipt_core _ _ _)

/-! ### Scopes -/

theorem setLimits (s : Machine) (request : ScopeCreateRequest) :
    Leads (Path drops) (Kernel.setLimits caller request) s := by
  refine atScope fun cap i _ _ => ?_
  refine require fun _ => require fun _ => require fun _ => require fun _ => ?_
  exact aside (setScope_core s i rfl)

theorem fenceScope (s : Machine) (root : ScopeId) : Path drops s (s.fenceScope root) := by
  refine (of_change (.placeBarrier root)).trans ?_
  refine (aside (cancelWaits_core _ root)).trans ?_
  refine (of_change (.withdrawUndelivered root)).trans ?_
  refine (aside (markCancelled_core _ root)).trans ?_
  exact (aside (receipt_core _ _ _)).trans (of_change .advanceQuiescence)

theorem retireMemory (root : ScopeId) (s : Machine) (i : MemoryId) :
    Path drops s (Machine.retireMemory root s i) := by
  unfold Machine.retireMemory
  dsimp only
  split
  · exact refl s
  · exact (withdrawEverywhere s _).then_aside (freeMemory_core _ _ _)

theorem retireSignal (root : ScopeId) (s : Machine) (i : SignalId) :
    Path drops s (Machine.retireSignal root s i) := by
  unfold Machine.retireSignal
  dsimp only
  split
  · exact refl s
  · have h : Path drops _ _ := withdrawEverywhere s ⟨.signal i, s.generation (.signal i)⟩
    generalize s.withdrawEverywhere _ = u at h ⊢
    exact h.then_aside (release_core u _ _ _)

theorem retireTimer (root : ScopeId) (s : Machine) (i : TimerId) :
    Path drops s (Machine.retireTimer root s i) := by
  unfold Machine.retireTimer
  dsimp only
  split
  · exact refl s
  · have h : Path drops _ _ := withdrawEverywhere s ⟨.timer i, s.generation (.timer i)⟩
    generalize s.withdrawEverywhere _ = u at h ⊢
    exact h.then_aside (release_core u _ _ _)

end Path

/-! ### Endpoints that go away -/

namespace Machine

variable {s t : Machine}

/-- The endpoints of `l` and the tree of scopes are where they were. -/
structure Spared (l : List EndpointId) (s t : Machine) : Prop where
  endpoints : ∀ e ∈ l, t.endpoints e = s.endpoints e
  scopes : ∀ i, (t.scopes i).place = (s.scopes i).place

theorem Spared.trans {l : List EndpointId} {u : Machine} (h : Spared l s t) (h' : Spared l t u) :
    Spared l s u :=
  ⟨fun e he => (h'.endpoints e he).trans (h.endpoints e he),
    fun i => (h'.scopes i).trans (h.scopes i)⟩

theorem spared_of_stands (h : Stands s t) (l : List EndpointId) : Spared l s t :=
  ⟨fun e _ => congrFun h.endpoints e, h.scopes⟩

theorem withdrawEverywhere_stands (s : Machine) (object : ObjRef) :
    Stands s (s.withdrawEverywhere object) := by
  refine Stands.foldl ?_ _ s
  intro t domain
  unfold withdrawIn
  split
  · exact Stands.refl t
  · refine Stands.foldl ?_ _ t
    intro u slot
    split
    · exact u.capReleaseSlot_stands domain slot
    · exact Stands.refl u

theorem retireMemory_spared (root : ScopeId) (s : Machine) (i : MemoryId) (l : List EndpointId) :
    Spared l s (retireMemory root s i) := by
  unfold retireMemory
  dsimp only
  split
  · exact ⟨fun _ _ => rfl, fun _ => rfl⟩
  · have hw := spared_of_stands
      (s.withdrawEverywhere_stands ⟨.memory i, s.generation (.memory i)⟩) l
    generalize s.withdrawEverywhere _ = u at hw ⊢
    exact hw.trans ⟨fun _ _ => rfl, place_of_core (freeMemory_core u _ _)⟩

theorem isWithin_place (h : ∀ i, (t.scopes i).place = (s.scopes i).place)
    (root candidate : ScopeId) :
    t.scopes.isWithin root candidate = s.scopes.isWithin root candidate := by
  unfold Scopes.isWithin
  rw [Scopes.chain_congr fun i => congrArg ScopePlace.parent (h i)]

end Machine

namespace Path

open Machine

variable {drops : Machine → EndpointId → Prop} {s t : Machine} {caller : Caller}
variable {root : ScopeId}

theorem retireEndpoint {e : EndpointId}
    (hd : (s.endpoints e).used = true → s.scopes.isWithin root (s.endpoints e).ownerScope = true →
      ∀ t, t.endpoints e = s.endpoints e → drops t e) :
    Path drops s (Machine.retireEndpoint root s e) := by
  unfold Machine.retireEndpoint
  dsimp only
  split
  · exact refl s
  · rename_i h
    obtain ⟨hused, hwithin⟩ : (s.endpoints e).used = true ∧
        s.scopes.isWithin root (s.endpoints e).ownerScope = true := by simpa [not_or] using h
    have hstands := s.withdrawEverywhere_stands ⟨.endpoint e, s.generation (.endpoint e)⟩
    have hwithdrawn : Path drops _ _ := withdrawEverywhere s
      ⟨.endpoint e, s.generation (.endpoint e)⟩
    generalize s.withdrawEverywhere _ = u at hstands hwithdrawn ⊢
    refine (hwithdrawn.then_aside (release_core u (s.endpoints e).ownerScope .metadata 1)).trans ?_
    exact of_change (.dropEndpoint (hd hused hwithin _ (congrFun hstands.endpoints e)))

theorem retireEndpoint_spared (root : ScopeId) (s : Machine) (e : EndpointId)
    (l : List EndpointId) (he : e ∉ l) : Spared l s (Machine.retireEndpoint root s e) := by
  unfold Machine.retireEndpoint
  dsimp only
  split
  · exact ⟨fun _ _ => rfl, fun _ => rfl⟩
  · have hw := spared_of_stands
      (s.withdrawEverywhere_stands ⟨.endpoint e, s.generation (.endpoint e)⟩) l
    generalize s.withdrawEverywhere _ = u at hw ⊢
    refine hw.trans ⟨?_, ?_⟩
    · intro e' he'
      have hne : e' ≠ e := by
        rintro rfl
        exact he he'
      exact Function.update_of_ne hne _ _
    · exact release_place _ _ _ _

theorem retireEndpoints {l : List EndpointId} (hl : l.Nodup) (s : Machine)
    (hd : ∀ e ∈ l, (s.endpoints e).used = true →
      s.scopes.isWithin root (s.endpoints e).ownerScope = true →
      ∀ t, t.endpoints e = s.endpoints e → drops t e) :
    Path drops s (l.foldl (Machine.retireEndpoint root) s) := by
  induction l generalizing s with
  | nil => exact refl s
  | cons e rest ih =>
    obtain ⟨he, hrest⟩ := List.nodup_cons.mp hl
    refine (retireEndpoint (hd e List.mem_cons_self)).trans (ih hrest _ ?_)
    have hspared := retireEndpoint_spared root s e rest he
    intro e' he' hu hw t ht
    rw [hspared.endpoints e' he'] at hu hw ht
    rw [isWithin_place hspared.scopes] at hw
    exact hd e' (List.mem_cons_of_mem _ he') hu hw t ht

theorem releaseSponsored (hd : ∀ e, (s.endpoints e).used = true →
      s.scopes.isWithin root (s.endpoints e).ownerScope = true →
      ∀ t, t.endpoints e = s.endpoints e → drops t e) : Path drops s (s.releaseSponsored root) := by
  have hmemory : Spared (List.finRange maxEndpoints) s
      ((List.finRange maxMemoryObjects).foldl (Machine.retireMemory root) s) := by
    generalize List.finRange maxMemoryObjects = l
    clear hd
    induction l generalizing s with
    | nil => exact ⟨fun _ _ => rfl, fun _ => rfl⟩
    | cons i rest ih => exact (retireMemory_spared root s i _).trans ih
  unfold Machine.releaseSponsored
  have hpath : Path drops _ _ := foldl (retireMemory root) (List.finRange maxMemoryObjects) s
  generalize (List.finRange maxMemoryObjects).foldl (Machine.retireMemory root) s = u at *
  refine hpath.trans ?_
  refine (retireEndpoints (List.nodup_finRange _) _ ?_).trans
    ((foldl (retireSignal root) _ _).trans (foldl (retireTimer root) _ _))
  intro e he hu hw t ht
  rw [hmemory.endpoints e he] at hu hw ht
  rw [isWithin_place hmemory.scopes] at hw
  exact hd e hu hw t ht

theorem retire (hd : ∀ root, s.Retires caller root → ∀ e, (s.endpoints e).used = true →
      s.scopes.isWithin root (s.endpoints e).ownerScope = true →
      ∀ t, t.endpoints e = s.endpoints e → drops t e) :
    Leads (Path drops) (Kernel.retire caller) s := by
  refine atScope fun cap root hcap hroot => ?_
  refine modify (of_change .advanceQuiescence) ?_
  obtain ⟨hrestated, ⟨fenced, heq⟩, -⟩ :=
    restate_spec settled_drained (show ScopeState.quiescent ≠ .empty by decide)
      (List.nodup_finRange maxScopes) s
  rw [← advanceQuiescence_eq] at hrestated heq
  have hendpoints : s.advanceQuiescence.endpoints = s.endpoints := by rw [heq]
  have hretires := hd root
  unfold Retires at hretires
  unfold Leads retireReported
  generalize s.advanceQuiescence = u at *
  have hsponsored : (u.scopes root).state ≠ .opened → (u.scopes root).state ≠ .fenced →
      (u.scopes root).state ≠ .retired →
      Path drops u (((u.releaseSponsored root).retireScopes root).receipt false false) := by
    intro ho hf hr
    have hsponsored : Path drops u (u.releaseSponsored root) := by
      refine releaseSponsored ?_
      intro e hu hw t ht
      rw [hendpoints] at hu hw ht
      rw [hrestated.isWithin] at hw
      exact hretires ⟨cap, hcap, hroot, ho, hf, hr⟩ e hu hw t ht
    generalize u.releaseSponsored root = t at hsponsored ⊢
    exact (hsponsored.trans (of_change (.retireScopes root))).then_aside (receipt_core _ _ _)
  cases hstate : (u.scopes root).state <;> simp only [final]
  · exact hsponsored (by simp [hstate]) (by simp [hstate]) (by simp [hstate])
  · exact refl u
  · exact refl u
  · exact hsponsored (by simp [hstate]) (by simp [hstate]) (by simp [hstate])
  · exact refl u

/-! ### Mappings and memory -/

theorem withdrawMap (s : Machine) (m : MapId) : Path drops s (s.withdrawMap m) := by
  have h : Path drops s (s.withdrawMapDeferring m).1 := of_change (.withdrawMap m)
  unfold Machine.withdrawMap
  split
  · rename_i t i ht
    rw [ht] at h
    exact h.then_aside (collectMemory_core _ _ _)
  · rename_i t ht
    rw [ht] at h
    exact h

theorem map (s : Machine) (request : MapRequest) :
    Leads (Path drops) (Kernel.map caller request) s := by
  refine atDomain fun cap target _ _ => require fun _ => require fun _ => ask fun memory hm => ?_
  obtain ⟨entry, -, -, -, hused, -⟩ := resolveEntry_ok hm
  unfold Resolved.memory
  split
  · rename_i object _
    show Leads (Path drops) _ s
    refine require fun _ => require fun _ => ask fun rights _ => require fun _ => ?_
    refine require fun _ => require fun _ => find fun record hrecord => get ?_
    refine reserve rfl fun scopes _ => reserve (release_core _ _ _ _) fun scopes' _ => ?_
    have hfree : (s.maps record).used = false := by simpa using List.find?_some hrecord
    unfold Leads installMap
    generalize hu : ({ s with scopes := scopes' } : Machine) = u
    have hmaps : u.maps = s.maps := by rw [← hu]
    have hgrants : u.grants = s.grants := by rw [← hu]
    dsimp only
    obtain ⟨hcore, hkept⟩ := mapPages_spec target
      ((u.memories object).base + request.offsetPages) request.vaddr rights request.pageCount 0 u
    split
    · rename_i t ht
      rw [ht] at hcore hkept
      refine (aside hcore).trans (of_change (.recordMap ?_ ?_))
      · have hmap : t.maps = u.maps := congrArg Core.maps hcore
        rw [hmap, hmaps]
        exact hfree
      · rw [hkept, hgrants]
        exact hused
    · rename_i t e ht
      rw [ht] at hcore
      exact (aside hcore).then_aside ((release_core _ _ _ _).trans (release_core _ _ _ _))
  · exact of_throw _

theorem unmap (s : Machine) (request : UnmapRequest) :
    Leads (Path drops) (Kernel.unmap caller request) s := by
  refine atDomain fun cap target _ _ => require fun _ => find fun record _ => ?_
  exact (of_change (.withdrawMap record)).then_aside rfl

theorem finishUnmap (s : Machine) (thread : ThreadId) (acknowledged : Bool) :
    Path drops s (Kernel.finishUnmap s thread acknowledged) := by
  unfold Kernel.finishUnmap
  split
  · exact refl s
  · exact aside (collectMemory_core _ _ _)

theorem withdrawWriters (s : Machine) (object : MemoryId) :
    Path drops s (s.withdrawWriters object) := by
  refine foldl ?_ _ s
  intro t m
  split
  · exact withdrawMap t m
  · exact refl t

theorem sealMemory (s : Machine) : Leads (Path drops) (Kernel.sealMemory caller) s := by
  refine enter fun cap _ => ?_
  unfold Resolved.memory
  dsimp only
  split
  · rename_i object _
    show Path drops s (final (beginSeal caller.thread object s))
    unfold beginSeal
    split
    · exact refl s
    · exact refl s
    · split
      · exact refl s
      · have hsealing : Path drops s (s.setMemory object fun m => { m with state := .sealing }) :=
          aside rfl
        have hwriters : Path drops _ _ := withdrawWriters
          (s.setMemory object fun m => { m with state := .sealing }) object
        generalize Machine.withdrawWriters _ object = t at hwriters ⊢
        exact (hsealing.trans hwriters).then_aside rfl
  · exact of_throw _

theorem finishSeal (s : Machine) (thread : ThreadId) (acknowledged : Bool) :
    Path drops s (Kernel.finishSeal s thread acknowledged) := by
  unfold Kernel.finishSeal
  split
  · exact refl s
  · dsimp only
    split <;> exact aside rfl

/-! ### The life of a domain -/

theorem addThread (s : Machine) (request : ThreadCreateRequest) :
    Leads (Path drops) (Kernel.addThread caller request) s := by
  refine atDomain fun cap target _ _ => require fun _ => require fun _ => require fun _ => ?_
  have h : Leads (Path drops) _ _ := addThreadIn s target
  unfold Leads addThreadAs at *
  cases hb : Machine.addThreadIn target s <;> rw [hb] at h <;> exact h

theorem setFaultChannel (s : Machine) (request : FaultChannelRequest) :
    Leads (Path drops) (Kernel.setFaultChannel caller request) s := by
  refine atDomain fun cap target _ _ => require fun _ => require fun hb => require fun hn => ?_
  refine ask fun endpoint he => ?_
  obtain ⟨entry, -, -, -, hused, hobject, -⟩ := resolveEntry_ok he
  unfold Resolved.endpoint
  split
  · show Leads (Path drops) _ s
    refine require fun _ => ?_
    exact of_change (.openFaultChannel (by simpa using hb) (by simpa using hn) hused hobject)
  · exact of_throw _

variable {target : DomainId}

theorem activateIn (h : activatable target s = true) : Path drops s (s.activateIn target) := by
  have hbuilding : (s.domains target).state = .building := by
    simp only [activatable, Bool.and_eq_true, beq_iff_eq] at h
    exact h.1.1.1.1.1.1.1
  have hleads : (s.domains target).state.Leads .runnable := hbuilding ▸ .activate
  exact (of_change (.domainState hleads)).then_aside rfl

theorem activate (s : Machine) : Leads (Path drops) (Kernel.activate caller) s := by
  refine atDomain fun cap target _ _ => require fun h => ?_
  exact activateIn h

theorem withdrawMapsOf (s : Machine) (target : DomainId) :
    Path drops s (s.withdrawMapsOf target) := by
  refine foldl ?_ _ s
  intro t m
  split
  · exact withdrawMap t m
  · exact refl t

theorem mournInvocation (domain : DomainId) (s : Machine) (i : InvocationId) :
    Path drops s (Machine.mournInvocation domain s i) := by
  unfold Machine.mournInvocation
  dsimp only
  split
  · exact refl s
  · have hfirst : ∀ c : Prop, [Decidable c] → (if c then
        s.setInvocation i fun slot => { slot with cancel := .originDead, waiter := none }
        else s).core = s.core := by
      intro c _
      split
      · exact setInvocation_core s i rfl
      · rfl
    generalize ht : (if (s.invocations i).originDomain = domain ∧
        (s.invocations i).originDomainGeneration = s.generation (.domain domain) then
        s.setInvocation i fun slot => { slot with cancel := .originDead, waiter := none }
        else s) = t
    have hcore : t.core = s.core := ht ▸ hfirst _
    split
    · rename_i hdelivered
      have hwoken : ((t.setInvocation i fun slot => { slot with outcome := some .unknown }).wakeWaiter
          i .peerDead).core = s.core :=
        (wakeWaiter_core _ i _).trans ((setInvocation_core t i rfl).trans hcore)
      refine (aside hwoken).trans (of_change (.discharge ?_))
      intro hadmitted
      have hsame : (s.invocations i).state = .admitted :=
        (congrArg Record.state (record_of_core hwoken i)).symm.trans hadmitted
      rw [hdelivered.1] at hsame
      cases hsame
    · exact aside hcore

/-- The endpoints a dying domain leaves behind, its own messages withdrawn, may lose their
receiver. -/
def Leaves (drops : Machine → EndpointId → Prop) (s : Machine) (domain : DomainId) : Prop :=
  ∀ e, (s.withdrawOrigin domain).Receives domain e → ∀ t : Machine,
    t.endpoints e = (s.withdrawOrigin domain).endpoints e → drops t e

theorem mournInvocation_endpoints (domain : DomainId) (s : Machine) (i : InvocationId) :
    (Machine.mournInvocation domain s i).endpoints = s.endpoints ∧
      (Machine.mournInvocation domain s i).generation = s.generation := by
  unfold Machine.mournInvocation
  dsimp only
  split
  · exact ⟨rfl, rfl⟩
  · generalize ht : (if (s.invocations i).originDomain = domain ∧
        (s.invocations i).originDomainGeneration = s.generation (.domain domain) then
        s.setInvocation i fun slot => { slot with cancel := .originDead, waiter := none }
        else s) = t
    have hsame : t.endpoints = s.endpoints ∧ t.generation = s.generation := by
      rw [← ht]
      split <;> exact ⟨rfl, rfl⟩
    split
    · have hcalm := (t.setInvocation i fun slot =>
        { slot with outcome := some .unknown }).wakeWaiter_calm i .peerDead
      generalize Machine.wakeWaiter _ i .peerDead = u at hcalm ⊢
      have hreleased := u.releaseInvocation_endpoints i
      exact ⟨hreleased.1.trans (hcalm.endpoints.trans hsame.1),
        hreleased.2.trans (hcalm.generation.trans hsame.2)⟩
    · exact hsame

theorem mourned_endpoints (domain : DomainId) (l : List InvocationId) (s : Machine) :
    (l.foldl (Machine.mournInvocation domain) s).endpoints = s.endpoints ∧
      (l.foldl (Machine.mournInvocation domain) s).generation = s.generation := by
  induction l generalizing s with
  | nil => exact ⟨rfl, rfl⟩
  | cons i rest ih =>
    obtain ⟨he, hg⟩ := ih (Machine.mournInvocation domain s i)
    obtain ⟨he', hg'⟩ := mournInvocation_endpoints domain s i
    exact ⟨he.trans he', hg.trans hg'⟩

theorem onDomainDeath {domain : DomainId} (hd : Leaves drops s domain) :
    Path drops s (s.onDomainDeath domain) := by
  have hwithdrawn : Path drops s (s.withdrawOrigin domain) := of_change (.withdrawOrigin domain)
  have hmourned : Path drops _ _ := foldl (mournInvocation domain)
    (List.finRange maxInvocations) (s.withdrawOrigin domain)
  obtain ⟨hendpoints, hgeneration⟩ := mourned_endpoints domain (List.finRange maxInvocations)
    (s.withdrawOrigin domain)
  unfold Machine.onDomainDeath
  show Path drops s (((List.finRange maxInvocations).foldl (Machine.mournInvocation domain)
    (s.withdrawOrigin domain)).closeEndpoints domain |>.dropFaultChannel domain)
  generalize (List.finRange maxInvocations).foldl (Machine.mournInvocation domain)
    (s.withdrawOrigin domain) = t at *
  have hcloses : ∀ e, t.Receives domain e → drops t e := by
    rintro e ⟨hu, hr, hg⟩
    refine hd e ⟨?_, ?_, ?_⟩ t (by rw [hendpoints])
    · rw [← hendpoints]
      exact hu
    · rw [← hendpoints]
      exact hr
    · rw [← hendpoints, ← hgeneration]
      exact hg
  exact (hwithdrawn.trans hmourned).trans
    ((of_change (.closeEndpoints hcloses)).trans (of_change (.dropFaultChannel domain)))

theorem terminateIn (faulted : Bool)
    (hd : (s.domains target).state = .building ∨ (s.domains target).state = .runnable →
      ∀ v, Calm s v → Leaves drops v target) : Path drops s (s.terminateIn target faulted).1 := by
  unfold Machine.terminateIn
  split
  · exact refl s
  · rename_i h
    have hthere : (s.domains target).state = .building ∨ (s.domains target).state = .runnable := by
      by_contra hno
      exact h (not_or.mp hno)
    have hleads : (s.domains target).state.Leads (if faulted then .faulted else .stopping) :=
      .stop hthere (by cases faulted <;> simp)
    refine (of_change (.domainState hleads)).trans ?_
    dsimp only
    have hset : Calm s (s.setDomain target fun d =>
        { d with state := if faulted then .faulted else .stopping }) :=
      ⟨rfl, rfl, rfl, rfl, rfl, rfl, rfl⟩
    generalize s.setDomain target _ = t at hset ⊢
    have hstopped : Path drops t (t.stopThreads target) := aside (stopThreads_core t target)
    have hcalm := t.stopThreads_calm target
    generalize t.stopThreads target = u at hstopped hcalm ⊢
    have hmaps : Path drops _ _ := withdrawMapsOf u target
    have hcalm' := u.withdrawMapsOf_calm target
    generalize u.withdrawMapsOf target = v at hmaps hcalm' ⊢
    have hdeath : Path drops _ _ := onDomainDeath (hd hthere v (hset.trans (hcalm.trans hcalm')))
    generalize v.onDomainDeath target = w at hdeath ⊢
    exact hstopped.trans (hmaps.trans (hdeath.trans (releaseSlots w target _)))

theorem terminate (hd : ∀ target, s.Stops caller target → ∀ v, Calm s v → Leaves drops v target) :
    Leads (Path drops) (Kernel.terminate caller) s := by
  refine atDomain fun cap target hcap htarget => of_orElse ?_
  have h : Path drops _ _ := terminateIn false fun hstate =>
    hd target ⟨cap, hcap, htarget, hstate⟩
  rcases ht : s.terminateIn target false with ⟨t, stopped⟩
  rw [ht] at h
  exact h

theorem reap (h : s.reapable target = true) : Path drops s (s.reap target) := by
  have hstopped : (s.domains target).state = .faulted ∨ (s.domains target).state = .stopping := by
    simp only [reapable, Bool.and_eq_true, Bool.or_eq_true, beq_iff_eq] at h
    exact h.1
  unfold Machine.reap
  dsimp only
  have hcleared : ((List.finRange maxThreadsPerDomain).foldl (clearThread target) s).core = s.core :=
    foldl_core (fun t slot => t.clearThread_core target slot)
      (List.finRange maxThreadsPerDomain) s
  generalize (List.finRange maxThreadsPerDomain).foldl (clearThread target) s = t at hcleared ⊢
  have hdestroyed : (t.destroySpace target).core = s.core :=
    (destroySpace_core t target).trans hcleared
  generalize t.destroySpace target = u at hdestroyed ⊢
  have hsettled : (((u.release (u.domains target).ownerScope .memoryPages
      (u.domains target).reservedPages).release (u.domains target).ownerScope .metadata
        (u.domains target).reservedMetadata).setScope (u.domains target).ownerScope fun node =>
          { node with threads := node.threads - max (s.domains target).threadCount 1 }).core =
      s.core :=
    (setScope_core _ _ rfl).trans ((release_core _ _ _ _).trans
      ((release_core _ _ _ _).trans hdestroyed))
  generalize (((u.release (u.domains target).ownerScope .memoryPages
      (u.domains target).reservedPages).release (u.domains target).ownerScope .metadata
        (u.domains target).reservedMetadata).setScope (u.domains target).ownerScope fun node =>
          { node with threads := node.threads - max (s.domains target).threadCount 1 }) = v
    at hsettled ⊢
  have hcleared' : (v.setDomain target fun d =>
      { d with reservedPages := 0, reservedMetadata := 0 }).core = s.core :=
    (setDomain_core v target rfl).trans hsettled
  have hleads : ((v.setDomain target fun d =>
      { d with reservedPages := 0, reservedMetadata := 0 }).domains target).state.Leads .dead := by
    have hsame := congrArg DomainPlace.state (domain_of_core hcleared' target)
    refine .reap ?_
    exact hstopped.imp hsame.trans hsame.trans
  have hstep : Path drops _ _ := (aside hcleared').trans (of_change (.domainState hleads))
  have htwice : ((v.setDomain target fun d =>
      { d with reservedPages := 0, reservedMetadata := 0 }).setDomain target fun d =>
        { d with state := .dead }) = v.setDomain target fun d =>
          { d with reservedPages := 0, reservedMetadata := 0, state := .dead } := by
    simp [setDomain]
  rwa [htwice] at hstep

end Path

end Thalyx.Kernel
