/-
Entries and grants, as changes.

Installing, releasing and allocating leave the domains, the queues, the mappings and all
undischarged work where they are.  `Stands` says so, and what an operation has checked of
those before it installs or releases is still true afterwards.
-/
import ThalyxKernel.Kernel.Change.Logic

namespace Thalyx.Kernel

open Fallible (final Leads Within)

/-- Everything but entries, grants, references and accounts is where it was, discharged
records aside. -/
structure Stands (s s' : Machine) : Prop where
  domains : s'.domains = s.domains
  generation : s'.generation = s.generation
  maps : s'.maps = s.maps
  endpoints : s'.endpoints = s.endpoints
  messages : s'.messages = s.messages
  messageFree : s'.messageFree = s.messageFree
  threads : s'.threads = s.threads
  fenced : s'.fenced = s.fenced
  nextObjectId : s.nextObjectId ≤ s'.nextObjectId
  scopes : ∀ i, (s'.scopes i).place = (s.scopes i).place
  invocations : ∀ i,
    (s'.invocations i = s.invocations i ∧ s'.invocationFree i = s.invocationFree i) ∨
      ((s.invocations i).state = .resolved ∧ (s'.invocations i).state = .empty)

namespace Stands

variable {s t u : Machine}

theorem refl (s : Machine) : Stands s s :=
  ⟨rfl, rfl, rfl, rfl, rfl, rfl, rfl, rfl, le_rfl, fun _ => rfl, fun _ => .inl ⟨rfl, rfl⟩⟩

theorem live (h : Stands s t) (i : InvocationId) (hi : (s.invocations i).state ≠ .resolved) :
    t.invocations i = s.invocations i ∧ t.invocationFree i = s.invocationFree i := by
  rcases h.invocations i with hsame | ⟨hresolved, -⟩
  · exact hsame
  · exact absurd hresolved hi

theorem trans (h : Stands s t) (h' : Stands t u) : Stands s u where
  domains := h'.domains.trans h.domains
  generation := h'.generation.trans h.generation
  maps := h'.maps.trans h.maps
  endpoints := h'.endpoints.trans h.endpoints
  messages := h'.messages.trans h.messages
  messageFree := h'.messageFree.trans h.messageFree
  threads := h'.threads.trans h.threads
  fenced := h'.fenced.trans h.fenced
  nextObjectId := h.nextObjectId.trans h'.nextObjectId
  scopes := fun i => (h'.scopes i).trans (h.scopes i)
  invocations := by
    intro i
    rcases h.invocations i with ⟨hrecord, hfree⟩ | ⟨hresolved, hempty⟩
    · rcases h'.invocations i with ⟨hrecord', hfree'⟩ | ⟨hresolved, hempty⟩
      · exact .inl ⟨hrecord'.trans hrecord, hfree'.trans hfree⟩
      · exact .inr ⟨hrecord ▸ hresolved, hempty⟩
    · rcases h'.invocations i with ⟨hrecord', -⟩ | ⟨hresolved', -⟩
      · exact .inr ⟨hresolved, hrecord' ▸ hempty⟩
      · rw [hempty] at hresolved'
        cases hresolved'

theorem foldl {ι : Type} {f : Machine → ι → Machine} (h : ∀ s i, Stands s (f s i))
    (l : List ι) (s : Machine) : Stands s (l.foldl f s) := by
  induction l generalizing s with
  | nil => exact refl s
  | cons i rest ih => exact (h s i).trans (ih _)

theorem of_accounts (s : Machine) {scopes : Scopes} {caps : DomainId → CapTable}
    {grants : GrantId → Grant} {hint n : Nat} {refs : Obj → Nat} {pendingMemory : MemoryId → Bool}
    (h : ∀ i, (scopes i).place = (s.scopes i).place) (hn : s.nextObjectId ≤ n) :
    Stands s
      { s with scopes, caps, grants, grantHint := hint, nextObjectId := n, refs, pendingMemory } :=
  ⟨rfl, rfl, rfl, rfl, rfl, rfl, rfl, rfl, hn, h, fun _ => .inl ⟨rfl, rfl⟩⟩

end Stands

namespace Machine

/-! ### Releasing -/

section Releasing

variable (s : Machine)

theorem release_place (t : Scopes) (scope : ScopeId) (resource : Resource) (amount : Nat)
    (i : ScopeId) : (t.release scope resource amount i).place = (t i).place := by
  rw [Scopes.release_eq]
  rfl

theorem freeGrant_stands (g : GrantId) : Stands s (s.freeGrant g) := by
  refine Stands.of_accounts s ?_ le_rfl
  exact release_place _ _ _ _

theorem collectGrantUpTo_stands (n : Nat) (grant : Option GrantId) :
    Stands s (collectGrantUpTo n s grant) := by
  induction n generalizing s grant with
  | zero => exact Stands.refl s
  | succ n ih =>
    cases grant with
    | none => exact Stands.refl s
    | some g =>
      unfold collectGrantUpTo
      dsimp only
      split
      · exact Stands.refl s
      · exact (s.freeGrant_stands g).trans (ih _ _)

theorem collectInvocation_stands (i : InvocationId) : Stands s (s.collectInvocation i) := by
  unfold collectInvocation
  split
  · exact Stands.refl s
  · rename_i h
    obtain ⟨hstate, -⟩ : (s.invocations i).state = .resolved ∧ s.refs (.invocation i) = 0 := by
      simpa [not_or] using h
    refine ⟨rfl, rfl, rfl, rfl, rfl, rfl, rfl, rfl, le_rfl, fun _ => rfl, ?_⟩
    intro j
    by_cases hj : j = i
    · subst hj
      refine .inr ⟨hstate, ?_⟩
      simp [freeInvocation, setInvocation]
    · exact .inl ⟨Function.update_of_ne hj _ _, Function.update_of_ne hj _ _⟩

theorem deferMemory_stands (object : ObjRef) : Stands s (s.deferMemory object) := by
  unfold deferMemory
  split
  · split
    · exact Stands.of_accounts s (fun _ => rfl) le_rfl
    · exact Stands.refl s
  · exact Stands.refl s

theorem releaseEntry_stands (domain : DomainId) (entry : CapEntry) :
    Stands s (s.releaseEntry domain entry) := by
  have hfirst : Stands s ((({ s with
      scopes := s.scopes.release (s.domains domain).ownerScope .metadata 1 }).dropGrantRef
        entry.grant).dropRef entry.object.object) :=
    Stands.of_accounts s (release_place _ _ _ _) le_rfl
  refine hfirst.trans ?_
  unfold releaseEntry collectGrant
  dsimp only
  refine Stands.trans ?_ (collectGrantUpTo_stands _ _ _)
  refine Stands.trans ?_ (deferMemory_stands _ _)
  split
  · exact collectInvocation_stands _ _
  · exact Stands.refl _

theorem capReleaseSlot_stands (domain : DomainId) (slot : CapSlot) :
    Stands s (s.capReleaseSlot domain slot).1 := by
  unfold capReleaseSlot
  split
  · rename_i table entry h
    exact (Stands.of_accounts s (fun _ => rfl) le_rfl).trans (releaseEntry_stands _ _ _)
  · exact Stands.refl s

theorem releaseSlots_stands (domain : DomainId) (slots : List CapSlot) :
    Stands s (s.releaseSlots domain slots) :=
  Stands.foldl (fun t slot => t.capReleaseSlot_stands domain slot) slots s

theorem consumeMoves_stands (domain : DomainId) (sources : List Source) :
    Stands s (s.consumeMoves domain sources) := by
  refine Stands.foldl ?_ sources s
  intro t source
  split
  · exact t.capReleaseSlot_stands domain source.slot
  · exact Stands.refl t

end Releasing

/-! ### Installing and allocating -/

section Installing

variable {s s' : Machine} {domain : DomainId} {object : ObjRef} {grant : Option GrantId}
  {at? : Option CapSlot}

theorem capInstall_stands (s : Machine) (domain : DomainId) (object : ObjRef)
    (grant : Option GrantId) (at? : Option CapSlot) :
    Stands s (s.capInstall domain object grant at?).1 := by
  rcases h : s.capInstall domain object grant at? with ⟨s', _ | handle⟩
  · obtain ⟨table, -, rfl⟩ := capInstall_none h
    exact Stands.of_accounts s (fun _ => rfl) le_rfl
  · obtain ⟨slot, -, -, -, -, rfl⟩ := capInstall_some h
    exact Stands.of_accounts s (fun _ => rfl) le_rfl

theorem capInstall_grant (s : Machine) (domain : DomainId) (object : ObjRef)
    (grant : Option GrantId) (at? : Option CapSlot) (g : GrantId) :
    ∃ refs, (s.capInstall domain object grant at?).1.grants g = { s.grants g with refs } := by
  rcases h : s.capInstall domain object grant at? with ⟨s', _ | handle⟩
  · obtain ⟨table, -, rfl⟩ := capInstall_none h
    exact ⟨_, rfl⟩
  · obtain ⟨slot, -, -, -, -, rfl⟩ := capInstall_some h
    cases grant with
    | none => exact ⟨_, rfl⟩
    | some k =>
      by_cases hk : g = k
      · subst hk
        exact ⟨_, Function.update_self _ _ _⟩
      · exact ⟨(s.grants g).refs, Function.update_of_ne hk _ _⟩

theorem grantAlloc_stands {sponsor : ScopeId} {parent : Option GrantId} {rights : Rights}
    {deadlineNs : Nat} {lifeScope : Option ScopeId} {facet : Nat} {g : Option GrantId}
    (h : s.grantAlloc sponsor parent object rights deadlineNs lifeScope facet = (s', g)) :
    Stands s s' := by
  cases g with
  | none =>
    rcases (grantAlloc_none h).2 with rfl | rfl
    · exact Stands.refl s'
    · exact Stands.of_accounts s (fun _ => rfl) (Nat.le_succ _)
  | some g =>
    obtain ⟨-, -, rfl⟩ := grantAlloc_some h
    exact Stands.of_accounts s (fun _ => rfl) (Nat.le_succ _)

end Installing

end Machine

/-! ### As paths -/

namespace Path

variable {drops : Machine → EndpointId → Prop} {s s' t : Machine}

open Machine

theorem capReleaseSlot (s : Machine) (domain : DomainId) (slot : CapSlot) :
    Path drops s (s.capReleaseSlot domain slot).1 := by
  by_cases hl : (s.caps domain slot).live = true
  · exact of_change (.capRelease hl)
  · have hnone : (s.caps domain).releaseSlot slot = (s.caps domain, none) := by
      simp [CapTable.releaseSlot, hl]
    unfold Machine.capReleaseSlot
    rw [hnone]
    exact refl s

theorem releaseSlots (s : Machine) (domain : DomainId) (slots : List CapSlot) :
    Path drops s (s.releaseSlots domain slots) :=
  foldl (fun t slot => capReleaseSlot t domain slot) slots s

theorem consumeMoves (s : Machine) (domain : DomainId) (sources : List Source) :
    Path drops s (s.consumeMoves domain sources) := by
  refine foldl ?_ sources s
  intro t source
  split
  · exact capReleaseSlot t domain source.slot
  · exact refl t

theorem capRelease (s : Machine) (domain : DomainId) (handle : Handle) :
    Path drops s (s.capRelease domain handle).1 := by
  unfold Machine.capRelease CapTable.release
  by_cases hslot : handle.slot < maxCaps
  · rw [dif_pos hslot]
    dsimp only
    split
    · rename_i table entry h
      split at h
      · cases h
      · have heq : Path drops _ _ := capReleaseSlot s domain ⟨handle.slot, hslot⟩
        unfold Machine.capReleaseSlot at heq
        rw [h] at heq
        exact heq
    · exact refl s
  · rw [dif_neg hslot]
    exact refl s

theorem withdrawEverywhere (s : Machine) (object : ObjRef) :
    Path drops s (s.withdrawEverywhere object) := by
  refine foldl ?_ _ s
  intro t domain
  unfold withdrawIn
  split
  · exact refl t
  · refine foldl ?_ _ t
    intro u slot
    split
    · exact capReleaseSlot u domain slot
    · exact refl u

variable {object : ObjRef}
variable {domain : DomainId}

theorem capInstall_none_core {grant : Option GrantId}
    {at? : Option CapSlot} (h : s.capInstall domain object grant at? = (s', none)) :
    s'.core = s.core := by
  obtain ⟨table, hheld, rfl⟩ := capInstall_none h
  have hheld' : (fun d slot => (Function.update s.caps domain table d slot).held) =
      fun d slot => (s.caps d slot).held := by
    funext d slot
    by_cases hd : d = domain
    · subst hd
      rw [Function.update_self]
      exact hheld slot
    · rw [Function.update_of_ne hd]
  show ({ s.core with held := _ } : Core) = s.core
  rw [hheld']
  rfl

theorem uninstalled_core {g : GrantId} {node : Grant} {w : Machine}
    (h : (s.granted g node).capInstall domain object (some g) none = (s', none))
    (hscopes : ∀ k, (w.scopes k).place = (s.scopes k).place)
    (hgrants : ∀ k, (w.grants k).shown = (s.grants k).shown)
    (hrest : w.core = { s'.core with
      scopes := fun k => (w.scopes k).place, grants := fun k => (w.grants k).shown }) :
    w.core = { s.core with nextObjectId := s.nextObjectId + 1 } := by
  rw [hrest, capInstall_none_core h, funext hscopes, funext hgrants]
  rfl

theorem capInstall {g : GrantId} {at? : Option CapSlot}
    (hu : (s.grants g).used = true) (ho : (s.grants g).object = object) :
    Path drops s (s.capInstall domain object (some g) at?).1 := by
  rcases h : s.capInstall domain object (some g) at? with ⟨s', _ | handle⟩
  · exact aside (capInstall_none_core h)
  · exact of_change (.capInstall h hu ho)

variable {sponsor : ScopeId} {parent : Option GrantId} {rights : Rights} {deadlineNs facet : Nat}
variable {lifeScope : Option ScopeId}

theorem grantAlloc (hp : s.Derives object rights deadlineNs parent) :
    Path drops s
      (s.grantAlloc sponsor parent object rights deadlineNs lifeScope facet).1 := by
  rcases h : s.grantAlloc sponsor parent object rights deadlineNs lifeScope facet with
    ⟨s', _ | g⟩
  · rcases (grantAlloc_none h).2 with rfl | rfl
    · exact refl s'
    · exact counted s
  · exact of_change (.grantAlloc h hp)

theorem grantAlloc_node {g : GrantId}
    (h : s.grantAlloc sponsor parent object rights deadlineNs lifeScope facet = (s', some g))
    (hp : s.Derives object rights deadlineNs parent) :
    s'.grants g = s.newGrant sponsor parent object rights deadlineNs lifeScope facet := by
  obtain ⟨-, hfree, rfl⟩ := grantAlloc_some h
  have hunused := freeGrantNode_unused hfree
  cases parent with
  | none => exact Function.update_self _ _ _
  | some p =>
    have hne : g ≠ p := by
      rintro rfl
      cases hp with
      | child hused _ _ _ => simp [hunused] at hused
    show Function.update (Function.update s.grants g _) p _ g = _
    rw [Function.update_of_ne hne, Function.update_self]

end Path

end Thalyx.Kernel
