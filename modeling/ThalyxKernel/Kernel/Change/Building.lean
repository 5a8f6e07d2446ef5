/-
Domains, as changes: their creation, their threads and their end.

A build and a demolition move frames, page tables and threads, none of which is in the core.
What is left of a creation is one change, the slot written, and one of a failed creation is
the slot cleared again.
-/
import ThalyxKernel.Kernel.Change.Entries
import ThalyxKernel.Kernel.Raising

namespace Thalyx.Kernel

open Fallible (final Leads Within)

/-- Two machines with the same core. -/
def SameCore (s s' : Machine) : Prop := s'.core = s.core

theorem SameCore.refl (s : Machine) : SameCore s s := rfl

theorem SameCore.trans (s t u : Machine) (h : SameCore s t) (h' : SameCore t u) : SameCore s u :=
  Eq.trans h' h

namespace Machine

/-! ### Builds -/

theorem allocFrame_core (owner : Owner) : Within SameCore (allocFrame owner) := by
  intro s
  unfold allocFrame
  split <;> exact SameCore.refl s

theorem mapKernelFrame_core (vaddr : Nat) (frame : Frame) :
    Within SameCore (mapKernelFrame vaddr frame) := by
  intro s
  unfold mapKernelFrame
  split <;> exact SameCore.refl s

theorem unmapKernelPage_core (slot : ThreadId) (s : Machine) (page : Nat) :
    (unmapKernelPage slot s page).core = s.core := by
  unfold unmapKernelPage
  split <;> rfl

theorem mapKernelPages_core (slot : ThreadId) (pages mapped : List Nat) :
    Within SameCore (mapKernelPages slot pages mapped) := by
  induction pages generalizing mapped with
  | nil => exact SameCore.refl
  | cons page rest ih =>
    refine .bind SameCore.trans ?_ fun _ => ih _
    intro s
    have hpage : Within SameCore (mapKernelPage slot page) :=
      .bind SameCore.trans (allocFrame_core _) fun _ => mapKernelFrame_core _ _
    have hs := hpage s
    unfold Build.orUndo
    cases h : mapKernelPage slot page s with
    | ok a t =>
      rw [h] at hs
      exact hs
    | error e t =>
      rw [h] at hs
      refine SameCore.trans _ _ _ hs ?_
      exact foldl_core (fun u p => unmapKernelPage_core slot u.bumpTlb p) mapped t

theorem allocateKernelStack_core : Within SameCore allocateKernelStack := by
  refine .bind SameCore.trans ?_ fun slot => ?_
  · intro s
    unfold findKernelStack
    split <;> exact SameCore.refl s
  · exact .bind SameCore.trans (mapKernelPages_core slot _ _) fun _ s => SameCore.refl s

theorem mapDomainFrame_core (index : DomainId) (rights : PageRights) (vaddr : Nat)
    (frame : Frame) : Within SameCore (mapDomainFrame index rights vaddr frame) := by
  intro s
  unfold mapDomainFrame
  split
  · exact SameCore.refl s
  · split
    rename_i allocator space result hm
    have hset : ({ s with allocator }.setDomain index fun d => { d with space := some space }).core =
        s.core := setDomain_core { s with allocator } index rfl
    cases result <;> exact hset

theorem mapDomainPage_core (index : DomainId) (rights : PageRights) (vaddr : Nat) :
    Within SameCore (mapDomainPage index rights vaddr) :=
  .bind SameCore.trans (allocFrame_core _) fun _ => mapDomainFrame_core _ _ _ _

theorem modifyDomain_core {index : DomainId} {f : Domain → Domain}
    (h : ∀ d, (f d).place = d.place) :
    Within SameCore (modify fun s => s.setDomain index f : Build PUnit) :=
  fun s => setDomain_core s index (h _)

theorem mapSegment_core (index : DomainId) (segment : Segment) :
    Within SameCore (mapSegment index segment) :=
  .bind SameCore.trans (.forM SameCore.refl SameCore.trans fun _ => mapDomainPage_core _ _ _)
    fun _ => modifyDomain_core fun _ => rfl

theorem buildSpace_core (index : DomainId) (image : Image) :
    Within SameCore (buildSpace index image) := by
  refine .bind SameCore.trans (allocFrame_core _) fun root => ?_
  refine .bind SameCore.trans (modifyDomain_core fun _ => rfl) fun _ => ?_
  refine .bind SameCore.trans
    (.forM SameCore.refl SameCore.trans fun _ => mapSegment_core _ _) fun _ => ?_
  refine .bind SameCore.trans
    (.forM SameCore.refl SameCore.trans fun _ => mapDomainPage_core _ _ _) fun _ => ?_
  exact .bind SameCore.trans (modifyDomain_core fun _ => rfl) fun _ => allocateKernelStack_core

/-! ### Threads and demolition -/

section Threads

variable (s : Machine)

theorem chargeParallelism_core (thread : ThreadId) (scope : ScopeId) :
    (s.chargeParallelism thread scope).core = s.core :=
  s.takeParallelism_core scope

theorem nextId_some {s t : Machine} {id : Nat} (h : s.nextId = some (id, t)) :
    id = s.nextObjectId ∧ t = s.counted := by
  unfold nextId at h
  split at h
  · cases h
  · obtain ⟨rfl, rfl⟩ := Prod.mk.inj (Option.some.inj h)
    exact ⟨rfl, rfl⟩

theorem releaseKernelStack_core (slot : Nat) : (s.releaseKernelStack slot).core = s.core := by
  unfold releaseKernelStack
  split
  · split
    · rfl
    · exact foldl_core (fun t page => unmapKernelPage_core _ t page) _ s.bumpTlb
  · rfl

theorem clearThread_core (index : DomainId) (slot : Fin maxThreadsPerDomain) :
    (clearThread index s slot).core = s.core := by
  unfold clearThread
  split
  · rfl
  · exact (releaseKernelStack_core _ _).trans (setDomain_core s index rfl)

theorem retireFrames_core (frames : List Frame) (owner : Owner) :
    (s.retireFrames frames owner).core = s.core :=
  foldl_core (fun t frame => t.retireFrame_core frame owner t.tlb.generation) frames s.bumpTlb

theorem destroySpace_core (index : DomainId) : (s.destroySpace index).core = s.core := by
  unfold destroySpace
  split
  · rfl
  · exact (retireFrames_core _ _ _).trans
      ((retireFrames_core _ _ _).trans (setDomain_core s index rfl))

theorem demolish_core (index : DomainId) : (s.demolish index).core = s.core :=
  (destroySpace_core _ index).trans (foldl_core (fun t slot => t.clearThread_core index slot) _ s)

end Threads

end Machine

/-! ### As paths -/

namespace Path

variable {drops : Machine → EndpointId → Prop} {s t : Machine}

open Machine

theorem startThread (s : Machine) (index : DomainId) (thread kstack : ThreadId) :
    Path drops s (s.startThread index thread kstack) := by
  have hrest : ∀ t : Machine, (((t.initialiseThread thread index kstack).setDomain index fun d =>
      { d with threads := Function.update d.threads 0 (some thread) }).chargeParallelism thread
        ((((t.initialiseThread thread index kstack).setDomain index fun d =>
          { d with threads := Function.update d.threads 0 (some thread) }).domains
            index).ownerScope)).core = t.core := fun t =>
    (chargeParallelism_core _ _ _).trans (setDomain_core _ index rfl)
  unfold Machine.startThread
  rcases h : s.nextId with _ | ⟨id, t⟩
  · exact aside (hrest s)
  · obtain ⟨-, rfl⟩ := nextId_some h
    exact (counted s).then_aside (hrest s.counted)

variable {index : DomainId}

theorem clearDomain
    (h : (s.domains index).state = .dead ∨ ∀ slot, (s.caps index slot).held = none) :
    Path drops s (s.clearDomain index) := of_change (.clearDomain h)

theorem takeDomainSlot (s : Machine) : Path drops s s.takeDomainSlot.1 := by
  rcases h : s.takeDomainSlot with ⟨t, _ | index⟩
  · rw [takeDomainSlot_none h]
    exact refl s
  · obtain ⟨-, rfl⟩ | ⟨hdead, rfl⟩ := takeDomainSlot_some h
    · exact refl t
    · have hquarantine : Path drops s
          { s with allocator := s.allocator.reassignQuarantine (.domain index) .kernel } :=
        aside rfl
      exact hquarantine.trans (clearDomain (.inl hdead))

variable {scope : ScopeId}

/-- **A build and, when it fails, its demolition**: the slot that was opened for it is cleared
again, with nothing in its table. -/
theorem buildOrUndo {thread : ThreadId} {image : Image}
    {pages : Nat} (hheld : ∀ slot, (s.caps index slot).held = none) :
    Leads (Path drops) ((build index thread image).orUndo fun s =>
      s.abandonDomain index scope pages) s := by
  have hspace := buildSpace_core index image s
  unfold Leads Build.orUndo
  cases h : buildSpace index image s with
  | ok kstack t =>
    rw [h] at hspace
    have hbuild : build index thread image s = .ok ⟨⟩ (t.startThread index thread kstack) := by
      unfold build
      rw [Fallible.bind_of_ok h]
      rfl
    rw [hbuild]
    exact (aside hspace).trans (startThread t index thread kstack)
  | error e t =>
    rw [h] at hspace
    have hbuild : build index thread image s = .error e t := by
      unfold build
      rw [Fallible.bind_of_error h]
    rw [hbuild]
    show Path drops s (t.abandonDomain index scope pages)
    have hcore : (((t.demolish index).release scope .memoryPages pages).release scope .metadata
        2).core = s.core := by
      rw [release_core, release_core, demolish_core]
      exact hspace
    refine (aside hcore).trans (clearDomain (Or.inr ?_))
    intro slot
    rw [held_of_core hcore]
    exact hheld slot

theorem settleDomain (s : Machine) (index : DomainId) (scope : ScopeId) (pages : Nat) :
    Path drops s (s.settleDomain index scope pages) := by
  refine aside ?_
  unfold Machine.settleDomain
  refine (setDomain_core _ index rfl).trans ?_
  exact (release_core _ _ _ _).trans (setScope_core s scope rfl)

theorem raise {managed : Bool} {image : Image} (hempty : (s.domains index).state = .empty) :
    Leads (Path drops) (Machine.raise scope managed image index) s := by
  refine find fun thread _ => ?_
  refine reserve rfl fun scopes _ => ?_
  refine reserve (release_core _ _ _ _) fun scopes' _ => ?_
  refine nextId ((release_core _ _ _ _).trans (release_core _ _ _ _)) ?_
  refine modify (of_change (.openDomain _ _ _ _ hempty)) ?_
  refine bind (buildOrUndo ?_) fun _ t _ => ?_
  · intro slot
    simp [openDomain, setDomain, CapTable.new, CapEntry.empty, CapEntry.held]
  · exact modify (settleDomain t index scope _) (of_pure index)

theorem createIn (s : Machine) (image : Option Image) (scope : ScopeId) (managed : Bool) :
    Leads (Path drops) (Machine.createIn image scope managed) s := by
  refine ask fun image _ => require fun _ => require fun _ => ?_
  refine orElse (takeDomainSlot s) fun index t ht => ?_
  exact raise (takeDomainSlot_empty ht)

theorem addThreadIn (s : Machine) (target : DomainId) :
    Leads (Path drops) (Machine.addThreadIn target) s := by
  refine find fun slot _ => find fun thread _ => get ?_
  refine require fun _ => reserve rfl fun scopes _ => ?_
  refine reserve (release_core _ _ _ _) fun scopes' _ => ?_
  have hstack : ∀ (owner : ScopeId) (t : Machine), Leads (Path drops)
      (allocateKernelStack.orUndo fun s =>
        (s.release owner .memoryPages kstackPages).release owner .metadata 1) t := by
    intro owner t
    have hkept := allocateKernelStack_core t
    unfold Leads Build.orUndo
    cases h : allocateKernelStack t with
    | ok kstack u =>
      rw [h] at hkept
      exact aside hkept
    | error e u =>
      rw [h] at hkept
      exact (aside hkept).then_aside ((release_core _ _ _ _).trans (release_core _ _ _ _))
  refine bind (hstack _ _) fun kstack t _ => ?_
  show Path drops t (t.joinThread target slot thread kstack)
  have hrest : ∀ u : Machine, ∀ owner : ScopeId,
      ((((u.initialiseThread thread target kstack).setDomain target fun d =>
        { d with
          threads := Function.update d.threads slot (some thread)
          reservedPages := d.reservedPages + kstackPages
          reservedMetadata := d.reservedMetadata + 1 }).setScope owner fun node =>
            { node with threads := node.threads + 1 }).chargeParallelism thread owner).core =
        u.core := by
    intro u owner
    refine (chargeParallelism_core _ _ _).trans ?_
    exact (setScope_core _ owner rfl).trans (setDomain_core _ target rfl)
  unfold joinThread
  rcases h : t.nextId with _ | ⟨id, u⟩
  · exact aside (hrest t _)
  · obtain ⟨-, rfl⟩ := nextId_some h
    exact (counted t).then_aside (hrest t.counted _)

end Path

end Thalyx.Kernel
