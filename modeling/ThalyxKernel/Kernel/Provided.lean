/-
When the operations that make something leave nothing behind.

A creation that is refused late keeps what it has made by then: only `derive`, and the frames
and accounts of a memory object or a domain, are taken back by hand.  So a refusal leaves
nothing exactly when the creation, once it has made its object, cannot be refused any more.
-/
import ThalyxKernel.Kernel.Creation
import ThalyxKernel.Kernel.Raising
import ThalyxKernel.Kernel.System

namespace Thalyx.Kernel

/-- What a creation needs in order not to be refused after it has made something. -/
def Creation.Provided (caller : Caller) (s : Machine) : Creation → Prop
  | .child request => ChildProvided caller request s
  | .endpoint request => EndpointProvided caller request s
  | .facet request => FacetProvided caller request s
  | .signal => SignalProvided caller s
  | .timer request => TimerProvided caller request s
  | .memory request => MemoryProvided caller request s
  | .domain request => DomainProvided caller request s
  | .installCap request => InstallProvided caller request s
  | .derive _ => True

/-- **A creation that fails leaves nothing behind exactly when it was provided for.** -/
theorem creation_leaves_nothing_iff (s : Machine) (caller : Caller) (creation : Creation) :
    LeavesNothing s (creation.run caller) s ↔ creation.Provided caller s := by
  cases creation with
  | child request => exact createChild_iff
  | endpoint request => exact createEndpoint_iff
  | facet request => exact bindFacet_iff
  | signal => exact createSignal_iff
  | timer request => exact createTimer_iff
  | memory request => exact createMemory_iff
  | domain request => exact createDomain_iff
  | installCap request => exact installCap_iff
  | derive request => exact iff_true_intro (derive_leavesNothing s caller request)

/-- A run in which the first domain fills its table with copies of one capability. -/
def filledTable : List Step := List.replicate 29 (.first 1 .copy)

/-- A signal made for a domain whose table is full stays, although the creation fails. -/
theorem signal_left_behind : ∃ (s : Machine) (caller : Caller), kernel.Reachable s ∧
    s.Enters caller.thread caller.domain ∧
    ¬ LeavesNothing s (Creation.signal.run caller) s := by
  obtain ⟨s, hreachable, hs⟩ := small_reaches [] filledTable
    (fun s => decide (s.Enters 8 0) && match createSignal ⟨0, 8, ⟨2, 1⟩, false, 0, 0⟩ s with
      | .error _ s' => (s'.signals 0).used && !(s.signals 0).used
      | .ok _ _ => false) (by decide) (by decide +kernel)
  simp only [Bool.and_eq_true, decide_eq_true_eq] at hs
  refine ⟨s, ⟨0, 8, ⟨2, 1⟩, false, 0, 0⟩, hreachable, hs.1, ?_⟩
  intro hnothing
  have hfailed := hs.2
  split at hfailed
  · rename_i e s' hrun
    simp only [Bool.and_eq_true, Bool.not_eq_true'] at hfailed
    have hsame := (hnothing e s' hrun).signals 0
    unfold Signal.shown at hsame
    rw [if_pos hfailed.1, if_neg (by simp [hfailed.2])] at hsame
    cases hsame
  · cases hfailed

end Thalyx.Kernel
