/-
What becomes of the grants when none is allocated.

References are taken and given up, lineages are fenced, and nodes nothing refers to are
freed.  Every function that touches the table but for the allocation is a sequence of these.
-/
import ThalyxKernel.Kernel.Change.Ipc

namespace Thalyx.Kernel

open Fallible (final)

/-- The table of grants. -/
abbrev Grants := GrantId → Grant

namespace Grants

/-- A node emptied and taken from its parent's children. -/
def freed (t : Grants) (g : GrantId) : Grants :=
  match (t g).parent with
  | none => Function.update t g .empty
  | some p =>
    Function.update (Function.update t g .empty) p
      { Function.update t g .empty p with
        children := (Function.update t g .empty p).children - 1 }

theorem freed_self (t : Grants) (g : GrantId) : t.freed g g = .empty := by
  unfold freed
  cases (t g).parent with
  | none => exact Function.update_self _ _ _
  | some p =>
    by_cases hp : g = p
    · subst hp
      simp [Grant.empty]
    · simp [hp]

theorem freed_of_ne (t : Grants) {g k : GrantId} (h : k ≠ g) :
    t.freed g k =
      if (t g).parent = some k then { t k with children := (t k).children - 1 } else t k := by
  unfold freed
  cases (t g).parent with
  | none => simp [h]
  | some p =>
    by_cases hkp : k = p
    · subst hkp
      simp [h]
    · simp [h, hkp, Ne.symm hkp]

/-- One change that makes no node. -/
inductive Prune : Grants → Grants → Prop where
  | count {t : Grants} (g : GrantId) (refs : Nat) :
      Prune t (Function.update t g { t g with refs })
  | fence {t : Grants} (g : GrantId) : Prune t (Function.update t g { t g with fenced := true })
  | free {t : Grants} {g : GrantId} (hu : (t g).used = true) (hr : (t g).refs = 0)
      (hc : (t g).children = 0) : Prune t (t.freed g)

/-- Any number of them. -/
def Pruned : Grants → Grants → Prop := Relation.ReflTransGen Prune

namespace Pruned

variable {t t' u : Grants}

theorem refl (t : Grants) : Pruned t t := Relation.ReflTransGen.refl

theorem trans (h : Pruned t t') (h' : Pruned t' u) : Pruned t u := Relation.ReflTransGen.trans h h'

theorem of_prune (h : Prune t t') : Pruned t t' := Relation.ReflTransGen.single h

end Pruned

end Grants

namespace Machine

open Grants

variable (s : Machine)

/-! ### Counting -/

theorem addGrantRef_pruned (grant : Option GrantId) :
    Pruned s.grants (s.addGrantRef grant).grants := by
  cases grant with
  | none => exact .refl _
  | some g => exact .of_prune (.count g _)

theorem dropGrantRef_pruned (grant : Option GrantId) :
    Pruned s.grants (s.dropGrantRef grant).grants := by
  cases grant with
  | none => exact .refl _
  | some g => exact .of_prune (.count g _)

theorem capInstall_pruned (domain : DomainId) (object : ObjRef) (grant : Option GrantId)
    (at? : Option CapSlot) : Pruned s.grants (s.capInstall domain object grant at?).1.grants := by
  rcases h : s.capInstall domain object grant at? with ⟨s', _ | handle⟩
  · obtain ⟨table, -, rfl⟩ := capInstall_none h
    exact .refl _
  · obtain ⟨slot, -, -, -, -, rfl⟩ := capInstall_some h
    exact addGrantRef_pruned _ grant

/-! ### Freeing -/

theorem freeGrant_grants (g : GrantId) : (s.freeGrant g).grants = Grants.freed s.grants g := by
  cases h : (s.grants g).parent <;> simp [freeGrant, Grants.freed, setGrantOf, setGrant, h]

theorem collectGrantUpTo_pruned (n : Nat) (grant : Option GrantId) :
    Pruned s.grants (collectGrantUpTo n s grant).grants := by
  induction n generalizing s grant with
  | zero => exact .refl _
  | succ n ih =>
    cases grant with
    | none => exact .refl _
    | some g =>
      unfold collectGrantUpTo
      dsimp only
      split
      · exact .refl _
      · rename_i h
        simp only [Bool.or_eq_true, Bool.not_eq_true', decide_eq_true_eq, not_or,
          Bool.not_eq_false, Nat.not_lt, Nat.le_zero] at h
        obtain ⟨⟨hu, hr⟩, hc⟩ := h
        have hfree : Pruned s.grants (s.freeGrant g).grants := by
          rw [freeGrant_grants]
          exact .of_prune (.free hu hr hc)
        exact hfree.trans (ih _ _)

theorem collectGrantUpTo_rest (n : Nat) (grant : Option GrantId) :
    ∃ scopes grants hint, collectGrantUpTo n s grant =
        { s with scopes, grants, grantHint := hint } ∧
      ∀ i, (scopes i).place = (s.scopes i).place := by
  induction n generalizing s grant with
  | zero => exact ⟨_, _, _, rfl, fun _ => rfl⟩
  | succ n ih =>
    cases grant with
    | none => exact ⟨_, _, _, rfl, fun _ => rfl⟩
    | some g =>
      unfold collectGrantUpTo
      dsimp only
      split
      · exact ⟨_, _, _, rfl, fun _ => rfl⟩
      · obtain ⟨scopes, grants, hint, heq, hplace⟩ := ih (s.freeGrant g) (s.grants g).parent
        rw [heq]
        exact ⟨scopes, grants, hint, rfl, fun i => (hplace i).trans (release_place _ _ _ _ i)⟩

theorem collectInvocation_grants (i : InvocationId) :
    (s.collectInvocation i).grants = s.grants := by
  unfold collectInvocation
  split <;> rfl

theorem deferMemory_grants (object : ObjRef) : (s.deferMemory object).grants = s.grants := by
  unfold deferMemory
  split
  · split <;> rfl
  · rfl

theorem releaseEntry_pruned (domain : DomainId) (entry : CapEntry) :
    Pruned s.grants (s.releaseEntry domain entry).grants := by
  have hdrop := ({ s with
    scopes := s.scopes.release (s.domains domain).ownerScope .metadata 1 } :
      Machine).dropGrantRef_pruned entry.grant
  unfold releaseEntry collectGrant
  dsimp only
  refine Pruned.trans ?_ (collectGrantUpTo_pruned _ _ _)
  rw [deferMemory_grants]
  split
  · rw [collectInvocation_grants]
    exact hdrop
  · exact hdrop

theorem capReleaseSlot_pruned (domain : DomainId) (slot : CapSlot) :
    Pruned s.grants (s.capReleaseSlot domain slot).1.grants := by
  unfold capReleaseSlot
  split
  · rename_i table entry _
    exact releaseEntry_pruned { s with caps := Function.update s.caps domain table } domain entry
  · exact .refl _

theorem foldl_pruned {ι : Type} {f : Machine → ι → Machine}
    (h : ∀ s i, Pruned s.grants (f s i).grants) (l : List ι) (s : Machine) :
    Pruned s.grants (l.foldl f s).grants := by
  induction l generalizing s with
  | nil => exact .refl _
  | cons i rest ih => exact (h s i).trans (ih _)

theorem releaseSlots_pruned (domain : DomainId) (slots : List CapSlot) :
    Pruned s.grants (s.releaseSlots domain slots).grants :=
  foldl_pruned (fun t slot => t.capReleaseSlot_pruned domain slot) slots s

/-! ### Mappings and fault channels -/

theorem recordMap_pruned (record : MapId) (target : DomainId) (memory : Resolved)
    (object : MemoryId) (request : MapRequest) (before : Nat) :
    Pruned s.grants (s.recordMap record target memory object request before).grants :=
  .of_prune (.count memory.grant _)

theorem announce_grants (object : Option MemoryId) : (s.announce object).grants = s.grants := by
  cases object <;> rfl

theorem uncountMap_grants (object : Option MemoryId) (rights : Rights) :
    (s.uncountMap object rights).grants = s.grants := by
  cases object <;> rfl

theorem withdrawMapDeferring_pruned (m : MapId) :
    Pruned s.grants (s.withdrawMapDeferring m).1.grants := by
  unfold withdrawMapDeferring
  dsimp only
  split
  · exact .refl _
  · have hgrants : ((s.unmapPages (s.maps m)).uncountMap (s.mappedObject (s.maps m))
        (s.maps m).rights).grants = s.grants := uncountMap_grants _ _ _
    generalize (s.unmapPages (s.maps m)).uncountMap (s.mappedObject (s.maps m))
      (s.maps m).rights = t at hgrants ⊢
    generalize hu : (({ (t.setScope (s.maps m).scope fun node =>
      { node with mapsPending := node.mapsPending - 1 }).release (s.maps m).scope .metadata 1 with
        maps := Function.update ((t.setScope (s.maps m).scope fun node =>
          { node with mapsPending := node.mapsPending - 1 }).release (s.maps m).scope .metadata
            1).maps m .empty } : Machine)) = u
    have hsame : u.grants = s.grants := by
      rw [← hu]
      exact hgrants
    have hcollected : Pruned s.grants
        ((u.dropGrantRef (s.maps m).grant).collectGrant (s.maps m).grant).grants := by
      rw [← hsame]
      exact (u.dropGrantRef_pruned _).trans (collectGrantUpTo_pruned _ _ _)
    split
    · rw [announce_grants]
      exact hcollected
    · exact hcollected

theorem openFaultChannel_pruned (target : DomainId) (endpoint : Resolved) (index : EndpointId) :
    Pruned s.grants (s.openFaultChannel target endpoint index).grants :=
  .of_prune (.count endpoint.grant _)

theorem dropFaultChannel_pruned (domain : DomainId) :
    Pruned s.grants (s.dropFaultChannel domain).grants := by
  unfold dropFaultChannel
  split
  · exact .refl _
  · dsimp only
    split
    · split
      · exact dropGrantRef_pruned (s.setEndpoint _ _) _
      · exact s.dropGrantRef_pruned _
    · exact s.dropGrantRef_pruned _

/-! ### Fences -/

theorem fencePass_pruned (t : Grants) : Pruned t (fencePass t) := by
  unfold fencePass
  generalize List.finRange maxGrants = l
  induction l generalizing t with
  | nil => exact .refl _
  | cons g rest ih =>
    rw [List.foldl_cons]
    refine Pruned.trans ?_ (ih _)
    split
    · exact .of_prune (.fence g)
    · exact .refl _

theorem fenceLineage_pruned (t : Grants) (root : GrantId) : Pruned t (fenceLineage t root) := by
  unfold fenceLineage
  have hpasses : ∀ (n : Nat) (t : Grants), Pruned t (fencePass^[n] t) := by
    intro n
    induction n with
    | zero => exact fun t => .refl t
    | succ n ih => exact fun t => (fencePass_pruned t).trans (ih _)
  refine Pruned.trans ?_ (hpasses _ _)
  split
  · exact .of_prune (.fence root)
  · exact .refl _

/-! ### Admitted work -/

theorem writeInvocation_pruned (ctx : Ctx) (endpoint : EndpointId) (receiver : DomainId)
    (i : InvocationId) (m : MessageId) (id : Nat) (waiter : Option ThreadId) (charged : Nat) :
    Pruned s.grants
      (s.writeInvocation ctx endpoint receiver i m id waiter charged).grants :=
  .of_prune (.count ctx.cap.grant _)

theorem claimHandoff_grants (i : ThreadId) (wait : Wait) (status : Status) (aux : Nat) :
    (s.claimHandoff i wait status aux).1.grants = s.grants := by
  unfold claimHandoff
  split <;> rfl

theorem wakeWaiter_grants (i : InvocationId) (code : Status) :
    (s.wakeWaiter i code).grants = s.grants := by
  unfold wakeWaiter
  split
  · rfl
  · rename_i waiter _
    have h := s.claimHandoff_grants waiter (.reply i (s.generation (.invocation i))) code 0
    split
    · rename_i t offer ht
      rw [ht] at h
      exact h
    · rename_i t ht
      rw [ht] at h
      exact h

theorem discount_grants (record : Invocation) : (s.discount record).grants = s.grants := by
  unfold discount
  dsimp only
  split <;> rfl

theorem releaseInvocation_pruned (i : InvocationId) :
    Pruned s.grants (s.releaseInvocation i).grants := by
  unfold releaseInvocation
  dsimp only
  split
  · exact .refl _
  · rw [collectInvocation_grants]
    refine Pruned.trans ?_ (collectGrantUpTo_pruned _ _ _)
    have hpaid : ∀ t : Machine, (if (s.invocations i).chargedBytes ≠ 0 then
        t.release (s.invocations i).originScope .queueBytes (s.invocations i).chargedBytes
        else t).grants = t.grants := by
      intro t
      split <;> rfl
    have hsame := (discount_grants _ (s.invocations i)).trans (hpaid (s.setInvocation i fun slot =>
      { slot with
        chargedBytes := 0
        closureReservedNs := if (s.invocations i).effect = .admitted then 0
          else slot.closureReservedNs
        effect := if (s.invocations i).effect = .admitted then .resolved else slot.effect
        grant := none
        state := .resolved }))
    refine Pruned.trans ?_ (dropGrantRef_pruned _ _)
    rw [hsame]
    exact .refl _

theorem unlink_grants (endpoint : EndpointId) (previous : Option MessageId) (m : MessageId) :
    (s.unlink endpoint previous m).grants = s.grants := by
  cases previous <;> rfl

theorem releaseCarried_pruned (endpoint : EndpointId) (caps : List DeliveredCap) :
    Pruned s.grants (s.releaseCarried endpoint caps).grants := by
  unfold releaseCarried
  split
  · exact .refl _
  · exact releaseSlots_pruned _ _ _

theorem withdrawMessage_pruned (endpoint : EndpointId) (previous : Option MessageId)
    (m : MessageId) (cancel : Cancel) :
    Pruned s.grants (s.withdrawMessage endpoint previous m cancel).grants := by
  have h := (s.unlink endpoint previous m).releaseCarried_pruned endpoint (s.messages m).caps
  rw [unlink_grants] at h
  exact h

variable {pick : Machine → InvocationId → Bool} {cancel : Cancel}
variable {discharge : Machine → InvocationId → Machine}

theorem withdrawFrom_pruned
    (hd : ∀ s i, Pruned s.grants (discharge s i).grants) (endpoint : EndpointId) (n : Nat)
    (previous current : Option MessageId) :
    Pruned s.grants (withdrawFrom pick cancel discharge endpoint n previous current s).grants := by
  induction n generalizing s previous current with
  | zero => exact .refl _
  | succ n ih =>
    cases current with
    | none => exact .refl _
    | some m =>
      unfold withdrawFrom
      dsimp only
      split
      · exact (s.withdrawMessage_pruned endpoint previous m cancel).trans
          ((hd _ _).trans (ih _ _ _))
      · exact ih _ _ _

theorem withdrawAll_pruned (hd : ∀ s i, Pruned s.grants (discharge s i).grants) :
    Pruned s.grants (s.withdrawAll pick cancel discharge).grants := by
  refine foldl_pruned ?_ _ s
  intro t e
  split
  · exact t.withdrawFrom_pruned hd e maxMessages none _
  · exact .refl _

theorem dischargeFenced_pruned (i : InvocationId) :
    Pruned s.grants (s.dischargeFenced i).grants := by
  have h := (s.wakeWaiter i .cancelled).releaseInvocation_pruned i
  rw [wakeWaiter_grants] at h
  exact h

/-! ### Discharge -/

/-- The record of a discharged invocation, until it is collected. -/
def resolvedRecord (record : Invocation) : Invocation :=
  { record with
    chargedBytes := 0
    closureReservedNs := if record.effect = .admitted then 0 else record.closureReservedNs
    effect := if record.effect = .admitted then .resolved else record.effect
    grant := none
    state := .resolved }

theorem discount_core (s : Machine) (record : Invocation) : (s.discount record).core = s.core := by
  unfold discount
  dsimp only
  split
  · exact (setScope_core _ _ rfl).trans ((setScope_core _ _ rfl).trans (setScope_core s _ rfl))
  · exact setScope_core s _ rfl

theorem discount_rest (s : Machine) (record : Invocation) :
    ∃ scopes, s.discount record = { s with scopes } ∧
      ∀ i, (scopes i).place = (s.scopes i).place := by
  have hscopes : ∃ scopes, s.discount record = { s with scopes } := by
    unfold discount
    dsimp only
    split <;> exact ⟨_, rfl⟩
  obtain ⟨scopes, heq⟩ := hscopes
  have hplace := place_of_core (s.discount_core record)
  rw [heq] at hplace
  exact ⟨scopes, heq, hplace⟩

/-- **What a discharge does**: the record is resolved, the grant given up, and then the record
collected if nothing names it. -/
theorem releaseInvocation_eq (s : Machine) {i : InvocationId}
    (h : (s.invocations i).state ≠ .empty) :
    ∃ scopes grants hint, s.releaseInvocation i =
        (({ s with
          scopes, grants, grantHint := hint
          invocations := Function.update s.invocations i (resolvedRecord (s.invocations i)) } :
            Machine).collectInvocation i) ∧
      (∀ j, (scopes j).place = (s.scopes j).place) ∧ Grants.Pruned s.grants grants := by
  have hpruned := s.releaseInvocation_pruned i
  unfold releaseInvocation at hpruned ⊢
  dsimp only at hpruned ⊢
  rw [if_neg h] at hpruned ⊢
  rw [collectInvocation_grants] at hpruned
  generalize ht : (if (s.invocations i).chargedBytes ≠ 0 then
      (s.setInvocation i fun slot =>
        { slot with
          chargedBytes := 0
          closureReservedNs := if (s.invocations i).effect = .admitted then 0
            else slot.closureReservedNs
          effect := if (s.invocations i).effect = .admitted then .resolved else slot.effect
          grant := none
          state := .resolved }).release (s.invocations i).originScope .queueBytes
            (s.invocations i).chargedBytes
      else s.setInvocation i fun slot =>
        { slot with
          chargedBytes := 0
          closureReservedNs := if (s.invocations i).effect = .admitted then 0
            else slot.closureReservedNs
          effect := if (s.invocations i).effect = .admitted then .resolved else slot.effect
          grant := none
          state := .resolved }) = t at hpruned ⊢
  have hpaid : ∃ scopes, t = { s with
        scopes
        invocations := Function.update s.invocations i (resolvedRecord (s.invocations i)) } ∧
      ∀ j, (scopes j).place = (s.scopes j).place := by
    rw [← ht]
    split
    · exact ⟨_, rfl, release_place _ _ _ _⟩
    · exact ⟨_, rfl, fun _ => rfl⟩
  obtain ⟨scopes, heq, hplace⟩ := hpaid
  obtain ⟨scopes', heq', hplace'⟩ := t.discount_rest (s.invocations i)
  obtain ⟨scopes'', grants, hint, heq'', hplace''⟩ :=
    ((t.discount (s.invocations i)).dropGrantRef (s.invocations i).grant).collectGrantUpTo_rest
      maxDeriveDepth (s.invocations i).grant
  unfold collectGrant at hpruned ⊢
  rw [heq''] at hpruned ⊢
  refine ⟨scopes'', grants, hint, ?_, ?_, hpruned⟩
  · rw [heq', heq]
    rfl
  · intro j
    have h1 := hplace'' j
    rw [heq'] at h1
    refine h1.trans ((hplace' j).trans ?_)
    rw [heq]
    exact hplace j

end Machine

end Thalyx.Kernel
