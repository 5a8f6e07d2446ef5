/-
Authority never grows along a derivation.

A node says no more than its parent as long as its parent is still the node it was derived
from, so what has to be seen is that a node with children is never freed: the count a node
keeps of its children is exact.
-/
import ThalyxKernel.Kernel.Change.Step
import ThalyxKernel.Lib.Tally

namespace Thalyx.Kernel

open Function

namespace Grants

variable {t t' : Grants} {g p : GrantId} {node : Grant}

/-! ### What a table of grants may turn into -/

/-- A node is no more than the parent it names: of the same object, with no other right, no
later deadline, one step deeper. -/
structure Below (t : Grants) (node : Grant) (p : GrantId) : Prop where
  used : (t p).used = true
  sameObject : node.object = (t p).object
  fewer : node.rights.within (t p).rights = true
  sooner : (t p).deadlineNs ≠ 0 → node.deadlineNs ≠ 0 ∧ node.deadlineNs ≤ (t p).deadlineNs
  depth : node.depth = (t p).depth + 1

/-- What a node says that the nodes below it are measured by. -/
def claim (node : Grant) : ObjRef × Rights × Nat × Nat :=
  (node.object, node.rights, node.deadlineNs, node.depth)

theorem Below.of_claim {x y : Grant} (h : t.Below x p) (hx : claim y = claim x)
    (hu : (t' p).used = (t p).used) (hp : claim (t' p) = claim (t p)) : t'.Below y p := by
  simp only [claim, Prod.mk.injEq] at hx hp
  obtain ⟨hobject, hrights, hdeadline, hdepth⟩ := hx
  obtain ⟨hobject', hrights', hdeadline', hdepth'⟩ := hp
  refine ⟨hu.trans h.used, ?_, ?_, ?_, ?_⟩
  · rw [hobject, hobject', h.sameObject]
  · rw [hrights, hrights']
    exact h.fewer
  · rw [hdeadline, hdeadline']
    exact h.sooner
  · rw [hdepth, hdepth', h.depth]

/-- The table with one more node, counted by its parent. -/
def added (t : Grants) (g : GrantId) (node : Grant) : Grants :=
  match node.parent with
  | none => Function.update t g node
  | some p =>
    Function.update (Function.update t g node) p
      { Function.update t g node p with children := (Function.update t g node p).children + 1 }

/-- What a node may say when it is made. -/
structure Fits (t : Grants) (node : Grant) : Prop where
  used : node.used = true
  refs : node.refs = 0
  children : node.children = 0
  below : ∀ p, node.parent = some p → t.Below node p
  depth : node.depth ≤ maxDeriveDepth

/-- One change of the table. -/
inductive Turn : Grants → Grants → Prop where
  | same {t t' : Grants} (h : ∀ g, (t' g).shown = (t g).shown) : Turn t t'
  | prune {t t' : Grants} (h : Prune t t') : Turn t t'
  | add {t : Grants} {g : GrantId} {node : Grant} (hu : (t g).used = false)
      (hf : t.Fits node) : Turn t (t.added g node)

/-- Any number of them. -/
def Turned : Grants → Grants → Prop := Relation.ReflTransGen Turn

theorem Turned.refl (t : Grants) : Turned t t := Relation.ReflTransGen.refl

theorem Turned.trans {u : Grants} (h : Turned t t') (h' : Turned t' u) : Turned t u :=
  Relation.ReflTransGen.trans h h'

theorem Turned.of_turn (h : Turn t t') : Turned t t' := Relation.ReflTransGen.single h

theorem Turned.of_pruned (h : Pruned t t') : Turned t t' := by
  induction h with
  | refl => exact .refl t
  | tail _ hp ih => exact ih.trans (.of_turn (.prune hp))

/-! ### The invariant -/

/-- Whether a node is a child of `p`, counted. -/
def childOf (p : GrantId) (_ : GrantId) (node : Grant) : Nat :=
  if node.used = true ∧ node.parent = some p then 1 else 0

/-- The children of a node. -/
def offspring (t : Grants) (p : GrantId) : Nat := tally (childOf p) t

/-- Every node is within its parent and counted by it. -/
structure Lineage (t : Grants) : Prop where
  below : ∀ g p, (t g).used = true → (t g).parent = some p → t.Below (t g) p
  depth : ∀ g, (t g).used = true → (t g).depth ≤ maxDeriveDepth
  children : ∀ p, (t p).used = true → (t p).children = t.offspring p

theorem offspring_pos (hu : (t g).used = true) (hp : (t g).parent = some p) :
    0 < t.offspring p := by
  have h := le_tally (childOf p) t g
  unfold childOf at h
  rw [if_pos ⟨hu, hp⟩] at h
  exact h

theorem Lineage.of_claim (h : t.Lineage) (hu : ∀ g, (t' g).used = (t g).used)
    (hk : ∀ g, (t g).used = true → (t' g).parent = (t g).parent ∧
      (t' g).children = (t g).children ∧ claim (t' g) = claim (t g)) : t'.Lineage := by
  refine ⟨?_, ?_, ?_⟩
  · intro g p hg hp
    rw [hu] at hg
    obtain ⟨hparent, -, hclaim⟩ := hk g hg
    have hbelow := h.below g p hg (hparent ▸ hp)
    exact hbelow.of_claim hclaim (hu p) (hk p hbelow.used).2.2
  · intro g hg
    rw [hu] at hg
    have hdepth : (t' g).depth = (t g).depth := congrArg (·.2.2.2) (hk g hg).2.2
    rw [hdepth]
    exact h.depth g hg
  · intro p hp
    rw [hu] at hp
    rw [(hk p hp).2.1, h.children p hp]
    refine tally_congr fun g => ?_
    unfold childOf
    rw [hu]
    by_cases hg : (t g).used = true
    · rw [(hk g hg).1]
    · simp [hg]

/-! ### Each change keeps it -/

theorem Lineage.of_shown (h : t.Lineage) (hs : ∀ g, (t' g).shown = (t g).shown) : t'.Lineage := by
  have hused : ∀ g, (t' g).used = (t g).used := by
    intro g
    have hg := hs g
    unfold Grant.shown at hg
    cases hu : (t' g).used <;> cases hv : (t g).used <;> simp_all
  refine h.of_claim hused fun g hg => ?_
  have hshown := hs g
  unfold Grant.shown at hshown
  rw [if_pos hg, if_pos ((hused g).trans hg)] at hshown
  rw [Option.some.inj hshown]
  exact ⟨rfl, rfl, rfl⟩

theorem Lineage.freed (h : t.Lineage) (hu : (t g).used = true) (hc : (t g).children = 0) :
    (t.freed g).Lineage := by
  have hbarren : t.offspring g = 0 := by rw [← h.children g hu, hc]
  have hne : ∀ k, (t.freed g k).used = true → k ≠ g := by
    rintro k hk rfl
    rw [freed_self] at hk
    cases hk
  have hsame : ∀ k, k ≠ g → (t.freed g k).used = (t k).used ∧
      (t.freed g k).parent = (t k).parent ∧ claim (t.freed g k) = claim (t k) := by
    intro k hk
    rw [freed_of_ne t hk]
    split <;> exact ⟨rfl, rfl, rfl⟩
  refine ⟨?_, ?_, ?_⟩
  · intro k p hk hp
    obtain ⟨hused, hparent, hclaim⟩ := hsame k (hne k hk)
    rw [hused] at hk
    rw [hparent] at hp
    have hpg : p ≠ g := by
      rintro rfl
      have hpos := offspring_pos hk hp
      omega
    obtain ⟨hused', -, hclaim'⟩ := hsame p hpg
    exact (h.below k p hk hp).of_claim hclaim hused' hclaim'
  · intro k hk
    obtain ⟨hused, -, hclaim⟩ := hsame k (hne k hk)
    have hdepth : (t.freed g k).depth = (t k).depth := congrArg (·.2.2.2) hclaim
    rw [hdepth]
    exact h.depth k (hused ▸ hk)
  · intro p hp
    have hpg := hne p hp
    obtain ⟨hused, -⟩ := hsame p hpg
    have hcount := h.children p (hused ▸ hp)
    have hmoved : (t.freed g).offspring p = tally (childOf p) (Function.update t g .empty) := by
      refine tally_congr fun k => ?_
      by_cases hk : k = g
      · subst hk
        rw [freed_self, update_self]
      · obtain ⟨hused', hparent', -⟩ := hsame k hk
        unfold childOf
        rw [hused', hparent', update_of_ne hk]
    have hsum := tally_update (childOf p) t g .empty
    have hgone : childOf p g Grant.empty = 0 := by simp [childOf, Grant.empty]
    rw [← hmoved, hgone] at hsum
    rw [freed_of_ne t hpg]
    have hoffspring : tally (childOf p) t = t.offspring p := rfl
    by_cases hpar : (t g).parent = some p
    · have hone : childOf p g (t g) = 1 := by simp [childOf, hu, hpar]
      rw [if_pos hpar]
      show (t p).children - 1 = _
      omega
    · have hzero : childOf p g (t g) = 0 := by simp [childOf, hpar]
      rw [if_neg hpar]
      omega

theorem added_self (hf : t.Fits node) (hu : (t g).used = false) : t.added g node g = node := by
  unfold added
  cases hp : node.parent with
  | none => exact update_self _ _ _
  | some p =>
    have hpg : g ≠ p := by
      rintro rfl
      rw [(hf.below g hp).used] at hu
      cases hu
    simp [hpg]

theorem added_of_ne {k : GrantId} (h : k ≠ g) : t.added g node k =
    if node.parent = some k then { t k with children := (t k).children + 1 } else t k := by
  unfold added
  cases hp : node.parent with
  | none => simp [h]
  | some p =>
    by_cases hkp : k = p
    · subst hkp
      simp [h]
    · simp [h, hkp, Ne.symm hkp]

theorem Lineage.added (h : t.Lineage) (hu : (t g).used = false) (hf : t.Fits node) :
    (t.added g node).Lineage := by
  have hself := added_self hf hu
  have hsame : ∀ k, k ≠ g → (t.added g node k).used = (t k).used ∧
      (t.added g node k).parent = (t k).parent ∧ claim (t.added g node k) = claim (t k) := by
    intro k hk
    rw [added_of_ne hk]
    split <;> exact ⟨rfl, rfl, rfl⟩
  -- A parent was in use before, so it is not the new node.
  have hparent : ∀ p, (t p).used = true → p ≠ g := by
    rintro p hp rfl
    rw [hu] at hp
    cases hp
  have hbelow : ∀ {x y : Grant} {p : GrantId}, t.Below x p → claim y = claim x →
      (t.added g node).Below y p := by
    intro x y p hx hclaim
    obtain ⟨hused, -, hclaim'⟩ := hsame p (hparent p hx.used)
    exact hx.of_claim hclaim hused hclaim'
  refine ⟨?_, ?_, ?_⟩
  · intro k p hk hp
    by_cases hkg : k = g
    · subst hkg
      rw [hself] at hp ⊢
      exact hbelow (hf.below p hp) rfl
    · obtain ⟨hused, hpar, hclaim⟩ := hsame k hkg
      rw [hused] at hk
      rw [hpar] at hp
      exact hbelow (h.below k p hk hp) hclaim
  · intro k hk
    by_cases hkg : k = g
    · subst hkg
      rw [hself]
      exact hf.depth
    · obtain ⟨hused, -, hclaim⟩ := hsame k hkg
      have hdepth : (t.added g node k).depth = (t k).depth := congrArg (·.2.2.2) hclaim
      rw [hdepth]
      exact h.depth k (hused ▸ hk)
  · intro p hp
    have hmoved : (t.added g node).offspring p = tally (childOf p) (Function.update t g node) := by
      refine tally_congr fun k => ?_
      by_cases hk : k = g
      · subst hk
        rw [hself, update_self]
      · obtain ⟨hused', hparent', -⟩ := hsame k hk
        unfold childOf
        rw [hused', hparent', update_of_ne hk]
    have hsum := tally_update (childOf p) t g node
    have hnone : childOf p g (t g) = 0 := by simp [childOf, hu]
    rw [← hmoved, hnone] at hsum
    have hoffspring : tally (childOf p) t = t.offspring p := rfl
    by_cases hpg : p = g
    · subst hpg
      -- Nothing was a child of a node not in use.
      have hbarren : t.offspring p = 0 := by
        refine tally_eq_zero fun k => ?_
        unfold childOf
        rw [if_neg]
        rintro ⟨hk, hkp⟩
        exact hparent p (h.below k p hk hkp).used rfl
      have hnot : childOf p p node = 0 := by
        unfold childOf
        rw [if_neg]
        rintro ⟨-, hpp⟩
        exact hparent p (hf.below p hpp).used rfl
      rw [hself, hf.children]
      omega
    · obtain ⟨hused, -⟩ := hsame p hpg
      have hcount := h.children p (hused ▸ hp)
      rw [added_of_ne hpg]
      by_cases hpar : node.parent = some p
      · have hone : childOf p g node = 1 := by simp [childOf, hf.used, hpar]
        rw [if_pos hpar]
        show (t p).children + 1 = _
        omega
      · have hzero : childOf p g node = 0 := by simp [childOf, hpar]
        rw [if_neg hpar]
        omega

theorem Lineage.of_turn (h : t.Lineage) (ht : Turn t t') : t'.Lineage := by
  cases ht with
  | same hs => exact h.of_shown hs
  | prune hp =>
    cases hp with
    | count k refs =>
      refine h.of_claim (fun g => ?_) fun g _ => ?_ <;>
      · by_cases hg : g = k
        · subst hg
          simp [claim]
        · simp [hg]
    | fence k =>
      refine h.of_claim (fun g => ?_) fun g _ => ?_ <;>
      · by_cases hg : g = k
        · subst hg
          simp [claim]
        · simp [hg]
    | free hu _ hc => exact h.freed hu hc
  | add hu hf => exact h.added hu hf

theorem Lineage.of_turned (h : t.Lineage) (ht : Turned t t') : t'.Lineage := by
  induction ht with
  | refl => exact h
  | tail _ ht ih => exact ih.of_turn ht

end Grants

namespace Machine

open Grants (Turned)

variable {s t : Machine}

/-! ### Every change of the machine is one of its table -/

theorem turned_of_core {n : Nat} (h : t.core = { s.core with nextObjectId := n }) :
    Turned s.grants t.grants :=
  .of_turn (.same fun g => congrFun (congrArg Core.grants h) g)

theorem turned_aside (h : t.core = s.core) : Turned s.grants t.grants :=
  .of_turn (.same (grant_of_core h))

theorem granted_grants (s : Machine) (g : GrantId) (node : Grant) :
    (s.granted g node).grants = Grants.added s.grants g node := by
  cases h : node.parent <;> simp [granted, Grants.added, setGrantOf, h]

variable {parent : Option GrantId} {object : ObjRef} {rights : Rights} {deadlineNs : Nat}

theorem grantAlloc_turned {sponsor : ScopeId}
    {lifeScope : Option ScopeId} {facet : Nat} {g : GrantId}
    (h : s.grantAlloc sponsor parent object rights deadlineNs lifeScope facet = (t, some g))
    (hb : ∀ p, parent = some p → Grants.Below s.grants
      (s.newGrant sponsor parent object rights deadlineNs lifeScope facet) p) :
    Turned s.grants t.grants := by
  obtain ⟨room, hfree, rfl⟩ := grantAlloc_some h
  rw [granted_grants]
  exact .of_turn (.add (freeGrantNode_unused hfree) ⟨rfl, rfl, rfl, hb, room.depth⟩)

theorem Derives.below (h : s.Derives object rights deadlineNs parent) (sponsor : ScopeId)
    (lifeScope : Option ScopeId) (facet : Nat) (p : GrantId) (hp : parent = some p) :
    Grants.Below s.grants
      (s.newGrant sponsor parent object rights deadlineNs lifeScope facet) p := by
  subst hp
  cases h with
  | child used sameObject fewer sooner => exact ⟨used, sameObject.symm, fewer, sooner, rfl⟩

variable {receiver : DomainId} {ticket : Handle}

theorem issueTicket_turned {i : InvocationId}
    (h : s.issueTicket receiver i = (t, some ticket)) : Turned s.grants t.grants := by
  obtain ⟨g, u, v, hg, hc, rfl⟩ := Path.issueTicket_some h
  have hinstalled := u.capInstall_pruned receiver ⟨.invocation i, s.generation (.invocation i)⟩
    (some g) none
  rw [hc] at hinstalled
  have hgranted : Turned s.grants u.grants := grantAlloc_turned hg fun p hp => by cases hp
  exact hgranted.trans (.of_pruned hinstalled)

theorem writeInvocation_turned (s : Machine) (ctx : Ctx) (e : EndpointId) (receiver : DomainId)
    (i : InvocationId) (m : MessageId) (id : Nat) (waiter : Option ThreadId) (charged : Nat) :
    Turned s.grants (s.writeInvocation ctx e receiver i m id waiter charged).grants :=
  .of_pruned (s.writeInvocation_pruned ctx e receiver i m id waiter charged)

theorem enqueue_grants (s : Machine) (e : EndpointId) (m : MessageId) (i : InvocationId)
    (kind : MessageKind) (payload : List UInt8) (caps : List DeliveredCap) (charged : Nat) :
    (s.enqueue e m i kind payload caps charged).grants = s.grants := by
  unfold enqueue
  dsimp only
  split <;> rfl

theorem publish_turned (s : Machine) (ctx : Ctx) (e : EndpointId) (receiver : DomainId)
    (request : SendRequest) (kind : MessageKind) (waiter : Option ThreadId) (i : InvocationId)
    (m : MessageId) (id charged : Nat) (installed : List DeliveredCap) :
    Turned s.grants
      (s.publish ctx e receiver request kind waiter i m id charged installed).grants := by
  have hwritten := s.writeInvocation_turned ctx e receiver i m id waiter charged
  obtain ⟨u, hu, hends⟩ := s.publish_cases ctx e receiver request kind waiter i m id charged installed
  refine (hwritten.trans (turned_aside hu)).trans ?_
  rcases hends with ⟨holder, t, ticket, -, -, ht, hcore⟩ | ⟨v, n, -, hv, hcore⟩
  · have hmarked := turned_aside hcore
    exact (issueTicket_turned ht).trans hmarked
  · refine (turned_of_core hv).trans (Turned.trans ?_ (turned_aside hcore))
    rw [enqueue_grants]
    exact .refl _

theorem deliver_turned {e : EndpointId} {m : MessageId}
    (h : s.deliver receiver e m = (t, .ok ticket)) : Turned s.grants t.grants := by
  unfold deliver at h
  dsimp only at h
  split at h
  · cases (Prod.mk.inj h).2
  · split at h
    · cases (Prod.mk.inj h).2
    · rename_i u ticket' hu
      have hissued : Turned s.grants u.grants := issueTicket_turned hu
      rw [← (Prod.mk.inj h).1]
      exact hissued

theorem restate_turned {p : Scopes → ScopeId → Bool} (hp : Settled p) {state : ScopeState}
    (hstate : state ≠ .empty) :
    Turned s.grants (restate p state (List.finRange maxScopes) s).grants := by
  obtain ⟨-, ⟨fenced, heq⟩, -⟩ := restate_spec hp hstate (List.nodup_finRange maxScopes) s
  rw [heq]
  exact .refl _

end Machine

open Machine Grants

/-- **What a change makes of the table of grants.** -/
theorem Change.turned {drops : Machine → EndpointId → Prop} {s t : Machine} (h : Change drops s t) :
    Turned s.grants t.grants := by
  cases h with
  | aside h => exact turned_aside h
  | identity h _ => exact turned_of_core h
  | @capInstall _ domain object g at? handle h _ _ =>
    have hpruned := s.capInstall_pruned domain object (some g) at?
    rw [h] at hpruned
    exact .of_pruned hpruned
  | @capRelease domain slot _ => exact .of_pruned (s.capReleaseSlot_pruned domain slot)
  | grantAlloc h hp => exact grantAlloc_turned h (hp.below _ _ _)
  | fenceLineage root =>
    have hpruned := fenceLineage_pruned s.grants root
    generalize Kernel.fenceLineage s.grants root = grants at hpruned ⊢
    exact .of_pruned hpruned
  | placeBarrier root =>
    rw [placeBarrier_eq]
    exact restate_turned (settled_openWithin root) (by decide)
  | advanceQuiescence =>
    rw [advanceQuiescence_eq]
    exact restate_turned settled_drained (by decide)
  | retireScopes root =>
    rw [retireScopes_eq]
    exact restate_turned (settled_usedWithin root) (by decide)
  | @openFaultChannel i endpoint e _ _ _ _ => exact .of_pruned (s.openFaultChannel_pruned i endpoint e)
  | dropFaultChannel i => exact .of_pruned (s.dropFaultChannel_pruned i)
  | @recordMap record target memory object request before _ _ =>
    exact .of_pruned (s.recordMap_pruned record target memory object request before)
  | withdrawMap m => exact .of_pruned (s.withdrawMapDeferring_pruned m)
  | publish _ => exact s.counted.publish_turned _ _ _ _ _ _ _ _ _ _ _
  | deliver h _ _ => exact deliver_turned h
  | discharge _ => exact .of_pruned (s.releaseInvocation_pruned _)
  | withdrawUndelivered root =>
    exact .of_pruned (withdrawAll_pruned s fun s i => s.dischargeFenced_pruned i)
  | withdrawOrigin domain =>
    exact .of_pruned (withdrawAll_pruned s fun s i => s.releaseInvocation_pruned i)
  | _ => exact .refl _

theorem reachable_lineage {s : Machine} (h : kernel.Reachable s) : Lineage s.grants := by
  refine (reachable_invariant (I := fun s => Lineage s.grants) ?_ ?_ h).2
  · intro hw
    refine ⟨?_, ?_, ?_⟩
    · intro g p hg
      cases hg
    · intro g hg
      cases hg
    · intro g hg
      cases hg
  · intro s t _ hs hc
    exact hs.of_turned hc.turned

/-- **Authority never grows along a derivation**: whatever operations have run, a grant in use
that has a parent is no more than its parent. -/
theorem authority_never_grows {s : Machine} (h : kernel.Reachable s) {g p : GrantId}
    (hg : (s.grants g).used = true) (hp : (s.grants g).parent = some p) :
    (s.grants p).used = true ∧ (s.grants g).object = (s.grants p).object ∧
      (s.grants g).rights.within (s.grants p).rights = true ∧
      ((s.grants p).deadlineNs ≠ 0 →
        (s.grants g).deadlineNs ≠ 0 ∧ (s.grants g).deadlineNs ≤ (s.grants p).deadlineNs) ∧
      (s.grants g).depth = (s.grants p).depth + 1 ∧ (s.grants g).depth ≤ maxDeriveDepth := by
  have hlineage := reachable_lineage h
  have hbelow := hlineage.below g p hg hp
  exact ⟨hbelow.used, hbelow.sameObject, hbelow.fewer, hbelow.sooner, hbelow.depth,
    hlineage.depth g hg⟩

/-- A run in which the first domain derives a capability from the one it has for itself. -/
def derivation : List Step :=
  [.first 1 (.create (.derive ⟨Right.inspect, 0, .zero, 0⟩))]

theorem authority_never_grows_derivation : ∃ (s : Machine) (g p : GrantId),
    kernel.Reachable s ∧ (s.grants g).used = true ∧ (s.grants g).parent = some p ∧
      (s.grants g).rights.within (s.grants p).rights = true := by
  obtain ⟨s, hreachable, hs⟩ := small_reaches [] derivation
    (fun s => (s.grants 3).used && (s.grants 3).parent == some 0) (by decide) (by decide +kernel)
  simp only [Bool.and_eq_true, beq_iff_eq] at hs
  exact ⟨s, 3, 0, hreachable, hs.1, hs.2, (authority_never_grows hreachable hs.1 hs.2).2.2.1⟩

end Thalyx.Kernel
