/-
What installing an entry, allocating a grant and their refusals do to the machine.

Each primitive gets one lemma for success, which gives the machine it leaves in full, and
one for refusal.  Operations are reasoned about through these and never by unfolding a
primitive.
-/
import ThalyxKernel.Kernel.Accounts
import ThalyxKernel.Kernel.Authority

namespace Thalyx.Kernel

open Function Option

/-! ### What a capability table holds -/

/-- What a slot holds: the generation of the handle that names it, the object and the
grant; nothing, when no handle names it. -/
def CapEntry.held (e : CapEntry) : Option (Nat × ObjRef × Option GrantId) :=
  if e.live then some (e.generation, e.object, e.grant) else none

namespace CapTable

variable {t t' : CapTable} {slot : CapSlot} {object : ObjRef} {grant : Option GrantId}
  {handle : Handle}

/-- The entry an installation writes. -/
def fresh (t : CapTable) (slot : CapSlot) (object : ObjRef) (grant : Option GrantId) : CapEntry where
  generation := (t slot).generation + 1
  live := true
  retired := (t slot).retired
  object := object
  grant := grant

/-- A slot an installation succeeds in. -/
def usable (t : CapTable) (slot : CapSlot) : Prop :=
  (t slot).live = false ∧ (t slot).retired = false ∧ (t slot).generation ≠ u32Max

theorem installAt_of_usable (h : t.usable slot) :
    t.installAt slot object grant =
      (update t slot (t.fresh slot object grant),
        some ⟨slot, (t slot).generation + 1⟩) := by
  obtain ⟨hl, hr, hg⟩ := h
  simp [installAt, fresh, hl, hr, hg]

theorem installAt_of_not_usable (object : ObjRef) (grant : Option GrantId) (h : ¬ t.usable slot) :
    ∃ t', t.installAt slot object grant = (t', none) ∧ ∀ i, (t' i).held = (t i).held := by
  unfold installAt
  by_cases hlr : ((t slot).live || (t slot).retired) = true
  · rw [if_pos hlr]
    exact ⟨t, rfl, fun _ => rfl⟩
  · rw [if_neg hlr]
    obtain ⟨hl, hr⟩ : (t slot).live = false ∧ (t slot).retired = false := by simpa using hlr
    have hg : (t slot).generation = u32Max := by
      by_contra hg
      exact h ⟨hl, hr, hg⟩
    rw [if_pos hg]
    refine ⟨_, rfl, ?_⟩
    intro i
    by_cases hi : i = slot
    · subst hi
      simp [CapEntry.held, hl]
    · simp [hi]

theorem installAt_some (h : t.installAt slot object grant = (t', some handle)) :
    t.usable slot ∧ t' = update t slot (t.fresh slot object grant) ∧
      handle = ⟨slot, (t slot).generation + 1⟩ := by
  by_cases hu : t.usable slot
  · rw [installAt_of_usable hu] at h
    simp only [Prod.mk.injEq, some.injEq] at h
    exact ⟨hu, h.1.symm, h.2.symm⟩
  · obtain ⟨t'', ht'', -⟩ := installAt_of_not_usable object grant hu
    rw [ht''] at h
    simp at h

theorem installAt_none (h : t.installAt slot object grant = (t', none)) (i : CapSlot) :
    (t' i).held = (t i).held := by
  by_cases hu : t.usable slot
  · rw [installAt_of_usable hu] at h
    simp at h
  · obtain ⟨t'', ht'', heq⟩ := installAt_of_not_usable object grant hu
    rw [ht''] at h
    rw [← (Prod.mk.inj h).1]
    exact heq i

theorem install_some (h : t.install object grant = (t', some handle)) :
    ∃ slot, t.freeSlot = some slot ∧ t.usable slot ∧
      t' = update t slot (t.fresh slot object grant) ∧
      handle = ⟨slot, (t slot).generation + 1⟩ := by
  unfold install at h
  split at h
  · rename_i slot hs
    exact ⟨slot, hs, installAt_some h⟩
  · simp at h

theorem install_none (h : t.install object grant = (t', none)) (i : CapSlot) :
    (t' i).held = (t i).held := by
  unfold install at h
  split at h
  · exact installAt_none h i
  · rw [← (Prod.mk.inj h).1]

/-- The slot `place` tries. -/
def target (t : CapTable) : Option CapSlot → Option CapSlot
  | some i => some i
  | none => t.freeSlot

theorem place_some {at? : Option CapSlot} (h : t.place object grant at? = (t', some handle)) :
    ∃ slot, t.target at? = some slot ∧ t.usable slot ∧
      t' = update t slot (t.fresh slot object grant) ∧
      handle = ⟨slot, (t slot).generation + 1⟩ := by
  cases at? with
  | none => exact install_some h
  | some i => exact ⟨i, rfl, installAt_some h⟩

theorem place_none {at? : Option CapSlot} (h : t.place object grant at? = (t', none))
    (i : CapSlot) : (t' i).held = (t i).held := by
  cases at? with
  | none => exact install_none h i
  | some j => exact installAt_none h i

theorem place_of_usable {at? : Option CapSlot} (ht : t.target at? = some slot)
    (hu : t.usable slot) :
    t.place object grant at? =
      (update t slot (t.fresh slot object grant),
        some ⟨slot, (t slot).generation + 1⟩) := by
  cases at? with
  | none =>
    show t.install object grant = _
    unfold install
    rw [show t.freeSlot = some slot from ht]
    exact installAt_of_usable hu
  | some i =>
    obtain rfl : i = slot := some.inj ht
    exact installAt_of_usable hu

end CapTable

namespace Machine

variable {s s' : Machine} {domain : DomainId} {object : ObjRef} {grant : Option GrantId}
  {at? : Option CapSlot} {handle : Handle}

/-! ### Installing an entry -/

/-- The machine with one more entry in a table: charged, and counted by its grant and its
object. -/
def placed (s : Machine) (domain : DomainId) (slot : CapSlot) (object : ObjRef)
    (grant : Option GrantId) : Machine :=
  ({ s with
    scopes := s.scopes.plus (s.scopes.chain (s.domains domain).ownerScope) .metadata 1
    caps := Function.update s.caps domain
      (Function.update (s.caps domain) slot ((s.caps domain).fresh slot object grant)) }
    |>.addGrantRef grant).addRef object.object

/-- **What an installation that goes through leaves.** -/
theorem capInstall_some (h : s.capInstall domain object grant at? = (s', some handle)) :
    ∃ slot, (s.caps domain).target at? = some slot ∧ (s.caps domain).usable slot ∧
      (∃ scopes, s.scopes.reserve (s.domains domain).ownerScope .metadata 1 = some scopes) ∧
      handle = ⟨slot, (s.caps domain slot).generation + 1⟩ ∧
      s' = s.placed domain slot object grant := by
  unfold capInstall at h
  cases hr : s.scopes.reserve (s.domains domain).ownerScope .metadata 1 with
  | none => simp [hr] at h
  | some scopes =>
    rcases hp : (s.caps domain).place object grant at? with ⟨table, _ | handle'⟩
    · simp [hr, hp] at h
    · obtain ⟨slot, htarget, husable, htable, hhandle⟩ := CapTable.place_some hp
      simp only [hr, hp, Prod.mk.injEq, some.injEq] at h
      refine ⟨slot, htarget, husable, ⟨scopes, rfl⟩, ?_, ?_⟩
      · rw [← h.2, hhandle]
      · rw [← h.1, Scopes.reserve_eq hr, htable]
        rfl

theorem capInstall_none (h : s.capInstall domain object grant at? = (s', none)) :
    ∃ table : CapTable, (∀ i, (table i).held = (s.caps domain i).held) ∧
      s' = { s with caps := update s.caps domain table } := by
  unfold capInstall at h
  cases hr : s.scopes.reserve (s.domains domain).ownerScope .metadata 1 with
  | none =>
    simp only [hr, Prod.mk.injEq, and_true] at h
    refine ⟨s.caps domain, fun _ => rfl, ?_⟩
    rw [← h, update_eq_self]
  | some scopes =>
    rcases hp : (s.caps domain).place object grant at? with ⟨table, _ | handle'⟩
    · simp only [hr, hp, Prod.mk.injEq, and_true] at h
      refine ⟨table, CapTable.place_none hp, ?_⟩
      rw [← h, Scopes.release_reserve hr]
    · simp [hr, hp] at h

theorem capInstall_of_room (object : ObjRef) (grant : Option GrantId) {slot : CapSlot}
    (hr : (s.scopes.reserve (s.domains domain).ownerScope .metadata 1).isSome)
    (ht : (s.caps domain).target at? = some slot) (hu : (s.caps domain).usable slot) :
    ∃ s', s.capInstall domain object grant at? =
      (s', some ⟨slot, (s.caps domain slot).generation + 1⟩) := by
  obtain ⟨scopes, hr⟩ := isSome_iff_exists.mp hr
  unfold capInstall
  simp only [hr, CapTable.place_of_usable ht hu]
  exact ⟨_, rfl⟩

/-! ### Allocating a grant -/

section Grants

variable {sponsor : ScopeId} {parent : Option GrantId} {rights : Rights} {deadlineNs : Nat}
  {lifeScope : Option ScopeId} {facet : Nat} {g : GrantId}

/-- The node an allocation writes. -/
def newGrant (s : Machine) (sponsor : ScopeId) (parent : Option GrantId) (object : ObjRef)
    (rights : Rights) (deadlineNs : Nat) (lifeScope : Option ScopeId) (facet : Nat) : Grant where
  used := true
  id := s.nextObjectId
  parent := parent
  depth := s.grantDepth parent
  rights := rights
  deadlineNs := deadlineNs
  lifeScope := lifeScope
  facet := facet
  object := object
  fenced := false
  refs := 0
  children := 0
  sponsor := sponsor

/-- The machine with one more grant node: charged, identified, counted by its parent. -/
def granted (s : Machine) (g : GrantId) (node : Grant) : Machine :=
  { s with
    scopes := s.scopes.plus (s.scopes.chain node.sponsor) .metadata 1
    nextObjectId := s.nextObjectId + 1
    grants := Function.update s.grants g node
    grantHint := g + 1 }.setGrantOf node.parent fun p => { p with children := p.children + 1 }

/-- What a grant allocation needs. -/
structure GrantRoom (s : Machine) (sponsor : ScopeId) (parent : Option GrantId) : Prop where
  depth : s.grantDepth parent ≤ maxDeriveDepth
  charge : (s.scopes.reserve sponsor .metadata 1).isSome
  identity : s.nextObjectId ≠ u64Max
  node : s.freeGrantNode.isSome

/-- **What a grant allocation that goes through leaves.** -/
theorem grantAlloc_some
    (h : s.grantAlloc sponsor parent object rights deadlineNs lifeScope facet = (s', some g)) :
    s.GrantRoom sponsor parent ∧ s.freeGrantNode = some g ∧
      s' = s.granted g (s.newGrant sponsor parent object rights deadlineNs lifeScope facet) := by
  unfold grantAlloc at h
  by_cases hd : s.grantDepth parent > maxDeriveDepth
  · simp [hd] at h
  cases hr : s.scopes.reserve sponsor .metadata 1 with
  | none => simp [hd, hr] at h
  | some scopes =>
    by_cases hid : s.nextObjectId = u64Max
    · simp [hd, hr, nextId, hid] at h
    cases hf : s.freeGrantNode with
    | none =>
      have hf' := hf
      unfold freeGrantNode at hf'
      simp [hd, hr, nextId, hid, freeGrantNode, hf'] at h
    | some g' =>
      have hf' := hf
      unfold freeGrantNode at hf'
      simp only [hd, if_false, hr, nextId, hid, freeGrantNode, hf', Prod.mk.injEq,
        some.injEq] at h
      obtain ⟨hs', rfl⟩ := h
      refine ⟨⟨Nat.le_of_not_lt hd, by simp [hr], hid, by simp [hf]⟩, rfl, ?_⟩
      rw [← hs', Scopes.reserve_eq hr]
      rfl

theorem grantAlloc_none
    (h : s.grantAlloc sponsor parent object rights deadlineNs lifeScope facet = (s', none)) :
    ¬ s.GrantRoom sponsor parent ∧
      (s' = s ∨ s' = { s with nextObjectId := s.nextObjectId + 1 }) := by
  unfold grantAlloc at h
  by_cases hd : s.grantDepth parent > maxDeriveDepth
  · simp only [hd, if_true, Prod.mk.injEq, and_true] at h
    exact ⟨fun room => absurd room.depth (Nat.not_le_of_lt hd), .inl h.symm⟩
  cases hr : s.scopes.reserve sponsor .metadata 1 with
  | none =>
    simp only [hd, if_false, hr, Prod.mk.injEq, and_true] at h
    exact ⟨fun room => by simpa [hr] using room.charge, .inl h.symm⟩
  | some scopes =>
    by_cases hid : s.nextObjectId = u64Max
    · simp only [hd, if_false, hr, nextId, hid, if_true, Prod.mk.injEq, and_true] at h
      refine ⟨fun room => room.identity hid, .inl ?_⟩
      rw [← h, Scopes.release_reserve hr]
      cases s
      simp_all
    cases hf : s.freeGrantNode with
    | none =>
      have hf' := hf
      unfold freeGrantNode at hf'
      simp only [hd, if_false, hr, nextId, hid, freeGrantNode, hf', Prod.mk.injEq,
        and_true] at h
      refine ⟨fun room => by simpa [hf] using room.node, .inr ?_⟩
      rw [← h, Scopes.release_reserve hr]
    | some g' =>
      have hf' := hf
      unfold freeGrantNode at hf'
      simp [hd, hr, nextId, hid, freeGrantNode, hf'] at h

theorem freeGrantNode_unused (h : s.freeGrantNode = some g) : (s.grants g).used = false := by
  have := List.find?_some h
  simpa using this

end Grants

/-! ### Resolving a handle -/

variable {kind : Option ObjKind} {required : Rights} {cap : Resolved}

/-- **What a handle that resolves stands for**: a live entry, its grant in use and of the same
object, the object alive. -/
theorem resolveEntry_ok {now : Option Nat}
    (h : s.resolveEntry domain handle kind required now = .ok cap) :
    ∃ entry, (s.caps domain).lookup handle = some (cap.slot, entry) ∧
      entry.object = cap.object ∧ entry.grant = some cap.grant ∧
      (s.grants cap.grant).used = true ∧ (s.grants cap.grant).object = cap.object ∧
      (s.grants cap.grant).rights = cap.rights ∧ (s.grants cap.grant).facet = cap.facet ∧
      cap.rights &&& required = required ∧
      (∀ k, kind = some k → cap.object.object.kind = k) ∧ s.objectAlive cap.object = true := by
  unfold resolveEntry at h
  cases hl : (s.caps domain).lookup handle with
  | none => simp [hl] at h
  | some found =>
    obtain ⟨slot, entry⟩ := found
    rw [hl] at h
    dsimp only at h
    by_cases hk : (kind.any (· != entry.object.object.kind)) = true
    · simp [hk] at h
    rw [if_neg hk] at h
    cases hg : entry.grant with
    | none => simp [hg] at h
    | some grant =>
      rw [hg] at h
      dsimp only at h
      by_cases hu : (s.grants grant).used = true
      · simp only [hu, Bool.not_true, Bool.false_eq_true, if_false] at h
        split at h
        · cases h
        · cases h
        · cases h
        · by_cases ho : (s.grants grant).object = entry.object
          · simp only [ho, ne_eq, not_true_eq_false, if_false] at h
            by_cases hr : (s.grants grant).rights &&& required = required
            · simp only [hr, not_true_eq_false, if_false] at h
              by_cases ha : s.objectAlive entry.object = true
              · simp only [ha, Bool.not_true, Bool.false_eq_true, if_false,
                  Except.ok.injEq] at h
                subst h
                refine ⟨entry, rfl, rfl, hg, hu, ho, rfl, rfl, hr, ?_, ha⟩
                rintro k rfl
                have hk' : k = entry.object.object.kind := by simpa using hk
                exact hk'.symm
              · simp [ha] at h
            · simp [hr] at h
          · simp [ho] at h
      · simp [hu] at h

theorem resolve_used {now : Nat} (h : s.resolve domain handle kind required now = .ok cap) :
    s.used cap.object.object = true ∧ (s.grants cap.grant).used = true := by
  obtain ⟨entry, -, -, -, hu, -, -, -, -, -, ha⟩ := resolveEntry_ok h
  simp only [objectAlive, Bool.and_eq_true] at ha
  exact ⟨ha.1, hu⟩

end Machine

end Thalyx.Kernel
