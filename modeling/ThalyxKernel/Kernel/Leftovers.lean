/-
What an operation that fails leaves behind.

`SameTables` compares two machines by what their tables hold: the objects in use with
their reference counts, the grants in use, the capabilities a handle names, the threads,
the charges of every scope and the number of frames that can be handed out.  It does not
look at slots nothing uses, at identities drawn and not used, or at where a search starts.

`LeavesNothing s₀ m s` says that `m`, begun in `s`, fails only with the tables of `s₀`.
The lemmas below push it through an operation step by step: a check that is made before
anything changes turns into an implication.
-/
import ThalyxKernel.Kernel.Building
import ThalyxKernel.Kernel.Create
import ThalyxKernel.Kernel.Entries
import ThalyxKernel.Lib.Fallible

namespace Thalyx.Kernel

open Fallible Machine

/-! ### What the tables hold -/

def Scope.shown (x : Scope) : Option Scope := if x.state = .empty then none else some x

def Domain.shown (x : Domain) : Option Domain := if x.state = .empty then none else some x

def MemoryObject.shown (x : MemoryObject) : Option MemoryObject :=
  if x.state = .empty then none else some x

def Endpoint.shown (x : Endpoint) : Option Endpoint := if x.used then some x else none

def Signal.shown (x : Signal) : Option Signal := if x.used then some x else none

def Timer.shown (x : Timer) : Option Timer := if x.used then some x else none

def Grant.shown (x : Grant) : Option Grant := if x.used then some x else none

/-- Two machines whose tables hold the same. -/
structure SameTables (s s' : Machine) : Prop where
  scopes : ∀ i, (s'.scopes i).shown = (s.scopes i).shown
  domains : ∀ i, (s'.domains i).shown = (s.domains i).shown
  memories : ∀ i, (s'.memories i).shown = (s.memories i).shown
  endpoints : ∀ i, (s'.endpoints i).shown = (s.endpoints i).shown
  signals : ∀ i, (s'.signals i).shown = (s.signals i).shown
  timers : ∀ i, (s'.timers i).shown = (s.timers i).shown
  invocations : s'.invocations = s.invocations
  messages : s'.messages = s.messages
  logs : s'.logs = s.logs
  devices : s'.devices = s.devices
  maps : s'.maps = s.maps
  grants : ∀ g, (s'.grants g).shown = (s.grants g).shown
  caps : ∀ d, s.used (.domain d) = true → ∀ i, (s'.caps d i).held = (s.caps d i).held
  counts : ∀ o, s.used o = true → s'.refs o = s.refs o ∧ s'.generation o = s.generation o
  threads : s'.threads = s.threads
  frames : s'.availableFrames = s.availableFrames

theorem SameTables.refl (s : Machine) : SameTables s s where
  scopes _ := rfl
  domains _ := rfl
  memories _ := rfl
  endpoints _ := rfl
  signals _ := rfl
  timers _ := rfl
  invocations := rfl
  messages := rfl
  logs := rfl
  devices := rfl
  maps := rfl
  grants _ := rfl
  caps _ _ _ := rfl
  counts _ _ := ⟨rfl, rfl⟩
  threads := rfl
  frames := rfl

variable {s s' : Machine}

theorem SameTables.endpoint_eq (h : SameTables s s') {i : EndpointId}
    (hi : (s.endpoints i).used = true) : s'.endpoints i = s.endpoints i := by
  have := h.endpoints i
  unfold Endpoint.shown at this
  rw [if_pos hi] at this
  split at this
  · exact Option.some.inj this
  · cases this

theorem SameTables.scope_eq (h : SameTables s s') {i : ScopeId}
    (hi : (s.scopes i).state ≠ .empty) : s'.scopes i = s.scopes i := by
  have := h.scopes i
  unfold Scope.shown at this
  rw [if_neg hi] at this
  split at this
  · cases this
  · exact Option.some.inj this

/-- `m`, begun in `s`, fails only with the tables of `s₀`. -/
def LeavesNothing {ε α : Type} (s₀ : Machine) (m : EStateM ε Machine α) (s : Machine) : Prop :=
  ∀ e s', m s = .error e s' → SameTables s₀ s'

namespace LeavesNothing

variable {ε α β : Type} {s₀ s t : Machine} {status : ε}

/-! ### Steps that change nothing -/

variable {x : EStateM ε Machine α} {f : α → EStateM ε Machine β}

theorem bind_iff :
    LeavesNothing s₀ (x >>= f) s ↔
      LeavesNothing s₀ x s ∧ ∀ a t, x s = .ok a t → LeavesNothing s₀ (f a) t := by
  constructor
  · intro h
    refine ⟨fun e s' he => h e s' (bind_error_iff.mpr (Or.inl he)), ?_⟩
    intro a t hx e s' he
    exact h e s' (bind_error_iff.mpr (Or.inr ⟨a, t, hx, he⟩))
  · rintro ⟨hx, hf⟩ e s' he
    obtain he | ⟨a, t, ha, he⟩ := bind_error_iff.mp he
    · exact hx e s' he
    · exact hf a t ha e s' he

theorem bind_of_ok {a : α} (h : x s = .ok a t) :
    LeavesNothing s₀ (x >>= f) s ↔ LeavesNothing s₀ (f a) t := by
  unfold LeavesNothing
  rw [Fallible.bind_of_ok h]

theorem bind_of_error {e : ε} (h : x s = .error e s) : LeavesNothing s (x >>= f) s := by
  intro e' s' he
  rw [Fallible.bind_of_error h] at he
  obtain ⟨-, rfl⟩ := EStateM.Result.error.inj he
  exact .refl s

theorem of_ok {a : α} (h : x s = .ok a t) : LeavesNothing s₀ x s := by
  intro e s' he
  rw [h] at he
  cases he

theorem throw_same : LeavesNothing s (throw status : EStateM ε Machine α) s := by
  intro e s' he
  obtain ⟨-, rfl⟩ := EStateM.Result.error.inj he
  exact .refl s

theorem require_iff {p : Machine → Bool} {f : Unit → EStateM ε Machine β} :
    LeavesNothing s (Op.require p status >>= f) s ↔
      (p s = true → LeavesNothing s (f ()) s) := by
  by_cases hp : p s = true
  · have : Op.require p status s = .ok () s := by simp [Op.require, hp]
    simp only [bind_of_ok this, hp, forall_const]
  · have : Op.require p status s = .error status s := by simp [Op.require, hp]
    simp [hp, bind_of_error this]

theorem ask_iff {g : Machine → Except ε α} :
    LeavesNothing s (Op.ask g >>= f) s ↔ ∀ a, g s = .ok a → LeavesNothing s (f a) s := by
  cases hg : g s with
  | ok a =>
    have : Op.ask g s = .ok a s := by simp [Op.ask, hg]
    simp [bind_of_ok this]
  | error e =>
    have : Op.ask g s = .error e s := by simp [Op.ask, hg]
    simp [bind_of_error this]

theorem find_iff {g : Machine → Option α} :
    LeavesNothing s (Op.orElse (fun s => (s, g s)) status >>= f) s ↔
      ∀ a, g s = some a → LeavesNothing s (f a) s := by
  cases hg : g s with
  | some a =>
    have : Op.orElse (fun s => (s, g s)) status s = .ok a s := by simp [Op.orElse, hg]
    simp [bind_of_ok this]
  | none =>
    have : Op.orElse (fun s => (s, g s)) status s = .error status s := by
      simp [Op.orElse, hg]
    simp [bind_of_error this]

theorem get_iff {f : Machine → EStateM ε Machine β} :
    LeavesNothing s₀ (get >>= f) s ↔ LeavesNothing s₀ (f s) s :=
  bind_of_ok (get_run s)

theorem modify_iff {g : Machine → Machine} {f : PUnit → EStateM ε Machine β} :
    LeavesNothing s₀ (modify g >>= f) s ↔ LeavesNothing s₀ (f ⟨⟩) (g s) :=
  bind_of_ok (modify_run g s)

theorem reserve_iff {scope : ScopeId} {resource : Resource} {amount : Nat}
    {undo : Machine → Machine} {f : Unit → EStateM ε Machine β}
    (hundo : t.scopes.reserve scope resource amount = none → SameTables s₀ (undo t)) :
    LeavesNothing s₀ (Op.reserve scope resource amount undo status >>= f) t ↔
      ∀ scopes, t.scopes.reserve scope resource amount = some scopes →
        LeavesNothing s₀ (f ()) { t with scopes } := by
  cases hr : t.scopes.reserve scope resource amount with
  | none =>
    have he : Op.reserve scope resource amount undo status t = .error status (undo t) := by
      simp [Op.reserve, hr]
    simp only [reduceCtorEq, false_imp_iff, implies_true, iff_true]
    intro e s' h
    rw [Fallible.bind_of_error he] at h
    obtain ⟨-, rfl⟩ := EStateM.Result.error.inj h
    exact hundo hr
  | some scopes =>
    have hok : Op.reserve scope resource amount undo status t = .ok () { t with scopes } := by
      simp [Op.reserve, hr]
    rw [bind_of_ok hok]
    simp

theorem bind_must {e : ε} {s' : Machine} (he : x t = .error e s')
    (hdirty : ¬ SameTables s₀ s') : ¬ LeavesNothing s₀ (x >>= f) t :=
  fun h => hdirty (h e s' (Fallible.bind_of_error he))

theorem pure_iff {a : α} : LeavesNothing s₀ (pure a >>= f) s ↔ LeavesNothing s₀ (f a) s :=
  bind_of_ok (pure_run a s)

end LeavesNothing

/-! ### Deadlines -/

/-- A deadline asked for that the parent's does not rule out. -/
def deadlineFits (requested parent : Nat) : Prop :=
  requested = 0 ∨ parent = 0 ∨ requested ≤ parent

theorem LeavesNothing.deadline_iff {β : Type} {requested parent : Nat} {f : Nat → Op β} :
    LeavesNothing s (Op.deadline requested parent >>= f) s ↔
      (deadlineFits requested parent →
        LeavesNothing s (f (if requested = 0 then parent else requested)) s) := by
  unfold Op.deadline deadlineFits
  by_cases hz : requested = 0
  · simp only [hz, if_true, true_or, true_implies]
    exact pure_iff
  · simp only [hz, if_false, false_or]
    by_cases hlt : parent ≠ 0 ∧ requested > parent
    · rw [if_pos hlt]
      have hno : ¬ (parent = 0 ∨ requested ≤ parent) := by omega
      simp only [hno, false_imp_iff, iff_true]
      exact bind_of_error (throw_run _ s)
    · rw [if_neg hlt]
      have hyes : parent = 0 ∨ requested ≤ parent := by omega
      simp only [hyes, true_implies]
      exact pure_iff

/-! ### The unit and the identity of a new object -/

/-- What an object's unit of metadata and its identity need. -/
structure Machine.IdentityRoom (s : Machine) (sponsor : ScopeId) : Prop where
  charge : (s.scopes.reserve sponsor .metadata 1).isSome
  identity : s.nextObjectId ≠ u64Max

/-- The machine with one unit charged to `sponsor` and one identity drawn. -/
def Machine.charged (s : Machine) (sponsor : ScopeId) : Machine :=
  { s with
    scopes := s.scopes.plus (s.scopes.chain sponsor) .metadata 1
    nextObjectId := s.nextObjectId + 1 }

namespace Op

variable {s : Machine} {sponsor : ScopeId}

theorem identity_of_room (room : s.IdentityRoom sponsor) :
    identity sponsor s = .ok s.nextObjectId (s.charged sponsor) := by
  obtain ⟨scopes, hr⟩ := Option.isSome_iff_exists.mp room.charge
  have hreserve : reserve sponsor .metadata 1 id Status.limitExhausted s = .ok () { s with scopes } := by
    simp [reserve, hr]
  unfold identity
  rw [Fallible.bind_of_ok hreserve]
  simp [nextId, Machine.nextId, room.identity, Machine.charged, Scopes.reserve_eq hr]

theorem identity_of_no_room (h : ¬ s.IdentityRoom sponsor) :
    identity sponsor s = .error Status.limitExhausted s := by
  unfold identity
  cases hr : s.scopes.reserve sponsor .metadata 1 with
  | none =>
    have hreserve : reserve sponsor .metadata 1 id Status.limitExhausted s =
        .error Status.limitExhausted s := by
      simp [reserve, hr]
    rw [Fallible.bind_of_error hreserve]
  | some scopes =>
    have hreserve : reserve sponsor .metadata 1 id Status.limitExhausted s =
        .ok () { s with scopes } := by
      simp [reserve, hr]
    have hid : s.nextObjectId = u64Max := by
      by_contra hid
      exact h ⟨by simp [hr], hid⟩
    have hnone : ({ s with scopes } : Machine).nextId = none := by simp [Machine.nextId, hid]
    rw [Fallible.bind_of_ok hreserve]
    simp [nextId, hnone, Machine.release, Scopes.release_reserve hr]

end Op

theorem LeavesNothing.identity_iff {β : Type} {sponsor : ScopeId} {f : Nat → Op β} :
    LeavesNothing s (Op.identity sponsor >>= f) s ↔
      (s.IdentityRoom sponsor → LeavesNothing s (f s.nextObjectId) (s.charged sponsor)) := by
  by_cases room : s.IdentityRoom sponsor
  · simp only [bind_of_ok (Op.identity_of_room room), room, forall_const]
  · simp only [bind_of_error (Op.identity_of_no_room room), room, false_imp_iff]

/-! ### A grant and an entry for it

The last two steps of most creations.  When either is refused, everything the operation
made before them is still there.
-/

/-- The objects of two machines are the same, whatever has been charged for. -/
structure SameObjects (s s' : Machine) : Prop where
  scopes : ∀ i, (s'.scopes i).state = (s.scopes i).state
  domains : s'.domains = s.domains
  memories : s'.memories = s.memories
  endpoints : s'.endpoints = s.endpoints
  signals : s'.signals = s.signals
  timers : s'.timers = s.timers
  grants : ∀ g, (s.grants g).used = true → (s'.grants g).used = true

theorem SameObjects.trans {t u : Machine} (h : SameObjects s t) (h' : SameObjects t u) :
    SameObjects s u where
  scopes i := (h'.scopes i).trans (h.scopes i)
  domains := h'.domains.trans h.domains
  memories := h'.memories.trans h.memories
  endpoints := h'.endpoints.trans h.endpoints
  signals := h'.signals.trans h.signals
  timers := h'.timers.trans h.timers
  grants g hg := h'.grants g (h.grants g hg)

namespace Machine

variable {s s' : Machine} {domain : DomainId} {object : ObjRef} {grant : Option GrantId}
  {at? : Option CapSlot} {handle : Handle} {sponsor : ScopeId} {parent : Option GrantId}
  {rights : Rights} {deadlineNs : Nat} {lifeScope : Option ScopeId} {facet : Nat} {g : GrantId}

/-- What an entry in a domain's table needs. -/
structure EntryRoom (s : Machine) (domain : DomainId) (at? : Option CapSlot) : Prop where
  charge : (s.scopes.reserve (s.domains domain).ownerScope .metadata 1).isSome
  slot : ∃ slot, (s.caps domain).target at? = some slot ∧ (s.caps domain).usable slot

theorem capInstall_of_entryRoom (object : ObjRef) (grant : Option GrantId) (room : s.EntryRoom domain at?) :
    ∃ s' handle, s.capInstall domain object grant at? = (s', some handle) := by
  obtain ⟨slot, ht, hu⟩ := room.slot
  obtain ⟨s', h⟩ := capInstall_of_room object grant room.charge ht hu
  exact ⟨s', _, h⟩

theorem entryRoom_of_capInstall (h : s.capInstall domain object grant at? = (s', some handle)) :
    s.EntryRoom domain at? := by
  obtain ⟨slot, ht, hu, ⟨scopes, hr⟩, -, -⟩ := capInstall_some h
  exact ⟨by simp [hr], slot, ht, hu⟩

/-- What a grant and an entry for it need: room for the node, and room for the entry once
the node is paid for. -/
structure PublishRoom (s : Machine) (sponsor : ScopeId) (parent : Option GrantId)
    (domain : DomainId) (at? : Option CapSlot) : Prop where
  grant : s.GrantRoom sponsor parent
  entry : { s with scopes := s.scopes.plus (s.scopes.chain sponsor) .metadata 1 }.EntryRoom
    domain at?

/-- Two machines that differ in nothing the room for a grant and an entry in `domain`
depends on. -/
structure SameRoom (domain : DomainId) (s s' : Machine) : Prop where
  scopes : Scopes.Alike .metadata s.scopes s'.scopes
  owner : (s'.domains domain).ownerScope = (s.domains domain).ownerScope
  caps : s'.caps domain = s.caps domain
  grants : s'.grants = s.grants
  grantHint : s'.grantHint = s.grantHint
  nextObjectId : s'.nextObjectId = s.nextObjectId

theorem SameRoom.publishRoom (h : SameRoom domain s s') :
    s'.PublishRoom sponsor parent domain at? ↔ s.PublishRoom sponsor parent domain at? := by
  have hchain : s'.scopes.chain sponsor = s.scopes.chain sponsor :=
    Scopes.chain_congr h.scopes.parent sponsor
  have hdepth : s'.grantDepth parent = s.grantDepth parent := by
    cases parent <;> simp [grantDepth, h.grants]
  have hnode : s'.freeGrantNode = s.freeGrantNode := by
    unfold freeGrantNode
    rw [h.grants, h.grantHint]
  have hplus := h.scopes.plus (s.scopes.chain sponsor) 1
  constructor
  · rintro ⟨⟨hd, hc, hi, hn⟩, ⟨he, hslot⟩⟩
    refine ⟨⟨hdepth ▸ hd, ?_, h.nextObjectId ▸ hi, hnode ▸ hn⟩, ⟨?_, h.caps ▸ hslot⟩⟩
    · rw [← h.scopes.reserve_isSome]
      exact hc
    · rw [← hplus.reserve_isSome, ← hchain, ← h.owner]
      exact he
  · rintro ⟨⟨hd, hc, hi, hn⟩, ⟨he, hslot⟩⟩
    refine ⟨⟨hdepth.symm ▸ hd, ?_, h.nextObjectId.symm ▸ hi, hnode.symm ▸ hn⟩,
      ⟨?_, h.caps.symm ▸ hslot⟩⟩
    · rw [h.scopes.reserve_isSome]
      exact hc
    · show ((s'.scopes.plus (s'.scopes.chain sponsor) .metadata 1).reserve
        (s'.domains domain).ownerScope .metadata 1).isSome
      rw [hchain, h.owner, hplus.reserve_isSome]
      exact he

theorem granted_entryRoom {node : Grant} :
    (s.granted g node).EntryRoom domain at? ↔
      { s with scopes := s.scopes.plus (s.scopes.chain node.sponsor) .metadata 1 }.EntryRoom
        domain at? :=
  ⟨fun h => ⟨h.charge, h.slot⟩, fun h => ⟨h.charge, h.slot⟩⟩

theorem sameObjects_granted {node : Grant} (hn : node.used = true) :
    SameObjects s (s.granted g node) := by
  refine ⟨fun _ => rfl, rfl, rfl, rfl, rfl, rfl, ?_⟩
  intro i hi
  have hupd : (Function.update s.grants g node i).used = true := by
    by_cases h : i = g <;> simp [h, hn, hi]
  unfold granted setGrantOf
  cases node.parent with
  | none => exact hupd
  | some p =>
    by_cases hip : i = p
    · subst hip
      simpa using hupd
    · simpa [hip] using hupd

theorem sameObjects_of_capInstall_none
    (h : s.capInstall domain object grant at? = (s', none)) : SameObjects s s' := by
  obtain ⟨table, -, rfl⟩ := capInstall_none h
  exact ⟨fun _ => rfl, rfl, rfl, rfl, rfl, rfl, fun _ hi => hi⟩

end Machine

namespace LeavesNothing

variable {s₀ s : Machine} {domain : DomainId} {object : ObjRef} {at? : Option CapSlot}
  {sponsor : ScopeId} {parent : Option GrantId} {rights : Rights} {deadlineNs : Nat}
  {lifeScope : Option ScopeId} {facet : Nat} {grant : GrantId}

theorem capInstall_iff (hmade : ∀ s', SameObjects s s' → ¬ SameTables s₀ s') :
    LeavesNothing s₀
        (Op.orElse (fun t => t.capInstall domain object (some grant) at?) Status.limitExhausted) s ↔
      s.EntryRoom domain at? := by
  constructor
  · intro h
    rcases hc : s.capInstall domain object (some grant) at? with ⟨s', _ | handle⟩
    · have he : Op.orElse (fun t => t.capInstall domain object (some grant) at?)
          Status.limitExhausted s = .error Status.limitExhausted s' := by
        simp [Op.orElse, hc]
      exact absurd (h _ _ he) (hmade s' (sameObjects_of_capInstall_none hc))
    · exact entryRoom_of_capInstall hc
  · intro room
    obtain ⟨s', handle, hc⟩ :=
      capInstall_of_entryRoom object (some grant) room
    exact of_ok (a := handle) (t := s') (by simp [Op.orElse, hc])

/-- **A grant and an entry begun after something was made must both go through.** -/
theorem grant_entry_iff (hmade : ∀ s', SameObjects s s' → ¬ SameTables s₀ s') :
    LeavesNothing s₀
        (Op.orElse (fun t => t.grantAlloc sponsor parent object rights deadlineNs lifeScope facet)
            Status.limitExhausted >>= fun grant =>
          Op.orElse (fun t => t.capInstall domain object (some grant) at?) Status.limitExhausted) s ↔
      s.PublishRoom sponsor parent domain at? := by
  rcases hg : s.grantAlloc sponsor parent object rights deadlineNs lifeScope facet with
    ⟨s', _ | g⟩
  · obtain ⟨noroom, hs'⟩ := grantAlloc_none hg
    have he : Op.orElse (fun t => t.grantAlloc sponsor parent object rights deadlineNs
        lifeScope facet) Status.limitExhausted s = .error Status.limitExhausted s' := by
      simp [Op.orElse, hg]
    have hsame : SameObjects s s' := by
      obtain rfl | rfl := hs' <;> exact ⟨fun _ => rfl, rfl, rfl, rfl, rfl, rfl, fun _ h => h⟩
    constructor
    · intro h
      exact absurd (h _ _ (Fallible.bind_of_error he)) (hmade s' hsame)
    · intro room
      exact absurd room.grant noroom
  · obtain ⟨room, -, hs'⟩ := grantAlloc_some hg
    have hok : Op.orElse (fun t => t.grantAlloc sponsor parent object rights deadlineNs
        lifeScope facet) Status.limitExhausted s = .ok g s' := by
      simp [Op.orElse, hg]
    subst hs'
    rw [bind_of_ok hok, capInstall_iff]
    · rw [granted_entryRoom]
      exact ⟨fun h => ⟨room, h⟩, fun h => h.entry⟩
    · intro s' h
      exact hmade s' ((sameObjects_granted rfl).trans h)

theorem publish_iff (hmade : ∀ s', SameObjects s s' → ¬ SameTables s₀ s') :
    LeavesNothing s₀ (Op.publish domain object rights) s ↔
      s.PublishRoom (s.domains domain).ownerScope none domain none := by
  unfold Op.publish
  rw [get_iff]
  exact grant_entry_iff hmade

end LeavesNothing

/-! ### Entering an operation -/

namespace LeavesNothing

variable {α : Type} {s : Machine} {caller : Caller} {rights : Rights}

theorem enter_iff {kind : Option ObjKind} {f : Ctx → Op α} :
    LeavesNothing s (Op.enter caller kind rights >>= f) s ↔
      ∀ cap, s.resolve caller.domain caller.handle kind rights caller.now = .ok cap →
        LeavesNothing s (f { caller with cap }) s := by
  have h : (Op.enter caller kind rights >>= f) =
      Op.ask (fun s => s.resolve caller.domain caller.handle kind rights caller.now) >>=
        fun cap => f { caller with cap } := by
    simp [Op.enter]
  rw [h, ask_iff]

theorem atScope_iff {body : Ctx → ScopeId → Op α} :
    LeavesNothing s (Op.atScope caller rights body) s ↔
      ∀ cap i, s.resolve caller.domain caller.handle (some .scope) rights caller.now = .ok cap →
        cap.object.object = .scope i → LeavesNothing s (body { caller with cap } i) s := by
  unfold Op.atScope
  rw [enter_iff]
  refine forall_congr' fun cap => ?_
  cases hc : cap.object.object <;> simp [throw_same]

theorem atDomain_iff {body : Ctx → DomainId → Op α} :
    LeavesNothing s (Op.atDomain caller rights body) s ↔
      ∀ cap i, s.resolve caller.domain caller.handle (some .domain) rights caller.now = .ok cap →
        cap.object.object = .domain i → LeavesNothing s (body { caller with cap } i) s := by
  unfold Op.atDomain
  rw [enter_iff]
  refine forall_congr' fun cap => ?_
  cases hc : cap.object.object <;> simp [throw_same]

theorem atEndpoint_iff {body : Ctx → EndpointId → Op α} :
    LeavesNothing s (Op.atEndpoint caller rights body) s ↔
      ∀ cap i, s.resolve caller.domain caller.handle (some .endpoint) rights caller.now = .ok cap →
        cap.object.object = .endpoint i → LeavesNothing s (body { caller with cap } i) s := by
  unfold Op.atEndpoint
  rw [enter_iff]
  refine forall_congr' fun cap => ?_
  cases hc : cap.object.object <;> simp [throw_same]

end LeavesNothing

end Thalyx.Kernel
