/-
How the path of an operation is put together from the paths of its parts.

Each primitive of `Op` has one rule: what is left to show is the rest of the operation from
where the primitive succeeded, together with what its success says.
-/
import ThalyxKernel.Kernel.Change.Path

namespace Thalyx.Kernel

open Fallible (final Leads Within)

namespace Path

variable {drops : Machine → EndpointId → Prop} {s t u : Machine}

theorem refl (s : Machine) : Path drops s s := Relation.ReflTransGen.refl

theorem trans (h : Path drops s t) (h' : Path drops t u) : Path drops s u :=
  Relation.ReflTransGen.trans h h'

theorem of_change (h : Change drops s t) : Path drops s t := Relation.ReflTransGen.single h

theorem aside (h : t.core = s.core) : Path drops s t := of_change (.aside h)

theorem then_aside (h : Path drops s t) (h' : u.core = t.core) : Path drops s u :=
  h.trans (aside h')

theorem counted (s : Machine) : Path drops s s.counted :=
  of_change (.identity rfl (Nat.le_succ _))

theorem foldl {ι : Type} {f : Machine → ι → Machine} (h : ∀ s i, Path drops s (f s i))
    (l : List ι) (s : Machine) : Path drops s (l.foldl f s) := by
  induction l generalizing s with
  | nil => exact refl s
  | cons i rest ih => exact (h s i).trans (ih _)

/-! ### Rules -/

section Rules

variable {ε α β : Type}
variable {f : α → EStateM ε Machine β}

theorem bind {x : EStateM ε Machine α} (hx : Leads (Path drops) x s)
    (hf : ∀ a t, x s = .ok a t → Leads (Path drops) (f a) t) : Leads (Path drops) (x >>= f) s :=
  Leads.bind (R := Path drops) (fun _ _ _ => trans) hx hf

theorem of_pure (a : α) : Leads (Path drops) (pure a : EStateM ε Machine α) s := refl s

theorem of_throw (e : ε) : Leads (Path drops) (throw e : EStateM ε Machine α) s := refl s

theorem ask {g : Machine → Except ε α} (h : ∀ a, g s = .ok a → Leads (Path drops) (f a) s) :
    Leads (Path drops) (Op.ask g >>= f) s := by
  refine bind ?_ ?_
  · unfold Leads Op.ask
    split <;> exact refl s
  · intro a t ht
    unfold Op.ask at ht
    split at ht
    · rename_i a' hg
      obtain ⟨rfl, rfl⟩ := EStateM.Result.ok.inj ht
      exact h _ hg
    · cases ht

variable {e : ε}

theorem require {p : Machine → Bool} {f : Unit → EStateM ε Machine β}
    (h : p s = true → Leads (Path drops) (f ()) s) :
    Leads (Path drops) (Op.require p e >>= f) s := by
  refine bind ?_ ?_
  · unfold Leads Op.require
    split <;> exact refl s
  · intro a t ht
    unfold Op.require at ht
    split at ht
    · rename_i hp
      obtain ⟨rfl, rfl⟩ := EStateM.Result.ok.inj ht
      exact h hp
    · cases ht

theorem get {f : Machine → EStateM ε Machine β} (h : Leads (Path drops) (f s) s) :
    Leads (Path drops) (get >>= f) s := h

theorem of_modify {g : Machine → Machine} (h : Path drops s (g s)) :
    Leads (Path drops) (modify g : EStateM ε Machine PUnit) s := h

theorem modify {g : Machine → Machine} {f : PUnit → EStateM ε Machine β}
    (hg : Path drops s (g s)) (h : Leads (Path drops) (f ⟨⟩) (g s)) :
    Leads (Path drops) (modify g >>= f) s :=
  hg.trans h

variable {g : Machine → Machine × Option α}

theorem of_orElse (hg : Path drops s (g s).1) : Leads (Path drops) (Op.orElse g e) s := by
  unfold Leads Op.orElse
  rcases h : g s with ⟨t, _ | a⟩ <;> rw [h] at hg <;> exact hg

theorem orElse (hg : Path drops s (g s).1)
    (h : ∀ a t, g s = (t, some a) → Leads (Path drops) (f a) t) :
    Leads (Path drops) (Op.orElse g e >>= f) s := by
  refine bind (of_orElse hg) ?_
  intro a t ht
  unfold Op.orElse at ht
  rcases hgs : g s with ⟨t', _ | a'⟩
  · rw [hgs] at ht
    cases ht
  · rw [hgs] at ht
    obtain ⟨rfl, rfl⟩ := EStateM.Result.ok.inj ht
    exact h _ _ hgs

theorem orElseWith (hnone : ∀ t, g s = (t, none) → Path drops s t)
    (h : ∀ a t, g s = (t, some a) → Path drops s (final (f a t))) :
    Leads (Path drops) (Op.orElse g e >>= f) s := by
  unfold Leads
  rcases hg : g s with ⟨t, _ | a⟩
  · have herr : Op.orElse g e s = .error e t := by simp [Op.orElse, hg]
    rw [Fallible.bind_of_error herr]
    exact hnone t hg
  · have hok : Op.orElse g e s = .ok a t := by simp [Op.orElse, hg]
    rw [Fallible.bind_of_ok hok]
    exact h a t hg

theorem find {g : Machine → Option α} (h : ∀ a, g s = some a → Leads (Path drops) (f a) s) :
    Leads (Path drops) (Op.orElse (fun s => (s, g s)) e >>= f) s := by
  refine orElse (refl s) ?_
  intro a t ht
  obtain ⟨rfl, ha⟩ := Prod.mk.inj ht
  exact h a ha

variable {undo : Machine → Machine}

theorem reserve {scope : ScopeId} {resource : Resource} {amount : Nat}
    {f : Unit → EStateM ε Machine β} (hu : (undo s).core = s.core)
    (h : ∀ scopes, s.scopes.reserve scope resource amount = some scopes →
      Leads (Path drops) (f ()) { s with scopes }) :
    Leads (Path drops) (Op.reserve scope resource amount undo e >>= f) s := by
  refine bind ?_ ?_
  · unfold Leads Op.reserve
    split
    · rename_i scopes hr
      exact aside (s.reserve_core hr)
    · exact aside hu
  · intro a t ht
    unfold Op.reserve at ht
    split at ht
    · rename_i scopes hr
      obtain ⟨rfl, rfl⟩ := EStateM.Result.ok.inj ht
      exact h scopes hr
    · cases ht

theorem nextIdWith {f : Nat → EStateM ε Machine β} (hu : (undo s).core = s.core)
    (h : Path drops s (final (f s.nextObjectId s.counted))) :
    Leads (Path drops) (Op.nextId undo e >>= f) s := by
  unfold Leads
  by_cases hid : s.nextObjectId = u64Max
  · have herr : Op.nextId undo e s = .error e (undo s) := by
      simp [Op.nextId, Machine.nextId, hid]
    rw [Fallible.bind_of_error herr]
    exact aside hu
  · have hok : Op.nextId undo e s = .ok s.nextObjectId s.counted := by
      simp [Op.nextId, Machine.nextId, hid, Machine.counted]
    rw [Fallible.bind_of_ok hok]
    exact h

theorem nextId {f : Nat → EStateM ε Machine β} (hu : (undo s).core = s.core)
    (h : Leads (Path drops) (f s.nextObjectId) s.counted) :
    Leads (Path drops) (Op.nextId undo e >>= f) s :=
  nextIdWith hu ((counted s).trans h)

end Rules

/-! ### Entering -/

section Entering

variable {α : Type} {caller : Caller} {rights : Rights}

theorem enter {kind : Option ObjKind} {f : Ctx → Op α}
    (h : ∀ cap, s.resolve caller.domain caller.handle kind rights caller.now = .ok cap →
      Leads (Path drops) (f { caller with cap }) s) :
    Leads (Path drops) (Op.enter caller kind rights >>= f) s := by
  unfold Op.enter
  rw [bind_assoc]
  exact ask fun cap hcap => h cap hcap

theorem atScope {body : Ctx → ScopeId → Op α}
    (h : ∀ cap i, s.resolve caller.domain caller.handle (some .scope) rights caller.now = .ok cap →
      cap.object.object = .scope i → Leads (Path drops) (body { caller with cap } i) s) :
    Leads (Path drops) (Op.atScope caller rights body) s := by
  refine enter fun cap hcap => ?_
  dsimp only
  split
  · rename_i i hi
    exact h cap i hcap hi
  · exact of_throw _

theorem atDomain {body : Ctx → DomainId → Op α}
    (h : ∀ cap i, s.resolve caller.domain caller.handle (some .domain) rights caller.now = .ok cap →
      cap.object.object = .domain i → Leads (Path drops) (body { caller with cap } i) s) :
    Leads (Path drops) (Op.atDomain caller rights body) s := by
  refine enter fun cap hcap => ?_
  dsimp only
  split
  · rename_i i hi
    exact h cap i hcap hi
  · exact of_throw _

theorem atEndpoint {body : Ctx → EndpointId → Op α}
    (h : ∀ cap i, s.resolve caller.domain caller.handle (some .endpoint) rights caller.now = .ok cap →
      cap.object.object = .endpoint i → Leads (Path drops) (body { caller with cap } i) s) :
    Leads (Path drops) (Op.atEndpoint caller rights body) s := by
  refine enter fun cap hcap => ?_
  dsimp only
  split
  · rename_i i hi
    exact h cap i hcap hi
  · exact of_throw _

theorem atInvocation {body : Ctx → InvocationId → Op α}
    (h : ∀ cap i, s.resolve caller.domain caller.handle (some .invocation) rights caller.now = .ok cap →
      cap.object.object = .invocation i → Leads (Path drops) (body { caller with cap } i) s) :
    Leads (Path drops) (Op.atInvocation caller rights body) s := by
  refine enter fun cap hcap => ?_
  dsimp only
  split
  · rename_i i hi
    exact h cap i hcap hi
  · exact of_throw _

end Entering

end Path

/-! ### What success says -/

namespace Op

variable {s t : Machine} {α β ε : Type}
variable {e : ε}

theorem require_ok {p : Machine → Bool} {f : Unit → EStateM ε Machine β} {b : β}
    (h : (Op.require p e >>= f) s = .ok b t) : p s = true ∧ f () s = .ok b t := by
  obtain ⟨_, u, hp, hf⟩ := Fallible.bind_ok_iff.1 h
  unfold Op.require at hp
  split at hp
  · rename_i hps
    obtain ⟨-, rfl⟩ := EStateM.Result.ok.inj hp
    exact ⟨hps, hf⟩
  · cases hp

theorem ask_ok {g : Machine → Except ε α} {f : α → EStateM ε Machine β} {b : β}
    (h : (Op.ask g >>= f) s = .ok b t) : ∃ a, g s = .ok a ∧ f a s = .ok b t := by
  obtain ⟨a, u, hg, hf⟩ := Fallible.bind_ok_iff.1 h
  unfold Op.ask at hg
  split at hg
  · rename_i a' hgs
    obtain ⟨rfl, rfl⟩ := EStateM.Result.ok.inj hg
    exact ⟨_, hgs, hf⟩
  · cases hg

theorem orElse_ok {g : Machine → Machine × Option α} {a : α}
    (h : Op.orElse g e s = .ok a t) : g s = (t, some a) := by
  unfold Op.orElse at h
  rcases hg : g s with ⟨u, _ | a'⟩ <;> rw [hg] at h
  · cases h
  · obtain ⟨rfl, rfl⟩ := EStateM.Result.ok.inj h
    rfl

variable {undo : Machine → Machine}

theorem reserve_ok {scope : ScopeId} {resource : Resource} {amount : Nat} {u : Unit}
    (h : Op.reserve scope resource amount undo e s = .ok u t) :
    ∃ scopes, s.scopes.reserve scope resource amount = some scopes ∧ t = { s with scopes } := by
  unfold Op.reserve at h
  split at h
  · rename_i scopes hr
    exact ⟨scopes, hr, (EStateM.Result.ok.inj h).2.symm⟩
  · cases h

theorem nextId_ok {id : Nat}
    (h : Op.nextId undo e s = .ok id t) : id = s.nextObjectId ∧ t = s.counted := by
  unfold Op.nextId Machine.nextId at h
  split at h
  · rename_i hid
    split at hid
    · cases hid
    · obtain ⟨rfl, rfl⟩ := Prod.mk.inj (Option.some.inj hid)
      obtain ⟨rfl, rfl⟩ := EStateM.Result.ok.inj h
      exact ⟨rfl, rfl⟩
  · cases h

theorem atScope_ok {caller : Caller} {rights : Rights} {body : Ctx → ScopeId → Op α} {a : α}
    (h : Op.atScope caller rights body s = .ok a t) :
    ∃ cap i, s.resolve caller.domain caller.handle (some .scope) rights caller.now = .ok cap ∧
      cap.object.object = .scope i ∧ body { caller with cap } i s = .ok a t := by
  unfold Op.atScope Op.enter at h
  rw [bind_assoc] at h
  obtain ⟨cap, hcap, hbody⟩ := ask_ok h
  rw [pure_bind] at hbody
  dsimp only at hbody
  cases hi : cap.object.object with
  | scope i =>
    rw [hi] at hbody
    exact ⟨cap, i, hcap, hi, hbody⟩
  | _ =>
    rw [hi] at hbody
    cases hbody

end Op

end Thalyx.Kernel
