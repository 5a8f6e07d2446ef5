/-
What a reservation and its return do to the accounts.

A chain may in principle pass over a slot more than once, so the charge a scope takes is
the amount times the number of its places in the chain.  In that form charging and
crediting are pointwise, and undoing one by the other is arithmetic.
-/
import ThalyxKernel.Kernel.Scope
import Mathlib.Data.List.Count

namespace Thalyx.Kernel.Scopes

open Function

variable {t t' : Scopes} {scope : ScopeId} {resource : Resource} {amount : Nat}

/-- The table with `amount` more on the accounts of a chain. -/
def plus (t : Scopes) (nodes : List ScopeId) (resource : Resource) (amount : Nat) : Scopes :=
  fun i => { t i with
    used := Function.update (t i).used resource
      ((t i).used resource + nodes.count i * amount) }

/-- The table with `amount` less on the accounts of a chain, no further than zero. -/
def minus (t : Scopes) (nodes : List ScopeId) (resource : Resource) (amount : Nat) : Scopes :=
  fun i => { t i with
    used := Function.update (t i).used resource
      ((t i).used resource - nodes.count i * amount) }

/-! ### Structure -/

theorem chainUpTo_congr (h : ∀ i, (t' i).parent = (t i).parent) :
    ∀ (n : Nat) (scope : ScopeId), t'.chainUpTo n scope = t.chainUpTo n scope := by
  intro n
  induction n with
  | zero => intro _; rfl
  | succ n ih =>
    intro scope
    simp only [chainUpTo, h scope]
    cases (t scope).parent with
    | none => rfl
    | some parent => simp only [ih parent]

theorem chain_congr (h : ∀ i, (t' i).parent = (t i).parent) (scope : ScopeId) :
    t'.chain scope = t.chain scope :=
  chainUpTo_congr h _ scope

@[simp] theorem plus_chain (nodes : List ScopeId) :
    (t.plus nodes resource amount).chain scope = t.chain scope :=
  chain_congr (fun _ => rfl) scope

@[simp] theorem minus_chain (nodes : List ScopeId) :
    (t.minus nodes resource amount).chain scope = t.chain scope :=
  chain_congr (fun _ => rfl) scope

/-! ### Charging and crediting, pointwise -/

theorem charge_eq_plus (i : ScopeId) : t.charge i resource amount = t.plus [i] resource amount := by
  funext j
  by_cases h : j = i
  · subst h
    simp [charge, set, plus]
  · have hc : List.count j [i] = 0 := by simp [Ne.symm h]
    simp [charge, set, plus, h, hc]

theorem credit_eq_minus (i : ScopeId) :
    t.credit i resource amount = t.minus [i] resource amount := by
  funext j
  by_cases h : j = i
  · subst h
    simp [credit, set, minus]
  · have hc : List.count j [i] = 0 := by simp [Ne.symm h]
    simp [credit, set, minus, h, hc]

theorem plus_plus (xs ys : List ScopeId) :
    (t.plus xs resource amount).plus ys resource amount = t.plus (xs ++ ys) resource amount := by
  funext i
  simp [plus, List.count_append, Nat.add_mul, Nat.add_assoc]

theorem minus_minus (xs ys : List ScopeId) :
    (t.minus xs resource amount).minus ys resource amount = t.minus (xs ++ ys) resource amount := by
  funext i
  simp [minus, List.count_append, Nat.add_mul, Nat.sub_sub]

@[simp] theorem plus_nil : t.plus [] resource amount = t := by
  funext i
  simp [plus]

@[simp] theorem minus_nil : t.minus [] resource amount = t := by
  funext i
  simp [minus]

@[simp] theorem minus_plus (nodes : List ScopeId) :
    (t.plus nodes resource amount).minus nodes resource amount = t := by
  funext i
  simp [plus, minus]

variable {r : Resource}

theorem minus_plus_comm {r' : Resource} (h : r ≠ r') (xs ys : List ScopeId) (a b : Nat) :
    (t.plus xs r a).minus ys r' b = (t.minus ys r' b).plus xs r a := by
  funext i
  simp [plus, minus, update_of_ne h, update_of_ne h.symm,
    update_comm h]

theorem mem_chain_self (t : Scopes) (scope : ScopeId) : scope ∈ t.chain scope := by
  unfold chain chainUpTo
  exact List.mem_cons_self

theorem plus_used_ne (t : Scopes) (scope : ScopeId) (resource : Resource) :
    ((t.plus (t.chain scope) resource 1) scope).used resource ≠ (t scope).used resource := by
  have := List.count_pos_iff.mpr (t.mem_chain_self scope)
  simp [plus]
  omega

/-! ### The operations -/

theorem reserveAlong_eq {nodes : List ScopeId} (h : reserveAlong resource amount nodes t = some t') :
    t' = t.plus nodes resource amount := by
  induction nodes generalizing t with
  | nil => simpa [reserveAlong] using h.symm
  | cons i rest ih =>
    rw [reserveAlong] at h
    split at h
    · rw [ih h, charge_eq_plus, plus_plus]
      rfl
    · cases h

/-- **A reservation that goes through charges every level of the chain.** -/
theorem reserve_eq (h : t.reserve scope resource amount = some t') :
    t' = t.plus (t.chain scope) resource amount :=
  reserveAlong_eq h

theorem foldl_credit (nodes : List ScopeId) :
    nodes.foldl (fun t i => t.credit i resource amount) t = t.minus nodes resource amount := by
  induction nodes generalizing t with
  | nil => simp
  | cons i rest ih =>
    rw [List.foldl_cons, ih, credit_eq_minus, minus_minus]
    rfl

theorem release_eq : t.release scope resource amount = t.minus (t.chain scope) resource amount :=
  foldl_credit _

/-- **Returning a reservation restores the table.** -/
theorem release_reserve (h : t.reserve scope resource amount = some t') :
    t'.release scope resource amount = t := by
  rw [release_eq, reserve_eq h, plus_chain, minus_plus]

/-! ### Tables alike in one resource -/

/-- Two tables that differ in nothing a reservation of `resource` looks at. -/
structure Alike (resource : Resource) (t t' : Scopes) : Prop where
  parent : ∀ i, (t' i).parent = (t i).parent
  state : ∀ i, (t' i).state = (t i).state
  limit : ∀ i, (t' i).limits.of resource = (t i).limits.of resource
  used : ∀ i, (t' i).used resource = (t i).used resource

theorem Alike.refl (resource : Resource) (t : Scopes) : Alike resource t t :=
  ⟨fun _ => rfl, fun _ => rfl, fun _ => rfl, fun _ => rfl⟩

theorem Alike.trans {t'' : Scopes} (h : Alike resource t t') (h' : Alike resource t' t'') :
    Alike resource t t'' :=
  ⟨fun i => (h'.parent i).trans (h.parent i), fun i => (h'.state i).trans (h.state i),
    fun i => (h'.limit i).trans (h.limit i), fun i => (h'.used i).trans (h.used i)⟩

theorem Alike.plus (h : Alike resource t t') (nodes : List ScopeId) (amount : Nat) :
    Alike resource (t.plus nodes resource amount) (t'.plus nodes resource amount) where
  parent := h.parent
  state := h.state
  limit := h.limit
  used i := by simp [Scopes.plus, h.used i]

theorem Alike.plus_other (h : resource ≠ r) (nodes : List ScopeId) (amount : Nat) :
    Alike resource t (t.plus nodes r amount) where
  parent _ := rfl
  state _ := rfl
  limit _ := rfl
  used i := by simp [Scopes.plus, update_of_ne h]

theorem Alike.minus_other (h : resource ≠ r) (nodes : List ScopeId)
    (amount : Nat) : Alike resource t (t.minus nodes r amount) where
  parent _ := rfl
  state _ := rfl
  limit _ := rfl
  used i := by simp [Scopes.minus, update_of_ne h]

theorem Alike.reserveAlong_isSome (h : Alike resource t t') (nodes : List ScopeId) :
    (reserveAlong resource amount nodes t').isSome = (reserveAlong resource amount nodes t).isSome := by
  induction nodes generalizing t t' with
  | nil => rfl
  | cons i rest ih =>
    have hroom : t'.hasRoom i resource amount = t.hasRoom i resource amount := by
      simp only [hasRoom, h.state i, h.used i, h.limit i]
    simp only [reserveAlong, hroom]
    by_cases hr : t.hasRoom i resource amount = true
    · rw [if_pos hr, if_pos hr, charge_eq_plus, charge_eq_plus]
      exact ih (h.plus [i] amount)
    · rw [if_neg hr, if_neg hr]

/-- **Alike tables admit the same reservations.** -/
theorem Alike.reserve_isSome (h : Alike resource t t') :
    (t'.reserve scope resource amount).isSome = (t.reserve scope resource amount).isSome := by
  unfold reserve
  rw [chain_congr h.parent]
  exact h.reserveAlong_isSome _

end Thalyx.Kernel.Scopes
