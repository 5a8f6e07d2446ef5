/-
Scopes, the principals that pay, fence and drain: `kernel/src/scope.rs`.

A reservation charges the scope and every ancestor, level by level, and a refusal at any
level undoes the levels below it.  Between operations only the undone state is visible,
so a refused reservation is modelled as no change.

Left out: the processor budget (windows, credits, simultaneity, debts), which has no part
in these operations, the diagnostic counters, the label and the drain progress fields,
which are only reported.  Counters are natural numbers; nothing here comes near 2^64.
-/
import ThalyxKernel.Kernel.Object

namespace Thalyx.Kernel

/-- `scope::Resource`. -/
inductive Resource where
  | memoryPages | metadata | queueBytes
  deriving DecidableEq, Repr

/-- `scope::Limits`. -/
structure Limits where
  memoryPages : Nat
  metadataObjects : Nat
  cpuBudgetNs : Nat
  queueBytes : Nat
  closureReserveNs : Nat
  parallelism : Nat
  deriving DecidableEq, Repr

def Limits.zero : Limits := ⟨0, 0, 0, 0, 0, 0⟩

/-- `Scope::limit`. -/
def Limits.of (limits : Limits) : Resource → Nat
  | .memoryPages => limits.memoryPages
  | .metadata => limits.metadataObjects
  | .queueBytes => limits.queueBytes

/-- `scope::State`. -/
inductive ScopeState where
  | empty | opened | fenced | quiescent | retired
  deriving DecidableEq, Repr

/-- `Scope`, less its generation and its reference count, which the machine keeps with
those of every other object. -/
structure Scope where
  state : ScopeState
  id : Nat
  parent : Option ScopeId
  depth : Nat
  limits : Limits
  /-- What the subtree holds of each resource. -/
  used : Resource → Nat
  closureUsedNs : Nat
  closureReservedNs : Nat
  threads : Nat
  parallelismUsed : Nat
  invocationsPending : Nat
  effectsPending : Nat
  mapsPending : Nat
  undeliveredCancelled : Nat
  children : Nat

/-- `Scope::empty`. -/
def Scope.empty : Scope where
  state := .empty
  id := 0
  parent := none
  depth := 0
  limits := .zero
  used := fun _ => 0
  closureUsedNs := 0
  closureReservedNs := 0
  threads := 0
  parallelismUsed := 0
  invocationsPending := 0
  effectsPending := 0
  mapsPending := 0
  undeliveredCancelled := 0
  children := 0

/-- The scope table. -/
abbrev Scopes := ScopeId → Scope

namespace Scopes

/-- Changes one scope. -/
def set (t : Scopes) (i : ScopeId) (f : Scope → Scope) : Scopes :=
  Function.update t i (f (t i))

/-- The first `n` scopes from `scope` towards the root. -/
def chainUpTo (t : Scopes) : Nat → ScopeId → List ScopeId
  | 0, _ => []
  | n + 1, scope =>
    scope :: match (t scope).parent with
      | some parent => chainUpTo t n parent
      | none => []

/-- `Chain::of`: the chain from `scope` to the root, leaf first, as far as the interface's
depth limit goes. -/
def chain (t : Scopes) (scope : ScopeId) : List ScopeId := t.chainUpTo (maxScopeDepth + 1) scope

/-- `is_open`: `scope` and every ancestor are open. -/
def isOpen (t : Scopes) (scope : ScopeId) : Bool :=
  (t.chain scope).all fun node => (t node).state == .opened

/-- `is_within`: `candidate` is `ancestor` or below it. -/
def isWithin (t : Scopes) (ancestor candidate : ScopeId) : Bool :=
  (t.chain candidate).contains ancestor

/-! ### Accounts -/

/-- Adds to one account of one scope. -/
def charge (t : Scopes) (i : ScopeId) (resource : Resource) (amount : Nat) : Scopes :=
  t.set i fun node =>
    { node with used := Function.update node.used resource (node.used resource + amount) }

/-- Takes from one account of one scope, no further than zero. -/
def credit (t : Scopes) (i : ScopeId) (resource : Resource) (amount : Nat) : Scopes :=
  t.set i fun node =>
    { node with used := Function.update node.used resource (node.used resource - amount) }

/-- A level that takes the charge: open, and inside its ceiling afterwards. -/
def hasRoom (t : Scopes) (i : ScopeId) (resource : Resource) (amount : Nat) : Bool :=
  (t i).state == .opened && (t i).used resource + amount ≤ (t i).limits.of resource

/-- The levels of a reservation in order, each checked as it is charged. -/
def reserveAlong (resource : Resource) (amount : Nat) : List ScopeId → Scopes → Option Scopes
  | [], t => some t
  | i :: rest, t =>
    if t.hasRoom i resource amount then
      reserveAlong resource amount rest (t.charge i resource amount)
    else none

/-- `reserve`: `amount` of `resource` in `scope` and every ancestor, or nothing. -/
def reserve (t : Scopes) (scope : ScopeId) (resource : Resource) (amount : Nat) :
    Option Scopes :=
  reserveAlong resource amount (t.chain scope) t

/-- `release`: `amount` of `resource` back to `scope` and every ancestor. -/
def release (t : Scopes) (scope : ScopeId) (resource : Resource) (amount : Nat) : Scopes :=
  (t.chain scope).foldl (fun t i => t.credit i resource amount) t

/-! ### Parallelism -/

/-- `has_parallelism`. -/
def hasParallelism (t : Scopes) (scope : ScopeId) : Bool :=
  (t.chain scope).all fun i => (t i).parallelismUsed < (t i).limits.parallelism

/-- `take_parallelism`. -/
def takeParallelism (t : Scopes) (scope : ScopeId) : Scopes :=
  (t.chain scope).foldl
    (fun t i => t.set i fun node => { node with parallelismUsed := node.parallelismUsed + 1 }) t

/-- `drop_parallelism`. -/
def dropParallelism (t : Scopes) (scope : ScopeId) : Scopes :=
  (t.chain scope).foldl
    (fun t i => t.set i fun node => { node with parallelismUsed := node.parallelismUsed - 1 }) t

/-! ### Lifecycle -/

/-- A scope's state written, the part of `Scope::set_state` that is in the table. -/
def setState (t : Scopes) (i : ScopeId) (state : ScopeState) : Scopes :=
  t.set i fun node => { node with state }

/-- `Scope::reset`. -/
def reset (t : Scopes) (i : ScopeId) : Scopes := t.set i fun _ => .empty

/-- `Pending`, the fields promotion looks at. -/
structure Pending where
  threads : Nat
  invocations : Nat
  effects : Nat
  maps : Nat
  deriving DecidableEq, Repr

/-- The scopes `pending` adds up: in use, and at or below `root`. -/
def perimeter (t : Scopes) (root : ScopeId) : List ScopeId :=
  (List.finRange maxScopes).filter fun i => (t i).state != .empty && t.isWithin root i

/-- `pending`: the obligations of `root` and every descendant. -/
def pending (t : Scopes) (root : ScopeId) : Pending where
  threads := ((t.perimeter root).map fun i => (t i).threads).sum
  invocations := ((t.perimeter root).map fun i => (t i).invocationsPending).sum
  effects := ((t.perimeter root).map fun i => (t i).effectsPending).sum
  maps := ((t.perimeter root).map fun i => (t i).mapsPending).sum

/-- A fenced scope with nothing left to observe. -/
def drained (t : Scopes) (i : ScopeId) : Bool :=
  (t i).state == .fenced && t.pending i == ⟨0, 0, 0, 0⟩

/-- A scope in use whose parent is `i`. -/
def hasChild (t : Scopes) (i : ScopeId) : Bool :=
  (List.finRange maxScopes).any fun j => (t j).state != .empty && (t j).parent == some i

end Scopes

end Thalyx.Kernel
