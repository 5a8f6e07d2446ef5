/-
The closing capacity that admitted effects hold: `begin_effect` and `release_invocation` of
`kernel/src/api/ipcops.rs`.

A service reserves, in its own scope, the time it may need to finish an effect after the client
is closed.  The scope keeps what it has spent this window and what its effects hold; every
release of an invocation gives back what the invocation's effect held.  The additions are made
with overflow checks on: one that does not fit stops the kernel.

What else an invocation and a scope are is left out.  The lineage of the invocation's grant,
whether its origin is open, and whether there is a cell for the receipt come with the request;
an invocation's release stands for all that lead to it: the reply collected, the resolution, the
withdrawals and a death.
-/
import ThalyxKernel.Lib.Checked
import ThalyxKernel.Lib.Run
import ThalyxKernel.Lib.Tally
import ThalyxKernel.Kernel.Machine

namespace Thalyx.Kernel.Closure

open Function Option

/-- A scope's slot, as far as closing capacity goes. -/
structure Account where
  state : ScopeState
  closureReserveNs : Nat
  closureUsedNs : Nat
  closureReservedNs : Nat
  effectsPending : Nat
  deriving DecidableEq, Repr

/-- An invocation's slot, as far as its effect goes. -/
structure Work where
  state : InvocationState
  originScope : ScopeId
  effect : Effect
  closureService : ScopeId
  closureReservedNs : Nat
  deriving DecidableEq, Repr

structure State where
  scopes : ScopeId → Account
  invocations : InvocationId → Work

/-- `EffectRequest`, with what the rest of the kernel answers to it. -/
structure EffectRequest where
  closureReserveNs : Nat
  reserved0 : Nat
  /-- `lineage_status` of the invocation's grant. -/
  lineage : Status
  /-- `is_open` of the scope the invocation came from. -/
  originOpen : Bool
  /-- `reserve_receipt`. -/
  receipt : Bool

abbrev Answer := Except Status Unit

namespace State

def setScope (s : State) (n : ScopeId) (f : Account → Account) : State :=
  { s with scopes := Function.update s.scopes n (f (s.scopes n)) }

def setWork (s : State) (i : InvocationId) (work : Work) : State :=
  { s with invocations := Function.update s.invocations i work }

/-! ### The effect -/

/-- The effect admitted. -/
def admitEffect (s : State) (service : ScopeId) (i : InvocationId) (reserve : Nat) : State :=
  let work := s.invocations i
  let s := s.setScope service fun node =>
    { node with closureReservedNs := node.closureReservedNs + reserve }
  let s := s.setWork i
    { work with effect := .admitted, closureService := service, closureReservedNs := reserve }
  s.setScope work.originScope fun node => { node with effectsPending := node.effectsPending + 1 }

/-- `begin_effect`, of a service whose domain is owned by a scope. -/
def beginEffect (s : State) (service : ScopeId) (i : InvocationId) (request : EffectRequest) :
    Option (State × Answer) :=
  let work := s.invocations i
  if request.reserved0 ≠ 0 then some (s, .error .invalidArgument)
  else if work.state = .resolved then some (s, .error .alreadyResolved)
  else if work.effect ≠ .none then some (s, .error .alreadyResolved)
  else if request.lineage ≠ .ok ∨ request.originOpen = false then
    some (s.setWork i { work with effect := .refused },
      .error (if request.lineage ≠ .ok then request.lineage else .scopeClosed))
  else do
    let node := s.scopes service
    let spent ← Checked.add node.closureUsedNs node.closureReservedNs
    let total ← Checked.add spent request.closureReserveNs
    if node.closureReserveNs < total then some (s, .error .limitExhausted)
    else if request.receipt = false then some (s, .error .limitExhausted)
    else some (s.admitEffect service i request.closureReserveNs, .ok ())

/-- `release_invocation`. -/
def releaseInvocation (s : State) (i : InvocationId) : State :=
  let work := s.invocations i
  if work.state = .empty then s
  else if work.effect = .admitted then
    let s := s.setWork i
      { work with effect := .resolved, closureReservedNs := 0, state := .resolved }
    let s := s.setScope work.originScope fun node =>
      { node with effectsPending := node.effectsPending - 1 }
    s.setScope work.closureService fun node =>
      { node with closureReservedNs := node.closureReservedNs - work.closureReservedNs }
  else s.setWork i { work with state := .resolved }

end State

/-! ### Runs -/

/-- One thing that happens. -/
inductive Act where
  | beginEffect (service : ScopeId) (i : InvocationId) (request : EffectRequest)
  | release (i : InvocationId)
  /-- An admission, into a free slot. -/
  | admission (i : InvocationId) (origin : ScopeId)
  | deliver (i : InvocationId)
  /-- `collect_invocation`. -/
  | collect (i : InvocationId)
  /-- `create`, in a slot that is empty or whose scope is collected. -/
  | createScope (n : ScopeId) (closureReserveNs : Nat)
  | setLimits (n : ScopeId) (closureReserveNs : Nat)
  /-- A barrier, a promotion, a retirement. -/
  | advanceScope (n : ScopeId)
  /-- `charge_cpu`, of recovery work. -/
  | charge (n : ScopeId) (ns : Nat)
  /-- `roll_window`. -/
  | roll (n : ScopeId)

/-- The next state of a scope's life. -/
def nextState : ScopeState → Option ScopeState
  | .opened => some .fenced
  | .fenced => some .quiescent
  | .quiescent => some .retired
  | _ => none

/-- What an act leaves, where it can happen at all. -/
def perform (s : State) : Act → Option State
  | .beginEffect service i request =>
    if (s.invocations i).state = .empty then some s
    else (s.beginEffect service i request).map Prod.fst
  | .release i => some (s.releaseInvocation i)
  | .admission i origin =>
    if (s.invocations i).state = .empty then some (s.setWork i ⟨.admitted, origin, .none, 0, 0⟩)
    else none
  | .deliver i =>
    if (s.invocations i).state = .admitted then
      some (s.setWork i { s.invocations i with state := .delivered })
    else none
  | .collect i =>
    if (s.invocations i).state = .resolved then
      some (s.setWork i { s.invocations i with state := .empty })
    else none
  | .createScope n limit =>
    if (s.scopes n).state = .empty ∨ (s.scopes n).state = .retired then
      some (s.setScope n fun _ => ⟨.opened, limit, 0, 0, 0⟩)
    else none
  | .setLimits n limit =>
    if (s.scopes n).state = .opened then
      some (s.setScope n fun node => { node with closureReserveNs := limit })
    else none
  | .advanceScope n =>
    (nextState (s.scopes n).state).map fun state => s.setScope n fun node => { node with state }
  | .charge n ns =>
    some (s.setScope n fun node =>
      { node with closureUsedNs := (node.closureUsedNs + ns) % 2 ^ 64 })
  | .roll n => some (s.setScope n fun node => { node with closureUsedNs := 0 })

/-- Nothing is admitted and nothing held. -/
structure Fresh (s : State) : Prop where
  scopes : ∀ n, (s.scopes n).closureReservedNs = 0
  invocations : ∀ i, (s.invocations i).effect = .none

def machine : System State Act := .ofStep Fresh perform

/-! ### What the effects hold -/

/-- What an invocation holds of a scope's closing capacity. -/
def Work.holds (n : ScopeId) (work : Work) : Nat :=
  if work.effect = .admitted ∧ work.closureService = n then work.closureReservedNs else 0

/-- What all admitted effects hold of a scope's closing capacity. -/
def State.outstanding (s : State) (n : ScopeId) : Nat :=
  tally (fun _ => Work.holds n) s.invocations

/-- What holds between two acts. -/
structure Inv (s : State) : Prop where
  balanced : ∀ n, (s.scopes n).closureReservedNs = s.outstanding n
  /-- What is discharged or free has no admitted effect. -/
  settled : ∀ i, (s.invocations i).state = .empty ∨ (s.invocations i).state = .resolved →
    (s.invocations i).effect ≠ .admitted

variable {s : State}

theorem Fresh.inv (h : Fresh s) : Inv s where
  balanced := by
    intro n
    rw [h.scopes n]
    symm
    apply tally_eq_zero
    intro i
    rw [Work.holds, if_neg]
    rw [h.invocations i]
    rintro ⟨heffect, -⟩
    cases heffect
  settled := by
    intro i _
    rw [h.invocations i]
    intro heffect
    cases heffect

namespace Inv

variable {s : State}

theorem setScope (h : Inv s) {n : ScopeId} {f : Account → Account}
    (hf : (f (s.scopes n)).closureReservedNs = (s.scopes n).closureReservedNs) :
    Inv (s.setScope n f) where
  balanced := by
    intro m
    dsimp only [State.setScope]
    by_cases hmn : m = n
    · subst hmn
      rw [update_self, hf]
      exact h.balanced m
    · rw [update_of_ne hmn]
      exact h.balanced m
  settled := h.settled

theorem outstanding_setWork (s : State) (i : InvocationId) (work : Work) (n : ScopeId) :
    (s.setWork i work).outstanding n + (s.invocations i).holds n
      = s.outstanding n + work.holds n :=
  tally_update (fun _ => Work.holds n) s.invocations i work

variable {i : InvocationId} {work : Work}

theorem settled_setWork (h : Inv s)
    (hwork : work.state = .empty ∨ work.state = .resolved → work.effect ≠ .admitted)
    (j : InvocationId) : ((s.setWork i work).invocations j).state = .empty
      ∨ ((s.setWork i work).invocations j).state = .resolved →
    ((s.setWork i work).invocations j).effect ≠ .admitted := by
  dsimp only [State.setWork]
  by_cases hji : j = i
  · subst hji
    rw [update_self]
    exact hwork
  · rw [update_of_ne hji]
    exact h.settled j

theorem setWork (h : Inv s) (hholds : ∀ n, work.holds n = (s.invocations i).holds n)
    (hwork : work.state = .empty ∨ work.state = .resolved → work.effect ≠ .admitted) :
    Inv (s.setWork i work) where
  balanced := by
    intro n
    have hsum := outstanding_setWork s i work n
    have hbefore := h.balanced n
    rw [hholds n] at hsum
    show (s.scopes n).closureReservedNs = _
    omega
  settled := h.settled_setWork hwork

theorem holds_of_not (h : work.effect ≠ .admitted) (n : ScopeId) :
    work.holds n = 0 := if_neg fun hboth => h hboth.1

theorem setScope_scopes (s : State) (n m : ScopeId) (f : Account → Account) :
    (s.setScope n f).scopes m = if m = n then f (s.scopes n) else s.scopes m :=
  update_apply s.scopes n (f (s.scopes n)) m

theorem outstanding_setScope (s : State) (n : ScopeId) (f : Account → Account) (i : InvocationId)
    (work : Work) (m : ScopeId) :
    ((s.setScope n f).setWork i work).outstanding m = (s.setWork i work).outstanding m := rfl

theorem setWork_scopes (s : State) (i : InvocationId) (work : Work) :
    (s.setWork i work).scopes = s.scopes := rfl

variable {service : ScopeId}

theorem hold (h : Inv s) (work : Work)
    (hstate : work.state ≠ .empty ∧ work.state ≠ .resolved) (heffect : work.effect = .admitted)
    (hservice : work.closureService = service) (hbefore : (s.invocations i).effect ≠ .admitted) :
    Inv ((s.setScope service fun node =>
      { node with closureReservedNs := node.closureReservedNs + work.closureReservedNs }).setWork
        i work) where
  balanced := by
    intro n
    have hsum := outstanding_setWork s i work n
    rw [holds_of_not hbefore n, Nat.add_zero, Work.holds, heffect, hservice] at hsum
    rw [outstanding_setScope, hsum, setWork_scopes, setScope_scopes]
    have hbalanced := h.balanced n
    by_cases hn : n = service
    · subst hn
      rw [if_pos rfl, if_pos ⟨rfl, rfl⟩, ← hbalanced]
    · rw [if_neg hn, if_neg fun hboth => hn hboth.2.symm, ← hbalanced, Nat.add_zero]
  settled := by
    refine settled_setWork (s := s) h ?_
    rintro (hempty | hresolved)
    · exact absurd hempty hstate.1
    · exact absurd hresolved hstate.2

theorem giveBack (h : Inv s)
    (heffect : (s.invocations i).effect = .admitted) (hwork : work.effect ≠ .admitted) :
    Inv ((s.setScope (s.invocations i).closureService fun node =>
      { node with closureReservedNs :=
          node.closureReservedNs - (s.invocations i).closureReservedNs }).setWork i work) where
  balanced := by
    intro n
    have hsum := outstanding_setWork s i work n
    rw [holds_of_not hwork n, Nat.add_zero, Work.holds, heffect] at hsum
    rw [outstanding_setScope, setWork_scopes, setScope_scopes]
    have hbalanced := h.balanced n
    by_cases hn : n = (s.invocations i).closureService
    · subst hn
      rw [if_pos ⟨rfl, rfl⟩] at hsum
      rw [if_pos rfl]
      dsimp only
      omega
    · rw [if_neg fun hboth => hn hboth.2.symm] at hsum
      rw [if_neg hn]
      omega
  settled := settled_setWork (s := s) h fun _ => hwork

theorem admitEffect (h : Inv s) {reserve : Nat}
    (hstate : (s.invocations i).state ≠ .empty ∧ (s.invocations i).state ≠ .resolved)
    (heffect : (s.invocations i).effect = .none) : Inv (s.admitEffect service i reserve) := by
  have hbefore : (s.invocations i).effect ≠ .admitted := by
    rw [heffect]
    exact fun hadmitted => nomatch hadmitted
  let work : Work := { s.invocations i with
    effect := .admitted, closureService := service, closureReservedNs := reserve }
  have hheld : Inv ((s.setScope service fun node =>
      { node with closureReservedNs := node.closureReservedNs + reserve }).setWork i work) :=
    h.hold work hstate rfl rfl hbefore
  exact hheld.setScope (n := (s.invocations i).originScope)
    (f := fun node => { node with effectsPending := node.effectsPending + 1 }) rfl

theorem releaseInvocation (h : Inv s) (i : InvocationId) : Inv (s.releaseInvocation i) := by
  unfold State.releaseInvocation
  dsimp only
  split
  · exact h
  split
  · rename_i hadmitted
    have horigin : Inv (s.setScope (s.invocations i).originScope fun node =>
        { node with effectsPending := node.effectsPending - 1 }) := by
      refine h.setScope ?_
      rfl
    exact horigin.giveBack hadmitted nofun
  · rename_i hnot
    refine h.setWork ?_ fun _ => hnot
    intro n
    rfl

end Inv

/-! ### Runs of the machine -/

/-- A request comes as far as the sum. -/
def State.Considers (s : State) (i : InvocationId) (request : EffectRequest) : Prop :=
  request.reserved0 = 0 ∧ (s.invocations i).state ≠ .resolved
    ∧ (s.invocations i).effect = .none ∧ request.lineage = .ok ∧ request.originOpen = true

/-- What the scope has spent, what its effects hold, and what is asked for. -/
def State.demanded (s : State) (service : ScopeId) (request : EffectRequest) : Nat :=
  (s.scopes service).closureUsedNs + (s.scopes service).closureReservedNs
    + request.closureReserveNs

theorem add_twice {β : Type} (a b c : Nat) (f : Nat → Option β) :
    ((Checked.add a b).bind fun spent => (Checked.add spent c).bind f)
      = if 2 ^ 64 ≤ a + b + c then none else f (a + b + c) := by
  by_cases habc : 2 ^ 64 ≤ a + b + c
  · rw [if_pos habc]
    by_cases hab : a + b < 2 ^ 64
    · have hlast : Checked.add (a + b) c = none := if_neg (Nat.not_lt.mpr habc)
      rw [Checked.add_eq hab, bind_some, hlast, bind_none]
    · have hfirst : Checked.add a b = none := if_neg hab
      rw [hfirst, bind_none]
  · have hlast : a + b + c < 2 ^ 64 := Nat.lt_of_not_le habc
    rw [if_neg habc, Checked.add_eq (Nat.lt_of_le_of_lt (Nat.le_add_right _ _) hlast),
      bind_some, Checked.add_eq hlast, bind_some]

variable {i : InvocationId} {request : EffectRequest}
variable {service : ScopeId}

theorem beginEffect_considered (h : s.Considers i request) :
    s.beginEffect service i request
      = if 2 ^ 64 ≤ s.demanded service request then none
        else if (s.scopes service).closureReserveNs < s.demanded service request
          ∨ request.receipt = false then some (s, .error .limitExhausted)
        else some (s.admitEffect service i request.closureReserveNs, .ok ()) := by
  obtain ⟨hreserved, hstate, heffect, hlineage, hopen⟩ := h
  have hbarrier : ¬(request.lineage ≠ .ok ∨ request.originOpen = false) := by
    rw [hlineage, hopen]
    simp
  unfold State.beginEffect
  dsimp only
  rw [if_neg (not_not.mpr hreserved), if_neg hstate, if_neg (not_not.mpr heffect),
    if_neg hbarrier]
  refine (add_twice _ _ _ _).trans ?_
  by_cases hfits : 2 ^ 64 ≤ s.demanded service request
  · rw [if_pos hfits]
    exact if_pos hfits
  · rw [if_neg hfits]
    refine (if_neg hfits).trans ?_
    by_cases hlimit : (s.scopes service).closureReserveNs < s.demanded service request
    · exact (if_pos hlimit).trans (if_pos (Or.inl hlimit)).symm
    · refine (if_neg hlimit).trans ?_
      by_cases hreceipt : request.receipt = false
      · exact (if_pos hreceipt).trans (if_pos (Or.inr hreceipt)).symm
      · exact (if_neg hreceipt).trans (if_neg (not_or.mpr ⟨hlimit, hreceipt⟩)).symm

theorem beginEffect_refused (service : ScopeId) (h : ¬s.Considers i request) :
    ∃ status, s.beginEffect service i request = some (s, .error status)
      ∨ (s.invocations i).effect = .none ∧ s.beginEffect service i request
        = some (s.setWork i { s.invocations i with effect := .refused }, .error status) := by
  unfold State.beginEffect
  dsimp only
  split
  · exact ⟨_, .inl rfl⟩
  rename_i hreserved
  split
  · exact ⟨_, .inl rfl⟩
  rename_i hstate
  split
  · exact ⟨_, .inl rfl⟩
  rename_i heffect
  split
  · exact ⟨_, .inr ⟨not_not.mp heffect, rfl⟩⟩
  rename_i hbarrier
  obtain ⟨hlineage, hopen⟩ := not_or.mp hbarrier
  exact absurd ⟨not_not.mp hreserved, hstate, not_not.mp heffect, not_not.mp hlineage,
    by simpa using hopen⟩ h

theorem admitEffect_service (s : State) (service : ScopeId) (i : InvocationId) (reserve : Nat) :
    ((s.admitEffect service i reserve).scopes service).closureUsedNs
        = (s.scopes service).closureUsedNs
      ∧ ((s.admitEffect service i reserve).scopes service).closureReservedNs
        = (s.scopes service).closureReservedNs + reserve
      ∧ ((s.admitEffect service i reserve).scopes service).closureReserveNs
        = (s.scopes service).closureReserveNs := by
  unfold State.admitEffect
  dsimp only
  rw [Inv.setScope_scopes, Inv.setWork_scopes, Inv.setScope_scopes, Inv.setScope_scopes, if_pos rfl]
  split
  · rename_i horigin
    rw [← horigin, if_pos rfl]
    exact ⟨rfl, rfl, rfl⟩
  · exact ⟨rfl, rfl, rfl⟩

theorem outstanding_admitEffect (service : ScopeId) (reserve : Nat)
    (heffect : (s.invocations i).effect = .none) :
    (s.admitEffect service i reserve).outstanding service = s.outstanding service + reserve := by
  have hsum := Inv.outstanding_setWork s i { s.invocations i with
    effect := .admitted, closureService := service, closureReservedNs := reserve } service
  have hbefore : (s.invocations i).holds service = 0 := by
    apply Inv.holds_of_not
    rw [heffect]
    exact nofun
  have hafter : Work.holds service { s.invocations i with
      effect := .admitted, closureService := service, closureReservedNs := reserve } = reserve :=
    if_pos ⟨rfl, rfl⟩
  rw [hbefore, hafter, Nat.add_zero] at hsum
  exact hsum

theorem Inv.beginEffect {s' : State} (h : Inv s)
    {answer : Answer} (hlive : (s.invocations i).state ≠ .empty)
    (hact : s.beginEffect service i request = some (s', answer)) : Inv s' := by
  by_cases hconsiders : s.Considers i request
  · rw [beginEffect_considered hconsiders] at hact
    split at hact
    · cases hact
    split at hact
    · cases hact
      exact h
    · cases hact
      exact h.admitEffect ⟨hlive, hconsiders.2.1⟩ hconsiders.2.2.1
  · obtain ⟨status, hsame | ⟨heffect, hrefused⟩⟩ :=
      beginEffect_refused service hconsiders
    · rw [hsame] at hact
      cases hact
      exact h
    · rw [hrefused] at hact
      cases hact
      refine h.setWork ?_ ?_
      · intro n
        have hzero : Work.holds n { s.invocations i with effect := .refused } = 0 :=
          if_neg fun hboth => nomatch hboth.1
        rw [hzero, Inv.holds_of_not]
        rw [heffect]
        exact nofun
      · intro _ hadmitted
        cases hadmitted

/-- No sum overflows, and no slot is taken for a new scope while an admitted effect holds capacity
of the scope that was in it. -/
def Guarded (s : State) : Act → Prop
  | .beginEffect service i request => s.Considers i request → s.demanded service request < 2 ^ 64
  | .createScope n _ => ∀ i, (s.invocations i).holds n = 0
  | _ => True

theorem perform_inv {s' : State} {act : Act} (h : Inv s) (hok : Guarded s act)
    (hact : perform s act = some s') : Inv s' := by
  cases act with
  | beginEffect service i request =>
    simp only [perform] at hact
    split at hact
    · cases hact
      exact h
    · rename_i hlive
      obtain ⟨⟨s'', answer⟩, heffect, rfl⟩ := map_eq_some_iff.mp hact
      exact h.beginEffect hlive heffect
  | release i =>
    cases hact
    exact h.releaseInvocation i
  | admission i origin =>
    obtain ⟨hfree, ⟨⟩⟩ := ite_none_right_eq_some.mp hact
    refine h.setWork ?_ ?_
    · intro n
      have hzero : Work.holds n ⟨.admitted, origin, .none, 0, 0⟩ = 0 :=
        if_neg fun hboth => nomatch hboth.1
      rw [hzero, Inv.holds_of_not (h.settled i (.inl hfree))]
    · intro _ hadmitted
      cases hadmitted
  | deliver i =>
    obtain ⟨-, ⟨⟩⟩ := ite_none_right_eq_some.mp hact
    refine h.setWork (fun n => rfl) ?_
    rintro (hempty | hresolved)
    · cases hempty
    · cases hresolved
  | collect i =>
    obtain ⟨hresolved, ⟨⟩⟩ := ite_none_right_eq_some.mp hact
    exact h.setWork (fun n => rfl) fun _ => h.settled i (.inr hresolved)
  | createScope n limit =>
    obtain ⟨-, ⟨⟩⟩ := ite_none_right_eq_some.mp hact
    refine h.setScope ?_
    rw [h.balanced n]
    exact (tally_eq_zero hok).symm
  | setLimits n limit =>
    obtain ⟨-, ⟨⟩⟩ := ite_none_right_eq_some.mp hact
    refine h.setScope ?_
    rfl
  | advanceScope n =>
    obtain ⟨state, -, rfl⟩ := map_eq_some_iff.mp hact
    refine h.setScope ?_
    rfl
  | charge n ns =>
    cases hact
    refine h.setScope ?_
    rfl
  | roll n =>
    cases hact
    refine h.setScope ?_
    rfl

theorem reachable_inv (h : (machine.within Guarded).Reachable s) : Inv s := by
  refine h.invariant (fun s => Fresh.inv) ?_
  intro s act s' hs hstep
  exact perform_inv hs hstep.1 hstep.2

/-- **What a scope's effects hold is what its account says, in every state of a run in which no
slot is taken from under an admitted effect; an admission keeps within the scope's reserve; and
the one request that stops the kernel is one whose sum does not fit.** -/
theorem effect_admission {s : State} (h : (machine.within Guarded).Reachable s) :
    (∀ n, (s.scopes n).closureReservedNs = s.outstanding n)
    ∧ ∀ service i request,
      (s.beginEffect service i request = none
        ↔ s.Considers i request ∧ 2 ^ 64 ≤ s.demanded service request)
      ∧ ∀ s', s.beginEffect service i request = some (s', .ok ()) →
        s'.outstanding service = s.outstanding service + request.closureReserveNs
        ∧ (s'.scopes service).closureUsedNs + (s'.scopes service).closureReservedNs
          ≤ (s'.scopes service).closureReserveNs := by
  have hinv := reachable_inv h
  refine ⟨hinv.balanced, ?_⟩
  intro service i request
  by_cases hconsiders : s.Considers i request
  · rw [beginEffect_considered hconsiders]
    refine ⟨?_, ?_⟩
    · constructor
      · intro hnone
        split at hnone
        · rename_i hover
          exact ⟨hconsiders, hover⟩
        split at hnone
        · cases hnone
        · cases hnone
      · intro hover
        exact if_pos hover.2
    · intro s' hact
      split at hact
      · cases hact
      split at hact
      · cases hact
      rename_i hwithin
      cases hact
      have hle := Nat.le_of_not_lt (not_or.mp hwithin).1
      obtain ⟨hused, hheld, hlimit⟩ :=
        admitEffect_service s service i request.closureReserveNs
      refine ⟨?_, ?_⟩
      · exact outstanding_admitEffect service request.closureReserveNs hconsiders.2.2.1
      · rw [hused, hheld, hlimit, ← Nat.add_assoc]
        exact hle
  · obtain ⟨status, hsame | ⟨-, hrefused⟩⟩ := beginEffect_refused service hconsiders
    · rw [hsame]
      exact ⟨⟨nofun, fun hover => absurd hover.1 hconsiders⟩, fun s' hact => by cases hact⟩
    · rw [hrefused]
      exact ⟨⟨nofun, fun hover => absurd hover.1 hconsiders⟩, fun s' hact => by cases hact⟩

/-! ### A client and a service -/

instance (s : State) (i : InvocationId) (request : EffectRequest) :
    Decidable (s.Considers i request) :=
  inferInstanceAs (Decidable (_ ∧ _ ∧ _ ∧ _ ∧ _))

instance (s : State) (act : Act) : Decidable (Guarded s act) :=
  match act with
  | .beginEffect service i request =>
    inferInstanceAs (Decidable (s.Considers i request → s.demanded service request < 2 ^ 64))
  | .createScope n _ => inferInstanceAs (Decidable (∀ i, (s.invocations i).holds n = 0))
  | .release _ => isTrue trivial
  | .admission .. => isTrue trivial
  | .deliver _ => isTrue trivial
  | .collect _ => isTrue trivial
  | .setLimits .. => isTrue trivial
  | .advanceScope _ => isTrue trivial
  | .charge .. => isTrue trivial
  | .roll _ => isTrue trivial

/-- Open scopes with a reserve of a thousand each, and no work. -/
def quiet : State where
  scopes := fun _ => ⟨.opened, 1000, 0, 0, 0⟩
  invocations := fun _ => ⟨.empty, 0, .none, 0, 0⟩

theorem quiet_fresh : Fresh quiet := ⟨fun _ => rfl, fun _ => rfl⟩

/-- An effect asked for while nothing stands in its way. -/
def asks (reserve : Nat) : EffectRequest := ⟨reserve, 0, .ok, true, true⟩

/-- One effect admitted, and a second request delivered. -/
def admitted : List Act :=
  [.admission 0 0, .deliver 0, .beginEffect 1 0 (asks 600), .admission 1 0, .deliver 1]

theorem effect_admission_admitted :
    ∃ s : State, (s.scopes 1).closureReservedNs = 600 ∧ s.outstanding 1 = 600
      ∧ s.beginEffect 1 1 (asks 400) ≠ none := by
  have hrun : (System.exec (System.guarded Guarded perform) admitted quiet).map
      (fun s => ((s.scopes 1).closureReservedNs, s.demanded 1 (asks 400))) = some (600, 1000) := by
    decide +kernel
  obtain ⟨s, hs, hend⟩ := map_eq_some_iff.mp hrun
  obtain ⟨hheld, hdemanded⟩ := Prod.mk.inj hend
  have hreach : (machine.within Guarded).Reachable s :=
    System.reachable_within_of_guarded (.init quiet_fresh) hs
  obtain ⟨hbalanced, hadmits⟩ := effect_admission hreach
  refine ⟨s, hheld, (hbalanced 1).symm.trans hheld, ?_⟩
  intro hnone
  have hover := ((hadmits 1 1 (asks 400)).1.mp hnone).2
  rw [hdemanded] at hover
  omega

/-- The service's scope retires with its effect admitted, another scope takes its slot and admits
an effect of its own, and then the first is released. -/
def replaced : List Act :=
  [.admission 0 0, .deliver 0, .beginEffect 1 0 (asks 600), .advanceScope 1, .advanceScope 1,
    .advanceScope 1, .createScope 1 1000, .admission 1 0, .deliver 1, .beginEffect 1 1 (asks 700),
    .release 0]

/-- A request stops the kernel; and a scope holds less than its effects do. -/
theorem effect_overflows :
    (∃ s : State, machine.Reachable s ∧ (s.invocations 1).state = .delivered
      ∧ s.beginEffect 1 1 (asks (2 ^ 64 - 1)) = none)
    ∧ ∃ s : State, machine.Reachable s ∧ (s.scopes 1).closureReservedNs = 100
      ∧ s.outstanding 1 = 700 := by
  refine ⟨?_, ?_⟩
  · have hrun : (System.exec perform admitted quiet).map
        (fun s => ((s.invocations 1).state, (s.beginEffect 1 1 (asks (2 ^ 64 - 1))).isNone))
        = some (.delivered, true) := by
      decide +kernel
    obtain ⟨s, hs, hend⟩ := map_eq_some_iff.mp hrun
    obtain ⟨hdelivered, hnone⟩ := Prod.mk.inj hend
    exact ⟨s, System.reachable_of_exec (.init quiet_fresh) hs, hdelivered, by simpa using hnone⟩
  · have hrun : (System.exec perform replaced quiet).map
        (fun s => ((s.scopes 1).closureReservedNs, s.outstanding 1)) = some (100, 700) := by
      decide +kernel
    obtain ⟨s, hs, hend⟩ := map_eq_some_iff.mp hrun
    obtain ⟨hheld, hsum⟩ := Prod.mk.inj hend
    exact ⟨s, System.reachable_of_exec (.init quiet_fresh) hs, hheld, hsum⟩

end Thalyx.Kernel.Closure
