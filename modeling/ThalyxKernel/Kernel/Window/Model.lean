/-
Processor budgets and the windows they are counted in: `reserve_cpu`, `return_cpu`,
`commit_excess` and `roll_window` of `kernel/src/scope.rs`.

Every scope counts what it has committed in its current window, once for ordinary
execution and once for recovery.  A reservation adds along its chain, as in
`Kernel.Reserve`; a return takes out along the chain, at each scope only if that scope is
still in the window the reservation was made in; execution beyond a reservation is added
without a question.  A roll takes the scopes one by one to a new window: it stores the
overrun the old window closed with over whatever the counter held.  It makes `ROLL_SEQ` odd
before it writes a scope and even after, and a reservation that finds the sequence changed
undoes its adds and tries again.  A run is any interleaving of the single accesses of any
number of processors.

What was reserved and not returned, and what was committed in excess, is kept beside the
counters: nothing reads it, and it is what the counters are compared with.

Left out: the records and the high-water marks, which decide nothing, and the closure
consumption a roll clears.  Execution is charged at any moment, by `charge`.
-/
import ThalyxKernel.Kernel.Reserve

namespace Thalyx.Kernel.Window

open Reserve (Tree fetchAdd fetchSub saturatingAdd maxU64)

/-- `CPU_WINDOW_NS`. -/
def cpuWindowNs : Nat := 10000000

/-- The arguments of `reserve_cpu` and `return_cpu`. -/
structure Request where
  scope : ScopeId
  amount : Nat
  recovery : Bool
  window : Nat
  deriving DecidableEq, Repr

/-- What a roll writes to a scope, in order. -/
inductive Stage where
  | charged | committed | opened | closure | index | close
  deriving DecidableEq, Repr

/-- Where a processor stands between two accesses. -/
inductive Pc where
  | idle
  /-- `reserve_cpu`: about to load the sequence. -/
  | sampling (r : Request)
  /-- `reserve_cpu`: about to load the window of the scope. -/
  | checking (r : Request) (sequence : Nat)
  /-- `reserve_cpu`: committed `done`, about to add to the first of `rest`, or to load the
  sequence again when there is none. -/
  | adding (r : Request) (sequence : Nat) (done rest : List ScopeId)
  /-- `reserve_cpu`: about to take the amount back out of each of `left`. -/
  | undoing (r : Request) (refused : Bool) (left : List ScopeId)
  /-- `return_cpu`: about to load the window of the first of `left`. -/
  | returning (r : Request) (left : List ScopeId)
  /-- `return_cpu`: found `node` in the window, about to load its counter. -/
  | loading (r : Request) (node : ScopeId) (left : List ScopeId)
  /-- `return_cpu`: about to exchange `current`. -/
  | swapping (r : Request) (current : Nat) (node : ScopeId) (left : List ScopeId)
  /-- `commit_excess`: about to add to the first of `left`. -/
  | exceeding (recovery : Bool) (ns : Nat) (left : List ScopeId)
  /-- `roll_window`: looking for a scope in another window. -/
  | surveying (window : Nat) (left : List ScopeId)
  /-- `roll_window`: about to take `ROLL`. -/
  | locking (window : Nat)
  /-- `roll_window`: holding `ROLL`, about to look at the first of `left`. -/
  | scanning (window : Nat) (left : List ScopeId)
  /-- `roll_window`: about to load what `node` was charged. -/
  | closing (window : Nat) (node : ScopeId) (left : List ScopeId)
  /-- `roll_window`: about to make the sequence odd. -/
  | opening (window overrun : Nat) (node : ScopeId) (left : List ScopeId)
  /-- `roll_window`: about to write `node`. -/
  | storing (window overrun : Nat) (node : ScopeId) (left : List ScopeId) (stage : Stage)
  deriving DecidableEq, Repr

structure State (P : Type) where
  /-- `cpu_committed_ns`, and for recovery `closure_committed_ns`. -/
  committed : Bool → ScopeId → Nat
  /-- `cpu_window_ns`. -/
  charged : ScopeId → Nat
  /-- `window_opened_ns`: the overrun carried into the window. -/
  opened : ScopeId → Nat
  windowIndex : ScopeId → Nat
  /-- `ROLL_SEQ`. -/
  sequence : Nat
  /-- Who holds `ROLL`. -/
  roller : Option P
  pc : P → Pc
  /-- Reserved for a scope in a window, and not returned. -/
  reserved : Bool → ScopeId → Nat → Nat
  /-- Committed to a scope in excess, in the window it was in at the time. -/
  excess : Bool → ScopeId → Nat → Nat

/-- A step of a run. -/
inductive Step (P : Type) where
  | reserveCpu (p : P) (r : Request)
  | returnCpu (p : P) (r : Request)
  | commitExcess (p : P) (scope : ScopeId) (ns : Nat) (recovery : Bool)
  | rollWindow (p : P) (now : Nat)
  /-- A processor makes its next access; a weak exchange may fail without cause. -/
  | advance (p : P) (spurious : Bool)
  /-- A scope is charged execution. -/
  | charge (scope : ScopeId) (ns : Nat)

/-- The ceiling of a commitment. -/
def ceiling (tree : Tree) (recovery : Bool) (node : ScopeId) : Nat :=
  if recovery then (tree.scopes node).limits.closureReserveNs
  else (tree.scopes node).limits.cpuBudgetNs

/-- The scopes a return or an excess walks: none for an amount of zero. -/
def walk (tree : Tree) (scope : ScopeId) (amount : Nat) : List ScopeId :=
  if amount = 0 then [] else tree.chain scope

variable {P : Type} [DecidableEq P]

def State.at (s : State P) (p : P) (pc : Pc) : State P :=
  { s with pc := Function.update s.pc p pc }

/-- Stores one committed counter. -/
def State.commit (s : State P) (recovery : Bool) (node : ScopeId) (value : Nat) : State P :=
  { s with committed :=
      Function.update s.committed recovery (Function.update (s.committed recovery) node value) }

def State.setReserved (s : State P) (r : Request) (value : Nat) : State P :=
  { s with
    reserved := Function.update s.reserved r.recovery
      (Function.update (s.reserved r.recovery) r.scope
        (Function.update (s.reserved r.recovery r.scope) r.window value)) }

/-- Notes an excess in the window each scope of the chain is in. -/
def State.noteExcess (tree : Tree) (s : State P) (scope : ScopeId) (ns : Nat) (recovery : Bool) :
    State P :=
  { s with
    excess := Function.update s.excess recovery fun n w =>
      if n ∈ walk tree scope ns ∧ w = s.windowIndex n then s.excess recovery n w + ns
      else s.excess recovery n w }

/-- One write of a roll. -/
def store (s : State P) (p : P) (window overrun : Nat) (node : ScopeId) (left : List ScopeId) :
    Stage → State P
  | .charged => { s with charged := Function.update s.charged node overrun }.at p
      (.storing window overrun node left .committed)
  | .committed => (s.commit false node overrun).at p (.storing window overrun node left .opened)
  | .opened => { s with opened := Function.update s.opened node overrun }.at p
      (.storing window overrun node left .closure)
  | .closure => (s.commit true node 0).at p (.storing window overrun node left .index)
  | .index => { s with windowIndex := Function.update s.windowIndex node window }.at p
      (.storing window overrun node left .close)
  | .close => { s with sequence := s.sequence + 1 }.at p (.scanning window left)

/-- One access of a processor. -/
def advance (tree : Tree) (s : State P) (p : P) (spurious : Bool) : Option (State P) :=
  match s.pc p with
  | .idle => none
  | .sampling r =>
    if s.sequence % 2 = 1 then some s else some (s.at p (.checking r s.sequence))
  | .checking r sequence =>
    if s.windowIndex r.scope = r.window then
      some (s.at p (.adding r sequence [] (tree.chain r.scope)))
    else some (s.at p .idle)
  | .adding r sequence done (node :: rest) =>
    let previous := s.committed r.recovery node
    let t := s.commit r.recovery node (fetchAdd previous r.amount)
    if saturatingAdd previous r.amount ≤ ceiling tree r.recovery node then
      some (t.at p (.adding r sequence (done ++ [node]) rest))
    else some (t.at p (.undoing r true (node :: done)))
  | .adding r sequence done [] =>
    if s.sequence = sequence then
      some ((s.setReserved r (s.reserved r.recovery r.scope r.window + r.amount)).at p .idle)
    else some (s.at p (.undoing r false done))
  | .undoing r refused (node :: left) =>
    some ((s.commit r.recovery node (fetchSub (s.committed r.recovery node) r.amount)).at p
      (.undoing r refused left))
  | .undoing r refused [] => some (s.at p (if refused then .idle else .sampling r))
  | .returning r (node :: left) =>
    if s.windowIndex node = r.window then some (s.at p (.loading r node left))
    else some (s.at p (.returning r left))
  | .returning _ [] => some (s.at p .idle)
  | .loading r node left => some (s.at p (.swapping r (s.committed r.recovery node) node left))
  | .swapping r current node left =>
    if s.committed r.recovery node = current ∧ spurious = false then
      some ((s.commit r.recovery node (current - r.amount)).at p (.returning r left))
    else some (s.at p (.swapping r (s.committed r.recovery node) node left))
  | .exceeding recovery ns (node :: left) =>
    some ((s.commit recovery node (fetchAdd (s.committed recovery node) ns)).at p
      (.exceeding recovery ns left))
  | .exceeding _ _ [] => some (s.at p .idle)
  | .surveying window (node :: left) =>
    if (tree.scopes node).state ≠ .empty ∧ s.windowIndex node ≠ window then
      some (s.at p (.locking window))
    else some (s.at p (.surveying window left))
  | .surveying _ [] => some (s.at p .idle)
  | .locking window =>
    if s.roller = none then
      some ({ s with roller := some p }.at p (.scanning window (List.finRange maxScopes)))
    else some s
  | .scanning window (node :: left) =>
    if (tree.scopes node).state = .empty ∨ s.windowIndex node = window then
      some (s.at p (.scanning window left))
    else some (s.at p (.closing window node left))
  | .scanning _ [] => some ({ s with roller := none }.at p .idle)
  | .closing window node left =>
    some (s.at p (.opening window (s.charged node - (tree.scopes node).limits.cpuBudgetNs)
      node left))
  | .opening window overrun node left =>
    some ({ s with sequence := s.sequence + 1 }.at p
      (.storing window overrun node left .charged))
  | .storing window overrun node left stage => some (store s p window overrun node left stage)

/-- One step.  Only what was reserved is returned. -/
def step (tree : Tree) (s : State P) : Step P → Option (State P)
  | .reserveCpu p r => if s.pc p = .idle then some (s.at p (.sampling r)) else none
  | .returnCpu p r =>
    if s.pc p = .idle ∧ r.amount ≤ s.reserved r.recovery r.scope r.window then
      some ((s.setReserved r (s.reserved r.recovery r.scope r.window - r.amount)).at p
        (.returning r (walk tree r.scope r.amount)))
    else none
  | .commitExcess p scope ns recovery =>
    if s.pc p = .idle then
      some ((s.noteExcess tree scope ns recovery).at p
        (.exceeding recovery ns (walk tree scope ns)))
    else none
  | .rollWindow p now =>
    if s.pc p = .idle then
      some (s.at p (.surveying (now / cpuWindowNs) (List.finRange maxScopes)))
    else none
  | .advance p spurious => advance tree s p spurious
  | .charge scope ns => some { s with
      charged := Function.update s.charged scope (fetchAdd (s.charged scope) ns) }

/-- Nothing committed, nobody inside an operation. -/
structure Fresh (s : State P) : Prop where
  committed : ∀ recovery n, s.committed recovery n = 0
  opened : ∀ n, s.opened n = 0
  sequence : s.sequence = 0
  roller : s.roller = none
  pc : ∀ p, s.pc p = .idle
  reserved : ∀ recovery n w, s.reserved recovery n w = 0
  excess : ∀ recovery n w, s.excess recovery n w = 0

/-- The processors over one tree. -/
def system (tree : Tree) : System (State P) (Step P) := System.ofStep Fresh (step tree)

/-! ### What a counter should hold -/

/-- The overrun a scope opened its window with; the recovery account carries none. -/
def State.carried (s : State P) (recovery : Bool) (n : ScopeId) : Nat :=
  if recovery then 0 else s.opened n

/-- What was reserved at or below `n` in the window `n` is in, and not returned. -/
def State.promised (tree : Tree) (s : State P) (recovery : Bool) (n : ScopeId) : Nat :=
  tally (fun scope at' => tree.share n scope (at' (s.windowIndex n))) (s.reserved recovery)

/-- The carried overrun, the reservations and the excess of the current window. -/
def State.due (tree : Tree) (s : State P) (recovery : Bool) (n : ScopeId) : Nat :=
  s.carried recovery n + s.promised tree recovery n + s.excess recovery n (s.windowIndex n)

/-! ### When it does -/

/-- `n` is between the two increments of the sequence. -/
def Pc.rolls (n : ScopeId) : Pc → Bool
  | .storing _ _ node _ _ => n = node
  | _ => false

/-- A processor has something in the counter of `n` that it may yet take out, or has decided
to change it. -/
def Pc.touches (n : ScopeId) : Pc → Bool
  | .adding _ _ done _ => n ∈ done
  | .undoing _ _ left => n ∈ left
  | .loading _ node _ => n = node
  | .swapping _ _ node _ => n = node
  | .exceeding _ _ left => n ∈ left
  | _ => false

/-- What an undecided operation may still add to a counter. -/
def Pc.inFlight : Pc → Nat
  | .adding r _ _ _ => r.amount
  | .exceeding _ ns _ => ns
  | _ => 0

section

variable [Fintype P]

/-- No counter can overflow: with everything in flight added it is still a `u64`. -/
def InRange (s : State P) : Prop :=
  ∀ recovery n, s.committed recovery n + tally (fun _ pc => pc.inFlight) s.pc ≤ maxU64

/-- Nobody is writing `n` for a roll. -/
def Settled (s : State P) (n : ScopeId) : Prop := ∀ p, (s.pc p).rolls n = false

/-- An access that does not meet a roll on its way: nobody adds to a scope, or decides to take
from it, while it is being rolled; a reservation starts when its whole chain is in its window;
and a roll takes a scope forwards, when nobody has a hand on it. -/
def Clear (tree : Tree) (s : State P) : Pc → Prop
  | .checking r _ =>
    s.windowIndex r.scope = r.window → ∀ n ∈ tree.chain r.scope, s.windowIndex n = r.window
  | .adding _ _ _ (node :: _) => Settled s node
  | .returning _ (node :: _) => Settled s node
  | .opening window _ node _ =>
    s.windowIndex node < window ∧ ∀ p, (s.pc p).touches node = false
  | _ => True

/-- No operation overlaps the roll of a scope it has a hand on. -/
def Orderly (tree : Tree) (s : State P) (a : Step P) : Prop :=
  InRange s ∧ match a with
    | .commitExcess _ scope ns _ => ∀ n ∈ walk tree scope ns, Settled s n
    | .advance p _ => Clear tree s (s.pc p)
    | _ => True

instance (s : State P) : Decidable (InRange s) := inferInstanceAs (Decidable (∀ recovery n,
  s.committed recovery n + tally (fun _ pc => pc.inFlight) s.pc ≤ maxU64))

instance (s : State P) (n : ScopeId) : Decidable (Settled s n) :=
  inferInstanceAs (Decidable (∀ p, (s.pc p).rolls n = false))

instance (tree : Tree) (s : State P) : (pc : Pc) → Decidable (Clear tree s pc)
  | .checking r _ => inferInstanceAs (Decidable (s.windowIndex r.scope = r.window →
      ∀ n ∈ tree.chain r.scope, s.windowIndex n = r.window))
  | .adding _ _ _ (node :: _) => inferInstanceAs (Decidable (Settled s node))
  | .returning _ (node :: _) => inferInstanceAs (Decidable (Settled s node))
  | .opening window _ node _ => inferInstanceAs (Decidable (s.windowIndex node < window ∧
      ∀ p, (s.pc p).touches node = false))
  | .idle | .sampling _ | .adding _ _ _ [] | .undoing _ _ _ | .returning _ [] | .loading _ _ _
  | .swapping _ _ _ _ | .exceeding _ _ _ | .surveying _ _ | .locking _ | .scanning _ _
  | .closing _ _ _ | .storing _ _ _ _ _ => .isTrue trivial

instance (tree : Tree) (s : State P) : (a : Step P) → Decidable (Orderly tree s a)
  | .commitExcess _ scope ns _ => inferInstanceAs (Decidable (InRange s ∧
      ∀ n ∈ walk tree scope ns, Settled s n))
  | .advance p _ => inferInstanceAs (Decidable (InRange s ∧ Clear tree s (s.pc p)))
  | .reserveCpu _ _ | .returnCpu _ _ | .rollWindow _ _ | .charge _ _ =>
    inferInstanceAs (Decidable (InRange s ∧ True))

end

end Thalyx.Kernel.Window
