/-
Capability operations that overlap: CAP_DERIVE, CAP_COPY, CAP_CLOSE and message sends under
shared holds of the machine (`kernel/src/api/mod.rs`, `capops.rs`, `ipcops.rs`).

Each capability table and each grant node has a lock of its own.  An operation looks its
handle up in one hold, reads the node in another, and counts what it made on that node in a
third; between them it holds an index and nothing that keeps the node alive.  A run is any
interleaving of such holds.  Where a thread is between two of them is its `Pc`.

Two notes are kept that nothing reads: the identity of the node each entry was installed
under, and of the node each grant was derived from.  They are what the indices are compared
with.

Whatever only refuses is one choice, `refuse`, that may be made wherever the code may
refuse: rights, deadlines, lineage barriers, depth, scope ceilings, the supply of ids, the
queue and the message and invocation pools.  Which free node an allocation finds depends on
a hint other processors move, so it may be any.  What the entries count on the objects, the
invocation records and the charges is left out; none of it decides which node an index
names.  A memory handle is closed under the exclusive hold, so never here.
-/
import ThalyxKernel.Kernel.Object
import ThalyxKernel.Lib.Run
import ThalyxKernel.Lib.Tally

namespace Thalyx.Kernel.Sharing

/-- The fields of `Grant` that say which node an index names and who counts on it. -/
structure Node where
  used : Bool
  id : Nat
  parent : Option GrantId
  object : ObjRef
  refs : Nat
  children : Nat
  deriving DecidableEq, Repr

/-- `Grant::empty`. -/
def Node.empty : Node := ⟨false, 0, none, ⟨.scope 0, 0⟩, 0, 0⟩

/-- `collect_grant`'s test. -/
def Node.idle (node : Node) : Bool := node.used && node.refs == 0 && node.children == 0

/-- What an operation took from an entry: its object, its grant, and the identity of the node
the entry was installed under. -/
structure Cap where
  object : ObjRef
  grant : GrantId
  identity : Nat
  deriving DecidableEq, Repr

/-- One capability of a message: a handle, and whether it is moved. -/
structure Pick where
  handle : Handle
  moved : Bool
  deriving DecidableEq, Repr

/-- What a handle was presented for.  A send goes to the receiver of its endpoint, as the
invocation it was given a record for. -/
inductive Op where
  | derive
  | copy
  | close (handle : Handle)
  | send (receiver : DomainId) (invocation : ObjRef) (picks : List Pick)
  deriving DecidableEq, Repr

/-- A send under way: what it resolved and in which slots, what is still to be installed at the
receiver, what has been, and which of the sender's slots are consumed at the end. -/
structure Transfer where
  receiver : DomainId
  invocation : ObjRef
  endpoint : Cap
  seen : List CapSlot
  todo : List Cap
  moves : List CapSlot
  placed : List CapSlot
  deriving DecidableEq, Repr

/-- One more capability resolved. -/
def Transfer.take (x : Transfer) (cap : Cap) (slot : CapSlot) (moved : Bool) : Transfer :=
  { x with
    seen := x.seen ++ [slot]
    todo := x.todo ++ [cap]
    moves := if moved then x.moves ++ [slot] else x.moves }

/-- What a thread goes on to after it has counted or released an entry. -/
inductive Cont where
  | done
  /-- The next capability of a message. -/
  | place (x : Transfer)
  /-- The next slot to consume. -/
  | consume (x : Transfer)
  /-- The next slot to take back from the receiver. -/
  | undo (receiver : DomainId) (placed : List CapSlot)
  deriving DecidableEq, Repr

/-- Where a thread stands between two holds. -/
inductive Pc where
  | idle
  /-- `resolve_entry`: looked the entry up, about to read its node. -/
  | resolving (op : Op) (cap : Cap)
  /-- Resolved: about to do what the handle was presented for. -/
  | resolved (op : Op) (cap : Cap)
  /-- `grant_alloc`: wrote the child, about to count it on the parent. -/
  | adopting (parent child : Cap)
  /-- `derive`: about to install the child. -/
  | placing (parent child : Cap)
  /-- `derive`: the child could not be installed, about to take it from the parent. -/
  | abandoning (parent child : Cap)
  /-- `derive`: about to empty the child. -/
  | clearing (parent child : Cap)
  /-- `cap_install`: installed, about to count the entry on its node. -/
  | counting (cap : Cap) (k : Cont)
  /-- `release_entry`: released, about to take the entry from its node. -/
  | dropping (grant : GrantId) (k : Cont)
  /-- `collect_grant`: about to look at a node. -/
  | collecting (grant : GrantId) (steps : Nat) (k : Cont)
  /-- `collect_grant`: emptied a node, about to take it from its parent. -/
  | orphaning (parent : GrantId) (steps : Nat) (k : Cont)
  /-- `admit`: about to look up the next capability of the message. -/
  | gathering (x : Transfer) (todo : List Pick)
  /-- `admit`: looked one up, about to read its node. -/
  | reading (x : Transfer) (cap : Cap) (slot : CapSlot) (moved : Bool) (todo : List Pick)
  /-- `admit`: about to install the next capability at the receiver. -/
  | sending (x : Transfer)
  /-- `admit`: about to take back what was installed. -/
  | undoing (receiver : DomainId) (placed : List CapSlot)
  /-- `admit`: about to consume the next moved slot. -/
  | consuming (x : Transfer)
  /-- `admit`: about to count the invocation on the endpoint's grant. -/
  | holding (x : Transfer)
  /-- `admit`: about to queue the message, or to issue the ticket of a waiting receiver. -/
  | delivering (x : Transfer)
  /-- `issue_ticket`: about to install the ticket. -/
  | ticketing (receiver : DomainId) (ticket : Cap)
  deriving DecidableEq, Repr

structure State (T : Type) where
  tables : DomainId → CapTable
  nodes : GrantId → Node
  nextId : Nat
  pc : T → Pc
  /-- The identity of the node each entry was installed under. -/
  under : DomainId → CapSlot → Nat
  /-- The identity of the node each grant was derived from. -/
  origin : GrantId → Nat

/-- What is left open when a thread takes its next hold. -/
inductive Choice where
  | go
  | refuse
  /-- The free node an allocation finds. -/
  | node (grant : GrantId)
  deriving DecidableEq, Repr

/-- A step of a run. -/
inductive Step (T : Type) where
  /-- A thread presents a handle: the first hold of `resolve_entry`. -/
  | start (t : T) (op : Op) (handle : Handle)
  | advance (t : T) (choice : Choice)

variable {T : Type} [DecidableEq T]

def State.at (s : State T) (t : T) (pc : Pc) : State T :=
  { s with pc := Function.update s.pc t pc }

def State.setNode (s : State T) (g : GrantId) (f : Node → Node) : State T :=
  { s with nodes := Function.update s.nodes g (f (s.nodes g)) }

/-- The hold that looks a handle up. -/
def State.lookup (s : State T) (domain : DomainId) (handle : Handle) : Option (CapSlot × Cap) :=
  match (s.tables domain).lookup handle with
  | none => none
  | some (slot, entry) =>
    entry.grant.map fun grant => (slot, ⟨entry.object, grant, s.under domain slot⟩)

/-- The hold that reads the node: in use, and for the same object. -/
def State.reads (s : State T) (cap : Cap) : Bool :=
  (s.nodes cap.grant).used && (s.nodes cap.grant).object == cap.object

/-- The hold that installs: the state afterwards, and the slot if there was one. -/
def State.install (s : State T) (domain : DomainId) (cap : Cap) : State T × Option CapSlot :=
  match (s.tables domain).freeSlot with
  | none => (s, none)
  | some slot =>
    match (s.tables domain).installAt slot cap.object (some cap.grant) with
    | (table, none) => ({ s with tables := Function.update s.tables domain table }, none)
    | (table, some _) =>
      ({ s with
          tables := Function.update s.tables domain table
          under := Function.update s.under domain
            (Function.update (s.under domain) slot cap.identity) },
        some slot)

/-- The hold that releases a slot: the state afterwards, and what the slot held. -/
def State.releaseSlot (s : State T) (domain : DomainId) (slot : CapSlot) :
    State T × Option CapEntry :=
  let (table, entry) := (s.tables domain).releaseSlot slot
  ({ s with tables := Function.update s.tables domain table }, entry)

/-- The hold that releases a handle. -/
def State.release (s : State T) (domain : DomainId) (handle : Handle) :
    State T × Option CapEntry :=
  let (table, entry) := (s.tables domain).release handle
  ({ s with tables := Function.update s.tables domain table }, entry)

/-- The hold that claims a node and writes it whole. -/
def State.claim (s : State T) (g : GrantId) (parent : Option Cap) (object : ObjRef) : State T :=
  { s with
    nodes := Function.update s.nodes g
      ⟨true, s.nextId + 1, parent.map Cap.grant, object, 0, 0⟩
    nextId := s.nextId + 1
    origin := Function.update s.origin g (parent.elim 0 Cap.identity) }

/-- Where a thread is when it goes on. -/
def Cont.pc : Cont → Pc
  | .done => .idle
  | .place x => .sending x
  | .consume x => .consuming x
  | .undo receiver placed => .undoing receiver placed

/-- After a release: the reference goes next, if the entry had one. -/
def afterRelease (k : Cont) (entry : CapEntry) : Pc :=
  match entry.grant with
  | some grant => .dropping grant k
  | none => k.pc

/-- Installs for `t`, which then counts the entry and goes on with `k slot`, or goes to
`failed` when the table has no room. -/
def installing (s : State T) (t : T) (domain : DomainId) (cap : Cap) (k : CapSlot → Cont)
    (failed : Pc) : State T :=
  match s.install domain cap with
  | (s, some slot) => s.at t (.counting cap (k slot))
  | (s, none) => s.at t failed

/-- Releases a slot for `t`, which then goes on with `k`. -/
def releasing (s : State T) (t : T) (domain : DomainId) (slot : CapSlot) (k : Cont) : State T :=
  match s.releaseSlot domain slot with
  | (s, some entry) => s.at t (afterRelease k entry)
  | (s, none) => s.at t k.pc

/-- What a resolved handle was presented for. -/
def perform (domain : DomainId) (s : State T) (t : T) (cap : Cap) : Op → Choice → Option (State T)
  | .copy, .go => some (installing s t domain cap (fun _ => .done) .idle)
  | .close handle, .go =>
    if cap.object.object.kind = .memory then none
    else
      match s.release domain handle with
      | (s, some entry) => some (s.at t (afterRelease .done entry))
      | (s, none) => some (s.at t .idle)
  | .derive, .node g =>
    if (s.nodes g).used then none
    else some ((s.claim g (some cap) cap.object).at t
      (.adopting cap ⟨cap.object, g, s.nextId + 1⟩))
  | .send receiver invocation picks, .go =>
    some (s.at t (.gathering ⟨receiver, invocation, cap, [], [], [], []⟩ picks))
  | _, .refuse => some (s.at t .idle)
  | _, _ => none

/-- `collect_grant`, one node: emptied when nothing counts on it. -/
def collect (s : State T) (t : T) (g : GrantId) (steps : Nat) (k : Cont) : State T :=
  if (s.nodes g).idle then
    match (s.nodes g).parent with
    | some parent => (s.setNode g fun _ => .empty).at t (.orphaning parent steps k)
    | none => (s.setNode g fun _ => .empty).at t k.pc
  else s.at t k.pc

/-- The next capability of a message is looked up, unless an earlier one stands in the same
slot. -/
def gather (domain : DomainId) (s : State T) (t : T) (x : Transfer) (pick : Pick)
    (seen : List CapSlot) (rest : List Pick) : State T :=
  match s.lookup domain pick.handle with
  | none => s.at t .idle
  | some (slot, cap) =>
    if slot ∈ seen then s.at t .idle else s.at t (.reading x cap slot pick.moved rest)

/-- The next hold of a thread of `domain`. -/
def advance (domain : DomainId) (s : State T) (t : T) (choice : Choice) : Option (State T) :=
  match s.pc t with
  | .idle => none
  | .resolving op cap =>
    match choice with
    | .go => some (s.at t (if s.reads cap then .resolved op cap else .idle))
    | _ => some (s.at t .idle)
  | .resolved op cap => perform domain s t cap op choice
  | .adopting parent child =>
    some ((s.setNode parent.grant fun node => { node with children := node.children + 1 }).at t
      (.placing parent child))
  | .placing parent child =>
    match choice with
    | .go => some (installing s t domain child (fun _ => .done) (.abandoning parent child))
    | _ => some (s.at t (.abandoning parent child))
  | .abandoning parent child =>
    some ((s.setNode parent.grant fun node => { node with children := node.children - 1 }).at t
      (.clearing parent child))
  | .clearing _ child => some ((s.setNode child.grant fun _ => .empty).at t .idle)
  | .counting cap k =>
    some ((s.setNode cap.grant fun node => { node with refs := node.refs + 1 }).at t k.pc)
  | .dropping g k =>
    some ((s.setNode g fun node => { node with refs := node.refs - 1 }).at t
      (.collecting g maxDeriveDepth k))
  | .collecting _ 0 k => some (s.at t k.pc)
  | .collecting g (steps + 1) k => some (collect s t g steps k)
  | .orphaning parent steps k =>
    some ((s.setNode parent fun node => { node with children := node.children - 1 }).at t
      (.collecting parent steps k))
  | .gathering x (pick :: rest) => some (gather domain s t x pick x.seen rest)
  | .gathering x [] =>
    match choice with
    | .go => some (s.at t (.sending x))
    | _ => some (s.at t .idle)
  | .reading x cap slot moved rest =>
    match choice with
    | .go => some (s.at t (if s.reads cap then .gathering (x.take cap slot moved) rest else .idle))
    | _ => some (s.at t .idle)
  | .sending x =>
    match x.todo, choice with
    | cap :: rest, .go => some (installing s t x.receiver cap
        (fun slot => .place { x with placed := x.placed ++ [slot], todo := rest })
        (.undoing x.receiver x.placed))
    | _ :: _, _ => some (s.at t (.undoing x.receiver x.placed))
    | [], _ => some (s.at t (.consuming x))
  | .undoing _ [] => some (s.at t .idle)
  | .undoing receiver (slot :: rest) => some (releasing s t receiver slot (.undo receiver rest))
  | .consuming x =>
    match x.moves, choice with
    | slot :: rest, _ => some (releasing s t domain slot (.consume { x with moves := rest }))
    | [], .go => some (s.at t (.holding x))
    | [], _ => some (s.at t .idle)
  | .holding x =>
    some ((s.setNode x.endpoint.grant fun node => { node with refs := node.refs + 1 }).at t
      (.delivering x))
  | .delivering x =>
    match choice with
    | .node g =>
      if (s.nodes g).used then none
      else some ((s.claim g none x.invocation).at t
        (.ticketing x.receiver ⟨x.invocation, g, s.nextId + 1⟩))
    | _ => some (s.at t .idle)
  | .ticketing receiver ticket =>
    match choice with
    | .go => some (installing s t receiver ticket (fun _ => .done)
        (.collecting ticket.grant maxDeriveDepth .done))
    | _ => some (s.at t (.collecting ticket.grant maxDeriveDepth .done))

/-- One step of threads of `domain`. -/
def step (domain : DomainId) (s : State T) : Step T → Option (State T)
  | .start t op handle =>
    if s.pc t = .idle then
      match s.lookup domain handle with
      | none => some s
      | some (_, cap) => some (s.at t (.resolving op cap))
    else none
  | .advance t choice => advance domain s t choice

/-! ### Identity -/

/-- The entry in a slot names `g`. -/
def names (g : GrantId) (entry : CapEntry) : Nat := if entry.live ∧ entry.grant = some g then 1 else 0

/-- A node stands below `g`. -/
def below (g : GrantId) (node : Node) : Nat := if node.used ∧ node.parent = some g then 1 else 0

/-- The live entries that name `g`. -/
def State.named (s : State T) (g : GrantId) : Nat :=
  tally (fun _ entry => names g entry) fun at' : DomainId × CapSlot => s.tables at'.1 at'.2

/-- The nodes in use whose parent is `g`. -/
def State.offspring (s : State T) (g : GrantId) : Nat := tally (fun _ node => below g node) s.nodes

/-- **What is claimed**: every live entry names the node it was installed under, and every
grant's parent is the node it was derived from. -/
structure Identified (s : State T) : Prop where
  entries : ∀ domain slot g, (s.tables domain slot).live = true →
    (s.tables domain slot).grant = some g →
      (s.nodes g).used = true ∧ (s.nodes g).id = s.under domain slot
  parents : ∀ g parent, (s.nodes g).used = true → (s.nodes g).parent = some parent →
    (s.nodes parent).used = true ∧ (s.nodes parent).id = s.origin g

/-- Nobody is inside an operation, and every node in use counts what names it. -/
structure Quiet (s : State T) : Prop where
  idle : ∀ t, s.pc t = .idle
  identified : Identified s
  refs : ∀ g, (s.nodes g).used = true → s.named g ≤ (s.nodes g).refs
  children : ∀ g, (s.nodes g).used = true → s.offspring g ≤ (s.nodes g).children

/-- The threads of one domain, from any state between operations. -/
def system (domain : DomainId) : System (State T) (Step T) := System.ofStep Quiet (step domain)

/-! ### When a collection disturbs nobody -/

/-- What a thread goes on to count on. -/
def Cont.relies : Cont → List Cap
  | .done => []
  | .place x => x.endpoint :: x.todo
  | .consume x => [x.endpoint]
  | .undo _ _ => []

/-- The nodes a thread has resolved or claimed and not yet counted what it makes of them. -/
def Pc.relies : Pc → List Cap
  | .resolving (.close _) _ => []
  | .resolved (.close _) _ => []
  | .resolving _ cap => [cap]
  | .resolved _ cap => [cap]
  | .adopting parent child => [parent, child]
  | .placing parent child => [parent, child]
  | .abandoning parent child => [parent, child]
  | .clearing parent child => [parent, child]
  | .counting cap k => cap :: k.relies
  | .dropping _ k => k.relies
  | .collecting _ _ k => k.relies
  | .orphaning _ _ k => k.relies
  | .gathering x _ => x.endpoint :: x.todo
  | .reading x cap _ _ _ => cap :: x.endpoint :: x.todo
  | .sending x => x.endpoint :: x.todo
  | .consuming x => [x.endpoint]
  | .holding x => [x.endpoint]
  | .ticketing _ ticket => [ticket]
  | _ => []

/-- A collection about to empty a node finds nobody relying on it. -/
def Spares (s : State T) : Pc → Prop
  | .collecting g (_ + 1) _ =>
    (s.nodes g).idle = true → ∀ t, ∀ cap ∈ (s.pc t).relies, cap.grant ≠ g
  | _ => True

/-- A step in which no collection empties a node somebody relies on. -/
def Undisturbed (s : State T) : Step T → Prop
  | .start _ _ _ => True
  | .advance t _ => Spares s (s.pc t)

instance [Fintype T] (s : State T) : (pc : Pc) → Decidable (Spares s pc)
  | .collecting g (_ + 1) _ => inferInstanceAs (Decidable ((s.nodes g).idle = true →
      ∀ t, ∀ cap ∈ (s.pc t).relies, cap.grant ≠ g))
  | .collecting _ 0 _ | .idle | .resolving _ _ | .resolved _ _ | .adopting _ _ | .placing _ _
  | .abandoning _ _ | .clearing _ _ | .counting _ _ | .dropping _ _ | .orphaning _ _ _
  | .gathering _ _ | .reading _ _ _ _ _ | .sending _ | .undoing _ _ | .consuming _ | .holding _
  | .delivering _ | .ticketing _ _ => .isTrue trivial

instance [Fintype T] (s : State T) : (a : Step T) → Decidable (Undisturbed s a)
  | .start _ _ _ => .isTrue trivial
  | .advance t _ => inferInstanceAs (Decidable (Spares s (s.pc t)))

end Thalyx.Kernel.Sharing
