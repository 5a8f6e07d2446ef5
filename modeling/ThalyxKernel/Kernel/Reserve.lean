/-
Reservation and release from many processors at once: `reserve`, `release` and
`bounded_add` of `kernel/src/scope.rs`.

The counters move without the machine lock.  A reservation walks its chain leaf first; at
each level it reads the scope's state, adds the amount to the counter, and only then
compares what the counter held before with the ceiling.  A refusal takes the amount back
out, first at the level that refused and then at every level below it.  A release walks
the same chain with a load and a compare-and-exchange at each level.  A run is any
interleaving of these single accesses by any number of processors.

Between an add and its undo a counter stands above what was granted, and another
processor may be refused because of it; what may not happen is the opposite.  The
invariant says what each counter holds: what was granted and not returned, what is on its
way to be granted or to be returned, and what is about to be undone.  Only the first two
passed the comparison, and the comparison was made against all three.

The tree, the ceilings and the resource are fixed; scopes may open and close at any time.
-/
import ThalyxKernel.Kernel.Scope
import ThalyxKernel.Lib.Run
import ThalyxKernel.Lib.Tally

namespace Thalyx.Kernel.Reserve

open List Function Option

/-- A scope table whose parents stand above their children. -/
structure Tree where
  scopes : Scopes
  above : ∀ i parent, (scopes i).parent = some parent → (scopes parent).depth < (scopes i).depth

/-- `Chain::of`. -/
def Tree.chain (tree : Tree) (scope : ScopeId) : List ScopeId := tree.scopes.chain scope

/-- Where a processor stands between two accesses. -/
inductive Pc where
  | idle
  /-- `reserve`: charged `done`, about to read the state of the first of `rest`. -/
  | looking (scope : ScopeId) (amount : Nat) (done rest : List ScopeId)
  /-- `bounded_add`: found `node` open, about to add. -/
  | adding (scope : ScopeId) (amount : Nat) (done : List ScopeId) (node : ScopeId)
      (rest : List ScopeId)
  /-- Refused: about to take the amount back out of each of `left`. -/
  | undoing (amount : Nat) (left : List ScopeId)
  /-- `release`: about to load the counter of the first of `left`. -/
  | loading (amount : Nat) (left : List ScopeId)
  /-- `release`: about to exchange `current` at `node`. -/
  | swapping (amount current : Nat) (node : ScopeId) (left : List ScopeId)
  deriving DecidableEq, Repr

/-- The counters of one resource, and the processors. -/
structure State (P : Type) where
  counter : ScopeId → Nat
  state : ScopeId → ScopeState
  pc : P → Pc
  /-- What reservations of each scope were granted and no release has been called for. -/
  granted : ScopeId → Nat

/-- A step of a run. -/
inductive Step (P : Type) where
  /-- A processor calls `reserve`. -/
  | reserve (p : P) (scope : ScopeId) (amount : Nat)
  /-- A processor calls `release`. -/
  | release (p : P) (scope : ScopeId) (amount : Nat)
  /-- A processor makes its next access; a weak exchange may fail without cause. -/
  | advance (p : P) (spurious : Bool)
  /-- A scope changes its state. -/
  | setState (scope : ScopeId) (state : ScopeState)

/-- `u64::MAX`. -/
def maxU64 : Nat := 2 ^ 64 - 1

/-- `AtomicU64::fetch_add`. -/
def fetchAdd (value amount : Nat) : Nat := (value + amount) % 2 ^ 64

/-- `AtomicU64::fetch_sub`. -/
def fetchSub (value amount : Nat) : Nat := (value + (2 ^ 64 - amount)) % 2 ^ 64

/-- `u64::saturating_add`. -/
def saturatingAdd (value amount : Nat) : Nat := min (value + amount) maxU64

variable {P : Type} [DecidableEq P]

def State.at (s : State P) (p : P) (pc : Pc) : State P :=
  { s with pc := Function.update s.pc p pc }

def State.store (s : State P) (node : ScopeId) (value : Nat) : State P :=
  { s with counter := Function.update s.counter node value }

/-- The comparison of `bounded_add`, made on the value the add returned. -/
def Tree.fits (tree : Tree) (resource : Resource) (node : ScopeId) (previous amount : Nat) : Bool :=
  saturatingAdd previous amount ≤ (tree.scopes node).limits.of resource

/-- One access of a processor inside `reserve` or `release`. -/
def advance (tree : Tree) (resource : Resource) (s : State P) (p : P) (spurious : Bool) :
    Option (State P) :=
  match s.pc p with
  | .idle => none
  | .looking scope amount _ [] =>
    some { s.at p .idle with
      granted := Function.update s.granted scope (s.granted scope + amount) }
  | .looking scope amount done (node :: rest) =>
    if s.state node = .opened then some (s.at p (.adding scope amount done node rest))
    else some (s.at p (.undoing amount done))
  | .adding scope amount done node rest =>
    let previous := s.counter node
    let t := s.store node (fetchAdd previous amount)
    if tree.fits resource node previous amount then
      some (t.at p (.looking scope amount (done ++ [node]) rest))
    else some (t.at p (.undoing amount (node :: done)))
  | .undoing _ [] => some (s.at p .idle)
  | .undoing amount (node :: left) =>
    some ((s.store node (fetchSub (s.counter node) amount)).at p (.undoing amount left))
  | .loading _ [] => some (s.at p .idle)
  | .loading amount (node :: left) =>
    some (s.at p (.swapping amount (s.counter node) node left))
  | .swapping amount current node left =>
    if s.counter node = current ∧ spurious = false then
      some ((s.store node (current - amount)).at p (.loading amount left))
    else some (s.at p (.swapping amount (s.counter node) node left))

/-- One step.  A release is called only for what was granted. -/
def step (tree : Tree) (resource : Resource) (s : State P) : Step P → Option (State P)
  | .reserve p scope amount =>
    if s.pc p = .idle ∧ amount ≤ maxU64 then
      some (s.at p (.looking scope amount [] (tree.chain scope)))
    else none
  | .release p scope amount =>
    if s.pc p = .idle ∧ amount ≤ s.granted scope then
      some { s.at p (.loading amount (tree.chain scope)) with
        granted := Function.update s.granted scope (s.granted scope - amount) }
    else none
  | .advance p spurious => advance tree resource s p spurious
  | .setState scope state => some { s with state := Function.update s.state scope state }

/-- Nothing charged, nothing granted, nobody inside an operation. -/
def Fresh (s : State P) : Prop :=
  (∀ n, s.counter n = 0) ∧ (∀ n, s.granted n = 0) ∧ ∀ p, s.pc p = .idle

/-- The processors over one tree and one resource. -/
def system (tree : Tree) (resource : Resource) : System (State P) (Step P) :=
  System.ofStep Fresh (step tree resource)

/-! ### What is outstanding -/

/-- What a release in progress has yet to take out of `n`. -/
def Pc.unreturned (n : ScopeId) : Pc → Nat
  | .loading amount left => if n ∈ left then amount else 0
  | .swapping amount _ node left => if n ∈ node :: left then amount else 0
  | _ => 0

/-- The amount of a reservation that has not been decided. -/
def Pc.inFlight : Pc → Nat
  | .looking _ amount _ _ => amount
  | .adding _ amount _ _ _ => amount
  | _ => 0

/-- What an amount granted to `scope` means to `n`. -/
def Tree.share (tree : Tree) (n scope : ScopeId) (amount : Nat) : Nat :=
  if n ∈ tree.chain scope then amount else 0

/-- What `n` and the scopes below it were granted and no release was called for. -/
def State.standing (tree : Tree) (s : State P) (n : ScopeId) : Nat :=
  tally (tree.share n) s.granted

section

variable [Fintype P]

/-- What was granted at or below `n` and has not been returned to it. -/
def State.outstanding (tree : Tree) (s : State P) (n : ScopeId) : Nat :=
  s.standing tree n + tally (fun _ pc => pc.unreturned n) s.pc

/-- No counter can overflow: with everything in flight added it is still a `u64`. -/
def InRange (s : State P) : Prop :=
  ∀ n, s.counter n + tally (fun _ pc => pc.inFlight) s.pc ≤ maxU64

instance (s : State P) : Decidable (InRange s) :=
  inferInstanceAs (Decidable (∀ n, s.counter n + tally (fun _ pc => pc.inFlight) s.pc ≤ maxU64))

end

/-! ### Chains -/

theorem depth_lt_of_mem_chainUpTo (tree : Tree) (fuel : Nat) (scope n : ScopeId)
    (h : n ∈ tree.scopes.chainUpTo fuel scope) :
    n = scope ∨ (tree.scopes n).depth < (tree.scopes scope).depth := by
  induction fuel generalizing scope with
  | zero => simp [Scopes.chainUpTo] at h
  | succ fuel ih =>
    rw [Scopes.chainUpTo, mem_cons] at h
    rcases h with rfl | h
    · exact .inl rfl
    · cases hp : (tree.scopes scope).parent with
      | none => simp [hp] at h
      | some parent =>
        rw [hp] at h
        have habove := tree.above scope parent hp
        rcases ih parent h with rfl | hlt
        · exact .inr habove
        · exact .inr (hlt.trans habove)

theorem chain_nodup (tree : Tree) (scope : ScopeId) : (tree.chain scope).Nodup := by
  suffices h : ∀ fuel scope, (tree.scopes.chainUpTo fuel scope).Nodup from h _ scope
  intro fuel
  induction fuel with
  | zero => intro scope; simp [Scopes.chainUpTo]
  | succ fuel ih =>
    intro scope
    rw [Scopes.chainUpTo, nodup_cons]
    cases hp : (tree.scopes scope).parent with
    | none => simp
    | some parent =>
      refine ⟨?_, ih parent⟩
      intro hmem
      have habove := tree.above scope parent hp
      rcases depth_lt_of_mem_chainUpTo tree fuel parent scope hmem with heq | hlt
      · exact absurd habove (heq ▸ Nat.lt_irrefl _)
      · exact absurd (hlt.trans habove) (Nat.lt_irrefl _)

/-! ### The invariant -/

/-- What a processor has put into `n` that passed the comparison there. -/
def Pc.passed (n : ScopeId) : Pc → Nat
  | .looking _ amount done _ => if n ∈ done then amount else 0
  | .adding _ amount done _ _ => if n ∈ done then amount else 0
  | .loading amount left => if n ∈ left then amount else 0
  | .swapping amount _ node left => if n ∈ node :: left then amount else 0
  | _ => 0

/-- What a processor has put into `n` and is about to undo. -/
def Pc.undone (n : ScopeId) : Pc → Nat
  | .undoing amount left => if n ∈ left then amount else 0
  | _ => 0

/-- A walk stands somewhere on a chain, and passes no scope twice. -/
def Pc.Placed (tree : Tree) : Pc → Prop
  | .idle => True
  | .looking scope _ done rest => done ++ rest = tree.chain scope
  | .adding scope _ done node rest => done ++ node :: rest = tree.chain scope
  | .undoing _ left => left.Nodup
  | .loading _ left => left.Nodup
  | .swapping _ _ node left => (node :: left).Nodup

theorem Pc.unreturned_le_passed (n : ScopeId) (pc : Pc) : pc.unreturned n ≤ pc.passed n := by
  cases pc <;> simp [Pc.unreturned, Pc.passed]

variable [Fintype P] {tree : Tree} {resource : Resource} {s s' : State P}

/-- Every counter is accounted for, and what passed the comparison is below the ceiling. -/
structure Accounted (tree : Tree) (resource : Resource) (s : State P) : Prop where
  placed : ∀ p, (s.pc p).Placed tree
  counted : ∀ n, s.counter n = s.standing tree n + tally (fun _ pc => pc.passed n) s.pc +
    tally (fun _ pc => pc.undone n) s.pc
  below : ∀ n, s.standing tree n + tally (fun _ pc => pc.passed n) s.pc ≤
    (tree.scopes n).limits.of resource

variable {pc : Pc}

/-- One processor moves: the invariant is kept when its old and its new position account for
the difference in every counter, and what it has newly passed was compared with the ceiling
on top of the whole counter. -/
theorem Accounted.move (h : Accounted tree resource s) (p : P)
    (hpc : s'.pc = update s.pc p pc) (hplaced : pc.Placed tree)
    (hcounted : ∀ n, s'.counter n + (s.standing tree n + (s.pc p).passed n + (s.pc p).undone n) =
      s.counter n + (s'.standing tree n + pc.passed n + pc.undone n))
    (hbelow : ∀ n, ∃ extra, (extra = 0 ∨ s.counter n + extra ≤ (tree.scopes n).limits.of resource) ∧
      s'.standing tree n + pc.passed n ≤ s.standing tree n + (s.pc p).passed n + extra) :
    Accounted tree resource s' := by
  have hpassed : ∀ n, tally (fun _ pc => pc.passed n) s'.pc + (s.pc p).passed n =
      tally (fun _ pc => pc.passed n) s.pc + pc.passed n := by
    intro n
    rw [hpc]
    exact tally_update (fun _ pc => pc.passed n) s.pc p pc
  refine ⟨?_, ?_, ?_⟩
  · intro q
    rw [hpc]
    by_cases hq : q = p
    · rw [hq, update_self]
      exact hplaced
    · rw [update_of_ne hq]
      exact h.placed q
  · intro n
    have hundone : tally (fun _ pc => pc.undone n) s'.pc + (s.pc p).undone n =
        tally (fun _ pc => pc.undone n) s.pc + pc.undone n := by
      rw [hpc]
      exact tally_update (fun _ pc => pc.undone n) s.pc p pc
    have := h.counted n
    have := hcounted n
    have := hpassed n
    omega
  · intro n
    obtain ⟨extra, hextra, hle⟩ := hbelow n
    have := h.counted n
    have := h.below n
    have := hpassed n
    omega

theorem Accounted.walk (h : Accounted tree resource s) (p : P) (hplaced : pc.Placed tree)
    (hshare : ∀ n, pc.passed n + pc.undone n = (s.pc p).passed n + (s.pc p).undone n)
    (hpassed : ∀ n, pc.passed n ≤ (s.pc p).passed n) : Accounted tree resource (s.at p pc) := by
  refine h.move p rfl hplaced ?_ ?_
  · intro n
    have := hshare n
    show s.counter n + _ = s.counter n + (s.standing tree n + _ + _)
    omega
  · intro n
    refine ⟨0, .inl rfl, ?_⟩
    have := hpassed n
    show s.standing tree n + _ ≤ _
    omega

variable {node : ScopeId}

theorem Accounted.store (h : Accounted tree resource s) (p : P)
    {value : Nat} (hplaced : pc.Placed tree)
    (hnode : value + ((s.pc p).passed node + (s.pc p).undone node) =
      s.counter node + (pc.passed node + pc.undone node)) (hother : ∀ n, n ≠ node →
      pc.passed n + pc.undone n = (s.pc p).passed n + (s.pc p).undone n)
    (hpassed : ∀ n, pc.passed n ≤ (s.pc p).passed n ∨
      n = node ∧ ∃ amount, pc.passed n ≤ (s.pc p).passed n + amount ∧
        s.counter node + amount ≤ (tree.scopes node).limits.of resource) :
    Accounted tree resource ((s.store node value).at p pc) := by
  refine h.move p rfl hplaced ?_ ?_
  · intro n
    show update s.counter node value n + _ = s.counter n + (s.standing tree n + _ + _)
    by_cases hn : n = node
    · subst hn
      rw [update_self]
      omega
    · rw [update_of_ne hn]
      have := hother n hn
      omega
  · intro n
    show ∃ extra, _ ∧ s.standing tree n + _ ≤ _
    rcases hpassed n with hle | ⟨rfl, amount, hle, hfits⟩
    · exact ⟨0, .inl rfl, by omega⟩
    · exact ⟨amount, .inr hfits, by omega⟩

/-! ### What one step does -/

omit [DecidableEq P] [Fintype P] in
theorem standing_update (tree : Tree) (s : State P) (n scope : ScopeId) (amount : Nat) :
    tally (tree.share n) (update s.granted scope amount) +
      tree.share n scope (s.granted scope) =
        s.standing tree n + tree.share n scope amount :=
  tally_update (tree.share n) s.granted scope amount

variable {p : P}

theorem Accounted.reserve (h : Accounted tree resource s) (hidle : s.pc p = .idle)
    (scope : ScopeId) (amount : Nat) :
    Accounted tree resource (s.at p (.looking scope amount [] (tree.chain scope))) := by
  refine h.walk p ?_ ?_ ?_
  · simp [Pc.Placed]
  · simp [hidle, Pc.passed, Pc.undone]
  · simp [Pc.passed]

variable {amount : Nat}

theorem Accounted.release (h : Accounted tree resource s) (hidle : s.pc p = .idle)
    (scope : ScopeId) (hgranted : amount ≤ s.granted scope) :
    Accounted tree resource { s.at p (.loading amount (tree.chain scope)) with
      granted := update s.granted scope (s.granted scope - amount) } := by
  set t : State P := { s.at p (.loading amount (tree.chain scope)) with
    granted := update s.granted scope (s.granted scope - amount) }
  have hstanding : ∀ n, t.standing tree n + (if n ∈ tree.chain scope then amount else 0) =
      s.standing tree n := by
    intro n
    have htrade := standing_update tree s n scope (s.granted scope - amount)
    show tally (tree.share n) (update s.granted scope (s.granted scope - amount)) + _ = _
    by_cases hmem : n ∈ tree.chain scope
    · rw [Tree.share, Tree.share, if_pos hmem, if_pos hmem] at htrade
      rw [if_pos hmem]
      omega
    · rw [Tree.share, Tree.share, if_neg hmem, if_neg hmem] at htrade
      rw [if_neg hmem]
      omega
  refine h.move p rfl (chain_nodup tree scope) ?_ ?_
  · intro n
    have := hstanding n
    simp only [hidle, Pc.passed, Pc.undone]
    show s.counter n + _ = _
    omega
  · intro n
    refine ⟨0, .inl rfl, ?_⟩
    have := hstanding n
    simp only [hidle, Pc.passed]
    omega

variable {scope : ScopeId} {done left : List ScopeId}

theorem Accounted.grant (h : Accounted tree resource s)
    (hpc : s.pc p = .looking scope amount done []) :
    Accounted tree resource { s.at p .idle with
      granted := update s.granted scope (s.granted scope + amount) } := by
  have hdone : done = tree.chain scope := by
    have := h.placed p
    rw [hpc] at this
    simpa [Pc.Placed] using this
  set t : State P := { s.at p .idle with
    granted := update s.granted scope (s.granted scope + amount) }
  have hstanding : ∀ n, t.standing tree n =
      s.standing tree n + (if n ∈ done then amount else 0) := by
    intro n
    have htrade := standing_update tree s n scope (s.granted scope + amount)
    show tally (tree.share n) (update s.granted scope (s.granted scope + amount)) = _
    rw [hdone]
    by_cases hmem : n ∈ tree.chain scope
    · rw [Tree.share, Tree.share, if_pos hmem, if_pos hmem] at htrade
      rw [if_pos hmem]
      omega
    · rw [Tree.share, Tree.share, if_neg hmem, if_neg hmem] at htrade
      rw [if_neg hmem]
      omega
  refine h.move p rfl trivial ?_ ?_
  · intro n
    have := hstanding n
    simp only [hpc, Pc.passed, Pc.undone]
    show s.counter n + _ = _
    omega
  · intro n
    refine ⟨0, .inl rfl, ?_⟩
    have := hstanding n
    simp only [hpc, Pc.passed]
    omega

theorem Accounted.add (h : Accounted tree resource s) (hrange : InRange s) {rest : List ScopeId}
    (hpc : s.pc p = .adding scope amount done node rest) :
    Accounted tree resource ((s.store node (fetchAdd (s.counter node) amount)).at p
      (if tree.fits resource node (s.counter node) amount then
        .looking scope amount (done ++ [node]) rest else .undoing amount (node :: done))) := by
  have hplaced := h.placed p
  rw [hpc] at hplaced
  have hnodup : (done ++ node :: rest).Nodup := by
    rw [show done ++ node :: rest = tree.chain scope from hplaced]
    exact chain_nodup tree scope
  have hfresh : node ∉ done := by
    intro hmem
    exact (nodup_append.mp hnodup).2.2 node hmem node mem_cons_self rfl
  have hroom : s.counter node + amount ≤ maxU64 := by
    have hin : amount ≤ tally (fun _ pc => Pc.inFlight pc) s.pc := by
      have := le_tally (fun _ pc => Pc.inFlight pc) s.pc p
      rwa [hpc] at this
    have := hrange node
    omega
  have hsum : fetchAdd (s.counter node) amount = s.counter node + amount := by
    unfold maxU64 at hroom
    exact Nat.mod_eq_of_lt (by omega)
  rw [hsum]
  split
  · rename_i hfits
    have hlimit : s.counter node + amount ≤ (tree.scopes node).limits.of resource := by
      simpa [Tree.fits, saturatingAdd, Nat.min_eq_left hroom] using hfits
    refine h.store p ?_ ?_ ?_ ?_
    · simpa [Pc.Placed] using hplaced
    · simp [hpc, Pc.passed, Pc.undone, hfresh]
    · intro n hn
      simp [hpc, Pc.passed, Pc.undone, hn]
    · intro n
      by_cases hn : n = node
      · exact .inr ⟨hn, amount, by simp [hpc, Pc.passed, hn, hfresh], hlimit⟩
      · exact .inl (by simp [hpc, Pc.passed, hn])
  · refine h.store p ?_ ?_ ?_ ?_
    · exact nodup_cons.mpr ⟨hfresh, (nodup_append.mp hnodup).1⟩
    · simp [hpc, Pc.passed, Pc.undone, hfresh]
    · intro n hn
      simp [hpc, Pc.passed, Pc.undone, hn]
    · intro n
      exact .inl (Nat.zero_le _)

omit [DecidableEq P] in
theorem Accounted.le_counter (h : Accounted tree resource s) (p : P) (n : ScopeId) :
    (s.pc p).passed n + (s.pc p).undone n ≤ s.counter n := by
  have hpassed := le_tally (fun _ pc => Pc.passed n pc) s.pc p
  have hundone := le_tally (fun _ pc => Pc.undone n pc) s.pc p
  have := h.counted n
  omega

theorem Accounted.undo (h : Accounted tree resource s) (hrange : InRange s)
    (hpc : s.pc p = .undoing amount (node :: left)) :
    Accounted tree resource ((s.store node (fetchSub (s.counter node) amount)).at p
      (.undoing amount left)) := by
  have hplaced := h.placed p
  rw [hpc] at hplaced
  obtain ⟨hfresh, hnodup⟩ := nodup_cons.mp hplaced
  have hin : amount ≤ s.counter node := by
    have := h.le_counter p node
    simpa [hpc, Pc.passed, Pc.undone] using this
  have hdiff : fetchSub (s.counter node) amount = s.counter node - amount := by
    have hbound := hrange node
    unfold maxU64 at hbound
    unfold fetchSub
    omega
  rw [hdiff]
  refine h.store p hnodup ?_ ?_ ?_
  · simp [hpc, Pc.passed, Pc.undone, hfresh, Nat.sub_add_cancel hin]
  · intro n hn
    simp [hpc, Pc.passed, Pc.undone, hn]
  · intro n
    exact .inl (by simp [Pc.passed])

theorem Accounted.swap (h : Accounted tree resource s)
    (hpc : s.pc p = .swapping amount (s.counter node) node left) :
    Accounted tree resource ((s.store node (s.counter node - amount)).at p
      (.loading amount left)) := by
  have hplaced := h.placed p
  rw [hpc] at hplaced
  obtain ⟨hfresh, hnodup⟩ := nodup_cons.mp hplaced
  have hin : amount ≤ s.counter node := by
    have := h.le_counter p node
    simpa [hpc, Pc.passed, Pc.undone] using this
  refine h.store p hnodup ?_ ?_ ?_
  · simp [hpc, Pc.passed, Pc.undone, hfresh, Nat.sub_add_cancel hin]
  · intro n hn
    simp [hpc, Pc.passed, Pc.undone, hn]
  · intro n
    refine .inl ?_
    simp only [hpc, Pc.passed]
    split <;> simp_all

theorem Accounted.advance (h : Accounted tree resource s) (hrange : InRange s)
    {spurious : Bool} (hs : advance tree resource s p spurious = some s') :
    Accounted tree resource s' := by
  have hplaced := h.placed p
  unfold Reserve.advance at hs
  split at hs
  · exact absurd hs (by simp)
  · rename_i hpc
    exact some.inj hs ▸ h.grant hpc
  · rename_i scope amount done node rest hpc
    rw [hpc] at hplaced
    split at hs
    · obtain rfl := some.inj hs
      exact h.walk p hplaced (by simp [hpc, Pc.passed, Pc.undone]) (by simp [hpc, Pc.passed])
    · obtain rfl := some.inj hs
      have hnodup : (done ++ node :: rest).Nodup := by
        rw [show done ++ node :: rest = tree.chain scope from hplaced]
        exact chain_nodup tree scope
      exact h.walk p (nodup_append.mp hnodup).1 (by simp [hpc, Pc.passed, Pc.undone])
        (by simp [Pc.passed])
  · rename_i hpc
    have hadd := h.add hrange hpc
    dsimp only at hs
    split at hs <;> rename_i hfits
    · rw [if_pos hfits] at hadd
      exact some.inj hs ▸ hadd
    · rw [if_neg hfits] at hadd
      exact some.inj hs ▸ hadd
  · rename_i hpc
    obtain rfl := some.inj hs
    exact h.walk p trivial (by simp [hpc, Pc.passed, Pc.undone]) (by simp [Pc.passed])
  · rename_i hpc
    exact some.inj hs ▸ h.undo hrange hpc
  · rename_i hpc
    obtain rfl := some.inj hs
    exact h.walk p trivial (by simp [hpc, Pc.passed, Pc.undone]) (by simp [Pc.passed])
  · rename_i hpc
    rw [hpc] at hplaced
    obtain rfl := some.inj hs
    exact h.walk p hplaced (by simp [hpc, Pc.passed, Pc.undone]) (by simp [hpc, Pc.passed])
  · rename_i hpc
    split at hs
    · rename_i hswap
      obtain ⟨rfl, -⟩ := hswap
      exact some.inj hs ▸ h.swap hpc
    · rw [hpc] at hplaced
      obtain rfl := some.inj hs
      exact h.walk p hplaced (by simp [hpc, Pc.passed, Pc.undone]) (by simp [hpc, Pc.passed])

theorem Accounted.step (h : Accounted tree resource s) (hrange : InRange s) {a : Step P}
    (hs : step tree resource s a = some s') : Accounted tree resource s' := by
  cases a with
  | reserve p scope amount =>
    obtain ⟨hguard, hs⟩ := ite_none_right_eq_some.mp hs
    exact some.inj hs ▸ h.reserve hguard.1 scope amount
  | release p scope amount =>
    obtain ⟨hguard, hs⟩ := ite_none_right_eq_some.mp hs
    exact some.inj hs ▸ h.release hguard.1 scope hguard.2
  | advance p spurious => exact h.advance hrange hs
  | setState scope state =>
    obtain rfl := some.inj hs
    exact ⟨h.placed, h.counted, h.below⟩

omit [DecidableEq P] in
theorem Fresh.accounted (h : Fresh s) : Accounted tree resource s := by
  obtain ⟨hcounter, hgranted, hidle⟩ := h
  have hstanding : ∀ n, s.standing tree n = 0 := by
    intro n
    refine tally_eq_zero ?_
    simp [Tree.share, hgranted]
  have hpassed : ∀ n, tally (fun _ pc => Pc.passed n pc) s.pc = 0 := by
    intro n
    refine tally_eq_zero ?_
    simp [hidle, Pc.passed]
  have hundone : ∀ n, tally (fun _ pc => Pc.undone n pc) s.pc = 0 := by
    intro n
    refine tally_eq_zero ?_
    simp [hidle, Pc.undone]
  refine ⟨?_, ?_, ?_⟩
  · simp [hidle, Pc.Placed]
  · intro n
    rw [hcounter, hstanding, hpassed, hundone]
  · intro n
    rw [hstanding, hpassed]
    exact Nat.zero_le _

theorem accounted_of_reachable
    (h : ((system (P := P) tree resource).within fun s _ => InRange s).Reachable s) :
    Accounted tree resource s := by
  refine System.Reachable.invariant ?_ ?_ h
  · intro t ht
    exact Fresh.accounted ht
  · intro t a t' ht hstep
    exact ht.step hstep.1 hstep.2

/-! ### Results -/

/-- **No interleaving over-admits.**  In every run whose counters stay in range, at every
scope what was granted at or below it and has not been returned to it is at most its ceiling;
and once nobody is inside an operation every counter is exactly what was granted. -/
theorem reserve_never_overadmits (tree : Tree) (resource : Resource) {s : State P}
    (h : ((system (P := P) tree resource).within fun s _ => InRange s).Reachable s) :
    (∀ n, s.outstanding tree n ≤ (tree.scopes n).limits.of resource) ∧
      ((∀ p, s.pc p = .idle) → ∀ n, s.counter n = s.standing tree n) := by
  have hacc := accounted_of_reachable h
  refine ⟨?_, ?_⟩
  · intro n
    have hle : tally (fun _ pc => Pc.unreturned n pc) s.pc ≤
        tally (fun _ pc => Pc.passed n pc) s.pc :=
      tally_le_tally fun p => Pc.unreturned_le_passed n (s.pc p)
    have := hacc.below n
    unfold State.outstanding
    omega
  · intro hidle n
    have hpassed : tally (fun _ pc => Pc.passed n pc) s.pc = 0 := by
      refine tally_eq_zero ?_
      simp [hidle, Pc.passed]
    have hundone : tally (fun _ pc => Pc.undone n pc) s.pc = 0 := by
      refine tally_eq_zero ?_
      simp [hidle, Pc.undone]
    have := hacc.counted n
    omega

/-- A root with room for ten and a child with room for eight. -/
def twoScopes : Tree where
  scopes := fun i =>
    if i = 0 then { Scope.empty with limits := { Limits.zero with metadataObjects := 10 } }
    else if i = 1 then
      { Scope.empty with
        parent := some 0, depth := 1, limits := { Limits.zero with metadataObjects := 8 } }
    else .empty
  above := by decide +kernel

/-- Two processors, both scopes open. -/
def twoProcessors : State Bool where
  counter := fun _ => 0
  state := fun _ => .opened
  pc := fun _ => .idle
  granted := fun _ => 0

/-- One processor reserves seven below the root; the other, finding the counter of the child
already charged, is refused there and undoes its own add. -/
def contended : List (Step Bool) :=
  [.reserve true 1 7, .reserve false 1 5, .advance true false, .advance false false,
    .advance true false, .advance false false, .advance true false, .advance false false,
    .advance true false, .advance false false, .advance true false]

theorem contended_reservation_is_bounded : ∃ s : State Bool, s.granted 1 = 7 ∧
    (∀ n, s.outstanding twoScopes n ≤ (twoScopes.scopes n).limits.of .metadata) ∧
      ∀ n, s.counter n = s.standing twoScopes n := by
  have hfresh : Fresh twoProcessors := ⟨fun _ => rfl, fun _ => rfl, fun _ => rfl⟩
  have hrun : (System.exec (System.guarded (fun s _ => InRange s) (step twoScopes .metadata))
      contended twoProcessors).map (fun s => (s.granted 1, s.pc true, s.pc false)) =
        some (7, .idle, .idle) := by
    decide +kernel
  obtain ⟨s, hs, hend⟩ := map_eq_some_iff.mp hrun
  obtain ⟨hgranted, htrue, hfalse⟩ : s.granted 1 = 7 ∧ s.pc true = .idle ∧ s.pc false = .idle := by
    simpa using hend
  have hstart : ((system twoScopes .metadata).within fun s _ => InRange s).Reachable
      twoProcessors := .init hfresh
  have hreach := System.reachable_within_of_guarded hstart hs
  obtain ⟨hbound, hidle⟩ := reserve_never_overadmits twoScopes .metadata hreach
  refine ⟨s, hgranted, hbound, hidle ?_⟩
  intro p
  cases p with
  | false => exact hfalse
  | true => exact htrue

end Thalyx.Kernel.Reserve
