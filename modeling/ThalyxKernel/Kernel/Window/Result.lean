/-
What a committed counter holds while windows roll.

The invariant adds up what every processor has in a counter: a reservation in progress
what it has added and may have to undo, a return what it has yet to take out.  It holds at
every scope that is not being written by a roll, and a roll restores it because nobody has
anything in the counter it overwrites.  That is the one thing the code does not see to: a
reservation whose add a roll has overwritten still undoes it, and takes the counter of the
new window below zero.
-/
import ThalyxKernel.Kernel.Window.Model

namespace Thalyx.Kernel.Window

open Reserve (Tree fetchAdd fetchSub saturatingAdd maxU64 chain_nodup)

/-! ### What a processor has in a counter -/

/-- What a processor has in the counter of `n`, which is in window `w`, and will take out or
turn into a reservation. -/
def Pc.held (recovery : Bool) (n : ScopeId) (w : Nat) : Pc → Nat
  | .adding r _ done _ => if r.recovery = recovery ∧ n ∈ done then r.amount else 0
  | .undoing r _ left => if r.recovery = recovery ∧ n ∈ left then r.amount else 0
  | .returning r left =>
    if r.recovery = recovery ∧ n ∈ left ∧ w = r.window then r.amount else 0
  | .loading r node left =>
    if r.recovery = recovery ∧ n ∈ node :: left ∧ w = r.window then r.amount else 0
  | .swapping r _ node left =>
    if r.recovery = recovery ∧ n ∈ node :: left ∧ w = r.window then r.amount else 0
  | _ => 0

/-- The excess a processor has yet to put into the counter of `n`. -/
def Pc.owed (recovery : Bool) (n : ScopeId) : Pc → Nat
  | .exceeding k ns left => if k = recovery ∧ n ∈ left then ns else 0
  | _ => 0

/-- A processor holds `ROLL`. -/
def Pc.rolling : Pc → Bool
  | .scanning .. => true
  | .closing .. => true
  | .opening .. => true
  | .storing .. => true
  | _ => false

/-- A processor is writing a scope of a roll. -/
def Pc.stores : Pc → Bool
  | .storing .. => true
  | _ => false

/-- A roll has begun to write `n` and has not put it into its new window. -/
def Pc.writes (n : ScopeId) : Pc → Bool
  | .storing _ _ node _ stage => n = node ∧ stage ≠ .close
  | _ => false

variable {P : Type} [DecidableEq P]

/-- A move that stays outside the writes of a roll, and on its side of the lock. -/
def Pc.Beside (pc pc' : Pc) : Prop :=
  pc.stores = false ∧ pc'.stores = false ∧ pc'.rolling = pc.rolling

/-- What a roll has written of `node` before each stage. -/
def Written (s : State P) (window overrun : Nat) (node : ScopeId) : Stage → Prop
  | .charged => s.windowIndex node < window
  | .committed => s.windowIndex node < window
  | .opened => s.committed false node = overrun ∧ s.windowIndex node < window
  | .closure => s.committed false node = overrun ∧ s.opened node = overrun ∧
      s.windowIndex node < window
  | .index => s.committed false node = overrun ∧ s.opened node = overrun ∧
      s.committed true node = 0 ∧ s.windowIndex node < window
  | .close => True

/-- A processor stands where its operation put it. -/
def Pc.Placed (tree : Tree) (s : State P) : Pc → Prop
  | .checking _ sequence => sequence % 2 = 0 ∧ sequence ≤ s.sequence
  | .adding r sequence done rest => done ++ rest = tree.chain r.scope ∧ sequence % 2 = 0 ∧
      sequence ≤ s.sequence ∧
      (s.sequence = sequence → ∀ n ∈ tree.chain r.scope, s.windowIndex n = r.window)
  | .undoing _ _ left => left.Nodup
  | .returning r left => left.Nodup ∧ ∀ n ∈ left, r.window ≤ s.windowIndex n
  | .loading r node left => (node :: left).Nodup ∧ (∀ n ∈ left, r.window ≤ s.windowIndex n) ∧
      s.windowIndex node = r.window
  | .swapping r _ node left => (node :: left).Nodup ∧
      (∀ n ∈ left, r.window ≤ s.windowIndex n) ∧ s.windowIndex node = r.window
  | .exceeding _ _ left => left.Nodup
  | .storing window overrun node _ stage => s.sequence % 2 = 1 ∧ Written s window overrun node stage
  | _ => True

variable [Fintype P]

/-- The counter of `n` is accounted for, and what is owed to it was noted in its window. -/
structure Balanced (tree : Tree) (s : State P) (recovery : Bool) (n : ScopeId) : Prop where
  counted : s.committed recovery n + tally (fun _ pc => Pc.owed recovery n pc) s.pc =
    s.due tree recovery n + tally (fun _ pc => Pc.held recovery n (s.windowIndex n) pc) s.pc
  noted : tally (fun _ pc => Pc.owed recovery n pc) s.pc ≤ s.excess recovery n (s.windowIndex n)

/-- The invariant of runs in which no operation overlaps a roll it should not. -/
structure Kept (tree : Tree) (s : State P) : Prop where
  placed : ∀ p, (s.pc p).Placed tree s
  alone : ∀ p, (s.pc p).rolling = true → s.roller = some p
  even : (∀ n, Settled s n) → s.sequence % 2 = 0
  /-- Nobody has a hand on a scope that is being rolled. -/
  apart : ∀ n, (∀ p, (s.pc p).touches n = false) ∨ Settled s n
  /-- Nothing was reserved for a window a scope of the chain has not reached. -/
  reservedPast : ∀ recovery scope w, s.reserved recovery scope w ≠ 0 →
    ∀ n ∈ tree.chain scope, w ≤ s.windowIndex n
  excessPast : ∀ recovery n w, s.excess recovery n w ≠ 0 → w ≤ s.windowIndex n
  balanced : ∀ recovery n, (∀ p, (s.pc p).writes n = false) → Balanced tree s recovery n

variable {tree : Tree} {s s' : State P}

/-! ### Moves of an operation -/

variable {n node : ScopeId} {pc pc₀ : Pc}

theorem Pc.writes_of_rolls (h : pc.rolls n = false) : pc.writes n = false := by
  cases pc <;> simp_all [Pc.writes, Pc.rolls]

theorem Pc.rolls_of_stores (h : pc.stores = false) (n : ScopeId) : pc.rolls n = false := by
  cases pc <;> simp_all [Pc.stores, Pc.rolls]

omit [DecidableEq P] [Fintype P] in
theorem Pc.Placed.transfer (h : pc.Placed tree s) (hwindow : s'.windowIndex = s.windowIndex)
    (hsequence : s'.sequence = s.sequence) (hopened : s'.opened = s.opened)
    (hcommitted : ∀ n, pc.rolls n = true →
      ∀ recovery, s'.committed recovery n = s.committed recovery n) : pc.Placed tree s' := by
  cases pc with
  | storing window overrun node left stage =>
    have hnode := hcommitted node (by simp [Pc.rolls])
    cases stage <;> simp_all [Pc.Placed, Written]
  | _ => simp_all [Pc.Placed]

variable {p : P}

theorem Kept.move (h : Kept tree s) (hp : s.pc p = pc₀)
    (hpc : s'.pc = Function.update s.pc p pc) (hwindow : s'.windowIndex = s.windowIndex)
    (hsequence : s'.sequence = s.sequence) (hopened : s'.opened = s.opened)
    (hroller : s'.roller = s.roller) (hbeside : pc₀.Beside pc) (hcommitted : ∀ n, ¬ Settled s n →
      ∀ recovery, s'.committed recovery n = s.committed recovery n) (hplaced : pc.Placed tree s')
    (htouches : ∀ n, pc.touches n = true → pc₀.touches n = true ∨ Settled s n)
    (hreserved : ∀ recovery scope w, s'.reserved recovery scope w ≠ 0 →
      ∀ n ∈ tree.chain scope, w ≤ s.windowIndex n)
    (hexcess : ∀ recovery n w, s'.excess recovery n w ≠ 0 → w ≤ s.windowIndex n)
    (hbalance : ∀ recovery n,
      s'.committed recovery n + pc.owed recovery n +
        (s.due tree recovery n + pc₀.held recovery n (s.windowIndex n)) =
      s.committed recovery n + pc₀.owed recovery n +
        (s'.due tree recovery n + pc.held recovery n (s.windowIndex n)))
    (hnoted : ∀ recovery n, pc.owed recovery n + s.excess recovery n (s.windowIndex n) ≤
      pc₀.owed recovery n + s'.excess recovery n (s.windowIndex n)) : Kept tree s' := by
  subst hp
  have hold := Pc.rolls_of_stores hbeside.1
  have hnew := Pc.rolls_of_stores hbeside.2.1
  have hsettled : ∀ n, Settled s' n ↔ Settled s n := by
    intro n
    unfold Settled
    rw [hpc]
    refine ⟨fun hs q => ?_, fun hs q => ?_⟩
    · by_cases hq : q = p
      · rw [hq]
        exact hold n
      · have := hs q
        rwa [Function.update_of_ne hq] at this
    · by_cases hq : q = p
      · rw [hq, Function.update_self]
        exact hnew n
      · rw [Function.update_of_ne hq]
        exact hs q
  refine ⟨?_, ?_, ?_, ?_, ?_, ?_, ?_⟩
  · intro q
    rw [hpc]
    by_cases hq : q = p
    · rw [hq, Function.update_self]
      exact hplaced
    · rw [Function.update_of_ne hq]
      refine (h.placed q).transfer hwindow hsequence hopened ?_
      intro n hrolls
      exact hcommitted n fun hs => by simp [hs q] at hrolls
  · intro q hq
    rw [hpc] at hq
    rw [hroller]
    by_cases hqp : q = p
    · rw [hqp, Function.update_self] at hq
      rw [hqp]
      exact h.alone p (hbeside.2.2 ▸ hq)
    · rw [Function.update_of_ne hqp] at hq
      exact h.alone q hq
  · intro hs
    rw [hsequence]
    exact h.even fun n => (hsettled n).mp (hs n)
  · intro n
    rw [hsettled]
    rcases h.apart n with hfree | hs
    · by_cases hs : Settled s n
      · exact .inr hs
      · refine .inl fun q => ?_
        rw [hpc]
        by_cases hq : q = p
        · rw [hq, Function.update_self]
          by_contra hne
          rcases htouches n (by simpa using hne) with ht | hs'
          · rw [hfree p] at ht
            exact absurd ht (by simp)
          · exact hs hs'
        · rw [Function.update_of_ne hq]
          exact hfree q
    · exact .inr hs
  · intro recovery scope w hne n hn
    rw [hwindow]
    exact hreserved recovery scope w hne n hn
  · intro recovery n w hne
    rw [hwindow]
    exact hexcess recovery n w hne
  · intro recovery n hwrites
    have hwrites' : ∀ q, (s.pc q).writes n = false := by
      intro q
      by_cases hq : q = p
      · rw [hq]
        exact Pc.writes_of_rolls (hold n)
      · have := hwrites q
        rwa [hpc, Function.update_of_ne hq] at this
    have hbal := h.balanced recovery n hwrites'
    have howed := tally_update (fun _ pc => Pc.owed recovery n pc) s.pc p pc
    have hheld := tally_update (fun _ pc => Pc.held recovery n (s.windowIndex n) pc) s.pc p pc
    have := hbal.counted
    have := hbal.noted
    have := hbalance recovery n
    have := hnoted recovery n
    refine ⟨?_, ?_⟩
    · rw [hpc, hwindow]
      omega
    · rw [hpc, hwindow]
      omega

theorem Kept.quiet (h : Kept tree s) (hp : s.pc p = pc₀)
    (hbeside : pc₀.Beside pc) (hplaced : pc.Placed tree s)
    (htouches : ∀ n, pc.touches n = true → pc₀.touches n = true ∨ Settled s n)
    (howed : ∀ recovery n, pc.owed recovery n = pc₀.owed recovery n)
    (hheld : ∀ recovery n, pc.held recovery n (s.windowIndex n) =
      pc₀.held recovery n (s.windowIndex n)) : Kept tree (s.at p pc) := by
  refine h.move hp rfl rfl rfl rfl rfl hbeside (fun _ _ _ => rfl) ?_ htouches h.reservedPast
    h.excessPast ?_ ?_
  · exact hplaced.transfer rfl rfl rfl fun _ _ _ => rfl
  · intro recovery n
    rw [howed, hheld]
    rfl
  · intro recovery n
    rw [howed]
    exact Nat.le_refl _

variable {recovery refused : Bool}

theorem Kept.commit (h : Kept tree s)
    {value : Nat} (hp : s.pc p = pc₀) (hsettled : Settled s node) (hbeside : pc₀.Beside pc)
    (hplaced : pc.Placed tree s)
    (htouches : ∀ n, pc.touches n = true → pc₀.touches n = true ∨ n = node)
    (hnode : value + pc.owed recovery node + pc₀.held recovery node (s.windowIndex node) =
      s.committed recovery node + pc₀.owed recovery node +
        pc.held recovery node (s.windowIndex node)) (hother : ∀ k n, ¬ (recovery = k ∧ n = node) →
      pc.owed k n + pc₀.held k n (s.windowIndex n) =
        pc₀.owed k n + pc.held k n (s.windowIndex n)) (howed : ∀ k n, pc.owed k n ≤ pc₀.owed k n) :
    Kept tree ((s.commit recovery node value).at p pc) := by
  have hcommitted : ∀ k n, ¬ (recovery = k ∧ n = node) →
      (s.commit recovery node value).committed k n = s.committed k n := by
    intro k n hne
    simp only [State.commit, Function.update_apply]
    by_cases hk : k = recovery
    · subst hk
      have hn : n ≠ node := fun hn => hne ⟨rfl, hn⟩
      simp [hn]
    · simp [hk]
  have hstored : (s.commit recovery node value).committed recovery node = value := by
    simp [State.commit]
  refine h.move hp rfl rfl rfl rfl rfl hbeside ?_ ?_
    (fun n hn => (htouches n hn).imp_right ?_) h.reservedPast h.excessPast ?_
    (fun k n => Nat.add_le_add_right (howed k n) _)
  · intro n hn k
    exact hcommitted k n fun ⟨_, hnode⟩ => hn (hnode ▸ hsettled)
  · refine hplaced.transfer rfl rfl rfl ?_
    intro n hn
    simp [Pc.rolls_of_stores hbeside.2.1 n] at hn
  · rintro rfl
    exact hsettled
  · intro k n
    show (s.commit recovery node value).committed k n + _ + _ = _ + _ + (s.due tree k n + _)
    by_cases hkn : recovery = k ∧ n = node
    · obtain ⟨rfl, rfl⟩ := hkn
      rw [hstored]
      omega
    · rw [hcommitted k n hkn]
      have := hother k n hkn
      omega

/-! ### Reservations and returns on the ledger -/

omit [DecidableEq P] [Fintype P] in
theorem promised_setReserved (tree : Tree) (s : State P) (r : Request) (value : Nat)
    (recovery : Bool) (n : ScopeId) :
    (s.setReserved r value).promised tree recovery n +
      (if r.recovery = recovery ∧ n ∈ tree.chain r.scope ∧ s.windowIndex n = r.window then
        s.reserved r.recovery r.scope r.window else 0) =
    s.promised tree recovery n +
      (if r.recovery = recovery ∧ n ∈ tree.chain r.scope ∧ s.windowIndex n = r.window then
        value else 0) := by
  unfold State.promised
  by_cases hk : recovery = r.recovery
  · subst hk
    have htrade := tally_update
      (fun scope at' => tree.share n scope (at' (s.windowIndex n))) (s.reserved r.recovery) r.scope
      (Function.update (s.reserved r.recovery r.scope) r.window value)
    simp only [State.setReserved, Function.update_self, true_and]
    by_cases hn : n ∈ tree.chain r.scope
    · by_cases hw : s.windowIndex n = r.window
      · simpa [Tree.share, hn, hw] using htrade
      · simpa [Tree.share, hn, hw, Function.update_apply] using htrade
    · simpa [Tree.share, hn] using htrade
  · simp [State.setReserved, Function.update_of_ne hk, Ne.symm hk]

omit [DecidableEq P] [Fintype P] in
theorem due_setReserved (tree : Tree) (s : State P) (r : Request) (value : Nat)
    (recovery : Bool) (n : ScopeId) :
    (s.setReserved r value).due tree recovery n +
      (if r.recovery = recovery ∧ n ∈ tree.chain r.scope ∧ s.windowIndex n = r.window then
        s.reserved r.recovery r.scope r.window else 0) =
    s.due tree recovery n +
      (if r.recovery = recovery ∧ n ∈ tree.chain r.scope ∧ s.windowIndex n = r.window then
        value else 0) := by
  have htrade := promised_setReserved tree s r value recovery n
  have hcarried : (s.setReserved r value).carried recovery n = s.carried recovery n := rfl
  unfold State.due
  rw [hcarried]
  show _ + _ + s.excess recovery n (s.windowIndex n) + _ = _
  omega

omit [DecidableEq P] [Fintype P] in
theorem reserved_setReserved (s : State P) (r : Request) (value : Nat) (recovery : Bool)
    (scope : ScopeId) (w : Nat) : (s.setReserved r value).reserved recovery scope w =
      if recovery = r.recovery ∧ scope = r.scope ∧ w = r.window then value
      else s.reserved recovery scope w := by
  simp only [State.setReserved, Function.update_apply]
  by_cases hk : recovery = r.recovery
  · subst hk
    by_cases hs : scope = r.scope
    · subst hs
      by_cases hw : w = r.window <;> simp [hw]
    · simp [hs]
  · simp [hk]

variable {r : Request}
variable {amount sequence : Nat}

theorem Kept.grant (h : Kept tree s)
    {done : List ScopeId} (hpc : s.pc p = .adding r sequence done [])
    (hsequence : s.sequence = sequence) :
    Kept tree ((s.setReserved r (s.reserved r.recovery r.scope r.window + r.amount)).at p
      .idle) := by
  have hplaced := h.placed p
  rw [hpc] at hplaced
  obtain ⟨hdone, -, -, hwindow⟩ := hplaced
  rw [List.append_nil] at hdone
  have hin := hwindow hsequence
  refine h.move hpc rfl rfl rfl rfl rfl ⟨rfl, rfl, rfl⟩ (fun _ _ _ => rfl) trivial
    (by simp [Pc.touches]) ?_ h.excessPast ?_ (by simp [Pc.owed, State.at, State.setReserved])
  · intro recovery scope w hne n hn
    rw [show ((s.setReserved r _).at p .idle).reserved = (s.setReserved r _).reserved from rfl,
      reserved_setReserved] at hne
    split at hne
    · rename_i hsame
      obtain ⟨-, rfl, rfl⟩ := hsame
      exact (hin n hn).ge
    · exact h.reservedPast recovery scope w hne n hn
  · intro recovery n
    have htrade := due_setReserved tree s r
      (s.reserved r.recovery r.scope r.window + r.amount) recovery n
    show s.committed recovery n + _ + _ = _ + _ + ((s.setReserved r _).due tree recovery n + _)
    simp only [Pc.owed, Pc.held, hdone]
    by_cases hn : n ∈ tree.chain r.scope
    · by_cases hk : r.recovery = recovery
      · simp only [hk, hn, hin n hn, and_self, if_true] at htrade ⊢
        omega
      · simp only [hk, false_and, if_false] at htrade ⊢
        omega
    · simp only [hn, false_and, and_false, if_false] at htrade ⊢
      omega

theorem mem_walk {scope : ScopeId} (h : n ∈ walk tree scope amount) :
    n ∈ tree.chain scope ∧ amount ≠ 0 := by
  unfold walk at h
  split at h
  · simp at h
  · rename_i hne
    exact ⟨h, hne⟩

theorem walk_nodup (tree : Tree) (scope : ScopeId) (amount : Nat) :
    (walk tree scope amount).Nodup := by
  unfold walk
  split
  · exact List.nodup_nil
  · exact chain_nodup tree scope

theorem Kept.giveBack (h : Kept tree s) (hidle : s.pc p = .idle)
    (hamount : r.amount ≤ s.reserved r.recovery r.scope r.window) :
    Kept tree ((s.setReserved r (s.reserved r.recovery r.scope r.window - r.amount)).at p
      (.returning r (walk tree r.scope r.amount))) := by
  refine h.move hidle rfl rfl rfl rfl rfl ⟨rfl, rfl, rfl⟩ (fun _ _ _ => rfl) ?_
    (by simp [Pc.touches]) ?_ h.excessPast ?_ (by simp [Pc.owed, State.at, State.setReserved])
  · refine ⟨walk_nodup tree r.scope r.amount, ?_⟩
    intro n hn
    obtain ⟨hmem, hne⟩ := mem_walk hn
    exact h.reservedPast r.recovery r.scope r.window (by omega) n hmem
  · intro recovery scope w hne
    rw [show ((s.setReserved r _).at p _).reserved = (s.setReserved r _).reserved from rfl,
      reserved_setReserved] at hne
    split at hne
    · rename_i hsame
      obtain ⟨rfl, rfl, rfl⟩ := hsame
      exact h.reservedPast r.recovery r.scope r.window (by omega)
    · exact h.reservedPast recovery scope w hne
  · intro recovery n
    have htrade := due_setReserved tree s r
      (s.reserved r.recovery r.scope r.window - r.amount) recovery n
    show s.committed recovery n + _ + _ = _ + _ + ((s.setReserved r _).due tree recovery n + _)
    simp only [Pc.owed, Pc.held]
    by_cases hzero : r.amount = 0
    · simp only [walk, hzero, Nat.sub_zero, if_true, List.not_mem_nil, false_and, and_false,
        if_false] at htrade ⊢
      omega
    · simp only [walk, hzero, if_false]
      by_cases hc : r.recovery = recovery ∧ n ∈ tree.chain r.scope ∧ s.windowIndex n = r.window
      · obtain ⟨rfl, hn, hw⟩ := hc
        simp only [hn, hw, and_self, if_true] at htrade ⊢
        omega
      · simp only [hc, if_false] at htrade ⊢
        omega

theorem Kept.exceed (h : Kept tree s) (hidle : s.pc p = .idle) (scope : ScopeId)
    (ns : Nat) (recovery : Bool) (hsettled : ∀ n ∈ walk tree scope ns, Settled s n) :
    Kept tree ((s.noteExcess tree scope ns recovery).at p
      (.exceeding recovery ns (walk tree scope ns))) := by
  have hnoted : ∀ k n, (s.noteExcess tree scope ns recovery).excess k n (s.windowIndex n) =
      s.excess k n (s.windowIndex n) +
        (if recovery = k ∧ n ∈ walk tree scope ns then ns else 0) := by
    intro k n
    by_cases hk : recovery = k
    · subst hk
      by_cases hn : n ∈ walk tree scope ns <;> simp [State.noteExcess, hn]
    · simp [State.noteExcess, hk, Function.update_of_ne (Ne.symm hk)]
  refine h.move hidle rfl rfl rfl rfl rfl ⟨rfl, rfl, rfl⟩ (fun _ _ _ => rfl)
    (walk_nodup tree scope ns) ?_ h.reservedPast ?_ ?_ ?_
  · intro n hn
    refine .inr (hsettled n ?_)
    simpa [Pc.touches] using hn
  · intro k n w hne
    show w ≤ s.windowIndex n
    by_cases hk : k = recovery
    · subst hk
      have hne' : (if n ∈ walk tree scope ns ∧ w = s.windowIndex n then s.excess k n w + ns
          else s.excess k n w) ≠ 0 := by
        simpa [State.at, State.noteExcess] using hne
      split at hne'
      · rename_i hin
        exact hin.2.le
      · exact h.excessPast k n w hne'
    · refine h.excessPast k n w ?_
      simpa [State.at, State.noteExcess, Function.update_of_ne hk] using hne
  · intro k n
    show s.committed k n + _ + _ = _ + _ + (s.carried k n + s.promised tree k n +
      (s.noteExcess tree scope ns recovery).excess k n (s.windowIndex n) + _)
    rw [hnoted]
    simp only [Pc.owed, Pc.held, State.due]
    omega
  · intro k n
    show _ ≤ _ + (s.noteExcess tree scope ns recovery).excess k n (s.windowIndex n)
    rw [hnoted]
    simp only [Pc.owed]
    omega

/-! ### Accesses that store a counter -/

omit [DecidableEq P] in
theorem fetchAdd_of_inRange (hrange : InRange s) (p : P) (recovery : Bool) (n : ScopeId)
    (hin : (s.pc p).inFlight = amount) :
    fetchAdd (s.committed recovery n) amount = s.committed recovery n + amount := by
  have hle : amount ≤ tally (fun _ pc => Pc.inFlight pc) s.pc := by
    have := le_tally (fun _ pc => Pc.inFlight pc) s.pc p
    rwa [hin] at this
  have := hrange recovery n
  unfold maxU64 at this
  exact Nat.mod_eq_of_lt (by omega)

omit [DecidableEq P] in
theorem Kept.held_le (h : Kept tree s) (p : P) (recovery : Bool) (hsettled : Settled s n) :
    (s.pc p).held recovery n (s.windowIndex n) ≤ s.committed recovery n := by
  have hbal := h.balanced recovery n fun q => Pc.writes_of_rolls (hsettled q)
  have hheld := le_tally (fun _ pc => Pc.held recovery n (s.windowIndex n) pc) s.pc p
  have := hbal.counted
  have := hbal.noted
  unfold State.due at *
  omega

omit [DecidableEq P] in
theorem Kept.settled (h : Kept tree s) (ht : (s.pc p).touches n = true) : Settled s n := by
  rcases h.apart n with hfree | hs
  · rw [hfree p] at ht
    exact absurd ht (by simp)
  · exact hs

variable {left : List ScopeId}

omit [DecidableEq P] in
theorem Kept.undo_le (h : Kept tree s) (hpc : s.pc p = .undoing r refused (node :: left)) :
    r.amount ≤ s.committed r.recovery node := by
  have := h.held_le p r.recovery (h.settled (p := p) (n := node) (by simp [hpc, Pc.touches]))
  simpa [hpc, Pc.held] using this

theorem Kept.add (h : Kept tree s) (hrange : InRange s) {done rest : List ScopeId}
    (hpc : s.pc p = .adding r sequence done (node :: rest)) (hsettled : Settled s node)
    (fits : Prop) [Decidable fits] :
    Kept tree ((s.commit r.recovery node (fetchAdd (s.committed r.recovery node) r.amount)).at p
      (if fits then .adding r sequence (done ++ [node]) rest
        else .undoing r true (node :: done))) := by
  have hplaced := h.placed p
  rw [hpc] at hplaced
  obtain ⟨hchain, heven, hle, hwindow⟩ := hplaced
  have hnodup : (done ++ node :: rest).Nodup := hchain ▸ chain_nodup tree r.scope
  have hfresh : node ∉ done := by
    intro hmem
    exact (List.nodup_append.mp hnodup).2.2 node hmem node List.mem_cons_self rfl
  rw [fetchAdd_of_inRange hrange p r.recovery node (by rw [hpc]; rfl)]
  split
  · refine h.commit hpc hsettled ⟨rfl, rfl, rfl⟩ ?_ (by simp [Pc.touches]) ?_ ?_ ?_
    · exact ⟨by simpa using hchain, heven, hle, hwindow⟩
    · simp [Pc.owed, Pc.held, hfresh]
    · intro k n hne
      by_cases hk : r.recovery = k <;> simp_all [Pc.owed, Pc.held]
    · simp [Pc.owed]
  · refine h.commit hpc hsettled ⟨rfl, rfl, rfl⟩ ?_ (by simp +contextual [Pc.touches, or_comm])
      ?_ ?_ ?_
    · exact List.nodup_cons.mpr ⟨hfresh, (List.nodup_append.mp hnodup).1⟩
    · simp [Pc.owed, Pc.held, hfresh]
    · intro k n hne
      by_cases hk : r.recovery = k <;> simp_all [Pc.owed, Pc.held]
    · simp [Pc.owed]

theorem Kept.undo (h : Kept tree s) (hrange : InRange s)
    (hpc : s.pc p = .undoing r refused (node :: left)) :
    Kept tree ((s.commit r.recovery node (fetchSub (s.committed r.recovery node) r.amount)).at p
      (.undoing r refused left)) := by
  have hplaced := h.placed p
  rw [hpc] at hplaced
  obtain ⟨hfresh, hnodup⟩ := List.nodup_cons.mp hplaced
  have hin := h.undo_le hpc
  have hdiff : fetchSub (s.committed r.recovery node) r.amount =
      s.committed r.recovery node - r.amount := by
    have hbound := hrange r.recovery node
    unfold maxU64 at hbound
    unfold fetchSub
    omega
  rw [hdiff]
  refine h.commit hpc (h.settled (p := p) (by simp [hpc, Pc.touches])) ⟨rfl, rfl, rfl⟩ hnodup
    ?_ ?_ ?_ ?_
  · simp +contextual [Pc.touches]
  · simp [Pc.owed, Pc.held, hfresh, Nat.sub_add_cancel hin]
  · intro k n hne
    by_cases hk : r.recovery = k <;> simp_all [Pc.owed, Pc.held]
  · simp [Pc.owed]

theorem Kept.swap (h : Kept tree s)
    (hpc : s.pc p = .swapping r (s.committed r.recovery node) node left) :
    Kept tree ((s.commit r.recovery node (s.committed r.recovery node - r.amount)).at p
      (.returning r left)) := by
  have hplaced := h.placed p
  rw [hpc] at hplaced
  obtain ⟨hnodup, hpast, hwindow⟩ := hplaced
  obtain ⟨hfresh, hleft⟩ := List.nodup_cons.mp hnodup
  have hsettled : Settled s node := h.settled (p := p) (by simp [hpc, Pc.touches])
  have hin : r.amount ≤ s.committed r.recovery node := by
    have := h.held_le p r.recovery hsettled
    simpa [hpc, Pc.held, hwindow] using this
  refine h.commit hpc hsettled ⟨rfl, rfl, rfl⟩ ⟨hleft, hpast⟩ (by simp [Pc.touches]) ?_ ?_ ?_
  · simp [Pc.owed, Pc.held, hfresh, hwindow, Nat.sub_add_cancel hin]
  · intro k n hne
    by_cases hk : r.recovery = k <;> simp_all [Pc.owed, Pc.held]
  · simp [Pc.owed]

theorem Kept.land (h : Kept tree s) (hrange : InRange s) {ns : Nat}
    (hpc : s.pc p = .exceeding recovery ns (node :: left)) :
    Kept tree ((s.commit recovery node (fetchAdd (s.committed recovery node) ns)).at p
      (.exceeding recovery ns left)) := by
  have hplaced := h.placed p
  rw [hpc] at hplaced
  obtain ⟨hfresh, hnodup⟩ := List.nodup_cons.mp hplaced
  rw [fetchAdd_of_inRange hrange p recovery node (by rw [hpc]; rfl)]
  refine h.commit hpc (h.settled (p := p) (by simp [hpc, Pc.touches])) ⟨rfl, rfl, rfl⟩ hnodup
    ?_ ?_ ?_ ?_
  · simp +contextual [Pc.touches]
  · simp [Pc.owed, Pc.held, hfresh]
  · intro k n hne
    by_cases hk : recovery = k <;> simp_all [Pc.owed, Pc.held]
  · intro k n
    simp only [Pc.owed]
    split <;> simp_all

/-! ### Moves of a roll -/

omit [DecidableEq P] in
theorem Kept.only (h : Kept tree s) {q : P} (hp : (s.pc p).rolling = true) (hq : q ≠ p) :
    (s.pc q).rolling = false := by
  by_contra hne
  have hroller := h.alone p hp
  rw [h.alone q (by simpa using hne)] at hroller
  exact hq (Option.some.inj hroller)

theorem Pc.rolls_of_rolling (h : pc.rolling = false) (n : ScopeId) : pc.rolls n = false := by
  cases pc <;> simp_all [Pc.rolling, Pc.rolls]

omit [DecidableEq P] [Fintype P] in
theorem Pc.Placed.outlast (h : pc.Placed tree s) (hrolling : pc.rolling = false)
    (hsequence : s.sequence ≤ s'.sequence)
    (hwindow : s'.sequence % 2 = 0 → s'.windowIndex = s.windowIndex)
    (hmono : ∀ n, s.windowIndex n ≤ s'.windowIndex n)
    (htouched : ∀ n, pc.touches n = true → s'.windowIndex n = s.windowIndex n) :
    pc.Placed tree s' := by
  cases pc with
  | checking r sequence => exact ⟨h.1, h.2.trans hsequence⟩
  | adding r sequence done rest =>
    obtain ⟨hchain, heven, hle, hin⟩ := h
    refine ⟨hchain, heven, hle.trans hsequence, ?_⟩
    intro hsame
    rw [hwindow (hsame ▸ heven)]
    exact hin (by omega)
  | returning r left => exact ⟨h.1, fun n hn => (h.2 n hn).trans (hmono n)⟩
  | loading r node left =>
    refine ⟨h.1, fun n hn => (h.2.1 n hn).trans (hmono n), ?_⟩
    rw [htouched node (by simp [Pc.touches])]
    exact h.2.2
  | swapping r current node left =>
    refine ⟨h.1, fun n hn => (h.2.1 n hn).trans (hmono n), ?_⟩
    rw [htouched node (by simp [Pc.touches])]
    exact h.2.2
  | undoing r refused left => exact h
  | exceeding recovery ns left => exact h
  | storing window overrun node left stage => simp [Pc.rolling] at hrolling
  | _ => trivial

/-- A position from which nothing is put into a counter or taken out of it. -/
def Pc.Bare (pc : Pc) : Prop :=
  (∀ recovery n w, pc.held recovery n w = 0) ∧ (∀ recovery n, pc.owed recovery n = 0) ∧
    ∀ n, pc.touches n = false

theorem Kept.roll (h : Kept tree s) (p : P) (hpc : s'.pc = Function.update s.pc p pc)
    (hreserved : s'.reserved = s.reserved) (hexcess : s'.excess = s.excess)
    (hothers : ∀ q, q ≠ p → (s.pc q).rolling = false) (hold : (s.pc p).Bare) (hnew : pc.Bare)
    (hplaced : pc.Placed tree s') (hroller : pc.rolling = true → s'.roller = some p)
    (hsequence : s.sequence ≤ s'.sequence)
    (hwindow : s'.sequence % 2 = 0 → s'.windowIndex = s.windowIndex)
    (hmono : ∀ n, s.windowIndex n ≤ s'.windowIndex n)
    (htouched : ∀ q n, (s.pc q).touches n = true → s'.windowIndex n = s.windowIndex n)
    (heven : (∀ n, pc.rolls n = false) → s'.sequence % 2 = 0)
    (hapart : ∀ n, pc.rolls n = true → ∀ q, (s.pc q).touches n = false)
    (hbalanced : ∀ recovery n, pc.writes n = false →
      ((s.pc p).writes n = false ∧ s'.committed recovery n = s.committed recovery n ∧
        s'.carried recovery n = s.carried recovery n ∧ s'.windowIndex n = s.windowIndex n) ∨
      Balanced tree s' recovery n) : Kept tree s' := by
  have hself : s'.pc p = pc := by rw [hpc, Function.update_self]
  have hother : ∀ q, q ≠ p → s'.pc q = s.pc q := by
    intro q hq
    rw [hpc, Function.update_of_ne hq]
  have htouches : ∀ q n, (s'.pc q).touches n = (s.pc q).touches n := by
    intro q n
    by_cases hq : q = p
    · rw [hq, hself, hnew.2.2 n, hold.2.2 n]
    · rw [hother q hq]
  have hsettled : ∀ n, pc.rolls n = false → Settled s' n := by
    intro n hn q
    by_cases hq : q = p
    · rw [hq, hself]
      exact hn
    · rw [hother q hq]
      exact Pc.rolls_of_rolling (hothers q hq) n
  refine ⟨?_, ?_, ?_, ?_, ?_, ?_, ?_⟩
  · intro q
    by_cases hq : q = p
    · rw [hq, hself]
      exact hplaced
    · rw [hother q hq]
      exact (h.placed q).outlast (hothers q hq) hsequence hwindow hmono (htouched q)
  · intro q hq
    by_cases hqp : q = p
    · rw [hqp, hself] at hq
      rw [hqp]
      exact hroller hq
    · rw [hother q hqp, hothers q hqp] at hq
      exact absurd hq (by simp)
  · intro hs
    refine heven fun n => ?_
    have := hs n p
    rwa [hself] at this
  · intro n
    by_cases hn : pc.rolls n = true
    · refine .inl fun q => ?_
      rw [htouches]
      exact hapart n hn q
    · exact .inr (hsettled n (by simpa using hn))
  · intro recovery scope w hne n hn
    rw [hreserved] at hne
    exact (h.reservedPast recovery scope w hne n hn).trans (hmono n)
  · intro recovery n w hne
    rw [hexcess] at hne
    exact (h.excessPast recovery n w hne).trans (hmono n)
  · intro recovery n hwrites
    have hpcw := hwrites p
    rw [hself] at hpcw
    rcases hbalanced recovery n hpcw with ⟨hold', hcommitted, hcarried, hindex⟩ | hbal
    · have hfree : ∀ q, (s.pc q).writes n = false := by
        intro q
        by_cases hq : q = p
        · rw [hq]
          exact hold'
        · have := hwrites q
          rwa [hother q hq] at this
      have hbal := h.balanced recovery n hfree
      have howed := tally_update (fun _ pc => Pc.owed recovery n pc) s.pc p pc
      have hheld := tally_update (fun _ pc => Pc.held recovery n (s.windowIndex n) pc) s.pc p pc
      rw [hold.2.1, hnew.2.1] at howed
      rw [hold.1, hnew.1] at hheld
      have hdue : s'.due tree recovery n = s.due tree recovery n := by
        unfold State.due State.promised
        rw [hcarried, hindex, hreserved, hexcess]
      have := hbal.counted
      have := hbal.noted
      refine ⟨?_, ?_⟩
      · rw [hpc, hindex, hcommitted, hdue]
        omega
      · rw [hpc, hindex, hexcess]
        omega
    · exact hbal

/-- A position with nothing in a counter. -/
def Pc.aside : Pc → Bool
  | .adding _ _ done _ => done.isEmpty
  | .undoing _ _ left => left.isEmpty
  | .returning _ left => left.isEmpty
  | .exceeding _ _ left => left.isEmpty
  | .loading .. => false
  | .swapping .. => false
  | _ => true

theorem Pc.bare_of_aside (h : pc.aside = true) : pc.Bare := by
  cases pc <;> simp_all [Pc.Bare, Pc.aside, Pc.held, Pc.owed, Pc.touches]

theorem Pc.bare_of_rolling (h : pc.rolling = true) : pc.Bare := by
  refine Pc.bare_of_aside ?_
  cases pc <;> simp_all [Pc.rolling, Pc.aside]

omit [DecidableEq P] in
theorem Kept.sequence_even (h : Kept tree s) (hothers : ∀ q, q ≠ p → (s.pc q).rolling = false)
    (hp : ∀ n, (s.pc p).rolls n = false) : s.sequence % 2 = 0 := by
  refine h.even fun n q => ?_
  by_cases hq : q = p
  · rw [hq]
    exact hp n
  · exact Pc.rolls_of_rolling (hothers q hq) n

variable {overrun window : Nat}

theorem Kept.lock (h : Kept tree s) (hpc : s.pc p = .locking window)
    (hfree : s.roller = none) (left : List ScopeId) :
    Kept tree ({ s with roller := some p }.at p (.scanning window left)) := by
  have hothers : ∀ q, q ≠ p → (s.pc q).rolling = false := by
    intro q _
    by_contra hne
    have := h.alone q (by simpa using hne)
    rw [hfree] at this
    exact absurd this (by simp)
  have heven := h.sequence_even hothers (by simp [hpc, Pc.rolls])
  refine h.roll p rfl rfl rfl hothers ?_ (Pc.bare_of_rolling rfl) trivial (fun _ => rfl)
    (Nat.le_refl _) (fun _ => rfl) (fun _ => Nat.le_refl _) (fun _ _ _ => rfl) (fun _ => heven) ?_ ?_
  · rw [hpc]
    exact Pc.bare_of_aside rfl
  · simp [Pc.rolls]
  · intro recovery n _
    exact .inl ⟨by simp [hpc, Pc.writes], rfl, rfl, rfl⟩

theorem Kept.unlock (h : Kept tree s) (hpc : s.pc p = .scanning window []) :
    Kept tree ({ s with roller := none }.at p .idle) := by
  have hothers : ∀ q, q ≠ p → (s.pc q).rolling = false :=
    fun q hq => h.only (p := p) (by simp [hpc, Pc.rolling]) hq
  have heven := h.sequence_even hothers (by simp [hpc, Pc.rolls])
  refine h.roll p rfl rfl rfl hothers (Pc.bare_of_rolling (by simp [hpc, Pc.rolling]))
    (Pc.bare_of_aside rfl) trivial (by simp [Pc.rolling]) (Nat.le_refl _) (fun _ => rfl)
    (fun _ => Nat.le_refl _) (fun _ _ _ => rfl) (fun _ => heven) (by simp [Pc.rolls]) ?_
  intro recovery n _
  exact .inl ⟨by simp [hpc, Pc.writes], rfl, rfl, rfl⟩

theorem Kept.begin (h : Kept tree s) (hpc : s.pc p = .opening window overrun node left)
    (hforward : s.windowIndex node < window) (hfree : ∀ q, (s.pc q).touches node = false) :
    Kept tree ({ s with sequence := s.sequence + 1 }.at p
      (.storing window overrun node left .charged)) := by
  have hothers : ∀ q, q ≠ p → (s.pc q).rolling = false :=
    fun q hq => h.only (p := p) (by simp [hpc, Pc.rolling]) hq
  have heven := h.sequence_even hothers (by simp [hpc, Pc.rolls])
  have hodd : (s.sequence + 1) % 2 = 1 := by omega
  refine h.roll p rfl rfl rfl hothers (Pc.bare_of_rolling (by simp [hpc, Pc.rolling]))
    (Pc.bare_of_rolling rfl) ⟨hodd, hforward⟩ ?_ (Nat.le_succ _) (fun _ => rfl)
    (fun _ => Nat.le_refl _) (fun _ _ _ => rfl) ?_ ?_ ?_
  · intro _
    exact h.alone p (by simp [hpc, Pc.rolling])
  · intro hnone
    have := hnone node
    simp [Pc.rolls] at this
  · intro n hn q
    have hnode : n = node := by simpa [Pc.rolls] using hn
    rw [hnode]
    exact hfree q
  · intro recovery n _
    exact .inl ⟨by simp [hpc, Pc.writes], rfl, rfl, rfl⟩

omit [DecidableEq P] [Fintype P] in
theorem Pc.owed_of_touches (h : pc.touches n = false) (recovery : Bool) :
    pc.owed recovery n = 0 := by
  cases pc <;> simp_all [Pc.owed, Pc.touches]

omit [DecidableEq P] [Fintype P] in
theorem Pc.Placed.held_of_later (h : pc.Placed tree s)
    (hfree : pc.touches n = false) (hlater : s.windowIndex n < window) (recovery : Bool) :
    pc.held recovery n window = 0 := by
  cases pc with
  | adding r sequence done rest => simp_all [Pc.held, Pc.touches]
  | undoing r refused left => simp_all [Pc.held, Pc.touches]
  | returning r left =>
    simp only [Pc.held, ite_eq_right_iff]
    rintro ⟨-, hn, rfl⟩
    exact absurd hlater (Nat.not_lt.mpr (h.2 n hn))
  | loading r node left =>
    simp only [Pc.held, ite_eq_right_iff]
    rintro ⟨-, hn, rfl⟩
    have hne : n ≠ node := by simpa [Pc.touches] using hfree
    exact absurd hlater (Nat.not_lt.mpr (h.2.1 n (List.mem_of_ne_of_mem hne hn)))
  | swapping r current node left =>
    simp only [Pc.held, ite_eq_right_iff]
    rintro ⟨-, hn, rfl⟩
    have hne : n ≠ node := by simpa [Pc.touches] using hfree
    exact absurd hlater (Nat.not_lt.mpr (h.2.1 n (List.mem_of_ne_of_mem hne hn)))
  | _ => rfl

theorem Kept.balanced_of_index (h : Kept tree s)
    (hpc : s.pc p = .storing window overrun node left .index) (recovery : Bool) :
    Balanced tree (store s p window overrun node left .index) recovery node := by
  have hplaced := h.placed p
  rw [hpc] at hplaced
  obtain ⟨-, hcommitted, hopened, hclosure, hlater⟩ := hplaced
  have hfree : ∀ q, (s.pc q).touches node = false := by
    rcases h.apart node with hfree | hs
    · exact hfree
    · have := hs p
      simp [hpc, Pc.rolls] at this
  set t := store s p window overrun node left .index with ht
  have hindex : t.windowIndex node = window := by simp [ht, store, State.at]
  have hpcs : ∀ q, (t.pc q).owed recovery node = 0 ∧ (t.pc q).held recovery node window = 0 := by
    intro q
    by_cases hq : q = p
    · simp [ht, hq, store, State.at, Pc.owed, Pc.held]
    · have hsame : t.pc q = s.pc q := by simp [ht, store, State.at, Function.update_of_ne hq]
      rw [hsame]
      exact ⟨Pc.owed_of_touches (hfree q) recovery,
        (h.placed q).held_of_later (hfree q) hlater recovery⟩
  have howed : tally (fun _ pc => Pc.owed recovery node pc) t.pc = 0 :=
    tally_eq_zero fun q => (hpcs q).1
  have hheld : tally (fun _ pc => Pc.held recovery node window pc) t.pc = 0 :=
    tally_eq_zero fun q => (hpcs q).2
  have hpromised : t.promised tree recovery node = 0 := by
    refine tally_eq_zero fun scope => ?_
    rw [hindex]
    unfold Tree.share
    split
    · rename_i hmem
      by_contra hne
      exact absurd hlater (Nat.not_lt.mpr (h.reservedPast recovery scope window hne node hmem))
    · rfl
  have hexcess : t.excess recovery node window = 0 := by
    by_contra hne
    exact absurd hlater (Nat.not_lt.mpr (h.excessPast recovery node window hne))
  have hcarried : t.committed recovery node = t.carried recovery node := by
    cases recovery with
    | false => exact hcommitted.trans hopened.symm
    | true => exact hclosure
  refine ⟨?_, ?_⟩
  · rw [hindex, howed, hheld, State.due, hindex, hpromised, hexcess, hcarried]
  · rw [howed]
    exact Nat.zero_le _

theorem Kept.store (h : Kept tree s)
    {stage : Stage} (hpc : s.pc p = .storing window overrun node left stage) :
    Kept tree (store s p window overrun node left stage) := by
  have hothers : ∀ q, q ≠ p → (s.pc q).rolling = false :=
    fun q hq => h.only (p := p) (by simp [hpc, Pc.rolling]) hq
  have hbare : (s.pc p).Bare := Pc.bare_of_rolling (by simp [hpc, Pc.rolling])
  have hroller : s.roller = some p := h.alone p (by simp [hpc, Pc.rolling])
  have hplaced := h.placed p
  rw [hpc] at hplaced
  obtain ⟨hodd, hwritten⟩ := hplaced
  have hfree : ∀ q, (s.pc q).touches node = false := by
    rcases h.apart node with hfree | hs
    · exact hfree
    · have := hs p
      simp [hpc, Pc.rolls] at this
  have hnone : ∀ next, (∀ n, (Pc.storing window overrun node left next).rolls n = false) → False := by
    intro next hall
    have := hall node
    simp [Pc.rolls] at this
  have hapart : ∀ next n, (Pc.storing window overrun node left next).rolls n = true →
      ∀ q, (s.pc q).touches n = false := by
    intro next n hn
    have hnode : n = node := by simpa [Pc.rolls] using hn
    rw [hnode]
    exact hfree
  have haway : ∀ next n, next ≠ Stage.close →
      (Pc.storing window overrun node left next).writes n = false →
        n ≠ node ∧ (s.pc p).writes n = false := by
    intro next n hnext hwrites
    have hne : n ≠ node := by simpa [Pc.writes, hnext] using hwrites
    exact ⟨hne, by simp [hpc, Pc.writes, hne]⟩
  cases stage with
  | charged =>
    refine h.roll p rfl rfl rfl hothers hbare (Pc.bare_of_rolling rfl) ⟨hodd, hwritten⟩
      (fun _ => hroller) (Nat.le_refl _) (fun _ => rfl) (fun _ => Nat.le_refl _)
      (fun _ _ _ => rfl) (fun hall => (hnone _ hall).elim) (hapart _) ?_
    intro recovery n hwrites
    exact .inl ⟨(haway _ n (by simp) hwrites).2, rfl, rfl, rfl⟩
  | committed =>
    refine h.roll p rfl rfl rfl hothers hbare (Pc.bare_of_rolling rfl) ?_
      (fun _ => hroller) (Nat.le_refl _) (fun _ => rfl) (fun _ => Nat.le_refl _)
      (fun _ _ _ => rfl) (fun hall => (hnone _ hall).elim) (hapart _) ?_
    · exact ⟨hodd, by simp [Window.store, State.at, State.commit], hwritten⟩
    · intro recovery n hwrites
      obtain ⟨hne, hold⟩ := haway _ n (by simp) hwrites
      refine .inl ⟨hold, ?_, rfl, rfl⟩
      cases recovery <;> simp [Window.store, State.at, State.commit, hne]
  | opened =>
    refine h.roll p rfl rfl rfl hothers hbare (Pc.bare_of_rolling rfl) ?_
      (fun _ => hroller) (Nat.le_refl _) (fun _ => rfl) (fun _ => Nat.le_refl _)
      (fun _ _ _ => rfl) (fun hall => (hnone _ hall).elim) (hapart _) ?_
    · exact ⟨hodd, hwritten.1, by simp [Window.store, State.at], hwritten.2⟩
    · intro recovery n hwrites
      obtain ⟨hne, hold⟩ := haway _ n (by simp) hwrites
      refine .inl ⟨hold, rfl, ?_, rfl⟩
      cases recovery <;> simp [Window.store, State.at, State.carried, hne]
  | closure =>
    refine h.roll p rfl rfl rfl hothers hbare (Pc.bare_of_rolling rfl) ?_
      (fun _ => hroller) (Nat.le_refl _) (fun _ => rfl) (fun _ => Nat.le_refl _)
      (fun _ _ _ => rfl) (fun hall => (hnone _ hall).elim) (hapart _) ?_
    · obtain ⟨hcommitted, hopened, hlater⟩ := hwritten
      exact ⟨hodd, by simpa [Window.store, State.at, State.commit] using hcommitted, hopened,
        by simp [Window.store, State.at, State.commit], hlater⟩
    · intro recovery n hwrites
      obtain ⟨hne, hold⟩ := haway _ n (by simp) hwrites
      refine .inl ⟨hold, ?_, rfl, rfl⟩
      cases recovery <;> simp [Window.store, State.at, State.commit, hne]
  | index =>
    have hlater : s.windowIndex node < window := hwritten.2.2.2
    refine h.roll p rfl rfl rfl hothers hbare (Pc.bare_of_rolling rfl) ⟨hodd, trivial⟩
      (fun _ => hroller) (Nat.le_refl _) ?_ ?_ ?_ (fun hall => (hnone _ hall).elim) (hapart _) ?_
    · intro heven
      have : s.sequence % 2 = 0 := heven
      omega
    · intro n
      show s.windowIndex n ≤ Function.update s.windowIndex node window n
      by_cases hn : n = node
      · rw [hn, Function.update_self]
        exact hlater.le
      · rw [Function.update_of_ne hn]
    · intro q n ht
      have hn : n ≠ node := by
        rintro rfl
        rw [hfree q] at ht
        exact absurd ht (by simp)
      exact Function.update_of_ne hn _ _
    · intro recovery n _
      by_cases hn : n = node
      · rw [hn]
        exact .inr (h.balanced_of_index hpc recovery)
      · refine .inl ⟨by simp [hpc, Pc.writes, hn], rfl, rfl, ?_⟩
        exact Function.update_of_ne hn _ _
  | close =>
    refine h.roll p rfl rfl rfl hothers hbare (Pc.bare_of_rolling rfl) trivial
      (fun _ => hroller) (Nat.le_succ _) (fun _ => rfl) (fun _ => Nat.le_refl _)
      (fun _ _ _ => rfl) ?_ (by simp [Pc.rolls]) ?_
    · intro _
      show (s.sequence + 1) % 2 = 0
      omega
    · intro recovery n _
      exact .inl ⟨by simp [hpc, Pc.writes], rfl, rfl, rfl⟩

/-! ### What one step does -/

theorem Kept.pass (h : Kept tree s) {pc' : Pc} (hpc : s.pc p = pc)
    (hbeside : pc.Beside pc') (haside : pc.aside = true) (haside' : pc'.aside = true)
    (hplaced : pc'.Placed tree s) : Kept tree (s.at p pc') := by
  obtain ⟨hheld, howed, -⟩ := Pc.bare_of_aside haside
  obtain ⟨hheld', howed', htouches'⟩ := Pc.bare_of_aside haside'
  refine h.quiet hpc hbeside hplaced ?_ ?_ ?_
  · intro n hn
    rw [htouches' n] at hn
    exact absurd hn (by simp)
  · intro recovery n
    rw [howed, howed']
  · intro recovery n
    rw [hheld, hheld']

theorem Kept.advance (h : Kept tree s) (hrange : InRange s) {spurious : Bool}
    (hclear : Clear tree s (s.pc p)) (hs : advance tree s p spurious = some s') : Kept tree s' := by
  have hplaced := h.placed p
  unfold Window.advance at hs
  split at hs <;> rename_i hpc <;> rw [hpc] at hclear hplaced
  -- idle
  · exact absurd hs (by simp)
  -- sampling
  · split at hs
    · exact Option.some.inj hs ▸ h
    · rename_i hodd
      exact Option.some.inj hs ▸ h.pass hpc ⟨rfl, rfl, rfl⟩ rfl rfl ⟨by omega, Nat.le_refl _⟩
  -- checking
  · split at hs
    · rename_i hwindow
      exact Option.some.inj hs ▸ h.pass hpc ⟨rfl, rfl, rfl⟩ rfl rfl
        ⟨rfl, hplaced.1, hplaced.2, fun _ => hclear hwindow⟩
    · exact Option.some.inj hs ▸ h.pass hpc ⟨rfl, rfl, rfl⟩ rfl rfl trivial
  -- adding to a level
  · rename_i r sequence done node rest
    have hadd := h.add hrange hpc hclear
      (saturatingAdd (s.committed r.recovery node) r.amount ≤ ceiling tree r.recovery node)
    dsimp only at hs
    split at hs <;> rename_i hfits
    · rw [if_pos hfits] at hadd
      exact Option.some.inj hs ▸ hadd
    · rw [if_neg hfits] at hadd
      exact Option.some.inj hs ▸ hadd
  -- every level added
  · rename_i r sequence done
    split at hs
    · rename_i hsame
      exact Option.some.inj hs ▸ h.grant hpc hsame
    · have hnodup : done.Nodup := by
        have hdone : done = tree.chain r.scope := by simpa using hplaced.1
        rw [hdone]
        exact chain_nodup tree r.scope
      exact Option.some.inj hs ▸ h.quiet hpc ⟨rfl, rfl, rfl⟩ hnodup (fun _ => .inl)
        (fun _ _ => rfl) fun _ _ => rfl
  -- undoing
  · exact Option.some.inj hs ▸ h.undo hrange hpc
  · rename_i r refused
    cases refused with
    | true => exact Option.some.inj hs ▸ h.pass hpc ⟨rfl, rfl, rfl⟩ rfl rfl trivial
    | false => exact Option.some.inj hs ▸ h.pass hpc ⟨rfl, rfl, rfl⟩ rfl rfl trivial
  -- returning: the window of the next scope
  · rename_i r node left
    obtain ⟨hnodup, hpast⟩ := hplaced
    split at hs
    · rename_i hwindow
      refine Option.some.inj hs ▸ h.quiet hpc ⟨rfl, rfl, rfl⟩
        ⟨hnodup, fun n hn => hpast n (List.mem_cons_of_mem _ hn), hwindow⟩ ?_ (fun _ _ => rfl)
        (fun _ _ => rfl)
      intro n hn
      have hnode : n = node := by simpa [Pc.touches] using hn
      exact .inr (hnode ▸ hclear)
    · rename_i hwindow
      refine Option.some.inj hs ▸ h.quiet hpc ⟨rfl, rfl, rfl⟩
        ⟨(List.nodup_cons.mp hnodup).2, fun n hn => hpast n (List.mem_cons_of_mem _ hn)⟩
        (by simp [Pc.touches]) (fun _ _ => rfl) ?_
      intro recovery n
      by_cases hn : n = node
      · subst hn
        simp [Pc.held, hwindow]
      · simp [Pc.held, hn]
  · exact Option.some.inj hs ▸ h.pass hpc ⟨rfl, rfl, rfl⟩ rfl rfl trivial
  · exact Option.some.inj hs ▸ h.quiet hpc ⟨rfl, rfl, rfl⟩ hplaced (fun _ => .inl)
      (fun _ _ => rfl) fun _ _ => rfl
  -- returning: the exchange
  · rename_i r current node left
    split at hs
    · rename_i hswap
      obtain ⟨rfl, -⟩ := hswap
      exact Option.some.inj hs ▸ h.swap hpc
    · exact Option.some.inj hs ▸ h.quiet hpc ⟨rfl, rfl, rfl⟩ hplaced (fun _ => .inl)
        (fun _ _ => rfl) fun _ _ => rfl
  -- the excess
  · exact Option.some.inj hs ▸ h.land hrange hpc
  · exact Option.some.inj hs ▸ h.pass hpc ⟨rfl, rfl, rfl⟩ rfl rfl trivial
  -- the roll, before it holds the lock
  · split at hs
    all_goals exact Option.some.inj hs ▸ h.pass hpc ⟨rfl, rfl, rfl⟩ rfl rfl trivial
  · exact Option.some.inj hs ▸ h.pass hpc ⟨rfl, rfl, rfl⟩ rfl rfl trivial
  · split at hs
    · rename_i hfree
      exact Option.some.inj hs ▸ h.lock hpc hfree _
    · exact Option.some.inj hs ▸ h
  -- the roll, inside it
  · split at hs
    all_goals exact Option.some.inj hs ▸ h.pass hpc ⟨rfl, rfl, rfl⟩ rfl rfl trivial
  · exact Option.some.inj hs ▸ h.unlock hpc
  · exact Option.some.inj hs ▸ h.pass hpc ⟨rfl, rfl, rfl⟩ rfl rfl trivial
  · exact Option.some.inj hs ▸ h.begin hpc hclear.1 hclear.2
  · exact Option.some.inj hs ▸ h.store hpc

theorem Kept.step (h : Kept tree s) {a : Step P} (horderly : Orderly tree s a)
    (hs : step tree s a = some s') : Kept tree s' := by
  obtain ⟨hrange, hclear⟩ := horderly
  cases a with
  | reserveCpu p r =>
    obtain ⟨hidle, hs⟩ := Option.ite_none_right_eq_some.mp hs
    exact Option.some.inj hs ▸ h.pass hidle ⟨rfl, rfl, rfl⟩ rfl rfl trivial
  | returnCpu p r =>
    obtain ⟨hguard, hs⟩ := Option.ite_none_right_eq_some.mp hs
    exact Option.some.inj hs ▸ h.giveBack hguard.1 hguard.2
  | commitExcess p scope ns recovery =>
    obtain ⟨hidle, hs⟩ := Option.ite_none_right_eq_some.mp hs
    exact Option.some.inj hs ▸ h.exceed hidle scope ns recovery hclear
  | rollWindow p now =>
    obtain ⟨hidle, hs⟩ := Option.ite_none_right_eq_some.mp hs
    exact Option.some.inj hs ▸ h.pass hidle ⟨rfl, rfl, rfl⟩ rfl rfl trivial
  | advance p spurious => exact h.advance hrange hclear hs
  | charge scope ns =>
    obtain rfl := Option.some.inj hs
    refine ⟨?_, h.alone, h.even, h.apart, h.reservedPast, h.excessPast, ?_⟩
    · intro p
      exact (h.placed p).transfer rfl rfl rfl fun _ _ _ => rfl
    · intro recovery n hwrites
      obtain ⟨hcounted, hnoted⟩ := h.balanced recovery n hwrites
      exact ⟨hcounted, hnoted⟩

omit [DecidableEq P] in
theorem Fresh.kept (h : Fresh s) : Kept tree s := by
  have howed : ∀ recovery n, tally (fun _ pc => Pc.owed recovery n pc) s.pc = 0 := by
    intro recovery n
    refine tally_eq_zero ?_
    simp [h.pc, Pc.owed]
  have hheld : ∀ recovery n w, tally (fun _ pc => Pc.held recovery n w pc) s.pc = 0 := by
    intro recovery n w
    refine tally_eq_zero ?_
    simp [h.pc, Pc.held]
  refine ⟨?_, ?_, ?_, ?_, ?_, ?_, ?_⟩
  · simp [h.pc, Pc.Placed]
  · simp [h.pc, Pc.rolling]
  · simp [h.sequence]
  · simp [h.pc, Pc.touches]
  · simp [h.reserved]
  · simp [h.excess]
  · intro recovery n _
    have hpromised : s.promised tree recovery n = 0 := by
      refine tally_eq_zero ?_
      simp [Tree.share, h.reserved]
    have hcarried : s.carried recovery n = 0 := by simp [State.carried, h.opened]
    refine ⟨?_, ?_⟩
    · rw [h.committed, howed, hheld, State.due, hcarried, hpromised, h.excess]
    · rw [howed]
      exact Nat.zero_le _

theorem kept_of_reachable (h : ((system (P := P) tree).within (Orderly tree)).Reachable s) :
    Kept tree s := by
  refine System.Reachable.invariant ?_ ?_ h
  · intro t ht
    exact Fresh.kept ht
  · intro t a t' ht hstep
    exact ht.step hstep.1 hstep.2

/-! ### Results -/

/-- **Commitments survive the rolls of an orderly run.**  No undo takes a counter below zero,
and whenever nobody is inside an operation every counter is the carried overrun, the
reservations of the scope's current window that were not returned, and its excess. -/
theorem committed_survives_rolls (tree : Tree) {s : State P}
    (h : ((system (P := P) tree).within (Orderly tree)).Reachable s) :
    (∀ p r refused node left, s.pc p = .undoing r refused (node :: left) →
      r.amount ≤ s.committed r.recovery node) ∧
    ((∀ p, s.pc p = .idle) → ∀ recovery n, s.committed recovery n = s.due tree recovery n) := by
  have hkept := kept_of_reachable h
  refine ⟨?_, ?_⟩
  · intro p r refused node left hpc
    exact hkept.undo_le hpc
  · intro hidle recovery n
    have hbal := hkept.balanced recovery n (by simp [hidle, Pc.writes])
    have howed : tally (fun _ pc => Pc.owed recovery n pc) s.pc = 0 := by
      refine tally_eq_zero ?_
      simp [hidle, Pc.owed]
    have hheld : tally (fun _ pc => Pc.held recovery n (s.windowIndex n) pc) s.pc = 0 := by
      refine tally_eq_zero ?_
      simp [hidle, Pc.held]
    have := hbal.counted
    omega

/-- A root that may run ten nanoseconds a window. -/
def oneScope : Tree where
  scopes := fun i =>
    if i = 0 then
      { Scope.empty with state := .opened, limits := { Limits.zero with cpuBudgetNs := 10 } }
    else .empty
  above := by decide +kernel

def twoProcessors : State Bool where
  committed := fun _ _ => 0
  charged := fun _ => 0
  opened := fun _ => 0
  windowIndex := fun _ => 0
  sequence := 0
  roller := none
  pc := fun _ => .idle
  reserved := fun _ _ _ => 0
  excess := fun _ _ _ => 0

theorem twoProcessors_fresh : Fresh twoProcessors :=
  ⟨fun _ _ => rfl, fun _ => rfl, rfl, rfl, fun _ => rfl, fun _ _ _ => rfl, fun _ _ _ => rfl⟩

/-- A whole roll to the second window. -/
def rollOnce : List (Step Bool) :=
  .rollWindow true cpuWindowNs :: List.replicate 35 (.advance true false)

/-- A reservation of five is made and returned after its window has closed, and one of three is
made in the next. -/
def reservedAcrossRoll : List (Step Bool) :=
  .reserveCpu false ⟨0, 5, false, 0⟩ :: List.replicate 4 (.advance false false) ++ rollOnce ++
    .returnCpu false ⟨0, 5, false, 0⟩ :: List.replicate 2 (.advance false false) ++
    .reserveCpu false ⟨0, 3, false, 1⟩ :: List.replicate 4 (.advance false false)

theorem reservation_survives_roll : ∃ s : State Bool, s.committed false 0 = 3 ∧
    ∀ recovery n, s.committed recovery n = s.due oneScope recovery n := by
  have hrun : (System.exec (System.guarded (Orderly oneScope) (step oneScope)) reservedAcrossRoll
      twoProcessors).map (fun s => (s.committed false 0, s.pc true, s.pc false)) =
        some (3, .idle, .idle) := by
    decide +kernel
  obtain ⟨s, hs, hend⟩ := Option.map_eq_some_iff.mp hrun
  obtain ⟨hthree, htrue, hfalse⟩ :
      s.committed false 0 = 3 ∧ s.pc true = .idle ∧ s.pc false = .idle := by
    simpa using hend
  have hstart : ((system oneScope).within (Orderly oneScope)).Reachable twoProcessors :=
    .init twoProcessors_fresh
  have hreach := System.reachable_within_of_guarded hstart hs
  refine ⟨s, hthree, (committed_survives_rolls oneScope hreach).2 ?_⟩
  intro p
  cases p with
  | false => exact hfalse
  | true => exact htrue

/-- A reservation of five adds to the root, the whole roll follows, and the reservation finds
the sequence changed and undoes an add that is no longer there. -/
def rolledBeforeUndo : List (Step Bool) :=
  .reserveCpu false ⟨0, 5, false, 0⟩ :: List.replicate 3 (.advance false false) ++ rollOnce ++
    List.replicate 5 (.advance false false)

/-- **The undo of an overwritten add wraps.**  Nobody is inside an operation, nothing is carried,
reserved or in excess, and the root has all but five of 2^64 nanoseconds committed. -/
theorem undo_after_roll_wraps : ∃ s : State Bool, (system oneScope).Reachable s ∧
    (∀ p, s.pc p = .idle) ∧ s.due oneScope false 0 = 0 ∧ s.committed false 0 = 2 ^ 64 - 5 := by
  have hrun : (System.exec (step oneScope) rolledBeforeUndo twoProcessors).map
      (fun s => (s.committed false 0, s.due oneScope false 0, s.pc true, s.pc false)) =
        some (2 ^ 64 - 5, 0, .idle, .idle) := by
    decide +kernel
  obtain ⟨s, hs, hend⟩ := Option.map_eq_some_iff.mp hrun
  obtain ⟨hwrapped, hdue, htrue, hfalse⟩ : s.committed false 0 = 2 ^ 64 - 5 ∧
      s.due oneScope false 0 = 0 ∧ s.pc true = .idle ∧ s.pc false = .idle := by
    simpa using hend
  have hreach : (system oneScope).Reachable s :=
    System.reachable_of_exec (.init twoProcessors_fresh) hs
  refine ⟨s, hreach, ?_, hdue, hwrapped⟩
  intro p
  cases p with
  | false => exact hfalse
  | true => exact htrue

end Thalyx.Kernel.Window
