/-
No wake is lost while slots are not taken from under a wait.

A signal's count is at least how many threads sleep on it or have yet to give their count back,
and a thread sleeps only on a signal that exists and on bits that are not raised.  Raising keeps
this because it claims every sleeper it should, which it does because it never finds the count at
zero while there is one.  What breaks it is a slot emptied while a thread sleeps on it, and a slot
filled anew while a thread still has to give its count back: it gives it back to the new signal.
-/
import Mathlib.Algebra.BigOperators.Group.Finset.Piecewise
import ThalyxKernel.Lib.Tally
import ThalyxKernel.Kernel.Events

namespace Thalyx.Kernel.Events

open Function Option

variable {τ : Type}

/-- A thread is blocked on a signal, at this generation of its slot. -/
def Phase.sleepsAt (i : SignalId) (generation : Nat) : Phase → Bool
  | .blocked j g _ => j == i && g == generation
  | _ => false

/-- What a thread stands for in the count of a slot's waiters. -/
def Phase.counts (i : SignalId) : Phase → Nat
  | .blocked j _ _ => if j = i then 1 else 0
  | .woken j _ => if j = i then 1 else 0
  | _ => 0

theorem createTimer_frame (s : State τ) (sponsor : ScopeId) (i : SignalId) (g : Nat)
    (bits : BitVec 64) : (s.createTimer sponsor i g bits).1.signals = s.signals
      ∧ (s.createTimer sponsor i g bits).1.threads = s.threads := by
  simp only [State.createTimer]
  split
  · exact ⟨rfl, rfl⟩
  split
  · exact ⟨rfl, rfl⟩
  split
  · exact ⟨rfl, rfl⟩
  · exact ⟨rfl, rfl⟩

section Counted

variable [Fintype τ]

/-- The threads that are blocked on a signal at its generation. -/
def State.sleepers (s : State τ) (i : SignalId) : Finset τ :=
  Finset.univ.filter fun t => (s.threads t).sleepsAt i (s.signals i).generation

/-- How many waiters a slot has to count. -/
def State.waiting (s : State τ) (i : SignalId) : Nat :=
  tally (fun _ => Phase.counts i) s.threads

/-- What holds between two acts. -/
structure Inv (s : State τ) : Prop where
  /-- A thread sleeps on a signal that exists, and none of what it waits for is raised. -/
  asleep : ∀ t i g mask, s.threads t = .blocked i g mask →
    (s.signals i).used = true ∧ (s.signals i).generation = g ∧ (s.signals i).bits &&& mask = 0
  counted : ∀ i, (s.signals i).used = true → s.waiting i ≤ (s.signals i).waiters

variable {s s' : State τ}

theorem Fresh.inv (h : Fresh s) : Inv s where
  asleep := by
    intro t i g mask ht
    rcases h.threads t with hrunning | hgone
    · rw [hrunning] at ht
      cases ht
    · rw [hgone] at ht
      cases ht
  counted := by
    intro i hi
    rw [h.signals i] at hi
    cases hi

theorem Inv.congr (h : Inv s) (hsignals : s'.signals = s.signals)
    (hthreads : s'.threads = s.threads) : Inv s' where
  asleep := by
    rw [hsignals, hthreads]
    exact h.asleep
  counted := by
    intro i hi
    rw [hsignals] at hi ⊢
    unfold State.waiting
    rw [hthreads]
    exact h.counted i hi

variable {i : SignalId}

theorem Inv.sleepers_le (h : Inv s)
    (hi : (s.signals i).used = true) : (s.sleepers i).card ≤ (s.signals i).waiters := by
  refine le_trans ?_ (h.counted i hi)
  rw [State.sleepers, Finset.card_filter]
  apply Finset.sum_le_sum
  intro t _
  split
  · rename_i hsleeps
    cases hphase : s.threads t with
    | blocked j g mask =>
      rw [hphase] at hsleeps
      simp only [Phase.sleepsAt, Bool.and_eq_true, beq_iff_eq] at hsleeps
      simp [Phase.counts, hsleeps.1]
    | running => simp [hphase, Phase.sleepsAt] at hsleeps
    | woken j status => simp [hphase, Phase.sleepsAt] at hsleeps
    | gone => simp [hphase, Phase.sleepsAt] at hsleeps
  · exact Nat.zero_le _

variable {t : τ} {bits mask : BitVec 64}
variable {g : Nat}

theorem Inv.awake (h : Inv s) (hzero : (s.signals i).waiters = 0) :
    s.threads t ≠ .blocked i g mask := by
  intro ht
  have hused := (h.asleep t i g mask ht).1
  have hle := h.counted i hused
  have hone := le_tally (fun _ => Phase.counts i) s.threads t
  rw [ht] at hone
  simp only [Phase.counts, if_true] at hone
  unfold State.waiting at hle
  omega

/-! ### Raising -/

theorem counts_claim (i j : SignalId) (g : Nat) (bits : BitVec 64) (phase : Phase) :
    Phase.counts i (State.claim j g bits phase) = Phase.counts i phase := by
  cases phase with
  | blocked k g' mask =>
    simp only [State.claim]
    split
    · rename_i hmine
      rw [hmine.1]
      rfl
    · rfl
  | running => rfl
  | woken k status => rfl
  | gone => rfl

theorem slept_of_claim {j : SignalId} {g' : Nat} {phase : Phase}
    (h : State.claim i g bits phase = .blocked j g' mask) :
    phase = .blocked j g' mask ∧ ¬(j = i ∧ g' = g ∧ mask &&& bits ≠ 0) := by
  cases phase with
  | blocked k g'' mask' =>
    simp only [State.claim] at h
    split at h
    · cases h
    · rename_i hkeep
      cases h
      exact ⟨rfl, hkeep⟩
  | running => cases h
  | woken k status => cases h
  | gone => cases h

theorem raiseBits_cases (h : Inv s) (i : SignalId) (g : Nat) (bits : BitVec 64) :
    s.raiseBits i g bits = s ∨ (s.signals i).generation = g
      ∧ (s.raiseBits i g bits).signals = Function.update s.signals i
        { s.signals i with
          bits := (s.signals i).bits ||| bits, sequence := (s.signals i).sequence + 1 }
      ∧ (s.raiseBits i g bits).threads = fun t => State.claim i g bits (s.threads t) := by
  simp only [State.raiseBits]
  split
  · exact .inl rfl
  rename_i hlive
  have hgeneration : (s.signals i).generation = g := by
    by_contra hne
    exact hlive (.inr hne)
  split
  · rename_i hzero
    refine .inr ⟨hgeneration, rfl, ?_⟩
    funext t
    -- With no waiter counted there is no sleeper, and the claim would change nothing.
    show s.threads t = _
    cases ht : s.threads t with
    | blocked j g' mask =>
      simp only [State.claim]
      rw [if_neg]
      rintro ⟨rfl, -, -⟩
      exact h.awake hzero ht
    | running => rfl
    | woken j status => rfl
    | gone => rfl
  · exact .inr ⟨hgeneration, rfl, rfl⟩

theorem Inv.raiseBits (h : Inv s) (i : SignalId) (g : Nat) (bits : BitVec 64) :
    Inv (s.raiseBits i g bits) := by
  rcases raiseBits_cases h i g bits with heq | ⟨hlive, hsignals, hthreads⟩
  · rw [heq]
    exact h
  refine ⟨?_, ?_⟩
  · intro t j g' mask ht
    rw [hthreads] at ht
    rw [hsignals]
    obtain ⟨hbefore, hkeep⟩ := slept_of_claim ht
    obtain ⟨hused, hgeneration, hquiet⟩ := h.asleep t j g' mask hbefore
    by_cases hji : j = i
    · subst hji
      rw [update_self]
      refine ⟨hused, hgeneration, ?_⟩
      have hmissed : mask &&& bits = 0 := by
        by_contra hmeets
        exact hkeep ⟨rfl, hgeneration.symm.trans hlive, hmeets⟩
      rw [BitVec.and_or_distrib_right, hquiet, BitVec.and_comm, hmissed]
      rfl
    · rw [update_of_ne hji]
      exact ⟨hused, hgeneration, hquiet⟩
  · intro j hj
    have hsame : (s.raiseBits i g bits).waiting j = s.waiting j := by
      unfold State.waiting
      apply tally_congr
      intro t
      rw [hthreads]
      exact counts_claim j i g bits _
    rw [hsame, hsignals]
    rw [hsignals] at hj
    by_cases hji : j = i
    · subst hji
      rw [update_self] at hj ⊢
      exact h.counted j hj
    · rw [update_of_ne hji] at hj ⊢
      exact h.counted j hj

/-- **A raise wakes every thread that sleeps on one of its bits.** -/
theorem raiseBits_wakes (h : Inv s)
    (ht : s.threads t = .blocked i g mask) (hmeets : mask &&& bits ≠ 0) :
    (s.raiseBits i g bits).threads t = .woken i .ok := by
  obtain ⟨hused, hgeneration, -⟩ := h.asleep t i g mask ht
  have hwaiters : (s.signals i).waiters ≠ 0 := fun hzero => h.awake hzero ht
  have hlive : ¬((!(s.signals i).used) = true ∨ (s.signals i).generation ≠ g) := by
    rw [hused, hgeneration]
    simp
  simp only [State.raiseBits]
  rw [if_neg hlive, if_neg hwaiters]
  dsimp only [State.setSignal]
  rw [ht, State.claim, if_pos ⟨rfl, rfl, hmeets⟩]

theorem Inv.expireOne (h : Inv s) (now : Nat) (k : TimerId) : Inv (s.expireOne now k) := by
  simp only [State.expireOne]
  split
  · exact h
  · apply Inv.raiseBits
    exact h.congr rfl rfl

theorem Inv.expire (h : Inv s) (now : Nat) : Inv (s.expire now) := by
  unfold State.expire
  generalize List.finRange maxTimers = row
  induction row generalizing s with
  | nil => exact h
  | cons k rest ih => exact ih (h.expireOne now k)

theorem Inv.onInterrupt (h : Inv s)
    (bindings : List (SignalId × Nat × BitVec 64)) : Inv (s.onInterrupt bindings) := by
  unfold State.onInterrupt
  induction bindings generalizing s with
  | nil => exact h
  | cons b rest ih => exact ih (h.raiseBits _ _ _)

/-! ### Waiting -/

variable {signal : Signal}

theorem Inv.setSignal (h : Inv s) (hused : signal.used = (s.signals i).used)
    (hgeneration : signal.generation = (s.signals i).generation)
    (hbits : ∀ mask, (s.signals i).bits &&& mask = 0 → signal.bits &&& mask = 0)
    (hwaiters : (s.signals i).waiters ≤ signal.waiters) : Inv (s.setSignal i signal) where
  asleep := by
    intro t j g mask ht
    obtain ⟨hlive, hat, hquiet⟩ := h.asleep t j g mask ht
    dsimp only [State.setSignal]
    by_cases hji : j = i
    · subst hji
      rw [update_self]
      exact ⟨hused.trans hlive, hgeneration.trans hat, hbits mask hquiet⟩
    · rw [update_of_ne hji]
      exact ⟨hlive, hat, hquiet⟩
  counted := by
    intro j hj
    have hbefore := h.counted j
    dsimp only [State.setSignal] at hj ⊢
    by_cases hji : j = i
    · subst hji
      rw [update_self] at hj ⊢
      exact (hbefore (hused ▸ hj)).trans hwaiters
    · rw [update_of_ne hji] at hj ⊢
      exact hbefore hj

/-! ### Signals that come and go -/

theorem Inv.fill (h : Inv s)
    (hfree : (s.signals i).used = false) (hnone : ∀ t status, s.threads t ≠ .woken i status) :
    Inv (s.setSignal i signal) where
  asleep := by
    intro t j g mask ht
    have hslept := h.asleep t j g mask ht
    have hji : j ≠ i := by
      rintro rfl
      rw [hfree] at hslept
      cases hslept.1
    dsimp only [State.setSignal]
    rw [update_of_ne hji]
    exact hslept
  counted := by
    intro j hj
    dsimp only [State.setSignal] at hj ⊢
    by_cases hji : j = i
    · subst hji
      have hzero : s.waiting j = 0 := by
        apply tally_eq_zero
        intro t
        cases ht : s.threads t with
        | blocked k g mask =>
          have hused := (h.asleep t k g mask ht).1
          rw [Phase.counts, if_neg]
          rintro rfl
          rw [hfree] at hused
          cases hused
        | woken k status =>
          rw [Phase.counts, if_neg]
          rintro rfl
          exact hnone t status ht
        | running => rfl
        | gone => rfl
      show s.waiting j ≤ _
      omega
    · rw [update_of_ne hji] at hj ⊢
      exact h.counted j hj

theorem Inv.releaseSponsored (h : Inv s) {within : ScopeId → Bool}
    (hnone : ∀ t i g mask, s.threads t = .blocked i g mask →
      within (s.signals i).ownerScope = false) : Inv (s.releaseSponsored within) where
  asleep := by
    intro t i g mask ht
    have hkept := hnone t i g mask ht
    simp only [State.releaseSponsored]
    rw [hkept, Bool.and_false]
    exact h.asleep t i g mask ht
  counted := by
    intro i hi
    simp only [State.releaseSponsored] at hi ⊢
    split at hi
    · cases hi
    · rename_i hkept
      rw [if_neg hkept]
      exact h.counted i hi

/-! ### The threads -/

variable [DecidableEq τ]

theorem waiting_setThread (s : State τ) (t : τ) (phase : Phase) (i : SignalId) :
    (s.setThread t phase).waiting i + (s.threads t).counts i
      = s.waiting i + phase.counts i :=
  tally_update (fun _ => Phase.counts i) s.threads t phase

theorem Inv.setThread (h : Inv s) {phase : Phase} (hawake : ∀ i g mask, phase ≠ .blocked i g mask)
    (hcounts : ∀ i, phase.counts i ≤ (s.threads t).counts i) : Inv (s.setThread t phase) where
  asleep := by
    intro u i g mask hu
    dsimp only [State.setThread] at hu
    by_cases hut : u = t
    · subst hut
      rw [update_self] at hu
      exact absurd hu (hawake i g mask)
    · rw [update_of_ne hut] at hu
      exact h.asleep u i g mask hu
  counted := by
    intro i hi
    have hbefore := h.counted i hi
    have hsum := waiting_setThread s t phase i
    have hno := hcounts i
    show _ ≤ (s.signals i).waiters
    omega

theorem Inv.settle (h : Inv s) {status : Status}
    (ht : s.threads t = .woken i status) : Inv (s.settle t i) := by
  have hcounts : ∀ j, Phase.counts j .running ≤ (s.threads t).counts j := fun j => Nat.zero_le _
  have hrunning : Inv (s.setThread t .running) :=
    h.setThread (fun _ _ _ heq => nomatch heq) hcounts
  simp only [State.settle]
  split
  · rename_i hused
    refine ⟨?_, ?_⟩
    · intro u j g mask hu
      obtain ⟨hlive, hat, hquiet⟩ := hrunning.asleep u j g mask hu
      dsimp only [State.setSignal]
      by_cases hji : j = i
      · subst hji
        rw [update_self]
        exact ⟨hlive, hat, hquiet⟩
      · rw [update_of_ne hji]
        exact ⟨hlive, hat, hquiet⟩
    · intro j hj
      show (s.setThread t .running).waiting j ≤ _
      dsimp only [State.setSignal] at hj ⊢
      by_cases hji : j = i
      · subst hji
        have hbefore := h.counted j hused
        have hsum := waiting_setThread s t .running j
        rw [ht] at hsum
        simp only [Phase.counts, if_true] at hsum
        rw [update_self]
        show _ ≤ (s.signals j).waiters - 1
        omega
      · rw [update_of_ne hji] at hj ⊢
        exact hrunning.counted j hj
  · exact hrunning

theorem Inv.block (h : Inv s)
    (hlive : s.alive i g = true) (hquiet : (s.signals i).bits &&& mask = 0)
    (hrunning : s.threads t = .running) :
    Inv ((s.setThread t (.blocked i g mask)).setSignal i
      { s.signals i with waiters := (s.signals i).waiters + 1 }) where
  asleep := by
    obtain ⟨hused, hgeneration⟩ : (s.signals i).used = true ∧ (s.signals i).generation = g := by
      simpa [State.alive] using hlive
    intro u j g' mask' hu
    dsimp only [State.setSignal, State.setThread] at hu ⊢
    have hslept : (s.signals j).used = true ∧ (s.signals j).generation = g'
        ∧ (s.signals j).bits &&& mask' = 0 := by
      by_cases hut : u = t
      · subst hut
        rw [update_self] at hu
        cases hu
        exact ⟨hused, hgeneration, hquiet⟩
      · rw [update_of_ne hut] at hu
        exact h.asleep u j g' mask' hu
    by_cases hji : j = i
    · subst hji
      rw [update_self]
      exact hslept
    · rw [update_of_ne hji]
      exact hslept
  counted := by
    intro j hj
    have hsum := waiting_setThread s t (.blocked i g mask) j
    rw [hrunning] at hsum
    simp only [Phase.counts] at hsum
    show (s.setThread t (.blocked i g mask)).waiting j ≤ _
    dsimp only [State.setSignal] at hj ⊢
    by_cases hji : j = i
    · subst hji
      rw [update_self] at hj ⊢
      have hbefore := h.counted j hj
      rw [if_pos rfl] at hsum
      dsimp only
      omega
    · rw [update_of_ne hji] at hj ⊢
      have hbefore := h.counted j hj
      rw [if_neg (Ne.symm hji)] at hsum
      show _ ≤ (s.signals j).waiters
      omega

variable {answer : Answer}

theorem Inv.wait (h : Inv s) {capability : Except Status (SignalId × Nat)} {nonblocking : Bool}
    (hrunning : s.threads t = .running)
    (hact : s.wait t capability bits nonblocking = some (s', answer)) : Inv s' := by
  simp only [State.wait] at hact
  split at hact
  · cases hact
    exact h
  split at hact
  · cases hact
    exact h
  split at hact
  · cases hact
    exact h
  rename_i i g hdead
  split at hact
  · cases hact
    -- What is consumed is not there for anyone to sleep on.
    refine h.setSignal rfl rfl ?_ le_rfl
    intro mask hquiet
    rw [BitVec.and_assoc, BitVec.and_comm (~~~_), ← BitVec.and_assoc, hquiet]
    exact BitVec.zero_and
  rename_i hnone
  split at hact
  · cases hact
    exact h
  split at hact
  · cases hact
    exact h.block (by simpa using hdead) (by simpa using hnone) hrunning
  · cases hact

/-! ### Runs -/

/-- No signal is made in a slot while a thread woken from it has its count to give back, and no
scope retires while a thread sleeps on a signal that it sponsors. -/
def Guarded (s : State τ) : Act τ → Prop
  | .createSignal _ => ∀ i, s.freeSignal = some i → ∀ t status, s.threads t ≠ .woken i status
  | .retire within => ∀ t i g mask, s.threads t = .blocked i g mask →
      within (s.signals i).ownerScope = false
  | _ => True

theorem perform_inv {act : Act τ} (h : Inv s)
    (hok : Guarded s act) (hact : perform s act = some (s', answer)) : Inv s' := by
  cases act with
  | createSignal sponsor =>
    simp only [perform, State.createSignal] at hact
    split at hact
    · cases hact
      exact h
    · rename_i i hi
      cases hact
      refine h.fill ?_ (hok i hi)
      simpa using List.find?_some hi
  | createTimer sponsor i g bits =>
    obtain ⟨hsignals, hthreads⟩ := createTimer_frame s sponsor i g bits
    have hs' := (Prod.mk.inj (some.inj hact)).1
    rw [← hs']
    exact h.congr hsignals hthreads
  | arm k deadlineNs =>
    simp only [perform] at hact
    split at hact
    · cases hact
      exact h
    · cases hact
      exact h.congr rfl rfl
  | cancel k =>
    cases hact
    exact h.congr rfl rfl
  | raise i g bits =>
    simp only [perform] at hact
    split at hact
    · cases hact
      exact h
    split at hact
    · cases hact
      exact h
    · cases hact
      exact h.raiseBits i _ bits
  | expire now =>
    cases hact
    exact h.expire now
  | interrupt bindings =>
    cases hact
    exact h.onInterrupt bindings
  | wait t capability bits nonblocking =>
    simp only [perform] at hact
    split at hact
    · rename_i hrunning
      exact h.wait hrunning hact
    · cases hact
  | giveUp t status =>
    simp only [perform] at hact
    split at hact
    · rename_i i g mask ht
      cases hact
      refine h.setThread (fun _ _ _ heq => nomatch heq) ?_
      intro j
      rw [ht]
      exact le_rfl
    · cases hact
  | settle t =>
    simp only [perform] at hact
    split at hact
    · rename_i i status ht
      cases hact
      exact h.settle ht
    · cases hact
  | stop t =>
    cases hact
    exact h.setThread (fun _ _ _ heq => nomatch heq) fun _ => Nat.zero_le _
  | start t =>
    simp only [perform] at hact
    split at hact
    · cases hact
      exact h.setThread (fun _ _ _ heq => nomatch heq) fun _ => Nat.zero_le _
    · cases hact
  | retire within =>
    cases hact
    exact h.releaseSponsored hok

theorem reachable_inv (h : (machine.within Guarded).Reachable s) : Inv s := by
  refine h.invariant (fun s => Fresh.inv) ?_
  intro s act s' hs hstep
  obtain ⟨result, hact, rfl⟩ := map_eq_some_iff.mp hstep.2
  exact perform_inv hs hstep.1 hact

/-- **While no slot is taken from under a wait: a signal counts all who sleep on it, a thread
sleeps only on a signal that exists and while nothing it waits for is raised, and a raise of what
it waits for wakes it.** -/
theorem no_wake_lost {s : State τ} (h : (machine.within Guarded).Reachable s) :
    (∀ i, (s.signals i).used = true → (s.sleepers i).card ≤ (s.signals i).waiters)
    ∧ (∀ t i g mask, s.threads t = .blocked i g mask → s.alive i g = true
      ∧ (s.signals i).bits &&& mask = 0)
    ∧ ∀ t i g mask bits, s.threads t = .blocked i g mask → mask &&& bits ≠ 0 →
      (s.raiseBits i g bits).threads t = .woken i .ok := by
  have hinv := reachable_inv h
  refine ⟨fun i hi => hinv.sleepers_le hi, ?_, ?_⟩
  · intro t i g mask ht
    obtain ⟨hused, hgeneration, hquiet⟩ := hinv.asleep t i g mask ht
    refine ⟨?_, hquiet⟩
    rw [State.alive, hused, hgeneration]
    simp
  · intro t i g mask bits ht hmeets
    exact raiseBits_wakes hinv ht hmeets

end Counted

/-! ### Two threads, and one slot -/

/-- Nothing made, and both threads running. -/
def idle : State Bool := ⟨fun _ => .empty, fun _ => .empty, fun _ => .running⟩

theorem idle_fresh : Fresh idle := ⟨fun _ => rfl, fun _ => rfl, fun _ => .inl rfl⟩

/-- Signals are made while no thread waits, and no scope retires. -/
def Calm (s : State Bool) : Act Bool → Prop
  | .createSignal _ => ∀ t, s.threads t = .running
  | .retire _ => False
  | _ => True

instance (s : State Bool) (act : Act Bool) : Decidable (Calm s act) :=
  match act with
  | .createSignal _ => inferInstanceAs (Decidable (∀ t, s.threads t = .running))
  | .retire _ => isFalse id
  | .createTimer .. => isTrue trivial
  | .arm .. => isTrue trivial
  | .cancel .. => isTrue trivial
  | .raise .. => isTrue trivial
  | .expire .. => isTrue trivial
  | .interrupt .. => isTrue trivial
  | .wait .. => isTrue trivial
  | .giveUp .. => isTrue trivial
  | .settle .. => isTrue trivial
  | .stop .. => isTrue trivial
  | .start .. => isTrue trivial

theorem Calm.guarded {s : State Bool} {act : Act Bool} (h : Calm s act) : Guarded s act := by
  cases act with
  | createSignal sponsor =>
    intro i _ t status ht
    rw [h t] at ht
    cases ht
  | retire within => exact h.elim
  | createTimer sponsor i g bits => trivial
  | arm k deadlineNs => trivial
  | cancel k => trivial
  | raise i g bits => trivial
  | expire now => trivial
  | interrupt bindings => trivial
  | wait t capability bits nonblocking => trivial
  | giveUp t status => trivial
  | settle t => trivial
  | stop t => trivial
  | start t => trivial

theorem no_wake_lost_asleep :
    ∃ s : State Bool, s.threads true = .blocked 0 1 1 ∧ (s.signals 0).used = true
      ∧ (s.sleepers 0).card ≤ (s.signals 0).waiters
      ∧ (s.raiseBits 0 1 3).threads true = .woken 0 .ok := by
  have hrun : (System.exec (System.guarded Calm fun s act => (perform s act).map Prod.fst)
      [.createSignal 0, .wait true (.ok (0, 1)) 1 false] idle).map
        (fun s => (s.threads true, (s.signals 0).used)) = some (.blocked 0 1 1, true) := by
    decide +kernel
  obtain ⟨s, hs, hend⟩ := map_eq_some_iff.mp hrun
  obtain ⟨hasleep, hused⟩ := Prod.mk.inj hend
  have hreach : (machine.within Guarded).Reachable s :=
    System.reachable_within_of_tested (.init idle_fresh) (fun _ _ _ => Calm.guarded) hs
  obtain ⟨hcounted, -, hwakes⟩ := no_wake_lost hreach
  exact ⟨s, hasleep, hused, hcounted 0 hused, hwakes true 0 1 1 3 hasleep (by decide)⟩

/-- A scope retires while a thread of another sleeps on its signal. -/
def retired : List (Act Bool) :=
  [.createSignal 0, .wait true (.ok (0, 1)) 1 false, .retire fun _ => true]

/-- A signal's slot is filled anew before the thread woken from it has taken its count back. -/
def refilled : List (Act Bool) :=
  [.createSignal 0, .wait false (.ok (0, 1)) 1 false, .raise 0 1 1, .retire fun _ => true,
    .createSignal 1, .wait true (.ok (0, 2)) 1 false, .settle false]

/-- A thread is left asleep on a signal that does not exist; and one that sleeps is not counted,
and is not woken by what it waits for. -/
theorem wake_lost :
    (∃ s : State Bool, machine.Reachable s ∧ s.threads true = .blocked 0 1 1
      ∧ (s.signals 0).used = false)
    ∧ ∃ s : State Bool, machine.Reachable s ∧ s.threads true = .blocked 0 2 1
      ∧ s.alive 0 2 = true ∧ (s.signals 0).waiters = 0
      ∧ (s.raiseBits 0 2 1).threads true = .blocked 0 2 1 := by
  refine ⟨?_, ?_⟩
  · have hrun : (System.exec (fun s act => (perform s act).map Prod.fst) retired idle).map
        (fun s => (s.threads true, (s.signals 0).used)) = some (.blocked 0 1 1, false) := by
      decide +kernel
    obtain ⟨s, hs, hend⟩ := map_eq_some_iff.mp hrun
    obtain ⟨hasleep, hgone⟩ := Prod.mk.inj hend
    exact ⟨s, System.reachable_of_exec (.init idle_fresh) hs, hasleep, hgone⟩
  · have hrun : (System.exec (fun s act => (perform s act).map Prod.fst) refilled idle).map
        (fun s => (s.threads true, s.alive 0 2, (s.signals 0).waiters,
          (s.raiseBits 0 2 1).threads true))
        = some (.blocked 0 2 1, true, 0, .blocked 0 2 1) := by
      decide +kernel
    obtain ⟨s, hs, hend⟩ := map_eq_some_iff.mp hrun
    obtain ⟨hasleep, halive, hzero, hstill⟩ := by simpa only [Prod.mk.injEq] using hend
    exact ⟨s, System.reachable_of_exec (.init idle_fresh) hs, hasleep, halive, hzero, hstill⟩

end Thalyx.Kernel.Events
