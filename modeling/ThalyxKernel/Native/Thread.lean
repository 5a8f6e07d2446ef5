/-
Which thread of a native domain is running: `user/native/src/thread.c`, over the stacks
`build_with` of `user/k5super/src/launch.rs` maps.

The supervisor puts the stack of thread `i` into slot `i` of the region at `THREAD_STACKS`,
and slot 0 stays empty.  The runtime divides the stack pointer by the slot's size and adds
one, as if the stack of thread 1 were in slot 0.  The two therefore differ by one on every
address of every stack, and the last built thread finds an index one past the tables.
-/
import Mathlib.Data.Nat.Bitwise
import Mathlib.Tactic.Common

namespace Thalyx.Native

/-! ### The supervisor: where a stack is -/

namespace Addr

abbrev threadStacks : Nat := 0x40000000
abbrev threadSlot : Nat := 0x40000

end Addr

abbrev pageSize : Nat := 4096

/-- A thread `build_with` adds: its stack's mapping, and what `DOMAIN_ADD_THREAD` is given. -/
structure BuiltThread where
  vaddr : Nat
  pages : Nat
  stack : Nat
  argument : Nat
deriving DecidableEq, Repr

/-- The body of the loop over `1..=recipe.threads`. -/
def addThread (index : Nat) : BuiltThread :=
  let pages := 16
  let base := Addr.threadStacks + index * Addr.threadSlot
  let top := base + Addr.threadSlot
  { vaddr := top - pages * pageSize, pages, stack := top, argument := index }

def builtThreads (threads : Nat) : List BuiltThread :=
  (List.range' 1 threads).map addThread

/-- The address is in the stack mapped for the thread. -/
def BuiltThread.Holds (t : BuiltThread) (here : Nat) : Prop :=
  t.vaddr ≤ here ∧ here < t.vaddr + t.pages * pageSize

instance (t : BuiltThread) (here : Nat) : Decidable (t.Holds here) :=
  inferInstanceAs (Decidable (_ ∧ _))

variable {mask threads : Nat} {t : BuiltThread}

theorem mem_builtThreads :
    t ∈ builtThreads threads ↔ ∃ index, 1 ≤ index ∧ index ≤ threads ∧ t = addThread index := by
  simp only [builtThreads, List.mem_map, List.mem_range'_1]
  constructor
  · intro ⟨index, ⟨hlow, hhigh⟩, ht⟩
    exact ⟨index, hlow, by omega, ht.symm⟩
  · intro ⟨index, hlow, hhigh, ht⟩
    exact ⟨index, ⟨hlow, by omega⟩, ht.symm⟩

variable {here index : Nat}

theorem holds_slot (h : (addThread index).Holds here) :
    Addr.threadStacks + index * Addr.threadSlot ≤ here
      ∧ here < Addr.threadStacks + (index + 1) * Addr.threadSlot := by
  obtain ⟨hlow, hhigh⟩ := h
  dsimp only [addThread, Addr.threadStacks, Addr.threadSlot, pageSize] at hlow hhigh ⊢
  omega

theorem holds_entry (index : Nat) : (addThread index).Holds ((addThread index).stack - 8) := by
  dsimp only [BuiltThread.Holds, addThread, Addr.threadStacks, Addr.threadSlot, pageSize]
  omega

/-! ### The runtime: which stack this is -/

abbrev thThreadStacks : Nat := 0x40000000
abbrev thThreadSlot : Nat := 0x00040000
abbrev thThreadMax : Nat := 3

/-- `th_thread_index`, where the frame's address is `here`. -/
def threadIndex (here : Nat) : Nat :=
  if here < thThreadStacks ∨ here ≥ thThreadStacks + (thThreadMax + 1) * thThreadSlot then 0
  else (here - thThreadStacks) / thThreadSlot + 1

/-- `pthread_create` stores this through its first argument when it has handed the routine to
the built thread `index`. -/
def handleOf (index : Nat) : Nat := index + 1

def pthreadSelf (here : Nat) : Nat := threadIndex here + 1

/-- What `pthread_exit` ends. -/
inductive Exit
  | program
  | routine (index : Nat)
deriving DecidableEq, Repr

def pthreadExit (here : Nat) : Exit :=
  if threadIndex here = 0 then .program else .routine (threadIndex here)

/-- The entry that the running thread reaches in a table of `TH_THREAD_MAX + 1`: its `errno`,
its row of `key_value`, its `th_pthread`.  `none` is an entry outside the table. -/
def tableEntry (here : Nat) : Option Nat :=
  if threadIndex here < thThreadMax + 1 then some (threadIndex here) else none

/-! ### Waking

A waiter leaves the bit of its index in a mask and waits for its wake bit; whoever releases
what it waits for raises the wake bit of every index in the mask.
-/

/-- `TH_WAKE_BIT`. -/
def wakeBit (index : Nat) : Nat := 1 <<< (16 + index)

/-- The bit a waiter sets in `waiters`. -/
def waiterBit (here : Nat) : Nat := 1 <<< threadIndex here

/-- The mask `th_wait_wake` waits on. -/
def waitWake (here : Nat) : Nat := wakeBit (threadIndex here)

/-- `th_wake`: the mask it raises, and `0` where it raises none. -/
def wake (index : Nat) : Nat := if index ≤ thThreadMax then wakeBit index else 0

/-- `__builtin_ctz`, for a mask that is not zero. -/
def ctz (mask : Nat) : Nat :=
  if mask = 0 then 0 else if mask % 2 = 1 then 0 else ctz (mask / 2) + 1

/-- `wake_all`: the masks raised, in order. -/
def wakeAll (mask : Nat) : List Nat :=
  if h : mask = 0 then [] else wake (ctz mask) :: wakeAll (mask &&& (mask - 1))
termination_by mask
decreasing_by
  have := Nat.and_le_right (n := mask) (m := mask - 1)
  omega

theorem testBit_clear (mask i : Nat) (h : mask ≠ 0) :
    (mask &&& (mask - 1)).testBit i = (mask.testBit i && decide (i ≠ ctz mask)) := by
  induction mask using Nat.strong_induction_on generalizing i with
  | _ mask ih =>
    rw [Nat.testBit_and]
    unfold ctz
    by_cases hodd : mask % 2 = 1
    · -- the lowest bit is bit 0, and the rest of `mask - 1` is the rest of `mask`
      simp only [h, hodd, if_true, if_false]
      cases i with
      | zero =>
        have heven : (mask - 1) % 2 = 0 := by omega
        simp [Nat.testBit_zero, heven]
      | succ i =>
        have hhalf : (mask - 1) / 2 = mask / 2 := by omega
        simp [Nat.testBit_succ, hhalf]
    · simp only [h, hodd, if_false]
      have hhalf : mask / 2 ≠ 0 := by omega
      cases i with
      | zero =>
        have heven : mask % 2 = 0 := by omega
        simp [Nat.testBit_zero, heven]
      | succ i =>
        have hpred : (mask - 1) / 2 = mask / 2 - 1 := by omega
        have := ih (mask / 2) (by omega) i hhalf
        rw [Nat.testBit_and] at this
        simp [Nat.testBit_succ, hpred, this]

theorem testBit_ctz (mask : Nat) (h : mask ≠ 0) : mask.testBit (ctz mask) = true := by
  induction mask using Nat.strong_induction_on with
  | _ mask ih =>
    unfold ctz
    by_cases hodd : mask % 2 = 1
    · simp [h, hodd, Nat.testBit_zero]
    · simp only [h, hodd, if_false]
      rw [Nat.testBit_succ]
      exact ih (mask / 2) (by omega) (by omega)

theorem mem_wakeAll (mask raised : Nat) :
    raised ∈ wakeAll mask ↔ ∃ i, mask.testBit i = true ∧ raised = wake i := by
  induction mask using Nat.strong_induction_on with
  | _ mask ih =>
    unfold wakeAll
    by_cases h : mask = 0
    · simp [h]
    · have hless : mask &&& (mask - 1) < mask := by
        have := Nat.and_le_right (n := mask) (m := mask - 1)
        omega
      simp only [h, dite_false, List.mem_cons, ih _ hless, testBit_clear mask _ h]
      constructor
      · intro hraised
        rcases hraised with hfirst | ⟨i, hi, hrest⟩
        · exact ⟨ctz mask, testBit_ctz mask h, hfirst⟩
        · exact ⟨i, (Bool.and_eq_true_iff.mp hi).1, hrest⟩
      · intro ⟨i, hi, hraised⟩
        by_cases hlow : i = ctz mask
        · exact .inl (hlow ▸ hraised)
        · exact .inr ⟨i, by simp [hi, hlow], hraised⟩

/-! ### Whether the two agree

Thread 0 is the initial thread, on the main stack.
-/

abbrev thStackBase : Nat := 0x20000000
abbrev thStackTop : Nat := 0x20200000

/-- The stack pointer `here` is in the stack mapped for the thread. -/
def RunsAt (thread here : Nat) : Prop :=
  (thread = 0 ∧ thStackBase ≤ here ∧ here < thStackTop)
    ∨ (thread ≠ 0 ∧ (addThread thread).Holds here)

theorem runsAt_built (ht : t ∈ builtThreads threads) :
    1 ≤ t.argument ∧ t.argument ≤ threads ∧ t = addThread t.argument := by
  obtain ⟨index, hlow, hhigh, rfl⟩ := mem_builtThreads.mp ht
  exact ⟨hlow, hhigh, rfl⟩

theorem threadIndex_initial (h : RunsAt 0 here) : threadIndex here = 0 := by
  obtain ⟨-, hlow, hhigh⟩ | ⟨hne, -⟩ := h
  · unfold threadIndex
    rw [if_pos]
    left
    dsimp only [thStackTop, thThreadStacks] at hhigh ⊢
    omega
  · exact absurd rfl hne

theorem threadIndex_built (hmax : index ≤ thThreadMax)
    (h : (addThread index).Holds here) : threadIndex here = index + 1 := by
  obtain ⟨hlow, hhigh⟩ := holds_slot h
  unfold threadIndex
  dsimp only [Addr.threadStacks, Addr.threadSlot, thThreadStacks, thThreadSlot, thThreadMax]
    at hlow hhigh hmax ⊢
  rw [if_neg (by omega)]
  have hslot : (here - 0x40000000) / 0x00040000 = index := by omega
  rw [hslot]

theorem tableEntry_built (hmax : index ≤ thThreadMax) (h : (addThread index).Holds here) :
    tableEntry here = if index < thThreadMax then some (index + 1) else none := by
  unfold tableEntry
  rw [threadIndex_built hmax h]
  dsimp only [thThreadMax]
  simp only [Nat.add_lt_add_iff_right]

theorem wakeAll_reaches (hmask : mask.testBit (threadIndex here) = true) :
    (∃ raised ∈ wakeAll mask, raised &&& waitWake here ≠ 0)
      ↔ threadIndex here ≤ thThreadMax := by
  have hmeet : ∀ i, wakeBit i &&& waitWake here ≠ 0 → i = threadIndex here := by
    intro i hi
    by_contra hne
    refine hi (Nat.eq_of_testBit_eq fun j => ?_)
    simp only [waitWake, wakeBit, Nat.one_shiftLeft, Nat.testBit_and, Nat.testBit_two_pow,
      Nat.zero_testBit]
    by_cases hj : 16 + i = j
    · have : ¬ 16 + threadIndex here = j := by omega
      simp [this]
    · simp [hj]
  constructor
  · intro ⟨raised, hraised, hends⟩
    obtain ⟨i, -, rfl⟩ := (mem_wakeAll _ _).mp hraised
    unfold wake at hends
    split at hends
    · rename_i hknown
      rwa [← hmeet i hends]
    · simp at hends
  · intro hknown
    refine ⟨_, (mem_wakeAll _ _).mpr ⟨_, hmask, rfl⟩, ?_⟩
    rw [wake, if_pos hknown, waitWake, Nat.and_self, wakeBit, Nat.one_shiftLeft]
    exact Nat.ne_of_gt (Nat.two_pow_pos _)

/-- What the runtime takes for granted about the threads of its domain. -/
structure ThreadIdentity (threads : Nat) : Prop where
  index : ∀ t ∈ builtThreads threads, ∀ here, t.Holds here → threadIndex here = t.argument
  self : ∀ t ∈ builtThreads threads, ∀ here, t.Holds here →
    pthreadSelf here = handleOf t.argument
  exit : ∀ t ∈ builtThreads threads, ∀ here, t.Holds here →
    pthreadExit here = .routine t.argument
  wakes : ∀ thread ≤ threads, ∀ here, RunsAt thread here →
    ∀ mask : Nat, mask &&& waiterBit here ≠ 0 →
      ∃ raised ∈ wakeAll mask, raised &&& waitWake here ≠ 0
  inside : ∀ thread ≤ threads, ∀ here, RunsAt thread here → tableEntry here ≠ none
  distinct : ∀ thread ≤ threads, ∀ other ≤ threads, thread ≠ other →
    ∀ here there, RunsAt thread here → RunsAt other there → tableEntry here ≠ tableEntry there

theorem testBit_of_waiterBit (h : mask &&& waiterBit here ≠ 0) :
    mask.testBit (threadIndex here) = true := by
  by_contra hclear
  refine h (Nat.eq_of_testBit_eq fun j => ?_)
  simp only [waiterBit, Nat.one_shiftLeft, Nat.testBit_and, Nat.testBit_two_pow,
    Nat.zero_testBit]
  by_cases hj : threadIndex here = j
  · simp [← hj, Bool.eq_false_of_not_eq_true hclear]
  · simp [hj]

theorem threadIdentity_single : ThreadIdentity 0 := by
  have hnone : ∀ t, t ∉ builtThreads 0 := by
    intro t ht
    obtain ⟨hlow, hhigh, -⟩ := runsAt_built ht
    omega
  refine ⟨fun t ht => absurd ht (hnone t), fun t ht => absurd ht (hnone t),
    fun t ht => absurd ht (hnone t), ?_, ?_, ?_⟩
  · intro thread hthread here hruns mask hmask
    obtain rfl : thread = 0 := by omega
    refine (wakeAll_reaches (testBit_of_waiterBit hmask)).mpr ?_
    simp [threadIndex_initial hruns]
  · intro thread hthread here hruns
    obtain rfl : thread = 0 := by omega
    simp [tableEntry, threadIndex_initial hruns]
  · intro thread hthread other hother hne
    omega

/-- The supervisor and the runtime agree on the threads of a domain only where the supervisor
built none. -/
theorem threadIdentity_iff (threads : Nat) : ThreadIdentity threads ↔ threads = 0 := by
  constructor
  · intro hidentity
    by_contra hsome
    have hfirst : addThread 1 ∈ builtThreads threads :=
      mem_builtThreads.mpr ⟨1, by omega, by omega, rfl⟩
    have htold := hidentity.index _ hfirst _ (holds_entry 1)
    rw [threadIndex_built (by decide) (holds_entry 1)] at htold
    exact absurd htold (by decide)
  · intro hnone
    subst hnone
    exact threadIdentity_single

/-- With one built thread, which enters at `0x40080000`: eight bytes below, on the stack mapped
for thread 1, the runtime answers 2. -/
theorem threadIdentity_first : ¬ ThreadIdentity 1 := by
  intro hidentity
  have hstack : (addThread 1).Holds 0x4007FFF8 := by decide
  have htold := hidentity.index (addThread 1) (by decide) _ hstack
  exact absurd htold (by decide)

end Thalyx.Native
