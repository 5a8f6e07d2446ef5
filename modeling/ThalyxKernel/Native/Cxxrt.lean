/-
The exit handlers of the native runtime (`take`, `__cxa_atexit`, `atexit` and `run_table` of
`user/native/src/cxxrt.c`).

What they are for is a stack of `TH_EXIT_HANDLERS` places: a registration pushes a call, and
a turn of the loop of `run_table` pops one and makes it.  A run is any list of registrations
and turns, so that a handler may register others while it runs.

A slot is never cleared, and `run_table` looks at `with_argument` first: a slot that
`__cxa_atexit` has used goes on calling what it was given there, whatever `atexit` puts
beside it.
-/
import Mathlib.Data.List.Perm.Basic
import Mathlib.Logic.Function.Basic
import Mathlib.Tactic.Common

namespace Thalyx.Native.Cxxrt

open Function

/-- `TH_EXIT_HANDLERS` -/
abbrev thExitHandlers : Nat := 64

/-- A call of a handler. -/
inductive Call (F : Type) where
  | withArgument (fn : F) (argument : Nat)
  | plain (fn : F)
deriving DecidableEq

/-- `th_handler`; `none` is `NULL`. -/
structure Handler (F : Type) where
  withArgument : Option F
  plain : Option F
  argument : Nat

/-- What `run_table` calls for a slot. -/
def Handler.call {F : Type} (handler : Handler F) : Option (Call F) :=
  match handler.withArgument with
  | some fn => some (.withArgument fn handler.argument)
  | none => handler.plain.map .plain

/-- `handlers` and `handler_count`. -/
structure State (F : Type) where
  handlers : Nat → Handler F
  count : Nat

/-- A registration, or a turn of the loop of `run_table`. -/
inductive Act (F : Type) where
  | cxaAtexit (fn : F) (argument : Nat)
  | atexit (fn : F)
  | turn

/-- What it comes to: what a registration returns, what is called, or the end of the loop. -/
inductive Outcome (F : Type) where
  | returned (value : Int)
  | called (call : Option (Call F))
  | over
deriving DecidableEq

variable {F : Type}

namespace State

def new : State F := ⟨fun _ => ⟨none, none, 0⟩, 0⟩

def take (s : State F) : Option Nat × State F :=
  let slot := s.count
  let s := { s with count := s.count + 1 }
  if slot ≥ thExitHandlers then (none, { s with count := s.count - 1 }) else (some slot, s)

/-- `__cxa_atexit` -/
def cxaAtexit (s : State F) (fn : F) (argument : Nat) : Int × State F :=
  match s.take with
  | (none, s) => (-1, s)
  | (some slot, s) =>
    let handler := s.handlers slot
    let handler := { handler with argument := argument }
    (0, { s with handlers := update s.handlers slot { handler with withArgument := some fn } })

def atexit (s : State F) (fn : F) : Int × State F :=
  match s.take with
  | (none, s) => (-1, s)
  | (some slot, s) =>
    let handler := s.handlers slot
    (0, { s with handlers := update s.handlers slot { handler with plain := some fn } })

/-- One turn of `run_table`, up to the call. -/
def turn (s : State F) : Outcome F × State F :=
  if s.count = 0 then (.over, s)
  else (.called (s.handlers (s.count - 1)).call, { s with count := s.count - 1 })

def act (s : State F) : Act F → Outcome F × State F
  | .cxaAtexit fn argument => (s.cxaAtexit fn argument).map .returned id
  | .atexit fn => (s.atexit fn).map .returned id
  | .turn => s.turn

/-- An `atexit` finds a slot that `__cxa_atexit` has not used. -/
def Unused (s : State F) : Act F → Prop
  | .atexit _ => (s.handlers s.count).withArgument = none
  | _ => True

end State

/-- The call a registration is for. -/
def Act.call? : Act F → Option (Call F)
  | .cxaAtexit fn argument => some (.withArgument fn argument)
  | .atexit fn => some (.plain fn)
  | .turn => none

/-- A stack of calls: a push is refused exactly when the stack is full, and a turn makes the
call that was pushed last. -/
def stackAct (stack : List (Call F)) (a : Act F) : Outcome F × List (Call F) :=
  match a.call?, stack with
  | some call, _ =>
    if stack.length = thExitHandlers then (.returned (-1), stack) else (.returned 0, call :: stack)
  | none, [] => (.over, [])
  | none, call :: rest => (.called (some call), rest)

/-- The outcomes of a run, and where it leads to. -/
def run {σ : Type} (step : σ → Act F → Outcome F × σ) : σ → List (Act F) → List (Outcome F) × σ
  | s, [] => ([], s)
  | s, a :: rest => ((step s a).1 :: (run step (step s a).2 rest).1, (run step (step s a).2 rest).2)

/-- Every step of a run meets a condition on the state it is taken in. -/
def Throughout (ok : State F → Act F → Prop) : State F → List (Act F) → Prop
  | _, [] => True
  | s, a :: rest => ok s a ∧ Throughout ok (s.act a).2 rest

/-! ### The stack -/

/-- The registrations of a run that were not refused, and the calls it made. -/
def registered : List (Act F) → List (Outcome F) → List (Call F)
  | a :: as, .returned 0 :: os => a.call?.toList ++ registered as os
  | _ :: as, _ :: os => registered as os
  | _, _ => []

def called (os : List (Outcome F)) : List (Call F) :=
  os.filterMap fun | .called call => call | _ => none

/-- **Whatever is on the stack or pushed is called once or still there.** -/
theorem run_stack_perm (as : List (Act F)) (stack : List (Call F)) :
    (called (run stackAct stack as).1 ++ (run stackAct stack as).2).Perm
      (stack ++ registered as (run stackAct stack as).1) := by
  induction as generalizing stack with
  | nil => simp [run, called, registered]
  | cons a as ih =>
    have hrest := ih (stackAct stack a).2
    unfold stackAct at hrest
    simp only [run]
    unfold stackAct
    split at hrest <;> rename_i hcall
    · split at hrest <;> rename_i hfull
      · simpa [hcall, hfull, called, registered] using hrest
      · simp only [hcall, hfull, ↓reduceIte, called, registered, Option.toList_some] at hrest ⊢
        exact hrest.trans List.perm_middle.symm
    · simpa [hcall, called, registered] using hrest
    · simpa [hcall, called, registered] using hrest

/-! ### The table as a stack -/

/-- The slots hold the calls of a stack, the last pushed highest. -/
def Holds (handlers : Nat → Handler F) : List (Call F) → Prop
  | [] => True
  | call :: rest => (handlers rest.length).call = some call ∧ Holds handlers rest

variable {stack : List (Call F)}

theorem Holds.update {handlers : Nat → Handler F}
    (h : Holds handlers stack) {slot : Nat} (hslot : stack.length ≤ slot) (handler : Handler F) :
    Holds (Function.update handlers slot handler) stack := by
  induction stack with
  | nil => trivial
  | cons call rest ih =>
    rw [List.length_cons] at hslot
    exact ⟨by rw [update_of_ne (by omega)]; exact h.1, ih h.2 (by omega)⟩

/-- The table stands for a stack. -/
structure Stands (s : State F) (stack : List (Call F)) : Prop where
  count : s.count = stack.length
  room : stack.length ≤ thExitHandlers
  holds : Holds s.handlers stack

variable {s : State F}

theorem Stands.take (h : Stands s stack) :
    stack.length = thExitHandlers ∧ s.take = (none, s) ∨
      stack.length < thExitHandlers ∧
        s.take = (some stack.length, { s with count := stack.length + 1 }) := by
  obtain ⟨hcount, hroom, -⟩ := h
  unfold State.take
  obtain hfull | hroom := Nat.eq_or_lt_of_le hroom
  · exact .inl ⟨hfull, if_pos (Nat.le_of_eq (hcount.trans hfull).symm)⟩
  · refine .inr ⟨hroom, ?_⟩
    rw [hcount]
    exact if_neg (Nat.not_le.mpr hroom)

theorem Stands.push (h : Stands s stack)
    (hroom : stack.length < thExitHandlers) {handler : Handler F} {call : Call F}
    (hcall : handler.call = some call) :
    Stands ⟨update s.handlers stack.length handler, stack.length + 1⟩ (call :: stack) :=
  ⟨rfl, hroom, by simpa using hcall, h.holds.update (Nat.le_refl _) _⟩

/-- **A step on the table is the step on the stack, if an `atexit` finds its slot unused.** -/
theorem Stands.act (h : Stands s stack) (a : Act F) (hunused : s.Unused a) :
    (s.act a).1 = (stackAct stack a).1 ∧ Stands (s.act a).2 (stackAct stack a).2 := by
  cases a with
  | cxaAtexit fn argument =>
    obtain ⟨hfull, htake⟩ | ⟨hroom, htake⟩ := h.take
    · simp [State.act, State.cxaAtexit, stackAct, Act.call?, htake, hfull, h]
    · simp only [State.act, State.cxaAtexit, stackAct, Act.call?, htake, Nat.ne_of_lt hroom]
      exact ⟨rfl, h.push hroom rfl⟩
  | atexit fn =>
    obtain ⟨hfull, htake⟩ | ⟨hroom, htake⟩ := h.take
    · simp [State.act, State.atexit, stackAct, Act.call?, htake, hfull, h]
    · have hcall : ({ s.handlers stack.length with plain := some fn } : Handler F).call =
          some (.plain fn) := by
        simp_all [Handler.call, State.Unused, h.count]
      simp only [State.act, State.atexit, stackAct, Act.call?, htake, Nat.ne_of_lt hroom]
      exact ⟨rfl, h.push hroom hcall⟩
  | turn =>
    obtain ⟨hcount, hroom, hholds⟩ := h
    cases stack with
    | nil =>
      have hover : s.turn = (.over, s) := if_pos hcount
      exact ⟨by rw [State.act, hover]; rfl, by rw [State.act, hover]; exact ⟨hcount, hroom, hholds⟩⟩
    | cons call rest =>
      rw [List.length_cons] at hcount hroom
      simp only [State.act, State.turn, hcount, stackAct, Act.call?]
      exact ⟨by simpa using hholds.1, rfl, by omega, hholds.2⟩

theorem Stands.run (h : Stands s stack) (as : List (Act F))
    (hunused : Throughout State.Unused s as) :
    (run State.act s as).1 = (run stackAct stack as).1 := by
  induction as generalizing s stack with
  | nil => rfl
  | cons a as ih =>
    obtain ⟨hout, hnext⟩ := h.act a hunused.1
    simp only [Cxxrt.run, hout, ih hnext hunused.2]

/-- **A run in which no `atexit` gets a slot that `__cxa_atexit` has used is a run of a stack of
`TH_EXIT_HANDLERS` places: every outcome is the stack's, and each call registered is made once
or still to be made.** -/
theorem run_exit_handlers (as : List (Act F)) (hunused : Throughout State.Unused .new as) :
    (run State.act .new as).1 = (run stackAct [] as).1 ∧
      (called (run State.act .new as).1 ++ (run stackAct [] as).2).Perm
        (registered as (run State.act .new as).1) := by
  have h : Stands (State.new : State F) [] := ⟨rfl, Nat.zero_le _, trivial⟩
  rw [h.run as hunused]
  exact ⟨rfl, run_stack_perm as []⟩

/-- One handler of each kind, the one of `atexit` first. -/
theorem run_exit_handlers_two :
    (run State.act .new [.atexit 1, .cxaAtexit 2 7, .turn, .turn, .turn]).1 =
      (run stackAct [] [.atexit 1, .cxaAtexit 2 7, .turn, .turn, .turn]).1 :=
  (run_exit_handlers [.atexit 1, .cxaAtexit 2 7, .turn, .turn, .turn]
    ⟨rfl, trivial, trivial, trivial, trivial, trivial⟩).1

/-- A handler of `__cxa_atexit` registers another with `atexit` while it runs: it is called a
second time, and the other one never. -/
theorem registered_while_running :
    (run State.act .new [.cxaAtexit 1 7, .turn, .atexit 2, .turn, .turn]).1 ≠
      (run stackAct [] [.cxaAtexit 1 7, .turn, .atexit 2, .turn, .turn]).1 := by
  decide

end Thalyx.Native.Cxxrt
