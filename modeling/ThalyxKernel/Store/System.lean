/-
The store as a system: a service that serves calls, power losses, and recoveries.

A call is served and answered, or cut short by a power loss; a recovery brings a service
up, or is cut short as well.  A power loss leaves in every block one of the contents it may
hold.  A service whose recovery was refused stays up and refuses what it is asked.  The run
begins with a medium nothing was ever written to.

The answers given so far are part of the state, newest first, so that what may never be
answered any more is said of a state.
-/
import ThalyxKernel.Lib.Run
import ThalyxKernel.Store.Service

namespace Thalyx.K4

open Fallible

variable {D C : Type}

/-- What a recovery meets. -/
structure Boot where
  seed : Nat
  fails : Moment → Nat → Bool
  outcomes : List IoOutcome
  clock : List Nat
  room : Nat

/-- What may happen. -/
inductive Event (D C : Type) where
  /-- A call is served and answered. -/
  | serve (call : Call D C)
  /-- The power is lost while a call is served, or before it is answered. -/
  | cut (call : Call D C) (pick : Nat → Nat)
  /-- A service comes up. -/
  | boot (boot : Boot)
  /-- The power is lost while a service comes up. -/
  | bootCut (boot : Boot) (pick : Nat → Nat)

/-- A service that is up, or the medium while there is none. -/
inductive Phase (D C : Type) where
  | up (service : Service D C)
  | down (device : Device (Block D C))

/-- The store, with what it has answered. -/
structure Host (D C : Type) where
  phase : Phase D C
  answered : List (Call D C × Reply D C)

variable (fmt : Format D C) [DecidableEq D]

/-- The store a recovery ends with, and whether it says it succeeded. -/
def Boot.run (b : Boot) (device : Device (Block D C)) :
    EStateM.Result StoreStatus (Store D C) Unit :=
  recover fmt b.seed (.new fmt (.new device b.fails b.outcomes) b.clock b.room)

/-- One step, if it can be taken. -/
def Host.step (s : Host D C) : Event D C → Option (Host D C)
  | .serve call =>
    match s.phase with
    | .up service =>
      if (service.serve fmt call).2.store.disk.down then none
      else some {
        phase := .up (service.serve fmt call).2
        answered := (call, (service.serve fmt call).1) :: s.answered }
    | .down _ => none
  | .cut call pick =>
    match s.phase with
    | .up service =>
      some { s with phase := .down ((service.serve fmt call).2.store.disk.device.crash pick) }
    | .down _ => none
  | .boot b =>
    match s.phase with
    | .up _ => none
    | .down device =>
      if (final (b.run fmt device)).disk.down then none
      else some { s with phase := .up (.new fmt (final (b.run fmt device))) }
  | .bootCut b pick =>
    match s.phase with
    | .up _ => none
    | .down device => some { s with phase := .down ((final (b.run fmt device)).disk.device.crash pick) }

/-- A medium nothing was ever written to. -/
def Host.blank : Host D C := { phase := .down fun _ => .settled .other, answered := [] }

/-- The store's runs. -/
def machine : System (Host D C) (Event D C) := .ofStep (· = .blank) (Host.step fmt)

/-! ### What holds of every service -/

variable {host : Host D C}

theorem reachable_up {I : Service D C → Prop} (h : (machine fmt).Reachable host)
    (hboot : ∀ (b : Boot) (device : Device (Block D C)),
      (final (b.run fmt device)).disk.down = false → I (.new fmt (final (b.run fmt device))))
    (hserve : ∀ (service : Service D C) (call : Call D C), I service →
      (service.serve fmt call).2.store.disk.down = false → I (service.serve fmt call).2) :
    ∀ service, host.phase = .up service → I service := by
  refine System.Reachable.invariant
    (I := fun host : Host D C => ∀ service, host.phase = .up service → I service)
    (fun s hs => ?_) (fun s event s' ih hstep => ?_) h
  · have hblank : s = .blank := hs
    subst hblank
    intro service hup
    cases hup
  · intro service hup
    have hstep : Host.step fmt s event = some s' := hstep
    cases event with
    | serve call =>
      cases hphase : s.phase with
      | down device => simp [Host.step, hphase] at hstep
      | up served =>
        simp only [Host.step, hphase] at hstep
        obtain ⟨hpower, ⟨⟩⟩ := Option.ite_none_left_eq_some.mp hstep
        cases hup
        exact hserve served call (ih served hphase) (Bool.not_eq_true _ ▸ hpower)
    | cut call pick =>
      cases hphase : s.phase with
      | down device => simp [Host.step, hphase] at hstep
      | up served =>
        simp only [Host.step, hphase] at hstep
        cases hstep
        cases hup
    | boot b =>
      cases hphase : s.phase with
      | up served => simp [Host.step, hphase] at hstep
      | down device =>
        simp only [Host.step, hphase] at hstep
        obtain ⟨hpower, ⟨⟩⟩ := Option.ite_none_left_eq_some.mp hstep
        cases hup
        exact hboot b device (Bool.not_eq_true _ ▸ hpower)
    | bootCut b pick =>
      cases hphase : s.phase with
      | up served => simp [Host.step, hphase] at hstep
      | down device =>
        simp only [Host.step, hphase] at hstep
        cases hstep
        cases hup

/-! ### What is asked of a step -/

/-- The publication a call asks for. -/
def Call.publication (call : Call D C) : Option (Publication D) :=
  match call.request with
  | .publish sequence expectedGeneration root policy validation outboxTarget outboxPayload =>
    some {
      principal := call.principal
      sequence
      expectedGeneration
      candidateRoot := root
      policyDigest := policy
      validationDigest := validation
      outboxTarget
      outboxPayload }
  | _ => none

/-- The service as an operation finds it. -/
def Service.posed (s : Service D C) (call : Call D C) : Service D C := (s.meet call).protect fmt

/-- A call is dispatched, and not refused before. -/
def Service.dispatches (s : Service D C) (call : Call D C) : Bool :=
  permitted call.principal call.request && !s.store.integrityFailed && s.store.ready

/-- Whether a call is a publication that is carried out: it is admitted, and so is its
effect. -/
def Service.carriesOut (s : Service D C) (call : Call D C) : Bool :=
  s.dispatches call && call.effect &&
    match call.publication with
    | none => false
    | some q =>
      match admitPublication fmt q (s.posed fmt call).store with
      | .ok _ _ => true
      | .error _ _ => false

/-- Whether a call is a compaction that is begun. -/
def Service.compacts (s : Service D C) (call : Call D C) : Bool :=
  s.dispatches call &&
    match call.request with
    | .compact => true
    | _ => false

/-- The superblock in the slot the memory says names the arena the memory is in. -/
def Store.anchored (s : Store D C) : Bool :=
  match s.disk.device.read (absolute s.superblockSlot) with
  | .superblock sb => sb.activeArena == s.arena
  | _ => false

/-- The next block is as far into the arena as the next sequence is past the checkpoint's. -/
def Store.atEnd (s : Store D C) : Bool :=
  s.nextBlock + s.checkpointSequence == s.arenaStart + s.nextSequence

/-- The record written last. -/
def Store.lastPayload (s : Store D C) : Option (Payload D C) :=
  (s.disk.device.read (s.nextBlock - 1)).parseRecord.map Record.payload

/-- The calls an event makes of a service. -/
def Event.call : Event D C → Option (Call D C)
  | .serve call => some call
  | .cut call _ => some call
  | _ => none

/-- The recovery an event makes. -/
def Event.recovery : Event D C → Option Boot
  | .boot b => some b
  | .bootCut b _ => some b
  | _ => none

/-- **What is asked of the steps of a run**: of every call, as the service finds it, and of
every recovery that what it reads is answered. -/
def Minds (ok : Service D C → Call D C → Bool) (host : Host D C) (event : Event D C) : Prop :=
  (∀ call service, event.call = some call → host.phase = .up service → ok service call = true) ∧
    ∀ b, event.recovery = some b → b.fails = fun _ _ => false

/-- The part of it that is about calls. -/
def Host.minds (ok : Service D C → Call D C → Bool) (host : Host D C) (event : Event D C) : Bool :=
  match event.call, host.phase with
  | some call, .up service => ok service call
  | _, _ => true

/-- Every recovery of a list of events has its reads answered. -/
def Answered (events : List (Event D C)) : Prop :=
  ∀ event ∈ events, ∀ b, event.recovery = some b → b.fails = fun _ _ => false

/-- The store a recovery of this medium ends with, if it says it succeeded. -/
def Host.recovered (b : Boot) (host : Host D C) : Option (Store D C) :=
  match host.phase with
  | .up _ => none
  | .down device =>
    match b.run fmt device with
    | .ok _ s => some s
    | .error _ _ => none

variable {fmt} in
theorem Host.recovered_eq_some {b : Boot} {s : Store D C} (h : host.recovered fmt b = some s) :
    ∃ device, host.phase = .down device ∧ b.run fmt device = .ok () s := by
  unfold Host.recovered at h
  split at h
  · cases h
  · rename_i device hdown
    split at h
    · rename_i hrun
      exact ⟨device, hdown, Option.some.inj h ▸ hrun⟩
    · cases h

theorem reachable_minds {ok : Service D C → Call D C → Bool} {events : List (Event D C)}
    (hanswered : Answered events)
    (hrun : System.exec (System.guarded (fun host event => Host.minds ok host event = true)
      (Host.step fmt)) events .blank = some host) :
    ((machine fmt).within (Minds ok)).Reachable host := by
  refine System.reachable_within_of_tested (.init rfl) (fun event he host htest => ?_) hrun
  refine ⟨fun call service hcall hup => ?_, hanswered event he⟩
  unfold Host.minds at htest
  rw [hcall, hup] at htest
  exact htest

/-! ### A run to look at

The publisher stages a policy that asks for no evidence and freezes an empty workspace, over
the symbolic format.  What follows these calls differs from one failure to the next. -/

section Sample

/-- A recovery whose reads are answered and whose writes and flushes succeed. -/
def Boot.smooth : Boot where
  seed := 0
  fails := fun _ _ => false
  outcomes := List.replicate 20 .ok
  clock := []
  room := 16

/-- A call that is admitted, at a medium that answers every read. -/
def Call.plain (principal : Nat) (request : Request Symbol (Content Symbol))
    (outcomes : List IoOutcome) : Call Symbol (Content Symbol) where
  principal := principal
  invocation := 0
  request := request
  effect := true
  broker := none
  fails := fun _ _ => false
  outcomes := outcomes
  clock := []
  room := 16

/-- A policy under which the publisher and its rival publish without evidence. -/
def openPolicy : Content Symbol := .policy {
  format := 1
  requiresValidation := 0
  publishPrincipals := 6
  validationToolId := 0
  minCoveragePpm := 0
  toolConfigDigest := .atom 0 }

def openPolicyDigest : Symbol := symbolicFormat.objectDigest ObjectType.policy.code openPolicy

/-- The root `FREEZE` answers for a workspace that holds nothing. -/
def emptyRoot : Symbol :=
  symbolicFormat.objectDigest ObjectType.manifest.code (.manifest
    (Service.frozenManifest [] (symbolicFormat.objectDigest ObjectType.tree.code (.tree []))
      openPolicyDigest (.atom 0)))

/-- A publication of the empty version. -/
def Call.publishEmpty (principal sequence generation : Nat) (outcomes : List IoOutcome) :
    Call Symbol (Content Symbol) :=
  .plain principal (.publish sequence generation emptyRoot openPolicyDigest (.atom 0) 0 (.atom 0))
    outcomes

/-- The store is formatted, the policy is staged and the empty workspace frozen. -/
def opening : List (Event Symbol (Content Symbol)) :=
  [.boot .smooth,
    .serve (.plain 1 (.putObject ObjectType.policy.code (symbolicFormat.size openPolicy)
      (some openPolicy)) []),
    .serve (.plain 1 (.fork 0) []),
    .serve (.plain 1 (.freeze 1 openPolicyDigest (.atom 0)) [])]

/-- The service after a run. -/
def serviceAfter (events : List (Event Symbol (Content Symbol))) :
    Option (Service Symbol (Content Symbol)) :=
  (System.exec (Host.step symbolicFormat) events .blank).bind fun host =>
    match host.phase with
    | .down _ => none
    | .up service => some service

theorem reachable_of_serviceAfter {events : List (Event Symbol (Content Symbol))}
    {service : Service Symbol (Content Symbol)} (h : serviceAfter events = some service) :
    ∃ host, (machine symbolicFormat).Reachable host ∧ host.phase = .up service := by
  obtain ⟨host, hhost, hservice⟩ := Option.bind_eq_some_iff.mp h
  split at hservice
  · cases hservice
  · rename_i up hup
    cases hservice
    exact ⟨host, System.reachable_of_exec (.init rfl) hhost, hup⟩

end Sample

end Thalyx.K4
