/-
The service's side of the block protocol: `user/k4store/src/disk.rs`.

Every read, write and flush is a call of the block driver, and every one of them may be
refused.  Which reads are refused is a function of the moment in the request at which the
read is made and of its block: no block is read twice at one moment, so every set of
failing reads is such a function.  The outcomes of the writes and flushes come from a list,
in the order they are issued; where the list ends they succeed.

A refused write may have reached the medium all the same, in whole or in part, and a
refused flush may have made some blocks durable: the blocks' possible contents after a
power loss cover every case.  `stop` is the power loss itself, for a request that is cut
half way: nothing issued after it has any effect.

The harness's own modes (a write dropped on purpose, a latched medium) are left out: they
are not applied in a run that was given no directive.
-/
import ThalyxKernel.Lib.Device
import ThalyxKernel.Store.Record

namespace Thalyx.K4

variable {D C : Type}

/-- Where in a request a read is made. -/
abbrev Moment := List Nat

/-- What a refused write left in its block. -/
inductive Landed where
  | nothing | half | whole
  deriving DecidableEq, Repr

/-- What comes of a write or a flush. -/
inductive IoOutcome where
  | ok
  | failed (landed : Landed) (unreachable : Bool)
  | stop
  deriving DecidableEq, Repr

/-- `Disk`, with the medium behind it. -/
structure Disk (D C : Type) where
  device : Device (Block D C)
  /-- Which reads are refused. -/
  fails : Moment → Nat → Bool
  /-- What comes of the writes and flushes still to be issued. -/
  outcomes : List IoOutcome
  /-- A call could not be made at all. -/
  unreachable : Bool
  /-- The power is gone. -/
  down : Bool

namespace Disk

/-- `Disk::new`, over a medium. -/
def new (device : Device (Block D C)) (fails : Moment → Nat → Bool)
    (outcomes : List IoOutcome) : Disk D C :=
  { device, fails, outcomes, unreachable := false, down := false }

/-- `Disk::read`. -/
def read (d : Disk D C) (m : Moment) (block : Nat) : Option (Block D C) :=
  if d.down || d.fails m block then none else some (d.device.read block)

/-- The outcome of the next write or flush. -/
def next (d : Disk D C) : IoOutcome × Disk D C :=
  if d.down then (.stop, d)
  else
    match d.outcomes with
    | [] => (.ok, d)
    | .stop :: rest => (.stop, { d with outcomes := rest, down := true })
    | outcome :: rest => (outcome, { d with outcomes := rest })

/-- `Disk::write`. -/
def write (d : Disk D C) (block : Nat) (content : Block D C) : Bool × Disk D C :=
  match d.next with
  | (.ok, d) => (true, { d with device := d.device.write .other block content })
  | (.stop, d) => (false, d)
  | (.failed landed unreachable, d) =>
    let device :=
      match landed with
      | .nothing => d.device
      | .half => d.device.write .other block .other
      | .whole => d.device.write .other block content
    (false, { d with device, unreachable := d.unreachable || unreachable })

/-- `Disk::flush`. -/
def flush (d : Disk D C) : Bool × Disk D C :=
  match d.next with
  | (.ok, d) => (true, { d with device := d.device.flush })
  | (.stop, d) => (false, d)
  | (.failed _ unreachable, d) => (false, { d with unreachable := d.unreachable || unreachable })

end Disk

end Thalyx.K4
