/-
Split virtqueues, with a device at the other end.

A driver and a device share a table of descriptors, a ring of the chains the driver has made
available and a ring of the chains the device has used.  An index counts modulo 2^16, and
its slot is the index modulo the size of the queue.

The device takes the chains in the order they were made available, at any time; it finishes
what it has taken in any order, and puts each chain into the used ring once, after it has
finished it.  What it makes of a chain is a parameter.  A chain is known by how many the
device took before it, which is how many the driver made available before it.
-/
import Mathlib.Data.List.Basic
import Mathlib.Logic.Function.Basic

namespace Thalyx.Virtqueue

open Option

abbrev indexRange : Nat := 65536

/-- `wrapping_add(1)` of a 16-bit index. -/
def bump (i : Nat) : Nat := (i + 1) % indexRange

/-- `wrapping_sub` of two 16-bit indices. -/
def distance (a b : Nat) : Nat := (a + indexRange - b) % indexRange

theorem bump_lt (i : Nat) : bump i < indexRange := Nat.mod_lt _ (by decide)

theorem bump_ne (i : Nat) : bump i ≠ i := by
  simp only [bump, indexRange]
  omega

@[simp] theorem distance_self (i : Nat) : distance i i = 0 := by
  simp only [distance, indexRange]
  omega

@[simp] theorem distance_bump {i : Nat} (h : i < indexRange) : distance (bump i) i = 1 := by
  simp only [distance, bump, indexRange] at h ⊢
  omega

structure Desc where
  addr : Nat
  len : Nat
  flags : Nat
  next : Nat
deriving DecidableEq, Repr

abbrev descNext : Nat := 1
abbrev descWrite : Nat := 2

structure UsedElem where
  id : Nat
  len : Nat
deriving DecidableEq, Repr

/-- The three parts of the queue. -/
structure Rings where
  desc : Nat → Desc
  availIndex : Nat
  avail : Nat → Nat
  usedIndex : Nat
  used : Nat → UsedElem

/-- The descriptors of a chain, if there are no more of them than `turns`. -/
def Rings.chain (r : Rings) : Nat → Nat → Option (List Desc)
  | 0, _ => none
  | turns + 1, i =>
    if (r.desc i).flags &&& descNext ≠ 0 then
      (r.chain turns (r.desc i).next).map (r.desc i :: ·)
    else some [r.desc i]

/-- A chain a device has taken: what it makes of it, and the status it has finished it with. -/
structure Taken (Op : Type) where
  number : Nat
  head : Nat
  op : Op
  status : Option Nat

structure DeviceSide (Op : Type) where
  lastAvail : Nat
  inflight : List (Taken Op)
  /-- how many chains were taken -/
  takes : Nat
  /-- the chains that were finished, with their status -/
  completed : List (Nat × Op × Nat)
  /-- the chains that were put into the used ring, in that order -/
  posted : List Nat

namespace DeviceSide

variable {Op : Type}

/-- A device that has been reset. -/
def fresh : DeviceSide Op := ⟨0, [], 0, [], []⟩

/-- The next chain that is available is taken. -/
def take (d : DeviceSide Op) (size : Nat) (r : Rings) (read : List Desc → Option Op) :
    Option (DeviceSide Op) :=
  if r.availIndex = d.lastAvail then none
  else do
    let head := r.avail (d.lastAvail % size)
    let op ← (r.chain size head).bind read
    some { d with
      lastAvail := bump d.lastAvail
      inflight := d.inflight ++ [⟨d.takes, head, op, none⟩]
      takes := d.takes + 1 }

/-- A chain that was taken is finished with a status. -/
def finish (d : DeviceSide Op) (i status : Nat) : Option (DeviceSide Op) := do
  let c ← d.inflight[i]?
  if c.status.isSome then none
  else
    some { d with
      inflight := d.inflight.set i { c with status := some status }
      completed := d.completed ++ [(c.number, c.op, status)] }

/-- A chain that was finished is put into the used ring. -/
def post (d : DeviceSide Op) (size : Nat) (r : Rings) (i len : Nat) : Option (DeviceSide Op × Rings) := do
  let c ← d.inflight[i]?
  if c.status.isNone then none
  else
    some ({ d with inflight := d.inflight.eraseIdx i, posted := d.posted ++ [c.number] },
      { r with
        used := Function.update r.used (r.usedIndex % size) ⟨c.head, len⟩
        usedIndex := bump r.usedIndex })

/-- The device has a chain, or may take one. -/
def Busy (d : DeviceSide Op) (r : Rings) : Prop := d.inflight ≠ [] ∨ r.availIndex ≠ d.lastAvail

variable {d d' : DeviceSide Op} {r r' : Rings} {size i : Nat}

/-! ### One chain at a time -/

theorem take_none (h : r.availIndex = d.lastAvail) (read : List Desc → Option Op) :
    d.take size r read = none := if_pos h

theorem take_some {read : List Desc → Option Op} (h : d.take size r read = some d') :
    ∃ op, (r.chain size (r.avail (d.lastAvail % size))).bind read = some op ∧ d' = { d with
      lastAvail := bump d.lastAvail
      inflight := d.inflight ++ [⟨d.takes, r.avail (d.lastAvail % size), op, none⟩]
      takes := d.takes + 1 } := by
  unfold take at h
  split at h
  · cases h
  · obtain ⟨op, hop, heq⟩ := bind_eq_some_iff.mp h
    exact ⟨op, hop, (some.inj heq).symm⟩

theorem finish_nil (h : d.inflight = []) (status : Nat) : d.finish i status = none := by
  unfold finish
  rw [h]
  rfl

variable {c : Taken Op}

theorem finish_finished (h : d.inflight = [c]) (hstatus : c.status.isSome)
    (status : Nat) : d.finish i status = none := by
  unfold finish
  rw [h]
  cases i with
  | zero => exact if_pos hstatus
  | succ i => rfl

theorem finish_one {status : Nat} (h : d.inflight = [c]) (hfinish : d.finish i status = some d') :
    c.status = none ∧ i = 0 ∧ d' = { d with
      inflight := [{ c with status := some status }]
      completed := d.completed ++ [(c.number, c.op, status)] } := by
  unfold finish at hfinish
  rw [h] at hfinish
  cases i with
  | zero =>
    simp only [List.getElem?_cons_zero, bind_eq_bind, bind_some] at hfinish
    split at hfinish
    · cases hfinish
    · rename_i hnone
      exact ⟨not_isSome_iff_eq_none.mp hnone, rfl, (some.inj hfinish).symm⟩
  | succ i => cases hfinish

theorem post_nil (h : d.inflight = []) (len : Nat) : d.post size r i len = none := by
  unfold post
  rw [h]
  rfl

theorem post_unfinished (h : d.inflight = [c]) (hstatus : c.status = none)
    (len : Nat) : d.post size r i len = none := by
  unfold post
  rw [h]
  cases i with
  | zero => exact if_pos (by rw [hstatus]; rfl)
  | succ i => rfl

theorem post_one {len : Nat} (h : d.inflight = [c]) (hpost : d.post size r i len = some (d', r')) :
    d' = { d with inflight := [], posted := d.posted ++ [c.number] }
      ∧ r' = { r with
        used := Function.update r.used (r.usedIndex % size) ⟨c.head, len⟩
        usedIndex := bump r.usedIndex } := by
  unfold post at hpost
  rw [h] at hpost
  cases i with
  | zero =>
    simp only [List.getElem?_cons_zero, bind_eq_bind, bind_some] at hpost
    split at hpost
    · cases hpost
    · cases hpost
      exact ⟨rfl, rfl⟩
  | succ i => cases hpost

end DeviceSide

end Thalyx.Virtqueue
