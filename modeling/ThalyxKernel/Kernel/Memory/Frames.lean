/-
The frame pool and the page tables, with what invalidation makes of them:
`kernel/src/mm/frame.rs`, `kernel/src/arch/x86_64/paging.rs`.

`Kernel.Frame` folds the bitmap and the quarantine into one table, which is all that the
accounts of an operation need.  Here the two are apart, as the source has them: the bitmap
says which frames may be handed out, and the quarantine is a table of its own that may name
any frame, a device's registers included, and may name one twice.

The bytes of the frames are kept with the allocator, which zeroes a frame on its way out.
Indices are natural numbers; the table covers the frames below `frames`.
-/
import ThalyxKernel.Kernel.Frame

namespace Thalyx.Kernel.Memory

/-- `Quarantined`, a slot in use. -/
structure Quarantined where
  frame : Nat
  owner : Owner
  generation : Nat
  deriving DecidableEq, Repr

/-- `FrameAllocator`, with the bytes of every frame. -/
structure Allocator where
  frames : Nat
  /-- The bitmap: allocated, or not RAM at all. -/
  taken : Nat → Bool
  hint : Nat
  charged : Owner → Nat
  quarantine : List Quarantined
  content : Nat → Nat → UInt8

/-- `region_kind`: RAM to hand out, RAM that boot gives back once it is done with it
(`MODULES`, `BOOT_RECLAIMABLE`), and everything else. -/
inductive RegionKind where
  | usable | reclaimable | other
  deriving DecidableEq, Repr

/-- `MemoryRegion`. -/
structure Region where
  kind : RegionKind
  base : Nat
  pages : Nat
  deriving DecidableEq, Repr

/-- A frame of the region. -/
def Region.has (r : Region) (f : Nat) : Bool := r.base ≤ f && f < r.base + r.pages

namespace Allocator

/-- The frames the bitmap of `limit` frames takes. -/
def bitmapFrames (limit : Nat) : Nat := ((limit + 63) / 64 * 8 + 4095) / 4096

/-- `FrameAllocator::new`: every frame is taken but the usable ones, and the bitmap's own.
A bitmap placed past the frames it describes makes the source stop. -/
def new (regions : List Region) (limit : Nat) (content : Nat → Nat → UInt8) :
    Option Allocator :=
  match regions.find? fun r => r.kind == .usable && bitmapFrames limit ≤ r.pages with
  | none => none
  | some storage =>
    let inBitmap := fun f => decide (storage.base ≤ f ∧ f < storage.base + bitmapFrames limit)
    if storage.base + bitmapFrames limit ≤ (limit + 63) / 64 * 64 then
      some
        { frames := limit
          taken := fun f =>
            inBitmap f || !(regions.any fun r => r.kind == .usable && r.has f) || limit ≤ f
          hint := 0
          charged := Function.update (fun _ => 0) .kernel (bitmapFrames limit)
          quarantine := []
          content }
    else none

/-- `free_frames`. -/
def freeFrames (a : Allocator) : Nat :=
  ((List.range a.frames).filter fun f => !a.taken f).length

/-- `release`: a frame of the table that is taken goes back to the pool. -/
def release (a : Allocator) (frame : Nat) (owner : Owner) : Allocator :=
  if frame ≥ a.frames ∨ a.taken frame = false then a
  else
    { a with
      taken := Function.update a.taken frame false
      hint := if frame < a.hint then frame else a.hint
      charged := Function.update a.charged owner (a.charged owner - 1) }

/-- `retire_at`: the frame waits out its invalidation, or is kept for good. -/
def retireAt (a : Allocator) (generation : Nat) (owner : Owner) (frame : Nat) : Allocator :=
  if a.quarantine.length < quarantineSlots then
    { a with quarantine := a.quarantine ++ [⟨frame, owner, generation⟩] }
  else a

/-- `drain_quarantine`: what every processor has flushed past goes back to the pool. -/
def drainQuarantine (a : Allocator) (safe : Nat) : Allocator :=
  let out := a.quarantine.filter fun q => q.generation ≤ safe
  let a := { a with quarantine := a.quarantine.filter fun q => !(q.generation ≤ safe) }
  out.foldl (fun a q => a.release q.frame q.owner) a

/-- `reassign_quarantine`. -/
def reassignQuarantine (a : Allocator) (source target : Owner) : Allocator :=
  let moved := (a.quarantine.filter fun q => q.owner == source).length
  let charged := Function.update a.charged source (a.charged source - moved)
  { a with
    quarantine := a.quarantine.map fun q =>
      if q.owner = source then { q with owner := target } else q
    charged := Function.update charged target (charged target + moved) }

/-- A free frame handed to `owner`, zeroed. -/
def take (a : Allocator) (owner : Owner) (frame : Nat) : Allocator :=
  { a with
    taken := Function.update a.taken frame true
    charged := Function.update a.charged owner (a.charged owner + 1)
    content := Function.update a.content frame fun _ => 0 }

/-- The order in which the search for a free frame passes over the table. -/
def order (a : Allocator) : List Nat :=
  (List.range a.frames).drop a.hint ++ (List.range a.frames).take a.hint

/-- `alloc`: the first free frame from the hint on, and round to it. -/
def alloc (a : Allocator) (safe : Nat) (owner : Owner) : Allocator × Option Nat :=
  let a := if a.freeFrames = 0 then a.drainQuarantine safe else a
  match a.order.find? fun f => !a.taken f with
  | some f => ({ a.take owner f with hint := if f + 1 ≥ a.frames then 0 else f + 1 }, some f)
  | none => (a, none)

/-- `take_run`, the search: the first `count` free frames in a row, all of them from `first`
on and below `last`. -/
def findRun (a : Allocator) (first last count : Nat) : Option Nat :=
  (List.range' first (last + 1 - count - first)).find? fun f =>
    (List.range count).all fun k => !a.taken (f + k)

/-- `alloc_contiguous`. -/
def allocContiguous (a : Allocator) (safe count : Nat) (owner : Owner) :
    Allocator × Option Nat :=
  if count = 0 then (a, none)
  else
    let a := a.drainQuarantine safe
    let start := min a.hint a.frames
    match (a.findRun start a.frames count).or
        (a.findRun 0 (min (start + count) a.frames) count) with
    | some f =>
      ({ (List.range count).foldl (fun a k => a.take owner (f + k)) a with
          hint := if f + count ≥ a.frames then 0 else f + count }, some f)
    | none => (a, none)

/-- `reclaim`: a range of RAM that nothing refers to any more. -/
def reclaim (a : Allocator) (base : Nat) (pages : Nat) : Allocator :=
  { a with
    taken := fun f =>
      a.taken f && !decide (base ≤ f ∧ f < base + pages ∧ f < a.frames) }

/-- Bytes written to one frame, through the direct map or a translation. -/
def write (a : Allocator) (frame offset : Nat) (byte : UInt8) : Allocator :=
  { a with
    content := Function.update a.content frame (Function.update (a.content frame) offset byte) }

/-- A run of frames filled at once. -/
def fillRun (a : Allocator) (base : Nat) (pages : Nat) (bytes : Nat → Nat → UInt8) : Allocator :=
  { a with
    content := fun f => if base ≤ f ∧ f < base + pages then bytes (f - base) else a.content f }

/-- A run of frames given back at once. -/
def releaseRun (a : Allocator) (base : Nat) (pages : Nat) (owner : Owner) : Allocator :=
  (List.range pages).foldl (fun a k => a.release (base + k) owner) a

/-- A run of frames sent to the quarantine at one generation. -/
def retireRun (a : Allocator) (base : Nat) (pages : Nat) (owner : Owner) (generation : Nat) :
    Allocator :=
  (List.range pages).foldl (fun a k => a.retireAt generation owner (base + k)) a

end Allocator

/-! ### Page tables -/

open AddressSpace (pageSize canonical)

/-- `child`: the table below `level` on the way to `vaddr`, made if it is missing. -/
def child (space : AddressSpace) (level vaddr : Nat) (a : Allocator) (safe : Nat)
    (owner : Owner) : Allocator × Option AddressSpace :=
  let key := (level, vaddr / 2 ^ (12 + 9 * level))
  if (space.tables.lookup key).isSome then (a, some space)
  else
    match a.alloc safe owner with
    | (a, some frame) => (a, some { space with tables := (key, frame) :: space.tables })
    | (a, none) => (a, none)

/-- `entry_for`: the three tables on the way to a page.  Tables made before a failure stay. -/
def entryFor (space : AddressSpace) (vaddr : Nat) (a : Allocator) (safe : Nat)
    (owner : Owner) : Allocator × AddressSpace × Bool :=
  match child space 3 vaddr a safe owner with
  | (a, none) => (a, space, false)
  | (a, some space) =>
    match child space 2 vaddr a safe owner with
    | (a, none) => (a, space, false)
    | (a, some space) =>
      match child space 1 vaddr a safe owner with
      | (a, none) => (a, space, false)
      | (a, some space) => (a, space, true)

/-- `AddressSpace::map`. -/
def mapPage (space : AddressSpace) (vaddr : Nat) (frame : Nat) (rights : PageRights)
    (a : Allocator) (safe : Nat) (owner : Owner) :
    Allocator × AddressSpace × Option MapError :=
  if !rights.valid then (a, space, some .rights)
  else if !canonical vaddr || vaddr % pageSize != 0 then (a, space, some .badAddress)
  else
    match entryFor space vaddr a safe owner with
    | (a, space, false) => (a, space, some .outOfMemory)
    | (a, space, true) =>
      if (space.leaves.lookup (vaddr / pageSize)).isSome then
        (a, space, some .alreadyMapped)
      else
        (a, { space with leaves := (vaddr / pageSize, frame, rights) :: space.leaves }, none)

/-- The loop of `map` and of `map_region`: `count` frames in a row, and how far it came. -/
def mapRun (space : AddressSpace) (vaddr : Nat) (frame : Nat) (rights : PageRights)
    (a : Allocator) (safe : Nat) (owner : Owner) :
    Nat → Allocator × AddressSpace × Nat × Option MapError
  | 0 => (a, space, 0, none)
  | count + 1 =>
    match mapRun space vaddr frame rights a safe owner count with
    | (a, space, installed, some e) => (a, space, installed, some e)
    | (a, space, installed, none) =>
      match mapPage space (vaddr + count * pageSize) (frame + count) rights a safe owner with
      | (a, space, none) => (a, space, installed + 1, none)
      | (a, space, some e) => (a, space, installed, some e)

/-- The loop that takes pages out again. -/
def unmapRun (space : AddressSpace) (vaddr count : Nat) : AddressSpace :=
  (List.range count).foldl (fun space k => (space.unmap (vaddr + k * pageSize)).1) space

/-- How many of the pages were mapped. -/
def mappedIn (space : AddressSpace) (vaddr count : Nat) : Nat :=
  ((List.range count).filter fun k => (space.unmap (vaddr + k * pageSize)).2.isSome).length

end Thalyx.Kernel.Memory
