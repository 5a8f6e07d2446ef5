/-
The frame allocator: `kernel/src/mm/frame.rs`.

One bit for a frame, a count of the clear ones, a hint at where the next search begins, and a
table of the frames that wait for an invalidation.  Here the words are the source's, every
search is its loop, and a computation answers `none` where the source would stop the kernel:
an index past the bitmap, a count below zero, a sum that does not fit.  Frames are named by
their index.  What they hold is the subject of `Kernel/Memory`; the counters that are only
reported are left out.
-/
import ThalyxKernel.Lib.Bitmap
import ThalyxKernel.Lib.Pages
import ThalyxKernel.Kernel.Frame

namespace Thalyx.Kernel.Pool

open Checked

/-- `PAGE_SIZE`. -/
abbrev pageSize : Nat := AddressSpace.pageSize

/-- `Quarantined`. -/
structure Quarantined where
  used : Bool
  frame : Nat
  owner : Owner
  generation : Nat
  deriving DecidableEq, Repr

/-- `Quarantined::empty`. -/
def Quarantined.empty : Quarantined := ⟨false, 0, .kernel, 0⟩

/-- `FrameAllocator`. -/
structure FrameAllocator where
  bitmap : List (BitVec 64)
  frames : Nat
  free : Nat
  hint : Nat
  charged : Owner → Nat
  quarantine : Fin quarantineSlots → Quarantined
  quarantined : Nat

/-- `MemoryRegion`: whether it is usable, where it begins and how many pages it has. -/
structure MemoryRegion where
  usable : Bool
  base : Nat
  pages : Nat
  deriving DecidableEq, Repr

namespace FrameAllocator

/-! ### One frame -/

/-- `test`. -/
def test (a : FrameAllocator) (index : Nat) : Option Bool := Bitmap.test a.bitmap index

/-- A bit set, and one frame less free. -/
def hold (a : FrameAllocator) (index : Nat) : Option FrameAllocator := do
  let bitmap ← Bitmap.set a.bitmap index
  let free ← sub a.free 1
  return { a with bitmap, free }

/-- A bit cleared, and one frame more free. -/
def letGo (a : FrameAllocator) (index : Nat) : Option FrameAllocator := do
  let bitmap ← Bitmap.clear a.bitmap index
  return { a with bitmap, free := a.free + 1 }

/-- A frame held for an owner. -/
def take (owner : Owner) (a : FrameAllocator) (index : Nat) : Option FrameAllocator := do
  let a ← a.hold index
  return { a with charged := Function.update a.charged owner (a.charged owner + 1) }

/-- A frame let go if it is held: a turn of `reclaim`, and of `new` over the usable regions. -/
def letGoHeld (a : FrameAllocator) (index : Nat) : Option FrameAllocator := do
  if ← a.test index then a.letGo index else return a

/-- A frame held if it is free: a turn of `new` over the bitmap's own frames. -/
def holdFree (a : FrameAllocator) (index : Nat) : Option FrameAllocator := do
  if ← a.test index then return a else a.hold index

/-! ### Construction -/

/-- The words of a bitmap. -/
def bitmapWords (limit : Nat) : Nat := Pages.divCeil limit 64

/-- The frames the words take. -/
def bitmapFrames (limit : Nat) : Nat := Pages.divCeil (bitmapWords limit * 8) pageSize

/-- The loop of `new` over the regions. -/
def addUsable (limit : Nat) (a : FrameAllocator) (region : MemoryRegion) :
    Option FrameAllocator :=
  if region.usable then
    let first := region.base / pageSize
    (List.range' first (min (first + region.pages) limit - first)).foldlM letGoHeld a
  else some a

/-- Every frame held, and nothing in quarantine. -/
def full (limit : Nat) : FrameAllocator where
  bitmap := List.replicate (bitmapWords limit) (BitVec.allOnes 64)
  frames := limit
  free := 0
  hint := 0
  charged := fun _ => 0
  quarantine := fun _ => .empty
  quarantined := 0

/-- `new`. -/
def new (regions : List MemoryRegion) (limit : Nat) : Option (Option FrameAllocator) :=
  match regions.find? fun r => r.usable && bitmapFrames limit ≤ r.pages with
  | none => some none
  | some storage => do
    let a ← regions.foldlM (addUsable limit) (full limit)
    let a ← (List.range' (storage.base / pageSize) (bitmapFrames limit)).foldlM holdFree a
    return some { a with charged := Function.update a.charged .kernel (bitmapFrames limit) }

/-! ### Giving back -/

/-- `release`. -/
def release (a : FrameAllocator) (frame : Nat) (owner : Owner) : Option FrameAllocator := do
  if a.frames ≤ frame then return a
  else if ← a.test frame then
    let a ← a.letGo frame
    return { a with
      hint := if frame < a.hint then frame else a.hint
      charged := Function.update a.charged owner (a.charged owner - 1) }
  else return a

/-- `reclaim`. -/
def reclaim (a : FrameAllocator) (base pages : Nat) : Option FrameAllocator :=
  let first := base / pageSize
  (List.range' first (min (first + pages) a.frames - first)).foldlM letGoHeld a

/-! ### The quarantine -/

/-- `retire_at`.  A quarantine that is full keeps the frame held. -/
def retireAt (a : FrameAllocator) (frame : Nat) (owner : Owner) (generation : Nat) :
    FrameAllocator :=
  match (List.finRange quarantineSlots).find? fun i => !(a.quarantine i).used with
  | none => a
  | some i =>
    { a with
      quarantine := Function.update a.quarantine i ⟨true, frame, owner, generation⟩
      quarantined := a.quarantined + 1 }

/-- One turn of `drain_quarantine`. -/
def drainSlot (safe : Nat) (a : FrameAllocator) (i : Fin quarantineSlots) :
    Option FrameAllocator :=
  let slot := a.quarantine i
  if slot.used = false ∨ safe < slot.generation then some a
  else do
    let quarantined ← sub a.quarantined 1
    release
      { a with
        quarantine := Function.update a.quarantine i { slot with used := false }
        quarantined }
      slot.frame slot.owner

/-- `drain_quarantine`, at the generation every processor has flushed past. -/
def drainQuarantine (a : FrameAllocator) (safe : Nat) : Option FrameAllocator :=
  (List.finRange quarantineSlots).foldlM (drainSlot safe) a

/-- `reassign_quarantine`. -/
def reassignQuarantine (a : FrameAllocator) (source target : Owner) : FrameAllocator :=
  let moves : Quarantined → Bool := fun q => q.used && q.owner == source
  let moved := (List.finRange quarantineSlots).countP fun i => moves (a.quarantine i)
  let charged := Function.update a.charged source (a.charged source - moved)
  { a with
    quarantine := fun i =>
      if moves (a.quarantine i) then { a.quarantine i with owner := target } else a.quarantine i
    charged := Function.update charged target (charged target + moved) }

/-! ### Handing out -/

/-- Where the next search begins, once the frames up to an index are taken. -/
def hintAfter (a : FrameAllocator) (index : Nat) : Nat := if a.frames ≤ index then 0 else index

/-- The loop of `alloc_below`, over the indices that are left. -/
def searchBelow (a : FrameAllocator) : List Nat → Option (Option Nat)
  | [] => some none
  | index :: rest => do
    if ← a.test index then a.searchBelow rest else return some index

/-- `alloc_below`. -/
def allocBelow (a : FrameAllocator) (limit : Nat) (owner : Owner) :
    Option (Option Nat × FrameAllocator) := do
  let bound := min (limit / pageSize) a.frames
  match ← a.searchBelow (List.range' 1 (bound - 1)) with
  | none => return (none, a)
  | some index => return (some index, ← take owner a index)

/-- The loop of `alloc`, with the turns it has left. -/
def search (a : FrameAllocator) (start : Nat) : Nat → Nat → Option (Option Nat)
  | 0, _ => none
  | turns + 1, index => do
    if ← a.test index then
      let next := if a.frames ≤ index + 1 then 0 else index + 1
      if next = start then return none else a.search start turns next
    else return some index

/-- What `alloc` begins with. -/
def drainIfNone (a : FrameAllocator) (safe : Nat) : Option FrameAllocator :=
  if a.free = 0 then a.drainQuarantine safe else some a

/-- `alloc`. -/
def alloc (a : FrameAllocator) (safe : Nat) (owner : Owner) :
    Option (Option Nat × FrameAllocator) := do
  let a ← a.drainIfNone safe
  match ← a.search a.hint a.frames a.hint with
  | none => return (none, a)
  | some index =>
    let a ← take owner a index
    return (some index, { a with hint := a.hintAfter (index + 1) })

/-- The inner loop of `take_run`: how many frames from an index on are free, up to as many as
are left to ask for. -/
def runLength (a : FrameAllocator) (index : Nat) : Nat → Nat → Option Nat
  | 0, run => some run
  | left + 1, run => do
    if ← a.test (index + run) then return run else a.runLength index left (run + 1)

/-- The outer loop of `take_run`, with the turns it has left. -/
def takeRun (a : FrameAllocator) (stop count : Nat) (owner : Owner) :
    Nat → Nat → Option (Option Nat × FrameAllocator)
  | 0, _ => none
  | turns + 1, index => do
    if stop < (← add index count) then return (none, a)
    else
      let run ← a.runLength index count 0
      if run = count then
        let a ← (List.range' index count).foldlM (take owner) a
        return (some index, { a with hint := a.hintAfter (index + count) })
      else a.takeRun stop count owner turns (index + (run + 1))

/-- `alloc_contiguous`. -/
def allocContiguous (a : FrameAllocator) (safe count : Nat) (owner : Owner) :
    Option (Option Nat × FrameAllocator) := do
  if count = 0 then return (none, a)
  else
    let a ← a.drainQuarantine safe
    let start := min a.hint a.frames
    match ← a.takeRun a.frames count owner (a.frames + 1) start with
    | (some frame, a) => return (some frame, a)
    | (none, a) =>
      let stop := min (start + count) a.frames
      a.takeRun stop count owner (stop + 1) 0

end FrameAllocator

end Thalyx.Kernel.Pool
