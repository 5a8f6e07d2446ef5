/-
Frames and page tables: `kernel/src/mm/frame.rs`, `kernel/src/arch/x86_64/paging.rs`.

The bitmap and the quarantine of the allocator are one table here: a frame is free, held,
or in quarantine with the owner and the invalidation generation it was retired at.  A
quarantine that is full keeps what it is given held, as the source does.  The contents of
frames are not modelled.

An address space is its root frame, the interior tables below it, each with the addresses
it covers, and the pages it maps.  The kernel's own space is a second value of the same
kind.  Interior entries' access bits are widened and never narrowed, and access is decided
by the leaf, so only the leaves carry rights.
-/
import ThalyxKernel.Kernel.Object

namespace Thalyx.Kernel

abbrev Frame := Nat

/-- `mm::Owner`. -/
inductive Owner where
  | kernel
  | domain (index : DomainId)
  | scope (index : ScopeId)
  deriving DecidableEq, Repr

/-- What the allocator knows of one frame. -/
inductive FrameState where
  | free
  | held
  | quarantined (owner : Owner) (generation : Nat)
  deriving DecidableEq, Repr

/-- A frame that is free, or may be handed out as soon as the quarantine is drained. -/
def FrameState.available (safe : Nat) : FrameState → Bool
  | .free => true
  | .held => false
  | .quarantined _ generation => generation ≤ safe

/-- The invalidation generations of `kernel/src/tlb.rs`: the last one published, and the
last one every online processor has flushed at. -/
structure Tlb where
  generation : Nat
  safeGeneration : Nat
  safe_le : safeGeneration ≤ generation

/-- `retire_stamp`, `publish`: the next generation. -/
def Tlb.bump (t : Tlb) : Tlb where
  generation := t.generation + 1
  safeGeneration := t.safeGeneration
  safe_le := Nat.le_succ_of_le t.safe_le

/-- `QUARANTINE_SLOTS`. -/
abbrev quarantineSlots : Nat := 1024

/-- `FrameAllocator`. -/
structure FrameAllocator where
  /-- The number of frames the table covers. -/
  frames : Nat
  state : Frame → FrameState
  hint : Nat
  charged : Owner → Nat

namespace FrameAllocator

/-- The number of frames that can be handed out. -/
def available (a : FrameAllocator) (safe : Nat) : Nat :=
  ((List.range a.frames).filter fun i => (a.state i).available safe).length

/-- `free_frames`. -/
def freeFrames (a : FrameAllocator) : Nat :=
  ((List.range a.frames).filter fun i => a.state i == .free).length

/-- `quarantined`. -/
def quarantined (a : FrameAllocator) : Nat :=
  ((List.range a.frames).filter fun i => a.state i != .free && a.state i != .held).length

/-- Hands `frame` to `owner`. -/
def take (a : FrameAllocator) (frame : Frame) (owner : Owner) : FrameAllocator :=
  { a with
    state := Function.update a.state frame .held
    charged := Function.update a.charged owner (a.charged owner + 1) }

/-- `release`: a frame of the table that is not free goes back to the pool. -/
def release (a : FrameAllocator) (frame : Frame) (owner : Owner) : FrameAllocator :=
  if frame ≥ a.frames ∨ a.state frame = .free then a
  else
    { a with
      state := Function.update a.state frame .free
      hint := if frame < a.hint then frame else a.hint
      charged := Function.update a.charged owner (a.charged owner - 1) }

/-- `drain_quarantine` on one frame. -/
def drainFrame (safe : Nat) (a : FrameAllocator) (frame : Frame) : FrameAllocator :=
  match a.state frame with
  | .quarantined owner generation => if generation ≤ safe then a.release frame owner else a
  | _ => a

/-- `drain_quarantine`. -/
def drainQuarantine (a : FrameAllocator) (safe : Nat) : FrameAllocator :=
  (List.range a.frames).foldl (drainFrame safe) a

/-- `retire_at`: the frame waits out its invalidation, unless the quarantine is full. -/
def retireAt (a : FrameAllocator) (frame : Frame) (owner : Owner) (generation : Nat) :
    FrameAllocator :=
  if a.quarantined < quarantineSlots then
    { a with state := Function.update a.state frame (.quarantined owner generation) }
  else a

/-- `reassign_quarantine`. -/
def reassignQuarantine (a : FrameAllocator) (source target : Owner) : FrameAllocator :=
  let moved := ((List.range a.frames).filter fun i =>
    match a.state i with
    | .quarantined owner _ => owner == source
    | _ => false).length
  let charged := Function.update a.charged source (a.charged source - moved)
  { a with
    state := fun i => match a.state i with
      | .quarantined owner generation =>
        .quarantined (if owner = source then target else owner) generation
      | other => other
    charged := Function.update charged target (charged target + moved) }

/-- The order in which the search for a free frame passes over the table. -/
def order (a : FrameAllocator) : List Frame :=
  (List.range a.frames).drop a.hint ++ (List.range a.frames).take a.hint

/-- `alloc`: the first free frame from the hint on, and round to it. -/
def alloc (a : FrameAllocator) (safe : Nat) (owner : Owner) : FrameAllocator × Option Frame :=
  let a := if a.freeFrames = 0 then a.drainQuarantine safe else a
  match a.order.find? fun i => a.state i == .free with
  | some i =>
    ({ a.take i owner with hint := if i + 1 ≥ a.frames then 0 else i + 1 }, some i)
  | none => (a, none)

/-- `take_run`, the search: the first index of `from ..` with `count` free frames, all below
`to`. -/
def findRun (a : FrameAllocator) (first last count : Nat) : Option Frame :=
  (List.range' first (last + 1 - count - first)).find? fun i =>
    (List.range' i count).all fun j => a.state j == .free

/-- `alloc_contiguous`. -/
def allocContiguous (a : FrameAllocator) (safe count : Nat) (owner : Owner) :
    FrameAllocator × Option Frame :=
  if count = 0 then (a, none)
  else
    let a := a.drainQuarantine safe
    let start := min a.hint a.frames
    match (a.findRun start a.frames count).or
        (a.findRun 0 (min (start + count) a.frames) count) with
    | some i =>
      ({ (List.range' i count).foldl (fun a j => a.take j owner) a with
          hint := if i + count ≥ a.frames then 0 else i + count }, some i)
    | none => (a, none)

end FrameAllocator

/-! ### Address spaces -/

/-- `mm::Rights` of a mapping. -/
structure PageRights where
  user : Bool
  read : Bool
  write : Bool
  execute : Bool
  deriving DecidableEq, Repr

/-- `MapError`. -/
inductive MapError where
  | rights | badAddress | alreadyMapped | outOfMemory
  deriving DecidableEq, Repr

/-- `Rights::validate`: write together with execute is refused, and so is a user page that
cannot be read. -/
def PageRights.valid (r : PageRights) : Bool := r.read && !(r.write && r.execute)

/-- `AddressSpace`. -/
structure AddressSpace where
  root : Frame
  /-- Interior tables: the level, the address bits above it, the frame. -/
  tables : List ((Nat × Nat) × Frame)
  /-- Mapped pages: the page number, the frame and the rights. -/
  leaves : List (Nat × Frame × PageRights)

namespace AddressSpace

abbrev pageSize : Nat := 4096

/-- `canonical`. -/
def canonical (addr : Nat) : Bool := addr / 2 ^ 47 == 0 || addr / 2 ^ 47 == 0x1FFFF

/-- `child`: the table below `level` on the way to `vaddr`, made if it is missing. -/
def child (space : AddressSpace) (level vaddr : Nat) (a : FrameAllocator) (safe : Nat)
    (owner : Owner) : FrameAllocator × Option AddressSpace :=
  let key := (level, vaddr / 2 ^ (12 + 9 * level))
  if (space.tables.lookup key).isSome then (a, some space)
  else
    match a.alloc safe owner with
    | (a, some frame) => (a, some { space with tables := (key, frame) :: space.tables })
    | (a, none) => (a, none)

/-- `entry_for`: the three tables on the way to a page.  Tables made before a failure stay. -/
def entryFor (space : AddressSpace) (vaddr : Nat) (a : FrameAllocator) (safe : Nat)
    (owner : Owner) : FrameAllocator × AddressSpace × Bool :=
  match space.child 3 vaddr a safe owner with
  | (a, none) => (a, space, false)
  | (a, some space) =>
    match space.child 2 vaddr a safe owner with
    | (a, none) => (a, space, false)
    | (a, some space) =>
      match space.child 1 vaddr a safe owner with
      | (a, none) => (a, space, false)
      | (a, some space) => (a, space, true)

/-- `map`. -/
def map (space : AddressSpace) (vaddr : Nat) (frame : Frame) (rights : PageRights)
    (a : FrameAllocator) (safe : Nat) (owner : Owner) :
    FrameAllocator × AddressSpace × Except MapError Unit :=
  if !rights.valid then (a, space, .error .rights)
  else if !canonical vaddr || vaddr % pageSize != 0 then (a, space, .error .badAddress)
  else
    match space.entryFor vaddr a safe owner with
    | (a, space, false) => (a, space, .error .outOfMemory)
    | (a, space, true) =>
      if (space.leaves.lookup (vaddr / pageSize)).isSome then
        (a, space, .error .alreadyMapped)
      else
        (a, { space with leaves := (vaddr / pageSize, frame, rights) :: space.leaves }, .ok ())

/-- `unmap`: the frame that was mapped, if one was. -/
def unmap (space : AddressSpace) (vaddr : Nat) : AddressSpace × Option Frame :=
  if !canonical vaddr || vaddr % pageSize != 0 then (space, none)
  else
    match space.leaves.lookup (vaddr / pageSize) with
    | none => (space, none)
    | some (frame, _) =>
      ({ space with leaves := space.leaves.filter fun leaf => leaf.1 != vaddr / pageSize },
        some frame)

/-- `translate`: the rights of the page an address lies in. -/
def translate (space : AddressSpace) (vaddr : Nat) : Option PageRights :=
  if !canonical vaddr then none
  else (space.leaves.lookup (vaddr / pageSize)).map Prod.snd

/-- The frames `destroy_user_half` retires: the mapped ones and the tables'. -/
def userFrames (space : AddressSpace) : List Frame :=
  space.leaves.map (fun leaf => leaf.2.1) ++ space.tables.map Prod.snd

end AddressSpace

end Thalyx.Kernel
