/-
Building a domain and taking a half-built one down: `kernel/src/domain.rs`, from
`allocate_kernel_stack` to `demolish`.

The image arrives as what the ELF reader makes of the object's bytes, since the contents
of memory are not modelled.  Everything the build takes is taken frame by frame, so how
far a build got before it failed is in the machine it leaves.
-/
import ThalyxKernel.Kernel.Authority

namespace Thalyx.Kernel

/-! ### The layout -/

abbrev pageSize : Nat := AddressSpace.pageSize
abbrev userMinAddr : Nat := 0x1000
abbrev userMaxAddr : Nat := 0x0000800000000000
abbrev userStackTop : Nat := userMaxAddr - pageSize
abbrev userStackPages : Nat := 8
abbrev kstackPages : Nat := 4
/-- `KSTACK_AREA`. -/
abbrev kstackArea : Nat := 0xFFFF808000000000 + 2 * 2 ^ 20
/-- `TABLE_RESERVE_PAGES`. -/
abbrev tableReservePages : Nat := 12

/-- `kstack_slot_base`: a slot is a guard page and the stack above it. -/
def kstackSlotBase (slot : Nat) : Nat := kstackArea + slot * (kstackPages + 1) * pageSize

/-- `elf::Segment`, as mapped. -/
structure Segment where
  vaddr : Nat
  pages : Nat
  read : Bool
  write : Bool
  execute : Bool
  deriving DecidableEq, Repr

/-- `elf::Image`. -/
structure Image where
  entry : Nat
  segments : List Segment
  deriving DecidableEq, Repr

/-- `Image::pages`. -/
def Image.pages (image : Image) : Nat := (image.segments.map Segment.pages).sum

/-- `CreateError`. -/
inductive CreateError where
  | domainTableFull | threadTableFull | kernelStackExhausted | image | map | outOfMemory
  | limitExhausted | scopeClosed
  deriving DecidableEq, Repr

/-- The status `domainops::create` answers for it. -/
def CreateError.status : CreateError → Status
  | .limitExhausted | .domainTableFull | .threadTableFull | .kernelStackExhausted
  | .outOfMemory => .limitExhausted
  | .scopeClosed => .scopeClosed
  | .image | .map => .invalidArgument

/-- `From<MapError>`. -/
def CreateError.ofMap : MapError → CreateError
  | .outOfMemory => .outOfMemory
  | _ => .map

/-- A build step: it changes the machine as it goes and may stop. -/
abbrev Build := EStateM CreateError Machine

/-- A step with what is undone when it fails. -/
def Build.orUndo {α : Type} (b : Build α) (undo : Machine → Machine) : Build α := fun s =>
  match b s with
  | .ok a s => .ok a s
  | .error e s => .error e (undo s)

namespace Machine

/-! ### Frames -/

/-- `alloc`, with the error a build reports. -/
def allocFrame (owner : Owner) : Build Frame := fun s =>
  match s.allocator.alloc s.tlb.safeGeneration owner with
  | (allocator, some frame) => .ok frame { s with allocator }
  | (allocator, none) => .error .outOfMemory { s with allocator }

/-- A frame given back through the quarantine at generation `stamp`. -/
def retireFrame (s : Machine) (frame : Frame) (owner : Owner) (stamp : Nat) : Machine :=
  { s with allocator := s.allocator.retireAt frame owner stamp }

/-- `retire_stamp`: the generation frames retired now wait for. -/
def bumpTlb (s : Machine) : Machine := { s with tlb := s.tlb.bump }

/-- Frames given back at one generation. -/
def retireFrames (s : Machine) (frames : List Frame) (owner : Owner) : Machine :=
  let s := s.bumpTlb
  frames.foldl (fun s frame => s.retireFrame frame owner s.tlb.generation) s

/-! ### Kernel stacks -/

/-- The address of a page of a kernel stack. -/
def kstackPage (slot : ThreadId) (page : Nat) : Nat := kstackSlotBase slot + (page + 1) * pageSize

/-- A frame mapped in the kernel's space. -/
def mapKernelFrame (vaddr : Nat) (frame : Frame) : Build Unit := fun s =>
  match s.kernelSpace.map vaddr frame ⟨false, true, true, false⟩ s.allocator
      s.tlb.safeGeneration .kernel with
  | (allocator, kernelSpace, .ok ()) => .ok () { s with allocator, kernelSpace }
  | (allocator, kernelSpace, .error e) => .error (.ofMap e) { s with allocator, kernelSpace }

/-- One page of a kernel stack: a frame and its mapping.  A frame whose mapping is refused
is not given back. -/
def mapKernelPage (slot : ThreadId) (page : Nat) : Build Unit := do
  let frame ← allocFrame .kernel
  mapKernelFrame (kstackPage slot page) frame

/-- Takes one page of a kernel stack out of the kernel's space, into the quarantine. -/
def unmapKernelPage (slot : ThreadId) (s : Machine) (page : Nat) : Machine :=
  match s.kernelSpace.unmap (kstackPage slot page) with
  | (kernelSpace, some frame) =>
    { s with kernelSpace }.retireFrame frame .kernel s.tlb.generation
  | (_, none) => s

/-- The pages of a kernel stack in turn.  On a refusal the pages already mapped are taken
out again, each at a generation of its own. -/
def mapKernelPages (slot : ThreadId) : List Nat → List Nat → Build Unit
  | [], _ => pure ()
  | page :: rest, mapped => do
    (mapKernelPage slot page).orUndo fun s =>
      mapped.foldl (fun s p => unmapKernelPage slot s.bumpTlb p) s
    mapKernelPages slot rest (mapped ++ [page])

/-- A kernel stack that is not in use. -/
def findKernelStack : Build ThreadId := fun s =>
  match (List.finRange maxThreads).find? fun slot => !s.kstackUsed slot with
  | none => .error .kernelStackExhausted s
  | some slot => .ok slot s

/-- `allocate_kernel_stack`. -/
def allocateKernelStack : Build ThreadId := do
  let slot ← findKernelStack
  mapKernelPages slot (List.range kstackPages) []
  modify fun s => { s with kstackUsed := Function.update s.kstackUsed slot true }
  pure slot

/-- `release_kernel_stack`. -/
def releaseKernelStack (s : Machine) (slot : Nat) : Machine :=
  if h : slot < maxThreads then
    if !s.kstackUsed ⟨slot, h⟩ then s
    else
      let s := (List.range kstackPages).foldl (unmapKernelPage ⟨slot, h⟩) s.bumpTlb
      { s with kstackUsed := Function.update s.kstackUsed ⟨slot, h⟩ false }
  else s

/-! ### The build -/

/-- A frame mapped in a domain's space. -/
def mapDomainFrame (index : DomainId) (rights : PageRights) (vaddr : Nat) (frame : Frame) :
    Build Unit := fun s =>
  match (s.domains index).space with
  | none => .error .outOfMemory s
  | some space =>
    match space.map vaddr frame rights s.allocator s.tlb.safeGeneration (.domain index) with
    | (allocator, space, result) =>
      let s := { s with allocator }.setDomain index fun d => { d with space := some space }
      match result with
      | .ok () => .ok () s
      | .error e => .error (.ofMap e) s

/-- A page of a domain: a frame and its mapping in the domain's space. -/
def mapDomainPage (index : DomainId) (rights : PageRights) (vaddr : Nat) : Build Unit := do
  let frame ← allocFrame (.domain index)
  mapDomainFrame index rights vaddr frame

/-- The pages of a segment. -/
def mapSegment (index : DomainId) (segment : Segment) : Build Unit := do
  (List.range segment.pages).forM fun page =>
    mapDomainPage index ⟨true, segment.read, segment.write, segment.execute⟩
      (segment.vaddr + page * pageSize)
  modify fun s => s.setDomain index fun d => { d with segments := d.segments + 1 }

/-- `initialise_thread`. -/
def initialiseThread (s : Machine) (thread : ThreadId) (index : DomainId) (kstack : ThreadId) :
    Machine :=
  s.setThread thread fun _ =>
    { Thread.empty with
      state := .held
      domain := some index
      domainGeneration := s.generation (.domain index)
      ownerScope := (s.domains index).ownerScope
      effectiveScope := (s.domains index).ownerScope
      kstackSlot := kstack }

/-- A thread starts to charge the scope that owns it. -/
def chargeParallelism (s : Machine) (thread : ThreadId) (scope : ScopeId) : Machine :=
  { s with scopes := s.scopes.takeParallelism scope }.setThread thread fun t =>
    { t with parallelismScope := some scope }

/-- The address of a page of the user stack. -/
def userStackPage (page : Nat) : Nat := userStackTop - userStackPages * pageSize + page * pageSize

/-- The thread of a new domain: an identity, its cell, and what it charges its scope. -/
def startThread (s : Machine) (index : DomainId) (thread kstack : ThreadId) : Machine :=
  let s := match s.nextId with
    | some (_, s) => s
    | none => s
  let s := s.initialiseThread thread index kstack
  let s := s.setDomain index fun d =>
    { d with threads := Function.update d.threads 0 (some thread) }
  s.chargeParallelism thread (s.domains index).ownerScope

/-- What a new domain's space is filled with: the image's pages and the stack's; and the
kernel stack of its thread. -/
def fillSpace (index : DomainId) (image : Image) (root : Frame) : Build ThreadId := do
  modify fun s => s.setDomain index fun d => { d with space := some ⟨root, [], []⟩ }
  image.segments.forM (mapSegment index)
  (List.range userStackPages).forM fun page =>
    mapDomainPage index ⟨true, true, true, false⟩ (userStackPage page)
  modify fun s => s.setDomain index fun d =>
    { d with stackMapped := true, entry := image.entry }
  allocateKernelStack

/-- The frames of a new domain. -/
def buildSpace (index : DomainId) (image : Image) : Build ThreadId := do
  let root ← allocFrame (.domain index)
  fillSpace index image root

/-- `build`. -/
def build (index : DomainId) (thread : ThreadId) (image : Image) : Build Unit := do
  let kstack ← buildSpace index image
  modify fun s => s.startThread index thread kstack

/-- Empties one thread slot of a domain: the thread's stack and its cell go back. -/
def clearThread (index : DomainId) (s : Machine) (slot : Fin maxThreadsPerDomain) : Machine :=
  match (s.domains index).threads slot with
  | none => s
  | some thread =>
    let s := s.setDomain index fun d =>
      { d with threads := Function.update d.threads slot none }
    let s := s.releaseKernelStack (s.threads thread).kstackSlot
    s.setThread thread fun _ => .empty

/-- The address space of a domain given back: the user half at one generation, the root at
the next. -/
def destroySpace (s : Machine) (index : DomainId) : Machine :=
  match (s.domains index).space with
  | none => s
  | some space =>
    let s := s.setDomain index fun d => { d with space := none }
    let s := s.retireFrames space.userFrames (.domain index)
    s.retireFrames [space.root] (.domain index)

/-- `demolish`. -/
def demolish (s : Machine) (index : DomainId) : Machine :=
  let s := (List.finRange maxThreadsPerDomain).foldl (clearThread index) s
  s.destroySpace index

/-- A domain slot whose occupant is gone: it keeps its generation. -/
def clearDomain (s : Machine) (index : DomainId) : Machine :=
  let s := s.setDomain index fun _ => .empty
  { s with
    caps := Function.update s.caps index .new
    refs := Function.update s.refs (.domain index) 0 }

/-- What `collect_dead` demands. -/
def deadCollectable (s : Machine) (index : DomainId) : Bool :=
  (s.domains index).state == .dead && s.refs (.domain index) == 0
    && (s.domains index).space.isNone && (s.domains index).threadCount == 0

/-- `collect_dead`, on a domain that meets its demands. -/
def collectDead (s : Machine) (index : DomainId) : Machine :=
  { s with allocator := s.allocator.reassignQuarantine (.domain index) .kernel }.clearDomain index

/-- The slot a new domain takes: an empty one, or the first dead one that can be
collected. -/
def takeDomainSlot (s : Machine) : Machine × Option DomainId :=
  match (List.finRange maxDomains).find? fun i => (s.domains i).state == .empty with
  | some i => (s, some i)
  | none =>
    match (List.finRange maxDomains).find? s.deadCollectable with
    | some i => (s.collectDead i, some i)
    | none => (s, none)

/-- `thread::find_empty`. -/
def findEmptyThread (s : Machine) : Option ThreadId :=
  (List.finRange maxThreads).find? fun i => maxCpus ≤ i.val && (s.threads i).state == .empty

/-- The pages a domain reserves up front. -/
def reservedFor (image : Image) : Nat :=
  image.pages + userStackPages + kstackPages + tableReservePages

/-- The slot of a new domain, as it is before the build. -/
def openDomain (s : Machine) (index : DomainId) (id : Nat) (ownerScope : ScopeId)
    (managed : Bool) (reservedPages : Nat) : Machine :=
  let s := s.renew (.domain index) (s.nextGeneration (.domain index))
  let s := { s with caps := Function.update s.caps index .new }
  s.setDomain index fun _ =>
    { Domain.empty with
      state := .building, id, ownerScope, managed, reservedPages, reservedMetadata := 2 }

/-- The end of a build that went through: the thread is counted and the surplus of the
reservation returned. -/
def settleDomain (s : Machine) (index : DomainId) (ownerScope : ScopeId)
    (reservedPages : Nat) : Machine :=
  let s := s.setScope ownerScope fun node => { node with threads := node.threads + 1 }
  let surplus := reservedPages - (s.allocator.charged (.domain index) + kstackPages)
  let s := s.release ownerScope .memoryPages surplus
  s.setDomain index fun d => { d with reservedPages := reservedPages - surplus }

/-- The end of a build that failed. -/
def abandonDomain (s : Machine) (index : DomainId) (ownerScope : ScopeId)
    (reservedPages : Nat) : Machine :=
  let s := s.demolish index
  let s := s.release ownerScope .memoryPages reservedPages
  let s := s.release ownerScope .metadata 2
  s.clearDomain index

/-- `create_in`, once the domain has its slot. -/
def raise (ownerScope : ScopeId) (managed : Bool) (image : Image) (index : DomainId) :
    Build DomainId := do
  let thread ← Op.orElse (fun s => (s, s.findEmptyThread)) .threadTableFull
  let pages := reservedFor image
  Op.reserve ownerScope .memoryPages pages id .limitExhausted
  Op.reserve ownerScope .metadata 2 (fun s => s.release ownerScope .memoryPages pages)
    .limitExhausted
  let id ← Op.nextId
    (fun s => (s.release ownerScope .memoryPages pages).release ownerScope .metadata 2)
    .limitExhausted
  modify fun s => s.openDomain index id ownerScope managed pages
  (build index thread image).orUndo fun s => s.abandonDomain index ownerScope pages
  modify fun s => s.settleDomain index ownerScope pages
  pure index

/-- `create_in`. -/
def createIn (image : Option Image) (ownerScope : ScopeId) (managed : Bool) :
    Build DomainId := do
  let image ← Op.ask fun _ => image.elim (.error .image) .ok
  Op.require (fun s => (s.scopes ownerScope).state == .opened) .scopeClosed
  Op.require (fun s => s.scopes.hasParallelism ownerScope) .limitExhausted
  let index ← Op.orElse takeDomainSlot .domainTableFull
  raise ownerScope managed image index

end Machine

end Thalyx.Kernel
