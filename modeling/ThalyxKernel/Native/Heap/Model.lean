/-
The native heap: `user/native/src/heap.c`.

Memory is a word at every address that is a multiple of eight, and one memory holds all of
it: the boundary tags, the links of the free blocks and what the program writes, so that a
wrong address writes over something else here as it does there.  A null pointer is 0.
The one lock makes every call atomic, and what `th_map_new` answers for each object is left
open.  A loop that follows links has a bound on its turns, and a call that would need more
has no outcome.
-/
import Mathlib.Logic.Function.Basic
import ThalyxKernel.Lib.Run
import ThalyxKernel.Lib.TwoWay

namespace Thalyx.Native

namespace Heap

abbrev align : Nat := 16
abbrev header : Nat := 16
abbrev flagInuse : Nat := 1
abbrev minBlock : Nat := header + 32
abbrev numBins : Nat := 24

abbrev thHeapBase : Nat := 0x30000000
abbrev thHeapLimit : Nat := 0x38000000
abbrev maxMemoryPagesPerObject : Nat := 4096
abbrev pageBytes : Nat := 4096

abbrev wordRange : Nat := 0x10000000000000000

/-- Arithmetic on `uint64_t`. -/
abbrev wrap (n : Nat) : Nat := n % wordRange

/-- The largest request `allocate` looks at. -/
abbrev maxRequest : Nat := 0x10000000000

/-- `n & ~mask` -/
def clear (n mask : Nat) : Nat := n - (n &&& mask)

/-- What the supervisor's recipe says of the heap (`th_config`).  It is given out with a growth
step whose bytes do not wrap around the address space. -/
structure Config where
  heapPages : Nat
  arenaPages : Nat
  fits : arenaPages * pageBytes + thHeapLimit < wordRange

/-- The words of memory, and the first block of every bin. -/
structure Mem where
  word : Nat → Nat
  bins : Nat → Nat

namespace Mem

def put (m : Mem) (address value : Nat) : Mem :=
  { m with word := Function.update m.word address value }

/-! ### `Block` and `Free` -/

def prevSize (m : Mem) (b : Nat) : Nat := m.word b
def sizeFlags (m : Mem) (b : Nat) : Nat := m.word (b + 8)
def next (m : Mem) (b : Nat) : Nat := m.word (b + 16)
def prev (m : Mem) (b : Nat) : Nat := m.word (b + 24)

def setPrevSize (m : Mem) (b value : Nat) : Mem := m.put b value
def setSizeFlags (m : Mem) (b value : Nat) : Mem := m.put (b + 8) value
def setNext (m : Mem) (b value : Nat) : Mem := m.put (b + 16) value
def setPrev (m : Mem) (b value : Nat) : Mem := m.put (b + 24) value

def blockSize (m : Mem) (b : Nat) : Nat := clear (m.sizeFlags b) (align - 1)
def blockInuse (m : Mem) (b : Nat) : Bool := m.sizeFlags b &&& flagInuse ≠ 0

end Mem

/-- The loop of `bin_of`, with how many turns are left before the last bin. -/
def binFrom (size : Nat) : Nat → Nat → Nat → Nat
  | 0, index, _ => index
  | left + 1, index, bound =>
    if bound ≤ size then binFrom size left (index + 1) (bound * 2) else index

def binOf (size : Nat) : Nat := binFrom size (numBins - 1) 0 32

namespace Mem

def binInsert (m : Mem) (block : Nat) : Mem :=
  let index := binOf (m.blockSize block)
  let m := m.setPrev block 0
  let m := m.setNext block (m.bins index)
  let m := if m.bins index = 0 then m else m.setPrev (m.bins index) block
  { m with bins := Function.update m.bins index block }

def binRemove (m : Mem) (block : Nat) : Mem :=
  let index := binOf (m.blockSize block)
  let m :=
    if m.prev block = 0 then { m with bins := Function.update m.bins index (m.next block) }
    else m.setNext (m.prev block) (m.next block)
  if m.next block = 0 then m else m.setPrev (m.next block) (m.prev block)

def publishFree (m : Mem) (block size : Nat) : Mem :=
  let m := m.setSizeFlags block size
  let m := m.setPrevSize (block + size) size
  m.binInsert block

/-- The part of `release` that joins the block with the one after it: the bins, and the size. -/
def joinAfter (m : Mem) (block size : Nat) : Mem × Nat :=
  let after := block + size
  if m.blockInuse after then (m, size)
  else (m.binRemove after, size + (m.binRemove after).blockSize after)

/-- The part that joins it with the one before it: the bins, where the block starts, and the
size. -/
def joinBefore (m : Mem) (block size : Nat) : Mem × Nat × Nat :=
  if m.prevSize block = 0 then (m, block, size)
  else
    let before := block - m.prevSize block
    if m.blockInuse before then (m, block, size)
    else (m.binRemove before, before, size + (m.binRemove before).blockSize before)

/-- `memset(out, 0, total)`: the last word keeps the bytes past the end. -/
def zero (m : Mem) (out total : Nat) : Mem :=
  { m with word := fun a =>
      if out ≤ a ∧ a < out + total then
        if a + 8 ≤ out + total then 0
        else m.word a >>> (8 * (out + total - a)) <<< (8 * (out + total - a))
      else m.word a }

/-- `memcpy(out, p, size)`, for a whole number of words. -/
def copy (m : Mem) (out p size : Nat) : Mem :=
  { m with word := fun a =>
      if out ≤ a ∧ a < out + size then m.word (p + (a - out)) else m.word a }

end Mem

end Heap

open Heap

/-- The heap's variables, over the memory it hands out. -/
structure Heap where
  mem : Mem
  nextVaddr : Nat
  pagesHeld : Nat
  inUse : Nat
  arenaPages : Nat
  pageCeiling : Nat
  ready : Bool
  lastError : Int

namespace Heap

/-- The loop of `grow`: the objects mapped one after the other until one is refused. -/
def mapObjects (maps : Nat → Nat → Int) (first pages : Nat) : Nat → Nat → Int → Nat × Int
  | 0, mapped, error => (mapped, error)
  | turns + 1, mapped, error =>
    if mapped < pages then
      let chunk := min (pages - mapped) maxMemoryPagesPerObject
      let error := maps (first + mapped * pageBytes) chunk
      if error ≠ 0 then (mapped, error)
      else mapObjects maps first pages turns (mapped + chunk) error
    else (mapped, error)

/-- The arena `grow` makes of `pages` mapped pages. -/
def addArena (h : Heap) (pages : Nat) : Heap :=
  let first := h.nextVaddr
  let m := h.mem.setPrevSize first 0
  let usable := clear (pages * pageBytes - header) (align - 1)
  let m := m.publishFree first usable
  let m := m.setSizeFlags (first + usable) flagInuse
  { h with
    mem := m
    nextVaddr := first + pages * pageBytes
    pagesHeld := h.pagesHeld + pages }

def grow (h : Heap) (maps : Nat → Nat → Int) (wantBytes : Nat) : Heap × Bool :=
  let need := (wantBytes + header * 2 + 4095) / 4096
  let pages := max h.arenaPages need
  if h.pageCeiling < wrap (h.pagesHeld + pages) then (h, false)
  else if thHeapLimit < wrap (h.nextVaddr + wrap (pages * pageBytes)) then (h, false)
  else
    let (mapped, error) := mapObjects maps h.nextVaddr pages pages 0 h.lastError
    let h := { h with lastError := error }
    if mapped = 0 then (h, false) else (h.addArena mapped, true)

/-- `th_heap_init` -/
def init (config : Config) (h : Heap) : Heap :=
  if h.ready then h
  else
    { h with
      arenaPages := if config.arenaPages = 0 then 64 else config.arenaPages
      pageCeiling := if config.heapPages = 0 then 256 else config.heapPages
      nextVaddr := thHeapBase
      ready := true }

def carve (h : Heap) (block want : Nat) : Heap × Nat :=
  let m := h.mem.binRemove block
  let size := m.blockSize block
  let (m, size) :=
    if want + minBlock ≤ size then
      let rest := block + want
      ((m.setPrevSize rest want).publishFree rest (size - want), want)
    else (m, size)
  let m := m.setSizeFlags block (size ||| flagInuse)
  let m := m.setPrevSize (block + size) size
  ({ h with mem := m, inUse := h.inUse + size }, block + header)

/-- More blocks than the heap's addresses have room for. -/
abbrev maxBlocks : Nat := (thHeapLimit - thHeapBase) / minBlock + 1

/-- The loops of `find_fit`, with how many bins are left. -/
def findFrom (h : Heap) (want : Nat) : Nat → Nat → Option (Heap × Nat)
  | 0, _ => some (h, 0)
  | left + 1, index => do
    let fits := fun block => decide (want ≤ h.mem.blockSize block)
    let block ← TwoWay.seek 0 h.mem.next fits maxBlocks (h.mem.bins index)
    if block = 0 then findFrom h want left (index + 1) else some (h.carve block want)

def findFit (h : Heap) (want : Nat) : Option (Heap × Nat) :=
  findFrom h want (numBins - binOf want) (binOf want)

/-- The block size that holds `n` bytes. -/
def wanted (n : Nat) : Nat := max (clear (n + header + align - 1) (align - 1)) minBlock

def allocate (config : Config) (maps : Nat → Nat → Int) (h : Heap) (n : Nat) :
    Option (Heap × Nat) :=
  let h := h.init config
  let n := if n = 0 then 1 else n
  if maxRequest < n then some (h, 0)
  else do
    let want := wanted n
    let (h, found) ← h.findFit want
    if found ≠ 0 then some (h, found)
    else
      let (h, grown) := h.grow maps want
      if grown then h.findFit want else some (h, 0)

def release (h : Heap) (p : Nat) : Heap :=
  let block := p - header
  let size := h.mem.blockSize block
  let inUse := h.inUse - size
  let (m, size) := h.mem.joinAfter block size
  let (m, block, size) := m.joinBefore block size
  { h with mem := m.publishFree block size, inUse }

/-! ### The calls -/

def malloc (config : Config) (maps : Nat → Nat → Int) (h : Heap) (n : Nat) : Option (Heap × Nat) :=
  h.allocate config maps n

def mallocUsableSize (h : Heap) (p : Nat) : Nat :=
  if p = 0 then 0 else h.mem.blockSize (p - header) - header

def free (h : Heap) (p : Nat) : Heap := if p = 0 then h else h.release p

def calloc (config : Config) (maps : Nat → Nat → Int) (h : Heap) (count size : Nat) :
    Option (Heap × Nat) :=
  let total := wrap (count * size)
  if size ≠ 0 ∧ total / size ≠ count then some (h, 0)
  else do
    let (h, out) ← h.malloc config maps total
    some (if out = 0 then h else { h with mem := h.mem.zero out total }, out)

def realloc (config : Config) (maps : Nat → Nat → Int) (h : Heap) (p n : Nat) :
    Option (Heap × Nat) :=
  if p = 0 then h.malloc config maps n
  else if n = 0 then some (h.free p, 0)
  else
    let size := h.mallocUsableSize p
    if n ≤ size then some (h, p)
    else do
      let (h, out) ← h.malloc config maps n
      if out = 0 then some (h, 0)
      else some ({ h with mem := h.mem.copy out p size }.free p, out)

/-- The loop of `allocate_aligned` that makes the gap in front a block of its own. -/
def widen (payload alignment : Nat) : Nat → Nat → Nat
  | 0, aligned => aligned
  | turns + 1, aligned =>
    if aligned - payload < minBlock then widen payload alignment turns (aligned + alignment)
    else aligned

/-- The end of `allocate_aligned`: the block of `p` is cut at `aligned`, and the front is freed. -/
def cutFront (h : Heap) (p aligned : Nat) : Heap :=
  let front := aligned - p
  let old := p - header
  let total := h.mem.blockSize old
  let kept := aligned - header
  let m := h.mem.setSizeFlags kept ((total - front) ||| flagInuse)
  let m := m.setPrevSize kept front
  let m := m.setPrevSize (kept + (total - front)) (total - front)
  let m := m.setSizeFlags old (front ||| flagInuse)
  let h := { h with mem := m }.release (old + header)
  let h := { h with inUse := h.inUse + front }
  { h with inUse := h.inUse - front }

def allocateAligned (config : Config) (maps : Nat → Nat → Int) (h : Heap) (alignment n : Nat) :
    Option (Heap × Nat) :=
  if alignment ≤ align then h.allocate config maps n
  else do
    let want := max (clear (wrap (n + header + align - 1)) (align - 1)) minBlock
    let (h, p) ← h.allocate config maps (wrap (want + alignment + minBlock))
    if p = 0 then some (h, 0)
    else
      let aligned := clear (wrap (p + alignment - 1)) (alignment - 1)
      if aligned = p then some (h, p)
      else
        let aligned := widen p alignment minBlock aligned
        some (h.cutFront p aligned, aligned)

abbrev einval : Nat := 22
abbrev enomem : Nat := 12

/-- `posix_memalign`: the status, and what was stored through `out`. -/
def posixMemalign (config : Config) (maps : Nat → Nat → Int) (h : Heap) (alignment size : Nat) :
    Option (Heap × Nat × Nat) :=
  if alignment < 8 ∨ alignment &&& (alignment - 1) ≠ 0 then some (h, einval, 0)
  else do
    let (h, p) ← h.allocateAligned config maps alignment size
    some (h, if p = 0 then enomem else 0, p)

end Heap

/-! ### A program and its heap -/

/-- What a program does with the heap: a call, or a write of its own. -/
inductive HeapCall where
  | malloc (n : Nat)
  | calloc (count size : Nat)
  | realloc (p n : Nat)
  | free (p : Nat)
  | posixMemalign (alignment size : Nat)
  | write (address value : Nat)
deriving DecidableEq, Repr

/-- The heap after an action, and the pointer it answered. -/
def Heap.act (config : Config) (maps : Nat → Nat → Int) (h : Heap) : HeapCall → Option (Heap × Nat)
  | .malloc n => h.malloc config maps n
  | .calloc count size => h.calloc config maps count size
  | .realloc p n => h.realloc config maps p n
  | .free p => some (h.free p, 0)
  | .posixMemalign alignment size =>
    (h.posixMemalign config maps alignment size).map fun r => (r.1, r.2.2)
  | .write address value => some ({ h with mem := h.mem.put address value }, 0)

/-- A block the program holds, and what it asked for. -/
structure Live where
  ptr : Nat
  requested : Nat
  alignment : Nat
deriving DecidableEq, Repr

/-- The heap, with the blocks the program holds and where each arena starts and how long it is. -/
structure Program where
  heap : Heap
  live : List Live
  arenas : List (Nat × Nat)

namespace Program

/-- The action is one the program may take: it frees and writes only what it holds. -/
def Allowed (s : Program) : HeapCall → Prop
  | .malloc n => n ≤ maxRequest
  | .calloc count size => count ≤ maxRequest ∧ size ≤ maxRequest
  | .realloc p n => n ≤ maxRequest ∧ (p = 0 ∨ ∃ l ∈ s.live, l.ptr = p)
  | .free p => p = 0 ∨ ∃ l ∈ s.live, l.ptr = p
  | .posixMemalign alignment size => alignment ≤ maxRequest ∧ size ≤ maxRequest
  | .write address _ =>
    8 ∣ address ∧ ∃ l ∈ s.live, l.ptr ≤ address ∧ address < l.ptr + s.heap.mallocUsableSize l.ptr

instance (s : Program) : (action : HeapCall) → Decidable (s.Allowed action)
  | .malloc _ => inferInstanceAs (Decidable (_ ≤ _))
  | .calloc _ _ | .posixMemalign _ _ | .realloc _ _ | .write _ _ =>
    inferInstanceAs (Decidable (_ ∧ _))
  | .free _ => inferInstanceAs (Decidable (_ ∨ _))

/-- The blocks held once a block at `p` has been handed out. -/
def hold (live : List Live) (p requested alignment : Nat) : List Live :=
  if p = 0 then live else { ptr := p, requested, alignment } :: live

/-- The blocks held once the one at `p` has been given back. -/
def drop (live : List Live) (p : Nat) : List Live := live.filter (·.ptr ≠ p)

def held (live : List Live) (p : Nat) : HeapCall → List Live
  | .malloc n => hold live p n align
  | .calloc count size => hold live p (count * size) align
  | .realloc old n =>
    if p = 0 ∧ n ≠ 0 then live else hold (drop live old) p n align
  | .free old => drop live old
  | .posixMemalign alignment size => hold live p size alignment
  | .write _ _ => live

/-- The arena an action added, if it added one. -/
def grown (h h' : Heap) : List (Nat × Nat) :=
  if h'.pagesHeld = h.pagesHeld then []
  else
    let length := (h'.pagesHeld - h.pagesHeld) * pageBytes
    [(h'.nextVaddr - length, length)]

def step (config : Config) (s : Program) (event : HeapCall × (Nat → Nat → Int)) :
    Option Program := do
  let (h, p) ← s.heap.act config event.2 event.1
  some { heap := h, live := held s.live p event.1, arenas := s.arenas ++ grown s.heap h }

/-- Nothing has been allocated yet; memory holds anything. -/
def Initial (s : Program) : Prop :=
  s.live = [] ∧ s.arenas = [] ∧ s.heap.mem.bins = (fun _ => 0) ∧ s.heap.ready = false
    ∧ s.heap.pagesHeld = 0 ∧ s.heap.inUse = 0

/-- Every run of a program that keeps to what it holds, over any answers of `th_map_new`. -/
def system (config : Config) : System Program (HeapCall × (Nat → Nat → Int)) :=
  (System.ofStep Initial (step config)).within fun s event => s.Allowed event.1

end Program

end Thalyx.Native
