/-
The block driver and its device: `user/k4disk/src/main.rs`.

The driver has one queue and serves one request at a time.  What it writes to the memory it
shares with the device, and what it reads there, are steps of their own, and the device
takes, finishes and posts chains between any two of them.  `signal_wait` may answer at any
moment, with a signal or with an error; the deadline is such an error.

`serve` and what follows a transfer (`resume`) are pure: they say what is answered, or which
transfer is issued next.  The contents of the blocks are left out, and so are the counters of
the harness's notes; a message that is no request is answered without `serve` and is left out
too.  Sums that would overflow end the driver, as the checked arithmetic of the build does.
-/
import ThalyxKernel.Lib.Run
import ThalyxKernel.Lib.Virtqueue

namespace Thalyx.Disk

open Virtqueue

abbrev blkIn : Nat := 0
abbrev blkOut : Nat := 1
abbrev blkFlush : Nat := 4

abbrev headerOffset : Nat := 0x1000
abbrev statusOffset : Nat := 0x1010
abbrev heldOffset : Nat := 0x2000

abbrev sectorBytes : Nat := 512
abbrev blockBytes : Nat := 4096
abbrev sectorsPerBlock : Nat := blockBytes / sectorBytes
abbrev iobufPages : Nat := 4
abbrev wordRange : Nat := 0x10000000000000000

/-- `disk_op` -/
abbrev opRead : Nat := 1
abbrev opWrite : Nat := 2
abbrev opFlush : Nat := 3
abbrev opLatch : Nat := 4
abbrev opStats : Nat := 5

/-- `disk_status` -/
abbrev statusOk : Nat := 0
abbrev statusInvalid : Nat := 1
abbrev statusIoError : Nat := 2
abbrev statusLatched : Nat := 3

/-- `fault_mode` -/
abbrev faultNone : Nat := 0
abbrev faultDropWrite : Nat := 2
abbrev faultTearWrite : Nat := 3
abbrev faultIoError : Nat := 6
abbrev faultReorder : Nat := 7

structure DiskRequest where
  op : Nat
  faultMode : Nat
  block : Nat
  count : Nat
  bufferBlock : Nat
deriving DecidableEq, Repr

structure DiskReply where
  status : Nat
  applied : Nat
  transferred : Nat
  writesIssued : Nat
  writesSuppressed : Nat
  flushes : Nat
  sectorsWritten : Nat
deriving DecidableEq, Repr

structure Queue where
  ringIova : Nat
  iobufIova : Nat
  size : Nat
  availIndex : Nat
  usedIndex : Nat
  published : Nat
deriving DecidableEq, Repr

/-- What the harness has done to this run's writes, and what it still owes. -/
structure Faults where
  latched : Bool
  held : Option (Nat × Nat)
  writesIssued : Nat
  writesSuppressed : Nat
  sectorsWritten : Nat
  flushes : Nat
deriving DecidableEq, Repr

/-! ### Publishing -/

/-- The header of a request, as the device reads it. -/
structure Header where
  requestType : Nat
  reserved : Nat
  sector : Nat
deriving DecidableEq, Repr

/-- The memory the driver shares with the device. -/
structure Memory where
  rings : Rings
  header : Header
  status : Nat

/-- What is published: the arguments of `publish`. -/
structure Transfer where
  kind : Nat
  sector : Nat
  data : Nat
  length : Nat
deriving DecidableEq, Repr

/-- One write of `publish`. -/
inductive Write where
  | requestType (value : Nat)
  | reserved (value : Nat)
  | sector (value : Nat)
  | status (value : Nat)
  | desc (index : Nat) (value : Desc)
  | avail (slot head : Nat)
  | availIndex (value : Nat)
deriving DecidableEq, Repr

def Memory.write (m : Memory) : Write → Memory
  | .requestType value => { m with header := { m.header with requestType := value } }
  | .reserved value => { m with header := { m.header with reserved := value } }
  | .sector value => { m with header := { m.header with sector := value } }
  | .status value => { m with status := value }
  | .desc index value =>
    { m with rings := { m.rings with desc := Function.update m.rings.desc index value } }
  | .avail slot head =>
    { m with rings := { m.rings with avail := Function.update m.rings.avail slot head } }
  | .availIndex value => { m with rings := { m.rings with availIndex := value } }

/-- The descriptors of a request, from the first. -/
def descriptors (q : Queue) (t : Transfer) : List Write :=
  let header : Desc := ⟨q.ringIova + headerOffset, 16, descNext, 1⟩
  let status : Desc := ⟨q.ringIova + statusOffset, 1, descWrite, 0⟩
  if t.length = 0 then [.desc 0 header, .desc 1 status]
  else
    let flags := if t.kind = blkIn then descNext ||| descWrite else descNext
    [.desc 0 header, .desc 1 ⟨t.data, t.length, flags, 2⟩, .desc 2 status]

/-- The writes of `publish`, in their order. -/
def writes (q : Queue) (t : Transfer) : List Write :=
  [.requestType t.kind, .reserved 0, .sector t.sector, .status 0xFF] ++ descriptors q t
    ++ [.avail (q.availIndex % q.size) 0, .availIndex (bump q.availIndex)]

/-- The queue once they are made. -/
def Queue.publish (q : Queue) (t : Transfer) : Queue :=
  { q with published := t.length + 1, availIndex := bump q.availIndex }

/-! ### Serving -/

/-- What a transfer was issued for. -/
inductive Stage where
  | read
  | write (torn : Bool) (issue : Nat)
  | held
  | flush
deriving DecidableEq, Repr

/-- What the driver does next: it replies, issues a transfer, or ends on an overflow. -/
inductive Next where
  | reply (faults : Faults) (reply : DiskReply)
  | issue (faults : Faults) (stage : Stage) (transfer : Transfer)
  | overflow
deriving DecidableEq, Repr

namespace DiskRequest

def bounded (r : DiskRequest) : Prop :=
  r.count ≠ 0 ∧ r.count ≤ iobufPages ∧ r.bufferBlock < iobufPages
    ∧ r.bufferBlock + r.count ≤ iobufPages

instance (r : DiskRequest) : Decidable r.bounded := inferInstanceAs (Decidable (_ ∧ _))

def data (q : Queue) (r : DiskRequest) : Nat := q.iobufIova + r.bufferBlock * blockBytes

def bytes (r : DiskRequest) : Nat := r.count * blockBytes

end DiskRequest

/-- A reply with the counters `serve` puts into every one. -/
def Faults.answer (f : Faults) (status applied transferred : Nat) : Next :=
  .reply f {
    status, applied, transferred
    writesIssued := f.writesIssued
    writesSuppressed := f.writesSuppressed
    flushes := f.flushes
    sectorsWritten := f.sectorsWritten }

/-- `transfer`, up to its publication. -/
def transfer (f : Faults) (stage : Stage) (kind block data bytes : Nat) : Next :=
  if block * sectorsPerBlock < wordRange then
    .issue f stage ⟨kind, block * sectorsPerBlock, data, bytes⟩
  else .overflow

def writeWithFaults (q : Queue) (f : Faults) (r : DiskRequest) : Next :=
  if r.faultMode = faultDropWrite then
    { f with writesSuppressed := f.writesSuppressed + 1 }.answer statusOk r.faultMode 0
  else if r.faultMode = faultIoError then
    { f with writesSuppressed := f.writesSuppressed + 1 }.answer statusIoError r.faultMode 0
  else if r.faultMode = faultReorder then
    if r.count ≠ 1 ∨ f.held.isSome then f.answer statusInvalid r.faultMode 0
    else { f with held := some (r.block, 1) }.answer statusOk r.faultMode 0
  else
    let torn := decide (r.faultMode = faultTearWrite)
    let issue := if torn then sectorBytes else r.bytes
    transfer f (.write torn issue) blkOut r.block (r.data q) issue

def flush (f : Faults) : Next := transfer f .flush blkFlush 0 0 0

def serve (q : Queue) (f : Faults) (r : DiskRequest) : Next :=
  if r.op = opRead then
    if ¬ r.bounded then f.answer statusInvalid faultNone 0
    else transfer f .read blkIn r.block (r.data q) r.bytes
  else if r.op = opWrite then
    if ¬ r.bounded then f.answer statusInvalid faultNone 0
    else if f.latched then
      { f with writesSuppressed := f.writesSuppressed + 1 }.answer statusLatched faultNone 0
    else writeWithFaults q f r
  else if r.op = opFlush then
    if f.latched then f.answer statusLatched faultNone 0
    else
      match f.held with
      | none => flush f
      | some (block, count) =>
        transfer { f with held := none } .held blkOut block (q.ringIova + heldOffset)
          (count * blockBytes)
  else if r.op = opLatch then
    { f with
      latched := true
      held := none
      writesSuppressed := f.writesSuppressed + if f.held.isSome then 1 else 0 }.answer
      statusOk faultNone 0
  else if r.op = opStats then f.answer statusOk faultNone 0
  else f.answer statusInvalid faultNone 0

/-- What follows a transfer, which did what it was to do or did not. -/
def resume (f : Faults) (r : DiskRequest) (ok : Bool) : Stage → Next
  | .read => if ok then f.answer statusOk faultNone r.count else f.answer statusIoError faultNone 0
  | .write torn issue =>
    if ¬ ok then f.answer statusIoError r.faultMode 0
    else
      let f := { f with
        writesIssued := f.writesIssued + 1
        sectorsWritten := f.sectorsWritten + issue / sectorBytes }
      if torn then
        { f with writesSuppressed := f.writesSuppressed + 1, latched := true }.answer
          statusOk r.faultMode 0
      else f.answer statusOk r.faultMode r.count
  | .held =>
    if ¬ ok then f.answer statusIoError faultNone 0
    else
      flush { f with
        writesIssued := f.writesIssued + 1
        sectorsWritten := f.sectorsWritten + sectorsPerBlock }
  | .flush =>
    if ¬ ok then f.answer statusIoError faultNone 0
    else { f with flushes := f.flushes + 1 }.answer statusOk faultNone 0

/-! ### The device -/

/-- What the device makes of a chain: the request, where its data is and who writes it, and where
the status goes. -/
structure Operation where
  kind : Nat
  sector : Nat
  data : Option (Nat × Nat × Bool)
  status : Nat
deriving DecidableEq, Repr

/-- A header, data if there is some, and a byte for the status. -/
def Memory.operation (q : Queue) (m : Memory) : List Desc → Option Operation
  | [header, status] =>
    if header.addr = q.ringIova + headerOffset then
      some ⟨m.header.requestType, m.header.sector, none, status.addr⟩
    else none
  | [header, data, status] =>
    if header.addr = q.ringIova + headerOffset then
      some ⟨m.header.requestType, m.header.sector,
        some (data.addr, data.len, decide (data.flags &&& descWrite ≠ 0)), status.addr⟩
    else none
  | _ => none

/-- What the driver means by a transfer. -/
def Transfer.operation (q : Queue) (t : Transfer) : Operation where
  kind := t.kind
  sector := t.sector
  data := if t.length = 0 then none else some (t.data, t.length, decide (t.kind = blkIn))
  status := q.ringIova + statusOffset

/-! ### The two together -/

/-- A request the driver is at work on: the transfer is issued for a stage of it, and so many
transfers had been published before its first. -/
structure Job where
  request : DiskRequest
  stage : Stage
  first : Nat
deriving DecidableEq, Repr

inductive Pc where
  /-- In `endpoint_receive`. -/
  | idle
  /-- In `publish`, with these writes still to be made. -/
  | publishing (rest : List Write) (job : Job)
  /-- In `complete`, about to read the index of the used ring. -/
  | polling (rounds : Nat) (job : Job)
  /-- In `consume`, about to read an entry. -/
  | entry (rounds : Nat) (job : Job)
  /-- In `signal_wait`. -/
  | waiting (rounds : Nat) (job : Job)
  /-- In `complete`, about to read the status byte. -/
  | status (job : Job)
  | overflowed
deriving DecidableEq, Repr

/-- A request that was answered, and the transfers published for it. -/
structure Answered where
  request : DiskRequest
  reply : DiskReply
  first : Nat
  last : Nat
deriving DecidableEq, Repr

structure State where
  queue : Queue
  faults : Faults
  pc : Pc
  mem : Memory
  device : DeviceSide Operation
  /-- what was published, in that order -/
  made : List Transfer
  /-- for each entry of the used ring that was consumed, the transfer that was waited for and the
  one the device had put there -/
  consumed : List (Nat × Option Nat)
  answered : List Answered

inductive Event where
  | receive (request : DiskRequest)
  /-- The driver's next read or write. -/
  | drive
  /-- What `signal_wait` answers. -/
  | signal (ok : Bool)
  | take
  | finish (i status : Nat)
  | post (i len : Nat)
deriving DecidableEq, Repr

namespace State

/-- The driver goes on with a request. -/
def follow (s : State) (request : DiskRequest) (first : Nat) : Next → State
  | .reply faults reply =>
    { s with
      faults
      pc := .idle
      answered := s.answered ++ [⟨request, reply, first, s.made.length⟩] }
  | .issue faults stage t =>
    { s with
      queue := s.queue.publish t
      faults
      pc := .publishing (writes s.queue t) ⟨request, stage, first⟩
      made := s.made ++ [t] }
  | .overflow => { s with pc := .overflowed }

/-- The transfer is over, as `transfer` tells it. -/
def conclude (s : State) (job : Job) (ok : Bool) : State :=
  s.follow job.request job.first (resume s.faults job.request ok job.stage)

/-- `consume`, from the entry on. -/
def consume (s : State) (rounds : Nat) (job : Job) : State :=
  let e := s.mem.rings.used (s.queue.usedIndex % s.queue.size)
  if e.id ≠ 0 ∨ s.queue.published < e.len then { s with pc := .waiting rounds job }
  else
    { s with
      queue := { s.queue with usedIndex := bump s.queue.usedIndex }
      pc := .status job
      consumed := s.consumed ++ [(s.made.length - 1, s.device.posted[s.consumed.length]?)] }

def drive (s : State) : Option State :=
  match s.pc with
  | .publishing (w :: rest) job =>
    some { s with
      mem := s.mem.write w
      pc := if rest = [] then .polling 0 job else .publishing rest job }
  | .polling rounds job =>
    let apart := distance s.mem.rings.usedIndex s.queue.usedIndex
    if apart = 0 ∨ s.queue.size < apart then some { s with pc := .waiting rounds job }
    else some { s with pc := .entry rounds job }
  | .entry rounds job => some (s.consume rounds job)
  | .status job => some (s.conclude job (decide (s.mem.status = 0)))
  | _ => none

def signal (s : State) (ok : Bool) : Option State :=
  match s.pc with
  | .waiting rounds job =>
    if ok ∧ rounds + 1 ≤ 128 then some { s with pc := .polling (rounds + 1) job }
    else some (s.conclude job false)
  | _ => none

def step (s : State) : Event → Option State
  | .receive request =>
    if s.pc = .idle then
      some (s.follow request s.made.length (serve s.queue s.faults request))
    else none
  | .drive => s.drive
  | .signal ok => s.signal ok
  | .take =>
    (s.device.take s.queue.size s.mem.rings (s.mem.operation s.queue)).map fun d =>
      { s with device := d }
  | .finish i status =>
    (s.device.finish i status).map fun d =>
      { s with device := d, mem := { s.mem with status } }
  | .post i len =>
    (s.device.post s.queue.size s.mem.rings i len).map fun out =>
      { s with device := out.1, mem := { s.mem with rings := out.2 } }

/-- The driver as `initialise` leaves it. -/
structure Initial (s : State) : Prop where
  size : 0 < s.queue.size ∧ s.queue.size ≤ 8
  indices : s.queue.availIndex = 0 ∧ s.queue.usedIndex = 0
  faults : s.faults = ⟨false, none, 0, 0, 0, 0⟩
  pc : s.pc = .idle
  rings : s.mem.rings.availIndex = 0 ∧ s.mem.rings.usedIndex = 0
  device : s.device = DeviceSide.fresh
  history : s.made = [] ∧ s.consumed = [] ∧ s.answered = []

/-- Every run of the driver and its device. -/
def system : System State Event := System.ofStep Initial step

/-! ### What an answer is about -/

/-- The transfer a request asks for. -/
def asks (q : Queue) (r : DiskRequest) : Transfer :=
  if r.op = opRead then ⟨blkIn, r.block * sectorsPerBlock, r.data q, r.bytes⟩
  else if r.op = opWrite then
    ⟨blkOut, r.block * sectorsPerBlock, r.data q,
      if r.faultMode = faultTearWrite then sectorBytes else r.bytes⟩
  else ⟨blkFlush, 0, 0, 0⟩

/-- A request for the device: a read, a flush, or a write that the harness has not told the driver
to drop or to hold. -/
def ForDevice (r : DiskRequest) : Prop :=
  r.op = opRead ∨ r.op = opFlush
    ∨ r.op = opWrite ∧ r.faultMode ≠ faultDropWrite ∧ r.faultMode ≠ faultReorder

/-- The device has completed a transfer, as it was meant, with this status. -/
def Completed (s : State) (k status : Nat) : Prop :=
  ∃ t, s.made[k]? = some t ∧ (k, t.operation s.queue, status) ∈ s.device.completed

/-- An answer of `OK` is about its request: what was published for it last is what it asks for, and
the device has completed all that was published for it. -/
def Honest (s : State) (a : Answered) : Prop :=
  a.reply.status = statusOk → ForDevice a.request →
    a.first < a.last ∧ s.made[a.last - 1]? = some (asks s.queue a.request)
      ∧ ∀ k, a.first ≤ k → k < a.last → s.Completed k 0

/-- What the driver owes its callers and the device. -/
structure Sincere (s : State) : Prop where
  answers : ∀ a ∈ s.answered, s.Honest a
  /-- each completion is taken for that of the transfer it is of -/
  matched : ∀ p ∈ s.consumed, p.2 = some p.1
  /-- nothing the device may still use is written over -/
  untouched : ∀ rest job, s.pc = .publishing rest job → ¬ s.device.Busy s.mem.rings

/-- A request that leads to a transfer comes only when the completions of all transfers before it
have been consumed. -/
def Drained (s : State) : Event → Prop
  | .receive r =>
    (∃ faults stage t, serve s.queue s.faults r = .issue faults stage t) →
      s.queue.availIndex = s.queue.usedIndex
  | _ => True

/-- Every run in which that is so. -/
def drained : System State Event := system.within Drained

end State

end Thalyx.Disk
