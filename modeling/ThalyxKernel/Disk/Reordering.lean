/-
What the harness may do to the order of writes: `user/k4disk/src/main.rs`.

`serve` is run here with the contents of the medium and of the memory the device reaches, byte
by byte, before a device that completes every transfer.  `view` is what the medium will hold
once the write that is being held has been issued, and the requests move it as they move what
has been written, except where a write or a read goes past a write held for the same block.
-/
import ThalyxKernel.Disk.Driver
import ThalyxKernel.Lib.Moves

namespace Thalyx.Disk

variable {β : Type}

/-- A request, with what its sender has left in the pages of the shared buffer. -/
structure Message (β : Type) where
  request : DiskRequest
  pages : Nat → β

/-- The driver's faults, the memory at bus addresses and the medium. -/
structure World (β : Type) where
  faults : Faults
  memory : Nat → β
  medium : Nat → β

/-- The counters are words. -/
def Faults.InWords (f : Faults) : Prop :=
  f.writesIssued < wordRange ∧ f.writesSuppressed < wordRange ∧ f.sectorsWritten < wordRange
    ∧ f.flushes < wordRange

instance (f : Faults) : Decidable f.InWords := inferInstanceAs (Decidable (_ ∧ _))

def Queue.heldAt (q : Queue) : Nat := q.ringIova + heldOffset

/-- The two grants the kernel makes the driver: three pages and four, of two objects, at physical
addresses. -/
structure Queue.Granted (q : Queue) : Prop where
  ring : q.ringIova + 3 * blockBytes ≤ 2 ^ 52
  iobuf : q.iobufIova + iobufPages * blockBytes ≤ 2 ^ 52
  apart : q.ringIova + 3 * blockBytes ≤ q.iobufIova
    ∨ q.iobufIova + iobufPages * blockBytes ≤ q.ringIova

namespace World

/-- A transfer the device completes. -/
def perform (w : World β) (t : Transfer) : World β :=
  let place := t.sector * sectorBytes
  if t.kind = blkIn then { w with memory := move w.memory w.medium t.data place t.length }
  else if t.kind = blkOut then { w with medium := move w.medium w.memory place t.data t.length }
  else w

/-- The branch of `write_with_faults` that copies a block into the driver's own memory. -/
def Keeps (f : Faults) (r : DiskRequest) : Prop :=
  r.op = opWrite ∧ r.bounded ∧ f.latched = false ∧ r.faultMode = faultReorder
    ∧ ¬ (r.count ≠ 1 ∨ f.held.isSome)

instance (f : Faults) (r : DiskRequest) : Decidable (Keeps f r) :=
  inferInstanceAs (Decidable (_ ∧ _))

def keep (q : Queue) (w : World β) (r : DiskRequest) : World β :=
  if Keeps w.faults r then
    { w with memory := move w.memory w.memory q.heldAt (r.data q) blockBytes }
  else w

/-- What the driver goes on with is carried out, with so many transfers at most. -/
def carry (r : DiskRequest) : Nat → World β → Next → Option (World β × DiskReply)
  | _, w, .reply f reply => if f.InWords then some ({ w with faults := f }, reply) else none
  | transfers + 1, w, .issue f stage t =>
    if f.InWords then carry r transfers (perform { w with faults := f } t) (resume f r true stage)
    else none
  | 0, _, .issue .. => none
  | _, _, .overflow => none

/-- A request is served: two transfers are the most that it takes. -/
def handle (q : Queue) (w : World β) (r : DiskRequest) : Option (World β × DiskReply) :=
  if r.data q < wordRange then carry r 2 (w.keep q r) (serve q w.faults r) else none

def fill (q : Queue) (w : World β) (pages : Nat → β) : World β :=
  { w with memory := move w.memory pages q.iobufIova 0 (iobufPages * blockBytes) }

end World

/-- The driver at work, what its clients have written so far as its answers tell them, and the
last request that was answered. -/
structure Session (β : Type) where
  world : World β
  stopped : Bool
  written : Nat → β
  last : Option (DiskRequest × DiskReply)

namespace Session

/-- The medium as the clients know it, after an answer. -/
def record (written : Nat → β) (m : Message β) (reply : DiskReply) : Nat → β :=
  if m.request.op = opWrite ∧ reply.status = statusOk then
    move written m.pages (m.request.block * blockBytes) (m.request.bufferBlock * blockBytes)
      m.request.bytes
  else written

def step (q : Queue) (s : Session β) (m : Message β) : Option (Session β) :=
  if s.stopped then none
  else
    match (s.world.fill q m.pages).handle q m.request with
    | none => some { s with stopped := true }
    | some (world, reply) =>
      some ⟨world, false, record s.written m reply, some (m.request, reply)⟩

structure Initial (s : Session β) : Prop where
  faults : s.world.faults = ⟨false, none, 0, 0, 0, 0⟩
  running : s.stopped = false
  written : s.written = s.world.medium
  last : s.last = none

/-- The messages in question: fields of their widths, no fault but a reordering, no latch. -/
structure Asked (m : Message β) : Prop where
  block : m.request.block < wordRange
  count : m.request.count < 2 ^ 32
  bufferBlock : m.request.bufferBlock < 2 ^ 32
  mode : m.request.faultMode = faultNone ∨ m.request.faultMode = faultReorder
  op : m.request.op ≠ opLatch

/-- Every run on such messages. -/
def system (q : Queue) : System (Session β) (Message β) :=
  (System.ofStep Initial (step q)).within fun _ m => Asked m

/-- What a medium may do with writes: no sum has overflowed, what was flushed is on it, and what
is read of it is what was written last. -/
structure Orderly (q : Queue) (s : Session β) : Prop where
  running : s.stopped = false
  flushed : ∀ r reply, s.last = some (r, reply) → r.op = opFlush → reply.status = statusOk →
    s.world.medium = s.written
  read : ∀ r reply, s.last = some (r, reply) → r.op = opRead → reply.status = statusOk →
    ∀ k < r.bytes, s.world.memory (r.data q + k) = s.written (r.block * blockBytes + k)

/-! ### The condition -/

/-- A request that is for blocks of the medium, now or once it is no longer held. -/
def Reaches (f : Faults) (r : DiskRequest) : Prop :=
  r.bounded ∧ (r.op = opRead
    ∨ r.op = opWrite ∧ ¬ (r.faultMode = faultReorder ∧ (r.count ≠ 1 ∨ f.held.isSome)))

instance (f : Faults) (r : DiskRequest) : Decidable (Reaches f r) :=
  inferInstanceAs (Decidable (_ ∧ _))

/-- A request none of whose blocks is being held. -/
def Clear (f : Faults) (r : DiskRequest) : Prop :=
  ∀ b ∈ f.held, b.1 < r.block ∨ r.block + r.count ≤ b.1

instance (f : Faults) (r : DiskRequest) : Decidable (Clear f r) :=
  inferInstanceAs (Decidable (∀ b ∈ f.held, _))

/-- The counters have room for what a request adds. -/
def Room (f : Faults) (r : DiskRequest) : Prop :=
  (r.op = opWrite → r.bounded → r.faultMode = faultNone →
    f.writesIssued + 1 < wordRange ∧ f.sectorsWritten + r.count * sectorsPerBlock < wordRange)
    ∧ (r.op = opFlush → f.flushes + 1 < wordRange
      ∧ (f.held.isSome →
        f.writesIssued + 1 < wordRange ∧ f.sectorsWritten + sectorsPerBlock < wordRange))

instance (f : Faults) (r : DiskRequest) : Decidable (Room f r) :=
  inferInstanceAs (Decidable (_ ∧ _))

/-- A request whose blocks have sectors, that goes past no write held for one of them, and that
the counters have room for. -/
structure Clean (f : Faults) (r : DiskRequest) : Prop where
  sectors : Reaches f r → r.block * sectorsPerBlock < wordRange
  clear : Reaches f r → Clear f r
  room : Room f r

/-- Every run on such requests only. -/
def clean (q : Queue) : System (Session β) (Message β) :=
  (system q).within fun s m => Clean s.world.faults m.request

end Session

/-! ### What a request does -/

namespace World

variable {q : Queue} {f : Faults} {r : DiskRequest} {w w' : World β} {reply : DiskReply}

/-- The medium once what is being held has been issued. -/
def view (q : Queue) (w : World β) : Nat → β :=
  match w.faults.held with
  | none => w.medium
  | some (block, count) =>
    move w.medium w.memory (block * blockBytes) q.heldAt (count * blockBytes)

/-- The driver has not latched, its counters are words, and what it holds is one block that has
sectors. -/
structure Sound (w : World β) : Prop where
  unlatched : w.faults.latched = false
  words : w.faults.InWords
  held : ∀ b ∈ w.faults.held, b.2 = 1 ∧ b.1 * sectorsPerBlock < wordRange

/-- What an answer says of what was done. -/
structure Does (q : Queue) (w : World β) (r : DiskRequest) (w' : World β) (reply : DiskReply) :
    Prop where
  sound : w'.Sound
  bounded : r.op = opWrite → reply.status = statusOk → r.bounded
  view : w'.view q = if r.op = opWrite ∧ reply.status = statusOk then
    move (w.view q) w.memory (r.block * blockBytes) (r.data q) r.bytes else w.view q
  flushed : r.op = opFlush → reply.status = statusOk → w'.medium = w'.view q
  read : r.op = opRead → reply.status = statusOk →
    ∀ k < r.bytes, w'.memory (r.data q + k) = w.view q (r.block * blockBytes + k)

theorem view_none (h : w.faults.held = none) : w.view q = w.medium := by
  unfold view
  rw [h]

variable {block bytes data kind : Nat}

theorem view_some {count : Nat} (h : w.faults.held = some (block, count)) :
    w.view q = move w.medium w.memory (block * blockBytes) q.heldAt (count * blockBytes) := by
  unfold view
  rw [h]

theorem apart_held (hq : q.Granted) (h : r.bounded) :
    q.heldAt + blockBytes ≤ r.data q ∨ r.data q + r.bytes ≤ q.heldAt := by
  obtain ⟨hring, hiobuf, hapart⟩ := hq
  obtain ⟨-, -, -, hlast⟩ := h
  unfold Queue.heldAt DiskRequest.data DiskRequest.bytes
  simp only [heldOffset, blockBytes, iobufPages] at *
  omega

theorem perform_sectors :
    w.perform ⟨kind, block * sectorsPerBlock, data, bytes⟩
      = if kind = blkIn then
          { w with memory := move w.memory w.medium data (block * blockBytes) bytes }
        else if kind = blkOut then
          { w with medium := move w.medium w.memory (block * blockBytes) data bytes }
        else w := by
  have hplace : block * sectorsPerBlock * sectorBytes = block * blockBytes := by
    rw [Nat.mul_assoc]
    rfl
  unfold perform
  simp only [hplace]

theorem keep_eq (h : ¬ Keeps w.faults r) : w.keep q r = w := if_neg h

theorem carry_answer (w : World β) (r : DiskRequest) (transfers status applied transferred : Nat)
    (h : f.InWords) : ∃ reply : DiskReply, reply.status = status
      ∧ carry r transfers w (f.answer status applied transferred)
        = some ({ w with faults := f }, reply) := by
  unfold Faults.answer carry
  exact ⟨_, rfl, if_pos h⟩

theorem carry_transfer {transfers : Nat} {stage : Stage}
    (h : f.InWords) (hsectors : block * sectorsPerBlock < wordRange) :
    carry r (transfers + 1) w (transfer f stage kind block data bytes)
      = carry r transfers
          (perform { w with faults := f } ⟨kind, block * sectorsPerBlock, data, bytes⟩)
          (resume f r true stage) := by
  unfold transfer
  rw [if_pos hsectors]
  exact if_pos h

/-- A request is served, and this is what was done. -/
def Handles (q : Queue) (w : World β) (r : DiskRequest) : Prop :=
  ∃ w' reply, handle q w r = some (w', reply) ∧ Does q w r w' reply

theorem handle_eq (hq : q.Granted) (hr : r.bufferBlock < 2 ^ 32) (hkeeps : ¬ Keeps w.faults r) :
    handle q w r = carry r 2 w (serve q w.faults r) := by
  have hdata : r.data q < wordRange := by
    have hiobuf := hq.iobuf
    unfold DiskRequest.data
    simp only [wordRange, blockBytes, iobufPages] at *
    omega
  unfold handle
  rw [if_pos hdata, keep_eq hkeeps]

theorem handles_answer (hq : q.Granted) (hr : r.bufferBlock < 2 ^ 32) (hw : w.Sound)
    (hkeeps : ¬ Keeps w.faults r) (status applied : Nat)
    (hserve : serve q w.faults r = w.faults.answer status applied 0)
    (hno : r.op = opRead ∨ r.op = opWrite ∨ r.op = opFlush → status ≠ statusOk) :
    Handles q w r := by
  obtain ⟨reply, hstatus, hcarry⟩ := carry_answer w r 2 status applied 0 hw.words
  refine ⟨w, reply, ?_, ?_⟩
  · rw [handle_eq hq hr hkeeps, hserve, hcarry]
  · rw [← hstatus] at hno
    refine ⟨hw, ?_, ?_, ?_, ?_⟩
    · intro hop hok
      exact absurd hok (hno (.inr (.inl hop)))
    · rw [if_neg fun h => hno (.inr (.inl h.1)) h.2]
    · intro hop hok
      exact absurd hok (hno (.inr (.inr hop)))
    · intro hop hok
      exact absurd hok (hno (.inl hop))

theorem handles_read (hq : q.Granted) (hr : r.bufferBlock < 2 ^ 32) (hw : w.Sound)
    (hop : r.op = opRead) (hb : r.bounded) (hsectors : r.block * sectorsPerBlock < wordRange)
    (hclear : Session.Clear w.faults r) : Handles q w r := by
  have hkeeps : ¬ Keeps w.faults r := fun h => absurd (hop.symm.trans h.1) (by decide)
  have hserve : serve q w.faults r
      = transfer w.faults .read blkIn r.block (r.data q) r.bytes := by
    unfold serve
    rw [if_pos hop, if_neg (not_not_intro hb)]
  -- the memory but not the medium is written
  let w' := { w with memory := move w.memory w.medium (r.data q) (r.block * blockBytes) r.bytes }
  obtain ⟨reply, hstatus, hcarry⟩ := carry_answer w' r 1 statusOk faultNone r.count hw.words
  have hnot : r.op ≠ opWrite := fun h => absurd (hop.symm.trans h) (by decide)
  have hview : w'.view q = w.view q := by
    cases hheld : w.faults.held with
    | none => rw [view_none hheld, view_none (w := w') hheld]
    | some b =>
      rw [view_some hheld, view_some (w := w') hheld]
      refine move_congr fun k hk => ?_
      rw [(hw.held b hheld).1, Nat.one_mul] at hk
      exact move_apart (apart_held hq hb).symm hk
  refine ⟨w', reply, ?_, ⟨hw.unlatched, hw.words, hw.held⟩, ?_, ?_, ?_, ?_⟩
  · rw [handle_eq hq hr hkeeps, hserve, carry_transfer hw.words hsectors, perform_sectors,
      if_pos rfl]
    exact hcarry
  · intro h
    exact absurd h hnot
  · rw [if_neg fun h => hnot h.1, hview]
  · intro h
    exact absurd (hop.symm.trans h) (by decide)
  · intro _ _ k hk
    calc w'.memory (r.data q + k)
      _ = w.medium (r.block * blockBytes + k) := move_inside hk
      _ = w.view q (r.block * blockBytes + k) := by
        cases hheld : w.faults.held with
        | none => rw [view_none hheld]
        | some b =>
          have hone := (hw.held b hheld).1
          have hfar := hclear b hheld
          unfold DiskRequest.bytes at hk
          rw [view_some hheld, hone, Nat.one_mul]
          exact (move_apart (by simp only [blockBytes] at *; omega) hk).symm

theorem handles_issue (hq : q.Granted) (hr : r.bufferBlock < 2 ^ 32) (hw : w.Sound)
    (hop : r.op = opWrite) (hb : r.bounded) (hmode : r.faultMode = faultNone)
    (hsectors : r.block * sectorsPerBlock < wordRange) (hclear : Session.Clear w.faults r)
    (hroom : w.faults.writesIssued + 1 < wordRange
      ∧ w.faults.sectorsWritten + r.count * sectorsPerBlock < wordRange) : Handles q w r := by
  have hkeeps : ¬ Keeps w.faults r := by
    intro h
    exact absurd (hmode.symm.trans h.2.2.2.1) (by decide)
  have hserve : serve q w.faults r
      = transfer w.faults (.write false r.bytes) blkOut r.block (r.data q) r.bytes := by
    have hread : r.op ≠ opRead := fun h => absurd (hop.symm.trans h) (by decide)
    unfold serve writeWithFaults
    rw [if_neg hread, if_pos hop, if_neg (not_not_intro hb), if_neg (by rw [hw.unlatched]; decide),
      hmode]
    rfl
  have hsectorsWritten : r.bytes / sectorBytes = r.count * sectorsPerBlock := by
    unfold DiskRequest.bytes
    simp only [blockBytes, sectorBytes, sectorsPerBlock]
    omega
  let f' := { w.faults with
    writesIssued := w.faults.writesIssued + 1
    sectorsWritten := w.faults.sectorsWritten + r.bytes / sectorBytes }
  have hwords : f'.InWords := by
    refine ⟨hroom.1, hw.words.2.1, ?_, hw.words.2.2.2⟩
    show w.faults.sectorsWritten + r.bytes / sectorBytes < wordRange
    rw [hsectorsWritten]
    exact hroom.2
  let medium := move w.medium w.memory (r.block * blockBytes) (r.data q) r.bytes
  obtain ⟨reply, hstatus, hcarry⟩ := carry_answer { w with medium } r 1 statusOk r.faultMode
    r.count hwords
  have hview : view q { w with medium, faults := f' }
      = move (w.view q) w.memory (r.block * blockBytes) (r.data q) r.bytes := by
    cases hheld : w.faults.held with
    | none => rw [view_none hheld, view_none (w := { w with medium, faults := f' }) hheld]
    | some b =>
      have hone := (hw.held b hheld).1
      have hfar := hclear b hheld
      rw [view_some hheld, view_some (w := { w with medium, faults := f' }) hheld, hone,
        Nat.one_mul]
      refine move_comm ?_
      unfold DiskRequest.bytes
      simp only [blockBytes]
      omega
  refine ⟨{ w with medium, faults := f' }, reply, ?_, ⟨hw.unlatched, hwords, hw.held⟩, ?_, ?_, ?_,
    ?_⟩
  · rw [handle_eq hq hr hkeeps, hserve, carry_transfer hw.words hsectors, perform_sectors,
      if_neg (by decide), if_pos rfl]
    exact hcarry
  · intro _ _
    exact hb
  · rw [if_pos ⟨hop, hstatus⟩, hview]
  · intro h
    exact absurd (hop.symm.trans h) (by decide)
  · intro h
    exact absurd (hop.symm.trans h) (by decide)

theorem handles_hold (hq : q.Granted) (hr : r.bufferBlock < 2 ^ 32) (hw : w.Sound)
    (hkeeps : Keeps w.faults r) (hsectors : r.block * sectorsPerBlock < wordRange) :
    Handles q w r := by
  obtain ⟨hop, hb, hlatched, hmode, hfree⟩ := hkeeps
  obtain ⟨hcount, hheld⟩ := not_or.mp hfree
  have hnone : w.faults.held = none := by simpa using hheld
  have hone : r.bytes = blockBytes := by
    unfold DiskRequest.bytes
    rw [not_not.mp hcount, Nat.one_mul]
  let f' := { w.faults with held := some (r.block, 1) }
  have hserve : serve q w.faults r = f'.answer statusOk r.faultMode 0 := by
    have hread : r.op ≠ opRead := fun h => absurd (hop.symm.trans h) (by decide)
    unfold serve writeWithFaults
    rw [if_neg hread, if_pos hop, if_neg (not_not_intro hb), if_neg (by rw [hlatched]; decide),
      if_neg (by rw [hmode]; decide), if_neg (by rw [hmode]; decide), if_pos hmode, if_neg hfree]
  let memory := move w.memory w.memory q.heldAt (r.data q) blockBytes
  obtain ⟨reply, hstatus, hcarry⟩ := carry_answer (f := f') { w with memory } r 2 statusOk
    r.faultMode 0 hw.words
  refine ⟨{ w with memory, faults := f' }, reply, ?_, ⟨hlatched, hw.words, ?_⟩, ?_, ?_, ?_, ?_⟩
  · have hdata : r.data q < wordRange := by
      have hiobuf := hq.iobuf
      unfold DiskRequest.data
      simp only [wordRange, blockBytes, iobufPages] at *
      omega
    unfold handle keep
    rw [if_pos hdata, if_pos ⟨hop, hb, hlatched, hmode, hfree⟩, hserve]
    exact hcarry
  · rintro b ⟨⟩
    exact ⟨rfl, hsectors⟩
  · intro _ _
    exact hb
  · -- what is held is what the buffer had
    rw [if_pos ⟨hop, hstatus⟩, view_none hnone, view_some (w := { w with memory, faults := f' }) rfl,
      Nat.one_mul, hone]
    exact move_congr fun k hk => move_inside hk
  · intro h
    exact absurd (hop.symm.trans h) (by decide)
  · intro h
    exact absurd (hop.symm.trans h) (by decide)

theorem carry_flush (w : World β) (r : DiskRequest) (transfers : Nat) (hwords : f.InWords)
    (hroom : f.flushes + 1 < wordRange) : ∃ reply : DiskReply, carry r (transfers + 1) w (flush f)
      = some ({ w with faults := { f with flushes := f.flushes + 1 } }, reply) := by
  have hwords' : Faults.InWords { f with flushes := f.flushes + 1 } :=
    ⟨hwords.1, hwords.2.1, hwords.2.2.1, hroom⟩
  obtain ⟨reply, -, hcarry⟩ := carry_answer { w with faults := f } r transfers statusOk faultNone 0
    hwords'
  refine ⟨reply, ?_⟩
  unfold flush
  rw [carry_transfer hwords (by decide), perform_sectors, if_neg (by decide), if_neg (by decide)]
  exact hcarry

theorem handles_flush (hq : q.Granted) (hr : r.bufferBlock < 2 ^ 32) (hw : w.Sound)
    (hop : r.op = opFlush) (hflushes : w.faults.flushes + 1 < wordRange)
    (hroom : w.faults.held.isSome → w.faults.writesIssued + 1 < wordRange
      ∧ w.faults.sectorsWritten + sectorsPerBlock < wordRange) : Handles q w r := by
  have hread : r.op ≠ opRead := fun h => absurd (hop.symm.trans h) (by decide)
  have hwrite : r.op ≠ opWrite := fun h => absurd (hop.symm.trans h) (by decide)
  have hkeeps : ¬ Keeps w.faults r := fun h => hwrite h.1
  -- either way nothing is held afterwards, and the medium is what it was to become
  suffices ∃ f' reply, handle q w r = some (⟨f', w.memory, w.view q⟩, reply)
      ∧ f'.latched = false ∧ f'.InWords ∧ f'.held = none by
    obtain ⟨f', reply, hhandle, hlatched, hwords, hnone⟩ := this
    refine ⟨_, reply, hhandle, ⟨hlatched, hwords, ?_⟩, ?_, ?_, ?_, ?_⟩
    · rw [hnone]
      rintro b ⟨⟩
    · intro h
      exact absurd h hwrite
    · rw [if_neg fun h => hwrite h.1]
      exact view_none hnone
    · intro _ _
      exact (view_none hnone).symm
    · intro h
      exact absurd h hread
  have hserve : serve q w.faults r = match w.faults.held with
      | none => flush w.faults
      | some (block, count) =>
        transfer { w.faults with held := none } .held blkOut block q.heldAt (count * blockBytes) := by
    unfold serve
    rw [if_neg hread, if_neg hwrite, if_pos hop, if_neg (by rw [hw.unlatched]; decide)]
    rfl
  rw [handle_eq hq hr hkeeps, hserve]
  cases hheld : w.faults.held with
  | none =>
    obtain ⟨reply, hcarry⟩ := carry_flush w r 1 hw.words hflushes
    refine ⟨{ w.faults with flushes := w.faults.flushes + 1 }, reply, ?_, hw.unlatched,
      ⟨hw.words.1, hw.words.2.1, hw.words.2.2.1, hflushes⟩, hheld⟩
    rw [view_none hheld]
    exact hcarry
  | some b =>
    obtain ⟨block, count⟩ := b
    obtain ⟨hissued, hwritten⟩ := hroom (by rw [hheld]; rfl)
    have hsectors := (hw.held _ hheld).2
    let f' := { w.faults with
      held := none
      writesIssued := w.faults.writesIssued + 1
      sectorsWritten := w.faults.sectorsWritten + sectorsPerBlock }
    have hwords : f'.InWords := ⟨hissued, hw.words.2.1, hwritten, hw.words.2.2.2⟩
    obtain ⟨reply, hcarry⟩ := carry_flush ⟨{ w.faults with held := none }, w.memory, w.view q⟩ r 0
      hwords hflushes
    refine ⟨{ f' with flushes := w.faults.flushes + 1 }, reply, ?_, hw.unlatched,
      ⟨hissued, hw.words.2.1, hwritten, hflushes⟩, rfl⟩
    rw [view_some hheld] at hcarry ⊢
    show carry r (1 + 1) w (transfer _ _ _ _ _ _) = _
    rw [carry_transfer (f := { w.faults with held := none }) hw.words hsectors, perform_sectors,
      if_neg (by decide), if_pos rfl]
    exact hcarry

/-- **A clean request is served, and its answer says what was done.** -/
theorem handles (hq : q.Granted) (hr : r.bufferBlock < 2 ^ 32)
    (hmode : r.faultMode = faultNone ∨ r.faultMode = faultReorder) (hlatch : r.op ≠ opLatch)
    (hw : w.Sound) (hclean : Session.Clean w.faults r) : Handles q w r := by
  by_cases hread : r.op = opRead
  · have hkeeps : ¬ Keeps w.faults r := fun h => absurd (hread.symm.trans h.1) (by decide)
    by_cases hb : r.bounded
    · exact handles_read hq hr hw hread hb (hclean.sectors ⟨hb, .inl hread⟩)
        (hclean.clear ⟨hb, .inl hread⟩)
    · refine handles_answer hq hr hw hkeeps statusInvalid faultNone ?_
        fun _ => by decide
      unfold serve
      rw [if_pos hread, if_pos hb]
  by_cases hwrite : r.op = opWrite
  · by_cases hb : r.bounded
    · by_cases hrefused : r.faultMode = faultReorder ∧ (r.count ≠ 1 ∨ w.faults.held.isSome)
      · have hkeeps : ¬ Keeps w.faults r := fun h => h.2.2.2.2 hrefused.2
        refine handles_answer hq hr hw hkeeps statusInvalid r.faultMode ?_
          fun _ => by decide
        unfold serve writeWithFaults
        rw [if_neg hread, if_pos hwrite, if_neg (not_not_intro hb),
          if_neg (by rw [hw.unlatched]; decide), if_neg (by rw [hrefused.1]; decide),
          if_neg (by rw [hrefused.1]; decide), if_pos hrefused.1, if_pos hrefused.2]
      have hreaches : Session.Reaches w.faults r := ⟨hb, .inr ⟨hwrite, hrefused⟩⟩
      rcases hmode with hmode | hmode
      · exact handles_issue hq hr hw hwrite hb hmode (hclean.sectors hreaches)
          (hclean.clear hreaches) (hclean.room.1 hwrite hb hmode)
      · exact handles_hold hq hr hw
          ⟨hwrite, hb, hw.unlatched, hmode, fun h => hrefused ⟨hmode, h⟩⟩
          (hclean.sectors hreaches)
    · have hkeeps : ¬ Keeps w.faults r := fun h => hb h.2.1
      refine handles_answer hq hr hw hkeeps statusInvalid faultNone ?_
        fun _ => by decide
      unfold serve
      rw [if_neg hread, if_pos hwrite, if_pos hb]
  have hkeeps : ¬ Keeps w.faults r := fun h => hwrite h.1
  by_cases hflush : r.op = opFlush
  · exact handles_flush hq hr hw hflush (hclean.room.2 hflush).1 (hclean.room.2 hflush).2
  have hnone : ¬ (r.op = opRead ∨ r.op = opWrite ∨ r.op = opFlush) := by
    rintro (h | h | h)
    · exact hread h
    · exact hwrite h
    · exact hflush h
  by_cases hstats : r.op = opStats
  · refine handles_answer hq hr hw hkeeps statusOk faultNone ?_
      fun h => absurd h hnone
    unfold serve
    rw [if_neg hread, if_neg hwrite, if_neg hflush, if_neg hlatch, if_pos hstats]
  · refine handles_answer hq hr hw hkeeps statusInvalid faultNone ?_
      fun h => absurd h hnone
    unfold serve
    rw [if_neg hread, if_neg hwrite, if_neg hflush, if_neg hlatch, if_neg hstats]

theorem view_fill (hq : q.Granted) (hw : w.Sound) (pages : Nat → β) :
    (w.fill q pages).view q = w.view q := by
  cases hheld : w.faults.held with
  | none => rw [view_none hheld, view_none (w := w.fill q pages) hheld]; rfl
  | some b =>
    rw [view_some hheld, view_some (w := w.fill q pages) hheld, (hw.held b hheld).1, Nat.one_mul]
    refine move_congr fun k hk => move_apart ?_ hk
    have hapart := hq.apart
    unfold Queue.heldAt
    simp only [heldOffset, blockBytes, iobufPages] at *
    omega

theorem move_fill (h : r.bounded) (pages memory : Nat → β) (place : Nat) :
    move memory (w.fill q pages).memory place (r.data q) r.bytes
      = move memory pages place (r.bufferBlock * blockBytes) r.bytes := by
  obtain ⟨-, -, -, hlast⟩ := h
  refine move_congr fun k hk => ?_
  unfold DiskRequest.bytes at hk
  have hinside : r.bufferBlock * blockBytes + k < iobufPages * blockBytes := by
    simp only [blockBytes, iobufPages] at *
    omega
  calc (w.fill q pages).memory (r.data q + k)
    _ = (w.fill q pages).memory (q.iobufIova + (r.bufferBlock * blockBytes + k)) := by
      unfold DiskRequest.data
      rw [Nat.add_assoc]
    _ = pages (0 + (r.bufferBlock * blockBytes + k)) := move_inside hinside
    _ = pages (r.bufferBlock * blockBytes + k) := by rw [Nat.zero_add]

end World

/-! ### Runs -/

namespace Session

variable {q : Queue} {s s' : Session β} {m : Message β}

/-- What is kept along a run of clean requests. -/
structure Kept (q : Queue) (s : Session β) : Prop where
  orderly : Orderly q s
  sound : s.world.Sound
  view : s.world.view q = s.written

theorem kept_initial (h : Initial s) : Kept q s := by
  obtain ⟨hfaults, hrunning, hwritten, hlast⟩ := h
  refine ⟨⟨hrunning, ?_, ?_⟩, ⟨?_, ?_, ?_⟩, ?_⟩
  · intro r reply h
    rw [hlast] at h
    cases h
  · intro r reply h
    rw [hlast] at h
    cases h
  · rw [hfaults]
  · rw [hfaults]
    decide
  · rw [hfaults]
    rintro b ⟨⟩
  · rw [World.view_none (by rw [hfaults]), hwritten]

theorem Kept.step (hq : q.Granted) (h : Kept q s) (hm : Asked m)
    (hclean : Clean s.world.faults m.request) (hstep : step q s m = some s') : Kept q s' := by
  obtain ⟨world, reply, hhandle, hdoes⟩ := World.handles (w := s.world.fill q m.pages) hq
    hm.bufferBlock hm.mode hm.op ⟨h.sound.unlatched, h.sound.words, h.sound.held⟩ hclean
  unfold Session.step at hstep
  rw [if_neg (by rw [h.orderly.running]; decide), hhandle] at hstep
  obtain rfl := Option.some.inj hstep
  have hview : (s.world.fill q m.pages).view q = s.written :=
    (World.view_fill hq h.sound m.pages).trans h.view
  have hwritten : world.view q = record s.written m reply := by
    rw [hdoes.view, hview]
    unfold record
    split
    · rename_i hok
      exact World.move_fill (hdoes.bounded hok.1 hok.2) _ _ _
    · rfl
  refine ⟨⟨rfl, ?_, ?_⟩, hdoes.sound, hwritten⟩
  · rintro _ _ ⟨⟩ hop hok
    exact (hdoes.flushed hop hok).trans hwritten
  · rintro _ _ ⟨⟩ hop hok k hk
    have hread : m.request.op ≠ opWrite := fun hc => absurd (hop.symm.trans hc) (by decide)
    have hsame : record s.written m reply = s.written := if_neg fun hc => hread hc.1
    show world.memory (m.request.data q + k) = record s.written m reply _
    rw [hsame, ← hview]
    exact hdoes.read hop hok k hk

/-- **In a run of clean requests the medium stays one.** -/
theorem orderly_of_clean (q : Queue) (hq : q.Granted) (s : Session β)
    (h : (clean q).Reachable s) : Orderly q s := by
  suffices Kept q s from this.orderly
  refine h.invariant (fun _ => kept_initial) ?_
  rintro t m t' ht ⟨hclean, hm, hstep⟩
  exact ht.step hq hm hclean hstep

/-! ### Two runs -/

def sampleQueue : Queue := ⟨0x10000, 0x20000, 8, 0, 0, 0⟩

theorem granted_sampleQueue : sampleQueue.Granted := ⟨by decide, by decide, by decide⟩

def sampleStart : Session Nat where
  world := ⟨⟨false, none, 0, 0, 0, 0⟩, fun _ => 0, fun _ => 0⟩
  stopped := false
  written := fun _ => 0
  last := none

theorem initial_sampleStart : Initial sampleStart := ⟨rfl, rfl, rfl, rfl⟩

/-- One block, written with this byte all over. -/
def writes (mode block byte : Nat) : Message Nat :=
  ⟨⟨opWrite, mode, block, 1, 0⟩, fun _ => byte⟩

def flushes : Message Nat := ⟨⟨opFlush, faultNone, 0, 0, 0⟩, fun _ => 0⟩

def sampleAfter (messages : List (Message Nat)) : Session Nat :=
  (System.exec (step sampleQueue) messages sampleStart).getD sampleStart

/-- A write that is held, one to the next block, and a flush. -/
theorem orderly_of_clean_sample :
    Orderly sampleQueue (sampleAfter [writes faultReorder 5 1, writes faultNone 6 2, flushes])
      ∧ (sampleAfter [writes faultReorder 5 1, writes faultNone 6 2, flushes]).world.medium 20480
        = 1 := by
  refine ⟨orderly_of_clean sampleQueue granted_sampleQueue _ ?_, by decide +kernel⟩
  have hstart : (clean sampleQueue).Reachable sampleStart := .init initial_sampleStart
  have hheld : (clean sampleQueue).Reachable (sampleAfter [writes faultReorder 5 1]) :=
    hstart.step (a := writes faultReorder 5 1)
      ⟨⟨by decide +kernel, by decide +kernel, by decide +kernel⟩,
        ⟨by decide, by decide, by decide, .inr rfl, by decide⟩, rfl⟩
  have hwritten : (clean sampleQueue).Reachable
      (sampleAfter [writes faultReorder 5 1, writes faultNone 6 2]) :=
    hheld.step (a := writes faultNone 6 2)
      ⟨⟨by decide +kernel, by decide +kernel, by decide +kernel⟩,
        ⟨by decide, by decide, by decide, .inl rfl, by decide⟩, rfl⟩
  exact hwritten.step (a := flushes)
    ⟨⟨by decide +kernel, by decide +kernel, by decide +kernel⟩,
      ⟨by decide, by decide, by decide, .inl rfl, by decide⟩, rfl⟩

/-- **A write that is held is issued after a later one to its block.** -/
theorem held_write_undoes_a_later_one :
    ∃ s : Session Nat, (system sampleQueue).Reachable s ∧ ¬ Orderly sampleQueue s := by
  refine ⟨sampleAfter [writes faultReorder 5 1, writes faultNone 5 2, flushes], ?_, ?_⟩
  · have hheld : (system sampleQueue).Reachable (sampleAfter [writes faultReorder 5 1]) :=
      .step (a := writes faultReorder 5 1) (.init initial_sampleStart)
        ⟨⟨by decide, by decide, by decide, .inr rfl, by decide⟩, rfl⟩
    have hwritten : (system sampleQueue).Reachable
        (sampleAfter [writes faultReorder 5 1, writes faultNone 5 2]) :=
      hheld.step (a := writes faultNone 5 2)
        ⟨⟨by decide, by decide, by decide, .inl rfl, by decide⟩, rfl⟩
    exact hwritten.step (a := flushes)
      ⟨⟨by decide, by decide, by decide, .inl rfl, by decide⟩, rfl⟩
  · intro h
    have hmedium := congrFun (h.flushed _ _ rfl rfl rfl) 20480
    exact absurd hmedium (by decide +kernel)

end Session

end Thalyx.Disk
