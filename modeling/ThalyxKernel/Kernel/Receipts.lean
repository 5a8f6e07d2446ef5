/-
The control log: `kernel/src/ctrl.rs`.

The kernel model keeps two numbers of a control log, how many receipts it holds and how many
cells are promised (`Kernel.ControlLog`).  This is the log itself: the ring of records, their
sequence numbers, the two capacities and the counters of what could not be written.

Ordinary receipts may occupy all but eight cells and closing ones all of them.  A reservation
promises an ordinary cell, and the promise is kept because nobody else takes a cell while one
is outstanding: what writes without a reservation holds the machine exclusively, and an
admission that has reserved holds it shared.  That is the condition on the runs here.

The sequence numbers and the two counters are saturating additions, so they stop at the
largest value of their fields; `LogContract` says by two functions what a field makes of the
number it stands for.
-/
import ThalyxKernel.Lib.Ring
import ThalyxKernel.Lib.Run
import ThalyxKernel.Kernel.Authority

namespace Thalyx.Kernel.Ctrl

open List

/-! ### Receipts -/

/-- `ReceiptRecord`. -/
structure Receipt where
  schema : Nat
  kind : Nat
  sequence : Nat
  epoch : Nat
  ns : Nat
  originDomainId : Nat
  originScopeId : Nat
  objectId : Nat
  grantId : Nat
  parentInvocationId : Nat
  result : Int
  a : Nat
  b : Nat
  deriving DecidableEq, Repr

/-- `ReceiptRecord::zeroed`. -/
def Receipt.zeroed : Receipt := ⟨0, 0, 0, 0, 0, 0, 0, 0, 0, 0, 0, 0, 0⟩

/-- `RECEIPT_SCHEMA`. -/
abbrev receiptSchema : Nat := 1
/-- `receipt_kind::FENCE`. -/
abbrev receiptFence : Nat := 3
/-- `receipt_kind::RETIRE`. -/
abbrev receiptRetire : Nat := 4

/-- `is_closing`. -/
def isClosing (kind : Nat) : Bool := kind == receiptFence || kind == receiptRetire

/-! ### The log -/

/-- `ControlLog`, without what names and charges its table entry. -/
structure ControlLog where
  /-- `records`, `head` and `count`. -/
  ring : Ring Receipt controlLogCapacity
  nextSequence : Nat
  oldestSequence : Nat
  lost : Nat
  coalesced : Nat
  pendingReservations : Nat

namespace ControlLog

/-- `ControlLog::empty`. -/
def empty : ControlLog := ⟨.clear .zeroed (by decide), 1, 1, 0, 0, 0⟩

/-- `ControlLog::ordinary_capacity`. -/
abbrev ordinaryCapacity : Nat := controlLogCapacity - controlLogReserved

variable (log : ControlLog)

/-- `ControlLog::can_reserve`. -/
def canReserve : Bool := log.ring.count + log.pendingReservations < ordinaryCapacity

/-- `ControlLog::reserve`. -/
def reserve : ControlLog × Bool :=
  if !log.canReserve then (log, false)
  else ({ log with pendingReservations := log.pendingReservations + 1 }, true)

/-- `ControlLog::release_reservation`. -/
def releaseReservation : ControlLog :=
  { log with pendingReservations := log.pendingReservations - 1 }

/-- `ControlLog::push`. -/
def push (record : Receipt) : ControlLog × Bool :=
  if h : log.ring.count < controlLogCapacity then
    ({ log with
        ring := log.ring.push record h
        oldestSequence := if log.ring.count = 0 then record.sequence else log.oldestSequence },
      true)
  else (log, false)

/-- A field of the width that holds at most `top`, incremented as `saturating_add` does. -/
def saturate (top n : Nat) : Nat := min (n + 1) top

/-- The cells a receipt of a kind may occupy. -/
def limit (kind : Nat) : Nat := if isClosing kind then controlLogCapacity else ordinaryCapacity

/-- `ControlLog::write`: the log afterwards and the sequence written, zero for none. -/
def write (record : Receipt) : ControlLog × Nat :=
  if log.ring.count ≥ limit record.kind then
    if isClosing record.kind then ({ log with coalesced := saturate u32Max log.coalesced }, 0)
    else ({ log with lost := saturate u32Max log.lost }, 0)
  else
    let record := { record with schema := receiptSchema, sequence := log.nextSequence }
    let log := { log with nextSequence := saturate u64Max log.nextSequence }
    match log.push record with
    | (log, true) => (log, record.sequence)
    | (log, false) => ({ log with lost := saturate u32Max log.lost }, 0)

/-- `ControlLog::commit_reserved`. -/
def commitReserved (record : Receipt) : ControlLog × Nat := log.releaseReservation.write record

/-- `ControlLog::read` into `out`: what `out` holds afterwards and how many records were
copied. -/
def read (out : List Receipt) : List Receipt × Nat :=
  let take := min out.length log.ring.count
  ((List.range take).map (fun offset => log.ring.cells (log.ring.index offset)) ++ out.drop take,
    take)

/-- `ControlLog::acknowledge`: the log afterwards and how many records were dropped. -/
def acknowledge (sequence : Nat) : ControlLog × Nat :=
  let (ring, dropped) :=
    Ring.dropWhile (fun record => !(record.sequence > sequence)) log.ring.count log.ring
  ({ log with
      ring
      oldestSequence :=
        if ring.count = 0 then log.nextSequence else (ring.cells ring.head).sequence },
    dropped)

/-! ### What a write does -/

variable {log} {record : Receipt}

theorem limit_le (kind : Nat) : limit kind ≤ controlLogCapacity := by
  unfold limit
  split <;> decide

theorem write_refused (h : limit record.kind ≤ log.ring.count) : log.write record =
    (if isClosing record.kind then { log with coalesced := saturate u32Max log.coalesced }
      else { log with lost := saturate u32Max log.lost }, 0) := by
  unfold write
  rw [if_pos h]
  split <;> rfl

/-- The record that goes into the ring. -/
def stamped (log : ControlLog) (record : Receipt) : Receipt :=
  { record with schema := receiptSchema, sequence := log.nextSequence }

theorem write_accepted (h : log.ring.count < limit record.kind) :
    log.write record =
      ({ log with
          ring := log.ring.push (log.stamped record) (h.trans_le (limit_le _))
          nextSequence := saturate u64Max log.nextSequence
          oldestSequence :=
            if log.ring.count = 0 then log.nextSequence else log.oldestSequence },
        log.nextSequence) := by
  have hroom : log.ring.count < controlLogCapacity := h.trans_le (limit_le _)
  unfold write
  rw [if_neg (by omega)]
  simp only [push, hroom, ↓reduceDIte]
  rfl

end ControlLog

/-! ### Runs -/

/-- What can be asked of a log that changes it. -/
inductive LogCall where
  | reserve
  | releaseReservation
  | commitReserved (record : Receipt)
  | write (record : Receipt)
  | acknowledge (sequence : Nat)

/-- What a call did to a receipt: its number if it was written. -/
inductive LogEvent where
  | receipt (closing : Bool) (sequence : Nat)
  | other
  deriving DecidableEq

/-- A log and what happened to the receipts, oldest first. -/
structure LogTrace where
  log : ControlLog
  events : List LogEvent

/-- One call. -/
def LogTrace.call (s : LogTrace) : LogCall → LogTrace
  | .reserve => ⟨s.log.reserve.1, s.events ++ [.other]⟩
  | .releaseReservation => ⟨s.log.releaseReservation, s.events ++ [.other]⟩
  | .commitReserved record =>
    ⟨(s.log.commitReserved record).1,
      s.events ++ [.receipt (isClosing record.kind) (s.log.commitReserved record).2]⟩
  | .write record =>
    ⟨(s.log.write record).1,
      s.events ++ [.receipt (isClosing record.kind) (s.log.write record).2]⟩
  | .acknowledge sequence => ⟨(s.log.acknowledge sequence).1, s.events ++ [.other]⟩

/-- Nobody writes without a reservation while one is outstanding. -/
def LogCall.Disciplined (s : LogTrace) : LogCall → Prop
  | .write _ => s.log.pendingReservations = 0
  | _ => True

/-- Every run of a log. -/
def controlLog : System LogTrace LogCall where
  init s := s = ⟨.empty, []⟩
  step s call s' := s' = s.call call

/-- The runs whose writers keep the discipline. -/
def disciplinedLog : System LogTrace LogCall := controlLog.within LogCall.Disciplined

/-! ### The contract -/

/-- How many receipts have been written. -/
def written (events : List LogEvent) : Nat :=
  events.countP fun
    | .receipt _ sequence => sequence ≠ 0
    | .other => false

/-- How many receipts of a kind could not be written. -/
def unwritten (closing : Bool) (events : List LogEvent) : Nat :=
  events.countP fun e => e = .receipt closing 0

/-- What a log promises, where `sequence` and `counter` say what a field makes of a number. -/
structure LogContract (sequence counter : Nat → Nat) (s : LogTrace) : Prop where
  /-- A reservation is a cell. -/
  covered : 0 < s.log.pendingReservations → ∀ record, (s.log.commitReserved record).2 ≠ 0
  next : s.log.nextSequence = sequence (written s.events + 1)
  /-- The live records are the last ones written. -/
  numbered : s.log.ring.contents.map Receipt.sequence =
    (List.range' (written s.events + 1 - s.log.ring.count) s.log.ring.count).map sequence
  oldest : s.log.oldestSequence =
    (s.log.ring.contents.head?.map Receipt.sequence).getD s.log.nextSequence
  /-- A reader is given the oldest records first. -/
  reads : ∀ out, s.log.read out =
    (s.log.ring.contents.take out.length ++ out.drop s.log.ring.count,
      min out.length s.log.ring.count)
  /-- An acknowledgement drops the records up to its sequence. -/
  acknowledges : ∀ upTo, (s.log.acknowledge upTo).1.ring.contents =
      s.log.ring.contents.filter (fun record => upTo < record.sequence) ∧
    (s.log.acknowledge upTo).2 =
      (s.log.ring.contents.filter fun record => record.sequence ≤ upTo).length
  /-- A closing receipt is folded into the counter only when every cell is live. -/
  coalesces : ∀ call, (s.call call).log.coalesced ≠ s.log.coalesced →
    s.log.ring.count = controlLogCapacity
  lost : s.log.lost = counter (unwritten false s.events)
  coalesced : s.log.coalesced = counter (unwritten true s.events)

/-! ### The invariant -/

/-- What every disciplined run keeps. -/
structure LogTrace.Consistent (s : LogTrace) : Prop where
  room : 0 < s.log.pendingReservations →
    s.log.ring.count + s.log.pendingReservations ≤ ControlLog.ordinaryCapacity
  next : s.log.nextSequence = min (written s.events + 1) u64Max
  live : s.log.ring.count ≤ written s.events
  numbered : s.log.ring.contents.map Receipt.sequence =
    (List.range' (written s.events + 1 - s.log.ring.count) s.log.ring.count).map (min · u64Max)
  oldest : s.log.oldestSequence =
    (s.log.ring.contents.head?.map Receipt.sequence).getD s.log.nextSequence
  lost : s.log.lost = min (unwritten false s.events) u32Max
  coalesced : s.log.coalesced = min (unwritten true s.events) u32Max

namespace LogTrace.Consistent

variable {log : ControlLog} {events : List LogEvent} {record : Receipt}

@[simp] theorem written_other : written (events ++ [.other]) = written events := by
  simp [written]

@[simp] theorem unwritten_other (closing : Bool) :
    unwritten closing (events ++ [.other]) = unwritten closing events := by
  simp [unwritten]

theorem start : LogTrace.Consistent ⟨.empty, []⟩ where
  room := fun h => absurd h (by simp [ControlLog.empty])
  next := rfl
  live := le_refl 0
  numbered := rfl
  oldest := rfl
  lost := rfl
  coalesced := rfl

theorem reserved (hc : LogTrace.Consistent ⟨log, events⟩) {pending : Nat}
    (hroom : 0 < pending → log.ring.count + pending ≤ ControlLog.ordinaryCapacity) :
    LogTrace.Consistent ⟨{ log with pendingReservations := pending }, events⟩ :=
  { hc with room := hroom }

theorem released (hc : LogTrace.Consistent ⟨log, events⟩) :
    LogTrace.Consistent ⟨log.releaseReservation, events⟩ := by
  apply hc.reserved
  intro hpending
  have hmore : 0 < log.pendingReservations := Nat.zero_lt_of_lt (Nat.lt_of_sub_pos hpending)
  have hroom : log.ring.count + log.pendingReservations ≤ _ := hc.room hmore
  omega

theorem other (hc : LogTrace.Consistent ⟨log, events⟩) :
    LogTrace.Consistent ⟨log, events ++ [.other]⟩ where
  room := hc.room
  next := by simpa using hc.next
  live := by simpa using hc.live
  numbered := by simpa using hc.numbered
  oldest := hc.oldest
  lost := by simpa using hc.lost
  coalesced := by simpa using hc.coalesced

theorem saturate_min (top n : Nat) : ControlLog.saturate top (min n top) = min (n + 1) top := by
  unfold ControlLog.saturate
  omega

theorem unwritten_refused (closing closing' : Bool) :
    unwritten closing (events ++ [.receipt closing' 0]) =
      unwritten closing events + if closing' = closing then 1 else 0 := by
  simp [unwritten, countP_append, countP_cons]

theorem refused (hc : LogTrace.Consistent ⟨log, events⟩)
    (h : ControlLog.limit record.kind ≤ log.ring.count) :
    LogTrace.Consistent ⟨(log.write record).1,
      events ++ [.receipt (isClosing record.kind) (log.write record).2]⟩ := by
  rw [ControlLog.write_refused h]
  have hwritten : ∀ closing, written (events ++ [.receipt closing 0]) = written events := by
    simp [written]
  cases hkind : isClosing record.kind with
  | true =>
    simp only [↓reduceIte]
    exact
      { room := hc.room
        next := by simpa only [hwritten] using hc.next
        live := by simpa only [hwritten] using hc.live
        numbered := by simpa only [hwritten] using hc.numbered
        oldest := hc.oldest
        lost := by simpa [unwritten_refused] using hc.lost
        coalesced := by
          have hold : log.coalesced = min (unwritten true events) u32Max := hc.coalesced
          simp only [unwritten_refused, ↓reduceIte, hold, saturate_min] }
  | false =>
    simp only [Bool.false_eq_true, ↓reduceIte]
    exact
      { room := hc.room
        next := by simpa only [hwritten] using hc.next
        live := by simpa only [hwritten] using hc.live
        numbered := by simpa only [hwritten] using hc.numbered
        oldest := hc.oldest
        lost := by
          have hold : log.lost = min (unwritten false events) u32Max := hc.lost
          simp only [unwritten_refused, ↓reduceIte, hold, saturate_min]
        coalesced := by simpa [unwritten_refused] using hc.coalesced }

theorem accepted (hc : LogTrace.Consistent ⟨log, events⟩)
    (h : log.ring.count < ControlLog.limit record.kind) (hroom : 0 < log.pendingReservations →
      log.ring.count + log.pendingReservations < ControlLog.ordinaryCapacity) :
    LogTrace.Consistent ⟨(log.write record).1,
      events ++ [.receipt (isClosing record.kind) (log.write record).2]⟩ := by
  rw [ControlLog.write_accepted h]
  have hnext : log.nextSequence = min (written events + 1) u64Max := hc.next
  have hlive : log.ring.count ≤ written events := hc.live
  have hpos : log.nextSequence ≠ 0 := by
    rw [hnext]
    simp only [u64Max]
    omega
  have hwritten : ∀ closing, written (events ++ [.receipt closing log.nextSequence]) =
      written events + 1 := by
    intro closing
    simp [written, countP_append, hpos]
  have hunwritten : ∀ closing closing',
      unwritten closing (events ++ [.receipt closing' log.nextSequence]) =
        unwritten closing events := by
    intro closing closing'
    simp [unwritten, countP_append, hpos]
  have hcontents := log.ring.contents_push (log.stamped record)
    (h.trans_le (ControlLog.limit_le _))
  refine
    { room := ?_
      next := ?_
      live := ?_
      numbered := ?_
      oldest := ?_
      lost := ?_
      coalesced := ?_ }
  · intro hpending
    have hless := hroom hpending
    show log.ring.count + 1 + log.pendingReservations ≤ ControlLog.ordinaryCapacity
    omega
  · simp only [hwritten]
    rw [hnext, saturate_min]
  · simp only [hwritten]
    show log.ring.count + 1 ≤ written events + 1
    omega
  · simp only [hwritten, hcontents, map_append, map_cons, map_nil]
    show _ = (List.range' (written events + 1 + 1 - (log.ring.count + 1))
      (log.ring.count + 1)).map (min · u64Max)
    have hfirst : written events + 1 + 1 - (log.ring.count + 1) =
        written events + 1 - log.ring.count := by omega
    have hlast : written events + 1 - log.ring.count + log.ring.count = written events + 1 := by
      omega
    have hold : log.ring.contents.map Receipt.sequence = _ := hc.numbered
    rw [hfirst, range'_concat, map_append, hold, Nat.one_mul, hlast]
    congr 1
    simp only [map_cons, map_nil, ← hnext]
    rfl
  · simp only [hcontents]
    by_cases hzero : log.ring.count = 0
    · have hempty : log.ring.contents = [] := List.length_eq_zero_iff.mp (by simpa using hzero)
      simp only [hzero, ↓reduceIte, hempty]
      rfl
    · have hold : log.oldestSequence = _ := hc.oldest
      obtain ⟨first, rest, hcons⟩ : ∃ first rest, log.ring.contents = first :: rest :=
        exists_cons_of_length_pos (by rw [Ring.length_contents]; omega)
      simp only [hzero, ↓reduceIte, hold, hcons]
      rfl
  · simpa only [hunwritten] using hc.lost
  · simpa only [hunwritten] using hc.coalesced

theorem wrote (hc : LogTrace.Consistent ⟨log, events⟩) (record : Receipt)
    (hroom : 0 < log.pendingReservations →
      log.ring.count + log.pendingReservations < ControlLog.ordinaryCapacity) :
    LogTrace.Consistent ⟨(log.write record).1,
      events ++ [.receipt (isClosing record.kind) (log.write record).2]⟩ := by
  by_cases h : log.ring.count < ControlLog.limit record.kind
  · exact hc.accepted h hroom
  · exact hc.refused (Nat.le_of_not_lt h)

theorem ascending {s : LogTrace} (hc : s.Consistent) :
    s.log.ring.contents.Pairwise fun x y => x.sequence ≤ y.sequence := by
  rw [← pairwise_map (f := Receipt.sequence) (R := fun x y => x ≤ y), hc.numbered,
    pairwise_map]
  refine List.Pairwise.imp ?_ (pairwise_lt_range' (s := _) (n := _))
  intro x y hlt
  exact min_le_min_right u64Max (le_of_lt hlt)

end LogTrace.Consistent

/-! ### Acknowledgements and reads -/

section Acknowledge

theorem takeWhile_eq_filter {l : List Receipt} (upTo : Nat)
    (h : l.Pairwise fun x y => x.sequence ≤ y.sequence) :
    l.takeWhile (fun record => !(record.sequence > upTo)) =
        l.filter (fun record => record.sequence ≤ upTo) ∧
      l.dropWhile (fun record => !(record.sequence > upTo)) =
        l.filter fun record => upTo < record.sequence := by
  induction l with
  | nil => exact ⟨rfl, rfl⟩
  | cons x rest ih =>
    obtain ⟨hfirst, hrest⟩ := List.pairwise_cons.mp h
    obtain ⟨htake, hdrop⟩ := ih hrest
    by_cases hx : x.sequence ≤ upTo
    · have hpast : ¬ upTo < x.sequence := Nat.not_lt.mpr hx
      simp [hx, hpast, ← htake, ← hdrop]
    · have hpast : upTo < x.sequence := Nat.lt_of_not_le hx
      have hall : ∀ y ∈ rest, upTo < y.sequence := fun y hy => hpast.trans_le (hfirst y hy)
      have hnone : rest.filter (fun record => record.sequence ≤ upTo) = [] := by
        simpa using hall
      have hsome : rest.filter (fun record => upTo < record.sequence) = rest := by
        simpa using hall
      simp [hx, hpast, hnone, hsome]

variable {s : LogTrace}

theorem acknowledge_contents (hc : s.Consistent) (upTo : Nat) :
    (s.log.acknowledge upTo).1.ring.contents =
        s.log.ring.contents.filter (fun record => upTo < record.sequence) ∧
      (s.log.acknowledge upTo).2 =
        (s.log.ring.contents.filter fun record => record.sequence ≤ upTo).length := by
  obtain ⟨hcontents, hdropped⟩ := Ring.dropWhile_spec
    (fun record : Receipt => !(record.sequence > upTo)) s.log.ring.count s.log.ring (le_refl _)
  obtain ⟨htake, hdrop⟩ := takeWhile_eq_filter upTo hc.ascending
  exact ⟨hcontents.trans hdrop, hdropped.trans (by rw [htake])⟩

theorem read_contents (log : ControlLog) (out : List Receipt) :
    log.read out = (log.ring.contents.take out.length ++ out.drop log.ring.count,
      min out.length log.ring.count) := by
  have htake : (List.range (min out.length log.ring.count)).map
      (fun offset => log.ring.cells (log.ring.index offset)) =
        log.ring.contents.take out.length := by
    unfold Ring.contents
    rw [← map_take, take_range]
  have hdrop : out.drop (min out.length log.ring.count) = out.drop log.ring.count := by
    rcases Nat.le_total out.length log.ring.count with hle | hle
    · rw [Nat.min_eq_left hle, drop_length, drop_eq_nil_of_le hle]
    · rw [Nat.min_eq_right hle]
  unfold ControlLog.read
  simp only [htake, hdrop]

end Acknowledge

namespace LogTrace.Consistent

variable {log : ControlLog} {events : List LogEvent} {record : Receipt}

theorem shortened (hc : LogTrace.Consistent ⟨log, events⟩)
    {ring : Ring Receipt controlLogCapacity} (hsuffix : ring.contents <:+ log.ring.contents) :
    LogTrace.Consistent ⟨{ log with
        ring
        oldestSequence :=
          if ring.count = 0 then log.nextSequence else (ring.cells ring.head).sequence },
      events⟩ := by
  obtain ⟨front, hfront⟩ := hsuffix
  have hcount : front.length + ring.count = log.ring.count := by
    rw [← Ring.length_contents, ← Ring.length_contents, ← length_append, hfront]
  have hlive : log.ring.count ≤ written events := hc.live
  refine { hc with room := ?_, live := ?_, numbered := ?_, oldest := ?_ }
  · intro hpending
    have hroom : log.ring.count + log.pendingReservations ≤ _ := hc.room hpending
    show ring.count + log.pendingReservations ≤ ControlLog.ordinaryCapacity
    omega
  · show ring.count ≤ written events
    omega
  · show ring.contents.map Receipt.sequence =
      (List.range' (written events + 1 - ring.count) ring.count).map (min · u64Max)
    have hold : log.ring.contents.map Receipt.sequence = _ := hc.numbered
    have hstart : written events + 1 - ring.count =
        written events + 1 - log.ring.count + front.length := by omega
    rw [← hfront, ← hcount, ← range'_append_1, map_append, map_append,
      hcount] at hold
    rw [hstart]
    exact append_inj_right hold (by simp)
  · show (if ring.count = 0 then log.nextSequence else (ring.cells ring.head).sequence) = _
    by_cases hzero : ring.count = 0
    · have hempty : ring.contents = [] := List.length_eq_zero_iff.mp (by simpa using hzero)
      simp only [hzero, ↓reduceIte, hempty]
      rfl
    · have hcons := ring.contents_drop (Nat.pos_of_ne_zero hzero)
      simp only [hzero, ↓reduceIte, hcons]
      rfl

theorem acknowledged (hc : LogTrace.Consistent ⟨log, events⟩) (upTo : Nat) :
    LogTrace.Consistent ⟨(log.acknowledge upTo).1, events⟩ := by
  obtain ⟨hcontents, -⟩ := Ring.dropWhile_spec
    (fun record : Receipt => !(record.sequence > upTo)) log.ring.count log.ring (le_refl _)
  apply hc.shortened
  rw [hcontents]
  exact dropWhile_suffix _

theorem call {s : LogTrace} (hc : s.Consistent) (c : LogCall) (hok : c.Disciplined s) :
    (s.call c).Consistent := by
  obtain ⟨log, events⟩ := s
  cases c with
  | reserve =>
    apply LogTrace.Consistent.other
    unfold ControlLog.reserve
    by_cases hcan : log.canReserve = true
    · simp only [hcan, Bool.not_true, Bool.false_eq_true, ↓reduceIte]
      apply hc.reserved
      intro _
      have hless : log.ring.count + log.pendingReservations < ControlLog.ordinaryCapacity :=
        of_decide_eq_true hcan
      omega
    · simp only [hcan, Bool.not_false, ↓reduceIte]
      exact hc
  | releaseReservation =>
    apply LogTrace.Consistent.other
    exact hc.released
  | commitReserved record =>
    apply hc.released.wrote record
    intro hpending
    have hmore : 0 < log.pendingReservations := Nat.zero_lt_of_lt (Nat.lt_of_sub_pos hpending)
    have hroom : log.ring.count + log.pendingReservations ≤ _ := hc.room hmore
    show log.ring.count + (log.pendingReservations - 1) < ControlLog.ordinaryCapacity
    omega
  | write record =>
    apply hc.wrote record
    intro hpending
    have hnone : log.pendingReservations = 0 := hok
    omega
  | acknowledge upTo =>
    apply LogTrace.Consistent.other
    exact hc.acknowledged upTo

end LogTrace.Consistent

theorem consistent_of_reachable {s : LogTrace} (h : disciplinedLog.Reachable s) : s.Consistent := by
  apply h.invariant
  · rintro s rfl
    exact .start
  · rintro s c s' hc ⟨hok, rfl⟩
    exact hc.call c hok

/-! ### The contract holds, up to the width of the fields -/

section Contract

variable {s : LogTrace}

theorem commit_covered (hc : s.Consistent) (hpending : 0 < s.log.pendingReservations)
    (record : Receipt) : (s.log.commitReserved record).2 ≠ 0 := by
  have hroom := hc.room hpending
  have hless : s.log.releaseReservation.ring.count < ControlLog.limit record.kind := by
    show s.log.ring.count < _
    unfold ControlLog.limit
    split
    · have hcapacity : ControlLog.ordinaryCapacity ≤ controlLogCapacity := by decide
      omega
    · omega
  unfold ControlLog.commitReserved
  rw [ControlLog.write_accepted hless]
  show s.log.nextSequence ≠ 0
  rw [hc.next]
  simp only [u64Max]
  omega

theorem write_coalesced {log : ControlLog} {record : Receipt}
    (h : (log.write record).1.coalesced ≠ log.coalesced) : log.ring.count = controlLogCapacity := by
  have hle := log.ring.count_le
  by_cases hroom : log.ring.count < ControlLog.limit record.kind
  · rw [ControlLog.write_accepted hroom] at h
    exact absurd rfl h
  · rw [ControlLog.write_refused (Nat.le_of_not_lt hroom)] at h
    cases hkind : isClosing record.kind with
    | false =>
      simp only [hkind, Bool.false_eq_true, ↓reduceIte] at h
      exact absurd rfl h
    | true =>
      simp only [ControlLog.limit, hkind, ↓reduceIte] at hroom
      omega

theorem call_coalesced (s : LogTrace) (c : LogCall)
    (h : (s.call c).log.coalesced ≠ s.log.coalesced) : s.log.ring.count = controlLogCapacity := by
  cases c with
  | reserve =>
    refine absurd ?_ h
    show s.log.reserve.1.coalesced = _
    unfold ControlLog.reserve
    split <;> rfl
  | releaseReservation => exact absurd rfl h
  | commitReserved record => exact @write_coalesced s.log.releaseReservation record h
  | write record => exact write_coalesced h
  | acknowledge upTo => exact absurd rfl h

/-- **In every run whose writers keep the discipline the log keeps its contract**, with sequence
numbers and counters that stop at the largest value of their fields. -/
theorem controlLog_contract {s : LogTrace} (h : disciplinedLog.Reachable s) :
    LogContract (min · u64Max) (min · u32Max) s := by
  have hc := consistent_of_reachable h
  exact
    { covered := fun hpending => commit_covered hc hpending
      next := hc.next
      numbered := hc.numbered
      oldest := hc.oldest
      reads := read_contents s.log
      acknowledges := acknowledge_contents hc
      coalesces := call_coalesced s
      lost := hc.lost
      coalesced := hc.coalesced }

end Contract

/-- A reservation and the receipt it pays for. -/
theorem controlLog_contract_admission :
    ∃ s, disciplinedLog.Reachable s ∧ s.log.ring.count = 1 ∧
      LogContract (min · u64Max) (min · u32Max) s := by
  have hstart : disciplinedLog.Reachable ⟨.empty, []⟩ := .init rfl
  have hreserve : LogCall.Disciplined ⟨.empty, []⟩ .reserve := trivial
  have hreserved := hstart.step (a := .reserve) ⟨hreserve, rfl⟩
  have hcommit : LogCall.Disciplined (LogTrace.call ⟨.empty, []⟩ .reserve)
    (.commitReserved .zeroed) := trivial
  have hcommitted := hreserved.step (a := .commitReserved .zeroed) ⟨hcommit, rfl⟩
  exact ⟨_, hcommitted, by decide, controlLog_contract hcommitted⟩

/-- A log after `n` ordinary receipts that nobody acknowledged. -/
def notes : Nat → LogTrace
  | 0 => ⟨.empty, []⟩
  | n + 1 => (notes n).call (.write .zeroed)

theorem notes_reachable (n : Nat) :
    disciplinedLog.Reachable (notes n) ∧ (notes n).log.pendingReservations = 0 := by
  induction n with
  | zero => exact ⟨.init rfl, rfl⟩
  | succ n ih =>
    obtain ⟨hreachable, hpending⟩ := ih
    refine ⟨hreachable.step (a := .write .zeroed) ⟨hpending, rfl⟩, ?_⟩
    show ((notes n).log.write .zeroed).1.pendingReservations = 0
    rw [← hpending]
    by_cases hroom : (notes n).log.ring.count < ControlLog.limit Receipt.zeroed.kind
    · rw [ControlLog.write_accepted hroom]
    · rw [ControlLog.write_refused (Nat.le_of_not_lt hroom)]
      rfl

theorem notes_unwritten (n : Nat) :
    (notes n).log.ring.count ≤ ControlLog.ordinaryCapacity ∧
      (notes n).log.ring.count + unwritten false (notes n).events = n := by
  induction n with
  | zero => exact ⟨Nat.zero_le _, rfl⟩
  | succ n ih =>
    obtain ⟨hcapacity, hsum⟩ := ih
    have hlimit : ControlLog.limit Receipt.zeroed.kind = ControlLog.ordinaryCapacity := rfl
    have hc := consistent_of_reachable (notes_reachable n).1
    have hpos : (notes n).log.nextSequence ≠ 0 := by
      rw [hc.next]
      simp only [u64Max]
      omega
    show ((notes n).log.write .zeroed).1.ring.count ≤ _ ∧
      ((notes n).log.write .zeroed).1.ring.count +
        unwritten false ((notes n).events ++
          [.receipt false ((notes n).log.write .zeroed).2]) = n + 1
    by_cases hroom : (notes n).log.ring.count < ControlLog.limit Receipt.zeroed.kind
    · rw [ControlLog.write_accepted hroom]
      have hsame : unwritten false ((notes n).events ++
          [.receipt false (notes n).log.nextSequence]) = unwritten false (notes n).events := by
        simp [unwritten, countP_append, hpos]
      rw [hsame]
      show (notes n).log.ring.count + 1 ≤ _ ∧ (notes n).log.ring.count + 1 + _ = n + 1
      omega
    · rw [ControlLog.write_refused (Nat.le_of_not_lt hroom)]
      have hone := @LogTrace.Consistent.unwritten_refused (notes n).events false false
      simp only [↓reduceIte] at hone
      show (notes n).log.ring.count ≤ _ ∧ (notes n).log.ring.count + _ = n + 1
      rw [hone]
      omega

theorem notes_not_exact {n : Nat} (hn : ControlLog.ordinaryCapacity + 2 ^ 32 ≤ n) :
    ¬ LogContract id id (notes n) := by
  obtain ⟨hcapacity, hsum⟩ := notes_unwritten n
  have hlost := (consistent_of_reachable (notes_reachable n).1).lost
  intro hcontract
  have hexact : (notes n).log.lost = unwritten false (notes n).events := hcontract.lost
  have hmax : u32Max < 2 ^ 32 := by decide
  omega

/-- **The counters are not exact for good**: 2^32 ordinary receipts that find no cell are
counted as one fewer. -/
theorem controlLog_saturates :
    disciplinedLog.Reachable (notes (ControlLog.ordinaryCapacity + 2 ^ 32)) ∧
      ¬ LogContract id id (notes (ControlLog.ordinaryCapacity + 2 ^ 32)) :=
  ⟨(notes_reachable _).1, notes_not_exact (Nat.le_refl _)⟩

/-! ### What the kernel model keeps of a log -/

end Thalyx.Kernel.Ctrl
