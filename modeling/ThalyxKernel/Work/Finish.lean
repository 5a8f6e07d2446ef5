/-
The end of a run: `report_finish` of `user/nhacer/main.c`.

The runtime puts a record of the run in front of the text of what the program returned, in a
buffer on its stack, and hands both to the work with one host call.  The text alone is held
against the size of the channel, the buffer is no longer than the channel, and `host_call`
refuses what is longer.

So a text that leaves no room for the record is written past the end of the buffer, and its
call is refused.  `Arrives` is what the report is for, and it holds exactly of the other texts.
-/
import ThalyxKernel.Work.Binding
import ThalyxKernel.Lib.Layout

namespace Thalyx.Work

open RunMetrics

variable {D : Type}

/-! ### The report -/

/-- `Machine`, as far as the report reads it. -/
structure Ended where
  requests : Nat
  validations : Nat
  observations : Nat
  assertions : Nat
  inferences : Nat
  answerBytes : Nat
  startedNs : Nat
  finish : Nat
  deriving DecidableEq, Repr

/-- The size of `k5_run_metrics`. -/
def metricsSize : Nat := 48

/-- The bytes of `k5_run_metrics`. -/
def RunMetrics.bytes (metrics : RunMetrics) : Bytes :=
  littleEndian 4 metrics.requests ++ littleEndian 4 metrics.validations
    ++ littleEndian 4 metrics.observations ++ littleEndian 4 metrics.assertions
    ++ littleEndian 4 metrics.inferences ++ littleEndian 4 metrics.finish
    ++ littleEndian 8 metrics.answerBytes ++ littleEndian 8 metrics.returnedBytes
    ++ littleEndian 8 metrics.wallNs

/-- What `report_finish` writes, and what it sends. -/
structure Finishing where
  metrics : RunMetrics
  /-- What is copied into the buffer, and to which offset. -/
  writes : List (Nat × Bytes)
  requestLen : Nat

/-- `len`, once it was held against the size of the channel. -/
def reported (text : Bytes) : Nat :=
  if channelRequestMax < text.length then 0 else text.length

/-- `report_finish`, up to the host call.  `text` is what `JS_JSONStringify` and
`JS_ToCStringLen` make of the program's value, if they make anything of it. -/
def Ended.reportFinish (m : Ended) (nowNs : Nat) (text : Option Bytes) : Finishing :=
  let len := reported (text.getD [])
  let metrics : RunMetrics :=
    { requests := m.requests % 2 ^ 32
      validations := m.validations % 2 ^ 32
      observations := m.observations % 2 ^ 32
      assertions := m.assertions % 2 ^ 32
      inferences := m.inferences % 2 ^ 32
      finish :=
        if channelRequestMax < (text.getD []).length then finishExhausted else m.finish % 2 ^ 32
      answerBytes := m.answerBytes % 2 ^ 64
      returnedBytes := len
      wallNs := (nowNs + (2 ^ 64 - m.startedNs % 2 ^ 64)) % 2 ^ 64 }
  { metrics
    writes := (0, metrics.bytes) ::
      if text.isSome ∧ 0 < len then [(metricsSize, (text.getD []).take len)] else []
    requestLen := metricsSize + len }

/-- The request is written inside its buffer. -/
def Finishing.Inside (f : Finishing) : Prop :=
  ∀ write ∈ f.writes, write.1 + write.2.length ≤ channelRequestMax

/-- `memcpy` into a buffer. -/
def copyTo (buffer : Bytes) (write : Nat × Bytes) : Bytes :=
  buffer.take write.1 ++ write.2 ++ buffer.drop (write.1 + write.2.length)

/-- `host_call` with `FINISH`, and the turn the work takes for it.  `stack` is what the buffer
held before, `leftover` what the region held behind the request. -/
def Finishing.hostCall (sha : Sha D) (f : Finishing) (stack : Vector UInt8 channelRequestMax)
    (s : Loop D) (leftover : Bytes) (tool : ToolRun D) : Option (Loop D × Bool) :=
  if channelRequestMax < f.requestLen then none
  else
    let request := (f.writes.foldl copyTo stack.toList).take f.requestLen
    some (s.turn sha (.call 7 f.requestLen (request ++ leftover) tool))

/-- The report is written inside its buffer, its call is not refused, and the work ends the run
with the metrics of the run. -/
def Arrives (sha : Sha D) (f : Finishing) (stack : Vector UInt8 channelRequestMax) (s : Loop D)
    (leftover : Bytes) (tool : ToolRun D) : Prop :=
  f.Inside ∧ f.hostCall sha stack s leftover tool
    = some ({ s with outcome := { s.outcome with metrics := f.metrics } }, true)

/-! ### The record, read back -/

theorem le_eq_fromLittleEndian (bytes : Bytes) : le bytes = fromLittleEndian bytes := by
  induction bytes with
  | nil => rfl
  | cons byte rest ih => rw [le, fromLittleEndian, ih]

theorem le_littleEndian (width n : Nat) : le (littleEndian width n) = n % 256 ^ width := by
  rw [le_eq_fromLittleEndian, fromLittleEndian_littleEndian]

theorem RunMetrics.length_bytes (metrics : RunMetrics) : metrics.bytes.length = metricsSize := by
  simp [RunMetrics.bytes, metricsSize]

/-- Every field of the record fits its width. -/
structure RunMetrics.Fits (metrics : RunMetrics) : Prop where
  requests : metrics.requests < 2 ^ 32
  validations : metrics.validations < 2 ^ 32
  observations : metrics.observations < 2 ^ 32
  assertions : metrics.assertions < 2 ^ 32
  inferences : metrics.inferences < 2 ^ 32
  finish : metrics.finish < 2 ^ 32
  answerBytes : metrics.answerBytes < 2 ^ 64
  returnedBytes : metrics.returnedBytes < 2 ^ 64
  wallNs : metrics.wallNs < 2 ^ 64

theorem RunMetrics.readFrom_bytes {metrics : RunMetrics} (hfits : metrics.Fits) (rest : Bytes) :
    RunMetrics.readFrom (metrics.bytes ++ rest) = some metrics := by
  have hlen : ¬ (metrics.bytes ++ rest).length < 48 := by
    rw [List.length_append, length_bytes]
    unfold metricsSize
    omega
  have hword4 : ∀ {n : Nat} {tail : Bytes}, n < 2 ^ 32 →
      le ((littleEndian 4 n ++ tail).take 4) = n := by
    intro n tail hn
    rw [List.take_left' (length_littleEndian 4 n), le_littleEndian]
    exact Nat.mod_eq_of_lt hn
  have hword8 : ∀ {n : Nat} {tail : Bytes}, n < 2 ^ 64 →
      le ((littleEndian 8 n ++ tail).take 8) = n := by
    intro n tail hn
    rw [List.take_left' (length_littleEndian 8 n), le_littleEndian]
    exact Nat.mod_eq_of_lt hn
  have hskip : ∀ {width n offset : Nat} {tail : Bytes}, width ≤ offset →
      (littleEndian width n ++ tail).drop offset = tail.drop (offset - width) := by
    intro width n offset tail hle
    rw [List.drop_append, length_littleEndian,
      List.drop_eq_nil_of_le (by simpa using hle), List.nil_append]
  unfold RunMetrics.readFrom
  rw [if_neg hlen]
  simp only [RunMetrics.bytes, List.append_assoc, hskip, Nat.reduceLeDiff, Nat.reduceSub,
    List.drop_zero, hword4, hword8, hfits.requests, hfits.validations, hfits.observations,
    hfits.assertions, hfits.inferences, hfits.finish, hfits.answerBytes, hfits.returnedBytes,
    hfits.wallNs, Nat.le_refl]

/-! ### Which reports arrive -/

/-- The text leaves no room for the record in front of it, and is no longer than the channel. -/
def LeavesNoRoom (text : Bytes) : Prop :=
  channelRequestMax - metricsSize < text.length ∧ text.length ≤ channelRequestMax

instance (text : Bytes) : Decidable (LeavesNoRoom text) := inferInstanceAs (Decidable (_ ∧ _))

theorem reported_le (text : Bytes) : reported text ≤ text.length := by
  unfold reported
  split
  · exact Nat.zero_le _
  · exact Nat.le_refl _

theorem reported_room_iff (text : Bytes) :
    metricsSize + reported text ≤ channelRequestMax ↔ ¬ LeavesNoRoom text := by
  unfold reported LeavesNoRoom metricsSize channelRequestMax
  split <;> omega

theorem reportFinish_fits (m : Ended) (nowNs : Nat) (text : Option Bytes) :
    (m.reportFinish nowNs text).metrics.Fits := by
  have hmod : ∀ n k : Nat, n % 2 ^ k < 2 ^ k := fun n k => Nat.mod_lt _ (Nat.two_pow_pos k)
  refine ⟨hmod _ _, hmod _ _, hmod _ _, hmod _ _, hmod _ _, ?_, hmod _ _, ?_, hmod _ _⟩
  · show (if _ then finishExhausted else _) < _
    split
    · decide
    · exact hmod _ _
  · show reported _ < _
    unfold reported
    split
    · decide
    · next hshort =>
        unfold channelRequestMax at hshort
        omega

theorem reportFinish_inside_iff (m : Ended) (nowNs : Nat) (text : Option Bytes) :
    (m.reportFinish nowNs text).Inside ↔ ¬ LeavesNoRoom (text.getD []) := by
  rw [← reported_room_iff]
  unfold Ended.reportFinish Finishing.Inside
  have htake : ((text.getD []).take (reported (text.getD []))).length
      = reported (text.getD []) := by
    rw [List.length_take]
    exact Nat.min_eq_left (reported_le _)
  have hrecord : metricsSize ≤ channelRequestMax := by decide
  by_cases hwritten : text.isSome ∧ 0 < reported (text.getD [])
  · simp only [if_pos hwritten, List.forall_mem_cons, length_bytes, htake,
      List.not_mem_nil, false_implies, implies_true, and_true, Nat.zero_add]
    exact ⟨fun h => h.2, fun h => ⟨hrecord, h⟩⟩
  · have hnone : reported (text.getD []) = 0 := by
      cases text with
      | none => rfl
      | some text => simpa using hwritten
    simp only [if_neg hwritten, List.forall_mem_cons, length_bytes, List.not_mem_nil,
      false_implies, implies_true, and_true, Nat.zero_add]
    rw [hnone, Nat.add_zero]

theorem take_copyTo {n : Nat} {buffer : Bytes} {write : Nat × Bytes} (hn : n ≤ write.1)
    (hlen : write.1 ≤ buffer.length) : (copyTo buffer write).take n = buffer.take n := by
  unfold copyTo
  rw [List.append_assoc, List.take_append_of_le_length, List.take_take, Nat.min_eq_left hn]
  rw [List.length_take, Nat.min_eq_left hlen]
  exact hn

theorem reportFinish_request (m : Ended) (nowNs : Nat) (text : Option Bytes)
    (stack : Vector UInt8 channelRequestMax) :
    ∃ rest, ((m.reportFinish nowNs text).writes.foldl copyTo stack.toList).take
      (m.reportFinish nowNs text).requestLen = (m.reportFinish nowNs text).metrics.bytes ++ rest := by
  suffices hfront : ((m.reportFinish nowNs text).writes.foldl copyTo stack.toList).take metricsSize
      = (m.reportFinish nowNs text).metrics.bytes by
    refine ⟨(((m.reportFinish nowNs text).writes.foldl copyTo stack.toList).take
      (m.reportFinish nowNs text).requestLen).drop metricsSize, ?_⟩
    rw [← hfront]
    have hle : metricsSize ≤ (m.reportFinish nowNs text).requestLen := Nat.le_add_right _ _
    conv_lhs => rw [← List.take_append_drop metricsSize (List.take _ _)]
    rw [List.take_take, Nat.min_eq_left hle]
  have hrecord : ∀ metrics : RunMetrics,
      (copyTo stack.toList (0, metrics.bytes)).take metricsSize = metrics.bytes := by
    intro metrics
    rw [copyTo, List.take_zero, List.nil_append, List.take_left' metrics.length_bytes]
  have hlong : ∀ metrics : RunMetrics,
      metricsSize ≤ (copyTo stack.toList (0, metrics.bytes)).length := by
    intro metrics
    rw [copyTo, List.length_append, List.length_append, length_bytes]
    omega
  have hwrites : (m.reportFinish nowNs text).writes = (0, (m.reportFinish nowNs text).metrics.bytes)
      :: if text.isSome ∧ 0 < reported (text.getD []) then
        [(metricsSize, (text.getD []).take (reported (text.getD [])))] else [] := rfl
  rw [hwrites, List.foldl_cons]
  split
  · rw [List.foldl_cons, List.foldl_nil,
      take_copyTo (n := metricsSize) (Nat.le_refl _) (hlong _), hrecord]
  · rw [List.foldl_nil, hrecord]

/-- **A finish report arrives exactly when its text leaves room for the record in front of it**,
or is longer than the channel and left out. -/
theorem reportFinish_arrives_iff (sha : Sha D) (m : Ended) (nowNs : Nat) (text : Option Bytes)
    (stack : Vector UInt8 channelRequestMax) (s : Loop D) (leftover : Bytes) (tool : ToolRun D) :
    Arrives sha (m.reportFinish nowNs text) stack s leftover tool
      ↔ ¬ LeavesNoRoom (text.getD []) := by
  unfold Arrives
  rw [reportFinish_inside_iff]
  refine and_iff_left_of_imp fun hroom => ?_
  have hlen : (m.reportFinish nowNs text).requestLen ≤ channelRequestMax :=
    (reported_room_iff _).mpr hroom
  obtain ⟨rest, hrest⟩ := reportFinish_request m nowNs text stack
  have hread : RunMetrics.readFrom (takeRequest (m.reportFinish nowNs text).requestLen
      ((m.reportFinish nowNs text).metrics.bytes ++ (rest ++ leftover)))
      = some (m.reportFinish nowNs text).metrics := by
    have hshort : metricsSize ≤ min (m.reportFinish nowNs text).requestLen (min 4096 8192) :=
      le_min (Nat.le_add_right _ _) (by decide)
    rw [takeRequest, List.take_append, List.take_of_length_le (by rwa [length_bytes])]
    exact readFrom_bytes (reportFinish_fits m nowNs text) _
  unfold Finishing.hostCall
  rw [if_neg (Nat.not_lt.mpr hlen), hrest]
  simp only [List.append_assoc, Loop.turn, HostOp.ofCode, Loop.serve, hread]
  simp

/-- What a program returned of 8145 bytes is written past the end of the buffer, and its report
is refused. -/
theorem long_text_is_not_reported :
    ¬ Arrives symbolicSha (Ended.reportFinish ⟨0, 0, 0, 0, 0, 0, 0, 1⟩ 0
      (some (List.replicate 8145 97))) (Vector.replicate channelRequestMax 0) firstCall []
      ⟨true, true, true, true, none⟩ := by
  intro harrives
  have hroom := (reportFinish_inside_iff _ _ _).mp harrives.1
  apply hroom
  unfold LeavesNoRoom channelRequestMax metricsSize
  rw [Option.getD_some, List.length_replicate]
  decide

end Thalyx.Work
