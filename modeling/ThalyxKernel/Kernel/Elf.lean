/-
User images: `kernel/src/elf.rs`.

`parse_user_image` is what a module becomes a domain through: whatever it accepts is mapped
without another check.  It refuses what it cannot validate, and it never stops the kernel.

`Safe` is what the domain builder relies on.
-/
import ThalyxKernel.Lib.Elf
import ThalyxKernel.Kernel.Build

namespace Thalyx.Kernel.Elf

open Refusing Thalyx.Elf Checked

/-! ### The reader -/

/-- `MAX_IMAGE_BYTES`. -/
def maxImageBytes : Nat := 16 * 1024 * 1024

/-- `MAX_IMAGE_PAGES`. -/
def maxImagePages : Nat := 4096

/-- `Reject`. -/
inductive Reject where
  | tooShort
  | tooLarge
  | notElf64
  | wrongObjectType
  | badProgramHeaders
  | segmentOutsideImage
  | segmentUnaligned
  | segmentFileLargerThanMemory
  | segmentOutsideUserRange
  | segmentWriteAndExecute
  | segmentWriteOrExecuteWithoutRead
  | segmentOverlap
  | segmentCount
  | imageTooManyPages
  | entryNotExecutable
deriving DecidableEq, Repr

/-- The reasons both readers have. -/
def reasons : Reasons Reject where
  tooShort := .tooShort
  tooLarge := .tooLarge
  notElf64 := .notElf64
  wrongObjectType := .wrongObjectType
  badProgramHeaders := .badProgramHeaders
  segmentOutsideImage := .segmentOutsideImage
  segmentUnaligned := .segmentUnaligned
  segmentFileLargerThanMemory := .segmentFileLargerThanMemory
  segmentOverlap := .segmentOverlap
  segmentCount := .segmentCount

/-- `Image`. -/
structure Image where
  entry : Nat
  segments : Vector Elf.Segment maxSegments
  segmentCount : Nat
  pages : Nat
deriving DecidableEq

/-- What the loop over the program headers carries. -/
structure Taken where
  segments : Vector Elf.Segment maxSegments
  count : Nat
  pages : Nat

/-- One turn of the loop over the program headers. -/
def parseSegment (image : List UInt8) (phoff : Nat) (taken : Taken) (index : Nat) :
    Refusing Reject Taken := do
  match ← readSegment reasons image phoff taken.count index with
  | none => return taken
  | some segment => do
    let memEnd ← orRefuse (Checked.add segment.vaddr segment.memLen) .segmentOutsideUserRange
    refuseIf (segment.vaddr < userMinAddr ∨ userMaxAddr < memEnd) .segmentOutsideUserRange
    refuseIf (segment.write ∧ segment.execute) .segmentWriteAndExecute
    refuseIf (¬ segment.read ∧ (segment.write ∨ segment.execute))
      .segmentWriteOrExecuteWithoutRead
    refuseIf (¬ segment.read) .segmentWriteOrExecuteWithoutRead
    let stop ← checked (stopOf segment)
    (← checked (Checked.slice taken.segments.toList 0 taken.count)).forM
      (checkOverlap reasons segment.vaddr stop)
    let pages ← orRefuse (Checked.add taken.pages segment.pages) .imageTooManyPages
    refuseIf (maxImagePages < pages) .imageTooManyPages
    let segments ← checked (Checked.store taken.segments taken.count segment)
    return ⟨segments, ← checked (Checked.add taken.count 1), pages⟩

/-- `parse_user_image`. -/
def parseUserImage (image : List UInt8) : Refusing Reject Image := do
  let header ← readHeader reasons maxImageBytes image
  let tableLen ← orRefuse (Checked.mul header.phnum programHeaderLen) .badProgramHeaders
  let tableEnd ← orRefuse (Checked.add header.phoff tableLen) .badProgramHeaders
  refuseIf (image.length < tableEnd) .badProgramHeaders
  let taken ← (List.range' 0 header.phnum).foldlM (parseSegment image header.phoff)
    ⟨Vector.replicate maxSegments .empty, 0, 0⟩
  refuseIf (taken.count = 0) .segmentCount
  let segments ← checked (Checked.slice taken.segments.toList 0 taken.count)
  let entryOk ← checked (segments.anyM (holdsEntry header.entry))
  refuseIf (¬ entryOk) .entryNotExecutable
  return ⟨header.entry, taken.segments, taken.count, taken.pages⟩

/-! ### What the domain builder relies on -/

/-- A segment that may be mapped for a user domain. -/
structure Mappable (image : List UInt8) (s : Elf.Segment) : Prop extends s.Sound image where
  inside : ∀ x ∈ s.onPages, userMinAddr ≤ x ∧ x + Elf.pageSize ≤ userMaxAddr
  readable : s.read
  rights : ¬ (s.write ∧ s.execute)

/-- What is taken may be mapped together. -/
structure Together (image : List UInt8) (segments : List Elf.Segment) (pages : Nat) : Prop where
  mappable : ∀ s ∈ segments, Mappable image s
  apart : segments.Pairwise Elf.Segment.Apart
  total : pages = (segments.map Elf.Segment.pages).sum
  bounded : pages ≤ maxImagePages

/-- An image that may be mapped without another check: the segments are the ones the program
headers load, in their order. -/
structure Safe (bytes : List UInt8) (image : Image) : Prop where
  count : image.segmentCount ≤ maxSegments
  segments : image.segments.toList.take image.segmentCount
    = loadedBefore bytes (headerOf bytes).phnum
  together : Together bytes (loadedBefore bytes (headerOf bytes).phnum) image.pages
  entry : ∃ s ∈ loadedBefore bytes (headerOf bytes).phnum,
    s.execute ∧ s.vaddr ≤ image.entry ∧ image.entry < s.vaddr + s.memLen

/-! ### The loop -/

variable {s : Elf.Segment}

theorem stop_le (haligned : Elf.pageSize ∣ s.vaddr)
    (h : s.vaddr + s.memLen ≤ userMaxAddr) : s.stop ≤ userMaxAddr := by
  have hup : Pages.up Elf.pageSize (s.vaddr + s.memLen) ≤ userMaxAddr :=
    (Pages.up_le_iff (by decide) (by decide)).mpr h
  rw [Nat.add_comm, Pages.up_add_of_dvd (by decide) _ haligned] at hup
  unfold Elf.Segment.stop Elf.Segment.pages
  unfold Pages.up at hup
  omega

/-- After some turns, what is taken may be mapped together. -/
structure Loop (image : List UInt8) (index : Nat) (taken : Taken) : Prop where
  count : taken.count ≤ maxSegments
  segments : taken.segments.toList.take taken.count = loadedBefore image index
  together : Together image (loadedBefore image index) taken.pages

variable {image : List UInt8}

theorem Mappable.fits (h : Mappable image s) : s.stop ≤ userMaxAddr := by
  have hpages : 0 < s.pages := by
    have hnonempty := h.nonempty
    unfold Elf.Segment.pages Pages.divCeil Elf.pageSize
    omega
  exact ((Pages.run_within_iff hpages).mp h.inside).2

theorem Loop.skip {index : Nat} {taken : Taken} (h : Loop image index taken)
    (hskip : loadedBefore image (index + 1) = loadedBefore image index) :
    Loop image (index + 1) taken := by
  refine ⟨h.count, ?_, ?_⟩
  · rw [hskip]
    exact h.segments
  · rw [hskip]
    exact h.together

theorem meets_parseSegment {index : Nat} {taken : Taken}
    (htable : TableFits image) (hindex : index < (headerOf image).phnum)
    (hloop : Loop image index taken) :
    Meets (parseSegment image (headerOf image).phoff taken index) (Loop image (index + 1))
      (fun _ => True) False := by
  unfold parseSegment
  refine (meets_readSegment reasons htable hindex fun _ => trivial).bind ?_
  rintro (_ | segment) ⟨hloads, hsound⟩
  · refine meets_pure (hloop.skip ?_)
    rw [loadedBefore_succ, ← hloads]
    exact List.append_nil _
  obtain ⟨hsound, hroom⟩ := hsound segment rfl
  have hsucc : loadedBefore image (index + 1) = loadedBefore image index ++ [segment] := by
    rw [loadedBefore_succ, ← hloads]
    rfl
  refine meets_orRefuse_bind (fun memEnd hend => ?_) fun _ => trivial
  obtain ⟨rfl, -⟩ := Checked.add_eq_some_iff.mp hend
  refine meets_refuseIf_bind (fun _ => trivial) fun hinside => ?_
  refine meets_refuseIf_bind (fun _ => trivial) fun hrights => ?_
  refine meets_refuseIf_bind (fun _ => trivial) fun _ => ?_
  refine meets_refuseIf_bind (fun _ => trivial) fun hread => ?_
  obtain ⟨hlow, hhigh⟩ := not_or.mp hinside
  have hstop := stop_le hsound.aligned (Nat.not_lt.mp hhigh)
  have hmappable : Mappable image segment := by
    refine ⟨hsound, ?_, not_not.mp hread, hrights⟩
    intro x hx
    obtain ⟨i, hi, rfl⟩ := Pages.mem_run.mp hx
    have hlast : (i + 1) * Elf.pageSize ≤ segment.pages * Elf.pageSize :=
      Nat.mul_le_mul_right _ hi
    unfold Elf.Segment.stop at hstop
    rw [Nat.succ_mul] at hlast
    omega
  refine meets_step (stopOf_eq (hstop.trans_lt (by decide))) ?_
  have hcount := hloop.count
  refine meets_step (slice_eq (Nat.zero_le _) (by rwa [Vector.length_toList])) ?_
  rw [List.drop_zero, hloop.segments]
  refine (meets_forM (P := fun existing => existing.Apart segment) fun existing hmem => ?_).bind
    fun _ hapart => ?_
  · have hexisting := hloop.together.mappable existing hmem
    exact meets_checkOverlap reasons hsound.aligned hexisting.aligned
      (hexisting.fits.trans_lt (by decide)) fun _ => trivial
  refine meets_orRefuse_bind (fun pages hpages => ?_) fun _ => trivial
  obtain ⟨rfl, -⟩ := Checked.add_eq_some_iff.mp hpages
  refine meets_refuseIf_bind (fun _ => trivial) fun hbounded => ?_
  have hlt : taken.count < maxSegments := by omega
  refine meets_step (store_eq hlt) (meets_step (add_eq ?_) ?_)
  · unfold maxSegments at hlt
    unfold Checked.usizeValues
    omega
  refine meets_pure ⟨hlt, ?_, ?_⟩
  · show (taken.segments.set taken.count segment hlt).toList.take (taken.count + 1) = _
    rw [take_set, hloop.segments, hsucc]
  · rw [hsucc]
    refine ⟨?_, ?_, ?_, Nat.not_lt.mp hbounded⟩
    · intro s hs
      rcases List.mem_append.mp hs with hs | hs
      · exact hloop.together.mappable s hs
      · rw [List.mem_singleton.mp hs]
        exact hmappable
    · rw [List.pairwise_append]
      refine ⟨hloop.together.apart, List.pairwise_singleton .., fun a ha b hb => ?_⟩
      rw [List.mem_singleton.mp hb]
      exact hapart a ha
    · rw [List.map_append, List.sum_append, ← hloop.together.total]
      rfl

/-! ### The image -/

theorem meets_parseUserImage (bytes : List UInt8) :
    Meets (parseUserImage bytes) (Safe bytes) (fun _ => True) False := by
  unfold parseUserImage
  refine (meets_readHeader reasons maxImageBytes fun _ => trivial).bind ?_
  rintro _ ⟨rfl, hlarge⟩
  have hsmall : bytes.length < Checked.usizeValues := hlarge.trans_lt (by decide)
  refine meets_orRefuse_bind (fun tableLen hlen => ?_) fun _ => trivial
  obtain ⟨rfl, -⟩ := Checked.mul_eq_some_iff.mp hlen
  refine meets_orRefuse_bind (fun tableEnd hend => ?_) fun _ => trivial
  obtain ⟨rfl, -⟩ := Checked.add_eq_some_iff.mp hend
  refine meets_refuseIf_bind (fun _ => trivial) fun hinside => ?_
  have htable : TableFits bytes := ⟨hsmall, Nat.not_lt.mp hinside⟩
  have hturn : ∀ i, 0 ≤ i → i < 0 + (headerOf bytes).phnum → ∀ taken, Loop bytes i taken →
      Meets (parseSegment bytes (headerOf bytes).phoff taken i) (Loop bytes (i + 1))
        (fun _ => True) False :=
    fun i _ hi taken htaken => meets_parseSegment htable (by omega) htaken
  have hstart : Loop bytes 0 ⟨Vector.replicate maxSegments .empty, 0, 0⟩ :=
    ⟨Nat.zero_le _, rfl, ⟨by simp [loadedBefore], .nil, rfl, Nat.zero_le _⟩⟩
  have hloop := meets_loop (Loop bytes) hstart hturn
  refine hloop.bind fun taken htaken => ?_
  rw [Nat.zero_add] at htaken
  have hcount := htaken.count
  refine meets_refuseIf_bind (fun _ => trivial) fun _ => ?_
  refine meets_step (slice_eq (Nat.zero_le _) (by rwa [Vector.length_toList])) ?_
  rw [List.drop_zero, htaken.segments]
  have hfits : ∀ s ∈ loadedBefore bytes (headerOf bytes).phnum,
      s.vaddr + s.memLen < Checked.usizeValues := by
    intro s hs
    have hstop := (htaken.together.mappable s hs).fits
    have hround := Pages.le_up (by decide : 0 < Elf.pageSize) s.memLen
    unfold Elf.Segment.stop Elf.Segment.pages at hstop
    unfold Pages.up at hround
    unfold userMaxAddr at hstop
    unfold Checked.usizeValues
    omega
  refine meets_step (anyM_holdsEntry hfits) ?_
  refine meets_refuseIf_bind (fun _ => trivial) fun hentry => ?_
  obtain ⟨s, hs, hin⟩ := List.any_eq_true.mp (not_not.mp hentry)
  exact meets_pure ⟨hcount, htaken.segments, htaken.together, s, hs, of_decide_eq_true hin⟩

/-- **The reader of user images answers for every byte string, and what it accepts is safe to
map.** -/
theorem parseUserImage_safe (bytes : List UInt8) :
    ∃ answer, (parseUserImage bytes).run = some answer
      ∧ ∀ image, answer = .ok image → Safe bytes image := by
  obtain ⟨answer, hrun⟩ := (meets_parseUserImage bytes).answers
  refine ⟨answer, hrun, ?_⟩
  rintro image rfl
  exact (meets_parseUserImage bytes).of_ok hrun

/-- An image of one executable page without bytes in the file. -/
example : (parseUserImage ([0x7F, 0x45, 0x4C, 0x46, 2, 1, 1] ++ littleEndian 9 0
    ++ littleEndian 2 etExec ++ littleEndian 6 emX8664 ++ littleEndian 8 0x400010
    ++ littleEndian 22 64 ++ littleEndian 2 programHeaderLen ++ littleEndian 8 1
    ++ littleEndian 4 ptLoad ++ littleEndian 12 (pfR + pfX) ++ littleEndian 24 0x400000
    ++ littleEndian 16 0x20)).run.map (·.map fun image => (image.segmentCount, image.pages))
    = some (.ok (1, 1)) := by decide +kernel

end Thalyx.Kernel.Elf
