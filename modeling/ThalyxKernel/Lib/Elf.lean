/-
Reading a statically linked ELF64 image.

A reader of such images goes over the program headers in order, takes those that are loaded
and have any memory, and checks each against the image and against the segments it has
taken before.  What readers differ in is where segments may lie, what rights they may
have, and their reasons for refusing: the reasons are parameters here, and the rest is left
to the reader.

Every read is at an offset that was checked, and every sum that is not is `none` where it
does not fit.
-/
import ThalyxKernel.Lib.Refusing
import ThalyxKernel.Lib.Pages

namespace Thalyx.Elf

open Refusing Checked

/-! ### The format -/

def headerLen : Nat := 64

def programHeaderLen : Nat := 56

def pageSize : Nat := 4096

/-- How many segments an image may have. -/
def maxSegments : Nat := 8

/-- `ET_EXEC`. -/
def etExec : Nat := 2

/-- `EM_X86_64`. -/
def emX8664 : Nat := 0x3E

/-- `PT_LOAD`. -/
def ptLoad : Nat := 1

/-- `PF_X`. -/
def pfX : Nat := 1

/-- `PF_W`. -/
def pfW : Nat := 2

/-- `PF_R`. -/
def pfR : Nat := 4

structure Segment where
  vaddr : Nat
  fileOffset : Nat
  fileLen : Nat
  memLen : Nat
  read : Bool
  write : Bool
  execute : Bool
deriving DecidableEq, Repr

/-- How many pages the segment occupies. -/
def Segment.pages (s : Segment) : Nat := Pages.divCeil s.memLen pageSize

/-- A segment of nothing. -/
def Segment.empty : Segment := ⟨0, 0, 0, 0, false, false, false⟩

/-- One past the last page of a segment. -/
def Segment.stop (s : Segment) : Nat := s.vaddr + s.pages * pageSize

/-- The pages of a segment. -/
def Segment.onPages (s : Segment) : List Nat := Pages.run pageSize s.vaddr s.pages

structure Header where
  entry : Nat
  phoff : Nat
  phnum : Nat

/-- The segment a program header declares. -/
def segmentAt (image : List UInt8) (base : Nat) : Segment where
  vaddr := numberAt image (base + 16) 8
  fileOffset := numberAt image (base + 8) 8
  fileLen := numberAt image (base + 32) 8
  memLen := numberAt image (base + 40) 8
  read := numberAt image (base + 4) 4 &&& pfR ≠ 0
  write := numberAt image (base + 4) 4 &&& pfW ≠ 0
  execute := numberAt image (base + 4) 4 &&& pfX ≠ 0

/-! ### Reading -/

/-- Why an image is refused. -/
structure Reasons (ε : Type) where
  tooShort : ε
  tooLarge : ε
  notElf64 : ε
  wrongObjectType : ε
  badProgramHeaders : ε
  segmentOutsideImage : ε
  segmentUnaligned : ε
  segmentFileLargerThanMemory : ε
  segmentOverlap : ε
  segmentCount : ε

variable {ε : Type} (reasons : Reasons ε)

/-- The checks on the header of an image. -/
def readHeader (maxBytes : Nat) (image : List UInt8) : Refusing ε Header := do
  refuseIf (maxBytes < image.length) reasons.tooLarge
  refuseIf (image.length < headerLen) reasons.tooShort
  let magic ← checked (Checked.slice image 0 4)
  let class64 ← checked image[4]?
  let data ← checked image[5]?
  let version ← checked image[6]?
  refuseIf (magic ≠ [0x7F, 0x45, 0x4C, 0x46] ∨ class64 ≠ 2 ∨ data ≠ 1 ∨ version ≠ 1)
    reasons.notElf64
  refuseIf ((← readOr 2 image 16 reasons.tooShort) ≠ etExec) reasons.wrongObjectType
  refuseIf ((← readOr 2 image 18 reasons.tooShort) ≠ emX8664) reasons.wrongObjectType
  let entry ← readOr 8 image 24 reasons.tooShort
  let phoff ← readOr 8 image 32 reasons.tooShort
  let phentsize ← readOr 2 image 54 reasons.tooShort
  let phnum ← readOr 2 image 56 reasons.tooShort
  refuseIf (phentsize ≠ programHeaderLen ∨ phnum = 0 ∨ 64 < phnum) reasons.badProgramHeaders
  return ⟨entry, phoff, phnum⟩

/-- The program header at a place of the table, when it is one to load: what it declares, once
its file range and its alignment are right.  `count` segments were taken before. -/
def readSegment (image : List UInt8) (phoff count index : Nat) :
    Refusing ε (Option Segment) := do
  let base ← checked (Checked.add phoff (← checked (Checked.mul index programHeaderLen)))
  let type ← readOr 4 image base reasons.badProgramHeaders
  if type ≠ ptLoad then
    return none
  refuseIf (count = maxSegments) reasons.segmentCount
  let flags ← readOr 4 image (← checked (Checked.add base 4)) reasons.badProgramHeaders
  let offset ← readOr 8 image (← checked (Checked.add base 8)) reasons.badProgramHeaders
  let vaddr ← readOr 8 image (← checked (Checked.add base 16)) reasons.badProgramHeaders
  let filesz ← readOr 8 image (← checked (Checked.add base 32)) reasons.badProgramHeaders
  let memsz ← readOr 8 image (← checked (Checked.add base 40)) reasons.badProgramHeaders
  if memsz = 0 then
    return none
  refuseIf (memsz < filesz) reasons.segmentFileLargerThanMemory
  let fileEnd ← orRefuse (Checked.add offset filesz) reasons.segmentOutsideImage
  refuseIf (image.length < fileEnd) reasons.segmentOutsideImage
  refuseIf (vaddr % pageSize ≠ 0) reasons.segmentUnaligned
  return some ⟨vaddr, offset, filesz, memsz, flags &&& pfR ≠ 0, flags &&& pfW ≠ 0,
    flags &&& pfX ≠ 0⟩

/-- `vaddr + pages() * PAGE_SIZE`. -/
def stopOf (s : Segment) : Option Nat := do
  Checked.add s.vaddr (← Checked.mul s.pages pageSize)

/-- One turn of the loop over the segments that were taken before. -/
def checkOverlap (start stop : Nat) (existing : Segment) : Refusing ε Unit := do
  let otherEnd ← checked (stopOf existing)
  refuseIf (start < otherEnd ∧ existing.vaddr < stop) reasons.segmentOverlap

/-- `s.execute && entry >= s.vaddr && entry < s.vaddr + s.mem_len`. -/
def holdsEntry (entry : Nat) (s : Segment) : Option Bool :=
  if s.execute ∧ s.vaddr ≤ entry then
    (Checked.add s.vaddr s.memLen).map fun stop => decide (entry < stop)
  else
    some false

/-! ### What was read -/

/-- The header of an image. -/
def headerOf (image : List UInt8) : Header :=
  ⟨numberAt image 24 8, numberAt image 32 8, numberAt image 56 2⟩

/-- Where a program header is. -/
def baseOf (image : List UInt8) (index : Nat) : Nat :=
  (headerOf image).phoff + index * programHeaderLen

/-- The program header declares memory that is loaded. -/
def Loads (image : List UInt8) (base : Nat) : Prop :=
  numberAt image base 4 = ptLoad ∧ numberAt image (base + 40) 8 ≠ 0

instance (image : List UInt8) (base : Nat) : Decidable (Loads image base) :=
  inferInstanceAs (Decidable (_ ∧ _))

/-- What the first program headers of an image load, in their order. -/
def loadedBefore (image : List UInt8) (n : Nat) : List Segment :=
  (List.range n).flatMap fun i =>
    if Loads image (baseOf image i) then [segmentAt image (baseOf image i)] else []

/-- The table of program headers lies in the image. -/
structure TableFits (image : List UInt8) : Prop where
  small : image.length < Checked.usizeValues
  inside : (headerOf image).phoff + (headerOf image).phnum * programHeaderLen ≤ image.length

/-- The segment is made of whole pages and of bytes of the image. -/
structure Segment.Sound (image : List UInt8) (s : Segment) : Prop where
  nonempty : 0 < s.memLen
  aligned : pageSize ∣ s.vaddr
  file : s.fileOffset + s.fileLen ≤ image.length
  fileLen : s.fileLen ≤ s.memLen

/-- No page belongs to both. -/
def Segment.Apart (a b : Segment) : Prop := ∀ x ∈ a.onPages, x ∉ b.onPages

theorem loadedBefore_succ (image : List UInt8) (n : Nat) :
    loadedBefore image (n + 1) = loadedBefore image n
      ++ if Loads image (baseOf image n) then [segmentAt image (baseOf image n)] else [] := by
  simp [loadedBefore, List.range_succ]

section Specifications

variable {image : List UInt8} {Q : ε → Prop} {S : Prop}

theorem meets_readHeader (maxBytes : Nat) (hQ : ∀ e, Q e) :
    Meets (readHeader reasons maxBytes image)
      (fun header => header = headerOf image ∧ image.length ≤ maxBytes) Q S := by
  unfold readHeader
  refine meets_refuseIf_bind (fun _ => hQ _) fun hlarge => ?_
  refine meets_refuseIf_bind (fun _ => hQ _) fun hshort => ?_
  have hlen : 64 ≤ image.length := Nat.not_lt.mp hshort
  have hread : ∀ {k width : Nat} {f : Nat → Refusing ε Header} {e P}, k + width ≤ 64 →
      Meets (f (numberAt image k width)) P Q S → Meets (readOr width image k e >>= f) P Q S :=
    fun hk h => meets_readOr_bind (by unfold Checked.usizeValues; omega) (by omega) h
  refine meets_step (slice_eq (Nat.zero_le 4) (by omega)) ?_
  refine meets_step (List.getElem?_eq_getElem (by omega)) ?_
  refine meets_step (List.getElem?_eq_getElem (by omega)) ?_
  refine meets_step (List.getElem?_eq_getElem (by omega)) ?_
  refine meets_refuseIf_bind (fun _ => hQ _) fun _ => ?_
  refine hread (by decide) (meets_refuseIf_bind (fun _ => hQ _) fun _ => ?_)
  refine hread (by decide) (meets_refuseIf_bind (fun _ => hQ _) fun _ => ?_)
  refine hread (by decide) (hread (by decide) (hread (by decide) (hread (by decide) ?_)))
  refine meets_refuseIf_bind (fun _ => hQ _) fun _ => ?_
  exact meets_pure ⟨rfl, Nat.not_lt.mp hlarge⟩

theorem meets_readSegment {count index : Nat} (htable : TableFits image)
    (hindex : index < (headerOf image).phnum) (hQ : ∀ e, Q e) :
    Meets (readSegment reasons image (headerOf image).phoff count index)
      (fun found =>
        found.toList = (if Loads image (baseOf image index)
          then [segmentAt image (baseOf image index)] else [])
        ∧ ∀ s ∈ found, s.Sound image ∧ count ≠ maxSegments) Q S := by
  have hbase : baseOf image index + 56 ≤ image.length := by
    have hinside := htable.inside
    simp only [baseOf, programHeaderLen] at hinside ⊢
    omega
  have hsmall := htable.small
  have hread : ∀ {k width : Nat} {f : Nat → Refusing ε (Option Segment)} {e P}, k + width ≤ 56 →
      Meets (f (numberAt image (baseOf image index + k) width)) P Q S →
      Meets (readOr width image (baseOf image index + k) e >>= f) P Q S :=
    fun hk h => meets_readOr_bind (by omega) (by omega) h
  have hadd : ∀ k ≤ 56, Checked.add (baseOf image index) k = some (baseOf image index + k) :=
    fun k hk => add_eq (by omega)
  unfold readSegment
  have hsum : (headerOf image).phoff + index * programHeaderLen = baseOf image index := rfl
  refine meets_step (mul_eq (by omega)) (meets_step (add_eq (by omega)) ?_)
  rw [hsum]
  refine hread (k := 0) (by decide) ?_
  by_cases htype : numberAt image (baseOf image index) 4 = ptLoad
  swap
  · rw [Nat.add_zero, if_pos htype]
    refine meets_pure ⟨?_, by simp⟩
    rw [if_neg fun h => htype h.1]
    rfl
  rw [Nat.add_zero, if_neg (not_not.mpr htype)]
  refine meets_refuseIf_bind (fun _ => hQ _) fun hcount => ?_
  refine meets_step (hadd 4 (by decide)) (hread (by decide) ?_)
  refine meets_step (hadd 8 (by decide)) (hread (by decide) ?_)
  refine meets_step (hadd 16 (by decide)) (hread (by decide) ?_)
  refine meets_step (hadd 32 (by decide)) (hread (by decide) ?_)
  refine meets_step (hadd 40 (by decide)) (hread (by decide) ?_)
  by_cases hmem : numberAt image (baseOf image index + 40) 8 = 0
  · rw [if_pos hmem]
    refine meets_pure ⟨?_, by simp⟩
    rw [if_neg fun h => h.2 hmem]
    rfl
  rw [if_neg hmem]
  refine meets_refuseIf_bind (fun _ => hQ _) fun hsizes => ?_
  refine meets_orRefuse_bind (fun fileEnd hend => ?_) fun _ => hQ _
  obtain ⟨rfl, -⟩ := Checked.add_eq_some_iff.mp hend
  refine meets_refuseIf_bind (fun _ => hQ _) fun houtside => ?_
  refine meets_refuseIf_bind (fun _ => hQ _) fun halign => ?_
  refine meets_pure ⟨?_, ?_⟩
  · rw [if_pos ⟨htype, hmem⟩]
    rfl
  · rintro _ ⟨⟩
    exact ⟨⟨Nat.pos_of_ne_zero hmem, Nat.dvd_of_mod_eq_zero (not_not.mp halign),
      Nat.not_lt.mp houtside, Nat.not_lt.mp hsizes⟩, hcount⟩

end Specifications

/-! ### Segments next to each other -/

theorem stopOf_eq {s : Segment} (h : s.stop < Checked.usizeValues) : stopOf s = some s.stop := by
  have hmul : s.pages * pageSize < Checked.usizeValues := by
    unfold Segment.stop at h
    omega
  unfold stopOf
  rw [mul_eq hmul]
  exact add_eq h

theorem meets_checkOverlap {s existing : Segment} {Q : ε → Prop} {S : Prop}
    (hs : pageSize ∣ s.vaddr) (hexisting : pageSize ∣ existing.vaddr)
    (hfits : existing.stop < Checked.usizeValues) (hQ : ∀ e, Q e) :
    Meets (checkOverlap reasons s.vaddr s.stop existing) (fun _ => existing.Apart s) Q S := by
  refine meets_step (stopOf_eq hfits) (meets_refuseIf (fun hpass => ?_) fun _ => hQ _)
  intro x hx hxs
  obtain ⟨hlt, hlt', -⟩ :=
    (Pages.runs_meet_iff (by decide : 0 < pageSize) hexisting hs).mp ⟨x, hx, hxs⟩
  exact hpass ⟨hlt', hlt⟩

theorem anyM_holdsEntry {entry : Nat} {segments : List Segment}
    (hfits : ∀ s ∈ segments, s.vaddr + s.memLen < Checked.usizeValues) :
    segments.anyM (holdsEntry entry)
      = some (segments.any fun s =>
          decide (s.execute ∧ s.vaddr ≤ entry ∧ entry < s.vaddr + s.memLen)) := by
  induction segments with
  | nil => rfl
  | cons s rest ih =>
    have hhead : holdsEntry entry s
        = some (decide (s.execute ∧ s.vaddr ≤ entry ∧ entry < s.vaddr + s.memLen)) := by
      unfold holdsEntry
      rw [add_eq (hfits s (by simp))]
      split
      · next h => simp [h.1, h.2]
      · next h => simp [← and_assoc, h]
    rw [List.anyM, hhead, List.any_cons]
    have htail := ih fun t ht => hfits t (by simp [ht])
    cases decide (s.execute ∧ s.vaddr ≤ entry ∧ entry < s.vaddr + s.memLen) with
    | true => rfl
    | false => exact htail

end Thalyx.Elf
