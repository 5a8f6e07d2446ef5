/-
The object a validation tool is given: its layout, and the part of `validate` of
`user/k5work/src/hacer.rs` that assembles it.

The header and the records of the names come first, at places that do not depend on how many
there are, and the contents follow them without a gap.  A record is written before the content
it is about, so each turn of the loop writes at two places; `Lists` says of a place in the
object that a name is listed there as the workspace has it, and later turns leave it alone.

The object is created with the pages that the bytes need and no fewer than one, filled with
zeros, before they are written to it.
-/
import ThalyxKernel.Format.Pod
import ThalyxKernel.Lib.Moves
import ThalyxKernel.Lib.Refusing
import ThalyxKernel.Work.Hacer

namespace Thalyx.Work

open Wire Refusing

/-! ### The layout -/

structure CandidateHeader where
  magic : UInt32
  version : UInt32
  count : UInt32
  reserved0 : UInt32
  seed : UInt64
  totalBytes : UInt64
  rootDigest : Digest
  deriving DecidableEq

def CandidateHeader.layout : Layout CandidateHeader :=
  (Layout.u32.pair <| Layout.u32.pair <| Layout.u32.pair <| Layout.u32.pair <|
    Layout.u64.pair <| Layout.u64.pair <| Layout.array 32).via
    ⟨fun h => (h.magic, h.version, h.count, h.reserved0, h.seed, h.totalBytes, h.rootDigest),
      fun (m, v, c, r, s, t, d) => ⟨m, v, c, r, s, t, d⟩, fun _ => rfl, fun _ => rfl⟩

/-- The record of a name. -/
structure CandidateEntry where
  offset : UInt64
  length : UInt64
  nameLen : UInt32
  flags : UInt32
  name : Vector UInt8 32
  deriving DecidableEq

def CandidateEntry.layout : Layout CandidateEntry :=
  (Layout.u64.pair <| Layout.u64.pair <| Layout.u32.pair <| Layout.u32.pair <|
    Layout.array 32).via
    ⟨fun e => (e.offset, e.length, e.nameLen, e.flags, e.name),
      fun (o, l, n, f, s) => ⟨o, l, n, f, s⟩, fun _ => rfl, fun _ => rfl⟩

theorem CandidateHeader.size_layout : CandidateHeader.layout.size = candidateHeaderSize := rfl

theorem CandidateEntry.size_layout : CandidateEntry.layout.size = candidateEntrySize := rfl

/-- `CANDIDATE_MAGIC_LOW` -/
def candidateMagicLow : UInt32 := 893668931

/-- `CANDIDATE_FLAG_FUNCTION_BODY` -/
def candidateFlagFunctionBody : UInt32 := 1

/-- Where the record of a name is. -/
def recordAt (index : Nat) : Nat := candidateHeaderSize + index * candidateEntrySize

/-- Where the first content is. -/
def contentsAt : Nat := candidateHeaderSize + candidateEntries * candidateEntrySize

/-! ### Assembling -/

/-- The array a name is copied into. -/
def named (name : Bytes) : Vector UInt8 32 := Vector.ofFn fun i => name.getD i 0

def flagsOf (name : Bytes) : UInt32 :=
  if name = ascii "program.js" then candidateFlagFunctionBody else 0

def recordOf (e : Entry) (place : Nat) : CandidateEntry where
  offset := UInt64.ofNat place
  length := UInt64.ofNat e.bytes.length
  nameLen := UInt32.ofNat e.name.length
  flags := flagsOf e.name
  name := named e.name

/-- One turn of the loop of `validate`: the buffer, and where the next content goes. -/
def assembleEntry (index : Nat) (e : Entry) (scratch : Bytes) (place : Nat) :
    Refusing Unit (Bytes × Nat) := do
  refuseIf (place + e.bytes.length > scratch.length) ()
  checked (if e.name.length ≤ 32 then some () else none)
  let scratch ← orRefuse
    (writeTo CandidateEntry.layout (recordOf e place) scratch (recordAt index)).toOption ()
  let scratch ← checked (copyAt scratch place (place + e.bytes.length) e.bytes)
  pure (scratch, place + e.bytes.length)

def assembleEntries : Nat → List Entry → Bytes → Nat → Refusing Unit (Bytes × Nat)
  | _, [], scratch, place => pure (scratch, place)
  | index, e :: rest, scratch, place => do
    let (scratch, place) ← assembleEntry index e scratch place
    assembleEntries (index + 1) rest scratch place

/-- The header of what was assembled. -/
def headerOf (w : Workspace) (seed : UInt64) (total : Nat) (tree : Digest) : CandidateHeader where
  magic := candidateMagicLow
  version := 1
  count := UInt32.ofNat w.entries.length
  reserved0 := 0
  seed
  totalBytes := UInt64.ofNat total
  rootDigest := tree

/-- `validate`, up to the object it creates: the buffer, and how much of it is the candidate. -/
def assemble (sha : Sha Digest) (w : Workspace) (seed : UInt64) (scratch : Bytes) :
    Refusing Unit (Bytes × Nat) := do
  refuseIf (w.entries.length > candidateEntries) ()
  let (scratch, total) ← assembleEntries 0 w.entries scratch contentsAt
  let tree ← orRefuse (w.candidateDigest sha) ()
  let scratch ← orRefuse
    (writeTo CandidateHeader.layout (headerOf w seed total tree) scratch 0).toOption ()
  pure (scratch, total)

/-! ### The sealed object -/

/-- A memory object a domain maps: whole pages, one at the least. -/
structure SealedObject where
  bytes : Bytes
  pages : Nat
  pages_pos : 0 < pages
  length_bytes : bytes.length = pages * 4096

/-- The pages `validate` creates the object with. -/
def pagesOf (total : Nat) : Nat := max ((total + 4095) / 4096) 1

theorem total_le_pagesOf (total : Nat) : total ≤ pagesOf total * 4096 := by
  unfold pagesOf
  omega

/-- The object once the candidate is written to it and sealed. -/
def sealedObject (scratch : Bytes) (total : Nat) (h : total ≤ scratch.length) : SealedObject where
  bytes := scratch.take total ++ List.replicate (pagesOf total * 4096 - total) 0
  pages := pagesOf total
  pages_pos := by
    unfold pagesOf
    omega
  length_bytes := by
    have hle := total_le_pagesOf total
    rw [List.length_append, List.length_take, List.length_replicate]
    omega

/-! ### What is listed -/

variable {index place : Nat} {e : Entry} {out bytes : Bytes}

/-- A name is listed in a buffer: its record is at its place, and its content where the record
says, past the records. -/
structure Lists (out : Bytes) (index : Nat) (e : Entry) (place : Nat) : Prop where
  record : (out.drop (recordAt index)).take candidateEntrySize
    = CandidateEntry.layout.encode (recordOf e place)
  content : (out.drop place).take e.bytes.length = e.bytes
  past : contentsAt ≤ place
  inside : place + e.bytes.length ≤ out.length

theorem recordAt_apart {i j : Nat} (h : i < j) : recordAt i + candidateEntrySize ≤ recordAt j := by
  unfold recordAt candidateEntrySize
  omega

theorem recordAt_le {index : Nat} (h : index < candidateEntries) :
    recordAt index + candidateEntrySize ≤ contentsAt := by
  unfold recordAt contentsAt candidateEntrySize candidateEntries at *
  omega

theorem Lists.splice_apart {offset : Nat} (h : Lists out index e place)
    (hroom : offset + bytes.length ≤ out.length)
    (hrecord : recordAt index + candidateEntrySize ≤ offset
      ∨ offset + bytes.length ≤ recordAt index)
    (hcontent : place + e.bytes.length ≤ offset ∨ offset + bytes.length ≤ place) :
    Lists (splice out offset bytes) index e place := by
  obtain ⟨hrec, hcon, hpast, hinside⟩ := h
  refine ⟨?_, ?_, hpast, ?_⟩
  · rw [slice_splice_apart hroom hrecord, hrec]
  · rw [slice_splice_apart hroom hcontent, hcon]
  · rwa [length_splice hroom]

variable {out' scratch : Bytes}

theorem writeTo_toOption {α : Type} {l : Layout α} {a : α} {offset : Nat}
    (h : (writeTo l a out offset).toOption = some out') :
    offset + l.size ≤ out.length ∧ out' = splice out offset (l.encode a) := by
  unfold writeTo at h
  split at h
  · cases h
  · exact ⟨by omega, (Option.some.inj h).symm⟩

/-- What earlier turns have listed is left alone. -/
def Keeps (out out' : Bytes) (index place : Nat) : Prop :=
  ∀ j e p, j < index → p + e.bytes.length ≤ place → Lists out j e p → Lists out' j e p

/-- **A turn lists its name, and leaves the others alone.** -/
theorem meets_assembleEntry (hname : e.name.length ≤ 32) (hindex : index < candidateEntries)
    (hplace : contentsAt ≤ place) :
    Meets (assembleEntry index e out place)
      (fun r => r.2 = place + e.bytes.length ∧ r.1.length = out.length
        ∧ Lists r.1 index e place ∧ Keeps out r.1 index place)
      (fun _ => True) False := by
  refine meets_refuseIf_bind (fun _ => trivial) fun hfits => ?_
  rw [if_pos hname]
  refine meets_step rfl ?_
  refine meets_orRefuse_bind (fun scratch hscratch => ?_) fun _ => trivial
  obtain ⟨hroom, rfl⟩ := writeTo_toOption hscratch
  have hsize : (CandidateEntry.layout.encode (recordOf e place)).length = candidateEntrySize :=
    CandidateEntry.layout.length_encode _
  have hspace : recordAt index + (CandidateEntry.layout.encode (recordOf e place)).length
      ≤ out.length := by
    rw [hsize]
    exact hroom
  have hbefore := recordAt_le hindex
  have hlength := length_splice hspace
  have hcontent : place + e.bytes.length
      ≤ (splice out (recordAt index) (CandidateEntry.layout.encode (recordOf e place))).length := by
    rw [hlength]
    omega
  refine meets_step (copyAt_eq (Nat.le_add_right _ _) hcontent (by omega)) ?_
  refine meets_pure ⟨rfl, ?_, ⟨?_, ?_, hplace, ?_⟩, ?_⟩
  · rw [length_splice hcontent, hlength]
  · -- the content goes past all records
    rw [slice_splice_apart hcontent (.inl (by omega)), ← hsize, slice_splice hspace]
  · exact slice_splice hcontent
  · rw [length_splice hcontent]
    exact hcontent
  · intro j e' p hj hp hlists
    have hrecords := recordAt_apart hj
    refine Lists.splice_apart (Lists.splice_apart hlists hspace (.inl hrecords) (.inr ?_)) hcontent
      (.inl (by omega)) (.inl hp)
    have := hlists.past
    omega

/-- The names of a list are listed from an index on, their contents one after another. -/
def ListsAll (out : Bytes) : Nat → List Entry → Nat → Prop
  | _, [], _ => True
  | index, e :: rest, place =>
    Lists out index e place ∧ ListsAll out (index + 1) rest (place + e.bytes.length)

/-- Where the contents of a list end. -/
def stopOf (entries : List Entry) (place : Nat) : Nat :=
  entries.foldl (fun place e => place + e.bytes.length) place

theorem le_stopOf (entries : List Entry) (place : Nat) : place ≤ stopOf entries place := by
  induction entries generalizing place with
  | nil => exact Nat.le_refl _
  | cons e rest ih => exact (Nat.le_add_right _ _).trans (ih _)

variable {entries : List Entry}

theorem ListsAll.imp (h : ListsAll out index entries place)
    (hkeep : ∀ j e p, index ≤ j → j < index + entries.length → place ≤ p →
      p + e.bytes.length ≤ stopOf entries place → Lists out j e p → Lists out' j e p) :
    ListsAll out' index entries place := by
  induction entries generalizing index place with
  | nil => trivial
  | cons e rest ih =>
    have hstop := le_stopOf rest (place + e.bytes.length)
    refine ⟨hkeep index e place (Nat.le_refl _) (by simp) (Nat.le_refl _) hstop h.1, ?_⟩
    refine ih h.2 fun j e' p hj hlt hp hp' => ?_
    refine hkeep j e' p (by omega) ?_ (by omega) hp'
    rw [List.length_cons]
    omega

/-- **The loop lists every name.** -/
theorem meets_assembleEntries (hnames : ∀ e ∈ entries, e.name.length ≤ 32)
    (hcount : index + entries.length ≤ candidateEntries) (hplace : contentsAt ≤ place) :
    Meets (assembleEntries index entries out place)
      (fun r => r.2 = stopOf entries place ∧ r.1.length = out.length
        ∧ ListsAll r.1 index entries place ∧ Keeps out r.1 index place)
      (fun _ => True) False := by
  induction entries generalizing index place out with
  | nil => exact meets_pure ⟨rfl, rfl, trivial, fun _ _ _ _ _ h => h⟩
  | cons e rest ih =>
    rw [List.length_cons] at hcount
    refine (meets_assembleEntry (hnames e (by simp)) (by omega) hplace).bind ?_
    rintro ⟨scratch, place'⟩ ⟨rfl, hlength, hlists, hkeeps⟩
    refine (ih (fun e' he' => hnames e' (by simp [he'])) (by omega) (by omega)).imp ?_
      fun _ _ => trivial
    rintro ⟨scratch', total⟩ ⟨htotal, hlength', hall, hkeeps'⟩
    refine ⟨htotal, hlength'.trans hlength, ⟨?_, hall⟩, ?_⟩
    · exact hkeeps' index e place (by omega) (Nat.le_refl _) hlists
    · intro j e' p hj hp h
      exact hkeeps' j e' p (by omega) (by omega) (hkeeps j e' p hj hp h)

/-- What the object says: a header, and every name of the workspace. -/
structure Presents (object : SealedObject) (w : Workspace) (seed : UInt64) (tree : Digest)
    (total : Nat) : Prop where
  header : object.bytes.take candidateHeaderSize
    = CandidateHeader.layout.encode (headerOf w seed total tree)
  lists : ListsAll object.bytes 0 w.entries contentsAt
  total : total = stopOf w.entries contentsAt

theorem names_short (w : Workspace) : ∀ e ∈ w.entries, e.name.length ≤ 32 := by
  intro e he
  have hlegal := w.names_legal e he
  unfold legalName at hlegal
  by_cases hbad : (e.name.isEmpty || e.name.length > 32) = true
  · rw [if_pos hbad] at hlegal
    cases hlegal
  · simp only [Bool.or_eq_true, decide_eq_true_eq, not_or] at hbad
    omega

theorem ListsAll.stopOf_le (h : ListsAll out index entries place)
    (hplace : place ≤ out.length) : stopOf entries place ≤ out.length := by
  induction entries generalizing index place with
  | nil => exact hplace
  | cons e rest ih => exact ih h.2 h.1.inside

theorem sealedObject_slice {total start len : Nat} (h : total ≤ scratch.length)
    (hlen : start + len ≤ total) :
    ((sealedObject scratch total h).bytes.drop start).take len
      = (scratch.drop start).take len := slice_take _ hlen h

/-- **`validate` never stops, and what it seals presents the workspace.** -/
theorem meets_assemble (sha : Sha Digest) (w : Workspace) (seed : UInt64)
    (hscratch : scratch.length = candidateMax) :
    Meets (assemble sha w seed scratch)
      (fun r => ∃ (h : r.2 ≤ r.1.length) (tree : Digest), r.2 ≤ candidateMax
        ∧ Presents (sealedObject r.1 r.2 h) w seed tree r.2)
      (fun _ => True) False := by
  refine meets_refuseIf_bind (fun _ => trivial) fun hcount => ?_
  refine (meets_assembleEntries (names_short w) (by omega) (Nat.le_refl _)).bind ?_
  rintro ⟨filled, total⟩ ⟨htotal, hlength, hall, -⟩
  refine meets_orRefuse_bind (fun tree htree => ?_) fun _ => trivial
  refine meets_orRefuse_bind (fun final hfinal => ?_) fun _ => trivial
  obtain ⟨hroom, rfl⟩ := writeTo_toOption hfinal
  let header := CandidateHeader.layout.encode (headerOf w seed total tree)
  have hsize : header.length = candidateHeaderSize := CandidateHeader.layout.length_encode _
  have hspace : 0 + header.length ≤ filled.length := by
    rw [hsize]
    exact hroom
  have hfilled : contentsAt ≤ filled.length := by
    rw [hlength, hscratch]
    decide
  have hstop : total ≤ filled.length := by
    show total ≤ _
    rw [show total = stopOf w.entries contentsAt from htotal]
    exact hall.stopOf_le hfilled
  have hstart : contentsAt ≤ total := by
    rw [show total = stopOf w.entries contentsAt from htotal]
    exact le_stopOf _ _
  have hle : total ≤ (splice filled 0 header).length := by rwa [length_splice hspace]
  refine meets_pure ⟨hle, tree, ?_, ?_, ?_, htotal⟩
  · rw [← hscratch, ← hlength]
    exact hstop
  · have hheader : 0 + candidateHeaderSize ≤ total := by
      unfold contentsAt at hstart
      omega
    have hslice := sealedObject_slice hle hheader
    rw [List.drop_zero] at hslice
    rw [hslice, ← hsize, slice_splice hspace]
  · refine hall.imp fun j e p hj hlt hp hp' hlists => ?_
    have hj : j < candidateEntries := by omega
    have hrecord := recordAt_le hj
    have hpast := hlists.past
    have hwritten := hlists.splice_apart hspace
      (.inr (by rw [hsize]; unfold recordAt; omega))
      (.inr (by rw [hsize]; unfold contentsAt at hpast; omega))
    refine ⟨?_, ?_, hpast, ?_⟩
    · rw [sealedObject_slice hle (by omega), hwritten.record]
    · rw [sealedObject_slice hle (by rw [← htotal] at hp'; exact hp'), hwritten.content]
    · have := total_le_pagesOf total
      rw [(sealedObject _ _ _).length_bytes]
      show p + e.bytes.length ≤ pagesOf total * 4096
      rw [← htotal] at hp'
      dsimp only at hp'
      omega

end Thalyx.Work
