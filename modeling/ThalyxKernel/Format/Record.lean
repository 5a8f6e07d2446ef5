/-
The framing of a record: `frame_record` and `parse_record` of `user/k4fmt`.

A record is a header, its payload and zeros to the end of its block.  The last field of the
header is the digest of everything before it and of the payload, so a span is believed only
where the two are what was framed, or where SHA-256 has a collision.

Neither function stops the program: every range it reads or writes is in its buffer.
-/
import ThalyxKernel.Format.Pod
import ThalyxKernel.Format.Streaming

namespace Thalyx.Wire

open Checked Option

def formatMajor : UInt16 := 1
def formatMinor : UInt16 := 0

/-- `magic::RECORD`, the letters `THLXRC01`. -/
def recordMagic : Vector UInt8 8 := #v[84, 72, 76, 88, 82, 67, 48, 49]

/-- `BLOCK`. -/
def blockBytes : Nat := 4096

/-- `geometry::RECORD_MAX_BLOCKS`. -/
def recordMaxBlocks : Nat := 1

/-- `RecordHeader::SIZE`. -/
def recordHeaderSize : Nat := 128

/-- `RecordHeader::OFFSET_DIGEST`. -/
def recordOffsetDigest : Nat := 96

structure RecordHeader where
  magic : Vector UInt8 8
  formatMajor : UInt16
  formatMinor : UInt16
  kind : UInt32
  sequence : UInt64
  storeEpoch : UInt64
  payloadLen : UInt64
  blockCount : UInt64
  arena : UInt32
  reserved0 : UInt32
  reserved1 : UInt64
  prevDigest : Digest
  digest : Digest
deriving DecidableEq

/-- Everything before the digest, and the digest. -/
def RecordHeader.layout : Layout RecordHeader :=
  (((Layout.array 8).pair <| Layout.u16.pair <| Layout.u16.pair <| Layout.u32.pair <|
    Layout.u64.pair <| Layout.u64.pair <| Layout.u64.pair <| Layout.u64.pair <|
    Layout.u32.pair <| Layout.u32.pair <| Layout.u64.pair <| Layout.array 32).pair
      (Layout.array 32)).via
    ⟨fun h => ((h.magic, h.formatMajor, h.formatMinor, h.kind, h.sequence, h.storeEpoch,
        h.payloadLen, h.blockCount, h.arena, h.reserved0, h.reserved1, h.prevDigest), h.digest),
      fun ((m, j, n, k, s, e, p, b, a, r, q, v), d) => ⟨m, j, n, k, s, e, p, b, a, r, q, v, d⟩,
      fun _ => rfl, fun _ => rfl⟩

theorem RecordHeader.size_layout : RecordHeader.layout.size = recordHeaderSize := rfl

/-- The bytes of a header. -/
def RecordHeader.bytes (h : RecordHeader) : Bytes := RecordHeader.layout.encode h

@[simp] theorem RecordHeader.length_bytes (h : RecordHeader) : h.bytes.length = 128 :=
  RecordHeader.layout.length_encode h

/-- The bytes of a header before its digest. -/
def RecordHeader.front (h : RecordHeader) : Bytes := h.bytes.take recordOffsetDigest

@[simp] theorem RecordHeader.length_front (h : RecordHeader) : h.front.length = 96 := by
  rw [front, List.length_take, length_bytes]
  rfl

theorem RecordHeader.bytes_eq (h : RecordHeader) : h.bytes = h.front ++ h.digest.toList := by
  have hdigest : h.bytes.drop recordOffsetDigest = h.digest.toList := by
    apply List.drop_left'
    apply Layout.length_encode
  rw [← hdigest, front, List.take_append_drop]

theorem RecordHeader.front_digest (h : RecordHeader) (d : Digest) :
    { h with digest := d }.front = h.front := by
  have htake : ∀ front rest : Bytes, front.length = 96 →
      (front ++ rest).take recordOffsetDigest = front := fun _ _ hlen => List.take_left' hlen
  exact (htake _ d.toList (Layout.length_encode _ _)).trans
    (htake _ h.digest.toList (Layout.length_encode _ _)).symm

/-- `record_digest`. -/
def recordDigest (header : RecordHeader) (payload : Bytes) : Option Digest :=
  Sha256.digestOf [header.bytes.take recordOffsetDigest, payload]

structure RecordFrame where
  kind : UInt32
  sequence : UInt64
  storeEpoch : UInt64
  arena : UInt32
  prevDigest : Digest

/-- The header `frame_record` starts from, with its digest still zero. -/
def RecordFrame.header (frame : RecordFrame) (payloadLen blocks : Nat) : RecordHeader where
  magic := recordMagic
  formatMajor := Wire.formatMajor
  formatMinor := Wire.formatMinor
  kind := frame.kind
  sequence := frame.sequence
  storeEpoch := frame.storeEpoch
  payloadLen := UInt64.ofNat payloadLen
  blockCount := UInt64.ofNat blocks
  arena := frame.arena
  reserved0 := 0
  reserved1 := 0
  prevDigest := frame.prevDigest
  digest := Vector.replicate 32 0

/-- The end of `frame_record`: the header and the payload, into a buffer that is all zeros. -/
def writeRecord (header : RecordHeader) (payload out : Bytes) :
    Option (Except FormatError Bytes) :=
  match writeTo RecordHeader.layout header out 0 with
  | .error e => some (.error e)
  | .ok out => do
    let stop ← add recordHeaderSize payload.length
    return .ok (← copyAt out recordHeaderSize stop payload)

/-- `frame_record`: the buffer with the record at its front, the blocks it takes and its
digest. -/
def frameRecord (out : Bytes) (frame : RecordFrame) (payload : Bytes) :
    Option (Except FormatError (Bytes × Nat × Digest)) := do
  let total ← add recordHeaderSize payload.length
  let blocks := (total + (blockBytes - 1)) / blockBytes
  if blocks > recordMaxBlocks then return .error .outOfRange
  else
    let extent ← mul blocks blockBytes
    if extent > out.length then return .error .tooSmall
    else
      let header := frame.header payload.length blocks
      let digest ← recordDigest header payload
      let out ← copyAt out 0 extent (List.replicate extent 0)
      let written ← writeRecord { header with digest } payload out
      return written.map fun out => (out, blocks, digest)

structure ParsedRecord where
  header : RecordHeader
  payloadOffset : Nat
  payloadLen : Nat

/-- `ParsedRecord::payload`. -/
def ParsedRecord.payload (p : ParsedRecord) (span : Bytes) : Option Bytes := do
  slice span p.payloadOffset (← add p.payloadOffset p.payloadLen)

/-- `parse_record`; the inner `none` is its refusal. -/
def parseRecord (span : Bytes) : Option (Option ParsedRecord) :=
  match RecordHeader.layout.readFrom span 0 with
  | none => some none
  | some header =>
    if header.magic ≠ recordMagic ∨ header.formatMajor ≠ formatMajor then some none
    else
      let blocks := header.blockCount.toNat
      if blocks = 0 ∨ blocks > recordMaxBlocks then some none
      else match mul blocks blockBytes with
        | none => some none
        | some extent =>
          if extent > span.length then some none
          else match add recordHeaderSize header.payloadLen.toNat with
            | none => some none
            | some stop =>
              if stop > extent then some none
              else do
                let payload ← slice span recordHeaderSize stop
                let digest ← recordDigest header payload
                if header.digest ≠ digest then some none
                else some (some ⟨header, recordHeaderSize, header.payloadLen.toNat⟩)

/-! ### What is framed -/

/-- What a record's digest is of. -/
def hashed (header : RecordHeader) (payload : Bytes) : Bytes := header.front ++ payload

variable {header : RecordHeader} {out payload span : Bytes}

theorem recordDigest_eq (h : payload.length < 2 ^ 60) :
    recordDigest header payload = some (Sha256.hash (hashed header payload)) := by
  have hpieces : [header.front, payload].flatten = hashed header payload := by
    simp [hashed]
  rw [recordDigest, ← RecordHeader.front, Sha256.digestOf_hash, hpieces]
  rw [hpieces, hashed, List.length_append, header.length_front]
  omega

/-- The header of the record that frames `payload`. -/
def framedHeader (frame : RecordFrame) (payload : Bytes) : RecordHeader :=
  { frame.header payload.length 1 with
    digest := Sha256.hash (hashed (frame.header payload.length 1) payload) }

theorem hashed_framedHeader (frame : RecordFrame) (payload bytes : Bytes) :
    hashed (framedHeader frame payload) bytes = hashed (frame.header payload.length 1) bytes := by
  rw [hashed, framedHeader, RecordHeader.front_digest, hashed]

/-- The block it lies in. -/
def framedBlock (frame : RecordFrame) (payload : Bytes) : Bytes :=
  (framedHeader frame payload).bytes
    ++ (payload ++ List.replicate (blockBytes - recordHeaderSize - payload.length) 0)

variable {frame : RecordFrame}

theorem length_framedBlock (h : payload.length ≤ 3968) :
    (framedBlock frame payload).length = blockBytes := by
  simp only [framedBlock, List.length_append, RecordHeader.length_bytes, List.length_replicate,
    blockBytes, recordHeaderSize]
  omega

theorem writeRecord_eq
    (h : recordHeaderSize + payload.length ≤ out.length) (hpayload : payload.length ≤ 3968) :
    writeRecord header payload out = some (.ok (header.bytes
      ++ (payload ++ out.drop (recordHeaderSize + payload.length)))) := by
  have hroom : recordHeaderSize ≤ out.length := by omega
  have hsize : header.bytes.length = recordHeaderSize := header.length_bytes
  have hlen : (splice out 0 header.bytes).length = out.length :=
    length_splice (by rw [hsize]; omega)
  have hbelow : recordHeaderSize + payload.length < usizeValues :=
    Nat.lt_of_le_of_lt (Nat.add_le_add_left hpayload _) (by decide)
  have hall : splice (splice out 0 header.bytes) recordHeaderSize payload
      = header.bytes ++ (payload ++ out.drop (recordHeaderSize + payload.length)) := by
    unfold splice
    rw [List.take_zero, List.nil_append, Nat.zero_add, List.take_left' hsize, List.drop_append,
      List.drop_of_length_le (by omega), List.nil_append, List.drop_drop, hsize,
      Nat.add_sub_cancel_left]
  unfold writeRecord
  rw [writeTo_of_room (by rw [RecordHeader.size_layout]; omega)]
  show (add recordHeaderSize payload.length).bind _ = _
  rw [add_eq hbelow, bind_some]
  show (copyAt (splice out 0 header.bytes) recordHeaderSize _ payload).bind _ = _
  rw [copyAt_eq (by omega) (by omega) (by omega), bind_some, hall]
  rfl

theorem frameRecord_eq (frame : RecordFrame)
    (hpayload : payload.length ≤ 3968) (hout : blockBytes ≤ out.length) :
    frameRecord out frame payload = some (.ok (framedBlock frame payload ++ out.drop blockBytes,
      1, (framedHeader frame payload).digest)) := by
  have htotal : recordHeaderSize + payload.length ≤ blockBytes := by
    simp only [recordHeaderSize, blockBytes]
    omega
  have hblocks : (recordHeaderSize + payload.length + (blockBytes - 1)) / blockBytes = 1 := by
    simp only [recordHeaderSize, blockBytes]
    omega
  have hfill : splice out 0 (List.replicate blockBytes 0)
      = List.replicate blockBytes 0 ++ out.drop blockBytes := by
    rw [splice, List.take_zero, List.nil_append, List.length_replicate, Nat.zero_add]
  have htail : (List.replicate blockBytes 0 ++ out.drop blockBytes).drop
        (recordHeaderSize + payload.length)
      = List.replicate (blockBytes - recordHeaderSize - payload.length) 0
        ++ out.drop blockBytes := by
    rw [List.drop_append_of_le_length (by simpa using htotal), List.drop_replicate, Nat.sub_sub]
  rw [frameRecord, add_eq (Nat.lt_of_le_of_lt htotal (by decide)), bind_eq_bind,
    bind_some]
  simp only [hblocks]
  rw [if_neg (by decide), mul_eq (by decide), bind_eq_bind, bind_some, Nat.one_mul,
    if_neg (Nat.not_lt.mpr hout), recordDigest_eq (by omega), bind_eq_bind,
    bind_some, copyAt_eq (Nat.zero_le _) hout (by simp), bind_some, hfill,
    writeRecord_eq (by simp; omega) hpayload, bind_eq_bind, bind_some, htail]
  simp [framedBlock, framedHeader, Except.map]

theorem frameRecord_ok
    {r : Bytes × Nat × Digest} (h : frameRecord out frame payload = some (.ok r)) :
    payload.length ≤ 3968 ∧ blockBytes ≤ out.length
      ∧ r = (framedBlock frame payload ++ out.drop blockBytes, 1,
          (framedHeader frame payload).digest) := by
  have hbounds : payload.length ≤ 3968 ∧ blockBytes ≤ out.length := by
    unfold frameRecord at h
    obtain ⟨total, htotal, h⟩ := bind_eq_some_iff.mp h
    obtain ⟨-, ⟨⟩⟩ := ite_none_right_eq_some.mp htotal
    dsimp only at h
    split at h
    · cases h
    rename_i hfew
    obtain ⟨extent, hextent, h⟩ := bind_eq_some_iff.mp h
    simp only [recordHeaderSize, blockBytes, recordMaxBlocks] at hfew hextent
    have hone : (128 + payload.length + 4095) / 4096 = 1 := by omega
    rw [hone, mul_eq (by decide)] at hextent
    obtain rfl := some.inj hextent
    split at h
    · cases h
    rename_i hroom
    simp only [blockBytes]
    omega
  rw [frameRecord_eq frame hbounds.1 hbounds.2] at h
  exact ⟨hbounds.1, hbounds.2, (Except.ok.inj (some.inj h)).symm⟩

/-! ### What is parsed -/

/-- The payload of the record at the front of a span. -/
def payloadOf (span : Bytes) (header : RecordHeader) : Bytes :=
  (span.drop recordHeaderSize).take header.payloadLen.toNat

/-- The span holds a record with this header. -/
structure Verified (span : Bytes) (header : RecordHeader) : Prop where
  read : RecordHeader.layout.readFrom span 0 = some header
  magic : header.magic = recordMagic
  major : header.formatMajor = formatMajor
  blocks : header.blockCount.toNat = 1
  room : blockBytes ≤ span.length
  payload : header.payloadLen.toNat ≤ 3968
  digest : header.digest = Sha256.hash (hashed header (payloadOf span header))

theorem parseRecord_cases (span : Bytes) :
    (parseRecord span = some none ∧ ∀ header, ¬ Verified span header)
      ∨ ∃ header, Verified span header
        ∧ parseRecord span = some (some ⟨header, recordHeaderSize, header.payloadLen.toNat⟩) := by
  unfold parseRecord
  split
  · rename_i hread
    exact .inl ⟨rfl, fun header h => by simp [h.read] at hread⟩
  rename_i header hread
  have hsame : ∀ header', Verified span header' → header' = header := fun header' h =>
    some.inj (h.read.symm.trans hread)
  split
  · rename_i hbad
    refine .inl ⟨rfl, fun header' h => ?_⟩
    obtain rfl := hsame header' h
    exact hbad.elim (fun hmagic => hmagic h.magic) fun hmajor => hmajor h.major
  rename_i hgood
  obtain ⟨hmagic, hmajor⟩ := not_or.mp hgood
  dsimp only
  split
  · rename_i hcount
    refine .inl ⟨rfl, fun header' h => ?_⟩
    obtain rfl := hsame header' h
    simp [recordMaxBlocks, h.blocks] at hcount
  rename_i hcount
  have hone : header.blockCount.toNat = 1 := by
    simp only [recordMaxBlocks] at hcount
    omega
  rw [hone, mul_eq (by decide), Nat.one_mul]
  dsimp only
  split
  · rename_i hshort
    refine .inl ⟨rfl, fun header' h => ?_⟩
    exact absurd h.room (Nat.not_le.mpr hshort)
  rename_i hroom
  split
  · rename_i hadd
    refine .inl ⟨rfl, fun header' h => ?_⟩
    obtain rfl := hsame header' h
    have hpayload := h.payload
    rw [add_eq (Nat.lt_of_le_of_lt (Nat.add_le_add_left hpayload _) (by decide))] at hadd
    cases hadd
  rename_i stop hadd
  have hstop : stop = recordHeaderSize + header.payloadLen.toNat := by
    obtain ⟨-, hadd⟩ := ite_none_right_eq_some.mp hadd
    exact (some.inj hadd).symm
  subst hstop
  split
  · rename_i hlong
    refine .inl ⟨rfl, fun header' h => ?_⟩
    obtain rfl := hsame header' h
    have hpayload := h.payload
    simp only [recordHeaderSize, blockBytes] at hlong
    omega
  rename_i hfits
  have hpayload : header.payloadLen.toNat ≤ 3968 := by
    simp only [recordHeaderSize, blockBytes] at hfits
    omega
  have hbytes : (span.take (recordHeaderSize + header.payloadLen.toNat)).drop recordHeaderSize
      = payloadOf span header := by
    rw [payloadOf, List.drop_take, Nat.add_sub_cancel_left]
  have hlen : (payloadOf span header).length ≤ 3968 := by
    rw [payloadOf, List.length_take]
    omega
  rw [slice_eq (Nat.le_add_right _ _) (by omega), bind_eq_bind, bind_some, hbytes,
    recordDigest_eq (by omega), bind_eq_bind, bind_some]
  split
  · rename_i hdigest
    refine .inl ⟨rfl, fun header' h => ?_⟩
    obtain rfl := hsame header' h
    exact hdigest h.digest
  · rename_i hdigest
    exact .inr ⟨header, ⟨hread, not_not.mp hmagic, not_not.mp hmajor, hone, Nat.le_of_not_lt hroom, hpayload,
      not_not.mp hdigest⟩, rfl⟩

theorem parseRecord_of_verified (h : Verified span header) :
    parseRecord span = some (some ⟨header, recordHeaderSize, header.payloadLen.toNat⟩) := by
  obtain ⟨-, hnone⟩ | ⟨header', h', hparse⟩ := parseRecord_cases span
  · exact absurd h (hnone header)
  · obtain rfl := some.inj (h.read.symm.trans h'.read)
    exact hparse

theorem Verified.take_eq (h : Verified span header) :
    span.take (recordHeaderSize + header.payloadLen.toNat)
      = header.bytes ++ payloadOf span header := by
  have hfront := Layout.take_of_readFrom h.read
  rw [Nat.zero_add, List.take_zero, List.nil_append, RecordHeader.size_layout] at hfront
  rw [List.take_add, hfront, payloadOf, RecordHeader.bytes]

theorem verified_framedBlock (frame : RecordFrame)
    (hpayload : payload.length ≤ 3968) (after : Bytes) :
    Verified (framedBlock frame payload ++ after) (framedHeader frame payload)
      ∧ payloadOf (framedBlock frame payload ++ after) (framedHeader frame payload) = payload := by
  have hcount : (framedHeader frame payload).payloadLen.toNat = payload.length := by
    show (UInt64.ofNat payload.length).toNat = _
    rw [UInt64.toNat_ofNat']
    exact Nat.mod_eq_of_lt (Nat.lt_of_le_of_lt hpayload (by decide))
  have hpayloadOf : payloadOf (framedBlock frame payload ++ after) (framedHeader frame payload)
      = payload := by
    rw [payloadOf, framedBlock, List.append_assoc,
      List.drop_left' (i := recordHeaderSize) (framedHeader frame payload).length_bytes,
      List.append_assoc, hcount, List.take_left]
  refine ⟨⟨?_, rfl, rfl, rfl, ?_, by omega, ?_⟩, hpayloadOf⟩
  · rw [framedBlock, List.append_assoc]
    exact Layout.readFrom_front _ _ _
  · rw [List.length_append, length_framedBlock hpayload]
    exact Nat.le_add_right _ _
  · rw [hpayloadOf, hashed_framedHeader]
    rfl

theorem take_framedBlock (frame : RecordFrame) (payload after : Bytes) :
    (framedBlock frame payload ++ after).take recordOffsetDigest
      = (framedHeader frame payload).front := by
  rw [framedBlock, List.append_assoc, List.take_append_of_le_length
    (by rw [RecordHeader.length_bytes]; decide), RecordHeader.front]

/-! ### Damage -/

/-- SHA-256 has no collision between the two byte strings. -/
def NoCollision (a b : Bytes) : Prop := Sha256.hash a = Sha256.hash b → a = b

instance (a b : Bytes) : Decidable (NoCollision a b) :=
  inferInstanceAs (Decidable (_ → _))

theorem Verified.agree {span' : Bytes} {header' : RecordHeader}
    (h : Verified span header) (h' : Verified span' header')
    (hdigest : header'.digest = header.digest)
    (hhashed : hashed header' (payloadOf span' header') = hashed header (payloadOf span header)) :
    ∀ i, i < recordHeaderSize + header.payloadLen.toNat → span'[i]? = span[i]? := by
  obtain ⟨hfront, hpayload⟩ := List.append_inj hhashed (by simp)
  have hbytes : header'.bytes = header.bytes := by
    rw [header'.bytes_eq, header.bytes_eq, hfront, hdigest]
  obtain rfl : header' = header := RecordHeader.layout.encode_injective hbytes
  have htake : span'.take (recordHeaderSize + header'.payloadLen.toNat)
      = span.take (recordHeaderSize + header'.payloadLen.toNat) := by
    rw [h.take_eq, h'.take_eq, hpayload]
  intro i hi
  rw [← List.getElem?_take_of_lt hi, htake, List.getElem?_take_of_lt hi]

/-- A record that was framed is read back as it was, whatever follows its block; and a span that
differs from it before the end of the payload is refused, or is another record, under another
digest, unless SHA-256 collides on what the two digests are of. -/
theorem record_framing {out framed payload : Bytes} {frame : RecordFrame} {blocks : Nat}
    {digest : Digest} (h : frameRecord out frame payload = some (.ok (framed, blocks, digest))) :
    (∀ after, ∃ p, parseRecord (framed.take (blocks * blockBytes) ++ after) = some (some p)
      ∧ p.header.kind = frame.kind ∧ p.header.sequence = frame.sequence
      ∧ p.header.storeEpoch = frame.storeEpoch ∧ p.header.arena = frame.arena
      ∧ p.header.prevDigest = frame.prevDigest
      ∧ p.payload (framed.take (blocks * blockBytes) ++ after) = some payload)
    ∧ ∀ span,
      (∀ p, parseRecord span = some (some p) →
        NoCollision (hashed p.header (payloadOf span p.header))
          (framed.take recordOffsetDigest ++ payload)) →
      (∃ i, i < recordHeaderSize + payload.length ∧ span[i]? ≠ framed[i]?) →
      parseRecord span = some none
        ∨ ∃ p, parseRecord span = some (some p) ∧ p.header.digest ≠ digest := by
  obtain ⟨hpayload, hout, hr⟩ := frameRecord_ok h
  obtain ⟨hframed, hrest⟩ := Prod.mk.inj hr
  obtain ⟨rfl, rfl⟩ := Prod.mk.inj hrest
  subst hframed
  have hblock : (framedBlock frame payload ++ out.drop blockBytes).take (1 * blockBytes)
      = framedBlock frame payload := by
    rw [Nat.one_mul]
    exact List.take_left' (length_framedBlock hpayload)
  have hcount : (framedHeader frame payload).payloadLen.toNat = payload.length := by
    show (UInt64.ofNat payload.length).toNat = _
    rw [UInt64.toNat_ofNat']
    exact Nat.mod_eq_of_lt (Nat.lt_of_le_of_lt hpayload (by decide))
  refine ⟨?_, ?_⟩
  · intro after
    obtain ⟨hverified, hpayloadOf⟩ := verified_framedBlock frame hpayload after
    rw [hblock]
    refine ⟨_, parseRecord_of_verified hverified, rfl, rfl, rfl, rfl, rfl, ?_⟩
    have hroom : 4096 ≤ (framedBlock frame payload ++ after).length := hverified.room
    unfold ParsedRecord.payload
    dsimp only
    rw [hcount, add_eq (Nat.lt_of_le_of_lt (Nat.add_le_add_left hpayload _) (by decide)),
      bind_eq_bind, bind_some, slice_eq (Nat.le_add_right _ _)
        (by simp only [recordHeaderSize]; omega), List.drop_take, Nat.add_sub_cancel_left,
      ← hcount]
    exact congrArg some hpayloadOf
  · intro span hfree ⟨i, hi, hdiffers⟩
    obtain ⟨hrefused, -⟩ | ⟨header, hverified, hparse⟩ := parseRecord_cases span
    · exact .inl hrefused
    refine .inr ⟨_, hparse, fun hsame => hdiffers ?_⟩
    obtain ⟨hframed, hpayloadOf⟩ :=
      verified_framedBlock frame hpayload (out.drop blockBytes)
    have hequal := hfree _ hparse
    rw [take_framedBlock] at hequal
    refine hframed.agree hverified hsame ?_ i (by rw [hcount]; exact hi)
    rw [hpayloadOf]
    refine hequal ?_
    rw [← hverified.digest]
    exact hsame.trans (by rw [hframed.digest, hpayloadOf]; rfl)

def sampleFrame : RecordFrame where
  kind := 1
  sequence := 7
  storeEpoch := 1
  arena := 0
  prevDigest := Vector.replicate 32 0

def nextFrame : RecordFrame := { sampleFrame with sequence := 8 }

theorem noCollision_sample :
    NoCollision (hashed (framedHeader nextFrame [6]) [6])
      (hashed (framedHeader sampleFrame [5]) [5]) := by
  rw [hashed_framedHeader, hashed_framedHeader]
  decide +kernel

/-- The first record is read back from in front of the second, and where the second lies in the
first one's place its digest is another. -/
theorem record_framing_sample :
    (∃ p, parseRecord (framedBlock sampleFrame [5] ++ framedBlock nextFrame [6]) = some (some p)
      ∧ p.header.sequence = 7
      ∧ p.payload (framedBlock sampleFrame [5] ++ framedBlock nextFrame [6]) = some [5])
    ∧ (parseRecord (framedBlock nextFrame [6]) = some none
      ∨ ∃ p, parseRecord (framedBlock nextFrame [6]) = some (some p)
        ∧ p.header.digest ≠ (framedHeader sampleFrame [5]).digest) := by
  have hroom : blockBytes ≤ (List.replicate blockBytes (0 : UInt8)).length := by simp
  have hone : [(5 : UInt8)].length ≤ 3968 := by decide
  have hframe := frameRecord_eq sampleFrame hone hroom
  have hout : (List.replicate blockBytes (0 : UInt8)).drop blockBytes = [] := by simp
  rw [hout, List.append_nil] at hframe
  have hblock : (framedBlock sampleFrame [5]).take (1 * blockBytes) = framedBlock sampleFrame [5] :=
    List.take_of_length_le (by rw [length_framedBlock (by decide), Nat.one_mul])
  have hfirst := record_framing hframe
  rw [hblock] at hfirst
  have hnext := verified_framedBlock nextFrame (show [(6 : UInt8)].length ≤ 3968 by decide) []
  rw [List.append_nil] at hnext
  refine ⟨?_, ?_⟩
  · obtain ⟨p, hparse, -, hsequence, -, -, -, hpayload⟩ := hfirst.1 (framedBlock nextFrame [6])
    exact ⟨p, hparse, hsequence, hpayload⟩
  · refine hfirst.2 (framedBlock nextFrame [6]) ?_ ⟨16, by decide, by decide +kernel⟩
    intro p hparse
    rw [parseRecord_of_verified hnext.1] at hparse
    obtain rfl := some.inj (some.inj hparse)
    have hfront := take_framedBlock sampleFrame [5] []
    rw [List.append_nil] at hfront
    rw [hnext.2, hfront]
    exact noCollision_sample

end Thalyx.Wire
