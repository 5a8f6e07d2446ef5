/-
The boot package: `boot/uefi/src/package.rs`.

A package is a header, a directory of named entries and the bytes the entries name.  It is
the first thing the loader reads that it did not make itself.  `parse` reads every field at
an offset it has checked and refuses what does not fit together; `none` is where the
loader would stop.

`Format` says what a package is, without an order of checks.  `parse` never stops, and it
accepts exactly the byte strings of this format and returns their directory.
-/
import ThalyxKernel.Lib.Refusing

namespace Thalyx.Boot.Package

open Refusing Checked

/-! ### The format -/

/-- `MAX_MODULES`. -/
def maxModules : Nat := 16

/-- `package::MAGIC`: `THLXPKG0`, the first letter the least significant byte. -/
def magic : Nat := 0x30474B50584C4854

/-- `package::VERSION_MAJOR`. -/
def versionMajor : Nat := 0

/-- The size of `package::Header`. -/
def headerLen : Nat := 40

/-- The size of `package::Entry`. -/
def entryLen : Nat := 64

/-- `module_kind::USER_ELF`. -/
def userElf : Nat := 1

/-- `module_kind::SUPERVISOR`. -/
def supervisor : Nat := 2

/-- `Reject`. -/
inductive Reject where
  | tooShort
  | badMagic
  | incompatibleVersion
  | badLayout
  | lengthMismatch
  | tooManyEntries
  | directoryOutsideFile
  | entryOutsideFile
  | entryOverlap
  | emptyEntry
  | badName
  | unknownKind
deriving DecidableEq, Repr

/-- `Entry`. -/
structure Entry where
  name : List UInt8
  offset : Nat
  length : Nat
  kind : Nat
  flags : Nat
deriving DecidableEq, Repr

/-- `EMPTY`. -/
def empty : Entry := ⟨List.replicate 32 0, 0, 0, 0, 0⟩

/-- `Directory`. -/
structure Directory where
  entries : Vector Entry maxModules
  count : Nat
deriving DecidableEq

/-! ### The parser -/

/-- `u8::is_ascii_graphic`. -/
def isAsciiGraphic (byte : UInt8) : Bool := 0x21 ≤ byte && byte ≤ 0x7E

/-- The checks on a name. -/
def checkName (name : List UInt8) : Refusing Reject Unit := do
  let terminator ← orRefuse (name.findIdx? (· == 0)) .badName
  let text ← checked (Checked.slice name 0 terminator)
  let padding ← checked (Checked.slice name terminator name.length)
  refuseIf (terminator = 0 ∨ text.any (fun byte => !isAsciiGraphic byte)
    ∨ padding.any (fun byte => byte != 0)) .badName

/-- One turn of the loop over the entries that were accepted before. -/
def checkOverlap (offset stop : Nat) (existing : Entry) : Refusing Reject Unit := do
  let otherEnd ← checked (Checked.add existing.offset existing.length)
  refuseIf (offset < otherEnd ∧ existing.offset < stop) .entryOverlap

/-- One turn of the loop over the directory. -/
def parseEntry (bytes : List UInt8) (directoryEnd : Nat) (entries : Vector Entry maxModules)
    (index : Nat) : Refusing Reject (Vector Entry maxModules) := do
  let base ← checked (Checked.add headerLen (← checked (Checked.mul index entryLen)))
  let name ← checked (Checked.slice bytes base (← checked (Checked.add base 32)))
  checkName name
  let offset ← readOr 8 bytes (← checked (Checked.add base 32)) .directoryOutsideFile
  let length ← readOr 8 bytes (← checked (Checked.add base 40)) .directoryOutsideFile
  let kind ← readOr 4 bytes (← checked (Checked.add base 48)) .directoryOutsideFile
  let flags ← readOr 4 bytes (← checked (Checked.add base 52)) .directoryOutsideFile
  refuseIf (length = 0) .emptyEntry
  let stop ← orRefuse (Checked.add offset length) .entryOutsideFile
  refuseIf (bytes.length < stop ∨ offset < directoryEnd) .entryOutsideFile
  refuseIf (kind ≠ userElf ∧ kind ≠ supervisor) .unknownKind
  (← checked (Checked.slice entries.toList 0 index)).forM (checkOverlap offset stop)
  checked (Checked.store entries index ⟨name, offset, length, kind, flags⟩)

/-- `parse`. -/
def parse (bytes : List UInt8) : Refusing Reject Directory := do
  refuseIf (bytes.length < headerLen) .tooShort
  refuseIf ((← readOr 8 bytes 0 .tooShort) ≠ magic) .badMagic
  refuseIf ((← readOr 2 bytes 8 .tooShort) ≠ versionMajor) .incompatibleVersion
  refuseIf ((← readOr 4 bytes 12 .tooShort) ≠ headerLen) .badLayout
  refuseIf ((← readOr 4 bytes 20 .tooShort) ≠ entryLen) .badLayout
  refuseIf ((← readOr 8 bytes 24 .tooShort) ≠ bytes.length) .lengthMismatch
  let count ← readOr 4 bytes 16 .tooShort
  refuseIf (maxModules < count) .tooManyEntries
  let size ← orRefuse (Checked.mul count entryLen) .directoryOutsideFile
  let directoryEnd ← orRefuse (Checked.add headerLen size) .directoryOutsideFile
  refuseIf (bytes.length < directoryEnd) .directoryOutsideFile
  let entries ← (List.range' 0 count).foldlM (parseEntry bytes directoryEnd)
    (Vector.replicate maxModules empty)
  return ⟨entries, count⟩

/-! ### What a package is -/

/-- Printable letters, then NULs to the end. -/
def NameOk (name : List UInt8) : Prop :=
  ∃ text padding, name = text ++ padding ∧ text ≠ [] ∧ (∀ byte ∈ text, isAsciiGraphic byte)
    ∧ padding ≠ [] ∧ ∀ byte ∈ padding, byte = 0

/-- How many entries the header declares. -/
def entryCount (bytes : List UInt8) : Nat := numberAt bytes 16 4

/-- Where the directory ends. -/
def directoryEnd (bytes : List UInt8) : Nat := headerLen + entryCount bytes * entryLen

/-- Where an entry of the directory is. -/
def entryBase (index : Nat) : Nat := headerLen + index * entryLen

/-- The entry at a place of the directory. -/
def entryAt (bytes : List UInt8) (index : Nat) : Entry where
  name := (bytes.drop (entryBase index)).take 32
  offset := numberAt bytes (entryBase index + 32) 8
  length := numberAt bytes (entryBase index + 40) 8
  kind := numberAt bytes (entryBase index + 48) 4
  flags := numberAt bytes (entryBase index + 52) 4

/-- A byte of the package belongs to an entry. -/
def Entry.Covers (entry : Entry) (i : Nat) : Prop :=
  entry.offset ≤ i ∧ i < entry.offset + entry.length

/-- No byte belongs to both. -/
def Apart (a b : Entry) : Prop := ∀ i, ¬ (a.Covers i ∧ b.Covers i)

structure EntryOk (bytes : List UInt8) (entry : Entry) : Prop where
  name : NameOk entry.name
  kind : entry.kind = userElf ∨ entry.kind = supervisor
  nonempty : 0 < entry.length
  behind : directoryEnd bytes ≤ entry.offset
  inside : entry.offset + entry.length ≤ bytes.length

/-- The byte string is a package. -/
structure Format (bytes : List UInt8) : Prop where
  header : headerLen ≤ bytes.length
  magic : numberAt bytes 0 8 = magic
  version : numberAt bytes 8 2 = versionMajor
  headerSize : numberAt bytes 12 4 = headerLen
  entrySize : numberAt bytes 20 4 = entryLen
  total : numberAt bytes 24 8 = bytes.length
  count : entryCount bytes ≤ maxModules
  directory : directoryEnd bytes ≤ bytes.length
  entries : ∀ i < entryCount bytes, EntryOk bytes (entryAt bytes i)
  apart : ∀ i j, i < j → j < entryCount bytes → Apart (entryAt bytes i) (entryAt bytes j)

/-- The first entries of a directory, the rest of them empty. -/
def filled (bytes : List UInt8) (n : Nat) : Vector Entry maxModules :=
  Vector.ofFn fun i => if i.val < n then entryAt bytes i else empty

/-- The directory of a package. -/
def directoryOf (bytes : List UInt8) : Directory :=
  ⟨filled bytes (entryCount bytes), entryCount bytes⟩

/-! ### Names -/

theorem graphic_ne_zero {byte : UInt8} (h : isAsciiGraphic byte) : byte ≠ 0 := by
  rintro rfl
  exact absurd h (by decide)

theorem findIdx?_name {text padding : List UInt8} (htext : ∀ byte ∈ text, isAsciiGraphic byte)
    (hpadding : padding ≠ []) (hzero : ∀ byte ∈ padding, byte = 0) :
    (text ++ padding).findIdx? (· == 0) = some text.length := by
  have hlt : text.length < (text ++ padding).length := by
    have hpos := List.length_pos_of_ne_nil hpadding
    rw [List.length_append]
    omega
  rw [List.findIdx?_eq_some_iff_getElem]
  refine ⟨hlt, ?_, ?_⟩
  · rw [List.getElem_append_right (Nat.le_refl _)]
    simpa using hzero _ (List.getElem_mem _)
  · intro j hj
    rw [List.getElem_append_left hj]
    simpa using graphic_ne_zero (htext _ (List.getElem_mem hj))

theorem meets_checkName (name : List UInt8) :
    Meets (checkName name) (fun _ => NameOk name) (fun _ => ¬ NameOk name) False := by
  refine meets_orRefuse_bind (fun t ht => ?_) fun hnone => ?_
  · obtain ⟨hlt, hterm, -⟩ := List.findIdx?_eq_some_iff_getElem.mp ht
    refine meets_step (slice_eq (Nat.zero_le t) hlt.le) ?_
    refine meets_step (slice_eq hlt.le (Nat.le_refl _)) ?_
    rw [List.take_length, List.drop_zero]
    apply meets_refuseIf
    · intro hpass
      simp only [not_or, List.any_eq_true, not_exists, not_and, Bool.not_eq_true', bne_iff_ne,
        Bool.not_eq_false, ne_eq, not_not] at hpass
      obtain ⟨hzero, htext, hpadding⟩ := hpass
      refine ⟨name.take t, name.drop t, (List.take_append_drop t name).symm, ?_, htext, ?_,
        hpadding⟩
      · simpa [hzero] using List.ne_nil_of_length_pos (Nat.zero_lt_of_lt hlt)
      · simpa using hlt
    · rintro hrefuse ⟨text, padding, rfl, hne, htext, hpadding, hzero⟩
      rw [findIdx?_name htext hpadding hzero] at ht
      cases ht
      rw [List.take_left, List.drop_left] at hrefuse
      rcases hrefuse with hempty | hany | hany
      · exact hne (List.length_eq_zero_iff.mp hempty)
      · obtain ⟨byte, hmem, hbad⟩ := List.any_eq_true.mp hany
        simp [htext byte hmem] at hbad
      · obtain ⟨byte, hmem, hbad⟩ := List.any_eq_true.mp hany
        simp [hzero byte hmem] at hbad
  · rintro ⟨text, padding, rfl, -, htext, hpadding, hzero⟩
    rw [findIdx?_name htext hpadding hzero] at hnone
    simp at hnone

/-! ### Entries -/

theorem apart_iff {a b : Entry} (ha : 0 < a.length) (hb : 0 < b.length) :
    Apart a b ↔ ¬ (b.offset < a.offset + a.length ∧ a.offset < b.offset + b.length) := by
  constructor
  · rintro hapart ⟨hba, hab⟩
    refine hapart (max a.offset b.offset) ⟨?_, ?_⟩ <;> unfold Entry.Covers <;> omega
  · rintro hmeet i ⟨hia, hib⟩
    unfold Entry.Covers at hia hib
    omega

variable {bytes : List UInt8}

theorem meets_checkOverlap {a b : Entry} (hfits : bytes.length < 2 ^ 64)
    (ha : EntryOk bytes a) (hb : 0 < b.length) :
    Meets (checkOverlap b.offset (b.offset + b.length) a) (fun _ => Apart a b)
      (fun _ => ¬ Apart a b) False := by
  refine meets_step (add_eq (ha.inside.trans_lt hfits)) ?_
  apply meets_refuseIf
  · exact (apart_iff ha.nonempty hb).mpr
  · exact fun hmeet hapart => (apart_iff ha.nonempty hb).mp hapart hmeet

variable {index : Nat}

theorem slice_filled (bytes : List UInt8) (hindex : index ≤ maxModules) :
    Checked.slice (filled bytes index).toList 0 index
      = some ((List.range index).map (entryAt bytes)) := by
  rw [slice_eq (Nat.zero_le _) (by rwa [Vector.length_toList]), List.drop_zero]
  congr 1
  apply List.ext_getElem
  · simpa using hindex
  · intro i hi hi'
    have hlt : i < index := by simpa using hi'
    simp [filled, hlt]

theorem store_filled (bytes : List UInt8) (hindex : index < maxModules) :
    Checked.store (filled bytes index) index (entryAt bytes index)
      = some (filled bytes (index + 1)) := by
  rw [store_eq hindex]
  congr 1
  apply Vector.ext
  intro i hi
  rw [Vector.getElem_set]
  by_cases hsame : index = i
  · subst hsame
    simp [filled]
  · rw [if_neg hsame]
    have hiff : i < index ↔ i < index + 1 := by omega
    simp [filled, hiff]

/-- An entry goes in behind those that were accepted, if it is one. -/
def Fits (bytes : List UInt8) (index : Nat) : Prop :=
  EntryOk bytes (entryAt bytes index) ∧ ∀ i < index, Apart (entryAt bytes i) (entryAt bytes index)

theorem meets_parseEntry (hfits : bytes.length < 2 ^ 64)
    (hcount : entryCount bytes ≤ maxModules) (hdirectory : directoryEnd bytes ≤ bytes.length)
    (hindex : index < entryCount bytes) (hbefore : ∀ i < index, EntryOk bytes (entryAt bytes i)) :
    Meets (parseEntry bytes (directoryEnd bytes) (filled bytes index) index)
      (fun entries => entries = filled bytes (index + 1) ∧ Fits bytes index)
      (fun _ => ¬ Fits bytes index) False := by
  have hbase : entryBase index + 64 ≤ bytes.length := by
    simp only [directoryEnd, entryLen] at hdirectory
    simp only [entryBase, entryLen]
    omega
  have hsmall : bytes.length < Checked.usizeValues := hfits
  have hadd : ∀ k ≤ 64, Checked.add (entryBase index) k = some (entryBase index + k) :=
    fun k hk => add_eq (by omega)
  have hstart : headerLen + index * entryLen = entryBase index := rfl
  have hread : ∀ {k width : Nat} {f : Nat → Refusing Reject (Vector Entry maxModules)} {e P Q S},
      k + width ≤ 64 → Meets (f (numberAt bytes (entryBase index + k) width)) P Q S →
      Meets (readOr width bytes (entryBase index + k) e >>= f) P Q S :=
    fun hk h => meets_readOr_bind (by omega) (by omega) h
  unfold parseEntry
  refine meets_step (mul_eq (by omega)) ?_
  refine meets_step (add_eq (by omega)) ?_
  rw [hstart]
  refine meets_step (hadd 32 (by omega)) ?_
  refine meets_step (slice_eq (Nat.le_add_right _ _) (by omega)) ?_
  rw [List.drop_take, Nat.add_sub_cancel_left]
  refine ((meets_checkName _).imp (fun _ h => h) fun _ h hfit => h hfit.1.name).bind
    fun _ hname => ?_
  refine meets_step (hadd 32 (by omega)) (hread (by omega) ?_)
  refine meets_step (hadd 40 (by omega)) (hread (by omega) ?_)
  refine meets_step (hadd 48 (by omega)) (hread (by omega) ?_)
  refine meets_step (hadd 52 (by omega)) (hread (by omega) ?_)
  refine meets_refuseIf_bind (fun hempty hfit => ?_) fun hnonempty => ?_
  · exact hfit.1.nonempty.ne' hempty
  refine meets_orRefuse_bind (fun stop hstop => ?_) fun hnone hfit => ?_
  swap
  · have hinside : numberAt bytes (entryBase index + 32) 8 + numberAt bytes (entryBase index + 40) 8
        ≤ bytes.length := hfit.1.inside
    exact absurd (Checked.add_eq_none_iff.mp hnone) (by omega)
  obtain ⟨rfl, -⟩ := Checked.add_eq_some_iff.mp hstop
  refine meets_refuseIf_bind (fun houtside hfit => ?_) fun hinside => ?_
  · rcases houtside with hbeyond | hwithin
    · exact Nat.not_lt.mpr hfit.1.inside hbeyond
    · exact Nat.not_lt.mpr hfit.1.behind hwithin
  refine meets_refuseIf_bind (fun hunknown hfit => ?_) fun hkind => ?_
  · exact hfit.1.kind.elim hunknown.1 hunknown.2
  have hentry : EntryOk bytes (entryAt bytes index) := by
    refine ⟨hname, ?_, Nat.pos_of_ne_zero hnonempty, ?_, ?_⟩
    · by_contra hneither
      exact hkind (not_or.mp hneither)
    · exact Nat.not_lt.mp (not_or.mp hinside).2
    · exact Nat.not_lt.mp (not_or.mp hinside).1
  refine meets_step (slice_filled bytes (by omega)) ?_
  refine (meets_forM (P := fun a => Apart a (entryAt bytes index)) fun a ha => ?_).bind
    fun _ hapart => ?_
  · obtain ⟨i, hi, rfl⟩ := List.mem_map.mp ha
    refine (meets_checkOverlap hfits (hbefore i (List.mem_range.mp hi)) hentry.nonempty).imp
      (fun _ h => h) fun _ hmeet hfit => hmeet (hfit.2 i (List.mem_range.mp hi))
  · refine meets_checked (store_filled bytes (by omega)) ⟨rfl, hentry, fun i hi => ?_⟩
    exact hapart _ (List.mem_map_of_mem (List.mem_range.mpr hi))

/-! ### The package -/

theorem filled_zero (bytes : List UInt8) : filled bytes 0 = Vector.replicate maxModules empty := by
  apply Vector.ext
  intro i hi
  simp [filled]

theorem meets_parse (bytes : List UInt8) :
    Meets (parse bytes) (fun directory => Format bytes ∧ directory = directoryOf bytes)
      (fun _ => ¬ Format bytes) False := by
  unfold parse
  refine meets_refuseIf_bind (fun hshort hformat => ?_) fun hlen => ?_
  · exact Nat.not_lt.mpr hformat.header hshort
  have hheader : headerLen ≤ bytes.length := Nat.not_lt.mp hlen
  have hread : ∀ {k width : Nat} {f : Nat → Refusing Reject Directory} {e P Q S},
      k + width ≤ headerLen → Meets (f (numberAt bytes k width)) P Q S →
      Meets (readOr width bytes k e >>= f) P Q S :=
    fun hk h => meets_readOr_bind (by unfold headerLen Checked.usizeValues at *; omega)
      (by omega) h
  refine hread (by decide) (meets_refuseIf_bind (fun hbad hformat => ?_) fun hmagic => ?_)
  · exact hbad hformat.magic
  refine hread (by decide) (meets_refuseIf_bind (fun hbad hformat => ?_) fun hversion => ?_)
  · exact hbad hformat.version
  refine hread (by decide) (meets_refuseIf_bind (fun hbad hformat => ?_) fun hsize => ?_)
  · exact hbad hformat.headerSize
  refine hread (by decide) (meets_refuseIf_bind (fun hbad hformat => ?_) fun hentry => ?_)
  · exact hbad hformat.entrySize
  refine hread (by decide) (meets_refuseIf_bind (fun hbad hformat => ?_) fun htotal => ?_)
  · exact hbad hformat.total
  have hfits : bytes.length < 2 ^ 64 := not_not.mp htotal ▸ numberAt_lt bytes 24 8
  refine hread (by decide) (meets_refuseIf_bind (fun hbad hformat => ?_) fun hcount => ?_)
  · exact Nat.not_lt.mpr hformat.count hbad
  have hcount : entryCount bytes ≤ maxModules := Nat.not_lt.mp hcount
  have hmul : entryCount bytes * entryLen < Checked.usizeValues := by
    unfold maxModules at hcount
    unfold entryLen Checked.usizeValues
    omega
  have hadd : headerLen + entryCount bytes * entryLen < Checked.usizeValues := by
    unfold maxModules at hcount
    unfold headerLen entryLen Checked.usizeValues
    omega
  refine meets_orRefuse_bind (fun size hsome => ?_) fun hnone => ?_
  swap
  · exact absurd ((mul_eq hmul).symm.trans hnone) (by simp)
  obtain rfl := Option.some_inj.mp ((mul_eq hmul).symm.trans hsome)
  refine meets_orRefuse_bind (fun stop hsome => ?_) fun hnone => ?_
  swap
  · exact absurd ((add_eq hadd).symm.trans hnone) (by simp)
  obtain rfl := Option.some_inj.mp ((add_eq hadd).symm.trans hsome)
  refine meets_refuseIf_bind (fun hshort hformat => ?_) fun hroom => ?_
  · exact Nat.not_lt.mpr hformat.directory hshort
  have hdirectory : directoryEnd bytes ≤ bytes.length := Nat.not_lt.mp hroom
  -- After some turns the entries read so far are entries of the format, each apart from the
  -- earlier ones, and what is returned holds them.
  have hturn : ∀ index, 0 ≤ index → index < 0 + entryCount bytes → ∀ entries,
      entries = filled bytes index ∧ (∀ i < index, Fits bytes i) →
      Meets (parseEntry bytes (directoryEnd bytes) entries index)
        (fun entries => entries = filled bytes (index + 1) ∧ ∀ i < index + 1, Fits bytes i)
        (fun _ => ¬ Format bytes) False := by
    rintro index - hindex _ ⟨rfl, hall⟩
    rw [Nat.zero_add] at hindex
    refine (meets_parseEntry hfits hcount hdirectory hindex fun i hi => (hall i hi).1).imp
      (fun _ h => ⟨h.1, fun i hi => ?_⟩) fun _ hmisfit hformat => hmisfit ?_
    · rcases Nat.lt_succ_iff_lt_or_eq.mp hi with hlt | rfl
      · exact hall i hlt
      · exact h.2
    · exact ⟨hformat.entries index hindex, fun i hi => hformat.apart i index hi hindex⟩
  have hloop := meets_loop
    (fun index entries => entries = filled bytes index ∧ ∀ i < index, Fits bytes i)
    ⟨rfl, by simp⟩ hturn
  rw [filled_zero] at hloop
  refine hloop.bind fun entries hentries => ?_
  rw [Nat.zero_add] at hentries
  obtain ⟨rfl, hall⟩ := hentries
  refine meets_pure ⟨?_, rfl⟩
  exact ⟨hheader, not_not.mp hmagic, not_not.mp hversion, not_not.mp hsize, not_not.mp hentry,
    not_not.mp htotal, hcount, hdirectory, fun i hi => (hall i hi).1,
    fun i j hij hj => (hall j hj).2 i hij⟩

/-- **The parser never stops, and it accepts exactly the packages.**  What it returns then is
their directory. -/
theorem parse_exact (bytes : List UInt8) :
    (∃ answer, (parse bytes).run = some answer)
      ∧ ∀ directory, (parse bytes).run = some (.ok directory)
          ↔ Format bytes ∧ directory = directoryOf bytes := by
  have hmeets := meets_parse bytes
  obtain ⟨answer, hrun⟩ := hmeets.answers
  refine ⟨⟨answer, hrun⟩, fun directory => ⟨fun h => hmeets.of_ok h, ?_⟩⟩
  rintro ⟨hformat, rfl⟩
  rw [Meets, hrun] at hmeets
  cases answer with
  | ok got => rw [hrun, hmeets.2]
  | error reason => exact absurd hformat hmeets

/-- A package of one entry whose payload is one byte. -/
example : (parse (littleEndian 8 magic ++ littleEndian 4 0 ++ littleEndian 4 headerLen
    ++ littleEndian 4 1 ++ littleEndian 4 entryLen ++ littleEndian 16 105
    ++ littleEndian 32 0x696E69 ++ littleEndian 8 104 ++ littleEndian 8 1
    ++ littleEndian 16 userElf ++ [7])).run.map (·.map (·.count)) = some (.ok 1) := by decide +kernel

end Thalyx.Boot.Package
