/-
The bounded writer of JSON: `thalyx::Json` of `user/k5pkg/src/thalyx.rs`.

The writer holds a buffer, whether a write ran over it, and whether a comma stands before what
comes next.  It is the list of the bytes written here, with the buffer's length beside it.  What
the verbs do not use of it (signed numbers, hexadecimal fields, the Latin-1 field) is left out.

`At` is where a writer is: the text that has been asked for so far, which is in the buffer as long
as it fits and makes the writer overflow from then on.  Each operation appends to that text what
the value it writes is written as, so the text of a whole answer is that of a value.
-/
import ThalyxKernel.Lib.Json
import ThalyxKernel.Work.Hacer

namespace Thalyx.Work

open List

/-- `[u8; 32]`: the bytes of a digest. -/
abbrev DigestBytes := Fin 32 → UInt8

/-- `thalyx::Json`. -/
structure Json where
  /-- `out.len()`. -/
  capacity : Nat
  /-- `out[..at]`. -/
  out : Bytes
  overflowed : Bool
  needsComma : Bool

namespace Json

/-- `Json::new`, over a buffer of so many bytes. -/
def new (capacity : Nat) : Json := { capacity, out := [], overflowed := false, needsComma := false }

/-- `Json::finish`: what was written, unless it did not fit. -/
def finish (j : Json) : Option Bytes := if j.overflowed then none else some j.out

def raw (j : Json) (bytes : Bytes) : Json :=
  if j.overflowed = true ∨ j.capacity < j.out.length + bytes.length then
    { j with overflowed := true }
  else { j with out := j.out ++ bytes }

def comma (j : Json) : Json :=
  { (if j.needsComma then j.raw [0x2C] else j) with needsComma := true }

/-- `Json::open`. -/
def openObject (j : Json) : Json := { j.comma.raw [0x7B] with needsComma := false }

/-- `Json::close`. -/
def closeObject (j : Json) : Json := { j.raw [0x7D] with needsComma := true }

def openArray (j : Json) : Json := { j.comma.raw [0x5B] with needsComma := false }

def closeArray (j : Json) : Json := { j.raw [0x5D] with needsComma := true }

/-- One byte of `Json::string_raw`. -/
def stringByte (j : Json) (byte : UInt8) : Json :=
  if byte = 0x22 then j.raw [0x5C, 0x22]
  else if byte = 0x5C then j.raw [0x5C, 0x5C]
  else if byte = 0x0A then j.raw [0x5C, 0x6E]
  else if byte = 0x0D then j.raw [0x5C, 0x72]
  else if byte = 0x09 then j.raw [0x5C, 0x74]
  else if byte.toNat < 0x20 then
    (j.raw [0x5C, 0x75, 0x30, 0x30]).raw
      [Json.hexDigit (byte.toNat / 16), Json.hexDigit (byte.toNat % 16)]
  else j.raw [byte]

def stringRaw (j : Json) (bytes : Bytes) : Json :=
  (bytes.foldl stringByte (j.raw [0x22])).raw [0x22]

def key (j : Json) (name : Bytes) : Json :=
  { (j.comma.stringRaw name).raw [0x3A] with needsComma := false }

/-- `Json::raw_value`: a value already encoded, verbatim. -/
def rawValue (j : Json) (encoded : Bytes) : Json := { j.raw encoded with needsComma := true }

def string (j : Json) (value : Bytes) : Json := { j.comma.stringRaw value with needsComma := true }

def number (j : Json) (value : Nat) : Json :=
  { j.comma.raw (Json.decimal value) with needsComma := true }

def boolean (j : Json) (value : Bool) : Json :=
  { j.comma.raw (if value then ascii "true" else ascii "false") with needsComma := true }

/-- The sixty-four digits `Json::digest` writes. -/
def hexText (value : DigestBytes) : Bytes :=
  (List.ofFn value).flatMap fun byte =>
    [Json.hexDigit (byte.toNat / 16), Json.hexDigit (byte.toNat % 16)]

def digest (j : Json) (value : DigestBytes) : Json := j.string (hexText value)

def fieldString (j : Json) (name value : Bytes) : Json := (j.key name).string value

def fieldNumber (j : Json) (name : Bytes) (value : Nat) : Json := (j.key name).number value

def fieldBool (j : Json) (name : Bytes) (value : Bool) : Json := (j.key name).boolean value

/-- A loop that writes. -/
def each {α : Type} (j : Json) (l : List α) (write : Json → α → Json) : Json := l.foldl write j

/-! ### What a writer has been asked for -/

/-- A writer over a buffer of `capacity` bytes has been asked for `text`. -/
structure At (capacity : Nat) (j : Json) (text : Bytes) (behind : Bool) : Prop where
  capacity_eq : j.capacity = capacity
  needsComma : j.needsComma = behind
  overflowed : j.overflowed = decide (capacity < text.length)
  /-- As long as it fits, it is there. -/
  out : text.length ≤ capacity → j.out = text

variable {capacity : Nat} {j : Json} {text : Bytes} {behind : Bool}

theorem at_new (capacity : Nat) : At capacity (new capacity) [] false where
  capacity_eq := rfl
  needsComma := rfl
  overflowed := by simp [new]
  out := fun _ => rfl

namespace At

theorem finish (h : At capacity j text behind) :
    j.finish = if text.length ≤ capacity then some text else none := by
  unfold Json.finish
  rw [h.overflowed]
  by_cases hfit : text.length ≤ capacity
  · rw [if_pos hfit, if_neg (by simpa using hfit), h.out hfit]
  · rw [if_neg hfit, if_pos (by simpa using hfit)]

theorem raw (h : At capacity j text behind) (bytes : Bytes) :
    At capacity (j.raw bytes) (text ++ bytes) behind := by
  unfold Json.raw
  by_cases hover : capacity < text.length
  · have hflag : j.overflowed = true := by rw [h.overflowed, decide_eq_true hover]
    rw [if_pos (Or.inl hflag)]
    refine ⟨h.capacity_eq, h.needsComma, ?_, ?_⟩
    · rw [length_append]
      exact (decide_eq_true (by omega)).symm
    · rw [length_append]
      omega
  · have hout := h.out (Nat.le_of_not_lt hover)
    have hflag : j.overflowed = false := by rw [h.overflowed, decide_eq_false hover]
    by_cases hfit : (text ++ bytes).length ≤ capacity
    · have hroom : ¬ (j.overflowed = true ∨ j.capacity < j.out.length + bytes.length) := by
        rw [hflag, hout, h.capacity_eq, ← length_append]
        simpa using hfit
      rw [if_neg hroom]
      refine ⟨h.capacity_eq, h.needsComma, ?_, fun _ => ?_⟩
      · rw [hflag]
        exact (decide_eq_false (Nat.not_lt.mpr hfit)).symm
      · rw [hout]
    · have hfull : j.capacity < j.out.length + bytes.length := by
        rw [hout, h.capacity_eq, ← length_append]
        exact Nat.lt_of_not_le hfit
      rw [if_pos (Or.inr hfull)]
      refine ⟨h.capacity_eq, h.needsComma, ?_, fun hle => absurd hle hfit⟩
      exact (decide_eq_true (Nat.lt_of_not_le hfit)).symm

theorem setComma (h : At capacity j text behind) (flag : Bool) :
    At capacity { j with needsComma := flag } text flag :=
  { h with needsComma := rfl }

theorem comma (h : At capacity j text behind) :
    At capacity j.comma (text ++ Json.separator behind) true := by
  unfold Json.comma
  cases behind with
  | false =>
    rw [h.needsComma, Json.separator]
    simpa using h.setComma true
  | true =>
    rw [h.needsComma, Json.separator]
    simpa using (h.raw [0x2C]).setComma true

theorem openObject (h : At capacity j text behind) :
    At capacity j.openObject (text ++ (Json.separator behind ++ [0x7B])) false := by
  have hopen := (h.comma.raw [0x7B]).setComma false
  rwa [append_assoc] at hopen

theorem closeObject (h : At capacity j text behind) :
    At capacity j.closeObject (text ++ [0x7D]) true :=
  (h.raw [0x7D]).setComma true

theorem openArray (h : At capacity j text behind) :
    At capacity j.openArray (text ++ (Json.separator behind ++ [0x5B])) false := by
  have hopen := (h.comma.raw [0x5B]).setComma false
  rwa [append_assoc] at hopen

theorem closeArray (h : At capacity j text behind) :
    At capacity j.closeArray (text ++ [0x5D]) true :=
  (h.raw [0x5D]).setComma true

theorem stringByte (h : At capacity j text behind) (byte : UInt8) :
    At capacity (j.stringByte byte) (text ++ Json.escape byte) behind := by
  unfold Json.stringByte Json.escape
  split
  · exact h.raw _
  split
  · exact h.raw _
  split
  · exact h.raw _
  split
  · exact h.raw _
  split
  · exact h.raw _
  split
  · have htwice := (h.raw [0x5C, 0x75, 0x30, 0x30]).raw
      [Json.hexDigit (byte.toNat / 16), Json.hexDigit (byte.toNat % 16)]
    rwa [append_assoc] at htwice
  · exact h.raw _

theorem stringBytes (h : At capacity j text behind) (bytes : Bytes) :
    At capacity (bytes.foldl Json.stringByte j) (text ++ bytes.flatMap Json.escape) behind := by
  induction bytes generalizing j text with
  | nil =>
    rw [flatMap_nil, append_nil]
    exact h
  | cons byte bytes ih =>
    rw [flatMap_cons, ← append_assoc]
    exact ih (h.stringByte byte)

theorem stringRaw (h : At capacity j text behind) (bytes : Bytes) :
    At capacity (j.stringRaw bytes) (text ++ Json.quoted bytes) behind := by
  have hwhole := ((h.raw [0x22]).stringBytes bytes).raw [0x22]
  rw [append_assoc, append_assoc] at hwhole
  exact hwhole

theorem key (h : At capacity j text behind) (name : Bytes) :
    At capacity (j.key name)
      (text ++ (Json.separator behind ++ (Json.quoted name ++ [0x3A]))) false := by
  have hkey := ((h.comma.stringRaw name).raw [0x3A]).setComma false
  rw [append_assoc, append_assoc] at hkey
  exact hkey

theorem rawValue (h : At capacity j text behind) (encoded : Bytes) :
    At capacity (j.rawValue encoded) (text ++ encoded) true :=
  (h.raw encoded).setComma true

theorem string (h : At capacity j text behind) (value : Bytes) :
    At capacity (j.string value)
      (text ++ (Json.separator behind ++ (Json.Value.string value).text)) true := by
  have hstring := (h.comma.stringRaw value).setComma true
  rwa [append_assoc] at hstring

theorem number (h : At capacity j text behind) (value : Nat) :
    At capacity (j.number value)
      (text ++ (Json.separator behind ++ (Json.Value.number value).text)) true := by
  have hnumber := (h.comma.raw (Json.decimal value)).setComma true
  rwa [append_assoc] at hnumber

theorem boolean (h : At capacity j text behind) (value : Bool) :
    At capacity (j.boolean value)
      (text ++ (Json.separator behind ++ (Json.Value.bool value).text)) true := by
  have hboolean := (h.comma.raw (if value then ascii "true" else ascii "false")).setComma true
  rw [append_assoc] at hboolean
  cases value with
  | false => exact hboolean
  | true => exact hboolean

theorem field {value : Json.Value} {name : Bytes} {write : Json → Json}
    (hwrite : ∀ {j : Json} {text : Bytes}, At capacity j text false →
      At capacity (write j) (text ++ value.text) true) (h : At capacity j text behind) :
    At capacity (write (j.key name))
      (text ++ (Json.separator behind ++ (Json.quoted name ++ (0x3A :: value.text)))) true := by
  have hfield := hwrite (h.key name)
  simpa only [append_assoc, singleton_append] using hfield

theorem fieldString (h : At capacity j text behind) (name value : Bytes) :
    At capacity (j.fieldString name value) (text ++ (Json.separator behind
      ++ (Json.quoted name ++ (0x3A :: (Json.Value.string value).text)))) true :=
  h.field fun hkey => hkey.string value

theorem fieldNumber (h : At capacity j text behind) (name : Bytes) (value : Nat) :
    At capacity (j.fieldNumber name value) (text ++ (Json.separator behind
      ++ (Json.quoted name ++ (0x3A :: (Json.Value.number value).text)))) true :=
  h.field fun hkey => hkey.number value

theorem fieldBool (h : At capacity j text behind) (name : Bytes) (value : Bool) :
    At capacity (j.fieldBool name value) (text ++ (Json.separator behind
      ++ (Json.quoted name ++ (0x3A :: (Json.Value.bool value).text)))) true :=
  h.field fun hkey => hkey.boolean value

theorem items {α : Type} {write : Json → α → Json} {value : α → Json.Value}
    (hwrite : ∀ (a : α) {j : Json} {text : Bytes} {behind : Bool}, At capacity j text behind →
      At capacity (write j a) (text ++ (Json.separator behind ++ (value a).text)) true)
    (h : At capacity j text behind) (l : List α) :
    At capacity (j.each l write) (text ++ Json.itemsText behind (l.map value))
      (behind || !l.isEmpty) := by
  induction l generalizing j text behind with
  | nil => simpa [each, Json.itemsText] using h
  | cons a l ih =>
    have hrest := ih (hwrite a h)
    simpa [each, Json.itemsText] using hrest

end At

end Json

end Thalyx.Work
