/-
Well-formed UTF-8.

The bytes of a text are read one at a time.  Between two characters the reader is at the start;
inside one it knows how many bytes are to come and, after four of the leading bytes, that the
next one comes from a shorter range: that is what rules out overlong forms, surrogates and what
is beyond the last code point.

What is used of it is that an ASCII byte stands alone: it is a character where one can begin and
nothing anywhere else, so a text with ASCII bytes between its parts is well-formed exactly when
its parts are.
-/
import Mathlib.Tactic.Common

namespace Thalyx.Utf8

/-- What the reader expects next. -/
inductive Expect where
  | start
  | last
  | two
  | three
  /-- After `E0`. -/
  | notOverlong3
  /-- After `ED`. -/
  | notSurrogate
  /-- After `F0`. -/
  | notOverlong4
  /-- After `F4`. -/
  | notBeyond
  deriving DecidableEq, Repr

/-- The byte is in a range, both ends included. -/
def within (lo hi : Nat) (b : UInt8) : Bool := lo ≤ b.toNat && b.toNat ≤ hi

/-- One byte read, if it may stand here. -/
def step : Expect → UInt8 → Option Expect
  | .start, b =>
    if within 0x00 0x7F b then some .start
    else if within 0xC2 0xDF b then some .last
    else if within 0xE0 0xE0 b then some .notOverlong3
    else if within 0xED 0xED b then some .notSurrogate
    else if within 0xE1 0xEF b then some .two
    else if within 0xF0 0xF0 b then some .notOverlong4
    else if within 0xF1 0xF3 b then some .three
    else if within 0xF4 0xF4 b then some .notBeyond
    else none
  | .last, b => if within 0x80 0xBF b then some .start else none
  | .two, b => if within 0x80 0xBF b then some .last else none
  | .three, b => if within 0x80 0xBF b then some .two else none
  | .notOverlong3, b => if within 0xA0 0xBF b then some .last else none
  | .notSurrogate, b => if within 0x80 0x9F b then some .last else none
  | .notOverlong4, b => if within 0x90 0xBF b then some .two else none
  | .notBeyond, b => if within 0x80 0x8F b then some .two else none

/-- The bytes read from somewhere on. -/
def read : Expect → List UInt8 → Option Expect
  | e, [] => some e
  | e, b :: rest => (step e b).bind fun e => read e rest

/-- Well-formed UTF-8. -/
def Valid (bytes : List UInt8) : Prop := read .start bytes = some .start

instance (bytes : List UInt8) : Decidable (Valid bytes) :=
  inferInstanceAs (Decidable (read .start bytes = some .start))

/-- Nothing but ASCII. -/
def Ascii (bytes : List UInt8) : Prop := ∀ b ∈ bytes, b.toNat < 0x80

instance (bytes : List UInt8) : Decidable (Ascii bytes) :=
  List.decidableBAll (fun b : UInt8 => b.toNat < 0x80) bytes

theorem read_append (e : Expect) (xs ys : List UInt8) :
    read e (xs ++ ys) = (read e xs).bind fun e => read e ys := by
  induction xs generalizing e with
  | nil => rfl
  | cons b rest ih =>
    simp only [List.cons_append, read]
    cases step e b with
    | none => rfl
    | some e' => exact ih e'

theorem not_within {lo hi : Nat} {b : UInt8} (hb : b.toNat < 0x80) (hlo : 0x80 ≤ lo) :
    within lo hi b = false := by
  simp only [within, Bool.and_eq_false_iff, decide_eq_false_iff_not]
  omega

theorem step_ascii {b : UInt8} (hb : b.toNat < 0x80) (e : Expect) :
    step e b = if e = .start then some .start else none := by
  have hin : within 0x00 0x7F b = true := by
    simp only [within, Bool.and_eq_true, decide_eq_true_eq]
    omega
  cases e with
  | start => simp [step, hin]
  | last => simp [step, not_within hb]
  | two => simp [step, not_within hb]
  | three => simp [step, not_within hb]
  | notOverlong3 => simp [step, not_within hb]
  | notSurrogate => simp [step, not_within hb]
  | notOverlong4 => simp [step, not_within hb]
  | notBeyond => simp [step, not_within hb]

variable {bytes mid xs ys : List UInt8}

theorem read_ascii (hne : bytes ≠ []) (h : Ascii bytes) (e : Expect) :
    read e bytes = if e = .start then some .start else none := by
  induction bytes generalizing e with
  | nil => exact absurd rfl hne
  | cons b rest ih =>
    simp only [read]
    rw [step_ascii (h b List.mem_cons_self)]
    by_cases he : e = .start
    · rw [if_pos he, Option.bind_some]
      by_cases hrest : rest = []
      · rw [hrest]
        rfl
      · rw [ih hrest fun c hc => h c (List.mem_cons_of_mem b hc)]
        rfl
    · rw [if_neg he]
      rfl

theorem Ascii.valid (h : Ascii bytes) : Valid bytes := by
  by_cases hne : bytes = []
  · rw [hne]
    rfl
  · exact (read_ascii hne h .start).trans (if_pos rfl)

/-- **Parts with ASCII between them are well-formed together exactly when each is.** -/
theorem valid_between (hne : mid ≠ []) (h : Ascii mid) :
    Valid (xs ++ mid ++ ys) ↔ Valid xs ∧ Valid ys := by
  unfold Valid
  rw [read_append, read_append]
  cases hxs : read .start xs with
  | none => simp
  | some e =>
    rw [Option.bind_some, read_ascii hne h]
    by_cases he : e = .start
    · simp [he]
    · simp [he]

theorem valid_after (h : Ascii mid) : Valid (xs ++ mid) ↔ Valid xs := by
  by_cases hne : mid = []
  · rw [hne, List.append_nil]
  · have hboth : Valid (xs ++ mid ++ []) ↔ Valid xs ∧ Valid [] := valid_between hne h
    rw [List.append_nil] at hboth
    exact hboth.trans (and_iff_left rfl)

theorem valid_before (h : Ascii mid) : Valid (mid ++ ys) ↔ Valid ys := by
  by_cases hne : mid = []
  · rw [hne, List.nil_append]
  · have hboth : Valid ([] ++ mid ++ ys) ↔ Valid [] ∧ Valid ys := valid_between hne h
    exact hboth.trans (and_iff_right rfl)

end Thalyx.Utf8
