/-
JSON: values, the text a value is written as, and reading it back.

`parse` reads one value and nothing else, from texts without white space between the tokens,
with natural numbers only, and with the escapes that stand for ASCII characters.  `Value.text`
writes a value.  A value is read back from its text, and the text is well-formed UTF-8 exactly
when the strings in the value are.

The order of things is the order of the tree: a character, a string or a number, the items of an
array and the members of an object, and then any value by induction over it.
-/
import Mathlib.Algebra.Order.Ring.Nat
import ThalyxKernel.Lib.Utf8

namespace Thalyx.Json

open List Utf8

/-- A value. -/
inductive Value where
  | bool (value : Bool)
  | number (value : Nat)
  | string (value : List UInt8)
  | array (items : List Value)
  | object (members : List (List UInt8 × Value))

/-! ### Reading -/

/-- The value of a hexadecimal digit. -/
def hexValue (b : UInt8) : Option Nat :=
  if Utf8.within 0x30 0x39 b then some (b.toNat - 0x30)
  else if Utf8.within 0x61 0x66 b then some (b.toNat - 0x57)
  else if Utf8.within 0x41 0x46 b then some (b.toNat - 0x37)
  else none

/-- The escapes of one letter, with the characters they stand for. -/
def escapes : List (UInt8 × UInt8) :=
  [(0x22, 0x22), (0x5C, 0x5C), (0x2F, 0x2F), (0x62, 0x08), (0x66, 0x0C), (0x6E, 0x0A),
    (0x72, 0x0D), (0x74, 0x09)]

/-- A character in front of what was read. -/
def prepend (b : UInt8) (p : List UInt8 × List UInt8) : List UInt8 × List UInt8 :=
  (b :: p.1, p.2)

/-- Where the reader of a string is. -/
inductive Inside where
  | plain
  /-- Behind a backslash. -/
  | escape
  /-- Before a hexadecimal digit of a character, with as many to come after it. -/
  | hex (left value : Nat)

/-- The characters up to the closing quote, and what follows it.  A character given by its
number is read if it is ASCII. -/
def readChars : Inside → List UInt8 → Option (List UInt8 × List UInt8)
  | _, [] => none
  | .plain, b :: t =>
    if b = 0x22 then some ([], t)
    else if b = 0x5C then readChars .escape t
    else if 0x20 ≤ b.toNat then (readChars .plain t).map (prepend b)
    else none
  | .escape, b :: t =>
    if b = 0x75 then readChars (.hex 3 0) t
    else (escapes.lookup b).bind fun c => (readChars .plain t).map (prepend c)
  | .hex left value, b :: t =>
    (hexValue b).bind fun x =>
      if left = 0 then
        if 16 * value + x < 0x80 then
          (readChars .plain t).map (prepend (UInt8.ofNat (16 * value + x)))
        else none
      else readChars (.hex (left - 1) (16 * value + x)) t

def isDigit (b : UInt8) : Bool := Utf8.within 0x30 0x39 b

/-- What a run of digits counts. -/
def count (ds : List UInt8) : Nat := ds.foldl (fun n b => 10 * n + (b.toNat - 0x30)) 0

/-- A natural number without a leading zero. -/
def readNumber (bytes : List UInt8) : Option (Nat × List UInt8) :=
  let ds := bytes.takeWhile isDigit
  if ds = [] ∨ (ds.head? = some 0x30 ∧ ds ≠ [0x30]) then none
  else some (count ds, bytes.dropWhile isDigit)

def trueText : List UInt8 := [0x74, 0x72, 0x75, 0x65]
def falseText : List UInt8 := [0x66, 0x61, 0x6C, 0x73, 0x65]

mutual

/-- A value at the front of a text, and what follows it.  No white space is read, and no number
but a natural one. -/
def readValue : Nat → List UInt8 → Option (Value × List UInt8)
  | 0, _ => none
  | _, [] => none
  | fuel + 1, b :: t =>
    if b = 0x22 then (readChars .plain t).map fun p => (.string p.1, p.2)
    else if b = 0x5B then
      if t.head? = some 0x5D then some (.array [], t.tail)
      else (readItems fuel t).map fun p => (.array p.1, p.2)
    else if b = 0x7B then
      if t.head? = some 0x7D then some (.object [], t.tail)
      else (readMembers fuel t).map fun p => (.object p.1, p.2)
    else if trueText.isPrefixOf (b :: t) then some (.bool true, t.drop 3)
    else if falseText.isPrefixOf (b :: t) then some (.bool false, t.drop 4)
    else (readNumber (b :: t)).map fun p => (.number p.1, p.2)

/-- The items up to the closing bracket, at least one. -/
def readItems : Nat → List UInt8 → Option (List Value × List UInt8)
  | 0, _ => none
  | fuel + 1, bytes =>
    (readValue fuel bytes).bind fun p =>
      match p.2 with
      | [] => none
      | c :: t =>
        if c = 0x5D then some ([p.1], t)
        else if c = 0x2C then (readItems fuel t).map fun q => (p.1 :: q.1, q.2)
        else none

/-- The members up to the closing brace, at least one. -/
def readMembers : Nat → List UInt8 → Option (List (List UInt8 × Value) × List UInt8)
  | 0, _ => none
  | _, [] => none
  | fuel + 1, b :: t =>
    if b = 0x22 then
      (readChars .plain t).bind fun k =>
        if k.2.head? = some 0x3A then
          (readValue fuel k.2.tail).bind fun p =>
            match p.2 with
            | [] => none
            | c :: t =>
              if c = 0x7D then some ([(k.1, p.1)], t)
              else if c = 0x2C then
                (readMembers fuel t).map fun q => ((k.1, p.1) :: q.1, q.2)
              else none
        else none
    else none

end

/-- The value a text denotes, if it is one value and nothing else. -/
def parse (bytes : List UInt8) : Option Value :=
  match readValue (bytes.length + 1) bytes with
  | some (v, []) => some v
  | _ => none

/-! ### Writing -/

/-- A hexadecimal digit, in lower case. -/
def hexDigit (n : Nat) : UInt8 := UInt8.ofNat (if n < 10 then 0x30 + n else 0x57 + n)

/-- How a character of a string is written. -/
def escape (b : UInt8) : List UInt8 :=
  if b = 0x22 then [0x5C, 0x22]
  else if b = 0x5C then [0x5C, 0x5C]
  else if b = 0x0A then [0x5C, 0x6E]
  else if b = 0x0D then [0x5C, 0x72]
  else if b = 0x09 then [0x5C, 0x74]
  else if b.toNat < 0x20 then
    [0x5C, 0x75, 0x30, 0x30, hexDigit (b.toNat / 16), hexDigit (b.toNat % 16)]
  else [b]

/-- A string. -/
def quoted (s : List UInt8) : List UInt8 := 0x22 :: (s.flatMap escape ++ [0x22])

/-- The digits of a number, the last one first, at most so many. -/
def digits : Nat → Nat → List UInt8
  | 0, _ => []
  | fuel + 1, n =>
    UInt8.ofNat (0x30 + n % 10) :: if n / 10 = 0 then [] else digits fuel (n / 10)

/-- A number. -/
def decimal (n : Nat) : List UInt8 := (digits (n + 1) n).reverse

/-- What stands before an item: a comma, unless it is the first. -/
def separator (comma : Bool) : List UInt8 := if comma then [0x2C] else []

mutual

/-- A value as it is written. -/
def Value.text : Value → List UInt8
  | .bool b => if b then trueText else falseText
  | .number n => decimal n
  | .string s => quoted s
  | .array vs => 0x5B :: (itemsText false vs ++ [0x5D])
  | .object fs => 0x7B :: (membersText false fs ++ [0x7D])

/-- Items, the first of them behind a comma or not. -/
def itemsText (comma : Bool) : List Value → List UInt8
  | [] => []
  | v :: vs => separator comma ++ (v.text ++ itemsText true vs)

def membersText (comma : Bool) : List (List UInt8 × Value) → List UInt8
  | [] => []
  | (key, v) :: fs =>
    separator comma ++ (quoted key ++ (0x3A :: (v.text ++ membersText true fs)))

end

/-! ### A written value is read back -/

@[elab_as_elim, induction_eliminator]
theorem Value.induct {motive : Value → Prop} (bool : ∀ b, motive (.bool b))
    (number : ∀ n, motive (.number n)) (string : ∀ s, motive (.string s))
    (array : ∀ vs, (∀ v ∈ vs, motive v) → motive (.array vs))
    (object : ∀ fs, (∀ f ∈ fs, motive f.2) → motive (.object fs)) (v : Value) : motive v :=
  Value.rec (motive_1 := motive) (motive_2 := fun vs => ∀ v ∈ vs, motive v)
    (motive_3 := fun fs => ∀ f ∈ fs, motive f.2) (motive_4 := fun f => motive f.2)
    bool number string array object
    (fun _ h => absurd h not_mem_nil)
    (fun _ _ hv hvs => List.forall_mem_cons.mpr ⟨hv, hvs⟩)
    (fun _ h => absurd h not_mem_nil)
    (fun _ _ hf hfs => List.forall_mem_cons.mpr ⟨hf, hfs⟩)
    (fun _ _ hv => hv) v

variable {b : UInt8}

theorem readChars_letter {c : UInt8} (hb : b ≠ 0x75) (hc : escapes.lookup b = some c)
    (t : List UInt8) :
    readChars .plain (0x5C :: b :: t) = (readChars .plain t).map (prepend c) := by
  simp only [readChars]
  rw [if_neg (by decide), if_true, if_neg hb, hc]
  rfl

theorem hexValue_hexDigit (n : Nat) (h : n < 16) : hexValue (hexDigit n) = some n := by
  have hall : ∀ n < 16, hexValue (hexDigit n) = some n := by decide
  exact hall n h

theorem readChars_hex (hb : b.toNat < 0x20) (t : List UInt8) :
    readChars .plain
        (0x5C :: 0x75 :: 0x30 :: 0x30 :: hexDigit (b.toNat / 16) :: hexDigit (b.toNat % 16) :: t)
      = (readChars .plain t).map (prepend b) := by
  have hzero : hexValue 0x30 = some 0 := rfl
  have hhigh := hexValue_hexDigit (b.toNat / 16) (by omega)
  have hlow := hexValue_hexDigit (b.toNat % 16) (by omega)
  have hvalue : 16 * (b.toNat / 16) + b.toNat % 16 = b.toNat := Nat.div_add_mod b.toNat 16
  simp only [readChars]
  rw [if_neg (by decide), if_true, if_true, hzero, hhigh, hlow]
  simp only [Option.bind_some, Nat.mul_zero, Nat.zero_add, hvalue]
  rw [if_neg (by decide), if_neg (by decide), if_neg (by decide), if_true,
    if_pos (by omega), UInt8.ofNat_toNat]

theorem readChars_plain (hquote : b ≠ 0x22) (hback : b ≠ 0x5C)
    (hb : 0x20 ≤ b.toNat) (t : List UInt8) :
    readChars .plain (b :: t) = (readChars .plain t).map (prepend b) := by
  simp only [readChars]
  rw [if_neg hquote, if_neg hback, if_pos hb]

theorem readChars_escape (b : UInt8) (t : List UInt8) :
    readChars .plain (escape b ++ t) = (readChars .plain t).map (prepend b) := by
  unfold escape
  by_cases hquote : b = 0x22
  · rw [if_pos hquote, hquote]
    exact readChars_letter (by decide) rfl t
  rw [if_neg hquote]
  by_cases hback : b = 0x5C
  · rw [if_pos hback, hback]
    exact readChars_letter (by decide) rfl t
  rw [if_neg hback]
  by_cases hline : b = 0x0A
  · rw [if_pos hline, hline]
    exact readChars_letter (by decide) rfl t
  rw [if_neg hline]
  by_cases hreturn : b = 0x0D
  · rw [if_pos hreturn, hreturn]
    exact readChars_letter (by decide) rfl t
  rw [if_neg hreturn]
  by_cases htab : b = 0x09
  · rw [if_pos htab, htab]
    exact readChars_letter (by decide) rfl t
  rw [if_neg htab]
  by_cases hb : b.toNat < 0x20
  · rw [if_pos hb]
    exact readChars_hex hb t
  · rw [if_neg hb]
    exact readChars_plain hquote hback (Nat.le_of_not_lt hb) t

theorem readChars_escaped (s t : List UInt8) :
    readChars .plain (s.flatMap escape ++ 0x22 :: t) = some (s, t) := by
  induction s with
  | nil => rfl
  | cons b s ih =>
    rw [flatMap_cons, append_assoc, readChars_escape, ih]
    rfl

theorem count_snoc (ds : List UInt8) (b : UInt8) :
    count (ds ++ [b]) = 10 * count ds + (b.toNat - 0x30) := by
  simp [count, foldl_append]

theorem digit_toNat (n : Nat) : (UInt8.ofNat (0x30 + n % 10)).toNat = 0x30 + n % 10 := by
  have hmod : n % 10 < 10 := Nat.mod_lt n (by decide)
  rw [UInt8.toNat_ofNat']
  omega

theorem digits_isDigit (fuel n : Nat) : ∀ b ∈ digits fuel n, isDigit b = true := by
  induction fuel generalizing n with
  | zero => exact fun b hb => absurd hb not_mem_nil
  | succ fuel ih =>
    intro b hb
    rcases List.mem_cons.mp hb with rfl | hb
    · have hmod : n % 10 < 10 := Nat.mod_lt n (by decide)
      simp only [isDigit, Utf8.within, digit_toNat, Bool.and_eq_true, decide_eq_true_eq]
      omega
    · by_cases hn : n / 10 = 0
      · rw [if_pos hn] at hb
        exact absurd hb not_mem_nil
      · rw [if_neg hn] at hb
        exact ih (n / 10) b hb

theorem decimal_isDigit (n : Nat) : ∀ b ∈ decimal n, isDigit b = true :=
  fun b hb => digits_isDigit (n + 1) n b (List.mem_reverse.mp hb)

variable {fuel k n : Nat}

theorem count_digits (h : n < fuel) : count (digits fuel n).reverse = n := by
  induction fuel generalizing n with
  | zero => exact absurd h (Nat.not_lt_zero n)
  | succ fuel ih =>
    simp only [digits, reverse_cons]
    rw [count_snoc, digit_toNat]
    by_cases hn : n / 10 = 0
    · rw [if_pos hn]
      simp only [reverse_nil, count, foldl_nil]
      omega
    · rw [if_neg hn, ih (by omega)]
      omega

theorem count_decimal (n : Nat) : count (decimal n) = n := count_digits (Nat.lt_succ_self n)

theorem digits_head (h : n < fuel) (hn : n ≠ 0) :
    ∃ b, (digits fuel n).reverse.head? = some b ∧ b ≠ 0x30 := by
  induction fuel generalizing n with
  | zero => exact absurd h (Nat.not_lt_zero n)
  | succ fuel ih =>
    simp only [digits, reverse_cons, head?_append]
    by_cases hten : n / 10 = 0
    · rw [if_pos hten]
      refine ⟨UInt8.ofNat (0x30 + n % 10), rfl, ?_⟩
      intro heq
      have htoNat := congrArg UInt8.toNat heq
      rw [digit_toNat] at htoNat
      have hzero : (0x30 : UInt8).toNat = 0x30 := rfl
      omega
    · rw [if_neg hten]
      obtain ⟨b, hb, hne⟩ := ih (n := n / 10) (by omega) hten
      exact ⟨b, by rw [hb]; rfl, hne⟩

theorem decimal_ne_nil (n : Nat) : decimal n ≠ [] := by
  simp [decimal, digits]

theorem decimal_zero : decimal 0 = [0x30] := rfl

/-- What follows a number cannot be read as part of it. -/
def NoDigit (t : List UInt8) : Prop := ∀ b, t.head? = some b → isDigit b = false

theorem noDigit_nil : NoDigit [] := nofun

theorem noDigit_cons (h : isDigit b = false) (t : List UInt8) : NoDigit (b :: t) := by
  intro c hc
  rw [head?_cons] at hc
  exact Option.some.inj hc ▸ h

variable {t : List UInt8}

theorem takeWhile_noDigit (h : NoDigit t) : t.takeWhile isDigit = [] ∧ t.dropWhile isDigit = t := by
  cases t with
  | nil => exact ⟨rfl, rfl⟩
  | cons b t => simp [h b rfl]

theorem readNumber_decimal (n : Nat) (ht : NoDigit t) :
    readNumber (decimal n ++ t) = some (n, t) := by
  simp only [readNumber]
  rw [takeWhile_append_of_pos (decimal_isDigit n),
    dropWhile_append_of_pos (decimal_isDigit n), (takeWhile_noDigit ht).1,
    (takeWhile_noDigit ht).2, append_nil, count_decimal]
  refine if_neg ?_
  rintro (hnil | ⟨hzero, hlong⟩)
  · exact decimal_ne_nil n hnil
  · by_cases hn : n = 0
    · rw [hn, decimal_zero] at hlong
      exact hlong rfl
    · obtain ⟨b, hb, hne⟩ := digits_head (Nat.lt_succ_self n) hn
      exact hne (Option.some.inj (hb.symm.trans hzero))

theorem text_head (v : Value) : ∃ b t, v.text = b :: t ∧ b ≠ 0x5D := by
  cases v with
  | bool b =>
    cases b with
    | false => exact ⟨0x66, _, rfl, by decide⟩
    | true => exact ⟨0x74, _, rfl, by decide⟩
  | number n =>
    cases hds : decimal n with
    | nil => exact absurd hds (decimal_ne_nil n)
    | cons b t =>
      refine ⟨b, t, by simp only [Value.text, hds], ?_⟩
      have hdigit := decimal_isDigit n b (hds ▸ mem_cons_self)
      rintro rfl
      exact absurd hdigit (by decide)
  | string s => exact ⟨0x22, _, rfl, by decide⟩
  | array vs => exact ⟨0x5B, _, rfl, by decide⟩
  | object fs => exact ⟨0x7B, _, rfl, by decide⟩

/-- A value is read back from in front of anything its last digits do not run into. -/
def Reads (v : Value) : Prop :=
  ∀ fuel t, v.text.length ≤ fuel → NoDigit t → readValue fuel (v.text ++ t) = some (v, t)

theorem reads_bool (b : Bool) : Reads (.bool b) := by
  intro fuel t hfuel _
  cases fuel with
  | zero => cases b <;> exact absurd hfuel (by decide)
  | succ fuel =>
    cases b with
    | false => rfl
    | true => rfl

theorem reads_number (n : Nat) : Reads (.number n) := by
  intro fuel t hfuel ht
  simp only [Value.text] at hfuel ⊢
  have hread := readNumber_decimal n ht
  cases hds : decimal n with
  | nil => exact absurd hds (decimal_ne_nil n)
  | cons b ds =>
    rw [hds] at hfuel hread
    have hdigit : isDigit b = true := decimal_isDigit n b (hds ▸ mem_cons_self)
    have hne : ∀ c : UInt8, isDigit c = false → b ≠ c := by
      intro c hc heq
      rw [heq, hc] at hdigit
      exact Bool.noConfusion hdigit
    cases fuel with
    | zero => exact absurd hfuel (by simp)
    | succ fuel =>
      rw [cons_append] at hread ⊢
      simp only [readValue]
      rw [if_neg (hne _ rfl), if_neg (hne _ rfl), if_neg (hne _ rfl), if_neg, if_neg, hread]
      · rfl
      · simp [falseText, List.isPrefixOf, (hne 0x66 rfl).symm]
      · simp [trueText, List.isPrefixOf, (hne 0x74 rfl).symm]

theorem reads_string (s : List UInt8) : Reads (.string s) := by
  intro fuel t hfuel _
  cases fuel with
  | zero => exact absurd hfuel (by simp [Value.text, quoted])
  | succ fuel =>
    simp only [Value.text, quoted, cons_append, append_assoc, nil_append,
      readValue]
    rw [if_true, readChars_escaped]
    rfl

theorem itemsText_true (v : Value) (vs : List Value) :
    itemsText true (v :: vs) = 0x2C :: itemsText false (v :: vs) := by
  simp [itemsText, separator]

theorem membersText_true (f : List UInt8 × Value) (fs : List (List UInt8 × Value)) :
    membersText true (f :: fs) = 0x2C :: membersText false (f :: fs) := by
  simp [membersText, separator]

variable {vs : List Value}

theorem readItems_text {v : Value} (h : ∀ w ∈ v :: vs, Reads w)
    (hfuel : (itemsText false (v :: vs)).length < fuel) (t : List UInt8) :
    readItems fuel (itemsText false (v :: vs) ++ 0x5D :: t) = some (v :: vs, t) := by
  induction vs generalizing v fuel with
  | nil =>
    cases fuel with
    | zero => exact absurd hfuel (Nat.not_lt_zero _)
    | succ fuel =>
      simp only [itemsText, separator, append_nil, Bool.false_eq_true, if_false,
        nil_append] at hfuel ⊢
      simp only [readItems]
      rw [h v mem_cons_self fuel _ (by omega) (noDigit_cons rfl t)]
      rfl
  | cons w vs ih =>
    cases fuel with
    | zero => exact absurd hfuel (Nat.not_lt_zero _)
    | succ fuel =>
      have htext : itemsText false (v :: w :: vs)
          = v.text ++ 0x2C :: itemsText false (w :: vs) := by
        rw [← itemsText_true]
        rfl
      rw [htext, length_append, length_cons] at hfuel
      rw [htext, append_assoc, cons_append]
      simp only [readItems]
      rw [h v mem_cons_self fuel _ (by omega) (noDigit_cons rfl _)]
      have hrest : readItems fuel (itemsText false (w :: vs) ++ 0x5D :: t) = some (w :: vs, t) :=
        ih (fun x hx => h x (mem_cons_of_mem v hx)) (by omega)
      simp only [Option.bind_some]
      rw [if_neg (by decide), if_true, hrest]
      rfl

variable {fs : List (List UInt8 × Value)}

theorem readMembers_text {f : List UInt8 × Value} (h : ∀ g ∈ f :: fs, Reads g.2)
    (hfuel : (membersText false (f :: fs)).length < fuel) (t : List UInt8) :
    readMembers fuel (membersText false (f :: fs) ++ 0x7D :: t) = some (f :: fs, t) := by
  induction fs generalizing f fuel with
  | nil =>
    cases fuel with
    | zero => exact absurd hfuel (Nat.not_lt_zero _)
    | succ fuel =>
      simp only [membersText, separator, quoted, append_nil, Bool.false_eq_true, if_false,
        nil_append, cons_append, append_assoc, length_cons,
        length_append] at hfuel ⊢
      simp only [readMembers]
      rw [if_true, readChars_escaped]
      simp only [Option.bind_some, head?_cons, tail_cons]
      rw [if_true, h f mem_cons_self fuel _ (by omega) (noDigit_cons rfl t)]
      rfl
  | cons g fs ih =>
    cases fuel with
    | zero => exact absurd hfuel (Nat.not_lt_zero _)
    | succ fuel =>
      have htext : membersText false (f :: g :: fs)
          = 0x22 :: (f.1.flatMap escape ++ 0x22 :: 0x3A
            :: (f.2.text ++ 0x2C :: membersText false (g :: fs))) := by
        rw [← membersText_true]
        simp [membersText, separator, quoted]
      rw [htext] at hfuel ⊢
      simp only [length_cons, length_append] at hfuel
      simp only [cons_append, append_assoc, readMembers]
      rw [if_true, readChars_escaped]
      simp only [Option.bind_some, head?_cons, tail_cons]
      rw [if_true, h f mem_cons_self fuel _ (by omega) (noDigit_cons rfl _)]
      have hrest : readMembers fuel (membersText false (g :: fs) ++ 0x7D :: t)
          = some (g :: fs, t) :=
        ih (fun x hx => h x (mem_cons_of_mem f hx)) (by omega)
      simp only [Option.bind_some]
      rw [if_neg (by decide), if_true, hrest]
      rfl

theorem reads_array (h : ∀ v ∈ vs, Reads v) : Reads (.array vs) := by
  intro fuel t hfuel _
  cases fuel with
  | zero => exact absurd hfuel (by simp [Value.text])
  | succ fuel =>
    cases vs with
    | nil => rfl
    | cons v vs =>
      simp only [Value.text, length_cons, length_append, length_nil] at hfuel
      simp only [Value.text, cons_append, append_assoc, nil_append, readValue]
      rw [if_neg (by decide), if_true, if_neg, readItems_text h (by omega)]
      · rfl
      · obtain ⟨b, text, htext, hb⟩ := text_head v
        simp [itemsText, separator, htext, hb]

theorem reads_object (h : ∀ f ∈ fs, Reads f.2) : Reads (.object fs) := by
  intro fuel t hfuel _
  cases fuel with
  | zero => exact absurd hfuel (by simp [Value.text])
  | succ fuel =>
    cases fs with
    | nil => rfl
    | cons f fs =>
      simp only [Value.text, length_cons, length_append, length_nil] at hfuel
      simp only [Value.text, cons_append, append_assoc, nil_append, readValue]
      rw [if_neg (by decide), if_neg (by decide), if_true, if_neg,
        readMembers_text h (by omega)]
      · rfl
      · simp [membersText, separator, quoted]

theorem reads (v : Value) : Reads v := by
  induction v with
  | bool b => exact reads_bool b
  | number n => exact reads_number n
  | string s => exact reads_string s
  | array vs ih => exact reads_array ih
  | object fs ih => exact reads_object ih

/-- **A value is what its text denotes.** -/
theorem parse_text (v : Value) : parse v.text = some v := by
  have hread := reads v (v.text.length + 1) [] (Nat.le_succ _) noDigit_nil
  rw [append_nil] at hread
  unfold parse
  rw [hread]

/-! ### A written value is well-formed UTF-8

Exactly when its strings are: what is written around them is ASCII, and so is every escape. -/

mutual

/-- Every string of the value, the keys among them, is well-formed UTF-8. -/
def Value.Readable : Value → Prop
  | .bool _ => True
  | .number _ => True
  | .string s => Utf8.Valid s
  | .array vs => itemsReadable vs
  | .object fs => membersReadable fs

def itemsReadable : List Value → Prop
  | [] => True
  | v :: vs => v.Readable ∧ itemsReadable vs

def membersReadable : List (List UInt8 × Value) → Prop
  | [] => True
  | (key, v) :: fs => Utf8.Valid key ∧ v.Readable ∧ membersReadable fs

end

theorem itemsReadable_iff (vs : List Value) : itemsReadable vs ↔ ∀ v ∈ vs, v.Readable := by
  induction vs with
  | nil => simp [itemsReadable]
  | cons v vs ih => rw [itemsReadable, ih, forall_mem_cons]

theorem itemsReadable_map {α : Type} (f : α → Value) (l : List α) :
    itemsReadable (l.map f) ↔ ∀ a ∈ l, (f a).Readable := by
  rw [itemsReadable_iff, forall_mem_map]

theorem membersReadable_iff (fs : List (List UInt8 × Value)) :
    membersReadable fs ↔ ∀ f ∈ fs, Utf8.Valid f.1 ∧ f.2.Readable := by
  induction fs with
  | nil => simp [membersReadable]
  | cons f fs ih => rw [membersReadable, ih, forall_mem_cons, and_assoc]

theorem hexDigit_lt (n : Nat) (h : n < 16) : (hexDigit n).toNat < 0x80 := by
  have hall : ∀ n < 16, (hexDigit n).toNat < 0x80 := by decide
  exact hall n h

theorem escape_ascii (hb : b.toNat < 0x80) : Utf8.Ascii (escape b) := by
  unfold escape
  split
  · decide
  split
  · decide
  split
  · decide
  split
  · decide
  split
  · decide
  split
  · have hhigh := hexDigit_lt (b.toNat / 16) (by omega)
    have hlow := hexDigit_lt (b.toNat % 16) (by omega)
    simp [Utf8.Ascii, hhigh, hlow]
  · simp [Utf8.Ascii, hb]

theorem escape_ne_nil (b : UInt8) : escape b ≠ [] := by
  unfold escape
  grind

theorem escape_of_high (hb : 0x80 ≤ b.toNat) : escape b = [b] := by
  have hne : ∀ c : UInt8, c.toNat < 0x80 → b ≠ c := by
    rintro c hc rfl
    omega
  unfold escape
  rw [if_neg (hne _ (by decide)), if_neg (hne _ (by decide)), if_neg (hne _ (by decide)),
    if_neg (hne _ (by decide)), if_neg (hne _ (by decide)), if_neg (by omega)]

theorem read_escape (e : Utf8.Expect) (b : UInt8) : Utf8.read e (escape b) = Utf8.step e b := by
  by_cases hb : b.toNat < 0x80
  · rw [read_ascii (escape_ne_nil b) (escape_ascii hb), step_ascii hb]
  · rw [escape_of_high (by omega), Utf8.read]
    cases Utf8.step e b with
    | none => rfl
    | some e' => rfl

theorem read_escaped (e : Utf8.Expect) (s : List UInt8) :
    Utf8.read e (s.flatMap escape) = Utf8.read e s := by
  induction s generalizing e with
  | nil => rfl
  | cons b s ih =>
    rw [flatMap_cons, read_append, read_escape, Utf8.read]
    cases Utf8.step e b with
    | none => rfl
    | some e' => exact ih e'

theorem quoted_valid (s : List UInt8) : Utf8.Valid (quoted s) ↔ Utf8.Valid s := by
  have hquote : Utf8.Ascii [0x22] := by decide
  unfold quoted
  rw [← singleton_append, valid_before hquote, valid_after hquote]
  unfold Utf8.Valid
  rw [read_escaped]

theorem decimal_ascii (n : Nat) : Utf8.Ascii (decimal n) := by
  intro b hb
  have hdigit := decimal_isDigit n b hb
  simp only [isDigit, Utf8.within, Bool.and_eq_true, decide_eq_true_eq] at hdigit
  omega

theorem separator_ascii (comma : Bool) : Utf8.Ascii (separator comma) := by
  cases comma with
  | false => decide
  | true => decide

theorem itemsText_valid (comma : Bool) (vs : List Value) :
    Utf8.Valid (itemsText comma vs) ↔ ∀ v ∈ vs, Utf8.Valid v.text := by
  induction vs generalizing comma with
  | nil => exact ⟨fun _ v hv => absurd hv not_mem_nil, fun _ => rfl⟩
  | cons v vs ih =>
    rw [itemsText, valid_before (separator_ascii comma), forall_mem_cons, ← ih false]
    cases vs with
    | nil => simp [itemsText, Utf8.Valid, Utf8.read]
    | cons w vs =>
      rw [itemsText_true, ← singleton_append, ← append_assoc]
      exact valid_between (cons_ne_nil _ _) (by decide)

theorem membersText_valid (comma : Bool) (fs : List (List UInt8 × Value)) :
    Utf8.Valid (membersText comma fs) ↔ ∀ f ∈ fs, Utf8.Valid f.1 ∧ Utf8.Valid f.2.text := by
  induction fs generalizing comma with
  | nil => exact ⟨fun _ f hf => absurd hf not_mem_nil, fun _ => rfl⟩
  | cons f fs ih =>
    have hcolon : Utf8.Ascii [0x3A] := by decide
    rw [membersText, valid_before (separator_ascii comma), forall_mem_cons,
      ← ih false, ← singleton_append, ← append_assoc,
      valid_between (cons_ne_nil _ _) hcolon, quoted_valid, and_assoc]
    refine and_congr_right fun _ => ?_
    cases fs with
    | nil => simp [membersText, Utf8.Valid, Utf8.read]
    | cons g fs =>
      rw [membersText_true, ← singleton_append, ← append_assoc]
      exact valid_between (cons_ne_nil _ _) (by decide)

/-- **The text of a value is well-formed exactly when all its strings are.** -/
theorem text_valid (v : Value) : Utf8.Valid v.text ↔ v.Readable := by
  induction v with
  | bool b =>
    cases b with
    | false => exact iff_of_true (by decide) trivial
    | true => exact iff_of_true (by decide) trivial
  | number n => exact iff_of_true (decimal_ascii n).valid trivial
  | string s => exact quoted_valid s
  | array vs ih =>
    have hopen : Utf8.Ascii [0x5B] := by decide
    have hclose : Utf8.Ascii [0x5D] := by decide
    simp only [Value.text, Value.Readable]
    rw [← singleton_append, valid_before hopen, valid_after hclose,
      itemsText_valid, itemsReadable_iff]
    exact forall₂_congr ih
  | object fs ih =>
    have hopen : Utf8.Ascii [0x7B] := by decide
    have hclose : Utf8.Ascii [0x7D] := by decide
    simp only [Value.text, Value.Readable]
    rw [← singleton_append, valid_before hopen, valid_after hclose,
      membersText_valid, membersReadable_iff]
    exact forall₂_congr fun f hf => and_congr_right fun _ => ih f hf

/-! ### How long it is -/

/-- The bytes a string takes between its quotes. -/
def width (s : List UInt8) : Nat := (s.flatMap escape).length

theorem quoted_length (s : List UInt8) : (quoted s).length = width s + 2 := by
  simp [quoted, width]

theorem escape_length_le (b : UInt8) : (escape b).length ≤ 6 := by
  unfold escape
  grind

theorem width_le (s : List UInt8) : width s ≤ 6 * s.length := by
  induction s with
  | nil => exact Nat.zero_le _
  | cons b s ih =>
    have hb := escape_length_le b
    simp only [width, flatMap_cons, length_append, length_cons] at ih ⊢
    omega

theorem digits_length_le (h : n < 10 ^ (k + 1)) : (digits fuel n).length ≤ k + 1 := by
  induction fuel generalizing n k with
  | zero => exact Nat.zero_le _
  | succ fuel ih =>
    simp only [digits, length_cons]
    by_cases hn : n / 10 = 0
    · rw [if_pos hn]
      exact Nat.succ_le_succ (Nat.zero_le k)
    · rw [if_neg hn]
      cases k with
      | zero => exact absurd (Nat.div_eq_of_lt (by simpa using h)) hn
      | succ k =>
        refine Nat.succ_le_succ (ih ?_)
        exact Nat.div_lt_of_lt_mul (by rw [← Nat.pow_succ']; exact h)

theorem decimal_length_le (h : n < 10 ^ (k + 1)) : (decimal n).length ≤ k + 1 := by
  rw [decimal, length_reverse]
  exact digits_length_le h

/-- The bytes items take, commas apart. -/
def itemsLength : List Value → Nat
  | [] => 0
  | v :: vs => v.text.length + itemsLength vs

/-- The bytes members take, commas apart: the quotes of the key and the colon are three more. -/
def membersLength : List (List UInt8 × Value) → Nat
  | [] => 0
  | f :: fs => width f.1 + 3 + f.2.text.length + membersLength fs

theorem itemsText_length (comma : Bool) (vs : List Value) :
    (itemsText comma vs).length = itemsLength vs + (vs.length - if comma then 0 else 1) := by
  induction vs generalizing comma with
  | nil => simp [itemsText, itemsLength]
  | cons v vs ih =>
    cases comma with
    | false =>
      simp [itemsText, itemsLength, separator, ih]
      omega
    | true =>
      simp [itemsText, itemsLength, separator, ih]
      omega

theorem membersText_length (comma : Bool) (fs : List (List UInt8 × Value)) :
    (membersText comma fs).length = membersLength fs + (fs.length - if comma then 0 else 1) := by
  induction fs generalizing comma with
  | nil => simp [membersText, membersLength]
  | cons f fs ih =>
    cases comma with
    | false =>
      simp [membersText, membersLength, separator, quoted_length, ih]
      omega
    | true =>
      simp [membersText, membersLength, separator, quoted_length, ih]
      omega

theorem itemsLength_le {m : Nat} (h : ∀ v ∈ vs, v.text.length ≤ m) :
    itemsLength vs ≤ vs.length * m := by
  induction vs with
  | nil => exact Nat.zero_le _
  | cons v vs ih =>
    have hv := h v mem_cons_self
    have hvs := ih fun w hw => h w (mem_cons_of_mem v hw)
    rw [itemsLength, length_cons, Nat.succ_mul]
    omega

theorem membersLength_le {m : Nat} (h : ∀ f ∈ fs, width f.1 ≤ k ∧ f.2.text.length ≤ m) :
    membersLength fs ≤ fs.length * (k + 3 + m) := by
  induction fs with
  | nil => exact Nat.zero_le _
  | cons f fs ih =>
    obtain ⟨hkey, hvalue⟩ := h f mem_cons_self
    have hfs := ih fun g hg => h g (mem_cons_of_mem f hg)
    rw [membersLength, length_cons, Nat.succ_mul]
    omega

theorem object_length (fs : List (List UInt8 × Value)) :
    (Value.object fs).text.length = membersLength fs + (fs.length - 1) + 2 := by
  simp [Value.text, membersText_length]

theorem array_length (vs : List Value) :
    (Value.array vs).text.length = itemsLength vs + (vs.length - 1) + 2 := by
  simp [Value.text, itemsText_length]

theorem string_length (s : List UInt8) : (Value.string s).text.length = width s + 2 :=
  quoted_length s

theorem number_length (n : Nat) : (Value.number n).text.length = (decimal n).length := rfl

theorem bool_length (b : Bool) : (Value.bool b).text.length = if b then 4 else 5 := by
  cases b with
  | false => rfl
  | true => rfl

theorem bool_length_le (b : Bool) : (Value.bool b).text.length ≤ 5 := by
  cases b with
  | false => decide
  | true => decide

end Thalyx.Json
