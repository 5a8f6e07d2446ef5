/-
The other end of a host call: `bound_call` and `host_call` of `user/nhacer/main.c`.

A program of the language runtime calls a verb with a list of values.  The runtime writes
them into the region it shares with the work, and `run` of `user/k5work/src/hacer.rs` copies
them out and reads them back.  The two ends were written apart.  The runtime's buffer is twice
as long as the work's, it passes over a value it cannot make a text of, and it looks at eight
values at most; the work reads a field that is not all there as an empty one.

So a call arrives as it was made exactly when it fits the shorter buffer and has no value that
is passed over, and that is what is proved, with the calls that are refused on the way.

Converting a value to a text is the engine's; what it comes to is part of the call.
-/
import ThalyxKernel.Work.Hacer

namespace Thalyx.Work

open List

variable {D : Type}

/-! ### Encoding -/

/-- A `u32` in little-endian bytes. -/
def le32 (n : Nat) : Bytes :=
  [UInt8.ofNat n, UInt8.ofNat (n / 256), UInt8.ofNat (n / 65536), UInt8.ofNat (n / 16777216)]

/-- `K5_CHANNEL_REQUEST_MAX`: the runtime's buffer. -/
def channelRequestMax : Nat := 8192

/-- `Machine`, as far as a host call reads it. -/
structure Machine where
  latched : Bool
  calls : Nat
  callCeiling : Nat
  requests : Nat

/-- The words a call is refused with before it is sent. -/
inductive Refusal where
  | stopped | calls | badArgument | tooLarge
  deriving DecidableEq, Repr

/-- `JS_ToInt32` of the length of a list. -/
def toInt32 (n : Nat) : Int :=
  if n % 2 ^ 32 < 2 ^ 31 then (n % 2 ^ 32 : Nat) else (n % 2 ^ 32 : Nat) - 2 ^ 32

/-- How many of the values `bound_call` looks at. -/
def declared (length : Nat) : Nat := min (toInt32 length).toNat 8

/-- The loop over the values: what is written after the count, and the count.  `start` is where
the first value goes. -/
def encodeArgs (start : Nat) : List (Option Bytes) → Bytes × Nat → Option (Bytes × Nat)
  | [], done => some done
  | none :: rest, done => encodeArgs start rest done
  | some text :: rest, (written, count) =>
    if start + written.length + 4 + text.length > channelRequestMax then none
    else encodeArgs start rest (written ++ le32 text.length ++ text, count + 1)

/-- `bound_call`, up to the host call: the request, or the word it is refused with.  A verb or
a value is what `JS_ToCStringLen` makes of it. -/
def Machine.boundCall (m : Machine) (verb : Option Bytes) (args : List (Option Bytes)) :
    Except Refusal Bytes :=
  if m.latched then .error .stopped
  else if m.callCeiling ≤ m.calls then .error .calls
  else
    match verb with
    | none => .error .badArgument
    | some verb =>
      if verb.length + 8 > channelRequestMax then .error .badArgument
      else
        match encodeArgs (8 + verb.length) (args.take (declared args.length)) ([], 0) with
        | none => .error .tooLarge
        | some (written, count) => .ok (le32 verb.length ++ verb ++ le32 count ++ written)

/-- A call on its way through both ends: the work after it, and what it executed, if it did
not refuse.  `leftover` is what the region held behind the request. -/
def hostCall (sha : Sha D) (m : Machine) (s : Loop D) (leftover : Bytes) (tool : ToolRun D)
    (verb : Option Bytes) (args : List (Option Bytes)) : Loop D × Option (Bytes × List Bytes) :=
  match m.boundCall verb args with
  | .error _ => (s, none)
  | .ok request =>
    let region := request ++ leftover
    ((s.turn sha (.call 1 request.length region tool)).1,
      if s.outcome.latched then none
      else some (decodeRequest (takeRequest request.length region)))

/-! ### Reading numbers and fields back -/

@[simp] theorem le32_length (n : Nat) : (le32 n).length = 4 := rfl

variable {n : Nat}

theorem le_le32 (h : n < 2 ^ 32) : le (le32 n) = n := by
  simp only [le, le32, UInt8.toNat_ofNat']
  omega

/-- The fields of a list of texts, one after the other. -/
def encodeTexts (texts : List Bytes) : Bytes :=
  texts.flatMap fun text => le32 text.length ++ text

theorem encodeTexts_cons (text : Bytes) (rest : List Bytes) :
    encodeTexts (text :: rest) = le32 text.length ++ (text ++ encodeTexts rest) := by
  simp [encodeTexts]

theorem encodeTexts_append (a b : List Bytes) :
    encodeTexts (a ++ b) = encodeTexts a ++ encodeTexts b := by
  simp [encodeTexts]

theorem field_le32 (h : n < 2 ^ 32) (rest : Bytes) :
    field (le32 n ++ rest) = if rest.length < n then none else some (rest.take n, rest.drop n) := by
  have hlen : ¬ (le32 n ++ rest).length < 4 := by
    simp
  unfold field
  simp only [if_neg hlen, take_left' (le32_length n), drop_left' (le32_length n),
    le_le32 h]

theorem take_field {k : Nat} (hk : 4 ≤ k) (rest : Bytes) :
    (le32 n ++ rest).take k = le32 n ++ rest.take (k - 4) := by
  rw [take_append, take_of_length_le (by simpa using hk), le32_length]

theorem fields_length (n : Nat) (bytes : Bytes) : (fields n bytes).length = n := by
  induction n generalizing bytes with
  | zero => rfl
  | succ n ih =>
    rw [fields]
    split <;> rw [length_cons, ih]

theorem decodeRequest_length (bytes : Bytes) : (decodeRequest bytes).2.length ≤ 8 := by
  have hbound : ∀ verb rest : Bytes, (if rest.length < 4 then (verb, [])
      else (verb, fields (min (le (rest.take 4)) 8) (rest.drop 4))).2.length ≤ 8 := by
    intro verb rest
    split
    · simp
    · rw [fields_length]
      exact Nat.min_le_right _ _
  unfold decodeRequest
  cases field bytes <;> exact hbound _ _

theorem fields_short {bytes : Bytes} (h : bytes.length < 4) (n : Nat) :
    fields n bytes = List.replicate n [] := by
  have hnone : field bytes = none := by
    unfold field
    rw [if_pos h]
  induction n with
  | zero => rfl
  | succ n ih =>
    rw [fields, hnone]
    simp only [h, if_true, ih, replicate_succ]

/-- The texts fit into the room, but for empty ones at the end. -/
def FitsIn : Nat → List Bytes → Prop
  | _, [] => True
  | room, text :: rest =>
    (4 + text.length ≤ room ∧ FitsIn (room - (4 + text.length)) rest) ∨
      ∀ t ∈ text :: rest, t = []

variable {texts : List Bytes}

theorem fitsIn_empty {room : Nat} (h : ∀ t ∈ texts, t = []) : FitsIn room texts := by
  cases texts with
  | nil => trivial
  | cons text rest => exact .inr h

/-- **The fields of a request that was cut are the texts exactly when these fit.** -/
theorem fields_encodeTexts (h : ∀ t ∈ texts, t.length < 2 ^ 32)
    (room : Nat) : fields texts.length ((encodeTexts texts).take room) = texts ↔
      FitsIn room texts := by
  induction texts generalizing room with
  | nil => simp [FitsIn, fields]
  | cons text rest ih =>
    have hlt := h text mem_cons_self
    have hempty : (List.replicate (text :: rest).length ([] : Bytes) = text :: rest) ↔
        ∀ t ∈ text :: rest, t = [] := by
      rw [eq_comm, eq_replicate_iff]
      exact and_iff_right rfl
    by_cases hroom : room < 4
    · have hshort : ((encodeTexts (text :: rest)).take room).length < 4 := by
        rw [length_take]
        omega
      rw [fields_short hshort, hempty, FitsIn]
      have hno : ¬ 4 + text.length ≤ room := by omega
      simp [hno]
    · rw [encodeTexts_cons, take_field (by omega), length_cons, fields, field_le32 hlt]
      have hwidth : ((text ++ encodeTexts rest).take (room - 4)).length < text.length ↔
          ¬ 4 + text.length ≤ room := by
        rw [length_take, length_append]
        omega
      by_cases hfit : 4 + text.length ≤ room
      · rw [if_neg (by rwa [hwidth, not_not])]
        have htake : ((text ++ encodeTexts rest).take (room - 4)).take text.length = text := by
          rw [take_take, Nat.min_eq_left (by omega), take_left]
        have hdrop : ((text ++ encodeTexts rest).take (room - 4)).drop text.length =
            (encodeTexts rest).take (room - (4 + text.length)) := by
          rw [drop_take, drop_left]
          congr 1
          omega
        simp only [htake, hdrop, List.cons.injEq, true_and]
        rw [ih (fun t ht => h t (mem_cons_of_mem _ ht)), FitsIn]
        constructor
        · exact fun hrest => .inl ⟨hfit, hrest⟩
        · rintro (⟨-, hrest⟩ | hall)
          · exact hrest
          · exact fitsIn_empty fun t ht => hall t (mem_cons_of_mem _ ht)
      · rw [if_pos (hwidth.mpr hfit)]
        have hne : text ≠ [] := by
          rintro rfl
          simp at hfit
          omega
        constructor
        · intro heq
          exact absurd (List.cons.inj heq).1.symm hne
        · rintro (⟨hle, -⟩ | hall)
          · exact absurd hle hfit
          · exact absurd (hall text mem_cons_self) hne

/-! ### What is sent -/

/-- The values that are texts. -/
def textsOf (args : List (Option Bytes)) : List Bytes := args.filterMap id

theorem textsOf_map_some (texts : List Bytes) : textsOf (texts.map some) = texts := by
  simp [textsOf, filterMap_map]

/-- **`bound_call` writes the texts in order and counts them, if they fit its buffer.** -/
theorem encodeArgs_eq {start : Nat} (args : List (Option Bytes)) (written : Bytes) (count : Nat)
    (h : start + written.length ≤ channelRequestMax) :
    encodeArgs start args (written, count) =
      if start + written.length + (encodeTexts (textsOf args)).length ≤ channelRequestMax then
        some (written ++ encodeTexts (textsOf args), count + (textsOf args).length)
      else none := by
  induction args generalizing written count with
  | nil => simp [encodeArgs, textsOf, encodeTexts, h]
  | cons arg rest ih =>
    cases arg with
    | none =>
      rw [encodeArgs, ih _ _ h]
      simp [textsOf]
    | some text =>
      have htexts : textsOf (some text :: rest) = text :: textsOf rest := by simp [textsOf]
      rw [encodeArgs, htexts, encodeTexts_cons]
      by_cases hfit : start + written.length + 4 + text.length > channelRequestMax
      · rw [if_pos hfit, if_neg]
        simp only [length_append, le32_length]
        omega
      · rw [if_neg hfit, ih]
        · have hiff : start + (written ++ le32 text.length ++ text).length +
              (encodeTexts (textsOf rest)).length ≤ channelRequestMax ↔
              start + written.length +
                (le32 text.length ++ (text ++ encodeTexts (textsOf rest))).length ≤
                  channelRequestMax := by
            simp only [length_append, le32_length]
            omega
          rw [if_congr hiff rfl rfl]
          simp only [append_assoc, length_cons, Nat.add_assoc, Nat.add_comm 1]
        · simp only [length_append, le32_length]
          omega

/-- The calls `bound_call` refuses: the program has been stopped or has used up its calls, the
verb is no text or too long, or the texts do not fit the runtime's buffer. -/
def Machine.Refuses (m : Machine) (verb : Option Bytes) (args : List (Option Bytes)) : Prop :=
  m.latched = true ∨ m.callCeiling ≤ m.calls ∨ verb = none ∨
    ∃ v, verb = some v ∧ channelRequestMax <
      8 + v.length + (encodeTexts (textsOf (args.take (declared args.length)))).length

theorem boundCall_eq (m : Machine) (verb : Option Bytes) (args : List (Option Bytes)) :
    (∃ word, m.boundCall verb args = .error word ∧ m.Refuses verb args) ∨
      ¬ m.Refuses verb args ∧
      ∃ v texts, verb = some v ∧ texts = textsOf (args.take (declared args.length)) ∧
        8 + v.length + (encodeTexts texts).length ≤ channelRequestMax ∧
        m.boundCall verb args =
          .ok (le32 v.length ++ v ++ le32 texts.length ++ encodeTexts texts) := by
  unfold Machine.boundCall
  split
  · rename_i hl
    exact .inl ⟨_, rfl, .inl hl⟩
  rename_i hl
  split
  · rename_i hc
    exact .inl ⟨_, rfl, .inr (.inl hc)⟩
  rename_i hc
  split
  · exact .inl ⟨_, rfl, .inr (.inr (.inl rfl))⟩
  rename_i v
  split
  · rename_i hv
    exact .inl ⟨_, rfl, .inr (.inr (.inr ⟨v, rfl, by omega⟩))⟩
  rename_i hv
  rw [encodeArgs_eq _ _ _ (by simp only [length_nil]; omega)]
  by_cases hfit : 8 + v.length +
      (encodeTexts (textsOf (args.take (declared args.length)))).length ≤ channelRequestMax
  · refine .inr ⟨?_, v, _, rfl, rfl, hfit, ?_⟩
    · rintro (h | h | h | ⟨w, hw, h⟩)
      · exact hl h
      · exact hc h
      · cases h
      · obtain rfl := Option.some.inj hw
        omega
    · simp [hfit]
  · refine .inl ⟨.tooLarge, ?_, .inr (.inr (.inr ⟨v, rfl, by omega⟩))⟩
    simp [hfit]

/-! ### What arrives -/

theorem decodeRequest_eq {v : Bytes} (hcount : texts.length ≤ 8)
    (hmax : 8 + v.length + (encodeTexts texts).length ≤ channelRequestMax) (leftover : Bytes) :
    let request := le32 v.length ++ v ++ le32 texts.length ++ encodeTexts texts
    decodeRequest (takeRequest request.length (request ++ leftover)) = (v, texts) ↔
      v.length ≤ 4092 ∧ (texts = [] ∨ v.length ≤ 4088 ∧ FitsIn (4088 - v.length) texts) := by
  intro request
  have hlt : ∀ t ∈ v :: texts, t.length < 2 ^ 32 := by
    have hmem : ∀ t ∈ texts, t.length ≤ (encodeTexts texts).length := by
      intro t ht
      obtain ⟨before, after, rfl⟩ := append_of_mem ht
      rw [encodeTexts_append, encodeTexts_cons]
      simp only [length_append]
      omega
    simp only [channelRequestMax] at hmax
    intro t ht
    rcases List.mem_cons.mp ht with rfl | ht
    · omega
    · have := hmem t ht
      omega
  have hcut : takeRequest request.length (request ++ leftover) =
      (le32 v.length ++ (v ++ (le32 texts.length ++ encodeTexts texts))).take 4096 := by
    have hrequest : request = le32 v.length ++ (v ++ (le32 texts.length ++ encodeTexts texts)) := by
      simp only [request, append_assoc]
    rw [takeRequest, ← hrequest, take_append_of_le_length (Nat.min_le_left _ _),
      take_eq_take_iff]
    omega
  rw [hcut, take_field (by omega), decodeRequest, field_le32 (hlt v mem_cons_self)]
  have htail : (v ++ (le32 texts.length ++ encodeTexts texts)).length =
      v.length + (4 + (encodeTexts texts).length) := by
    simp only [length_append, le32_length]
  by_cases hverb : v.length ≤ 4092
  · have htake : ((v ++ (le32 texts.length ++ encodeTexts texts)).take (4096 - 4)).take v.length =
        v := by
      rw [take_take, Nat.min_eq_left (by omega), take_left]
    have hdrop : ((v ++ (le32 texts.length ++ encodeTexts texts)).take (4096 - 4)).drop v.length =
        (le32 texts.length ++ encodeTexts texts).take (4092 - v.length) := by
      rw [drop_take, drop_left]
    have hwidth : ¬ ((v ++ (le32 texts.length ++ encodeTexts texts)).take (4096 - 4)).length <
        v.length := by
      rw [length_take, htail]
      omega
    simp only [if_neg hwidth, htake, hdrop]
    by_cases hcounted : v.length ≤ 4088
    · have hn : texts.length < 2 ^ 32 := by omega
      rw [take_field (by omega), if_neg (by simp), take_left' (le32_length _),
        drop_left' (le32_length _), le_le32 hn, Nat.min_eq_left hcount]
      have hroom : 4092 - v.length - 4 = 4088 - v.length := by omega
      rw [hroom, Prod.mk.injEq, fields_encodeTexts fun t ht => hlt t (mem_cons_of_mem _ ht)]
      constructor
      · exact fun h => ⟨hverb, .inr ⟨hcounted, h.2⟩⟩
      · rintro ⟨-, rfl | ⟨-, h⟩⟩
        · exact ⟨rfl, trivial⟩
        · exact ⟨rfl, h⟩
    · have hshort : ((le32 texts.length ++ encodeTexts texts).take (4092 - v.length)).length < 4 := by
        rw [length_take]
        omega
      rw [if_pos hshort]
      constructor
      · intro h
        exact ⟨hverb, .inl (Prod.mk.inj h).2.symm⟩
      · rintro ⟨-, rfl | ⟨hle, -⟩⟩
        · rfl
        · exact absurd hle hcounted
  · have hwidth : ((v ++ (le32 texts.length ++ encodeTexts texts)).take (4096 - 4)).length <
        v.length := by
      rw [length_take]
      omega
    have hne : v ≠ [] := by
      rintro rfl
      simp at hverb
    simp only [if_pos hwidth]
    constructor
    · intro h
      have hv := congrArg Prod.fst h
      rw [apply_ite Prod.fst, ite_self] at hv
      exact absurd hv.symm hne
    · exact fun h => absurd h.1 hverb

/-- A call arrived as it was made: the work executed exactly the verb with exactly the values,
or it was refused and nothing has changed. -/
def Arrived (s : Loop D) (verb : Option Bytes) (args : List (Option Bytes)) :
    Loop D × Option (Bytes × List Bytes) → Prop
  | (after, none) => after = s
  | (after, some (v, texts)) =>
    verb = some v ∧ args = texts.map some ∧
      after = { s with driver := { s.driver with context := s.driver.context.answer v texts } }

/-- The calls that fit both ends: at most eight values, all of them texts, and in the first 4096
bytes of the request every field that is not empty.  The number of the values has to be there
too, unless there are none. -/
def FitsBoth (verb : Option Bytes) (args : List (Option Bytes)) : Prop :=
  ∃ v texts, verb = some v ∧ args = texts.map some ∧ texts.length ≤ 8 ∧
    v.length ≤ 4092 ∧ (texts = [] ∨ v.length ≤ 4088 ∧ FitsIn (4088 - v.length) texts)

theorem declared_le (n : Nat) : declared n ≤ 8 := Nat.min_le_right _ _

theorem declared_of_le (h : n ≤ 8) : declared n = n := by
  have hmod : n % 2 ^ 32 = n := Nat.mod_eq_of_lt (by omega)
  unfold declared toInt32
  rw [hmod, if_pos (by omega), Int.toNat_natCast, Nat.min_eq_left h]

/-- **A host call arrives as it was made exactly when it is refused or fits both ends.** -/
theorem hostCall_arrives_iff (sha : Sha D) (m : Machine) (s : Loop D) (leftover : Bytes)
    (tool : ToolRun D) (verb : Option Bytes) (args : List (Option Bytes)) :
    Arrived s verb args (hostCall sha m s leftover tool verb args) ↔
      m.Refuses verb args ∨ s.outcome.latched = true ∨ FitsBoth verb args := by
  rcases boundCall_eq m verb args with
    ⟨word, hcall, hrefuses⟩ | ⟨hsent, v, texts, rfl, htexts, hmax, hcall⟩
  · simp [hostCall, hcall, Arrived, hrefuses]
  by_cases hlatched : s.outcome.latched = true
  · simp [hostCall, hcall, Arrived, Loop.turn, Loop.serve, HostOp.ofCode, hlatched]
  have hcount : texts.length ≤ 8 := by
    have hfilter : texts.length ≤ (args.take (declared args.length)).length :=
      htexts ▸ length_filterMap_le _ _
    have htake : (args.take (declared args.length)).length ≤ declared args.length :=
      length_take_le _ _
    exact le_trans hfilter (le_trans htake (declared_le _))
  have hdecode := decodeRequest_eq hcount hmax leftover
  -- What was executed is what was decoded, and the context follows it.
  have harrived : Arrived s (some v) args (hostCall sha m s leftover tool (some v) args) ↔
      args = texts.map some ∧ v.length ≤ 4092 ∧
        (texts = [] ∨ v.length ≤ 4088 ∧ FitsIn (4088 - v.length) texts) := by
    generalize hrequest : le32 v.length ++ v ++ le32 texts.length ++ encodeTexts texts = request
      at hdecode hcall
    simp only at hdecode
    generalize hdecoded : decodeRequest (takeRequest request.length (request ++ leftover)) = decoded
      at hdecode
    obtain ⟨v', texts'⟩ := decoded
    have hrun : hostCall sha m s leftover tool (some v) args =
        ({ s with driver := { s.driver with
          context := s.driver.context.answer v' texts' } }, some (v', texts')) := by
      simp [hostCall, hcall, Loop.turn, Loop.serve, HostOp.ofCode, hlatched, hdecoded]
    rw [hrun]
    simp only [Arrived, Option.some.injEq, and_true]
    rw [← hdecode]
    constructor
    · rintro ⟨rfl, hargs⟩
      have hle : texts'.length ≤ 8 := by
        have hbound := decodeRequest_length (takeRequest request.length (request ++ leftover))
        rwa [hdecoded] at hbound
      have hsame : texts = texts' := by
        rw [htexts, hargs, declared_of_le (by simpa using hle), take_of_length_le (le_refl _),
          textsOf_map_some]
      subst hsame
      exact ⟨hargs, rfl⟩
    · rintro ⟨hargs, heq⟩
      obtain ⟨rfl, rfl⟩ := Prod.mk.inj heq
      exact ⟨rfl, hargs⟩
  rw [harrived]
  constructor
  · rintro ⟨hargs, hverb, hfit⟩
    exact .inr (.inr ⟨v, texts, rfl, hargs, hcount, hverb, hfit⟩)
  · rintro (h | h | ⟨v', texts', hv, hargs, hle, hverb, hfit⟩)
    · exact absurd h hsent
    · exact absurd h hlatched
    · obtain rfl := Option.some.inj hv
      have hsame : texts = texts' := by
        rw [htexts, hargs, declared_of_le (by simpa using hle), take_of_length_le (le_refl _),
          textsOf_map_some]
      subst hsame
      exact ⟨hargs, hverb, hfit⟩

/-- The work, about to serve its first call. -/
def firstCall : Loop Symbol where
  driver := { context := ⟨1, .atom 0, 0, 0, true, Workspace.new⟩, seed := 0, validatedTree := .atom 0 }
  outcome := Run.new symbolicSha
  launches := []

/-- The ninth value of a call is dropped, and the call is carried out. -/
theorem ninth_value_is_dropped :
    ¬ Arrived firstCall (some (ascii "listar")) (List.replicate 9 (some [120]))
      (hostCall symbolicSha ⟨false, 0, 100, 0⟩ firstCall [] ⟨true, true, true, true, none⟩
        (some (ascii "listar")) (List.replicate 9 (some [120]))) := by
  intro harrived
  have hcall : (hostCall symbolicSha ⟨false, 0, 100, 0⟩ firstCall [] ⟨true, true, true, true, none⟩
      (some (ascii "listar")) (List.replicate 9 (some [120]))).2 =
        some (ascii "listar", List.replicate 8 [120]) := by
    decide +kernel
  generalize hostCall symbolicSha ⟨false, 0, 100, 0⟩ firstCall [] ⟨true, true, true, true, none⟩
    (some (ascii "listar")) (List.replicate 9 (some [120])) = result at hcall harrived
  obtain ⟨after, executed⟩ := result
  obtain rfl : executed = _ := hcall
  exact absurd harrived.2.1 (by decide)

end Thalyx.Work
