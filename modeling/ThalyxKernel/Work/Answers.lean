/-
What a verb answers: `user/k5work/src/verbs.rs`.

`outcome` says what a call comes to in terms of the workspace: a report, with the context after it,
or a refusal.  It mentions no byte of the answer.  `said` is the object that is to be answered:
the report, or that it is too large, or the refusal.

Every verb writes the text of its object or, when it does not fit, nothing; only `leer` goes on
to say that it is too large.  So an answer is complete exactly when the object's strings are
well-formed UTF-8 and there is room for it, and `Sayable` says which calls those are: names are at
most 32 bytes and entries at most eight, so there is always room but for what the caller's own
bytes take when they are echoed, and for the lines `contexto` and `buscar` put beside them.
-/
import ThalyxKernel.Work.Verbs

namespace Thalyx.Work.Verbs

open Thalyx.Json (Value)

/-! ### What a call comes to -/

/-- An object that says `ok` and more. -/
def report (fields : List (Bytes × Value)) : Value := .object ((ascii "ok", .bool true) :: fields)

def refusal (word detail : Bytes) : Value :=
  .object [(ascii "ok", .bool false), (ascii "error", .string word),
    (ascii "detail", .string detail)]

/-- The profile this backend declares. -/
def nativeProfile : Value :=
  .object [(ascii "audited_control", .bool true),
    (ascii "cancellation", .string (ascii "scope_closure_between_tokens")),
    (ascii "dma_isolated", .bool false), (ascii "engine_compute_threads", .number 1),
    (ascii "engine_mmap", .bool true), (ascii "engine_resident", .bool true),
    (ascii "managed_local_v1", .bool true), (ascii "mutable_files", .bool false),
    (ascii "power_cut_durability", .string (ascii "unknown")), (ascii "type_check", .bool false)]

/-- What an entry has of a text, if it has any. -/
def hitIn (needle : Bytes) (entry : Entry) : Option (Bytes × Nat) :=
  if countBytes entry.bytes needle = 0 then none
  else some (entry.name, countBytes entry.bytes needle)

def hits (w : Workspace) (needle : Bytes) : List (Bytes × Nat) :=
  w.entries.filterMap (hitIn needle)

/-- How often a text appears in the workspace. -/
def uses (w : Workspace) (needle : Bytes) : Nat :=
  (w.entries.map fun entry => countBytes entry.bytes needle).sum

/-- Where an entry defines a function of that name: the entry's name and the line, cut to 96
bytes.  Longer names than 39 bytes are not looked for. -/
def definitionIn (name : Bytes) (entry : Entry) : Option (Bytes × Bytes) :=
  if name.length ≤ 39 then
    (findBytes entry.bytes (ascii "function " ++ name)).map fun position =>
      let line := entry.bytes.drop position
      (entry.name, line.take (min ((findBytes line [0x0A]).getD line.length) 96))
  else none

def definition (w : Workspace) (name : Bytes) : Option (Bytes × Bytes) :=
  w.entries.findSome? (definitionIn name)

variable {D : Type}

def stateFields (bytesOf : D → DigestBytes) (context : Context D) : List (Bytes × Value) :=
  let intent := intentOf context.role
  [(ascii "generation", .number context.generation),
    (ascii "root", .string (Json.hexText (bytesOf context.root))),
    (ascii "mark", .string (markFor context.seed context.role)),
    (ascii "zero_mark", .string zeroMark),
    (ascii "target", .string intent.target),
    (ascii "placeholder", .string intent.placeholder),
    (ascii "record", .string intent.record),
    (ascii "prompts", .array (intent.prompts.map Value.string)),
    (ascii "predict", .number intent.predict),
    (ascii "names", .number context.workspace.entries.length),
    (ascii "open", .bool context.openNow)]

def readFields (name bytes : Bytes) : List (Bytes × Value) :=
  [(ascii "name", .string name), (ascii "bytes", .number bytes.length),
    (ascii "text", .string bytes)]

def entryValue (entry : Entry) : Value :=
  .object [(ascii "name", .string entry.name), (ascii "bytes", .number entry.bytes.length),
    (ascii "changed", .bool entry.changed)]

def listFields (w : Workspace) : List (Bytes × Value) :=
  [(ascii "names", .array (w.entries.map entryValue))]

def substituteFields (name : Bytes) (position : Nat) (w : Workspace) : List (Bytes × Value) :=
  [(ascii "name", .string name), (ascii "at", .number position),
    (ascii "changed", .number w.changed)]

def writeFields (name text : Bytes) (w : Workspace) : List (Bytes × Value) :=
  [(ascii "name", .string name), (ascii "bytes", .number text.length),
    (ascii "changed", .number w.changed)]

def changedFields (w : Workspace) : List (Bytes × Value) :=
  [(ascii "count", .number w.changed),
    (ascii "names", .array ((w.entries.filter Entry.changed).map fun entry => .string entry.name))]

def hitValue (hit : Bytes × Nat) : Value :=
  .object [(ascii "name", .string hit.1), (ascii "count", .number hit.2)]

def grepFields (w : Workspace) (needle : Bytes) : List (Bytes × Value) :=
  [(ascii "text", .string needle), (ascii "hits", .array ((hits w needle).map hitValue)),
    (ascii "total", .number (uses w needle))]

def contextFields (w : Workspace) (name : Bytes) : List (Bytes × Value) :=
  let found := (definition w name).getD ([], [])
  [(ascii "name", .string name), (ascii "uses", .number (uses w name)),
    (ascii "defined_in", .string found.1), (ascii "signature", .string found.2),
    (ascii "coverage", .string (ascii "textual")), (ascii "resolved", .bool false)]

def profileFields : List (Bytes × Value) :=
  [(ascii "profile", nativeProfile), (ascii "backend", .string (ascii "thalyx-kernel"))]

/-- What a call comes to: why it is refused, or the context after it and what it reports. -/
def outcome (bytesOf : D → DigestBytes) (context : Context D) (name : Bytes) (args : List Bytes) :
    Except (Bytes × Bytes) (Context D × List (Bytes × Value)) :=
  match Verb.of name with
  | none => .error (ascii "no_such_verb", name)
  | some .state => .ok (context, stateFields bytesOf context)
  | some .read =>
    match args.head? with
    | none => .error (ascii "bad_argument", ascii "leer needs a name")
    | some name =>
      match context.workspace.read name with
      | none => .error (ascii "no_such_name", name)
      | some bytes => .ok (context, readFields name bytes)
  | some .list => .ok (context, listFields context.workspace)
  | some .substitute =>
    if context.openNow = false then .error (ascii "not_open", ascii "the workspace is frozen")
    else
      match args with
      | name :: before :: after :: _ =>
        match context.workspace.substitute name before after with
        | .ok (workspace, position) =>
          .ok ({ context with workspace }, substituteFields name position workspace)
        | .error error => .error (ascii error.word, name)
      | _ => .error (ascii "bad_argument", ascii "sustituir needs a name, a before and an after")
  | some .write =>
    if context.openNow = false then .error (ascii "not_open", ascii "the workspace is frozen")
    else
      match args with
      | name :: text :: _ =>
        match context.workspace.put name text false with
        | .ok workspace => .ok ({ context with workspace }, writeFields name text workspace)
        | .error error => .error (ascii error.word, name)
      | _ => .error (ascii "bad_argument", ascii "escribir needs a name and a text")
  | some .changed => .ok (context, changedFields context.workspace)
  | some .grep =>
    match args.head? with
    | none => .error (ascii "bad_argument", ascii "buscar needs a text")
    | some needle => .ok (context, grepFields context.workspace needle)
  | some .context =>
    match args.head? with
    | none => .error (ascii "bad_argument", ascii "contexto needs a name")
    | some name => .ok (context, contextFields context.workspace name)
  | some .profile => .ok (context, profileFields)

/-- There is room for a value in the buffer. -/
def Fits (v : Value) : Prop := v.text.length ≤ answerBytes

instance (v : Value) : Decidable (Fits v) :=
  inferInstanceAs (Decidable (v.text.length ≤ answerBytes))

/-- The effect of a call took place: it is not refused, and there is room for its whole report. -/
def TookPlace (bytesOf : D → DigestBytes) (context : Context D) (name : Bytes)
    (args : List Bytes) : Prop :=
  ∃ after fields, outcome bytesOf context name args = .ok (after, fields) ∧ Fits (report fields)

/-- The object that is to be answered.  A report there is no room for becomes a refusal. -/
def said (bytesOf : D → DigestBytes) (context : Context D) (name : Bytes) (args : List Bytes) :
    Value :=
  match outcome bytesOf context name args with
  | .error (word, detail) => refusal word detail
  | .ok (_, fields) =>
    if Fits (report fields) then report fields
    else refusal (ascii "too_large") (args.headD name)

/-- An answer is one complete object. -/
structure Complete (bytesOf : D → DigestBytes) (context : Context D) (name : Bytes)
    (args : List Bytes) (served : Context D × Bytes) : Prop where
  nonempty : served.2 ≠ []
  utf8 : Utf8.Valid served.2
  /-- It is read as the object that is to be answered, every string in it included. -/
  object : Json.parse served.2 = some (said bytesOf context name args)
  /-- `ok` is said first, and says whether the effect took place. -/
  ok : ∃ fields ok, Json.parse served.2 = some (.object ((ascii "ok", .bool ok) :: fields)) ∧
    (ok = true ↔ TookPlace bytesOf context name args)
  /-- The workspace is edited as the outcome has it, and not at all by a refused call. -/
  edited : served.1 = match outcome bytesOf context name args with
    | .error _ => context
    | .ok (after, _) => after

/-! ### What is written -/

/-- The text of a value, or nothing when there is no room for it. -/
def bounded (v : Value) : Bytes := if Fits v then v.text else []

variable {after before bytes detail text word : Bytes}
variable {baseline behind : Bool}

theorem finish_eq {json : Json} {v : Value}
    (h : Json.At answerBytes json text behind) (htext : text = v.text) :
    json.finish = if Fits v then some v.text else none := by
  rw [h.finish, htext]
  by_cases hfit : Fits v
  · rw [if_pos hfit]
    exact if_pos hfit
  · rw [if_neg hfit]
    exact if_neg hfit

theorem finished_eq {json : Json} {v : Value}
    (h : Json.At answerBytes json text behind) (htext : text = v.text) :
    finished json = bounded v := by
  unfold finished bounded
  rw [finish_eq h htext]
  by_cases hfit : Fits v
  · rw [if_pos hfit, if_pos hfit]
    rfl
  · rw [if_neg hfit, if_neg hfit]
    rfl

theorem report_text (fields : List (Bytes × Value)) :
    (report fields).text = [] ++ (Json.separator false ++ [0x7B])
      ++ (Json.separator false ++ (Json.quoted (ascii "ok") ++ (0x3A :: (Value.bool true).text)))
      ++ (Json.membersText true fields ++ [0x7D]) := by
  simp [report, Value.text, Json.membersText, Json.separator]

theorem refuse_eq (word detail : Bytes) : refuse word detail = bounded (refusal word detail) := by
  have hopen := (Json.at_new answerBytes).openObject
  have hok := hopen.fieldBool (ascii "ok") false
  have hword := hok.fieldString (ascii "error") word
  have hdetail := hword.fieldString (ascii "detail") detail
  refine finished_eq hdetail.closeObject ?_
  simp [refusal, Value.text, Json.membersText, Json.separator]

theorem at_ok : Json.At answerBytes
    (((Json.new answerBytes).openObject).fieldBool (ascii "ok") true)
    ([] ++ (Json.separator false ++ [0x7B])
      ++ (Json.separator false ++ (Json.quoted (ascii "ok") ++ (0x3A :: (Value.bool true).text))))
    true :=
  (Json.at_new answerBytes).openObject.fieldBool (ascii "ok") true

theorem nativeProfile_text : nativeProfile.text = nativeProfileJson := by decide +kernel

theorem profile_eq : profile = bounded (report profileFields) := by
  have hkey := at_ok.key (ascii "profile")
  have hbackend := (hkey.rawValue nativeProfileJson).fieldString (ascii "backend")
    (ascii "thalyx-kernel")
  refine finished_eq hbackend.closeObject ?_
  rw [report_text]
  simp [profileFields, Json.membersText, Json.separator, nativeProfile_text]

variable (bytesOf : D → DigestBytes) (context : Context D)

theorem state_eq : state bytesOf context = bounded (report (stateFields bytesOf context)) := by
  have hgeneration := at_ok.fieldNumber (ascii "generation") context.generation
  have hroot := (hgeneration.key (ascii "root")).string (Json.hexText (bytesOf context.root))
  have hmark := hroot.fieldString (ascii "mark") (markFor context.seed context.role)
  have hzero := hmark.fieldString (ascii "zero_mark") zeroMark
  have htarget := hzero.fieldString (ascii "target") (intentOf context.role).target
  have hplace := htarget.fieldString (ascii "placeholder") (intentOf context.role).placeholder
  have hrecord := hplace.fieldString (ascii "record") (intentOf context.role).record
  have hprompts := ((hrecord.key (ascii "prompts")).openArray.items
    (fun prompt {_ _ _} h => h.string prompt) (intentOf context.role).prompts).closeArray
  have hpredict := hprompts.fieldNumber (ascii "predict") (intentOf context.role).predict
  have hnames := hpredict.fieldNumber (ascii "names") context.workspace.entries.length
  have hopen := hnames.fieldBool (ascii "open") context.openNow
  refine finished_eq hopen.closeObject ?_
  rw [report_text]
  simp [stateFields, Json.membersText, Json.separator, Value.text]

theorem list_eq : list context = bounded (report (listFields context.workspace)) := by
  have hentry : ∀ (entry : Entry) {json : Json} {text : Bytes} {behind : Bool},
      Json.At answerBytes json text behind →
      Json.At answerBytes
        (json.openObject
          |>.fieldString (ascii "name") entry.name
          |>.fieldNumber (ascii "bytes") entry.bytes.length
          |>.fieldBool (ascii "changed") entry.changed
          |>.closeObject)
        (text ++ (Json.separator behind ++ (entryValue entry).text)) true := by
    intro entry json text behind h
    have hname := h.openObject.fieldString (ascii "name") entry.name
    have hbytes := hname.fieldNumber (ascii "bytes") entry.bytes.length
    have hchanged := (hbytes.fieldBool (ascii "changed") entry.changed).closeObject
    simpa [entryValue, Value.text, Json.membersText, Json.separator] using hchanged
  have hnames := ((at_ok.key (ascii "names")).openArray.items hentry
    context.workspace.entries).closeArray
  refine finished_eq hnames.closeObject ?_
  rw [report_text]
  simp [listFields, Json.membersText, Json.separator, Value.text]

theorem changed_eq : changed context = bounded (report (changedFields context.workspace)) := by
  have hloop : ∀ (l : List Entry) (json : Json),
      (json.each l fun json entry => if entry.changed then json.string entry.name else json)
        = json.each (l.filter Entry.changed) fun json entry => json.string entry.name := by
    intro l json
    simp only [Json.each, List.foldl_filter]
  have hcount := at_ok.fieldNumber (ascii "count") context.workspace.changed
  have hnames := ((hcount.key (ascii "names")).openArray.items
    (fun entry {_ _ _} h => h.string entry.name)
    (context.workspace.entries.filter Entry.changed)).closeArray
  unfold changed
  rw [hloop]
  refine finished_eq hnames.closeObject ?_
  rw [report_text]
  simp [changedFields, Json.membersText, Json.separator, Value.text]

theorem read_eq {name : Bytes} {args : List Bytes} (hname : args.head? = some name)
    (hbytes : context.workspace.read name = some bytes) :
    read context args
      = if Fits (report (readFields name bytes)) then (report (readFields name bytes)).text
        else bounded (refusal (ascii "too_large") name) := by
  have hok := at_ok.fieldString (ascii "name") name
  have hlength := hok.fieldNumber (ascii "bytes") bytes.length
  have htext := (hlength.fieldString (ascii "text") bytes).closeObject
  have hfinish := finish_eq (v := report (readFields name bytes)) htext (by
    rw [report_text]
    simp [readFields, Json.membersText, Json.separator])
  simp only [read, hname, hbytes, hfinish, refuse_eq]
  by_cases hfit : Fits (report (readFields name bytes))
  · rw [if_pos hfit, if_pos hfit]
  · rw [if_neg hfit, if_neg hfit]

variable {rest : List Bytes} {workspace : Workspace} {position : Nat}

theorem substitute_eq (hopen : context.openNow ≠ false) {name : Bytes}
    (hedit : context.workspace.substitute name before after = .ok (workspace, position)) :
    substitute context (name :: before :: after :: rest)
      = ({ context with workspace },
          bounded (report (substituteFields name position workspace))) := by
  have hname := at_ok.fieldString (ascii "name") name
  have hat := hname.fieldNumber (ascii "at") position
  have hchanged := (hat.fieldNumber (ascii "changed") workspace.changed).closeObject
  simp only [substitute, if_neg hopen, hedit]
  congr 1
  refine finished_eq hchanged ?_
  rw [report_text]
  simp [substituteFields, Json.membersText, Json.separator]

theorem write_eq (hopen : context.openNow ≠ false) {name : Bytes}
    (hedit : context.workspace.put name text false = .ok workspace) :
    write context (name :: text :: rest)
      = ({ context with workspace }, bounded (report (writeFields name text workspace))) := by
  have hname := at_ok.fieldString (ascii "name") name
  have hbytes := hname.fieldNumber (ascii "bytes") text.length
  have hchanged := (hbytes.fieldNumber (ascii "changed") workspace.changed).closeObject
  simp only [write, if_neg hopen, hedit]
  congr 1
  refine finished_eq hchanged ?_
  rw [report_text]
  simp [writeFields, Json.membersText, Json.separator]

/-- One hit, written. -/
def writeHit (json : Json) (hit : Bytes × Nat) : Json :=
  json.openObject
    |>.fieldString (ascii "name") hit.1
    |>.fieldNumber (ascii "count") hit.2
    |>.closeObject

theorem grep_loop (needle : Bytes) (entries : List Entry) (json : Json) (total : Nat) :
    entries.foldl (grepEntry needle) (json, total)
      = (json.each (entries.filterMap (hitIn needle)) writeHit,
          total + (entries.map fun entry => countBytes entry.bytes needle).sum) := by
  induction entries generalizing json total with
  | nil => rfl
  | cons entry entries ih =>
    rw [List.foldl_cons, List.map_cons, List.sum_cons, ← Nat.add_assoc]
    by_cases hnone : countBytes entry.bytes needle = 0
    · have hskip : grepEntry needle (json, total) entry = (json, total) := if_pos hnone
      have hhit : hitIn needle entry = none := if_pos hnone
      rw [hskip, ih, List.filterMap_cons_none hhit, hnone, Nat.add_zero]
    · have hwrite : grepEntry needle (json, total) entry
          = (writeHit json (entry.name, countBytes entry.bytes needle),
              total + countBytes entry.bytes needle) := if_neg hnone
      have hhit : hitIn needle entry = some (entry.name, countBytes entry.bytes needle) :=
        if_neg hnone
      rw [hwrite, ih, List.filterMap_cons_some hhit]
      rfl

theorem grep_eq {needle : Bytes} {args : List Bytes} (hneedle : args.head? = some needle) :
    grep context args = bounded (report (grepFields context.workspace needle)) := by
  have hhit : ∀ (hit : Bytes × Nat) {json : Json} {text : Bytes} {behind : Bool},
      Json.At answerBytes json text behind →
      Json.At answerBytes (writeHit json hit)
        (text ++ (Json.separator behind ++ (hitValue hit).text)) true := by
    intro hit json text behind h
    have hname := h.openObject.fieldString (ascii "name") hit.1
    have hcount := (hname.fieldNumber (ascii "count") hit.2).closeObject
    simpa [writeHit, hitValue, Value.text, Json.membersText, Json.separator] using hcount
  have htext := at_ok.fieldString (ascii "text") needle
  have hhits := ((htext.key (ascii "hits")).openArray.items hhit
    (hits context.workspace needle)).closeArray
  have htotal := (hhits.fieldNumber (ascii "total") (uses context.workspace needle)).closeObject
  simp only [grep, hneedle, grep_loop, Nat.zero_add]
  refine finished_eq htotal ?_
  rw [report_text]
  simp [grepFields, Json.membersText, Json.separator, Value.text]

theorem contextEntry_defined (name : Bytes) {s : Seen} (h : s.definedIn ≠ none) (entry : Entry) :
    contextEntry name s entry = { s with uses := s.uses + countBytes entry.bytes name } := by
  unfold contextEntry
  exact if_neg fun hboth => h hboth.1

theorem contextEntry_undefined (name : Bytes) {s : Seen} (h : s.definedIn = none) (entry : Entry) :
    contextEntry name s entry
      = { uses := s.uses + countBytes entry.bytes name
          definedIn := (definitionIn name entry).map Prod.fst
          definition := ((definitionIn name entry).map Prod.snd).getD s.definition } := by
  have hhead : (ascii "function ").length + name.length ≤ 48 ↔ name.length ≤ 39 := by
    have hlength : (ascii "function ").length = 9 := by decide
    omega
  unfold contextEntry definitionIn
  simp only [h, hhead, true_and]
  by_cases hlong : name.length ≤ 39
  · rw [if_pos hlong, if_pos hlong]
    cases findBytes entry.bytes (ascii "function " ++ name) with
    | none => rfl
    | some position => rfl
  · rw [if_neg hlong, if_neg hlong]
    rfl

theorem context_loop (name : Bytes) (entries : List Entry) (s : Seen) :
    entries.foldl (contextEntry name) s
      = { uses := s.uses + (entries.map fun entry => countBytes entry.bytes name).sum
          definedIn := s.definedIn.or ((entries.findSome? (definitionIn name)).map Prod.fst)
          definition := if s.definedIn = none then
              ((entries.findSome? (definitionIn name)).map Prod.snd).getD s.definition
            else s.definition } := by
  induction entries generalizing s with
  | nil => simp
  | cons entry entries ih =>
    rw [List.foldl_cons, ih, List.map_cons, List.sum_cons, ← Nat.add_assoc,
      List.findSome?_cons]
    by_cases hnone : s.definedIn = none
    · rw [contextEntry_undefined name hnone, hnone]
      cases definitionIn name entry with
      | none => rfl
      | some found => rfl
    · rw [contextEntry_defined name hnone]
      obtain ⟨found, hfound⟩ := Option.ne_none_iff_exists'.mp hnone
      simp [hfound]

theorem context_eq {name : Bytes} {args : List Bytes} (hname : args.head? = some name) :
    contextOf context args = bounded (report (contextFields context.workspace name)) := by
  have hok := at_ok.fieldString (ascii "name") name
  have huses := hok.fieldNumber (ascii "uses") (uses context.workspace name)
  have hwhere := huses.fieldString (ascii "defined_in")
    (((definition context.workspace name).map Prod.fst).getD [])
  have hline := hwhere.fieldString (ascii "signature")
    (((definition context.workspace name).map Prod.snd).getD [])
  have hcoverage := hline.fieldString (ascii "coverage") (ascii "textual")
  have hresolved := (hcoverage.fieldBool (ascii "resolved") false).closeObject
  have hfound : (definition context.workspace name).getD ([], [])
      = (((definition context.workspace name).map Prod.fst).getD [],
          ((definition context.workspace name).map Prod.snd).getD []) := by
    cases definition context.workspace name with
    | none => rfl
    | some found => rfl
  simp only [contextOf, hname, context_loop, Nat.zero_add, Option.none_or, if_true]
  refine finished_eq hresolved ?_
  rw [report_text]
  simp [contextFields, hfound, Json.membersText, Json.separator]

/-! ### When an answer is complete -/

variable {bytesOf context} {name : Bytes} {args : List Bytes}

theorem text_ne_nil (v : Value) : v.text ≠ [] := by
  obtain ⟨b, t, htext, -⟩ := Json.text_head v
  rw [htext]
  exact List.cons_ne_nil b t

variable {fields : List (Bytes × Value)}

/-- The text of the object that is to be answered is a complete answer if there is room for it
and its strings are well-formed; where there is no room nothing is written. -/
theorem complete_iff {ok : Bool} {after : Context D}
    (hsaid : said bytesOf context name args = .object ((ascii "ok", .bool ok) :: fields))
    (hok : ok = true ↔ TookPlace bytesOf context name args)
    (hedit : after = match outcome bytesOf context name args with
      | .error _ => context
      | .ok (after, _) => after) :
    Complete bytesOf context name args
        (after, bounded (.object ((ascii "ok", .bool ok) :: fields)))
      ↔ Fits (.object ((ascii "ok", .bool ok) :: fields))
        ∧ (Value.object ((ascii "ok", .bool ok) :: fields)).Readable := by
  unfold bounded
  by_cases hfit : Fits (.object ((ascii "ok", .bool ok) :: fields))
  · rw [if_pos hfit]
    constructor
    · intro h
      exact ⟨hfit, (Json.text_valid _).mp h.utf8⟩
    · rintro ⟨-, hread⟩
      exact {
        nonempty := text_ne_nil _
        utf8 := (Json.text_valid _).mpr hread
        object := by rw [Json.parse_text, hsaid]
        ok := ⟨fields, ok, Json.parse_text _, hok⟩
        edited := hedit }
  · rw [if_neg hfit]
    constructor
    · intro h
      exact absurd rfl h.nonempty
    · rintro ⟨hfit', -⟩
      exact absurd hfit' hfit

theorem complete_refusal (h : outcome bytesOf context name args = .error (word, detail)) :
    Complete bytesOf context name args (context, bounded (refusal word detail))
      ↔ Fits (refusal word detail) ∧ (refusal word detail).Readable := by
  refine complete_iff ?_ ?_ ?_
  · simp only [said, h]
    rfl
  · refine iff_of_false Bool.false_ne_true ?_
    rintro ⟨after, fields, hreport, -⟩
    rw [h] at hreport
    exact nomatch hreport
  · rw [h]

theorem complete_report {after : Context D}
    (h : outcome bytesOf context name args = .ok (after, fields)) :
    Complete bytesOf context name args (after, bounded (report fields))
      ↔ Fits (report fields) ∧ (report fields).Readable := by
  by_cases hfit : Fits (report fields)
  · refine complete_iff ?_ ?_ ?_
    · simp only [said, h, if_pos hfit]
      rfl
    · exact iff_of_true rfl ⟨after, fields, h, hfit⟩
    · rw [h]
  · unfold bounded
    rw [if_neg hfit]
    refine iff_of_false ?_ fun hboth => hfit hboth.1
    intro hcomplete
    exact hcomplete.nonempty rfl

theorem complete_tooLarge {after : Context D} {first : Bytes}
    (h : outcome bytesOf context name args = .ok (after, fields))
    (hfit : ¬ Fits (report fields)) (hargs : args.head? = some first) :
    Complete bytesOf context name args (after, bounded (refusal (ascii "too_large") first))
      ↔ Fits (refusal (ascii "too_large") first)
        ∧ (refusal (ascii "too_large") first).Readable := by
  refine complete_iff ?_ ?_ ?_
  · have hfirst : args.headD name = first := by
      rw [List.headD_eq_head?_getD, hargs]
      rfl
    simp only [said, h, if_neg hfit, hfirst]
    rfl
  · refine iff_of_false Bool.false_ne_true ?_
    rintro ⟨after', fields', hreport, hfit'⟩
    rw [h] at hreport
    cases hreport
    exact hfit hfit'
  · rw [h]

/-! ### How long the objects are -/

open Thalyx.Json (width decimal membersLength itemsLength)

theorem key_widths :
    width (ascii "ok") = 2 ∧ width (ascii "error") = 5 ∧ width (ascii "detail") = 6
    ∧ width (ascii "name") = 4 ∧ width (ascii "bytes") = 5 ∧ width (ascii "text") = 4
    ∧ width (ascii "count") = 5 ∧ width (ascii "hits") = 4 ∧ width (ascii "total") = 5
    ∧ width (ascii "uses") = 4 ∧ width (ascii "defined_in") = 10 ∧ width (ascii "signature") = 9
    ∧ width (ascii "coverage") = 8 ∧ width (ascii "textual") = 7 ∧ width (ascii "resolved") = 8
    ∧ width (ascii "names") = 5 ∧ width (ascii "changed") = 7 ∧ width (ascii "at") = 2 := by
  decide

theorem report_length (fields : List (Bytes × Value)) :
    (report fields).text.length = 11 + membersLength fields + fields.length := by
  have hok : width (ascii "ok") = 2 := by decide
  rw [report, Json.object_length, membersLength, hok, Json.bool_length, List.length_cons,
    if_pos rfl]
  omega

/-- The length of a refusal. -/
def refusalLength (word detail : Bytes) : Nat := 35 + width word + width detail

theorem refusal_length (word detail : Bytes) :
    (refusal word detail).text.length = refusalLength word detail := by
  simp only [refusal, Json.object_length, membersLength, Json.string_length, Json.bool_length,
    key_widths, List.length_cons, List.length_nil, Bool.false_eq_true, if_false, refusalLength]
  omega

/-- The length of what `leer` reports. -/
def readLength (name bytes : Bytes) : Nat :=
  40 + width name + (decimal bytes.length).length + width bytes

theorem read_length (name bytes : Bytes) :
    (report (readFields name bytes)).text.length = readLength name bytes := by
  simp only [report_length, readFields, membersLength, Json.string_length, Json.number_length,
    key_widths, List.length_cons, List.length_nil, readLength]
  omega

/-- The length of one hit. -/
def hitLength (hit : Bytes × Nat) : Nat := 20 + width hit.1 + (decimal hit.2).length

theorem hit_length (hit : Bytes × Nat) : (hitValue hit).text.length = hitLength hit := by
  simp only [hitValue, Json.object_length, membersLength, Json.string_length, Json.number_length,
    key_widths, List.length_cons, List.length_nil, hitLength]
  omega

/-- The length of what `buscar` reports. -/
def grepLength (w : Workspace) (needle : Bytes) : Nat :=
  40 + width needle + ((hits w needle).map hitLength).sum + ((hits w needle).length - 1)
    + (decimal (uses w needle)).length

theorem itemsLength_hits (l : List (Bytes × Nat)) :
    itemsLength (l.map hitValue) = (l.map hitLength).sum := by
  induction l with
  | nil => rfl
  | cons hit l ih => rw [List.map_cons, itemsLength, hit_length, ih, List.map_cons, List.sum_cons]

theorem grep_length (w : Workspace) (needle : Bytes) :
    (report (grepFields w needle)).text.length = grepLength w needle := by
  simp only [report_length, grepFields, membersLength, Json.string_length, Json.number_length,
    Json.array_length, itemsLength_hits, key_widths, List.length_cons, List.length_nil,
    List.length_map, grepLength]
  omega

/-- The length of what `contexto` reports. -/
def contextLength (w : Workspace) (name : Bytes) : Nat :=
  let found := (definition w name).getD ([], [])
  98 + width name + (decimal (uses w name)).length + width found.1 + width found.2

theorem context_length (w : Workspace) (name : Bytes) :
    (report (contextFields w name)).text.length = contextLength w name := by
  simp only [report_length, contextFields, membersLength, Json.string_length, Json.number_length,
    Json.bool_length, key_widths, List.length_cons, List.length_nil, Bool.false_eq_true, if_false,
    contextLength]
  omega

theorem width_of_legal {name : Bytes} (h : legalName name = true) : width name ≤ 192 := by
  have hlong := Json.width_le name
  unfold legalName at h
  split at h
  case isTrue => exact nomatch h
  case isFalse hshort =>
      simp only [Bool.or_eq_true, decide_eq_true_eq, not_or, not_lt] at hshort
      omega

variable {w w' : Workspace}

theorem legal_of_read {name : Bytes} (h : w.read name = some bytes) :
    legalName name = true ∧ bytes.length ≤ maxBytes := by
  obtain ⟨entry, hfind, rfl⟩ := Option.map_eq_some_iff.mp h
  have hmem := List.mem_of_find?_eq_some hfind
  have hname : entry.name = name := by
    simpa using List.find?_some hfind
  exact ⟨hname ▸ w.names_legal entry hmem, w.bytes_fit entry hmem⟩

theorem changed_le (w : Workspace) : w.changed ≤ 8 :=
  (List.length_filter_le _ _).trans w.length_le

theorem decimal_le_four {n : Nat} (h : n ≤ 9999) : (decimal n).length ≤ 4 :=
  Json.decimal_length_le (k := 3) (by omega)

theorem refusal_fits {name : Bytes} (hword : word.length ≤ 14)
    (hname : legalName name = true) : Fits (refusal word name) := by
  have hecho := width_of_legal hname
  have hwide := Json.width_le word
  unfold Fits answerBytes
  rw [refusal_length, refusalLength]
  omega

theorem list_fits (w : Workspace) : Fits (report (listFields w)) := by
  have hentry : ∀ v ∈ w.entries.map entryValue, v.text.length ≤ 300 := by
    intro v hv
    obtain ⟨entry, hmem, rfl⟩ := List.mem_map.mp hv
    have hwide := width_of_legal (w.names_legal entry hmem)
    have hfit := w.bytes_fit entry hmem
    have hnumber := decimal_le_four (n := entry.bytes.length) (by unfold maxBytes at hfit; omega)
    have hflag := Json.bool_length_le entry.changed
    simp only [entryValue, Json.object_length, membersLength, Json.string_length,
      Json.number_length, key_widths, List.length_cons, List.length_nil]
    omega
  have hall := Json.itemsLength_le hentry
  have hcount := w.length_le
  unfold maxEntries at hcount
  unfold Fits answerBytes
  simp only [report_length, listFields, membersLength, Json.array_length, key_widths,
    List.length_cons, List.length_nil, List.length_map] at hall ⊢
  omega

theorem changed_fits (w : Workspace) : Fits (report (changedFields w)) := by
  have hentry : ∀ v ∈ (w.entries.filter Entry.changed).map
      (fun entry => Value.string entry.name), v.text.length ≤ 194 := by
    intro v hv
    obtain ⟨entry, hmem, rfl⟩ := List.mem_map.mp hv
    have hwide := width_of_legal (w.names_legal entry (List.mem_filter.mp hmem).1)
    rw [Json.string_length]
    omega
  have hall := Json.itemsLength_le hentry
  have hchanged := changed_le w
  have hnumber := decimal_le_four (n := w.changed) (by omega)
  have hfew : (w.entries.filter Entry.changed).length ≤ 8 := hchanged
  unfold Fits answerBytes
  simp only [report_length, changedFields, membersLength, Json.array_length, Json.number_length,
    key_widths, List.length_cons, List.length_nil, List.length_map] at hall ⊢
  omega

theorem substitute_ok {name : Bytes} (h : w.substitute name before after = .ok (w', position)) :
    legalName name = true ∧ position ≤ maxBytes := by
  unfold Workspace.substitute at h
  cases hread : w.read name with
  | none => simp [hread] at h
  | some bytes =>
    obtain ⟨hlegal, hfit⟩ := legal_of_read hread
    cases hfind : findBytes bytes before with
    | none => simp [hread, hfind] at h
    | some found =>
      simp only [hread, hfind] at h
      split at h
      case isFalse => exact nomatch h
      case isTrue =>
          cases h
          have hlong := findBytes_le hfind
          exact ⟨hlegal, by omega⟩

variable {error : EditError}

theorem substitute_error {name : Bytes} (h : w.substitute name before after = .error error) :
    (w.read name = none ∧ error = .noSuchName) ∨ (∃ bytes, w.read name = some bytes) := by
  cases hread : w.read name with
  | none =>
    simp only [Workspace.substitute, hread] at h
    exact .inl ⟨rfl, (Except.error.inj h).symm⟩
  | some bytes => exact .inr ⟨bytes, rfl⟩

theorem put_ok {name : Bytes} (h : w.put name bytes baseline = .ok w') :
    legalName name = true ∧ bytes.length ≤ maxBytes := by
  unfold Workspace.put at h
  split at h
  case isFalse => exact nomatch h
  case isTrue hlegal =>
      split at h
      case isFalse => exact nomatch h
      case isTrue hfit => exact ⟨hlegal, hfit⟩

theorem put_error {name : Bytes} (h : w.put name bytes baseline = .error error) :
    (legalName name = false ∧ error = .badName) ∨ legalName name = true := by
  unfold Workspace.put at h
  split at h
  case isFalse hlegal => exact .inl ⟨Bool.eq_false_iff.mpr hlegal, (Except.error.inj h).symm⟩
  case isTrue hlegal => exact .inr hlegal

theorem substitute_fits {name : Bytes} (h : w.substitute name before after = .ok (w', position)) :
    Fits (report (substituteFields name position w')) := by
  obtain ⟨hlegal, hposition⟩ := substitute_ok h
  unfold maxBytes at hposition
  have hwide := width_of_legal hlegal
  have hcount := changed_le w'
  have hdigits := decimal_le_four (n := position) (by omega)
  have hdigits' := decimal_le_four (n := w'.changed) (by omega)
  unfold Fits answerBytes
  simp only [report_length, substituteFields, membersLength, Json.string_length, Json.number_length,
    key_widths, List.length_cons, List.length_nil]
  omega

theorem write_fits {name : Bytes}
    (h : w.put name text false = .ok w') : Fits (report (writeFields name text w')) := by
  obtain ⟨hlegal, hlong⟩ := put_ok h
  unfold maxBytes at hlong
  have hwide := width_of_legal hlegal
  have hcount := changed_le w'
  have hdigits := decimal_le_four (n := text.length) (by omega)
  have hdigits' := decimal_le_four (n := w'.changed) (by omega)
  unfold Fits answerBytes
  simp only [report_length, writeFields, membersLength, Json.string_length, Json.number_length,
    key_widths, List.length_cons, List.length_nil]
  omega

theorem hexText_length (value : DigestBytes) : (Json.hexText value).length = 64 := by
  simp [Json.hexText]

theorem report_fits (hfew : fields.length ≤ 11)
    (h : ∀ f ∈ fields, width f.1 ≤ 11 ∧ f.2.text.length ≤ 700) : Fits (report fields) := by
  have hall := Json.membersLength_le h
  have htotal : fields.length * (11 + 3 + 700) ≤ 11 * (11 + 3 + 700) :=
    Nat.mul_le_mul_right _ hfew
  unfold Fits answerBytes
  rw [report_length]
  omega

theorem intent_short (role : Nat) :
    width (intentOf role).target ≤ 20 ∧ width (intentOf role).placeholder ≤ 20
      ∧ width (intentOf role).record ≤ 20
      ∧ (Value.array ((intentOf role).prompts.map Value.string)).text.length ≤ 40
      ∧ (decimal (intentOf role).predict).length ≤ 2 := by
  unfold intentOf
  split
  · decide
  · decide

theorem state_fits (bytesOf : D → DigestBytes) {context : Context D}
    (hgeneration : context.generation < 2 ^ 64) : Fits (report (stateFields bytesOf context)) := by
  have hdigits : (decimal context.generation).length ≤ 20 :=
    Json.decimal_length_le (k := 19) (by omega)
  have hroot := Json.width_le (Json.hexText (bytesOf context.root))
  have hmark := Json.width_le (markFor context.seed context.role)
  have hmarkLength : (markFor context.seed context.role).length = 16 := by
    simp [markFor, markOf]
  have hzero : width zeroMark = 16 := by decide
  have hnames := decimal_le_four (n := context.workspace.entries.length)
    (context.workspace.length_le.trans (by decide))
  have hflag := Json.bool_length_le context.openNow
  obtain ⟨htarget, hplace, hrecord, hprompts, hpredict⟩ := intent_short context.role
  rw [hexText_length] at hroot
  rw [hmarkLength] at hmark
  refine report_fits (Nat.le_refl 11) ?_
  simp only [stateFields, List.forall_mem_cons, Json.string_length, Json.number_length]
  refine ⟨⟨by decide, ?_⟩, ⟨by decide, ?_⟩, ⟨by decide, ?_⟩, ⟨by decide, ?_⟩, ⟨by decide, ?_⟩,
    ⟨by decide, ?_⟩, ⟨by decide, ?_⟩, ⟨by decide, ?_⟩, ⟨by decide, ?_⟩, ⟨by decide, ?_⟩,
    ⟨by decide, ?_⟩, fun f hf => absurd hf List.not_mem_nil⟩
  all_goals omega

/-! ### What has to be well-formed in them -/

theorem keys_valid :
    Utf8.Valid (ascii "at") ∧ Utf8.Valid (ascii "bytes") ∧ Utf8.Valid (ascii "changed")
    ∧ Utf8.Valid (ascii "count") ∧ Utf8.Valid (ascii "coverage") ∧ Utf8.Valid (ascii "defined_in")
    ∧ Utf8.Valid (ascii "detail") ∧ Utf8.Valid (ascii "error") ∧ Utf8.Valid (ascii "hits")
    ∧ Utf8.Valid (ascii "name") ∧ Utf8.Valid (ascii "names") ∧ Utf8.Valid (ascii "ok")
    ∧ Utf8.Valid (ascii "resolved") ∧ Utf8.Valid (ascii "signature") ∧ Utf8.Valid (ascii "text")
    ∧ Utf8.Valid (ascii "textual") ∧ Utf8.Valid (ascii "total") ∧ Utf8.Valid (ascii "uses") := by
  decide

theorem report_readable (fields : List (Bytes × Value)) :
    (report fields).Readable ↔ ∀ f ∈ fields, Utf8.Valid f.1 ∧ f.2.Readable := by
  have hok : Utf8.Valid (ascii "ok") := by decide
  simp [report, Value.Readable, Json.membersReadable_iff, hok]

theorem refusal_readable (hword : Utf8.Valid word) (detail : Bytes) :
    (refusal word detail).Readable ↔ Utf8.Valid detail := by
  simp [refusal, Value.Readable, Json.membersReadable, keys_valid, hword]

theorem read_readable (name bytes : Bytes) :
    (report (readFields name bytes)).Readable ↔ Utf8.Valid name ∧ Utf8.Valid bytes := by
  simp [report_readable, readFields, Value.Readable, keys_valid]

theorem list_readable (w : Workspace) :
    (report (listFields w)).Readable ↔ ∀ entry ∈ w.entries, Utf8.Valid entry.name := by
  simp [report_readable, listFields, entryValue, Value.Readable, Json.itemsReadable_map,
    Json.membersReadable, keys_valid]

theorem substitute_readable (name : Bytes) (position : Nat) (w : Workspace) :
    (report (substituteFields name position w)).Readable ↔ Utf8.Valid name := by
  simp [report_readable, substituteFields, Value.Readable, keys_valid]

theorem write_readable (name text : Bytes) (w : Workspace) :
    (report (writeFields name text w)).Readable ↔ Utf8.Valid name := by
  simp [report_readable, writeFields, Value.Readable, keys_valid]

theorem changed_readable (w : Workspace) :
    (report (changedFields w)).Readable
      ↔ ∀ entry ∈ w.entries, entry.changed = true → Utf8.Valid entry.name := by
  simp [report_readable, changedFields, Value.Readable, Json.itemsReadable_map, keys_valid]

theorem grep_readable (w : Workspace) (needle : Bytes) :
    (report (grepFields w needle)).Readable
      ↔ Utf8.Valid needle ∧ ∀ hit ∈ hits w needle, Utf8.Valid hit.1 := by
  simp [report_readable, grepFields, hitValue, Value.Readable, Json.itemsReadable_map,
    Json.membersReadable, keys_valid]

theorem context_readable (w : Workspace) (name : Bytes) :
    (report (contextFields w name)).Readable
      ↔ Utf8.Valid name ∧ Utf8.Valid ((definition w name).getD ([], [])).1
        ∧ Utf8.Valid ((definition w name).getD ([], [])).2 := by
  simp [report_readable, contextFields, Value.Readable, keys_valid]

theorem hexDigit_mod_lt (n : Nat) : (Json.hexDigit (n % 16)).toNat < 0x80 :=
  Json.hexDigit_lt _ (Nat.mod_lt n (by decide))

theorem hexText_valid (value : DigestBytes) : Utf8.Valid (Json.hexText value) := by
  refine Utf8.Ascii.valid ?_
  intro b hb
  obtain ⟨byte, -, hdigit⟩ := List.mem_flatMap.mp hb
  have hhigh := Json.hexDigit_lt (byte.toNat / 16) (by have := byte.toNat_lt; omega)
  have hlow := hexDigit_mod_lt byte.toNat
  rcases List.mem_cons.mp hdigit with rfl | hdigit
  · exact hhigh
  · rw [List.mem_singleton.mp hdigit]
    exact hlow

theorem markFor_valid (seed role : Nat) : Utf8.Valid (markFor seed role) := by
  refine Utf8.Ascii.valid ?_
  intro b hb
  obtain ⟨index, -, rfl⟩ := List.mem_map.mp hb
  exact hexDigit_mod_lt _

theorem intent_valid (role : Nat) :
    Utf8.Valid (intentOf role).target ∧ Utf8.Valid (intentOf role).placeholder
      ∧ Utf8.Valid (intentOf role).record
      ∧ ∀ prompt ∈ (intentOf role).prompts, Utf8.Valid prompt := by
  unfold intentOf
  split
  · decide
  · decide

theorem state_readable (bytesOf : D → DigestBytes) (context : Context D) :
    (report (stateFields bytesOf context)).Readable := by
  obtain ⟨htarget, hplace, hrecord, hprompts⟩ := intent_valid context.role
  have hzero : Utf8.Valid zeroMark := by decide
  have hkeys : ∀ f ∈ stateFields bytesOf context, Utf8.Valid f.1 := by
    simp only [stateFields, List.forall_mem_cons]
    exact ⟨by decide, by decide, by decide, by decide, by decide, by decide, by decide, by decide,
      by decide, by decide, by decide, fun f hf => absurd hf List.not_mem_nil⟩
  refine (report_readable _).mpr fun f hf => ⟨hkeys f hf, ?_⟩
  clear hkeys
  revert f
  simp [stateFields, Value.Readable, Json.itemsReadable_map, hexText_valid, markFor_valid, hzero,
    htarget, hplace, hrecord]
  exact hprompts

theorem profile_readable : (report profileFields).Readable := by
  rw [← Json.text_valid]
  decide +kernel

theorem profile_fits : Fits (report profileFields) := by decide +kernel

/-! ### The calls whose answers are complete -/

/-- What a verb has to be asked for its answer to be complete. -/
def Sayable (context : Context D) (name : Bytes) (args : List Bytes) : Prop :=
  match Verb.of name with
  -- the name is echoed, whatever it is
  | none => Utf8.Valid name ∧ refusalLength (ascii "no_such_verb") name ≤ answerBytes
  | some .read =>
    match args.head? with
    | none => True
    | some name =>
      Utf8.Valid name ∧
        match context.workspace.read name with
        | none => refusalLength (ascii "no_such_name") name ≤ answerBytes
        | some bytes => readLength name bytes ≤ answerBytes → Utf8.Valid bytes
  | some .substitute =>
    if context.openNow = false then True
    else
      match args with
      | name :: _ :: _ :: _ =>
        Utf8.Valid name ∧ (context.workspace.read name = none →
          refusalLength (ascii "no_such_name") name ≤ answerBytes)
      | _ => True
  | some .write =>
    if context.openNow = false then True
    else
      match args with
      | name :: _ :: _ =>
        Utf8.Valid name ∧ (legalName name = false →
          refusalLength (ascii "bad_name") name ≤ answerBytes)
      | _ => True
  | some .grep =>
    match args.head? with
    | none => True
    | some needle =>
      Utf8.Valid needle ∧ (∀ hit ∈ hits context.workspace needle, Utf8.Valid hit.1)
        ∧ grepLength context.workspace needle ≤ answerBytes
  | some .context =>
    match args.head? with
    | none => True
    | some name =>
      -- the line is cut at 96 bytes, which may be inside a character
      let found := (definition context.workspace name).getD ([], [])
      Utf8.Valid name ∧ Utf8.Valid found.1 ∧ Utf8.Valid found.2
        ∧ contextLength context.workspace name ≤ answerBytes
  | some .list => ∀ entry ∈ context.workspace.entries, Utf8.Valid entry.name
  | some .changed =>
    ∀ entry ∈ context.workspace.entries, entry.changed = true → Utf8.Valid entry.name
  | some .state | some .profile => True

theorem complete_constant (h : outcome bytesOf context name args = .error (word, detail))
    (hword : Utf8.Valid word) (hdetail : Utf8.Valid detail)
    (hfit : refusalLength word detail ≤ answerBytes) :
    Complete bytesOf context name args (context, refuse word detail) := by
  rw [refuse_eq, complete_refusal h, refusal_readable hword]
  exact ⟨by rw [Fits, refusal_length]; exact hfit, hdetail⟩

theorem complete_echo
    (h : outcome bytesOf context name args = .error (word, detail)) (hword : Utf8.Valid word) :
    Complete bytesOf context name args (context, refuse word detail)
      ↔ Utf8.Valid detail ∧ refusalLength word detail ≤ answerBytes := by
  rw [refuse_eq, complete_refusal h, refusal_readable hword, Fits, refusal_length, and_comm]

theorem read_complete (hverb : Verb.of name = some .read) :
    Complete bytesOf context name args (context, read context args)
      ↔ Sayable context name args := by
  cases hargs : args.head? with
  | none =>
    have ho : outcome bytesOf context name args
        = .error (ascii "bad_argument", ascii "leer needs a name") := by
      simp only [outcome, hverb, hargs]
    have hs : Sayable context name args = True := by simp only [Sayable, hverb, hargs]
    simp only [read, hargs, hs, iff_true]
    exact complete_constant ho (by decide) (by decide) (by decide)
  | some first =>
    cases hbytes : context.workspace.read first with
    | none =>
      have ho : outcome bytesOf context name args = .error (ascii "no_such_name", first) := by
        simp only [outcome, hverb, hargs, hbytes]
      simp only [read, hargs, hbytes, Sayable, hverb]
      exact complete_echo ho (by decide)
    | some bytes =>
      have ho : outcome bytesOf context name args = .ok (context, readFields first bytes) := by
        simp only [outcome, hverb, hargs, hbytes]
      have hfits : Fits (report (readFields first bytes))
          ↔ readLength first bytes ≤ answerBytes := by
        rw [Fits, read_length]
      rw [read_eq context hargs hbytes]
      simp only [Sayable, hverb, hargs, hbytes, ← hfits]
      by_cases hfit : Fits (report (readFields first bytes))
      · have hbounded : (report (readFields first bytes)).text
            = bounded (report (readFields first bytes)) := (if_pos hfit).symm
        rw [if_pos hfit, hbounded, complete_report ho, read_readable]
        simp only [hfit, true_and, true_imp_iff]
      · have hlegal := (legal_of_read hbytes).1
        have hroom : Fits (refusal (ascii "too_large") first) :=
          refusal_fits (by decide) hlegal
        rw [if_neg hfit, complete_tooLarge ho hfit hargs, refusal_readable (by decide)]
        simp only [hroom, hfit, true_and, false_imp_iff, and_true]

theorem list_complete (hverb : Verb.of name = some .list) :
    Complete bytesOf context name args (context, list context)
      ↔ Sayable context name args := by
  have ho : outcome bytesOf context name args = .ok (context, listFields context.workspace) := by
    simp only [outcome, hverb]
  rw [list_eq, complete_report ho, list_readable]
  simp only [Sayable, hverb, list_fits, true_and]

theorem changed_complete (hverb : Verb.of name = some .changed) :
    Complete bytesOf context name args (context, changed context)
      ↔ Sayable context name args := by
  have ho : outcome bytesOf context name args
      = .ok (context, changedFields context.workspace) := by
    simp only [outcome, hverb]
  rw [changed_eq, complete_report ho, changed_readable]
  simp only [Sayable, hverb, changed_fits, true_and]

theorem grep_complete (hverb : Verb.of name = some .grep) :
    Complete bytesOf context name args (context, grep context args)
      ↔ Sayable context name args := by
  cases hargs : args.head? with
  | none =>
    have ho : outcome bytesOf context name args
        = .error (ascii "bad_argument", ascii "buscar needs a text") := by
      simp only [outcome, hverb, hargs]
    have hs : Sayable context name args = True := by simp only [Sayable, hverb, hargs]
    simp only [grep, hargs, hs, iff_true]
    exact complete_constant ho (by decide) (by decide) (by decide)
  | some needle =>
    have ho : outcome bytesOf context name args
        = .ok (context, grepFields context.workspace needle) := by
      simp only [outcome, hverb, hargs]
    rw [grep_eq context hargs, complete_report ho, grep_readable, Fits, grep_length]
    simp only [Sayable, hverb, hargs]
    rw [and_comm, and_assoc]

theorem context_complete (hverb : Verb.of name = some .context) :
    Complete bytesOf context name args (context, contextOf context args)
      ↔ Sayable context name args := by
  cases hargs : args.head? with
  | none =>
    have ho : outcome bytesOf context name args
        = .error (ascii "bad_argument", ascii "contexto needs a name") := by
      simp only [outcome, hverb, hargs]
    have hs : Sayable context name args = True := by simp only [Sayable, hverb, hargs]
    simp only [contextOf, hargs, hs, iff_true]
    exact complete_constant ho (by decide) (by decide) (by decide)
  | some first =>
    have ho : outcome bytesOf context name args
        = .ok (context, contextFields context.workspace first) := by
      simp only [outcome, hverb, hargs]
    rw [context_eq context hargs, complete_report ho, context_readable, Fits, context_length]
    simp only [Sayable, hverb, hargs]
    rw [and_comm, and_assoc, and_assoc]

theorem frozen_complete (hfrozen : context.openNow = false)
    (hverb : Verb.of name = some .substitute ∨ Verb.of name = some .write) :
    Complete bytesOf context name args
      (context, refuse (ascii "not_open") (ascii "the workspace is frozen")) := by
  have ho : outcome bytesOf context name args
      = .error (ascii "not_open", ascii "the workspace is frozen") := by
    rcases hverb with hverb | hverb
    · simp only [outcome, hverb, hfrozen, if_true]
    · simp only [outcome, hverb, hfrozen, if_true]
  exact complete_constant ho (by decide) (by decide) (by decide)

theorem word_short (error : EditError) :
    (ascii error.word).length ≤ 14 ∧ Utf8.Valid (ascii error.word) := by
  cases error <;> decide

theorem substitute_complete (hverb : Verb.of name = some .substitute) :
    Complete bytesOf context name args (substitute context args)
      ↔ Sayable context name args := by
  by_cases hopen : context.openNow = false
  · have hs : Sayable context name args = True := by simp only [Sayable, hverb, hopen, if_true]
    simp only [substitute, hopen, if_true, hs, iff_true]
    exact frozen_complete hopen (.inl hverb)
  rcases args with _ | ⟨first, _ | ⟨before, _ | ⟨after, rest⟩⟩⟩
  case cons.cons.cons =>
    cases hedit : context.workspace.substitute first before after with
    | ok edited =>
      obtain ⟨workspace, position⟩ := edited
      have ho : outcome bytesOf context name (first :: before :: after :: rest)
          = .ok ({ context with workspace }, substituteFields first position workspace) := by
        simp only [outcome, hverb, if_neg hopen, hedit]
      have hfound : context.workspace.read first ≠ none := by
        intro hnone
        simp [Workspace.substitute, hnone] at hedit
      rw [substitute_eq context hopen hedit, complete_report ho, substitute_readable]
      simp only [Sayable, hverb, if_neg hopen, substitute_fits hedit, hfound, true_and,
        false_imp_iff, and_true]
    | error error =>
      obtain ⟨hshort, hword⟩ := word_short error
      have ho : outcome bytesOf context name (first :: before :: after :: rest)
          = .error (ascii error.word, first) := by
        simp only [outcome, hverb, if_neg hopen, hedit]
      simp only [substitute, if_neg hopen, hedit, Sayable, hverb]
      rw [complete_echo ho hword]
      rcases substitute_error hedit with ⟨hnone, rfl⟩ | ⟨bytes, hbytes⟩
      · simp only [hnone, true_imp_iff]
        rfl
      · have hroom := refusal_fits hshort (legal_of_read hbytes).1
        rw [Fits, refusal_length] at hroom
        simp [hbytes, hroom]
  -- too few arguments
  all_goals
    refine iff_of_true ?_ (by simp only [Sayable, hverb, if_neg hopen])
    simp only [substitute, if_neg hopen]
    exact complete_constant (by simp only [outcome, hverb, if_neg hopen]) (by decide) (by decide)
      (by decide)

theorem write_complete (hverb : Verb.of name = some .write) :
    Complete bytesOf context name args (write context args) ↔ Sayable context name args := by
  by_cases hopen : context.openNow = false
  · have hs : Sayable context name args = True := by simp only [Sayable, hverb, hopen, if_true]
    simp only [write, hopen, if_true, hs, iff_true]
    exact frozen_complete hopen (.inr hverb)
  rcases args with _ | ⟨first, _ | ⟨text, rest⟩⟩
  case cons.cons =>
    cases hedit : context.workspace.put first text false with
    | ok workspace =>
      have ho : outcome bytesOf context name (first :: text :: rest)
          = .ok ({ context with workspace }, writeFields first text workspace) := by
        simp only [outcome, hverb, if_neg hopen, hedit]
      rw [write_eq context hopen hedit, complete_report ho, write_readable]
      simp only [Sayable, hverb, if_neg hopen, write_fits hedit, (put_ok hedit).1, true_and,
        Bool.true_eq_false, false_imp_iff, and_true]
    | error error =>
      obtain ⟨hshort, hword⟩ := word_short error
      have ho : outcome bytesOf context name (first :: text :: rest)
          = .error (ascii error.word, first) := by
        simp only [outcome, hverb, if_neg hopen, hedit]
      simp only [write, if_neg hopen, hedit, Sayable, hverb]
      rw [complete_echo ho hword]
      rcases put_error hedit with ⟨hillegal, rfl⟩ | hlegal
      · simp only [hillegal, true_imp_iff]
        rfl
      · have hroom := refusal_fits hshort hlegal
        rw [Fits, refusal_length] at hroom
        simp [hlegal, hroom]
  -- too few arguments
  all_goals
    refine iff_of_true ?_ (by simp only [Sayable, hverb, if_neg hopen])
    simp only [write, if_neg hopen]
    exact complete_constant (by simp only [outcome, hverb, if_neg hopen]) (by decide) (by decide)
      (by decide)

/-- **Every answer is one complete object exactly when what it echoes can be said.** -/
theorem answer_complete (bytesOf : D → DigestBytes) (context : Context D)
    (hgeneration : context.generation < 2 ^ 64) (name : Bytes) (args : List Bytes) :
    Complete bytesOf context name args (answer bytesOf context name args)
      ↔ Sayable context name args := by
  cases hverb : Verb.of name with
  | none =>
    have ho : outcome bytesOf context name args = .error (ascii "no_such_verb", name) := by
      simp only [outcome, hverb]
    simp only [answer, hverb, Sayable]
    exact complete_echo ho (by decide)
  | some verb =>
    simp only [answer, hverb]
    cases verb with
    | context => exact context_complete hverb
    | read => exact read_complete hverb
    | list => exact list_complete hverb
    | substitute => exact substitute_complete hverb
    | write => exact write_complete hverb
    | changed => exact changed_complete hverb
    | grep => exact grep_complete hverb
    | state =>
      have ho : outcome bytesOf context name args
          = .ok (context, stateFields bytesOf context) := by
        simp only [outcome, hverb]
      simp only [Sayable, hverb]
      rw [state_eq, complete_report ho]
      exact iff_of_true ⟨state_fits bytesOf hgeneration, state_readable bytesOf context⟩ trivial
    | profile =>
      have ho : outcome bytesOf context name args = .ok (context, profileFields) := by
        simp only [outcome, hverb]
      simp only [Sayable, hverb]
      rw [profile_eq, complete_report ho]
      exact iff_of_true ⟨profile_fits, profile_readable⟩ trivial

/-- A work over an empty workspace. -/
def blank : Context Unit :=
  { generation := 1, root := (), seed := 7, role := 1, openNow := true
    workspace := Workspace.new }

theorem answer_complete_written :
    Complete (fun _ _ => 0) blank (ascii "escribir") [ascii "module.js", ascii "x"]
      (answer (fun _ _ => 0) blank (ascii "escribir") [ascii "module.js", ascii "x"]) := by
  refine (answer_complete _ blank (by decide) _ _).mpr ?_
  have hverb : Verb.of (ascii "escribir") = some .write := by decide
  have hopen : ¬ blank.openNow = false := by decide
  simp only [Sayable, hverb, if_neg hopen]
  exact ⟨by decide, fun hillegal => absurd hillegal (by decide)⟩

/-- A search for 1400 control characters is answered with nothing at all, and a verb whose name
is not a text with something that is not one either. -/
theorem answer_incomplete :
    ¬ Complete (fun _ _ => 0) blank (ascii "buscar") [List.replicate 1400 1]
        (answer (fun _ _ => 0) blank (ascii "buscar") [List.replicate 1400 1])
      ∧ (answer (fun _ _ => 0) blank (ascii "buscar") [List.replicate 1400 1]).2 = []
      ∧ ¬ Complete (fun _ _ => 0) blank [0xFF] [] (answer (fun _ _ => 0) blank [0xFF] []) := by
  have hneedle : width (List.replicate 1400 1) = 8400 := by decide +kernel
  have hgrep : Verb.of (ascii "buscar") = some .grep := by decide
  have hlong : ¬ Fits (report (grepFields blank.workspace (List.replicate 1400 1))) := by
    unfold Fits answerBytes
    rw [grep_length, grepLength, hneedle]
    omega
  have hempty : (answer (fun _ _ => 0) blank (ascii "buscar") [List.replicate 1400 1]).2 = [] := by
    simp only [answer, hgrep]
    rw [grep_eq blank rfl]
    exact if_neg hlong
  refine ⟨fun h => h.nonempty hempty, hempty, ?_⟩
  intro h
  have hverb : Verb.of [0xFF] = none := by decide
  have hbytes : (answer (fun _ _ => 0) blank [0xFF] []).2
      = refuse (ascii "no_such_verb") [0xFF] := by
    simp only [answer, hverb]
  have hutf8 := h.utf8
  rw [hbytes] at hutf8
  exact absurd hutf8 (by decide +kernel)

end Thalyx.Work.Verbs
