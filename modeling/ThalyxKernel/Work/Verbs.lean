/-
The verb surface: `user/k5work/src/verbs.rs`, with what each verb answers.

A verb writes its answer into a buffer of `ANSWER_BYTES` bytes through the bounded writer, and
an answer that does not fit is no bytes at all, but for `leer`, which then says that it is too
large.  What a call comes to before any byte of it is written is `outcome`, in terms of the
workspace alone: the report it makes or the reason it is refused for.

The functions bear the source's names, less those Lean reserves.  A digest is opaque here as
everywhere in the work; `bytesOf` is what is in it.
-/
import ThalyxKernel.Work.Json

namespace Thalyx.Work

/-! ### What a role means to do -/

/-- `work_role::RIVAL`. -/
def roleRival : Nat := 2

/-- `content::ZERO_MARK`. -/
def zeroMark : Bytes := ascii "0000000000000000"

/-- `verbs::Intent`. -/
structure Intent where
  target : Bytes
  placeholder : Bytes
  record : Bytes
  prompts : List Bytes
  predict : Nat

/-- `intent_of`. -/
def intentOf (role : Nat) : Intent :=
  if role = roleRival then
    { target := ascii "module.js"
      placeholder := zeroMark
      record := ascii "rival.json"
      prompts := [ascii "adios", ascii "adios adios"]
      predict := 12 }
  else
    { target := ascii "module.js"
      placeholder := zeroMark
      record := ascii "model.json"
      prompts := [ascii "hola hola", ascii "hola"]
      predict := 12 }

/-- `content::mark_of`: sixteen lower-case hexadecimal digits. -/
def markOf (value : Nat) : Bytes :=
  (List.range 16).map fun index => Json.hexDigit ((value >>> (60 - index * 4)) % 16)

/-- `mark_for`. -/
def markFor (seed role : Nat) : Bytes :=
  markOf (if role = roleRival then seed ^^^ 0x524956414C000000 else seed)

/-! ### Counting -/

/-- The turns of `count_bytes`, at most so many. -/
def countFrom (needle : Bytes) : Nat → Bytes → Nat
  | 0, _ => 0
  | fuel + 1, haystack =>
    if haystack = [] then 0
    else
      match findBytes haystack needle with
      | some offset => 1 + countFrom needle fuel (haystack.drop (offset + needle.length))
      | none => 0

/-- `count_bytes`: how many times `needle` appears in `haystack`, without overlapping. -/
def countBytes (haystack needle : Bytes) : Nat := countFrom needle haystack.length haystack

theorem findBytes_le {haystack needle : Bytes} {at' : Nat}
    (h : findBytes haystack needle = some at') : at' + needle.length ≤ haystack.length := by
  unfold findBytes at h
  split at h
  case isTrue => exact nomatch h
  case isFalse hne =>
      have hmem := List.mem_range.mp (List.mem_of_find?_eq_some h)
      simp only [Bool.or_eq_true, decide_eq_true_eq, not_or] at hne
      omega

namespace Verbs

/-- `ANSWER_BYTES`: the buffer an answer is written into. -/
def answerBytes : Nat := 8192

/-- `NATIVE_PROFILE_JSON`. -/
def nativeProfileJson : Bytes :=
  ascii "\x7b\"audited_control\":true,"
    ++ ascii "\"cancellation\":\"scope_closure_between_tokens\","
    ++ ascii "\"dma_isolated\":false,"
    ++ ascii "\"engine_compute_threads\":1,"
    ++ ascii "\"engine_mmap\":true,"
    ++ ascii "\"engine_resident\":true,"
    ++ ascii "\"managed_local_v1\":true,"
    ++ ascii "\"mutable_files\":false,"
    ++ ascii "\"power_cut_durability\":\"unknown\","
    ++ ascii "\"type_check\":false\x7d"

/-- `json.finish().unwrap_or(0)`, and the bytes so many of the buffer are. -/
def finished (json : Json) : Bytes := json.finish.getD []

/-! ### The verbs -/

def profile : Bytes :=
  finished <| (Json.new answerBytes).openObject
    |>.fieldBool (ascii "ok") true
    |>.key (ascii "profile")
    |>.rawValue nativeProfileJson
    |>.fieldString (ascii "backend") (ascii "thalyx-kernel")
    |>.closeObject

def refuse (word detail : Bytes) : Bytes :=
  finished <| (Json.new answerBytes).openObject
    |>.fieldBool (ascii "ok") false
    |>.fieldString (ascii "error") word
    |>.fieldString (ascii "detail") detail
    |>.closeObject

variable {D : Type}

def state (bytesOf : D → DigestBytes) (context : Context D) : Bytes :=
  let mark := markFor context.seed context.role
  let intent := intentOf context.role
  finished <| (Json.new answerBytes).openObject
    |>.fieldBool (ascii "ok") true
    |>.fieldNumber (ascii "generation") context.generation
    |>.key (ascii "root")
    |>.digest (bytesOf context.root)
    |>.fieldString (ascii "mark") mark
    |>.fieldString (ascii "zero_mark") zeroMark
    |>.fieldString (ascii "target") intent.target
    |>.fieldString (ascii "placeholder") intent.placeholder
    |>.fieldString (ascii "record") intent.record
    |>.key (ascii "prompts")
    |>.openArray
    |>.each intent.prompts (fun json prompt => json.string prompt)
    |>.closeArray
    |>.fieldNumber (ascii "predict") intent.predict
    |>.fieldNumber (ascii "names") context.workspace.entries.length
    |>.fieldBool (ascii "open") context.openNow
    |>.closeObject

def read (context : Context D) (args : List Bytes) : Bytes :=
  match args.head? with
  | none => refuse (ascii "bad_argument") (ascii "leer needs a name")
  | some name =>
    match context.workspace.read name with
    | none => refuse (ascii "no_such_name") name
    | some bytes =>
      let json := (Json.new answerBytes).openObject
        |>.fieldBool (ascii "ok") true
        |>.fieldString (ascii "name") name
        |>.fieldNumber (ascii "bytes") bytes.length
        |>.fieldString (ascii "text") bytes
        |>.closeObject
      match json.finish with
      | some written => written
      -- refused rather than truncated
      | none => refuse (ascii "too_large") name

def list (context : Context D) : Bytes :=
  finished <| (Json.new answerBytes).openObject
    |>.fieldBool (ascii "ok") true
    |>.key (ascii "names")
    |>.openArray
    |>.each context.workspace.entries (fun json entry =>
      json.openObject
        |>.fieldString (ascii "name") entry.name
        |>.fieldNumber (ascii "bytes") entry.bytes.length
        |>.fieldBool (ascii "changed") entry.changed
        |>.closeObject)
    |>.closeArray
    |>.closeObject

def substitute (context : Context D) (args : List Bytes) : Context D × Bytes :=
  if context.openNow = false then
    (context, refuse (ascii "not_open") (ascii "the workspace is frozen"))
  else
    match args with
    | name :: before :: after :: _ =>
      match context.workspace.substitute name before after with
      | .ok (workspace, position) =>
        ({ context with workspace },
          finished <| (Json.new answerBytes).openObject
            |>.fieldBool (ascii "ok") true
            |>.fieldString (ascii "name") name
            |>.fieldNumber (ascii "at") position
            |>.fieldNumber (ascii "changed") workspace.changed
            |>.closeObject)
      | .error error => (context, refuse (ascii error.word) name)
    | _ =>
      (context, refuse (ascii "bad_argument")
        (ascii "sustituir needs a name, a before and an after"))

def write (context : Context D) (args : List Bytes) : Context D × Bytes :=
  if context.openNow = false then
    (context, refuse (ascii "not_open") (ascii "the workspace is frozen"))
  else
    match args with
    | name :: text :: _ =>
      match context.workspace.put name text false with
      | .ok workspace =>
        ({ context with workspace },
          finished <| (Json.new answerBytes).openObject
            |>.fieldBool (ascii "ok") true
            |>.fieldString (ascii "name") name
            |>.fieldNumber (ascii "bytes") text.length
            |>.fieldNumber (ascii "changed") workspace.changed
            |>.closeObject)
      | .error error => (context, refuse (ascii error.word) name)
    | _ => (context, refuse (ascii "bad_argument") (ascii "escribir needs a name and a text"))

def changed (context : Context D) : Bytes :=
  finished <| (Json.new answerBytes).openObject
    |>.fieldBool (ascii "ok") true
    |>.fieldNumber (ascii "count") context.workspace.changed
    |>.key (ascii "names")
    |>.openArray
    |>.each context.workspace.entries (fun json entry =>
      if entry.changed then json.string entry.name else json)
    |>.closeArray
    |>.closeObject

/-- One turn of the loop of `grep`: the writer, and the total. -/
def grepEntry (needle : Bytes) (s : Json × Nat) (entry : Entry) : Json × Nat :=
  let found := countBytes entry.bytes needle
  if found = 0 then s
  else
    (s.1.openObject
      |>.fieldString (ascii "name") entry.name
      |>.fieldNumber (ascii "count") found
      |>.closeObject, s.2 + found)

def grep (context : Context D) (args : List Bytes) : Bytes :=
  match args.head? with
  | none => refuse (ascii "bad_argument") (ascii "buscar needs a text")
  | some needle =>
    let json := (Json.new answerBytes).openObject
      |>.fieldBool (ascii "ok") true
      |>.fieldString (ascii "text") needle
      |>.key (ascii "hits")
      |>.openArray
    let (json, total) := context.workspace.entries.foldl (grepEntry needle) (json, 0)
    finished <| json.closeArray
      |>.fieldNumber (ascii "total") total
      |>.closeObject

/-- What `context_of` has come to: the uses so far, and where the definition is. -/
structure Seen where
  uses : Nat
  definedIn : Option Bytes
  definition : Bytes

/-- One turn of the loop of `context_of`. -/
def contextEntry (name : Bytes) (s : Seen) (entry : Entry) : Seen :=
  let s := { s with uses := s.uses + countBytes entry.bytes name }
  let head := ascii "function "
  if s.definedIn = none ∧ head.length + name.length ≤ 48 then
    match findBytes entry.bytes (head ++ name) with
    | some position =>
      let line := entry.bytes.drop position
      let last := min ((findBytes line [0x0A]).getD line.length) 96
      { s with definedIn := some entry.name, definition := line.take last }
    | none => s
  else s

def contextOf (context : Context D) (args : List Bytes) : Bytes :=
  match args.head? with
  | none => refuse (ascii "bad_argument") (ascii "contexto needs a name")
  | some name =>
    let s := context.workspace.entries.foldl (contextEntry name) ⟨0, none, []⟩
    finished <| (Json.new answerBytes).openObject
      |>.fieldBool (ascii "ok") true
      |>.fieldString (ascii "name") name
      |>.fieldNumber (ascii "uses") s.uses
      |>.fieldString (ascii "defined_in") (s.definedIn.getD [])
      |>.fieldString (ascii "signature") s.definition
      -- what this answer is, said in the answer
      |>.fieldString (ascii "coverage") (ascii "textual")
      |>.fieldBool (ascii "resolved") false
      |>.closeObject

/-- `answer`: one verb call. -/
def answer (bytesOf : D → DigestBytes) (context : Context D) (name : Bytes) (args : List Bytes) :
    Context D × Bytes :=
  match Verb.of name with
  | none => (context, refuse (ascii "no_such_verb") name)
  | some .state => (context, state bytesOf context)
  | some .read => (context, read context args)
  | some .list => (context, list context)
  | some .substitute => substitute context args
  | some .write => write context args
  | some .changed => (context, changed context)
  | some .grep => (context, grep context args)
  | some .context => (context, contextOf context args)
  | some .profile => (context, profile)

end Verbs

end Thalyx.Work
