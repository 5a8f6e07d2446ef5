/-
The validation tool: `user/ncheck/main.c`.

The tool reads a sealed object that any client may have filled, and the launcher tells it a
length that the client has named.  An access outside the pages of the object, or outside the
32 bytes of a name, is `none` here.  QuickJS is a parameter: what it makes of a source in a
context is a compilation that fails or not, or checks that hold or not and perhaps an exception.

What was compiled and which checks were made are kept beside the tool's own counters, which are
words and wrap.
-/
import ThalyxKernel.Work.Assembly

namespace Thalyx.Ncheck

open Work

/-! ### The tool -/

/-- `th_config`, as far as the tool reads it. -/
structure Config where
  bulkBytes : UInt64
  seed : UInt64

/-- One call of `check`: whether its condition held, and the text it came with. -/
structure Check where
  held : Bool
  what : Option Bytes

/-- QuickJS, and the contexts it works in. -/
structure Engine (Ctx : Type) where
  /-- A runtime and a context with `check` bound in it. -/
  create : Option Ctx
  /-- `JS_Eval` of a source under a name, to compile it only: whether it compiles. -/
  compile : Ctx → Bytes → Bytes → Ctx × Bool
  /-- `JS_Eval`: the checks that were made, and whether it threw. -/
  evaluate : Ctx → Bytes → Bytes → Ctx × List Check × Bool

structure Checks where
  run : UInt32
  failed : UInt32
  /-- the text in `first`, before its NUL -/
  first : Bytes

/-- `first`, if there is no text in it yet. -/
def Checks.say (c : Checks) (what : Bytes) : Bytes :=
  if c.first = [] then what else c.first

/-- `bound_check` -/
def Checks.boundCheck (c : Checks) (k : Check) : Checks where
  run := c.run + 1
  failed := if k.held then c.failed else c.failed + 1
  first := if k.held then c.first else c.say ((k.what.getD []).take 63)

/-- What the tool does when an evaluation has thrown. -/
def Checks.thrown (c : Checks) : Checks :=
  { c with failed := c.failed + 1, first := c.say (ascii "the candidate threw while running") }

/-- `digest_of` -/
def digestOf (bytes : Bytes) : UInt64 :=
  bytes.foldl (fun hash byte => (hash ^^^ byte.toUInt64) * 1099511628211) 1469598103934665603

/-- So many bytes, where there are any. -/
def fetch (bytes : Bytes) (start len : Nat) : Option Bytes :=
  if len = 0 then some []
  else if start + len ≤ bytes.length then some ((bytes.drop start).take len)
  else none

/-- The most of a content that is compiled. -/
def sourceMax : Nat := candidateMax - 32

/-- A function body is compiled inside of one. -/
def wrapped (body : Bytes) (flags : UInt32) : Bytes :=
  if flags &&& candidateFlagFunctionBody ≠ 0 then
    ascii "(function()\x7b" ++ body ++ ascii "\n\x7d)"
  else body

/-- `terminated` -/
def terminated (object : SealedObject) (e : CandidateEntry) : Option Bytes :=
  (fetch object.bytes e.offset.toNat (min e.length.toNat sourceMax)).map fun body =>
    wrapped body e.flags

/-- `is_javascript` -/
def isJavascript (e : CandidateEntry) : Option Bool :=
  if e.nameLen.toNat ≤ 3 then some false
  else (fetch e.name.toList (e.nameLen.toNat - 3) 3).map fun tail => decide (tail = ascii ".js")

/-- The name as it is copied, up to its first NUL. -/
def entryName (e : CandidateEntry) : Option Bytes :=
  (fetch e.name.toList 0 (min e.nameLen.toNat 39)).map fun name => name.takeWhile (· ≠ 0)

def entryAt (object : SealedObject) (index : Nat) : Option CandidateEntry :=
  CandidateEntry.layout.readFrom object.bytes (recordAt index)

structure Progress (Ctx : Type) where
  ctx : Ctx
  checks : Checks
  parsed : UInt32
  parseFailed : UInt32
  bytesRead : UInt64
  sum : UInt64
  /-- the sources that were compiled, of which record, and whether they did -/
  compiled : List (Nat × Bytes × Bool)
  /-- the checks that were made -/
  made : List Check
  /-- the evaluations that threw -/
  threw : Nat

variable {Ctx : Type}

/-- What the tool reports of a content it has read. -/
def Progress.read (s : Progress Ctx) (length : UInt64) (body : Bytes) : Progress Ctx :=
  { s with
    bytesRead := s.bytesRead + length
    sum := (s.sum ^^^ digestOf body) * 1099511628211 }

/-- A source is compiled. -/
def Progress.compile (engine : Engine Ctx) (s : Progress Ctx) (index : Nat)
    (name source : Bytes) : Progress Ctx :=
  let r := engine.compile s.ctx source name
  { s with
    ctx := r.1
    parsed := if r.2 then s.parsed + 1 else s.parsed
    parseFailed := if r.2 then s.parseFailed else s.parseFailed + 1
    compiled := s.compiled ++ [(index, source, r.2)] }

/-- One turn of the first pass. -/
def compileEntry (engine : Engine Ctx) (object : SealedObject) (total : UInt64)
    (s : Progress Ctx) (index : Nat) : Option (Progress Ctx) := do
  let e ← entryAt object index
  if e.offset + e.length > total then some { s with parseFailed := s.parseFailed + 1 }
  else
    let body ← fetch object.bytes e.offset.toNat e.length.toNat
    let s := s.read e.length body
    if ← isJavascript e then
      let name ← entryName e
      let source ← terminated object e
      some (s.compile engine index name source)
    else some s

/-- A source is evaluated. -/
def Progress.evaluate (engine : Engine Ctx) (s : Progress Ctx) (name source : Bytes) :
    Progress Ctx :=
  let r := engine.evaluate s.ctx source name
  let checks := r.2.1.foldl Checks.boundCheck s.checks
  { s with
    ctx := r.1
    checks := if r.2.2 then checks.thrown else checks
    made := s.made ++ r.2.1
    threw := if r.2.2 then s.threw + 1 else s.threw }

/-- One turn of the second pass. -/
def evaluateEntry (engine : Engine Ctx) (object : SealedObject) (s : Progress Ctx)
    (turn : Bytes × Nat) : Option (Progress Ctx) := do
  let e ← entryAt object turn.2
  let name ← entryName e
  if name ≠ turn.1 then some s
  else
    let source ← terminated object e
    some (s.evaluate engine name source)

/-- The turns of the second pass: the module, then its assertions. -/
def turns (count : Nat) : List (Bytes × Nat) :=
  [ascii "module.js", ascii "module.test.js"].flatMap fun wanted =>
    (List.range count).map fun index => (wanted, index)

structure ToolReport where
  checksRun : UInt32
  checksFailed : UInt32
  parsed : UInt32
  parseFailed : UInt32
  bytesRead : UInt64
  candidateSum : UInt64
  firstFailure : Bytes

/-- How the tool ends: its exit code and its report, and what was compiled and checked. -/
structure Ended where
  code : Nat
  report : ToolReport
  compiled : List (Nat × Bytes × Bool)
  made : List Check

/-- An end before anything is read. -/
def Ended.early (code : Nat) : Ended := ⟨code, ⟨0, 0, 0, 0, 0, 0, []⟩, [], []⟩

def Progress.start (ctx : Ctx) : Progress Ctx :=
  ⟨ctx, ⟨0, 0, []⟩, 0, 0, 0, 1469598103934665603, [], [], 0⟩

def Progress.ended (s : Progress Ctx) : Ended where
  code := if s.parseFailed ≠ 0 ∨ s.checks.failed ≠ 0 ∨ s.checks.run = 0 then 1 else 0
  report := ⟨s.checks.run, s.checks.failed, s.parsed, s.parseFailed, s.bytesRead, s.sum,
    s.checks.first⟩
  compiled := s.compiled
  made := s.made

/-- What the header is refused for. -/
def Refused (config : Config) (header : CandidateHeader) : Prop :=
  header.magic ≠ candidateMagicLow ∨ header.count = 0 ∨ candidateEntries < header.count.toNat
    ∨ header.totalBytes > config.bulkBytes ∨ candidateMax < header.totalBytes.toNat
    ∨ header.seed ≠ config.seed

instance (config : Config) (header : CandidateHeader) : Decidable (Refused config header) :=
  inferInstanceAs (Decidable (_ ∨ _))

/-- Both passes. -/
def passes (engine : Engine Ctx) (object : SealedObject) (header : CandidateHeader)
    (s : Progress Ctx) : Option (Progress Ctx) := do
  let s ← (List.range header.count.toNat).foldlM
    (compileEntry engine object header.totalBytes) s
  if s.parseFailed = 0 then
    (turns header.count.toNat).foldlM (evaluateEntry engine object) s
  else some s

/-- `th_main` -/
def toolMain (engine : Engine Ctx) (config : Config) (object : SealedObject) : Option Ended := do
  let header ← CandidateHeader.layout.readFrom object.bytes 0
  if Refused config header then some (.early 3)
  else
    match engine.create with
    | none => some (.early 4)
    | some ctx => (passes engine object header (.start ctx)).map Progress.ended

/-! ### What an exit code is to say -/

/-- The header of an object, and the record of a name. -/
def header (object : SealedObject) : CandidateHeader :=
  CandidateHeader.layout.decode (object.bytes.take candidateHeaderSize)

def record (object : SealedObject) (index : Nat) : CandidateEntry :=
  CandidateEntry.layout.decode ((object.bytes.drop (recordAt index)).take candidateEntrySize)

/-- The content of a name, as its record has it. -/
def content (object : SealedObject) (e : CandidateEntry) : Bytes :=
  (object.bytes.drop e.offset.toNat).take e.length.toNat

/-- The names of an object, their contents, and which of these are function bodies. -/
def entries (object : SealedObject) : List (Bytes × Bytes × Bool) :=
  (List.range (header object).count.toNat).map fun index =>
    let e := record object index
    (e.name.toList.take e.nameLen.toNat, content object e,
      decide (e.flags &&& candidateFlagFunctionBody ≠ 0))

/-- An end with zero is about all of the object: every script has compiled as a whole, there were
checks, and they all held. -/
structure Proper (object : SealedObject) (ended : Ended) : Prop where
  compiled : ∀ i < (header object).count.toNat, isJavascript (record object i) = some true →
    (i, wrapped (content object (record object i)) (record object i).flags, true)
      ∈ ended.compiled
  ran : ended.made ≠ []
  held : ∀ k ∈ ended.made, k.held = true

/-- The tool stays inside the object and its names, and exits with zero only where it may, in a run
that makes no more checks than `most`. -/
def Judges (engine : Engine Ctx) (config : Config) (object : SealedObject) (most : Nat) : Prop :=
  ∃ ended, toolMain engine config object = some ended
    ∧ (ended.made.length ≤ most → ended.code = 0 → Proper object ended)

/-! ### The condition -/

/-- A record that the first pass takes: its sum, as a word, is no more than the header's total. -/
def Passes (object : SealedObject) (index : Nat) : Prop :=
  (record object index).offset + (record object index).length ≤ (header object).totalBytes

/-- A record whose content is in the object, and whose name is in its array. -/
structure Inside (object : SealedObject) (e : CandidateEntry) : Prop where
  content : e.length.toNat = 0 ∨ e.offset.toNat + e.length.toNat ≤ object.bytes.length
  name : e.nameLen.toNat ≤ 32

/-- How many turns of the second pass find what they look for. -/
def runs (object : SealedObject) : Nat :=
  (turns (header object).count.toNat).countP fun turn =>
    decide (entryName (record object turn.2) = some turn.1)

/-- An object the header of which is not refused is walked safely and judged as a whole: each record
that is taken is inside, and where something may be evaluated, and checked, no script is cut
short and the failures cannot be as many as a word counts. -/
def Sound (config : Config) (object : SealedObject) (most : Nat) : Prop :=
  ¬ Refused config (header object) →
    (∀ i < (header object).count.toNat, Passes object i → Inside object (record object i))
    ∧ ((∀ i < (header object).count.toNat, Passes object i) → 0 < runs object → 0 < most →
      (∀ i < (header object).count.toNat, isJavascript (record object i) = some true →
        (record object i).length.toNat ≤ sourceMax)
      ∧ most + runs object < 2 ^ 32)

end Thalyx.Ncheck
