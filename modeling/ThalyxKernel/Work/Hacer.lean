/-
Driving the language runtime: `user/k5work/src/hacer.rs` and the part of
`user/k5work/src/verbs.rs` that moves the workspace.

The runtime is an untrusted domain that makes host calls in any order.  `run` serves
them one at a time, so it is modelled as a step on the driver and the outcome, taken
once for each turn of its loop; what the kernel, the launcher and the clock do in a turn
is part of that turn, and nothing is assumed about it.

What a verb answers is in `Work.Verbs`: the text goes back to the runtime and no field of
the work is computed from it.  What a verb does to the workspace is here in full, decoding
of the copied request included.

`Launch` is a history variable.  The source forgets the sealed object as soon as the
launcher has answered; the claims made about a run are claims about what was sealed, so
the model keeps it.
-/
import ThalyxKernel.Work.Workspace

namespace Thalyx.Work

/-! ### The verb surface -/

/-- `verb`: the verbs this port answers. -/
inductive Verb where
  | context | read | list | substitute | write | changed | grep | state | profile
  deriving DecidableEq, Repr

/-- The bytes of a text of the source. -/
def ascii (s : String) : Bytes := s.toList.map fun c => UInt8.ofNat c.toNat

/-- `verb::of`: the verb of a name, or nothing. -/
def Verb.of (name : Bytes) : Option Verb :=
  if name = ascii "contexto" then some .context
  else if name = ascii "leer" then some .read
  else if name = ascii "listar" then some .list
  else if name = ascii "sustituir" then some .substitute
  else if name = ascii "escribir" then some .write
  else if name = ascii "cambios" then some .changed
  else if name = ascii "buscar" then some .grep
  else if name = ascii "estado" then some .state
  else if name = ascii "perfil" then some .profile
  else none

/-- `verbs::Context`: what a verb call needs besides its arguments. -/
structure Context (D : Type) where
  generation : Nat
  root : D
  seed : Nat
  role : Nat
  /-- Whether the workspace may still be changed. -/
  openNow : Bool
  workspace : Workspace

variable {D : Type}

/-- `verbs::substitute`, as far as the workspace is concerned. -/
def Context.substitute (context : Context D) (args : List Bytes) : Context D :=
  match context.openNow, args with
  | true, name :: before :: after :: _ =>
    match context.workspace.substitute name before after with
    | .ok (workspace, _) => { context with workspace }
    | .error _ => context
  | _, _ => context

/-- `verbs::write`, as far as the workspace is concerned. -/
def Context.write (context : Context D) (args : List Bytes) : Context D :=
  match context.openNow, args with
  | true, name :: text :: _ =>
    match context.workspace.put name text false with
    | .ok workspace => { context with workspace }
    | .error _ => context
  | _, _ => context

/-- `verbs::answer`: only `sustituir` and `escribir` change anything. -/
def Context.answer (context : Context D) (name : Bytes) (args : List Bytes) : Context D :=
  match Verb.of name with
  | some .substitute => context.substitute args
  | some .write => context.write args
  | _ => context

/-! ### Requests, copied before they are looked at -/

/-- A little-endian number. -/
def le : Bytes → Nat
  | [] => 0
  | b :: rest => b.toNat + 256 * le rest

/-- `take_request`: the request, cut to the work's own buffer of 4096 bytes. -/
def takeRequest (requestLen : Nat) (region : Bytes) : Bytes :=
  region.take (min requestLen (min 4096 8192))

/-- `field`: the bytes of a `len u32, bytes` field and what follows it. -/
def field (bytes : Bytes) : Option (Bytes × Bytes) :=
  if bytes.length < 4 then none
  else
    let width := le (bytes.take 4)
    let rest := bytes.drop 4
    if rest.length < width then none
    else some (rest.take width, rest.drop width)

/-- Up to `count` fields.  A field that does not decode is read as empty; the cursor is
then left where the failed `field` call put it. -/
def fields : Nat → Bytes → List Bytes
  | 0, _ => []
  | count + 1, bytes =>
    match field bytes with
    | some (value, rest) => value :: fields count rest
    | none => [] :: fields count (if bytes.length < 4 then bytes else bytes.drop 4)

/-- A `REQUEST`, decoded: the verb's name and at most eight arguments. -/
def decodeRequest (bytes : Bytes) : Bytes × List Bytes :=
  let (verb, rest) := match field bytes with
    | some (value, rest) => (value, rest)
    | none => ([], if bytes.length < 4 then bytes else bytes.drop 4)
  if rest.length < 4 then (verb, [])
  else (verb, fields (min (le (rest.take 4)) 8) (rest.drop 4))

/-! ### The tool and the launcher -/

/-- `launch_status`. -/
inductive LaunchStatus where
  | ok | noSuchTool | notSealed | unavailable | timedOut | faulted
  | other (code : Nat)
  deriving DecidableEq, Repr

/-- `verdict`. -/
inductive Verdict where
  | passed | failed | notProven
  deriving DecidableEq, Repr

/-- `LaunchReply`. -/
structure LaunchReply (D : Type) where
  status : LaunchStatus
  exitCode : Nat
  checksRun : Nat
  checksFailed : Nat
  cpuNs : Nat
  toolId : Nat
  toolConfigDigest : D
  deriving DecidableEq, Repr

/-- What the kernel and the launcher do while one validation is served. -/
structure ToolRun (D : Type) where
  /-- `scope_create_memory`, every `memory_write`, `memory_seal` and `derive` succeed. -/
  created : Bool
  written : Bool
  sealed : Bool
  derived : Bool
  /-- What the call to the launcher came back with, if it did and the reply decodes. -/
  reply : Option (LaunchReply D)

/-- The sealed object a tool is given: the header's fields and the entries. -/
structure Candidate (D : Type) where
  entries : List (Bytes × Bytes)
  seed : Nat
  totalBytes : Nat
  rootDigest : D

/-- One candidate handed to a tool, and what was answered. -/
structure Launch (D : Type) where
  candidate : Candidate D
  reply : Option (LaunchReply D)

/-- `CANDIDATE_ENTRIES`, `CANDIDATE_MAX`, and the sizes of the header and of a record. -/
def candidateEntries : Nat := 8
def candidateMax : Nat := 16384
def candidateHeaderSize : Nat := 64
def candidateEntrySize : Nat := 56

/-- `TOOL_PROGRAM` and `TOOL_RUST`. -/
def toolProgram : Nat := 0x4B352001
def toolRust : Nat := 0x4B352002

/-- `check_asked`: which check a program asked for, by a bounded scan of its JSON. -/
def checkAsked (request : Bytes) : Option Nat :=
  match findBytes request (ascii "\"check\":\"") with
  | none => none
  | some pos =>
    let rest := request.drop (pos + 9)
    if (ascii "program\"").isPrefixOf rest then some toolProgram
    else if (ascii "rust\"").isPrefixOf rest then some toolRust
    else none

/-- `hacer::Driver`, less the handles. -/
structure Driver (D : Type) where
  context : Context D
  seed : Nat
  /-- The candidate root the last validation was about. -/
  validatedTree : D

/-- Where the entries' bytes end in the candidate, or nothing when they do not fit. -/
def layOut : Nat → List Entry → Option Nat
  | position, [] => some position
  | position, e :: rest =>
    if position + e.bytes.length > candidateMax then none
    else layOut (position + e.bytes.length) rest

/-- `validate`: assembles the candidate, seals it, and asks the launcher to run the tool
over it.  Answers the driver, the launcher's reply, and what was handed over. -/
def validate (sha : Sha D) (driver : Driver D) (tool : ToolRun D) :
    Driver D × Option (LaunchReply D) × Option (Launch D) :=
  let workspace := driver.context.workspace
  if workspace.entries.length > candidateEntries then (driver, none, none)
  else
    match layOut (candidateHeaderSize + candidateEntries * candidateEntrySize)
        workspace.entries with
    | none => (driver, none, none)
    | some total =>
      match Workspace.candidateDigest sha workspace with
      | none => (driver, none, none)
      | some tree =>
        let driver := { driver with validatedTree := tree }
        let candidate : Candidate D :=
          { entries := workspace.contents, seed := driver.seed, totalBytes := total
            rootDigest := tree }
        if !(tool.created && tool.written && tool.sealed && tool.derived) then
          (driver, none, none)
        else (driver, tool.reply, some { candidate, reply := tool.reply })

/-- `validation_answer`: the verdict a reply stands for.  A check that could not run is
never a check that passed. -/
def validationAnswer : Option (LaunchReply D) → Verdict
  | none => .notProven
  | some reply =>
    if reply.status = .ok then
      if reply.exitCode = 0 then .passed else .failed
    else .notProven

/-! ### The loop -/

/-- `host_op`. -/
inductive HostOp where
  | request | validate | changed | model | log | assertFailed | finish | needsModel
  deriving DecidableEq, Repr

def HostOp.ofCode : Nat → Option HostOp
  | 1 => some .request
  | 2 => some .validate
  | 3 => some .changed
  | 4 => some .model
  | 5 => some .log
  | 6 => some .assertFailed
  | 7 => some .finish
  | 8 => some .needsModel
  | _ => none

/-- `finish`: how a run ended. -/
def finishReturned : Nat := 1
def finishNeedsModel : Nat := 2
def finishAssertion : Nat := 3
def finishExhausted : Nat := 5
def finishRefused : Nat := 6

/-- `RunMetrics`. -/
structure RunMetrics where
  requests : Nat
  validations : Nat
  observations : Nat
  assertions : Nat
  inferences : Nat
  finish : Nat
  answerBytes : Nat
  returnedBytes : Nat
  wallNs : Nat
  deriving DecidableEq, Repr

def RunMetrics.zeroed : RunMetrics := ⟨0, 0, 0, 0, 0, 0, 0, 0, 0⟩

/-- `RunMetrics::read_from(bytes, 0)`. -/
def RunMetrics.readFrom (bytes : Bytes) : Option RunMetrics :=
  if bytes.length < 48 then none
  else
    let word := fun offset width => le ((bytes.drop offset).take width)
    some ⟨word 0 4, word 4 4, word 8 4, word 12 4, word 16 4, word 20 4,
      word 24 8, word 32 8, word 40 8⟩

/-- `hacer::Run`: what a run of the language runtime came to. -/
structure Run (D : Type) where
  metrics : RunMetrics
  latched : Bool
  verdict : Verdict
  checksRun : Nat
  checksFailed : Nat
  toolCpuNs : Nat
  toolId : Nat
  toolConfigDigest : D

def Run.new (sha : Sha D) : Run D :=
  ⟨RunMetrics.zeroed, false, .notProven, 0, 0, 0, 0, sha.zero⟩

/-- One turn of the loop. -/
inductive Turn (D : Type) where
  /-- The program's deadline has passed. -/
  | expired
  /-- Nothing was received in a slice. -/
  | idle
  /-- A message too short to be a host request. -/
  | garbled
  /-- A host call: its framed operation and length, the bytes of the shared region, and
  what the tool does if this is a validation. -/
  | call (op requestLen : Nat) (region : Bytes) (tool : ToolRun D)

/-- The loop's state: the driver, the outcome so far, and the launches made, one element
for each `VALIDATE` served. -/
structure Loop (D : Type) where
  driver : Driver D
  outcome : Run D
  launches : List (Option (Launch D))

/-- `VALIDATE`: the reply's fields are recorded, and the verdict of the last validation
replaces the one before. -/
def Loop.serveValidate (sha : Sha D) (s : Loop D) (request : Bytes) (tool : ToolRun D) :
    Loop D :=
  let (driver, launched, launch) := match checkAsked request with
    | some _ => validate sha s.driver tool
    | none => (s.driver, none, none)
  let outcome := match launched with
    | some reply =>
      { s.outcome with
        checksRun := reply.checksRun
        checksFailed := reply.checksFailed
        toolCpuNs := reply.cpuNs
        toolId := reply.toolId
        toolConfigDigest := reply.toolConfigDigest }
    | none => s.outcome
  { driver
    outcome := { outcome with verdict := validationAnswer launched }
    launches := s.launches ++ [launch] }

/-- Serves one host call; says whether the program has finished. -/
def Loop.serve (sha : Sha D) (s : Loop D) (op : Option HostOp) (request : Bytes)
    (tool : ToolRun D) : Loop D × Bool :=
  if s.outcome.latched = true ∧ op ≠ some .finish then (s, false)
  else match op with
    | some .request =>
      let (verb, args) := decodeRequest request
      ({ s with driver := { s.driver with context := s.driver.context.answer verb args } },
        false)
    | some .changed =>
      ({ s with driver :=
          { s.driver with context := s.driver.context.answer (ascii "cambios") [] } }, false)
    | some .validate => (s.serveValidate sha request tool, false)
    | some .assertFailed => ({ s with outcome := { s.outcome with latched := true } }, false)
    | some .needsModel =>
      ({ s with outcome :=
          { s.outcome with metrics := { s.outcome.metrics with finish := finishNeedsModel } } },
        false)
    | some .finish =>
      (match RunMetrics.readFrom request with
        | some metrics => { s with outcome := { s.outcome with metrics } }
        | none => s, true)
    | some .model | some .log | none => (s, false)

/-- One turn. -/
def Loop.turn (sha : Sha D) (s : Loop D) : Turn D → Loop D × Bool
  | .expired =>
    ({ s with outcome :=
        { s.outcome with metrics := { s.outcome.metrics with finish := finishExhausted } } },
      true)
  | .idle | .garbled => (s, false)
  | .call op requestLen region tool =>
    s.serve sha (HostOp.ofCode op) (takeRequest requestLen region) tool

/-- The loop over the turns of a run, ended by a `FINISH` or the deadline; nothing when
the turns end first. -/
def Loop.run (sha : Sha D) (s : Loop D) : List (Turn D) → Option (Loop D)
  | [] => none
  | t :: rest =>
    match s.turn sha t with
    | (s', true) => some s'
    | (s', false) => s'.run sha rest

/-- `hacer::run`: `started` says whether the launcher started the runtime. -/
def run (sha : Sha D) (driver : Driver D) (started : Bool) (turns : List (Turn D)) :
    Option (Loop D) :=
  let s : Loop D := { driver, outcome := Run.new sha, launches := [] }
  if started then s.run sha turns
  else
    some { s with outcome :=
      { s.outcome with metrics := { s.outcome.metrics with finish := finishRefused } } }

end Thalyx.Work
