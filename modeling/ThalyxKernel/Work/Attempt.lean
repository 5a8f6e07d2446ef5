/-
One attempt at the vertical: `freeze` and `attempt_with_runtime` of
`user/k5work/src/main.rs`.

The state service is on the other side of a call, so it is a parameter: any function
from its state and a request to an answer and its next state.  Nothing is assumed about
it; the work checks what it is told against what it computes itself, and the results
below rest on those checks alone.

What is decided here is when the version an attempt publishes is the one its tool
passed.  The verdict always is what the last validation was answered.  The content is
another matter: `freeze` builds the evidence from the workspace as it is when the
program has finished, and nothing compares that with what was sealed.  So the two agree
exactly when the calls served after the last validation left every name reading as it
did, which is `UnchangedSinceValidation`, a condition on the calls alone.

The reading back of the published version after the fact (`load_version` and the notes
it feeds) decides nothing and is left out.
-/
import ThalyxKernel.Lib.Fallible
import ThalyxKernel.Work.Hacer

namespace Thalyx.Work

open Fallible Option

variable {D σ : Type}

/-! ### The client of the state service -/

/-- A request of the service protocol, with the lent buffer's content in it. -/
inductive StoreRequest (D : Type) where
  | query
  | putObject (objectType : ObjectType) (content : Content D)
  | fork (generation : Nat)
  | write (workspace : Nat) (name : Bytes) (digest : D)
  | freeze (workspace : Nat) (policy validation : D)
  | discard (workspace : Nat)
  | publish (sequence generation : Nat) (root policy validation : D) (outboxTarget : Nat)
      (outboxPayload : D)

/-- The fields of `StoreReply` this client reads. -/
structure StoreReply (D : Type) where
  status : StoreStatus
  generation : Nat
  value : Nat
  digest0 : D
  digest1 : D

/-- `store::Answer`: what a call answered, including the ways it did not. -/
inductive Answer (D : Type) where
  | reply (r : StoreReply D)
  | outcome (code : Int)
  | gone (code : Int)

/-- `store::Store`: the service's state, and the client's counters. -/
structure Store (σ : Type) where
  service : σ
  calls : Nat
  sequence : Nat

/-- How a freeze refuses: at a numbered step, or because the service encoded the same
bindings and got another digest. -/
inductive FreezeError where
  | step (n : Nat)
  | disagreement
  deriving DecidableEq, Repr

abbrev Client (σ : Type) := EStateM FreezeError (Store σ)

section Client

variable (service : σ → StoreRequest D → Answer D × σ)

/-- `Store::call`. -/
def Store.call (request : StoreRequest D) : Client σ (Answer D) := fun s =>
  .ok (service s.service request).1
    { s with service := (service s.service request).2, calls := s.calls + 1 }

/-- `Store::ok`: a reply that is only interesting when the service said `OK`. -/
def Store.ok (request : StoreRequest D) : Client σ (Option (StoreReply D)) := do
  match ← Store.call service request with
  | .reply r => return if r.status = .ok then some r else none
  | _ => return none

/-- `Store::put_object`: the service's digest is compared with this client's own. -/
def Store.putObject [DecidableEq D] (sha : Sha D) (objectType : ObjectType)
    (content : Content D) : Client σ (Option D) := do
  match ← Store.ok service (.putObject objectType content) with
  | some r =>
    return if r.digest0 = sha.objectDigest objectType content then some r.digest0 else none
  | none => return none

/-! ### Freezing -/

/-- `POLICY` and the tool identity it names. -/
def toolId : Nat := 0x4B352001

/-- `policy`: what every version in a run is published under.  `configDigest` is the
fixed digest the source writes out byte by byte. -/
def policy (configDigest : D) : Policy D where
  format := 1
  requiresValidation := 1
  publishPrincipals := 2 ^ 1 + 2 ^ 2
  validationToolId := toolId
  minCoveragePpm := 900000
  toolConfigDigest := configDigest

/-- `validation_for`. -/
def validationFor (tree : D) (generation result tool : Nat) (toolConfigDigest : D) :
    Validation D where
  format := 1
  result := result
  inputTreeDigest := tree
  baseGeneration := generation
  toolId := tool
  toolConfigDigest := toolConfigDigest
  coveragePpm := 1000000
  producedNs := 1700000000000000000

/-- `Candidate`: what one attempt at a version came to. -/
structure Frozen (D : Type) where
  root : D
  policy : D
  validation : D
  tree : D
  deriving DecidableEq, Repr

/-- Stages the content of every entry, in entry order. -/
def putEntries [DecidableEq D] (sha : Sha D) : List Entry → Client σ (List D)
  | [] => return []
  | e :: rest => do
    let some digest ← Store.putObject service sha .bytes (.raw e.bytes)
      | throw (.step 2)
    let digests ← putEntries sha rest
    return digest :: digests

/-- Binds every entry inside the fork. -/
def bindEntries (handle : Nat) : List (Entry × D) → Client σ Unit
  | [] => return ()
  | (e, digest) :: rest => do
    let some _ ← Store.ok service (.write handle e.name digest) | throw (.step 7)
    bindEntries handle rest

/-- `freeze`: stages every entry of the workspace and freezes it into a candidate root.
`claims` is the version the evidence says it was computed against. -/
def freeze [DecidableEq D] (sha : Sha D) (configDigest : D) (workspace : Workspace)
    (forkOver claims result : Nat) (namesInputs : Bool) (tool : Nat × D) :
    Client σ (Frozen D) := do
  let some policyDigest ← Store.putObject service sha .policy (.policy (policy configDigest))
    | throw (.step 1)
  let digests ← putEntries service sha workspace.entries
  let some bindings := workspace.bindings digests maxEntries | throw (.step 3)
  let some content := (encodeTree 2048 bindings).toOption | throw (.step 4)
  let treeDigest := sha.objectDigest .tree content
  let named := if namesInputs then treeDigest
    else sha.objectDigest .tree (.raw (ascii "not these inputs"))
  let validation := validationFor named claims result tool.1 tool.2
  let some validationDigest ← Store.putObject service sha .validation (.validation validation)
    | throw (.step 5)
  let some fork ← Store.ok service (.fork forkOver) | throw (.step 6)
  bindEntries service fork.value (workspace.entries.zip digests)
  let some frozen ← Store.ok service (.freeze fork.value policyDigest validationDigest)
    | throw (.step 8)
  let _ ← Store.ok service (.discard fork.value)
  if frozen.digest1 ≠ treeDigest then throw .disagreement
  return { root := frozen.digest0, policy := policyDigest, validation := validationDigest
           tree := treeDigest }

/-! ### The attempt -/

/-- `WorkConfig`, the fields an attempt reads. -/
structure WorkConfig where
  role : Nat
  seed : Nat

/-- `Attempt`.  The model's `published` says which candidate was published. -/
inductive Attempt (D : Type) where
  | published (candidate : Frozen D)
  | failed
  | abandoned (wentThrough : Bool)
  | stale

/-- What an attempt came to, and the launches its run made. -/
structure AttemptResult (D σ : Type) where
  attempt : Attempt D
  launches : List (Option (Launch D))
  store : Store σ

/-- `went_through`. -/
def wentThrough (finish : Nat) : Bool := finish == finishReturned

/-- The publication of a frozen candidate. -/
def publishCandidate (sha : Sha D) (generation : Nat) (candidate : Frozen D) :
    Client σ (Attempt D) := do
  modify fun s => { s with sequence := s.sequence + 1 }
  let s ← get
  match ← Store.call service (.publish s.sequence generation candidate.root candidate.policy
      candidate.validation 0 sha.zero) with
  | .reply r =>
    if r.status = .ok then
      let _ ← Store.ok service .query
      return .published candidate
    else if r.status = .generationStale then return .stale
    else return .failed
  | .outcome _ | .gone _ => return .failed

/-- After a freeze that did not happen: has the version moved under this work? -/
def afterRefusal (generation : Nat) : Client σ (Attempt D) := do
  match ← Store.ok service .query with
  | some now => return if now.generation = generation then .failed else .stale
  | none => return .failed

/-- Decides what to do with the outcome of a run: abandon, or freeze and publish. -/
def conclude [DecidableEq D] (sha : Sha D) (configDigest : D) (generation : Nat) (s : Loop D)
    (store : Store σ) : EStateM.Result FreezeError (Store σ) (Attempt D) :=
  let finish := s.outcome.metrics.finish
  if !wentThrough finish ∨ s.outcome.verdict ≠ .passed then
    (do
      let _ ← Store.ok service .query
      return Attempt.abandoned (wentThrough finish || finish == finishAssertion)) store
  else
    match freeze service sha configDigest s.driver.context.workspace generation generation 1 true
        (s.outcome.toolId, s.outcome.toolConfigDigest) store with
    | .ok candidate store => publishCandidate service sha generation candidate store
    | .error _ store => afterRefusal service generation store

/-- `attempt_with_runtime`: one attempt, the program, the tool, the publication, against
`generation`.  Nothing when the runtime has not finished within the given turns. -/
def attemptWithRuntime [DecidableEq D] (sha : Sha D) (configDigest : D) (config : WorkConfig)
    (generation : Nat) (root : D) (workspace : Workspace) (started : Bool)
    (turns : List (Turn D)) (store : Store σ) : Option (AttemptResult D σ) :=
  match workspace.read (ascii "program.js") with
  | none => some { attempt := .failed, launches := [], store }
  | some _ =>
    let driver : Driver D :=
      { context := { generation, root, seed := config.seed, role := config.role
                     openNow := true, workspace }
        seed := config.seed
        validatedTree := sha.zero }
    match run sha driver started turns with
    | none => none
    | some s =>
      match conclude service sha configDigest generation s store with
      | .ok attempt store => some { attempt, launches := s.launches, store }
      | .error _ store => some { attempt := .failed, launches := s.launches, store }

/-! ### A frozen candidate is the workspace's -/

variable {service}
variable {sha : Sha D}

theorem putObject_ok [DecidableEq D] {t : ObjectType} {content : Content D}
    {s s' : Store σ} {digest : D}
    (h : Store.putObject service sha t content s = .ok (some digest) s') :
    digest = sha.objectDigest t content := by
  obtain ⟨reply, _, -, hrest⟩ := bind_ok_iff.mp h
  cases reply with
  | none => cases (EStateM.Result.ok.inj hrest).1
  | some r =>
    by_cases hr : r.digest0 = sha.objectDigest t content
    · simp only [hr, if_true] at hrest
      exact (some.inj (EStateM.Result.ok.inj hrest).1).symm
    · simp only [hr, if_false] at hrest
      cases (EStateM.Result.ok.inj hrest).1

theorem putEntries_ok [DecidableEq D] {entries : List Entry} {s s' : Store σ}
    {digests : List D} (h : putEntries service sha entries s = .ok digests s') :
    digests = entries.map fun e => sha.objectDigest .bytes (.raw e.bytes) := by
  induction entries generalizing s s' digests with
  | nil => exact (EStateM.Result.ok.inj h).1.symm
  | cons e rest ih =>
    obtain ⟨digest, t, hput, hrest⟩ := bind_ok_iff.mp h
    cases digest with
    | none => cases hrest
    | some digest =>
      obtain ⟨others, t', hothers, hret⟩ := bind_ok_iff.mp hrest
      rw [← (EStateM.Result.ok.inj hret).1, putObject_ok hput, ih hothers, List.map_cons]

variable {c : Frozen D}
variable {configDigest : D}

/-- **A freeze that succeeds answers the candidate digest of the workspace it was given.** -/
theorem freeze_tree [DecidableEq D] {workspace : Workspace}
    {forkOver claims result : Nat} {namesInputs : Bool} {tool : Nat × D} {s s' : Store σ}
    (h : freeze service sha configDigest workspace forkOver claims result namesInputs tool s
      = .ok c s') : Workspace.candidateDigest sha workspace = some c.tree := by
  obtain ⟨policyDigest, _, -, h⟩ := bind_ok_iff.mp h
  cases policyDigest with
  | none => cases h
  | some policyDigest =>
    obtain ⟨digests, _, hdigests, h⟩ := bind_ok_iff.mp h
    have hbind := workspace.bindings_eq sha
    rw [← putEntries_ok hdigests] at hbind
    simp only [hbind] at h
    have htree := workspace.candidateDigest_eq sha
    cases henc : encodeTree 2048 (workspace.sorted.map (Workspace.bindingOf sha)) with
    | error e =>
      simp only [henc, Except.toOption] at h
      cases h
    | ok content =>
      simp only [henc, Except.toOption] at h
      rw [htree, ← encodeTree_ok henc]
      obtain ⟨validationDigest, _, -, h⟩ := bind_ok_iff.mp h
      cases validationDigest with
      | none => cases h
      | some validationDigest =>
        obtain ⟨fork, _, -, h⟩ := bind_ok_iff.mp h
        cases fork with
        | none => cases h
        | some fork =>
          obtain ⟨_, _, -, h⟩ := bind_ok_iff.mp h
          obtain ⟨frozen, _, -, h⟩ := bind_ok_iff.mp h
          cases frozen with
          | none => cases h
          | some frozen =>
            obtain ⟨_, _, -, h⟩ := bind_ok_iff.mp h
            split at h
            · cases h
            · rw [← (EStateM.Result.ok.inj h).1]

variable {generation : Nat}

theorem publishCandidate_published {candidate : Frozen D} {s s' : Store σ}
    (h : publishCandidate service sha generation candidate s = .ok (.published c) s') :
    c = candidate := by
  obtain ⟨_, _, -, h⟩ := bind_ok_iff.mp h
  obtain ⟨_, _, -, h⟩ := bind_ok_iff.mp h
  obtain ⟨answer, _, -, h⟩ := bind_ok_iff.mp h
  cases answer with
  | reply r =>
    by_cases hok : r.status = .ok
    · simp only [hok, if_true] at h
      obtain ⟨_, _, -, h⟩ := bind_ok_iff.mp h
      exact (Attempt.published.inj (EStateM.Result.ok.inj h).1).symm
    · simp only [hok, if_false] at h
      by_cases hstale : r.status = .generationStale
      · simp only [hstale, if_true] at h
        cases (EStateM.Result.ok.inj h).1
      · simp only [hstale, if_false] at h
        cases (EStateM.Result.ok.inj h).1
  | outcome code => cases (EStateM.Result.ok.inj h).1
  | gone code => cases (EStateM.Result.ok.inj h).1

theorem afterRefusal_not_published {s s' : Store σ} :
    afterRefusal service generation s ≠ .ok (.published c) s' := by
  intro h
  obtain ⟨now, _, -, h⟩ := bind_ok_iff.mp h
  cases now with
  | none => cases (EStateM.Result.ok.inj h).1
  | some now =>
    by_cases hgen : now.generation = generation
    · simp only [hgen, if_true] at h
      cases (EStateM.Result.ok.inj h).1
    · simp only [hgen, if_false] at h
      cases (EStateM.Result.ok.inj h).1

variable {s : Loop D}

theorem conclude_published [DecidableEq D] {store store' : Store σ}
    (h : conclude service sha configDigest generation s store = .ok (.published c) store') :
    s.outcome.verdict = .passed ∧
      Workspace.candidateDigest sha s.driver.context.workspace = some c.tree := by
  simp only [conclude] at h
  by_cases hgo : (!wentThrough s.outcome.metrics.finish) = true ∨ s.outcome.verdict ≠ .passed
  · rw [if_pos hgo] at h
    obtain ⟨_, _, -, h⟩ := bind_ok_iff.mp h
    cases (EStateM.Result.ok.inj h).1
  · rw [if_neg hgo] at h
    have hpassed : s.outcome.verdict = .passed := by
      by_contra hne
      exact hgo (Or.inr hne)
    split at h
    case h_1 candidate t hfreeze =>
      refine ⟨hpassed, ?_⟩
      rw [publishCandidate_published h]
      exact freeze_tree hfreeze
    case h_2 => exact absurd h afterRefusal_not_published

/-! ### The calls after the last validation -/

/-- What the served calls of a run do to the workspace, and the workspace as it was at
the last `VALIDATE`: a function of the turns alone. -/
structure Edits (D : Type) where
  latched : Bool
  context : Context D
  validated : Option Workspace

/-- One served call, as far as the workspace is concerned; says whether the loop ends. -/
def Edits.serve (e : Edits D) (op : Option HostOp) (request : Bytes) : Edits D × Bool :=
  match op with
  | some .finish => (e, true)
  | some .request =>
    if e.latched then (e, false)
    else
      ({ e with context :=
          e.context.answer (decodeRequest request).1 (decodeRequest request).2 }, false)
  | some .validate =>
    if e.latched then (e, false)
    else ({ e with validated := some e.context.workspace }, false)
  | some .assertFailed => ({ e with latched := true }, false)
  | some .changed | some .model | some .log | some .needsModel | none => (e, false)

def Edits.turn (e : Edits D) : Turn D → Edits D × Bool
  | .expired => (e, true)
  | .idle | .garbled => (e, false)
  | .call op requestLen region _ => e.serve (HostOp.ofCode op) (takeRequest requestLen region)

/-- The turns up to the one that ends the loop. -/
def Edits.run (e : Edits D) : List (Turn D) → Edits D
  | [] => e
  | t :: rest =>
    match e.turn t with
    | (e', true) => e'
    | (e', false) => e'.run rest

/-- The calls served after the last validation leave every name reading as it did. -/
def UnchangedSinceValidation (config : WorkConfig) (generation : Nat) (root : D)
    (workspace : Workspace) (turns : List (Turn D)) : Prop :=
  let e : Edits D :=
    { latched := false, validated := none
      context := { generation, root, seed := config.seed, role := config.role
                   openNow := true, workspace } }
  ∀ w, (e.run turns).validated = some w →
    ∀ name, w.read name = (e.run turns).context.workspace.read name

/-- A launch the tool passed: the call came back with status `OK` and exit code zero. -/
def Launch.passed (launch : Launch D) : Prop :=
  ∃ reply, launch.reply = some reply ∧ reply.status = .ok ∧ reply.exitCode = 0

/-- What ties a loop's state to the edits made so far: the same context and latch, and
behind a verdict of `passed` a last launch that passed over the workspace as it was at
the last validation. -/
structure Tied (sha : Sha D) (s : Loop D) (e : Edits D) : Prop where
  context_eq : s.driver.context = e.context
  latched_eq : s.outcome.latched = e.latched
  verdict_of : s.outcome.verdict = .passed → ∃ w launch, e.validated = some w ∧
    s.launches.getLast? = some (some launch) ∧ launch.passed ∧
    Workspace.candidateDigest sha w = some launch.candidate.rootDigest

theorem validate_spec (sha : Sha D) (driver : Driver D) (tool : ToolRun D) :
    (validate sha driver tool).1.context = driver.context ∧
      ∀ reply, (validate sha driver tool).2.1 = some reply →
        ∃ launch, (validate sha driver tool).2.2 = some launch ∧ launch.reply = some reply ∧
          Workspace.candidateDigest sha driver.context.workspace
            = some launch.candidate.rootDigest := by
  unfold validate
  dsimp only
  split
  · exact ⟨rfl, fun reply h => by cases h⟩
  · split
    · exact ⟨rfl, fun reply h => by cases h⟩
    · split
      · exact ⟨rfl, fun reply h => by cases h⟩
      · split
        · exact ⟨rfl, fun reply h => by cases h⟩
        case h_2.isFalse tree htree _ =>
          exact ⟨rfl, fun reply h => ⟨_, rfl, h, htree⟩⟩

theorem validationAnswer_passed {launched : Option (LaunchReply D)}
    (h : validationAnswer launched = .passed) :
    ∃ reply, launched = some reply ∧ reply.status = .ok ∧ reply.exitCode = 0 := by
  cases launched with
  | none => cases h
  | some reply =>
    unfold validationAnswer at h
    by_cases hok : reply.status = .ok
    · by_cases hexit : reply.exitCode = 0
      · exact ⟨reply, rfl, hok, hexit⟩
      · simp [hok, hexit] at h
    · simp [hok] at h

variable {e : Edits D}

theorem serveValidate_tied (h : Tied sha s e) (request : Bytes) (tool : ToolRun D) :
    Tied sha (s.serveValidate sha request tool)
      { e with validated := some e.context.workspace } := by
  -- what the validation answers does not depend on which outcome fields it also records
  have hlatched : (s.serveValidate sha request tool).outcome.latched = s.outcome.latched := by
    unfold Loop.serveValidate
    dsimp only
    split <;> rfl
  cases hask : checkAsked request with
  | none =>
    have hverdict : (s.serveValidate sha request tool).outcome.verdict = .notProven := by
      simp only [Loop.serveValidate, hask, validationAnswer]
    refine ⟨?_, hlatched.trans h.latched_eq, fun hp => ?_⟩
    · simp only [Loop.serveValidate, hask]
      exact h.context_eq
    · rw [hverdict] at hp
      cases hp
  | some tool_id =>
    obtain ⟨hcontext, hreply⟩ := validate_spec sha s.driver tool
    refine ⟨?_, hlatched.trans h.latched_eq, fun hp => ?_⟩
    · simp only [Loop.serveValidate, hask]
      exact hcontext.trans h.context_eq
    · have hp' : validationAnswer (validate sha s.driver tool).2.1 = .passed := by
        simpa only [Loop.serveValidate, hask] using hp
      obtain ⟨reply, hsome, hok, hexit⟩ := validationAnswer_passed hp'
      obtain ⟨launch, hlaunch, hlr, hdigest⟩ := hreply reply hsome
      refine ⟨e.context.workspace, launch, rfl, ?_, ⟨reply, hlr, hok, hexit⟩, ?_⟩
      · simp only [Loop.serveValidate, hask, hlaunch, List.getLast?_concat]
      · rw [← h.context_eq]
        exact hdigest

theorem finish_tied (h : Tied sha s e) (request : Bytes) :
    Tied sha
      (match RunMetrics.readFrom request with
        | some metrics => { s with outcome := { s.outcome with metrics } }
        | none => s) e := by
  split
  · exact ⟨h.context_eq, h.latched_eq, h.verdict_of⟩
  · exact h

theorem serve_tied (h : Tied sha s e) (op : Option HostOp) (request : Bytes) (tool : ToolRun D) :
    (s.serve sha op request tool).2 = (e.serve op request).2 ∧
      Tied sha (s.serve sha op request tool).1 (e.serve op request).1 := by
  unfold Loop.serve Edits.serve
  by_cases hl : e.latched = true
  · -- latched: every call but `FINISH` is refused, and the edits refuse the same
    have hsl : s.outcome.latched = true := h.latched_eq.trans hl
    by_cases hfinish : op = some .finish
    · rw [if_neg fun hc => hc.2 hfinish, hfinish]
      exact ⟨rfl, finish_tied h _⟩
    · rw [if_pos ⟨hsl, hfinish⟩]
      match op with
      | some .request => simpa only [if_pos hl, true_and] using h
      | some .validate => simpa only [if_pos hl, true_and] using h
      | some .assertFailed => exact ⟨rfl, h.context_eq, hsl, h.verdict_of⟩
      | some .finish => exact absurd rfl hfinish
      | some .changed => exact ⟨rfl, h⟩
      | some .model => exact ⟨rfl, h⟩
      | some .log => exact ⟨rfl, h⟩
      | some .needsModel => exact ⟨rfl, h⟩
      | none => exact ⟨rfl, h⟩
  · have hsl : ¬ s.outcome.latched = true := by
      rw [h.latched_eq]
      exact hl
    rw [if_neg fun hc => hsl hc.1]
    match op with
    | some .request =>
      simp only [if_neg hl, true_and]
      exact ⟨by rw [h.context_eq], h.latched_eq, h.verdict_of⟩
    | some .validate =>
      simp only [if_neg hl, true_and]
      exact serveValidate_tied h _ _
    | some .assertFailed => exact ⟨rfl, h.context_eq, rfl, h.verdict_of⟩
    | some .finish => exact ⟨rfl, finish_tied h _⟩
    | some .changed => exact ⟨rfl, h⟩
    | some .model => exact ⟨rfl, h⟩
    | some .log => exact ⟨rfl, h⟩
    | some .needsModel => exact ⟨rfl, h.context_eq, h.latched_eq, h.verdict_of⟩
    | none => exact ⟨rfl, h⟩

/-- **One turn keeps the tie, and the loop and the edits end together.** -/
theorem turn_tied (h : Tied sha s e) (t : Turn D) :
    (s.turn sha t).2 = (e.turn t).2 ∧ Tied sha (s.turn sha t).1 (e.turn t).1 := by
  cases t with
  | expired => exact ⟨rfl, h.context_eq, h.latched_eq, h.verdict_of⟩
  | idle => exact ⟨rfl, h⟩
  | garbled => exact ⟨rfl, h⟩
  | call op requestLen region tool => exact serve_tied h _ _ _

/-- **A whole run keeps the tie.** -/
theorem run_tied {turns : List (Turn D)} {s' : Loop D}
    (h : Tied sha s e) (hrun : s.run sha turns = some s') : Tied sha s' (e.run turns) := by
  induction turns generalizing s e with
  | nil => cases hrun
  | cons t rest ih =>
    obtain ⟨hflag, htied⟩ := turn_tied h t
    unfold Loop.run at hrun
    unfold Edits.run
    cases hs : s.turn sha t with
    | mk s1 done =>
      cases he : e.turn t with
      | mk e1 done' =>
        rw [hs, he] at hflag htied
        rw [hs] at hrun
        dsimp only at hflag htied
        subst hflag
        cases done with
        | true =>
          have hs' : s1 = s' := some.inj hrun
          rw [← hs']
          exact htied
        | false => exact ih htied hrun

/-! ### What is published, and what was passed -/

/-- An attempt that publishes a candidate the tool did pass: the last validation handed a
candidate with the published tree to the tool, and was answered `OK` and zero. -/
def AttemptResult.PublishesPassed (r : AttemptResult D σ) (c : Frozen D) : Prop :=
  ∃ launch, r.launches.getLast? = some (some launch) ∧ launch.passed ∧
    launch.candidate.rootDigest = c.tree

/-- **What an attempt publishes is what its tool passed exactly when the calls after the
last validation left every name reading as it did.** -/
theorem published_passed_iff [DecidableEq D] {sha : Sha D} {configDigest : D}
    {config : WorkConfig} {generation : Nat} {root : D} {workspace : Workspace}
    {started : Bool} {turns : List (Turn D)} {store : Store σ} {r : AttemptResult D σ}
    {c : Frozen D}
    (h : attemptWithRuntime service sha configDigest config generation root workspace started
      turns store = some r) (hc : r.attempt = .published c) :
    r.PublishesPassed c ↔
      UnchangedSinceValidation config generation root workspace turns := by
  unfold attemptWithRuntime at h
  split at h
  · rw [← some.inj h] at hc
    cases hc
  · dsimp only at h
    split at h
    · cases h
    case h_2 s hrun =>
      split at h
      case h_2 =>
        rw [← some.inj h] at hc
        cases hc
      case h_1 attempt store' hconclude =>
        have hr := some.inj h
        subst hr
        dsimp only at hc
        subst hc
        obtain ⟨hpassed, htree⟩ := conclude_published hconclude
        -- a runtime that was never started leaves the verdict at `NOT_PROVEN`
        have hstarted : started = true := by
          by_contra hns
          rw [Bool.not_eq_true] at hns
          simp only [run, hns, Bool.false_eq_true, if_false, some.injEq] at hrun
          rw [← hrun] at hpassed
          cases hpassed
        simp only [run, hstarted, if_true] at hrun
        have htied := run_tied (e := ⟨false, _, none⟩) ⟨rfl, rfl, fun hp => by cases hp⟩ hrun
        obtain ⟨w, launch, hval, hlast, hlpassed, hdigest⟩ := htied.verdict_of hpassed
        rw [htied.context_eq] at htree
        constructor
        · rintro ⟨launch', hlast', -, hroot⟩ w' hval'
          rw [hlast] at hlast'
          have hlaunch : launch = launch' := some.inj (some.inj hlast')
          have hw : w = w' := some.inj (hval.symm.trans hval')
          subst hlaunch hw
          refine (Workspace.candidateDigest_eq_iff sha _ _).mp ?_
          rw [hdigest, hroot]
          exact htree.symm
        · intro hsame
          refine ⟨launch, hlast, hlpassed, ?_⟩
          have heq := (Workspace.candidateDigest_eq_iff sha _ _).mpr (hsame w hval)
          rw [hdigest] at heq
          exact some.inj (heq.trans htree)

/-! ### A run that publishes an edit nobody checked

The service here stages, binds, encodes and answers as the state service does; the
program validates, writes one more file, and returns. -/

/-- The state of a small state service: what is bound in the one open fork, and the
published generation. -/
structure SampleService where
  staged : List (Symbol × Nat)
  bound : List (Binding Symbol)
  generation : Nat

/-- A reply that says `OK`. -/
def okReply (generation value : Nat) (digest0 digest1 : Symbol) : Answer Symbol :=
  .reply { status := .ok, generation, value, digest0, digest1 }

/-- The service's answers, for a client that stays within its bounds. -/
def sampleService (s : SampleService) : StoreRequest Symbol → Answer Symbol × SampleService
  | .query => (okReply s.generation 0 (.atom 0) (.atom 0), s)
  | .putObject t content =>
    let digest := symbolicSha.objectDigest t content
    (okReply 0 content.length digest (.atom 0),
      { s with staged := (digest, content.length) :: s.staged })
  | .fork _ => (okReply 0 1 (.atom 0) (.atom 0), { s with bound := [] })
  | .write _ name digest =>
    let length := ((s.staged.find? fun p => p.1 = digest).map Prod.snd).getD 0
    let binding : Binding Symbol := ⟨name, ObjectType.bytes.code, 0, length, digest⟩
    (okReply 0 (s.bound.length + 1) (.atom 0) (.atom 0),
      { s with bound := s.bound.orderedInsert (Workspace.nameOrder Binding.name) binding })
  | .freeze _ policy validation =>
    let tree := symbolicSha.objectDigest .tree (.tree s.bound)
    let manifest : Manifest Symbol :=
      ⟨1, tree, policy, validation, s.bound.length, (s.bound.map Binding.length).sum⟩
    (okReply 0 0 (symbolicSha.objectDigest .manifest (.manifest manifest)) tree, s)
  | .discard _ => (okReply 0 0 (.atom 0) (.atom 0), { s with bound := [] })
  | .publish _ generation _ _ _ _ _ =>
    (okReply (generation + 1) 0 (.atom 0) (.atom 0), { s with generation := generation + 1 })

/-- A tool that ran and passed. -/
def passingTool : ToolRun Symbol :=
  ⟨true, true, true, true, some ⟨.ok, 0, 1, 0, 0, toolId, .atom 7⟩⟩

/-- `VALIDATE` asking for the check this backend has. -/
def validateTurn : Turn Symbol :=
  .call 2 17 (ascii "\"check\":\"program\"") passingTool

/-- `REQUEST escribir a b`. -/
def writeTurn : Turn Symbol :=
  .call 1 26 ([8, 0, 0, 0] ++ ascii "escribir" ++ [2, 0, 0, 0] ++ [1, 0, 0, 0] ++ ascii "a"
    ++ [1, 0, 0, 0] ++ ascii "b") passingTool

/-- `FINISH` reporting that the program returned. -/
def finishTurn : Turn Symbol :=
  .call 7 48 (List.replicate 20 0 ++ [1] ++ List.replicate 27 0) passingTool

/-- A version with one program in it. -/
def sampleWorkspace : Workspace :=
  match Workspace.new.put (ascii "program.js") [120] true with
  | .ok w => w
  | .error _ => Workspace.new

/-- The attempt over `sampleWorkspace` with the given calls. -/
def sampleAttempt (turns : List (Turn Symbol)) : Option (AttemptResult Symbol SampleService) :=
  attemptWithRuntime sampleService symbolicSha (.atom 9) ⟨1, 5⟩ 1 (.atom 3) sampleWorkspace true
    turns ⟨⟨[], [], 1⟩, 0, 0⟩

/-- The candidate an attempt published, if it did. -/
def AttemptResult.candidate? (r : AttemptResult D σ) : Option (Frozen D) :=
  match r.attempt with
  | .published c => some c
  | _ => none

variable {r : AttemptResult D σ}

theorem published_of_candidate? (h : r.candidate? = some c) : r.attempt = .published c := by
  unfold AttemptResult.candidate? at h
  split at h
  case h_1 c' hc' =>
    rw [hc', some.inj h]
  case h_2 => cases h

/-- The tree of the last candidate handed to the tool. -/
def AttemptResult.sealedTree? (r : AttemptResult D σ) : Option D :=
  match r.launches.getLast? with
  | some (some launch) => some launch.candidate.rootDigest
  | _ => none

theorem sealedTree?_of_publishesPassed (h : r.PublishesPassed c) : r.sealedTree? = some c.tree := by
  obtain ⟨launch, hlast, -, hroot⟩ := h
  simp only [AttemptResult.sealedTree?, hlast, hroot]

/-- A program that validates and returns publishes what was passed. -/
theorem validated_version_published :
    ∃ r c, sampleAttempt [validateTurn, finishTurn] = some r ∧ r.attempt = .published c ∧
      r.PublishesPassed c := by
  have hsome : ((sampleAttempt [validateTurn, finishTurn]).bind (·.candidate?)).isSome = true := by
    decide +kernel
  obtain ⟨c, hbind⟩ := isSome_iff_exists.mp hsome
  obtain ⟨r, hr, hc⟩ := bind_eq_some_iff.mp hbind
  refine ⟨r, c, hr, published_of_candidate? hc,
    (published_passed_iff hr (published_of_candidate? hc)).mpr ?_⟩
  intro w hw name
  rw [← some.inj hw]
  rfl

/-- A program that writes after it validated publishes a tree no tool was given. -/
theorem edit_after_validation_published :
    ∃ r c, sampleAttempt [validateTurn, writeTurn, finishTurn] = some r ∧
      r.attempt = .published c ∧ ¬ r.PublishesPassed c := by
  have hsome : ((sampleAttempt [validateTurn, writeTurn, finishTurn]).bind
      (·.candidate?)).isSome = true := by
    decide +kernel
  have hdiffer : (sampleAttempt [validateTurn, writeTurn, finishTurn]).bind (·.sealedTree?)
      ≠ ((sampleAttempt [validateTurn, writeTurn, finishTurn]).bind (·.candidate?)).map
          Frozen.tree := by
    decide +kernel
  obtain ⟨c, hbind⟩ := isSome_iff_exists.mp hsome
  obtain ⟨r, hr, hc⟩ := bind_eq_some_iff.mp hbind
  refine ⟨r, c, hr, published_of_candidate? hc, ?_⟩
  intro hpassed
  apply hdiffer
  rw [hr]
  simp only [bind_some, hc, map_some]
  exact sealedTree?_of_publishesPassed hpassed

end Client

end Thalyx.Work
