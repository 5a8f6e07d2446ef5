/-
What a stopped program can still do: `run` of `user/k5work/src/hacer.rs` and the decision
`attempt_with_runtime` of `user/k5work/src/main.rs` makes from its outcome.

A program stops by `ASSERT_FAILED`, which latches the run, or by `NEEDS_MODEL`, which writes
the finish word.  The latch does close the workspace: nothing is changed behind it.  It does
not close the publication, since that is decided from the finish word, and the finish word
is whatever the last message of the runtime says.  So an attempt whose program stopped
publishes nothing exactly when that message does not report `RETURNED` over a validation
that had passed, which is a condition on the calls alone.
-/
import ThalyxKernel.Work.Attempt

namespace Thalyx.Work

open Fallible

variable {D : Type}

/-! ### Stopping -/

/-- The calls by which a program stops short. -/
def HostOp.stops : Option HostOp → Bool
  | some .assertFailed | some .needsModel => true
  | _ => false

/-- The turn is a call by which a program stops short. -/
def Turn.stops : Turn D → Bool
  | .call op _ _ _ => HostOp.stops (HostOp.ofCode op)
  | _ => false

/-- The work serves such a call: not behind the latch, and before the program has
finished. -/
def Loop.ServesStop (sha : Sha D) (s : Loop D) : List (Turn D) → Prop
  | [] => False
  | t :: rest =>
    (t.stops = true ∧ s.outcome.latched = false) ∨
      ((s.turn sha t).2 = false ∧ (s.turn sha t).1.ServesStop sha rest)

/-- The state after some turns; none is served once the program has finished. -/
def Loop.through (sha : Sha D) (s : Loop D) : List (Turn D) → Loop D
  | [] => s
  | t :: rest =>
    match s.turn sha t with
    | (s', true) => s'
    | (s', false) => s'.through sha rest

/-- The state a run begins in. -/
def Loop.start (sha : Sha D) (config : WorkConfig) (generation : Nat) (root : D)
    (workspace : Workspace) : Loop D where
  driver :=
    { context := { generation, root, seed := config.seed, role := config.role
                   openNow := true, workspace }
      seed := config.seed
      validatedTree := sha.zero }
  outcome := Run.new sha
  launches := []

/-- **What a stopped program must not do.**  Behind a failed assertion no call changes the
workspace, and no attempt with a run that was stopped publishes anything, whatever the
state service answers. -/
structure StopIsFinal [DecidableEq D] (sha : Sha D) (configDigest : D) (config : WorkConfig)
    (generation : Nat) (root : D) (workspace : Workspace) (turns : List (Turn D)) : Prop where
  workspace_kept : ∀ before after, turns = before ++ after →
    ((Loop.start sha config generation root workspace).through sha before).outcome.latched = true →
    ((Loop.start sha config generation root workspace).through sha turns).driver.context
      = ((Loop.start sha config generation root workspace).through sha before).driver.context
  nothing_published : ∀ (σ : Type) (service : σ → StoreRequest D → Answer D × σ)
    (store : Store σ) (r : AttemptResult D σ),
    (Loop.start sha config generation root workspace).ServesStop sha turns →
    attemptWithRuntime service sha configDigest config generation root workspace true turns store
      = some r →
    ∀ c, r.attempt ≠ .published c

/-! ### What the calls say -/

/-- A validation that passes: a check this backend has is asked for, the candidate of the
workspace can be handed over, and the tool answers `OK` and zero. -/
def validationPasses (sha : Sha D) (context : Context D) (request : Bytes) (tool : ToolRun D) :
    Bool :=
  (checkAsked request).isSome &&
    decide (validationAnswer (validate sha ⟨context, 0, sha.zero⟩ tool).2.1 = .passed)

/-- What the calls of a run come to, read off the turns alone. -/
structure Heard (D : Type) where
  latched : Bool
  context : Context D
  /-- A call that stops the program was served. -/
  stopped : Bool
  /-- The last validation served passed. -/
  passed : Bool
  /-- The finish word, as the calls set it. -/
  finish : Nat

/-- The finish word after a `FINISH` with these bytes. -/
def finishWord (request : Bytes) (before : Nat) : Nat :=
  match RunMetrics.readFrom request with
  | some metrics => metrics.finish
  | none => before

/-- One call; says whether it ends the run. -/
def Heard.serve (sha : Sha D) (h : Heard D) (op : Option HostOp) (request : Bytes)
    (tool : ToolRun D) : Heard D × Bool :=
  if h.latched = true ∧ op ≠ some .finish then (h, false)
  else match op with
    | some .request =>
      ({ h with context :=
          h.context.answer (decodeRequest request).1 (decodeRequest request).2 }, false)
    | some .validate => ({ h with passed := validationPasses sha h.context request tool }, false)
    | some .assertFailed => ({ h with latched := true, stopped := true }, false)
    | some .needsModel => ({ h with finish := finishNeedsModel, stopped := true }, false)
    | some .finish => ({ h with finish := finishWord request h.finish }, true)
    | some .changed | some .model | some .log | none => (h, false)

def Heard.turn (sha : Sha D) (h : Heard D) : Turn D → Heard D × Bool
  | .expired => ({ h with finish := finishExhausted }, true)
  | .idle | .garbled => (h, false)
  | .call op requestLen region tool =>
    h.serve sha (HostOp.ofCode op) (takeRequest requestLen region) tool

def Heard.run (sha : Sha D) (h : Heard D) : List (Turn D) → Heard D
  | [] => h
  | t :: rest =>
    match h.turn sha t with
    | (h', true) => h'
    | (h', false) => h'.run sha rest

/-- Nothing heard yet. -/
def Heard.start (config : WorkConfig) (generation : Nat) (root : D) (workspace : Workspace) :
    Heard D where
  latched := false
  context := { generation, root, seed := config.seed, role := config.role
               openNow := true, workspace }
  stopped := false
  passed := false
  finish := 0

/-- The program was stopped, and yet the run's last message reports that it returned, over
a last validation that passed. -/
def StopOverruled (sha : Sha D) (config : WorkConfig) (generation : Nat) (root : D)
    (workspace : Workspace) (turns : List (Turn D)) : Prop :=
  let h := (Heard.start config generation root workspace).run sha turns
  h.stopped = true ∧ h.finish = finishReturned ∧ h.passed = true

/-! ### The loop is what was heard -/

/-- The loop's state as the calls say it. -/
structure Hears (s : Loop D) (h : Heard D) : Prop where
  latched_eq : s.outcome.latched = h.latched
  context_eq : s.driver.context = h.context
  passed_iff : s.outcome.verdict = .passed ↔ h.passed = true
  finish_eq : s.outcome.metrics.finish = h.finish

theorem validate_reply_congr (sha : Sha D) {driver driver' : Driver D} (tool : ToolRun D)
    (h : driver.context.workspace = driver'.context.workspace) :
    (validate sha driver tool).2.1 = (validate sha driver' tool).2.1 := by
  unfold validate
  simp only [h]
  split
  · rfl
  · split
    · rfl
    · split
      · rfl
      · split <;> rfl

variable {sha : Sha D} {s : Loop D} {h : Heard D}

theorem serveValidate_hears (hs : Hears s h) (request : Bytes) (tool : ToolRun D) :
    Hears (s.serveValidate sha request tool)
      { h with passed := validationPasses sha h.context request tool } := by
  have hkept : (s.serveValidate sha request tool).outcome.latched = s.outcome.latched
      ∧ (s.serveValidate sha request tool).outcome.metrics = s.outcome.metrics := by
    unfold Loop.serveValidate
    dsimp only
    split <;> exact ⟨rfl, rfl⟩
  obtain ⟨hlatched, hmetrics⟩ := hkept
  cases hask : checkAsked request with
  | none =>
    refine ⟨hlatched.trans hs.latched_eq, ?_, ?_, by rw [hmetrics]; exact hs.finish_eq⟩
    · simp only [Loop.serveValidate, hask]
      exact hs.context_eq
    · simp [Loop.serveValidate, hask, validationAnswer, validationPasses]
  | some check =>
    refine ⟨hlatched.trans hs.latched_eq, ?_, ?_, by rw [hmetrics]; exact hs.finish_eq⟩
    · simp only [Loop.serveValidate, hask]
      exact (validate_spec sha s.driver tool).1.trans hs.context_eq
    · have hreply : (validate sha s.driver tool).2.1
          = (validate sha ⟨h.context, 0, sha.zero⟩ tool).2.1 := by
        refine validate_reply_congr sha tool ?_
        rw [hs.context_eq]
      simp [Loop.serveValidate, hask, validationPasses, hreply]

theorem serve_hears (hs : Hears s h) (op : Option HostOp) (request : Bytes) (tool : ToolRun D) :
    (s.serve sha op request tool).2 = (h.serve sha op request tool).2 ∧
      Hears (s.serve sha op request tool).1 (h.serve sha op request tool).1 := by
  unfold Loop.serve Heard.serve
  rw [hs.latched_eq]
  by_cases hc : h.latched = true ∧ op ≠ some .finish
  · rw [if_pos hc, if_pos hc]
    exact ⟨rfl, hs⟩
  · rw [if_neg hc, if_neg hc]
    match op with
    | some .request =>
      exact ⟨rfl, hs.latched_eq, by rw [← hs.context_eq], hs.passed_iff, hs.finish_eq⟩
    | some .validate => exact ⟨rfl, serveValidate_hears hs request tool⟩
    | some .assertFailed => exact ⟨rfl, rfl, hs.context_eq, hs.passed_iff, hs.finish_eq⟩
    | some .needsModel => exact ⟨rfl, hs.latched_eq, hs.context_eq, hs.passed_iff, rfl⟩
    | some .finish =>
      refine ⟨rfl, ?_⟩
      dsimp only [finishWord]
      cases RunMetrics.readFrom request with
      | none => exact ⟨hs.latched_eq, hs.context_eq, hs.passed_iff, hs.finish_eq⟩
      | some metrics => exact ⟨hs.latched_eq, hs.context_eq, hs.passed_iff, rfl⟩
    | some .changed => exact ⟨rfl, hs⟩
    | some .model => exact ⟨rfl, hs⟩
    | some .log => exact ⟨rfl, hs⟩
    | none => exact ⟨rfl, hs⟩

/-- **One turn is heard as it is served.** -/
theorem turn_hears (sha : Sha D) (hs : Hears s h) (t : Turn D) :
    (s.turn sha t).2 = (h.turn sha t).2 ∧ Hears (s.turn sha t).1 (h.turn sha t).1 := by
  cases t with
  | expired => exact ⟨rfl, hs.latched_eq, hs.context_eq, hs.passed_iff, rfl⟩
  | idle => exact ⟨rfl, hs⟩
  | garbled => exact ⟨rfl, hs⟩
  | call op requestLen region tool => exact serve_hears hs _ _ _

/-- **So is a whole run.** -/
theorem through_hears (sha : Sha D) (turns : List (Turn D))
    (hs : Hears s h) : Hears (s.through sha turns) (h.run sha turns) := by
  induction turns generalizing s h with
  | nil => exact hs
  | cons t rest ih =>
    obtain ⟨hflag, hnext⟩ := turn_hears sha hs t
    unfold Loop.through Heard.run
    cases hst : s.turn sha t with
    | mk s' done =>
      cases hht : h.turn sha t with
      | mk h' done' =>
        rw [hst, hht] at hflag hnext
        dsimp only at hflag hnext
        subst hflag
        cases done with
        | true => exact hnext
        | false => exact ih hnext

/-! ### The end of a run -/

variable {turns : List (Turn D)}

theorem through_of_run {s' : Loop D}
    (h : s.run sha turns = some s') : s.through sha turns = s' := by
  induction turns generalizing s with
  | nil => cases h
  | cons t rest ih =>
    unfold Loop.run at h
    unfold Loop.through
    cases ht : s.turn sha t with
    | mk s1 done =>
      rw [ht] at h
      cases done with
      | true => exact Option.some.inj h
      | false => exact ih h

theorem turn_finish {s' : Loop D} {t : Turn D} (ht : s.turn sha t = (s', false)) :
    s'.outcome.metrics.finish = s.outcome.metrics.finish
      ∨ s'.outcome.metrics.finish = finishNeedsModel := by
  cases t with
  | expired => cases (Prod.mk.inj ht).2
  | idle => exact .inl (by rw [← (Prod.mk.inj ht).1])
  | garbled => exact .inl (by rw [← (Prod.mk.inj ht).1])
  | call op requestLen region tool =>
    have hs : s.serve sha (HostOp.ofCode op) (takeRequest requestLen region) tool = (s', false) :=
      ht
    unfold Loop.serve at hs
    split at hs
    · exact .inl (by rw [← (Prod.mk.inj hs).1])
    · split at hs
      case h_3 =>
        rw [← (Prod.mk.inj hs).1]
        refine .inl ?_
        unfold Loop.serveValidate
        dsimp only
        split <;> rfl
      case h_5 => exact .inr (by rw [← (Prod.mk.inj hs).1])
      case h_6 => cases (Prod.mk.inj hs).2
      all_goals exact .inl (by rw [← (Prod.mk.inj hs).1])

theorem run_of_returned (hs : s.outcome.metrics.finish ≠ finishReturned)
    (h : (s.through sha turns).outcome.metrics.finish = finishReturned) :
    s.run sha turns = some (s.through sha turns) := by
  induction turns generalizing s with
  | nil => exact absurd h hs
  | cons t rest ih =>
    unfold Loop.through at h ⊢
    unfold Loop.run
    cases ht : s.turn sha t with
    | mk s' done =>
      rw [ht] at h
      cases done with
      | true => rfl
      | false =>
        refine ih ?_ h
        rcases turn_finish ht with hsame | hneeds
        · rwa [hsame]
        · rw [hneeds]
          decide

/-! ### Stopped -/

theorem serve_stopped (op : Option HostOp) (request : Bytes) (tool : ToolRun D) :
    (h.serve sha op request tool).1.stopped = true ↔
      h.stopped = true ∨ (HostOp.stops op = true ∧ h.latched = false) := by
  unfold Heard.serve
  by_cases hl : h.latched = true
  · by_cases hf : op = some .finish
    · rw [if_neg fun hc => hc.2 hf, hf]
      simp [HostOp.stops]
    · rw [if_pos ⟨hl, hf⟩]
      simp [hl]
  · rw [if_neg fun hc => hl hc.1]
    rw [Bool.not_eq_true] at hl
    match op with
    | some .request => simp [HostOp.stops]
    | some .validate => simp [HostOp.stops]
    | some .assertFailed => simp [HostOp.stops, hl]
    | some .needsModel => simp [HostOp.stops, hl]
    | some .finish => simp [HostOp.stops]
    | some .changed => simp [HostOp.stops]
    | some .model => simp [HostOp.stops]
    | some .log => simp [HostOp.stops]
    | none => simp [HostOp.stops]

theorem turn_stopped (sha : Sha D) (h : Heard D) (t : Turn D) :
    (h.turn sha t).1.stopped = true ↔
      h.stopped = true ∨ (t.stops = true ∧ h.latched = false) := by
  cases t with
  | expired => simp [Heard.turn, Turn.stops]
  | idle => simp [Heard.turn, Turn.stops]
  | garbled => simp [Heard.turn, Turn.stops]
  | call op requestLen region tool => exact serve_stopped _ _ _

theorem stopped_iff (sha : Sha D) (turns : List (Turn D)) (hs : Hears s h) :
    (h.run sha turns).stopped = true ↔ h.stopped = true ∨ s.ServesStop sha turns := by
  induction turns generalizing s h with
  | nil => simp [Heard.run, Loop.ServesStop]
  | cons t rest ih =>
    obtain ⟨hflag, hnext⟩ := turn_hears sha hs t
    have hstop := turn_stopped sha h t
    unfold Heard.run Loop.ServesStop
    rw [hs.latched_eq]
    cases hht : h.turn sha t with
    | mk h' done =>
      rw [hht] at hflag hnext hstop
      dsimp only at hflag hnext hstop
      cases done with
      | true =>
        simp only [hflag, Bool.true_eq_false, false_and, or_false]
        exact hstop
      | false =>
        dsimp only
        rw [ih hnext, hstop, or_assoc]
        simp only [hflag, true_and]

/-! ### Behind the latch -/

theorem turn_latched (sha : Sha D) (hl : s.outcome.latched = true) (t : Turn D) :
    (s.turn sha t).1.driver = s.driver ∧ (s.turn sha t).1.outcome.latched = true := by
  cases t with
  | expired => exact ⟨rfl, hl⟩
  | idle => exact ⟨rfl, hl⟩
  | garbled => exact ⟨rfl, hl⟩
  | call op requestLen region tool =>
    show (s.serve sha _ _ _).1.driver = s.driver ∧ (s.serve sha _ _ _).1.outcome.latched = true
    unfold Loop.serve
    by_cases hf : HostOp.ofCode op = some .finish
    · rw [if_neg fun hc => hc.2 hf, hf]
      dsimp only
      split
      · exact ⟨rfl, hl⟩
      · exact ⟨rfl, hl⟩
    · rw [if_pos ⟨hl, hf⟩]
      exact ⟨rfl, hl⟩

theorem through_latched
    (hl : s.outcome.latched = true) : (s.through sha turns).driver = s.driver := by
  induction turns generalizing s with
  | nil => rfl
  | cons t rest ih =>
    obtain ⟨hdriver, hlatched⟩ := turn_latched sha hl t
    unfold Loop.through
    cases ht : s.turn sha t with
    | mk s' done =>
      rw [ht] at hdriver hlatched
      cases done with
      | true => exact hdriver
      | false => exact (ih hlatched).trans hdriver

theorem through_append (sha : Sha D) (before after : List (Turn D)) (s : Loop D) :
    s.through sha (before ++ after) = s.through sha before
      ∨ s.through sha (before ++ after) = (s.through sha before).through sha after := by
  induction before generalizing s with
  | nil => exact .inr rfl
  | cons t rest ih =>
    rw [List.cons_append]
    simp only [Loop.through]
    cases s.turn sha t with
    | mk s' done =>
      cases done with
      | true => exact .inl rfl
      | false => exact ih s'

theorem context_kept {before after : List (Turn D)}
    (hl : (s.through sha before).outcome.latched = true) :
    (s.through sha (before ++ after)).driver.context = (s.through sha before).driver.context := by
  rcases through_append sha before after s with h | h
  · rw [h]
  · rw [h, through_latched hl]

/-! ### A service that says yes -/

/-- A state service that stages what it is given, answers every request `OK` and freezes
`tree`. -/
def agreeing (sha : Sha D) (tree : D) (u : Unit) : StoreRequest D → Answer D × Unit
  | .putObject t content =>
    (.reply ⟨.ok, 0, 0, sha.objectDigest t content, sha.zero⟩, u)
  | .freeze _ _ _ => (.reply ⟨.ok, 0, 0, sha.zero, tree⟩, u)
  | _ => (.reply ⟨.ok, 0, 0, sha.zero, sha.zero⟩, u)

section Agreeing

variable (sha : Sha D) (tree : D)

theorem agreeing_put [DecidableEq D] (t : ObjectType) (content : Content D) (s : Store Unit) :
    ∃ s', Store.putObject (agreeing sha tree) sha t content s
      = .ok (some (sha.objectDigest t content)) s' := by
  refine ⟨{ s with calls := s.calls + 1 }, ?_⟩
  simp [Store.putObject, Store.ok, Store.call, agreeing, bind, EStateM.bind, pure, EStateM.pure]

theorem agreeing_ok (request : StoreRequest D) {r : StoreReply D} (s : Store Unit)
    (hr : (agreeing sha tree s.service request).1 = .reply r) (hok : r.status = .ok) :
    ∃ s', Store.ok (agreeing sha tree) request s = .ok (some r) s' := by
  refine ⟨{ s with service := (agreeing sha tree s.service request).2, calls := s.calls + 1 }, ?_⟩
  simp [Store.ok, Store.call, hr, hok, bind, EStateM.bind, pure, EStateM.pure]

theorem agreeing_putEntries [DecidableEq D] (entries : List Entry) (s : Store Unit) :
    ∃ s', putEntries (agreeing sha tree) sha entries s
      = .ok (entries.map fun e => sha.objectDigest .bytes (.raw e.bytes)) s' := by
  induction entries generalizing s with
  | nil => exact ⟨s, rfl⟩
  | cons e rest ih =>
    obtain ⟨s1, h1⟩ := agreeing_put sha tree .bytes (.raw e.bytes) s
    obtain ⟨s2, h2⟩ := ih s1
    refine ⟨s2, ?_⟩
    unfold putEntries
    rw [bind_of_ok h1]
    dsimp only
    rw [bind_of_ok h2]
    rfl

theorem agreeing_bindEntries (handle : Nat) (bound : List (Entry × D)) (s : Store Unit) :
    ∃ s', bindEntries (agreeing sha tree) handle bound s = .ok () s' := by
  induction bound generalizing s with
  | nil => exact ⟨s, rfl⟩
  | cons p rest ih =>
    obtain ⟨s1, h1⟩ := agreeing_ok sha tree
      (.write handle p.1.name p.2) s rfl rfl
    obtain ⟨s2, h2⟩ := ih s1
    refine ⟨s2, ?_⟩
    unfold bindEntries
    rw [bind_of_ok h1]
    exact h2

theorem encodeTree_candidate (workspace : Workspace) :
    ∃ content, encodeTree 2048 (workspace.sorted.map (Workspace.bindingOf sha)) = .ok content := by
  have htree := workspace.candidateDigest_eq sha
  unfold Workspace.candidateDigest at htree
  simp only [workspace.bindings_eq sha, Option.bind_eq_bind, Option.bind_some] at htree
  cases henc : encodeTree 2048 (workspace.sorted.map (Workspace.bindingOf sha)) with
  | error e =>
    rw [henc] at htree
    cases htree
  | ok content => exact ⟨content, rfl⟩

theorem agreeing_freeze [DecidableEq D] (configDigest : D) (workspace : Workspace) (generation : Nat)
    (tool : Nat × D) (s : Store Unit)
    (htree : Workspace.candidateDigest sha workspace = some tree) :
    ∃ c s', freeze (agreeing sha tree) sha configDigest workspace generation generation 1 true tool s
      = .ok c s' := by
  obtain ⟨content, henc⟩ := encodeTree_candidate sha workspace
  have hdigest : sha.objectDigest .tree content = tree := by
    rw [workspace.candidateDigest_eq sha, ← encodeTree_ok henc] at htree
    exact Option.some.inj htree
  obtain ⟨s1, h1⟩ := agreeing_put sha tree .policy
    (.policy (policy configDigest)) s
  obtain ⟨s2, h2⟩ := agreeing_putEntries sha tree workspace.entries s1
  let validation := validationFor (sha.objectDigest .tree content) generation 1 tool.1 tool.2
  obtain ⟨s3, h3⟩ := agreeing_put sha tree .validation
    (.validation validation) s2
  obtain ⟨s4, h4⟩ := agreeing_ok sha tree (.fork generation) s3
    rfl rfl
  obtain ⟨s5, h5⟩ := agreeing_bindEntries sha tree 0
    (workspace.entries.zip
      (workspace.entries.map fun e => sha.objectDigest .bytes (.raw e.bytes))) s4
  obtain ⟨s6, h6⟩ := agreeing_ok sha tree
    (.freeze 0 (sha.objectDigest .policy (.policy (policy configDigest)))
      (sha.objectDigest .validation (.validation validation))) s5 rfl rfl
  obtain ⟨s7, h7⟩ := agreeing_ok sha tree (.discard 0) s6 rfl rfl
  refine ⟨⟨sha.zero, sha.objectDigest .policy (.policy (policy configDigest)),
    sha.objectDigest .validation (.validation validation), tree⟩, s7, ?_⟩
  unfold freeze
  rw [bind_of_ok h1]
  dsimp only
  rw [bind_of_ok h2]
  simp only [workspace.bindings_eq sha, henc, Except.toOption, if_true]
  rw [bind_of_ok h3]
  dsimp only
  rw [bind_of_ok h4]
  dsimp only
  rw [bind_of_ok h5, bind_of_ok h6]
  dsimp only
  rw [bind_of_ok h7]
  simp only [hdigest, ne_eq, not_true_eq_false, if_false]
  rfl

theorem agreeing_publish (generation : Nat) (c : Frozen D) (s : Store Unit) :
    ∃ s', publishCandidate (agreeing sha tree) sha generation c s = .ok (.published c) s' := by
  refine ⟨{ s with sequence := s.sequence + 1, calls := s.calls + 1 + 1 }, ?_⟩
  simp [publishCandidate, Store.ok, Store.call, agreeing, bind, EStateM.bind, pure, EStateM.pure]

end Agreeing

/-! ### The result -/

section Result

variable {sha : Sha D} {configDigest : D} {config : WorkConfig} {generation : Nat} {root : D}
  {workspace : Workspace} {turns : List (Turn D)}

theorem start_hears (sha : Sha D) (config : WorkConfig) (generation : Nat) (root : D)
    (workspace : Workspace) :
    Hears (Loop.start sha config generation root workspace)
      (Heard.start config generation root workspace) :=
  ⟨rfl, rfl, by simp [Loop.start, Heard.start, Run.new], rfl⟩

variable [DecidableEq D]

theorem conclude_returned {σ : Type} {service : σ → StoreRequest D → Answer D × σ} {s : Loop D}
    {store store' : Store σ} {c : Frozen D}
    (h : conclude service sha configDigest generation s store = .ok (.published c) store') :
    s.outcome.metrics.finish = finishReturned := by
  simp only [conclude] at h
  by_cases hgo : (!wentThrough s.outcome.metrics.finish) = true ∨ s.outcome.verdict ≠ .passed
  · rw [if_pos hgo] at h
    obtain ⟨_, _, -, h⟩ := bind_ok_iff.mp h
    cases (EStateM.Result.ok.inj h).1
  · have hwent : wentThrough s.outcome.metrics.finish = true := by
      by_contra hne
      exact hgo (.inl (by simpa using hne))
    simpa [wentThrough] using hwent

theorem attempt_published {σ : Type} {service : σ → StoreRequest D → Answer D × σ}
    {store : Store σ} {r : AttemptResult D σ} {c : Frozen D}
    (h : attemptWithRuntime service sha configDigest config generation root workspace true turns
      store = some r) (hc : r.attempt = .published c) :
    ((Heard.start config generation root workspace).run sha turns).finish = finishReturned ∧
      ((Heard.start config generation root workspace).run sha turns).passed = true := by
  unfold attemptWithRuntime at h
  split at h
  · rw [← Option.some.inj h] at hc
    cases hc
  · dsimp only at h
    split at h
    · cases h
    case h_2 s hrun =>
      split at h
      case h_2 =>
        rw [← Option.some.inj h] at hc
        cases hc
      case h_1 attempt store' hconclude =>
        rw [← Option.some.inj h] at hc
        dsimp only at hc
        subst hc
        simp only [run, if_true] at hrun
        have hthrough := through_of_run (s := Loop.start sha config generation root workspace) hrun
        have hears := through_hears sha turns
          (start_hears sha config generation root workspace)
        rw [hthrough] at hears
        exact ⟨hears.finish_eq.symm.trans (conclude_returned hconclude),
          hears.passed_iff.mp (conclude_published hconclude).1⟩

theorem overruled_published (configDigest : D) (hp : (workspace.read (ascii "program.js")).isSome = true)
    (hfinish : ((Heard.start config generation root workspace).run sha turns).finish
      = finishReturned)
    (hpassed : ((Heard.start config generation root workspace).run sha turns).passed = true) :
    ∃ tree store r c, attemptWithRuntime (agreeing sha tree) sha configDigest config generation
      root workspace true turns store = some r ∧ r.attempt = .published c := by
  have hears := through_hears sha turns
    (start_hears sha config generation root workspace)
  have hend : ((Loop.start sha config generation root workspace).through sha
      turns).outcome.metrics.finish = finishReturned := hears.finish_eq.trans hfinish
  have hrun := run_of_returned (s := Loop.start sha config generation root workspace)
    (by decide : (0 : Nat) ≠ finishReturned) hend
  have hverdict := hears.passed_iff.mpr hpassed
  generalize (Loop.start sha config generation root workspace).through sha turns = s
    at hend hrun hverdict
  obtain ⟨tree, htree⟩ : ∃ tree,
      Workspace.candidateDigest sha s.driver.context.workspace = some tree :=
    ⟨_, Workspace.candidateDigest_eq sha _⟩
  obtain ⟨c, store, hfreeze⟩ := agreeing_freeze sha tree configDigest s.driver.context.workspace generation
    (s.outcome.toolId, s.outcome.toolConfigDigest) ⟨(), 0, 0⟩ htree
  obtain ⟨store', hpublish⟩ := agreeing_publish sha tree generation c store
  have hconclude : conclude (agreeing sha tree) sha configDigest generation s ⟨(), 0, 0⟩
      = .ok (.published c) store' := by
    unfold conclude
    rw [if_neg (by simp [hend, hverdict, wentThrough]), hfreeze]
    exact hpublish
  refine ⟨tree, ⟨(), 0, 0⟩, ⟨.published c, s.launches, store'⟩, c, ?_, rfl⟩
  obtain ⟨program, hprogram⟩ := Option.isSome_iff_exists.mp hp
  unfold attemptWithRuntime
  simp only [hprogram, run, if_true]
  have hstart : Loop.run sha _ turns = some s := hrun
  unfold Loop.start at hstart
  simp only [hstart, hconclude]

/-- **A stopped program is final exactly when its last message does not overrule the
stop.** -/
theorem stopIsFinal_iff (hp : (workspace.read (ascii "program.js")).isSome = true) :
    StopIsFinal sha configDigest config generation root workspace turns ↔
      ¬ StopOverruled sha config generation root workspace turns := by
  have hstop := stopped_iff sha turns
    (start_hears sha config generation root workspace)
  constructor
  · rintro hfinal ⟨hstopped, hfinish, hpassed⟩
    obtain ⟨tree, store, r, c, hattempt, hc⟩ :=
      overruled_published configDigest hp hfinish hpassed
    have hserves := (hstop.mp hstopped).resolve_left (by simp [Heard.start])
    exact hfinal.nothing_published Unit (agreeing sha tree) store r hserves hattempt c hc
  · intro hnot
    constructor
    · intro before after hturns hl
      rw [hturns]
      exact context_kept hl
    · intro σ service store r hserves hattempt c hc
      obtain ⟨hfinish, hpassed⟩ := attempt_published hattempt hc
      exact hnot ⟨hstop.mpr (.inr hserves), hfinish, hpassed⟩

end Result

/-! ### Two runs -/

/-- `ASSERT_FAILED`. -/
def assertTurn : Turn Symbol := .call 6 0 [] passingTool

/-- `FINISH` reporting that an assertion failed. -/
def finishAssertionTurn : Turn Symbol :=
  .call 7 48 (List.replicate 20 0 ++ [3] ++ List.replicate 27 0) passingTool

/-- A failed assertion that is reported as one is final. -/
theorem reported_assertion_is_final :
    StopIsFinal symbolicSha (.atom 9) ⟨1, 5⟩ 1 (.atom 3) sampleWorkspace
      [validateTurn, assertTurn, finishAssertionTurn] :=
  (stopIsFinal_iff (by decide +kernel)).mpr fun h => absurd h.2.1 (by decide +kernel)

/-- A failed assertion behind which the runtime reports that the program returned: the
version is published. -/
theorem failed_assertion_published :
    ¬ StopIsFinal symbolicSha (.atom 9) ⟨1, 5⟩ 1 (.atom 3) sampleWorkspace
      [validateTurn, assertTurn, finishTurn] := by
  intro hfinal
  have hserves : (Loop.start symbolicSha ⟨1, 5⟩ 1 (.atom 3) sampleWorkspace).ServesStop symbolicSha
      [validateTurn, assertTurn, finishTurn] :=
    .inr ⟨by decide +kernel, .inl ⟨by decide +kernel, by decide +kernel⟩⟩
  have hsome : ((sampleAttempt [validateTurn, assertTurn, finishTurn]).bind
      (·.candidate?)).isSome = true := by
    decide +kernel
  obtain ⟨c, hbind⟩ := Option.isSome_iff_exists.mp hsome
  obtain ⟨r, hr, hc⟩ := Option.bind_eq_some_iff.mp hbind
  exact hfinal.nothing_published SampleService sampleService _ r hserves hr c
    (published_of_candidate? hc)

end Thalyx.Work
