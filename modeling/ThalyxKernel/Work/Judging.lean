/-
When a zero from the validation tool means what it is taken for: `user/ncheck/main.c`.

The first pass compares a sum of two fields of the object as a word, and does not look at the
length of a name.  The second pass is reached when no record was refused and every script
compiled, and the counters it leaves are the checks and the exceptions counted as words.  So
two invariants carry the passes: what `parse_failed = 0` says of the records taken so far, and
how the counters stand to the checks that were made.
-/
import ThalyxKernel.Work.Ncheck

namespace Thalyx

open UInt32 Option

/-! ### Loops over a list -/

section Loops

variable {α σ : Type} {f : σ → α → Option σ}

theorem foldlM_keeps (P : List α → σ → Prop) {xs : List α} {s : σ} (hstart : P [] s)
    (hturn : ∀ done, done.length < xs.length → ∀ x ∈ xs, ∀ s, P done s →
      ∃ s', f s x = some s' ∧ P (done ++ [x]) s') : ∃ s', xs.foldlM f s = some s' ∧ P xs s' := by
  suffices ∀ rest done s, done ++ rest = xs → P done s →
      ∃ s', rest.foldlM f s = some s' ∧ P xs s' from this xs [] s rfl hstart
  intro rest
  induction rest with
  | nil =>
    rintro done s rfl h
    exact ⟨s, rfl, by rwa [List.append_nil]⟩
  | cons x rest ih =>
    rintro done s rfl h
    obtain ⟨t, ht, hP⟩ := hturn done (by simp) x (by simp) s h
    obtain ⟨s', hs', hP'⟩ := ih (done ++ [x]) t (by simp) hP
    refine ⟨s', ?_, hP'⟩
    rw [List.foldlM_cons, ht]
    exact hs'

theorem foldlM_none {xs : List α} {x : α} (hx : x ∈ xs) (h : ∀ s, f s x = none) (s : σ) :
    xs.foldlM f s = none := by
  induction xs generalizing s with
  | nil => cases hx
  | cons y rest ih =>
    rw [List.foldlM_cons]
    rcases List.mem_cons.mp hx with rfl | hmem
    · rw [h]
      rfl
    · cases hy : f s y with
      | none => rfl
      | some t => exact ih hmem t

end Loops

namespace Ncheck

open Work

variable {Ctx : Type} {engine : Engine Ctx} {object : SealedObject} {e : CandidateEntry}
  {s s' : Progress Ctx} {bytes : Bytes} {start len index : Nat} {total : UInt64}

/-! ### Accesses -/

theorem fetch_eq (h : len = 0 ∨ start + len ≤ bytes.length) :
    fetch bytes start len = some ((bytes.drop start).take len) := by
  unfold fetch
  by_cases hzero : len = 0
  · rw [if_pos hzero, hzero, List.take_zero]
  · rw [if_neg hzero, if_pos (h.resolve_left hzero)]

theorem fetch_none (hlen : len ≠ 0) (h : bytes.length < start + len) :
    fetch bytes start len = none := by
  unfold fetch
  rw [if_neg hlen, if_neg (Nat.not_le.mpr h)]

theorem page_le (object : SealedObject) : 4096 ≤ object.bytes.length := by
  have hpos := object.pages_pos
  rw [object.length_bytes]
  omega

theorem entryAt_eq (h : index < candidateEntries) :
    entryAt object index = some (record object index) := by
  have hle := recordAt_le h
  have hpage := page_le object
  have hcontents : contentsAt ≤ 4096 := by decide
  unfold entryAt Layout.readFrom
  rw [CandidateEntry.size_layout, if_neg (by omega)]
  rfl

theorem header_eq : CandidateHeader.layout.readFrom object.bytes 0 = some (header object) := by
  have hpage := page_le object
  have hheader : candidateHeaderSize ≤ 4096 := by decide
  unfold Layout.readFrom
  rw [CandidateHeader.size_layout, if_neg (by omega)]
  rfl

theorem isJavascript_some (h : e.nameLen.toNat ≤ 32) : ∃ js, isJavascript e = some js := by
  unfold isJavascript
  by_cases hshort : e.nameLen.toNat ≤ 3
  · exact ⟨false, if_pos hshort⟩
  · rw [if_neg hshort, fetch_eq (.inr (by rw [Vector.length_toList]; omega))]
    exact ⟨_, rfl⟩

theorem isJavascript_none (h : 32 < e.nameLen.toNat) : isJavascript e = none := by
  unfold isJavascript
  rw [if_neg (by omega), fetch_none (by decide) (by rw [Vector.length_toList]; omega)]
  rfl

theorem entryName_some (h : e.nameLen.toNat ≤ 32) : ∃ name, entryName e = some name := by
  unfold entryName
  rw [fetch_eq (.inr (by rw [Vector.length_toList]; omega))]
  exact ⟨_, rfl⟩

theorem terminated_eq (h : Inside object e) :
    terminated object e = some (wrapped ((content object e).take sourceMax) e.flags) := by
  have hcut : min e.length.toNat sourceMax = 0
      ∨ e.offset.toNat + min e.length.toNat sourceMax ≤ object.bytes.length := by
    rcases h.content with h | h
    · exact .inl (by omega)
    · exact .inr (by omega)
  unfold terminated content
  rw [fetch_eq hcut, List.take_take, Nat.min_comm]
  rfl

/-! ### The first pass -/

theorem compileEntry_refused (hindex : index < candidateEntries)
    (h : ¬ (record object index).offset + (record object index).length ≤ total) :
    compileEntry engine object total s index
      = some { s with parseFailed := s.parseFailed + 1 } := by
  have hgreater := UInt64.not_le.mp h
  simp only [compileEntry, entryAt_eq hindex, bind_eq_bind, bind_some, gt_iff_lt,
    if_pos hgreater]

theorem compileEntry_outside (hindex : index < candidateEntries)
    (h : (record object index).offset + (record object index).length ≤ total)
    (houtside : ¬ Inside object (record object index)) :
    compileEntry engine object total s index = none := by
  have hnot := UInt64.not_lt.mpr h
  by_cases hcontent : (record object index).length.toNat = 0
      ∨ (record object index).offset.toNat + (record object index).length.toNat
        ≤ object.bytes.length
  · have hname : 32 < (record object index).nameLen.toNat := by
      refine Nat.lt_of_not_le fun hle => ?_
      exact houtside ⟨hcontent, hle⟩
    simp only [compileEntry, entryAt_eq hindex, bind_eq_bind, bind_some, gt_iff_lt,
      if_neg hnot, fetch_eq hcontent, isJavascript_none hname, bind_none]
  · obtain ⟨hlen, hle⟩ := not_or.mp hcontent
    simp only [compileEntry, entryAt_eq hindex, bind_eq_bind, bind_some, gt_iff_lt,
      if_neg hnot, fetch_none hlen (Nat.lt_of_not_le hle), bind_none]

/-- The source of a script that is compiled, as far as it is. -/
def sourceOf (object : SealedObject) (e : CandidateEntry) : Bytes :=
  wrapped ((content object e).take sourceMax) e.flags

/-- What a turn of the first pass does with a record that is taken and is inside. -/
structure Takes (engine : Engine Ctx) (object : SealedObject) (index : Nat)
    (s s' : Progress Ctx) : Prop where
  checks : s'.checks = s.checks ∧ s'.made = s.made ∧ s'.threw = s.threw
  keeps : ∀ p ∈ s.compiled, p ∈ s'.compiled
  only : ∀ p ∈ s'.compiled, p ∈ s.compiled ∨ p.2.1 = sourceOf object (record object p.1)
  failed : s'.parseFailed = s.parseFailed + 1
    ∨ s'.parseFailed = s.parseFailed ∧ (isJavascript (record object index) = some true →
      (index, sourceOf object (record object index), true) ∈ s'.compiled)
  yielding : (∀ ctx source name, engine.compile ctx source name = (ctx, true)) →
    s'.parseFailed = s.parseFailed ∧ s'.ctx = s.ctx

theorem takes_compile {length : UInt64} {body name : Bytes} :
    Takes engine object index s ((s.read length body).compile engine index name
      (sourceOf object (record object index))) := by
  refine ⟨⟨rfl, rfl, rfl⟩, fun p hp => List.mem_append_left _ hp, ?_, ?_, fun hyield => ?_⟩
  · intro p hp
    rcases List.mem_append.mp hp with hp | hp
    · exact .inl hp
    · rw [List.mem_singleton.mp hp]
      exact .inr rfl
  · unfold Progress.compile
    dsimp only
    cases hok : (engine.compile (s.read length body).ctx
        (sourceOf object (record object index)) name).2 with
    | false => exact .inl rfl
    | true => exact .inr ⟨rfl, fun _ => by simp⟩
  · unfold Progress.compile
    simp only [hyield]
    exact ⟨rfl, rfl⟩

theorem compileEntry_takes (engine : Engine Ctx) (s : Progress Ctx) (hindex : index < candidateEntries)
    (h : (record object index).offset + (record object index).length ≤ total)
    (hinside : Inside object (record object index)) :
    ∃ s', compileEntry engine object total s index = some s'
      ∧ Takes engine object index s s' := by
  have hnot := UInt64.not_lt.mpr h
  obtain ⟨js, hjs⟩ := isJavascript_some hinside.name
  obtain ⟨name, hname⟩ := entryName_some hinside.name
  simp only [compileEntry, entryAt_eq hindex, bind_eq_bind, bind_some, gt_iff_lt,
    if_neg hnot, fetch_eq hinside.content, hjs]
  cases js with
  | false =>
    refine ⟨_, rfl, ⟨rfl, rfl, rfl⟩, fun _ hp => hp, fun _ hp => .inl hp, .inr ⟨rfl, ?_⟩,
      fun _ => ⟨rfl, rfl⟩⟩
    intro hscript
    rw [hjs] at hscript
    cases hscript
  | true =>
    simp only [hname, terminated_eq hinside, bind_some, if_pos]
    exact ⟨_, rfl, takes_compile⟩

/-- What the first pass leaves, over these records. -/
structure Compiled (engine : Engine Ctx) (object : SealedObject) (done : List Nat)
    (s s' : Progress Ctx) : Prop where
  checks : s'.checks = s.checks ∧ s'.made = s.made ∧ s'.threw = s.threw
  few : s'.parseFailed.toNat ≤ done.length
  scripts : s'.parseFailed = 0 → ∀ i ∈ done, Passes object i
    ∧ (isJavascript (record object i) = some true →
      (i, sourceOf object (record object i), true) ∈ s'.compiled)
  only : ∀ p ∈ s'.compiled, p ∈ s.compiled ∨ p.2.1 = sourceOf object (record object p.1)
  yielding : (∀ ctx source name, engine.compile ctx source name = (ctx, true)) →
    (∀ i ∈ done, Passes object i) → s'.parseFailed = 0 ∧ s'.ctx = s.ctx

theorem succ_toNat {n : UInt32} (h : n.toNat < candidateEntries) : (n + 1).toNat = n.toNat + 1 := by
  unfold candidateEntries at h
  rw [UInt32.toNat_add]
  exact Nat.mod_eq_of_lt (by show n.toNat + 1 < 2 ^ 32; omega)

variable {done : List Nat} {t : Progress Ctx}

theorem Compiled.refuse (h : Compiled engine object done s t)
    (hlen : done.length < candidateEntries) (hno : ¬ Passes object index) :
    Compiled engine object (done ++ [index]) s { t with parseFailed := t.parseFailed + 1 } := by
  have hsucc := succ_toNat (Nat.lt_of_le_of_lt h.few hlen)
  refine ⟨h.checks, ?_, ?_, h.only, ?_⟩
  · have hfew := h.few
    rw [List.length_append, List.length_singleton, hsucc]
    omega
  · intro hzero
    have := congrArg UInt32.toNat hzero
    rw [hsucc] at this
    cases this
  · intro _ hall
    exact absurd (hall index (by simp)) hno

theorem Compiled.take {t' : Progress Ctx}
    (h : Compiled engine object done s t) (hlen : done.length < candidateEntries)
    (hpasses : Passes object index) (htakes : Takes engine object index t t') :
    Compiled engine object (done ++ [index]) s t' := by
  have hsucc := succ_toNat (Nat.lt_of_le_of_lt h.few hlen)
  have hfew := h.few
  refine ⟨?_, ?_, ?_, ?_, ?_⟩
  · obtain ⟨hchecks, hmade, hthrew⟩ := htakes.checks
    exact ⟨hchecks.trans h.checks.1, hmade.trans h.checks.2.1, hthrew.trans h.checks.2.2⟩
  · rw [List.length_append, List.length_singleton]
    rcases htakes.failed with heq | ⟨heq, -⟩
    · rw [heq, hsucc]
      omega
    · rw [heq]
      omega
  · intro hzero
    rcases htakes.failed with heq | ⟨heq, hscript⟩
    · have := congrArg UInt32.toNat (heq.symm.trans hzero)
      rw [hsucc] at this
      cases this
    · intro i hi
      rcases List.mem_append.mp hi with hi | hi
      · obtain ⟨hpass, hsource⟩ := h.scripts (heq ▸ hzero) i hi
        exact ⟨hpass, fun hjs => htakes.keeps _ (hsource hjs)⟩
      · rw [List.mem_singleton.mp hi]
        exact ⟨hpasses, hscript⟩
  · intro p hp
    rcases htakes.only p hp with hp | hp
    · exact h.only p hp
    · exact .inr hp
  · intro hyield hall
    obtain ⟨hfailed, hctx⟩ := h.yielding hyield fun i hi => hall i (by simp [hi])
    obtain ⟨hsame, hsamectx⟩ := htakes.yielding hyield
    exact ⟨hsame.trans hfailed, hsamectx.trans hctx⟩

variable {count most : Nat}

/-- **The first pass, over an object each taken record of which is inside.** -/
theorem first_pass (engine : Engine Ctx) (hcount : count ≤ candidateEntries) (hzero : s.parseFailed = 0)
    (hinside : ∀ i < count, Passes object i → Inside object (record object i)) :
    ∃ s', (List.range count).foldlM (compileEntry engine object (header object).totalBytes) s
        = some s' ∧ Compiled engine object (List.range count) s s' := by
  refine foldlM_keeps (fun done t => Compiled engine object done s t) ?_ ?_
  · refine ⟨⟨rfl, rfl, rfl⟩, ?_, ?_, fun _ hp => .inl hp, fun _ _ => ⟨hzero, rfl⟩⟩
    · rw [hzero]
      exact Nat.zero_le _
    · intro _ i hi
      cases hi
  · intro done hdone i hi t ht
    rw [List.length_range] at hdone
    have hlt := List.mem_range.mp hi
    by_cases hpasses : Passes object i
    · obtain ⟨t', ht', htakes⟩ := compileEntry_takes engine t (Nat.lt_of_lt_of_le hlt hcount)
        hpasses (hinside i hlt hpasses)
      exact ⟨t', ht', ht.take (by omega) hpasses htakes⟩
    · exact ⟨_, compileEntry_refused (by omega) hpasses, ht.refuse (by omega) hpasses⟩

/-! ### The second pass -/

/-- How many of some checks did not hold. -/
def fails (made : List Check) : Nat := made.countP fun k => !k.held

theorem fails_append (made more : List Check) :
    fails (made ++ more) = fails made + fails more := List.countP_append

/-- The turns that find what they look for. -/
def finds (object : SealedObject) (done : List (Bytes × Nat)) : Nat :=
  done.countP fun turn => decide (entryName (record object turn.2) = some turn.1)

theorem finds_append (done : List (Bytes × Nat)) (turn : Bytes × Nat) :
    finds object (done ++ [turn]) = finds object done
      + if entryName (record object turn.2) = some turn.1 then 1 else 0 := by
  unfold finds
  rw [List.countP_append, List.countP_singleton]
  simp

theorem foldl_boundCheck (made : List Check) (c : Checks) :
    (made.foldl Checks.boundCheck c).run = c.run + UInt32.ofNat made.length
      ∧ (made.foldl Checks.boundCheck c).failed = c.failed + UInt32.ofNat (fails made) := by
  induction made generalizing c with
  | nil => exact ⟨(UInt32.add_zero _).symm, (UInt32.add_zero _).symm⟩
  | cons k rest ih =>
    obtain ⟨hrun, hfailed⟩ := ih (c.boundCheck k)
    rw [List.foldl_cons, hrun, hfailed]
    unfold fails
    rw [List.length_cons, List.countP_cons, ofNat_add, ofNat_add]
    constructor
    · show c.run + 1 + _ = _
      rw [UInt32.add_assoc, UInt32.add_comm 1]
      rfl
    · unfold Checks.boundCheck
      cases k.held with
      | true => simp
      | false =>
        show c.failed + 1 + _ = _
        rw [UInt32.add_assoc, UInt32.add_comm 1]
        rfl

/-- The counters are the checks and the exceptions there were, as words. -/
structure Counted (s : Progress Ctx) : Prop where
  run : s.checks.run = UInt32.ofNat s.made.length
  failed : s.checks.failed = UInt32.ofNat (fails s.made + s.threw)

theorem Counted.evaluate (h : Counted s) (name source : Bytes) :
    Counted (s.evaluate engine name source) := by
  obtain ⟨hrun, hfailed⟩ := foldl_boundCheck (engine.evaluate s.ctx source name).2.1 s.checks
  refine ⟨?_, ?_⟩
  · unfold Progress.evaluate
    dsimp only
    rw [List.length_append, ofNat_add, ← h.run, ← hrun]
    split <;> rfl
  · unfold Progress.evaluate
    dsimp only
    rw [fails_append]
    split
    · show Checks.failed _ + 1 = _
      rw [hfailed, h.failed]
      simp only [ofNat_add]
      ac_rfl
    · rw [hfailed, h.failed]
      simp only [ofNat_add]
      ac_rfl

theorem evaluateEntry_eq {turn : Bytes × Nat} (hindex : turn.2 < candidateEntries)
    (hinside : Inside object (record object turn.2)) :
    evaluateEntry engine object s turn
      = some (if entryName (record object turn.2) = some turn.1 then
          s.evaluate engine turn.1 (sourceOf object (record object turn.2)) else s) := by
  obtain ⟨name, hname⟩ := entryName_some hinside.name
  simp only [evaluateEntry, entryAt_eq hindex, bind_eq_bind, bind_some, hname,
    terminated_eq hinside, some_inj]
  by_cases hwanted : name = turn.1
  · rw [if_neg (not_not_intro hwanted), if_pos hwanted, hwanted]
    rfl
  · rw [if_pos hwanted, if_neg hwanted]

theorem mem_turns {turn : Bytes × Nat} (h : turn ∈ turns count) : turn.2 < count := by
  unfold turns at h
  obtain ⟨wanted, -, hturn⟩ := List.mem_flatMap.mp h
  obtain ⟨index, hindex, rfl⟩ := List.mem_map.mp hturn
  exact List.mem_range.mp hindex

/-- What the second pass leaves, over these turns. -/
structure Evaluated (engine : Engine Ctx) (object : SealedObject) (done : List (Bytes × Nat))
    (s s' : Progress Ctx) : Prop where
  same : s'.parseFailed = s.parseFailed ∧ s'.compiled = s.compiled
  counted : Counted s'
  threw : s'.threw ≤ finds object done
  made : finds object done = 0 → s'.made = []

theorem Evaluated.turn {done : List (Bytes × Nat)} {turn : Bytes × Nat}
    (h : Evaluated engine object done s t) :
    Evaluated engine object (done ++ [turn]) s
      (if entryName (record object turn.2) = some turn.1 then
        t.evaluate engine turn.1 (sourceOf object (record object turn.2)) else t) := by
  have hthrew := h.threw
  by_cases hfound : entryName (record object turn.2) = some turn.1
  · rw [if_pos hfound]
    refine ⟨h.same, h.counted.evaluate _ _, ?_, ?_⟩
    · rw [finds_append, if_pos hfound]
      unfold Progress.evaluate
      dsimp only
      split <;> omega
    · rw [finds_append, if_pos hfound]
      intro hno
      cases hno
  · rw [if_neg hfound]
    refine ⟨h.same, h.counted, ?_, ?_⟩
    · rwa [finds_append, if_neg hfound, Nat.add_zero]
    · rw [finds_append, if_neg hfound, Nat.add_zero]
      exact h.made

/-- **The second pass, over an object all records of which are inside.** -/
theorem second_pass (engine : Engine Ctx) (hcount : count ≤ candidateEntries) (hmade : s.made = [])
    (hthrew : s.threw = 0) (hchecks : s.checks.run = 0 ∧ s.checks.failed = 0)
    (hinside : ∀ i < count, Inside object (record object i)) :
    ∃ s', (turns count).foldlM (evaluateEntry engine object) s = some s'
      ∧ Evaluated engine object (turns count) s s' := by
  refine foldlM_keeps (fun done t => Evaluated engine object done s t) ?_ ?_
  · refine ⟨⟨rfl, rfl⟩, ⟨?_, ?_⟩, ?_, fun _ => hmade⟩
    · rw [hmade, hchecks.1]
      rfl
    · rw [hmade, hthrew, hchecks.2]
      rfl
    · rw [hthrew]
      exact Nat.zero_le _
  · intro done _ turn hturn t ht
    have hlt := mem_turns hturn
    exact ⟨_, evaluateEntry_eq (by omega) (hinside _ hlt), ht.turn⟩

/-! ### Both passes -/

variable {config : Config}

theorem count_le (h : ¬ Refused config (header object)) :
    (header object).count.toNat ≤ candidateEntries := by
  refine Nat.le_of_not_lt fun hlt => h ?_
  exact .inr (.inr (.inl hlt))

theorem toolMain_eq {ctx : Ctx} (h : ¬ Refused config (header object))
    (hctx : engine.create = some ctx) :
    toolMain engine config object
      = (passes engine object (header object) (.start ctx)).map Progress.ended := by
  simp only [toolMain, header_eq, bind_eq_bind, bind_some, if_neg h, hctx]

/-- What both passes leave, over an object each taken record of which is inside. -/
structure Passed (engine : Engine Ctx) (object : SealedObject) (ctx : Ctx) (s' : Progress Ctx) :
    Prop where
  /-- what the first pass has left, and what the second one has made of it -/
  stages : ∃ s, Compiled engine object (List.range (header object).count.toNat) (.start ctx) s
    ∧ (s.parseFailed ≠ 0 ∧ s' = s
      ∨ s.parseFailed = 0 ∧ (∀ i < (header object).count.toNat, Passes object i)
        ∧ (turns (header object).count.toNat).foldlM (evaluateEntry engine object) s = some s'
        ∧ Evaluated engine object (turns (header object).count.toNat) s s')

theorem passes_passed (engine : Engine Ctx) (ctx : Ctx) (hcount : (header object).count.toNat ≤ candidateEntries)
    (hinside : ∀ i < (header object).count.toNat,
      Passes object i → Inside object (record object i)) :
    ∃ s', passes engine object (header object) (.start ctx) = some s'
      ∧ Passed engine object ctx s' := by
  obtain ⟨s, hs, hcompiled⟩ := first_pass engine (s := .start ctx) hcount rfl hinside
  unfold passes
  rw [hs]
  show ∃ s', (if s.parseFailed = 0 then _ else _) = some s' ∧ _
  by_cases hfailed : s.parseFailed = 0
  · have hall : ∀ i < (header object).count.toNat, Passes object i := by
      intro i hi
      exact (hcompiled.scripts hfailed i (List.mem_range.mpr hi)).1
    obtain ⟨hchecks, hmade, hthrew⟩ := hcompiled.checks
    obtain ⟨s', hs', hevaluated⟩ := second_pass engine (s := s) hcount hmade hthrew
      ⟨by rw [hchecks]; rfl, by rw [hchecks]; rfl⟩ fun i hi => hinside i hi (hall i hi)
    rw [if_pos hfailed]
    exact ⟨s', hs', ⟨s, hcompiled, .inr ⟨hfailed, hall, hs', hevaluated⟩⟩⟩
  · rw [if_neg hfailed]
    exact ⟨s, rfl, ⟨s, hcompiled, .inl ⟨hfailed, rfl⟩⟩⟩

theorem eq_zero_of_word {n : Nat} (h : n < 2 ^ 32) (hword : UInt32.ofNat n = 0) : n = 0 := by
  have := congrArg UInt32.toNat hword
  rw [toNat_ofNat_of_lt' h] at this
  exact this

theorem sourceOf_whole (h : e.length.toNat ≤ sourceMax) :
    sourceOf object e = wrapped (content object e) e.flags := by
  unfold sourceOf
  rw [List.take_of_length_le]
  unfold content
  rw [List.length_take]
  omega

/-- **The condition is enough.** -/
theorem judges_of_sound (h : Sound config object most) : Judges engine config object most := by
  by_cases hrefused : Refused config (header object)
  · refine ⟨.early 3, ?_, fun _ hcode => ?_⟩
    · simp only [toolMain, header_eq, bind_eq_bind, bind_some, if_pos hrefused]
    · cases hcode
  obtain ⟨hinside, hjudged⟩ := h hrefused
  cases hcreate : engine.create with
  | none =>
    refine ⟨.early 4, ?_, fun _ hcode => ?_⟩
    · simp only [toolMain, header_eq, bind_eq_bind, bind_some, if_neg hrefused,
        hcreate]
    · cases hcode
  | some ctx =>
    obtain ⟨s', hs', s, hcompiled, hstage⟩ := passes_passed engine ctx
      (count_le hrefused) hinside
    refine ⟨s'.ended, ?_, fun hmost hcode => ?_⟩
    · rw [toolMain_eq hrefused hcreate, hs']
      rfl
    have hends : ¬ (s'.parseFailed ≠ 0 ∨ s'.checks.failed ≠ 0 ∨ s'.checks.run = 0) := by
      intro hbad
      unfold Progress.ended at hcode
      rw [if_pos hbad] at hcode
      cases hcode
    obtain ⟨hparsed, hfailed, hrun⟩ := not_or.mp hends |>.imp_right not_or.mp
    rcases hstage with ⟨hno, rfl⟩ | ⟨hzero, hall, -, hevaluated⟩
    · exact absurd hno hparsed
    have hmade : s'.made ≠ [] := by
      intro hnil
      rw [hevaluated.counted.run, hnil] at hrun
      exact hrun rfl
    have hruns : 0 < runs object := by
      refine Nat.pos_of_ne_zero fun hnone => hmade ?_
      exact hevaluated.made hnone
    have hlength : 0 < s'.made.length := List.length_pos_of_ne_nil hmade
    obtain ⟨hshort, hfew⟩ := hjudged hall hruns (Nat.lt_of_lt_of_le hlength hmost)
    have hfailsle : fails s'.made ≤ s'.made.length := List.countP_le_length
    have hthrew := hevaluated.threw
    have hnone : fails s'.made + s'.threw = 0 := by
      refine eq_zero_of_word ?_ ?_
      · show fails s'.made + s'.threw < 2 ^ 32
        have : s'.made.length ≤ most := hmost
        have : s'.threw ≤ runs object := hthrew
        omega
      · rw [← hevaluated.counted.failed]
        exact not_not.mp hfailed
    refine ⟨?_, hmade, ?_⟩
    · intro i hi hjs
      show _ ∈ s'.compiled
      rw [hevaluated.same.2, ← sourceOf_whole (hshort i hi hjs)]
      exact (hcompiled.scripts hzero i (List.mem_range.mpr hi)).2 hjs
    · intro k hk
      have hheld := List.countP_eq_zero.mp (Nat.eq_zero_of_add_eq_zero_right hnone) k hk
      simpa using hheld

/-! ### The condition is needed -/

/-- An engine for which every source compiles, and of which the first evaluation makes these
checks. -/
def staged (first : List Check) (throws : Bool) : Engine Bool where
  create := some true
  compile ctx _ _ := (ctx, true)
  evaluate ctx _ _ := (false, if ctx then first else [], throws)

/-- What the second pass leaves with that engine. -/
structure Staged (object : SealedObject) (first : List Check) (throws : Bool)
    (done : List (Bytes × Nat)) (s : Progress Bool) : Prop where
  ctx : s.ctx = decide (finds object done = 0)
  made : s.made = if finds object done = 0 then [] else first
  threw : s.threw = if throws then finds object done else 0

theorem Staged.turn {first : List Check} {throws : Bool} {done : List (Bytes × Nat)}
    {t : Progress Bool} {turn : Bytes × Nat} (h : Staged object first throws done t) :
    Staged object first throws (done ++ [turn])
      (if entryName (record object turn.2) = some turn.1 then
        t.evaluate (staged first throws) turn.1 (sourceOf object (record object turn.2))
      else t) := by
  obtain ⟨hctx, hmade, hthrew⟩ := h
  by_cases hfound : entryName (record object turn.2) = some turn.1
  · rw [if_pos hfound]
    refine ⟨?_, ?_, ?_⟩
    · rw [finds_append, if_pos hfound]
      rfl
    · rw [finds_append, if_pos hfound, if_neg (Nat.succ_ne_zero _)]
      show t.made ++ (if t.ctx then first else []) = first
      rw [hmade, hctx]
      by_cases hnone : finds object done = 0
      · simp [hnone]
      · simp [hnone]
    · rw [finds_append, if_pos hfound]
      show (if throws then t.threw + 1 else t.threw) = _
      rw [hthrew]
      cases throws <;> rfl
  · rw [if_neg hfound]
    refine ⟨?_, ?_, ?_⟩
    · rwa [finds_append, if_neg hfound, Nat.add_zero]
    · rwa [finds_append, if_neg hfound, Nat.add_zero]
    · rwa [finds_append, if_neg hfound, Nat.add_zero]

theorem staged_ended (hrefused : ¬ Refused config (header object))
    (hinside : ∀ i < (header object).count.toNat, Inside object (record object i))
    (hall : ∀ i < (header object).count.toNat, Passes object i) (hruns : 0 < runs object)
    (first : List Check) (throws : Bool) :
    ∃ ended, toolMain (staged first throws) config object = some ended ∧ ended.made = first
      ∧ (∀ p ∈ ended.compiled, p.2.1 = sourceOf object (record object p.1))
      ∧ (UInt32.ofNat first.length ≠ 0 →
        UInt32.ofNat (fails first + if throws then runs object else 0) = 0 → ended.code = 0) := by
  obtain ⟨s', hs', s, hcompiled, hstage⟩ := passes_passed (staged first throws) true
    (count_le hrefused) fun i hi _ => hinside i hi
  obtain ⟨hzero, hctx⟩ := hcompiled.yielding (fun _ _ _ => rfl) fun i hi =>
    hall i (List.mem_range.mp hi)
  rcases hstage with ⟨hno, -⟩ | ⟨-, -, hloop, hevaluated⟩
  · exact absurd hzero hno
  obtain ⟨t, ht, hstaged⟩ : ∃ t, (turns (header object).count.toNat).foldlM
      (evaluateEntry (staged first throws) object) s = some t
      ∧ Staged object first throws (turns (header object).count.toNat) t := by
    refine foldlM_keeps (fun done t => Staged object first throws done t) ?_ ?_
    · exact ⟨hctx, hcompiled.checks.2.1,
        hcompiled.checks.2.2.trans (by cases throws <;> rfl)⟩
    · intro done _ turn hturn t ht
      have hlt := mem_turns hturn
      have hle := count_le hrefused
      exact ⟨_, evaluateEntry_eq (by omega) (hinside _ hlt), ht.turn⟩
  obtain rfl : t = s' := some.inj (ht.symm.trans hloop)
  have hmade : t.made = first := hstaged.made.trans (if_neg (Nat.ne_of_gt hruns))
  refine ⟨t.ended, ?_, hmade, ?_, fun hran hfailed => ?_⟩
  · rw [toolMain_eq hrefused rfl, hs']
    rfl
  · intro p hp
    have hmem : p ∈ s.compiled := hevaluated.same.2 ▸ hp
    exact (hcompiled.only p hmem).resolve_left List.not_mem_nil
  · refine if_neg ?_
    rintro (hbad | hbad | hbad)
    · exact hbad (hevaluated.same.1.trans hzero)
    · rw [hevaluated.counted.failed, hmade, hstaged.threw] at hbad
      exact hbad hfailed
    · rw [hevaluated.counted.run, hmade] at hbad
      exact hran hbad

theorem inside_of_judges (h : ∀ engine : Engine Bool, Judges engine config object most)
    (hrefused : ¬ Refused config (header object)) {i : Nat}
    (hi : i < (header object).count.toNat) (hpasses : Passes object i) :
    Inside object (record object i) := by
  by_contra houtside
  obtain ⟨ended, hended, -⟩ := h (staged [] false)
  have hle := count_le hrefused
  rw [toolMain_eq hrefused rfl] at hended
  unfold passes at hended
  rw [foldlM_none (List.mem_range.mpr hi) fun s =>
    compileEntry_outside (by omega) hpasses houtside] at hended
  cases hended

theorem length_wrapped (flags : UInt32) :
    ∃ more, ∀ body, (wrapped body flags).length = body.length + more := by
  by_cases hflag : flags &&& candidateFlagFunctionBody ≠ 0
  · refine ⟨(ascii "(function()\x7b").length + (ascii "\n\x7d)").length, fun body => ?_⟩
    unfold wrapped
    rw [if_pos hflag, List.length_append, List.length_append]
    omega
  · refine ⟨0, fun body => ?_⟩
    unfold wrapped
    rw [if_neg hflag]
    rfl

theorem sourceOf_cut (hinside : Inside object e) (h : sourceMax < e.length.toNat) :
    sourceOf object e ≠ wrapped (content object e) e.flags := by
  intro heq
  obtain ⟨more, hmore⟩ := length_wrapped e.flags
  have hlength := congrArg List.length heq
  have hcontent : (content object e).length = e.length.toNat := by
    unfold content
    rw [List.length_take, List.length_drop]
    rcases hinside.content with hzero | hle <;> omega
  unfold sourceOf at hlength
  rw [hmore, hmore, List.length_take, hcontent] at hlength
  omega

/-- **The condition is needed.** -/
theorem sound_of_judges (h : ∀ engine : Engine Bool, Judges engine config object most) :
    Sound config object most := by
  intro hrefused
  refine ⟨fun i hi hpasses => inside_of_judges h hrefused hi hpasses, ?_⟩
  intro hall hruns hmost
  have hinside : ∀ i < (header object).count.toNat, Inside object (record object i) :=
    fun i hi => inside_of_judges h hrefused hi (hall i hi)
  have hfew : runs object ≤ 2 * candidateEntries := by
    have hle := count_le hrefused
    refine List.countP_le_length.trans ?_
    unfold turns
    simp only [List.length_flatMap, List.length_map, List.length_range, List.map_cons,
      List.map_nil, List.sum_cons, List.sum_nil]
    omega
  constructor
  · -- one check that holds, and everything compiles
    intro i hi hjs
    refine Nat.le_of_not_lt fun hlong => ?_
    obtain ⟨ended, hended, hmade, honly, hcode⟩ := staged_ended hrefused hinside hall hruns
      [⟨true, none⟩] false
    obtain ⟨ended', hended', hproper⟩ := h (staged [⟨true, none⟩] false)
    obtain rfl : ended = ended' := some.inj (hended.symm.trans hended')
    have hwhole := (hproper (by rw [hmade]; exact hmost) (hcode (by decide) rfl)).compiled
      i hi hjs
    exact sourceOf_cut (hinside i hi) hlong (honly _ hwhole).symm
  · -- so many failures that a word does not show them
    refine Nat.lt_of_not_le fun hmany => ?_
    let first : List Check := List.replicate (2 ^ 32 - runs object) ⟨false, none⟩
    have hlength : first.length = 2 ^ 32 - runs object := List.length_replicate
    have hfails : fails first = 2 ^ 32 - runs object := by
      unfold fails
      rw [List.countP_replicate]
      rfl
    have hsmall : runs object < 2 ^ 32 := by
      unfold candidateEntries at hfew
      omega
    obtain ⟨ended, hended, hmade, -, hcode⟩ := staged_ended hrefused hinside hall hruns first true
    obtain ⟨ended', hended', hproper⟩ := h (staged first true)
    obtain rfl : ended = ended' := some.inj (hended.symm.trans hended')
    have hran : UInt32.ofNat first.length ≠ 0 := by
      intro hword
      have := eq_zero_of_word (by omega) hword
      omega
    have hword : UInt32.ofNat (fails first + if true then runs object else 0) = 0 := by
      rw [if_pos rfl, hfails, Nat.sub_add_cancel (by omega)]
      rfl
    have hheld := (hproper (by rw [hmade]; omega) (hcode hran hword)).held ⟨false, none⟩ (by
      rw [hmade]
      exact List.mem_replicate.mpr ⟨by omega, rfl⟩)
    cases hheld

theorem judges_iff (config : Config) (object : SealedObject) (most : Nat) :
    (∀ (Ctx : Type) (engine : Engine Ctx), Judges engine config object most)
      ↔ Sound config object most :=
  ⟨fun h => sound_of_judges fun engine => h Bool engine, fun h _ _ => judges_of_sound h⟩

/-! ### What the work has written -/

theorem listsAll_getElem {out : Bytes} {names : List Entry} {place : Nat}
    (h : ListsAll out index names place) (k : Nat) (hk : k < names.length) :
    ∃ p, Lists out (index + k) names[k] p ∧ p + names[k].bytes.length ≤ stopOf names place := by
  induction names generalizing index place k with
  | nil => cases hk
  | cons e rest ih =>
    cases k with
    | zero => exact ⟨place, h.1, le_stopOf rest _⟩
    | succ k =>
      obtain ⟨p, hlists, hstop⟩ := ih h.2 k (Nat.lt_of_succ_lt_succ hk)
      rw [Nat.add_assoc, Nat.add_comm 1] at hlists
      exact ⟨p, hlists, hstop⟩

theorem named_take {name : Bytes} (h : name.length ≤ 32) :
    (named name).toList.take name.length = name := by
  apply List.ext_getElem
  · rw [List.length_take, Vector.length_toList]
    omega
  · intro k hk hk'
    rw [List.getElem_take, Vector.getElem_toList]
    unfold named
    rw [Vector.getElem_ofFn, List.getD_eq_getElem _ _ hk']

theorem flagsOf_bit (name : Bytes) :
    decide (flagsOf name &&& candidateFlagFunctionBody ≠ 0)
      = decide (name = ascii "program.js") := by
  unfold flagsOf
  by_cases h : name = ascii "program.js"
  · rw [if_pos h, decide_eq_true h]
    rfl
  · rw [if_neg h, decide_eq_false h]
    rfl

theorem record_of_lists {x : Entry} {p : Nat} (h : Lists object.bytes index x p) :
    record object index = recordOf x p := by
  unfold record
  rw [h.record, CandidateEntry.layout.decode_encode]

variable {tree : Wire.Digest}
variable {w : Workspace} {seed : UInt64}

theorem header_of_presents {total : Nat} (h : Presents object w seed tree total) :
    header object = headerOf w seed total tree := by
  unfold header
  rw [h.header, CandidateHeader.layout.decode_encode]

theorem count_of_presents {total : Nat} (h : Presents object w seed tree total) :
    (header object).count.toNat = w.entries.length := by
  have hle := w.length_le
  have hmax : maxEntries = 8 := rfl
  rw [header_of_presents h]
  exact toNat_ofNat_of_lt' (by show w.entries.length < 2 ^ 32; omega)

/-- **The tool reads the names, the contents and the flags that the work has written.** -/
theorem entries_of_presents {total : Nat}
    (h : Presents object w seed tree total) (htotal : total ≤ candidateMax) :
    entries object
      = w.entries.map fun x => (x.name, x.bytes, decide (x.name = ascii "program.js")) := by
  unfold entries
  rw [count_of_presents h]
  apply List.ext_getElem
  · rw [List.length_map, List.length_map, List.length_range]
  · intro k hk hk'
    rw [List.length_map] at hk'
    obtain ⟨p, hlists, hstop⟩ := listsAll_getElem h.lists k hk'
    have hname := names_short w _ (List.getElem_mem hk')
    have hmax : candidateMax = 16384 := rfl
    rw [← h.total] at hstop
    have hoffset : (UInt64.ofNat p).toNat = p :=
      UInt64.toNat_ofNat_of_lt' (by show p < 2 ^ 64; omega)
    have hlength : (UInt64.ofNat w.entries[k].bytes.length).toNat = w.entries[k].bytes.length :=
      UInt64.toNat_ofNat_of_lt' (by show _ < 2 ^ 64; omega)
    have hnameLen : (UInt32.ofNat w.entries[k].name.length).toNat = w.entries[k].name.length :=
      toNat_ofNat_of_lt' (by show _ < 2 ^ 32; omega)
    rw [Nat.zero_add] at hlists
    rw [List.getElem_map, List.getElem_map, List.getElem_range, record_of_lists hlists]
    refine Prod.ext ?_ (Prod.ext ?_ ?_)
    · show (named _).toList.take (UInt32.ofNat _).toNat = _
      rw [hnameLen, named_take hname]
    · show (object.bytes.drop (UInt64.ofNat p).toNat).take (UInt64.ofNat _).toNat = _
      rw [hoffset, hlength, hlists.content]
    · exact flagsOf_bit _

/-- **The tool can be relied on exactly for the objects that meet the condition, and reads of what
the work assembles what its workspace holds.** -/
theorem validation_exact (config : Config) (object : SealedObject) (most : Nat) :
    ((∀ (Ctx : Type) (engine : Engine Ctx), Judges engine config object most)
      ↔ Sound config object most)
    ∧ ∀ (sha : Sha Wire.Digest) (w : Workspace) (seed : UInt64)
        (scratch : Vector UInt8 candidateMax) (out : Bytes × Nat),
      (assemble sha w seed scratch.toList).run = some (.ok out) →
        ∃ h : out.2 ≤ out.1.length, entries (sealedObject out.1 out.2 h)
          = w.entries.map fun x => (x.name, x.bytes, decide (x.name = ascii "program.js")) := by
  refine ⟨judges_iff config object most, fun sha w seed scratch out hrun => ?_⟩
  obtain ⟨h, tree, htotal, hpresents⟩ :=
    (meets_assemble sha w seed scratch.length_toList).of_ok hrun
  exact ⟨h, entries_of_presents hpresents htotal⟩

/-! ### A content that wraps -/

def wrappingHeader : CandidateHeader :=
  ⟨candidateMagicLow, 1, 1, 0, 7, 8, Vector.replicate 32 0⟩

/-- A content of sixteen bytes that starts eight bytes before the end of the address space. -/
def wrappingEntry : CandidateEntry :=
  ⟨0xFFFFFFFFFFFFFFF8, 16, 4, 0, named (ascii "a.js")⟩

def wrappingObject : SealedObject where
  bytes := CandidateHeader.layout.encode wrappingHeader
    ++ (CandidateEntry.layout.encode wrappingEntry ++ List.replicate 3976 0)
  pages := 1
  pages_pos := Nat.one_pos
  length_bytes := by
    rw [List.length_append, List.length_append, CandidateHeader.layout.length_encode,
      CandidateEntry.layout.length_encode, List.length_replicate]
    rfl

theorem wrappingObject_header : header wrappingObject = wrappingHeader := by
  have hsize : (CandidateHeader.layout.encode wrappingHeader).length = candidateHeaderSize :=
    CandidateHeader.layout.length_encode _
  unfold header wrappingObject
  rw [List.take_left' hsize, CandidateHeader.layout.decode_encode]

theorem wrappingObject_record : record wrappingObject 0 = wrappingEntry := by
  have hsize : (CandidateHeader.layout.encode wrappingHeader).length = recordAt 0 :=
    CandidateHeader.layout.length_encode _
  have hrecord : (CandidateEntry.layout.encode wrappingEntry).length = candidateEntrySize :=
    CandidateEntry.layout.length_encode _
  unfold record wrappingObject
  rw [List.drop_left' hsize, List.take_left' hrecord, CandidateEntry.layout.decode_encode]

/-- **The sum of an offset and a length wraps, and the tool reads outside of the object.** -/
theorem wrapping_entry_is_read :
    ¬ ∀ (Ctx : Type) (engine : Engine Ctx), Judges engine ⟨8, 7⟩ wrappingObject 1 := by
  intro h
  have hrefused : ¬ Refused ⟨8, 7⟩ (header wrappingObject) := by
    rw [wrappingObject_header]
    decide
  have hinside : Inside wrappingObject (record wrappingObject 0) := by
    refine inside_of_judges (h Bool) hrefused ?_ ?_
    · rw [wrappingObject_header]
      decide
    · unfold Passes
      rw [wrappingObject_header, wrappingObject_record]
      decide
  have hcontent := hinside.content
  rw [wrappingObject_record, wrappingObject.length_bytes] at hcontent
  exact absurd hcontent (by decide)

end Ncheck

end Thalyx
