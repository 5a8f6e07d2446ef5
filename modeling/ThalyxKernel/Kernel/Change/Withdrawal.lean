/-
The withdrawals: a queue gone through from its head, messages taken out on the way.

The loop remembers the last message it left in place and the next one to look at.  What it
has left in place and what it has still to look at make up the queue at every turn.
-/
import ThalyxKernel.Kernel.Change.Admission

namespace Thalyx.Kernel

open List

namespace Machine

variable {s t u : Machine} {e : EndpointId} {m : MessageId}

/-- Messages have been taken out of the queues and nothing else has happened to them. -/
structure Thinned (s t : Machine) : Prop where
  queued : t.Queued
  doors : ∀ e, (t.endpoints e).door = (s.endpoints e).door
  generation : t.generation = s.generation
  queue : ∀ e l, s.QueueOf e l → ∃ l', t.QueueOf e l' ∧ ∀ m ∈ l', m ∈ l ∧
    (t.messages m).cell = (s.messages m).cell ∧
    (t.invocations (s.messages m).invocation).work = (s.invocations (s.messages m).invocation).work

theorem Thinned.refl (hs : s.Queued) : Thinned s s :=
  ⟨hs, fun _ => rfl, rfl, fun _ l hl => ⟨l, hl, fun _ hm => ⟨hm, rfl, rfl⟩⟩⟩

theorem Thinned.trans (h : Thinned s t) (h' : Thinned t u) : Thinned s u where
  queued := h'.queued
  doors e := (h'.doors e).trans (h.doors e)
  generation := h'.generation.trans h.generation
  queue e l hl := by
    obtain ⟨l', hl', hsub⟩ := h.queue e l hl
    obtain ⟨l'', hl'', hsub'⟩ := h'.queue e l' hl'
    refine ⟨l'', hl'', fun m hm => ?_⟩
    obtain ⟨hm', hcell', hwork'⟩ := hsub' m hm
    obtain ⟨hm'', hcell, hwork⟩ := hsub m hm'
    have hsame : (t.messages m).invocation = (s.messages m).invocation :=
      congrArg Cell.invocation hcell
    rw [hsame] at hwork'
    exact ⟨hm'', hcell'.trans hcell, hwork'.trans hwork⟩

theorem Thinned.of_removed {before after : List MessageId} (hs : s.Queued)
    (hq : s.QueueOf e (before ++ m :: after)) (h : s.Removed e before m after t) :
    Thinned s t where
  queued := h.queued hs hq
  doors := h.doors
  generation := h.generation
  queue e' l hl := by
    have hmem : m ∈ before ++ m :: after := by simp
    have hkept : ∀ m', (s.messages m').used = true → m' ≠ m →
        (t.messages m').cell = (s.messages m').cell ∧
        (t.invocations (s.messages m').invocation).work =
          (s.invocations (s.messages m').invocation).work := by
      intro m' hm' hne
      refine ⟨h.cells m' hne, h.others.kept _ (fun heq => hne ?_) (hs.carried m' hm').state⟩
      exact hs.invocation_inj (hq.used m hmem) hm' heq
    by_cases hee : e' = e
    · subst hee
      have hsame : l = before ++ m :: after := hl.chain.unique hq.chain
      have hnodup := hq.chain.nodup
      refine ⟨_, h.queueOf hs hq, fun m' hm' => ?_⟩
      have hin : m' ∈ before ∨ m' ∈ after := mem_append.mp hm'
      have hold : m' ∈ before ++ m :: after := by rcases hin with h | h <;> simp [h]
      have hne : m' ≠ m := by
        rintro rfl
        rw [nodup_append] at hnodup
        rcases hin with hin | hin
        · exact hnodup.2.2 m' hin m' (by simp) rfl
        · exact (nodup_cons.mp hnodup.2.1).1 hin
      exact ⟨hsame ▸ hold, hkept m' (hq.used m' hold) hne⟩
    · refine ⟨l, h.queueOf_other hs hq hee hl, fun m' hm' => ⟨hm', hkept m' (hl.used m' hm') ?_⟩⟩
      rintro rfl
      exact hee (hl.endpoint_unique hq hm' hmem)

/-! ### The loop over one queue -/

/-- A choice of messages by what the invocation says and by generations. -/
def Picks (pick : Machine → InvocationId → Bool) : Prop :=
  ∀ s t i, t.generation = s.generation → (t.invocations i).work = (s.invocations i).work →
    pick t i = pick s i

/-- No message of a queue is chosen. -/
def Clear (pick : Machine → InvocationId → Bool) (s : Machine) (e : EndpointId) : Prop :=
  ∀ l, s.QueueOf e l → ∀ m ∈ l, pick s (s.messages m).invocation = false

theorem Clear.thinned {pick : Machine → InvocationId → Bool} (hp : Picks pick)
    (h : Thinned s t) (hq : ∃ l, s.QueueOf e l) (hc : Clear pick s e) : Clear pick t e := by
  obtain ⟨l, hl⟩ := hq
  obtain ⟨l', hl', hsub⟩ := h.queue e l hl
  intro l'' hl'' m hm
  rw [hl''.chain.unique hl'.chain] at hm
  obtain ⟨hin, hcell, hwork⟩ := hsub m hm
  have hsame : (t.messages m).invocation = (s.messages m).invocation :=
    congrArg Cell.invocation hcell
  rw [hsame, hp s t _ h.generation hwork]
  exact hc l hl m hin

section Loop

variable {pick : Machine → InvocationId → Bool} {cancel : Cancel}
  {discharge : Machine → InvocationId → Machine}

/-- **The loop thins the queue out**, and leaves nothing it should have taken. -/
theorem withdrawFrom_thinned (pick : Machine → InvocationId → Bool) (cancel : Cancel)
    (hd : ∀ s i, Discharges i s (discharge s i)) (hs : s.Queued)
    {before rest : List MessageId} (hq : s.QueueOf e (before ++ rest)) {n : Nat}
    (hn : rest.length ≤ n) :
    Thinned s (withdrawFrom pick cancel discharge e n before.getLast? rest.head? s) ∧
      (Picks pick → (∀ m ∈ before, pick s (s.messages m).invocation = false) →
        Clear pick (withdrawFrom pick cancel discharge e n before.getLast? rest.head? s) e) := by
  have hdone : ∀ {s : Machine} {before : List MessageId}, s.QueueOf e (before ++ []) →
      (∀ m ∈ before, pick s (s.messages m).invocation = false) → Clear pick s e := by
    intro s before hq hb l hl m hm
    rw [hl.chain.unique hq.chain, append_nil] at hm
    exact hb m hm
  induction n generalizing s before rest with
  | zero =>
    obtain rfl : rest = [] := length_eq_zero_iff.mp (Nat.le_zero.mp hn)
    exact ⟨Thinned.refl hs, fun _ hb => hdone hq hb⟩
  | succ n ih =>
    cases rest with
    | nil => exact ⟨Thinned.refl hs, fun _ hb => hdone hq hb⟩
    | cons m after =>
      have hlength : after.length ≤ n := Nat.le_of_succ_le_succ hn
      have hnext : (s.messages m).next = after.head? := (hq.chain.suffix).2.head?
      rw [head?_cons]
      unfold withdrawFrom
      dsimp only
      rw [hnext]
      split
      · have hremoved := withdrawMessage_removed hq
          (hd (s.withdrawMessage e before.getLast? m cancel) (s.messages m).invocation)
        have hthin := Thinned.of_removed hs hq hremoved
        obtain ⟨hrest, hclear⟩ := ih hthin.queued (hremoved.queueOf hs hq) hlength
        refine ⟨hthin.trans hrest, fun hp hb => hclear hp ?_⟩
        intro m' hm'
        have hmem : m' ∈ before ++ m :: after := mem_append_left _ hm'
        have hne : m' ≠ m := by
          rintro rfl
          exact (nodup_append.mp hq.chain.nodup).2.2 m' hm' m' (by simp) rfl
        have hother : (s.messages m').invocation ≠ (s.messages m).invocation := fun heq =>
          hne (hs.invocation_inj (hq.used m (by simp)) (hq.used m' hmem) heq)
        have hwork := hremoved.others.kept _ hother (hs.carried m' (hq.used m' hmem)).state
        rw [show Message.invocation _ = (s.messages m').invocation from
          congrArg Cell.invocation (hremoved.cells m' hne),
          hp s _ _ hremoved.generation hwork]
        exact hb m' hm'
      · rename_i hpick
        have hq' : s.QueueOf e (before ++ [m] ++ after) := by
          rw [append_assoc, singleton_append]
          exact hq
        have hlast : (before ++ [m]).getLast? = some m := by simp
        obtain ⟨hrest, hclear⟩ := ih hs hq' hlength
        rw [hlast] at hrest hclear
        refine ⟨hrest, fun hp hb => hclear hp ?_⟩
        intro m' hm'
        rcases mem_append.mp hm' with hin | hin
        · exact hb m' hin
        · rw [mem_singleton.mp hin]
          simpa using hpick

/-! ### The loop over the endpoints -/

theorem withdrawFrom_head (pick : Machine → InvocationId → Bool) (cancel : Cancel)
    (hd : ∀ s i, Discharges i s (discharge s i)) (hs : s.Queued)
    (he : (s.endpoints e).used = true) :
    Thinned s (withdrawFrom pick cancel discharge e maxMessages none (s.endpoints e).head s) ∧
      (Picks pick → Clear pick
        (withdrawFrom pick cancel discharge e maxMessages none (s.endpoints e).head s) e) := by
  obtain ⟨l, hl⟩ := hs.queue e he
  have hlength : l.length ≤ maxMessages := by
    have hnodup := hl.chain.nodup
    simpa using hnodup.length_le_card
  have hq : s.QueueOf e ([] ++ l) := hl
  have hspec := withdrawFrom_thinned pick cancel hd hs hq hlength
  rw [← hl.chain.head?] at hspec
  exact ⟨hspec.1, fun hp => hspec.2 hp fun m hm => by cases hm⟩

/-- **All queues are thinned out**, and of what was to be taken nothing is left in any. -/
theorem withdrawAll_thinned (hd : ∀ s i, Discharges i s (discharge s i)) (hs : s.Queued) :
    Thinned s (s.withdrawAll pick cancel discharge) ∧
      (Picks pick → ∀ e, (s.endpoints e).used = true →
        Clear pick (s.withdrawAll pick cancel discharge) e) := by
  have hfold : ∀ (l : List EndpointId) (t : Machine), Thinned s t →
      Thinned s (l.foldl (fun s e => if (s.endpoints e).used then
        withdrawFrom pick cancel discharge e maxMessages none (s.endpoints e).head s else s) t) ∧
      (Picks pick → ∀ e, (s.endpoints e).used = true → (e ∈ l ∨ Clear pick t e) →
        Clear pick (l.foldl (fun s e => if (s.endpoints e).used then
          withdrawFrom pick cancel discharge e maxMessages none (s.endpoints e).head s else s) t)
          e) := by
    intro l
    induction l with
    | nil =>
      intro t ht
      refine ⟨ht, fun _ e _ hc => ?_⟩
      rcases hc with hc | hc
      · cases hc
      · exact hc
    | cons e' rest ih =>
      intro t ht
      rw [foldl_cons]
      have hused : ∀ e, (t.endpoints e).used = (s.endpoints e).used := fun e =>
        congrArg Door.used (ht.doors e)
      by_cases hu : (t.endpoints e').used = true
      · rw [if_pos hu]
        obtain ⟨hthin, hclear⟩ := withdrawFrom_head pick cancel hd ht.queued hu
        obtain ⟨hrest, hrest'⟩ := ih _ (ht.trans hthin)
        refine ⟨hrest, fun hp e hes hc => hrest' hp e hes ?_⟩
        by_cases hee : e = e'
        · subst hee
          exact .inr (hclear hp)
        · rcases hc with hc | hc
          · exact .inl ((mem_cons.mp hc).resolve_left hee)
          · refine .inr (hc.thinned hp hthin (ht.queued.queue e ?_))
            rw [hused e]
            exact hes
      · rw [if_neg hu]
        obtain ⟨hrest, hrest'⟩ := ih _ ht
        refine ⟨hrest, fun hp e hes hc => hrest' hp e hes ?_⟩
        rcases hc with hc | hc
        · rcases mem_cons.mp hc with rfl | hc
          · rw [hused e] at hu
            exact absurd hes hu
          · exact .inl hc
        · exact .inr hc
  obtain ⟨hthin, hclear⟩ := hfold (List.finRange maxEndpoints) s (Thinned.refl hs)
  exact ⟨hthin, fun hp e he => hclear hp e he (.inl (mem_finRange e))⟩

end Loop

end Machine

end Thalyx.Kernel
