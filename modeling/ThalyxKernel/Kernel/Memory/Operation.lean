/-
The operations that more than one processor has a part in, as paths of moves.

A mapping that fails is the hard one.  Its pages are in the space while other processors walk,
and then they are out of it again.  The path leaves them out throughout: a processor that
walked one of them is a move of its own, `ghost`, and everything else the processors do is the
same with the pages and without.
-/
import ThalyxKernel.Kernel.Memory.Route

namespace Thalyx.Kernel.Memory

open AddressSpace (pageSize)
open Allocator (Same inRun Drains)

variable {care : Care} {s s' : State} {x y : Midway} {t u : Tables}

/-! ### Walks in the middle of a mapping -/

/-- Two tables between which a processor can tell the difference only by walking: `u` has
`extra` pages of the domain in front. -/
structure Overlaid (t u : Tables) (d : DomainId) (space : AddressSpace)
    (extra : List (Nat × Nat × PageRights)) : Prop where
  state : ∀ e, (u.domains e).state = (t.domains e).state
  housed : ∀ e, (u.domains e).space.isSome = (t.domains e).space.isSome
  other : ∀ e, e ≠ d → (u.domains e).space = (t.domains e).space
  below : (t.domains d).space = some space
  above : (u.domains d).space = some { space with leaves := extra ++ space.leaves }
  kernel : u.kernel = t.kernel

theorem alone_withTables (h : ∀ e, (u.domains e).state = (s.tables.domains e).state ∧
      (u.domains e).space.isSome = (s.tables.domains e).space.isSome)
    (hk : u.kernel = s.tables.kernel) (a : State.Alone) (hwalk : ∀ c page, a = .walk c page →
      (s.withTables u).translates c page = s.translates c page) :
    (s.withTables u).alone a = (s.alone a).withTables u := by
  cases a with
  | note c d =>
    have hiff : ((s.withTables u).free c ∧ ((s.withTables u).tables.domains d).state = .runnable ∧
        ((s.withTables u).tables.domains d).space.isSome) ↔
        (s.free c ∧ (s.tables.domains d).state = .runnable ∧ (s.tables.domains d).space.isSome) := by
      show (s.free c ∧ (u.domains d).state = .runnable ∧ (u.domains d).space.isSome) ↔ _
      rw [(h d).1, (h d).2]
    simp only [State.alone, hiff]
    split <;> rfl
  | rest c =>
    simp only [State.alone]
    have hfree : (s.withTables u).free c = s.free c := rfl
    rw [hfree]
    split <;> rfl
  | switch c =>
    have hswitch : (s.withTables u).switch c = (s.switch c).withTables u := by
      have hn : ((s.withTables u).cpus c).next = (s.cpus c).next := rfl
      have hl : ((s.withTables u).cpus c).loaded = (s.cpus c).loaded := rfl
      unfold State.switch
      rw [hn, hl]
      cases (s.cpus c).next with
      | none => rfl
      | some target =>
        simp only
        rw [apply_ite fun v : State => v.withTables u]
        congr 1
        cases (s.cpus c).loaded <;> rfl
    simp only [State.alone, hswitch]
    by_cases hon : (s.cpus c).online = true
    · rw [if_pos hon, if_pos (show ((s.withTables u).cpus c).online = true from hon)]
    · rw [if_neg hon, if_neg (show ¬ ((s.withTables u).cpus c).online = true from hon)]
  | refresh c =>
    have hrefresh : (s.withTables u).refresh c = (s.refresh c).withTables u := by
      unfold State.refresh
      rw [apply_ite fun v : State => v.withTables u]
      rfl
    simp only [State.alone, hrefresh]
    by_cases hon : (s.cpus c).online = true
    · rw [if_pos hon, if_pos (show ((s.withTables u).cpus c).online = true from hon)]
    · rw [if_neg hon, if_neg (show ¬ ((s.withTables u).cpus c).online = true from hon)]
  | walk c page =>
    rw [State.alone, State.alone, hwalk c page rfl]
    cases s.translates c page with
    | none => rfl
    | some leaf =>
      by_cases hon : (s.cpus c).online = true
      · simp only [if_pos hon, if_pos (show ((s.withTables u).cpus c).online = true from hon)]
        rfl
      · simp only [if_neg hon, if_neg (show ¬ ((s.withTables u).cpus c).online = true from hon)]
  | walkKernel c page =>
    have hlookup : (s.withTables u).tables.kernel.leaves.lookup page =
        s.tables.kernel.leaves.lookup page := by
      simp only [State.withTables, hk]
    rw [State.alone, State.alone, hlookup]
    cases s.tables.kernel.leaves.lookup page with
    | none => rfl
    | some leaf =>
      by_cases hon : (s.cpus c).online = true
      · simp only [if_pos hon, if_pos (show ((s.withTables u).cpus c).online = true from hon)]
        rfl
      · simp only [if_neg hon, if_neg (show ¬ ((s.withTables u).cpus c).online = true from hon)]

variable {d : DomainId}
variable {space : AddressSpace} {extra : List (Nat × Nat × PageRights)}

/-- **What the processors do above an overlay they do below it, walks of its pages apart.** -/
theorem path_alone_overlaid (h : Overlaid s.tables u d space extra)
    {i : MemoryId} (hi : (s.tables.objects i).state ≠ .empty)
    (hextra : ∀ e ∈ extra, inRun (s.tables.objects i).base (s.tables.objects i).pages e.2.1 ∧
      (e.2.2.write = true → (s.tables.objects i).state = .writable)) (a : State.Alone)
    (hcare : care.translations → ∀ c page, a = .walk c page → extra.lookup page = none) :
    ∃ s', s'.tables = s.tables ∧ Path care (s, .idle) (s', .idle) ∧
      (s.withTables u).alone a = s'.withTables u := by
  have hplain : (∀ c page, a = .walk c page →
      (s.withTables u).translates c page = s.translates c page) →
      ∃ s', s'.tables = s.tables ∧ Path care (s, .idle) (s', .idle) ∧
        (s.withTables u).alone a = s'.withTables u := fun hwalk =>
    ⟨s.alone a, alone_tables s a, .single (.alone a),
      alone_withTables (fun e => ⟨h.state e, h.housed e⟩) h.kernel a hwalk⟩
  cases a with
  | walk c page =>
    by_cases hl : (s.cpus c).loaded = some d
    · have habove : (s.withTables u).translates c page =
          (extra ++ space.leaves).lookup page := by
        simp [State.translates, State.withTables, hl, h.above]
      have hbelow : s.translates c page = space.leaves.lookup page := by
        simp [State.translates, hl, h.below]
      cases he : extra.lookup page with
      | none =>
        refine hplain fun c' page' hw => ?_
        obtain ⟨rfl, rfl⟩ := State.Alone.walk.inj hw
        rw [habove, hbelow, List.lookup_append, he, Option.none_or]
      | some leaf =>
        obtain ⟨f, rights⟩ := leaf
        rw [List.lookup_append, he, Option.some_or] at habove
        by_cases hon : (s.cpus c).online = true
        · obtain ⟨hf, hw⟩ := hextra _ (mem_of_lookup he)
          refine ⟨s.setCpu c fun p => { p with cache := (page, f, rights) :: p.cache }, rfl,
            .single (.ghost (fun ht => ?_) rfl hon hl hi hf hw), ?_⟩
          · rw [hcare ht c page rfl] at he
            cases he
          · rw [State.alone, habove]
            exact if_pos hon
        · refine ⟨s, rfl, .refl, ?_⟩
          rw [State.alone, habove]
          exact if_neg hon
    · refine hplain fun c' page' hw => ?_
      obtain ⟨rfl, rfl⟩ := State.Alone.walk.inj hw
      unfold State.translates
      simp only [State.withTables]
      cases hd : (s.cpus c).loaded with
      | none => rfl
      | some e =>
        have hne : e ≠ d := fun he => hl (by rw [hd, he])
        simp only [Option.bind_some, h.other e hne]
  | _ => exact hplain fun _ _ hw => by cases hw

theorem path_meanwhile_overlaid (h : Overlaid s.tables u d space extra)
    {i : MemoryId} (hi : (s.tables.objects i).state ≠ .empty)
    (hextra : ∀ e ∈ extra, inRun (s.tables.objects i).base (s.tables.objects i).pages e.2.1 ∧
      (e.2.2.write = true → (s.tables.objects i).state = .writable))
    (me : Cpu) (between : List State.Alone)
    (hcare : care.translations → ∀ c page, State.Alone.walk c page ∈ between →
      extra.lookup page = none) :
    ∃ s', s'.tables = s.tables ∧ Path care (s, .idle) (s', .idle) ∧
      (s.withTables u).meanwhile me between = s'.withTables u := by
  unfold State.meanwhile
  have hcare' : care.translations → ∀ c page, State.Alone.walk c page ∈
      (between.filter fun a => a.walks || a.cpu != me) → extra.lookup page = none :=
    fun ht c page hm => hcare ht c page (List.mem_filter.mp hm).1
  generalize between.filter (fun a => a.walks || a.cpu != me) = steps at hcare'
  induction steps generalizing s with
  | nil => exact ⟨s, rfl, .refl, rfl⟩
  | cons a rest ih =>
    obtain ⟨s1, ht1, hp1, he1⟩ := path_alone_overlaid h hi hextra a
      fun ht c page ha => hcare' ht c page (ha ▸ List.mem_cons_self)
    rw [← ht1] at h hi hextra
    obtain ⟨s2, ht2, hp2, he2⟩ := ih h hi hextra
      fun ht c page hm => hcare' ht c page (List.mem_cons_of_mem _ hm)
    exact ⟨s2, ht2.trans ht1, hp1.trans hp2, by rw [List.foldl_cons, he1, he2]⟩

/-! ### Mapping -/

/-- The pages of a mapping that fails are not walked before they are taken out again. -/
def State.Unwalked (request : MapRequest) (between : List State.Alone) : Prop :=
  ∀ c page, State.Alone.walk c page ∈ between → ¬ inPages request.vaddr request.pageCount page

theorem Goes.rollbackMap {vaddr installed : Nat} {bare : Tables}
    (h : t.removeRun d vaddr installed = bare) :
    Goes care s x bare (t.rollbackMap d vaddr installed) := by
  unfold Tables.rollbackMap
  rw [h]
  exact .trans (.release _ _ _) (.release _ _ _)

/-- **`domainops::map`.** -/
theorem path_map (hh : s.tables.Housed) {i : MemoryId} (hi : (s.tables.objects i).state ≠ .empty)
    (me : Cpu) (d : DomainId) (capRights : Rights) (request : MapRequest)
    (between : List State.Alone) (hcare : care.translations → State.Unwalked request between) :
    Path care (s, .idle) ((s.map me d i capRights request between).1, .idle) := by
  unfold State.map
  split
  · exact .refl
  rename_i rights m hchecks
  obtain ⟨hcount, hstate, hrights, hwrite, hfits, haligned, hbelow, hunused⟩ := mapChecks_ok hchecks
  obtain ⟨space, hspace⟩ := hh d hstate
  split
  · rename_i t ht
    exact reserveMap_refused ht
  rename_i t ht
  obtain ⟨⟨scopes, hcalm, rfl⟩, hopened⟩ := reserveMap_ok ht
  have hreserved : Goes care s .idle s.tables { s.tables with scopes } := .scopes hcalm
  simp only
  split
  · rename_i t n hrun
    obtain ⟨p, hgoes, rfl, hleaves, hclear, -, hall, -⟩ :=
      installRun_spec (t := { s.tables with scopes }) care .idle hspace hrun
    obtain rfl := hall rfl
    refine hreserved.trans (hgoes.trans (.recordMap (i := i) rfl hleaves ?_))
    exact
      { unused := hunused
        inSpace := Tables.at_space _ _ _
        state := by simpa [Tables.at, Tables.setSpace, Tables.setDomain] using hstate
        object := hi, fits := hfits, nonempty := hcount, aligned := haligned, below := hbelow
        allowed := hrights, writable := hwrite, clear := hclear
        opened := fun j hj => by
          refine (hcalm j).1.trans (hopened j ?_)
          rw [← Scopes.chain_congr fun k => (hcalm k).2.1]
          simpa [Tables.at, Tables.setSpace, Tables.setDomain] using hj }
  · rename_i t n e hrun
    obtain ⟨p, hgoes, rfl, hleaves, hclear, hle, -, -⟩ :=
      installRun_spec (t := { s.tables with scopes }) care .idle hspace hrun
    -- Everything but the entries has happened; the processors go on, above and below.
    let bare := Tables.at { s.tables with scopes } d ({ p.1 with leaves := space.leaves }, p.2)
    have hover : Overlaid (s.withTables bare).tables
        (Tables.at { s.tables with scopes } d p) d { p.1 with leaves := space.leaves }
        (entries request.vaddr ((s.tables.objects i).base + request.offsetPages) rights n) := by
      refine ⟨fun e => ?_, fun e => ?_, fun e he => ?_, Tables.at_space _ _ _, ?_, rfl⟩
      · by_cases he : e = d
        · subst he
          simp [bare, State.withTables, Tables.at, Tables.setSpace, Tables.setDomain]
        · simp [bare, State.withTables, Tables.at, Tables.setSpace, Tables.setDomain, he]
      · by_cases he : e = d
        · subst he
          simp [bare, State.withTables]
        · simp [bare, State.withTables, Tables.at, Tables.setSpace, Tables.setDomain, he]
      · simp [bare, State.withTables, Tables.at, Tables.setSpace, Tables.setDomain, he]
      · rw [Tables.at_space, ← hleaves]
    have hextra : ∀ e ∈ entries request.vaddr ((s.tables.objects i).base + request.offsetPages)
        rights n, inRun (s.tables.objects i).base (s.tables.objects i).pages e.2.1 ∧
          (e.2.2.write = true → (s.tables.objects i).state = .writable) := by
      intro e he
      obtain ⟨k, hk, rfl⟩ := mem_entries.mp he
      refine ⟨?_, hwrite⟩
      simp only [inRun]
      omega
    obtain ⟨s1, ht1, hp1, he1⟩ := @path_meanwhile_overlaid care _ _ _ _ _ hover _ hi hextra me
      between fun ht c page hm => lookup_none_of_not_mem fun hp => by
        have hin := entries_keys.mp hp
        refine hcare ht c page hm ?_
        simp only [inPages, inRun] at hin ⊢
        omega
    have hend : Goes care s1 .idle bare
        ((Tables.at { s.tables with scopes } d p).rollbackMap d request.vaddr n) :=
      .rollbackMap (removeRun_at haligned hbelow hle hleaves hclear)
    have hbare : s1.withTables bare = s1 := by
      rw [← show (s.withTables bare).tables = bare from rfl, ← ht1]
      rfl
    unfold Goes at hend
    rw [hbare] at hend
    have hall := ((Relation.ReflTransGen.trans hreserved hgoes).trans hp1).trans hend
    have hreal : ({ s with tables := Tables.at { s.tables with scopes } d p } : State) =
        (s.withTables bare).withTables (Tables.at { s.tables with scopes } d p) := rfl
    rw [hreal, he1]
    exact hall

/-! ### Unmapping, sealing and stopping -/

variable {c me : Cpu}

/-- **`domainops::unmap`, up to the wait.** -/
theorem path_unmap (hf : s.free me = true) (d : DomainId) (vaddr pages : Nat) :
    Path care (s, x) ((s.unmap me d vaddr pages).1, x) := by
  unfold State.unmap
  split
  · exact .refl
  rename_i m hm
  have hfound := List.find?_some hm
  simp only [Bool.and_eq_true, beq_iff_eq] at hfound
  obtain ⟨⟨⟨⟨hused, hdomain⟩, -⟩, -⟩, -⟩ := hfound
  have hmove : Move care (s, x) ((s.withdrawDeferring me m).1, x) := .withdraw me hused
  obtain ⟨hlive, hcpus⟩ := withdrawDeferring_cpus s me m
  have htables := withdrawDeferring_tables s me m hused
  simp only
  generalize hu : s.withdrawDeferring me m = r at hmove hlive hcpus htables
  obtain ⟨u, memory⟩ := r
  simp only at hmove hlive hcpus htables ⊢
  obtain ⟨cache, hcpu⟩ := hcpus me
  refine Relation.ReflTransGen.tail (.single hmove) (.startUnmap ?_ ?_ ?_)
  · simp only [State.free, hcpu] at hf ⊢
    exact hf
  · intro c hc
    rw [hlive]
    simp only [State.holders, Bool.and_eq_true] at hc
    exact hc.1
  · intro hme
    have hout : s.inSpace me d = false := by
      simp only [State.holders, beq_self_eq_true, Bool.true_and, Bool.and_eq_true,
        Bool.not_eq_true'] at hme
      exact hme.2
    have hsome : ((u.tables.domains d).space.isSome) = (s.tables.domains d).space.isSome := by
      rw [htables, withdraw_domains, hdomain]
      simp [Tables.removeRun, Tables.setDomain]
    simp only [State.inSpace, hcpu, hsome] at hout ⊢
    exact hout

/-- **`memops::seal`, up to the wait.** -/
theorem path_beginSeal (hf : s.free me = true) (i : MemoryId) :
    Path care (s, .idle) ((s.beginSeal me i).1, .idle) := by
  have hseal : (s.tables.objects i).state = .writable ∨ (s.tables.objects i).state = .sealing →
      (s.tables.objects i).dmaGrants = 0 →
      let v := { s with
        tables := s.tables.setObject i fun object => { object with state := .sealing } }
      Path care (s, .idle) ((v.withdrawWriters me i (s.tables.objects i).generation).setCpu me
        fun p => { p with pending := .sealing i (s.tables.objects i).generation none }, .idle) := by
    intro hs hd v
    have hgenv : (v.tables.objects i).generation = (s.tables.objects i).generation := by
      simp [v, Tables.setObject]
    have hbegin : Move care (s, .idle) (v, { Midway.idle with shut := some i }) := .beginSeal hs hd
    obtain ⟨hpath, -, hnone, hfree, hgen⟩ := withdrawAll care { Midway.idle with shut := some i }
      me (fun record => record.used = true ∧ record.memory = i ∧
        record.memoryGeneration = (s.tables.objects i).generation ∧
        record.rights &&& Right.memoryWrite ≠ 0#32) (fun _ h => h.1) (List.finRange maxMaps) v
    change Path care _ (v.withdrawWriters me i (s.tables.objects i).generation, _) at hpath
    change ∀ m ∈ _, ¬ _ at hnone
    generalize hu : v.withdrawWriters me i (s.tables.objects i).generation = u at hpath
    have hu' := hu
    unfold State.withdrawWriters at hu'
    simp only [hu'] at hnone hfree hgen
    have hshut : Move care (u, { Midway.idle with shut := some i }) (u, .idle) := by
      refine .shut rfl fun m hused hm hg => ?_
      by_contra hw
      exact hnone m (List.mem_finRange m) ⟨hused, hm, hg.trans ((hgen i).trans hgenv), hw⟩
    have hstart : Move care (u, .idle) _ := .startSeal (i := i) ((hfree me).trans hf)
    rw [hgen i, hgenv] at hstart
    exact ((Relation.ReflTransGen.head hbegin hpath).tail hshut).tail hstart
  unfold State.beginSeal
  simp only
  cases hs : (s.tables.objects i).state with
  | empty => exact .refl
  | sealed => exact .refl
  | writable =>
    simp only
    split
    · exact .refl
    · rename_i hd
      exact hseal (.inl hs) (not_not.mp hd)
  | sealing =>
    simp only
    split
    · exact .refl
    · rename_i hd
      exact hseal (.inr hs) (not_not.mp hd)

/-- What an unmap that ends acknowledged has to meet: the object it collects has been flushed,
on the code's own test or because all that was withdrawn from it was withdrawn by this unmap. -/
def State.Flushed (s : State) (me : Cpu) (timedOut : Bool) : Prop :=
  ∀ target i generation withdrawn noted published mask,
    (s.cpus me).pending =
      .unmapping target (some (i, generation)) withdrawn noted (some ⟨published, some mask⟩) →
    (timedOut = false ∨ ∀ c, mask c = true → c = me) → s.tables.collectable i = true →
    s.immediate i false = true ∨ s.ackSafe i generation withdrawn noted = true

variable {generation stamp : Nat}

theorem path_collectHeard {i : MemoryId} {withdrawn : Nat}
    {noted : Cpu → Bool} (hh : s.Heard me i generation withdrawn noted)
    (hcare : care.translations → s.tables.collectable i = true →
      s.immediate i false = true ∨ s.ackSafe i generation withdrawn noted = true) :
    Path care (s, x)
      ((s.setCpu me fun p => { p with pending := .none }).collectMemory i true, x) := by
  unfold State.collectMemory
  have hsettle : ∀ u : State, Move care (u, x) (u.setCpu me fun p => { p with pending := .none }, x) :=
    fun _ => .settle me
  split
  · rename_i hc
    have hnow : (s.setCpu me fun p => { p with pending := .none }).immediate i true = true := by
      simp [State.immediate]
    rw [if_pos hnow]
    have hcollect : Move care (s, x) _ := .collectHeard hc hh fun ht => hcare ht hc
    exact (Relation.ReflTransGen.head hcollect (Goes.credited i true 0)).tail (hsettle _)
  · exact .single (hsettle s)

theorem path_finishSeal {i : MemoryId} {published : Nat} {mask : Cpu → Bool} {acknowledged : Bool}
    (hp : (s.cpus me).pending = .sealing i generation (some ⟨published, some mask⟩))
    (hh : acknowledged = true → ∀ c, mask c = true → published ≤ (s.cpus c).seen) :
    Path care (s, x)
      (((s.setCpu me fun p => { p with pending := .none }).finishSeal i generation
        acknowledged).1, x) := by
  have hsettle : ∀ u : State, Move care (u, x) (u.setCpu me fun p => { p with pending := .none }, x) :=
    fun _ => .settle me
  unfold State.finishSeal
  simp only
  split
  · exact .single (hsettle s)
  rename_i hlive
  split
  · exact .single (hsettle s)
  rename_i hmaps
  split
  · exact .single (hsettle s)
  rename_i hack
  rw [not_or, not_not] at hlive
  obtain ⟨hgen, hstate⟩ := hlive
  have hsealable : s.Sealable me i := by
    refine ⟨published, mask, ?_, hh (by simpa using hack)⟩
    rw [hp, ← hgen]
    rfl
  have hseal : Move care (s, x) _ := .finishSeal hstate (not_not.mp hmaps) hsealable
  exact (Relation.ReflTransGen.single hseal).tail (hsettle _)

/-- **The end of a wait.** -/
theorem path_finish {timedOut : Bool} (hcare : care.translations → s.Flushed me timedOut)
    (h : s.finish me timedOut = some s') : Path care (s, x) (s', x) := by
  unfold State.finish at h
  simp only at h
  have hsettle : Path care (s, x) (s.setCpu me fun p => { p with pending := .none }, x) :=
    .single (.settle me)
  have heard : ∀ {mask : Cpu → Bool} {g : Nat}, s.heard mask g = true →
      ∀ c, mask c = true → g ≤ (s.cpus c).seen := by
    intro mask g hall c hc
    have := List.all_eq_true.mp hall c (List.mem_finRange c)
    simpa [hc] using this
  split at h
  · rename_i target memory withdrawn noted published mask hpending
    obtain ⟨hended, h⟩ := Option.ite_none_right_eq_some.mp h
    cases memory with
    | none =>
      obtain rfl := Option.some.inj h
      exact hsettle
    | some object =>
      obtain ⟨i, g⟩ := object
      obtain rfl := Option.some.inj h
      cases hacked : ((List.finRange maxCpus).all fun c => !mask c || c == me) || !timedOut with
      | false => exact hsettle.trans (path_collectMemory i)
      | true =>
        have hend : timedOut = false ∨ ∀ c, mask c = true → c = me := by
          rcases Bool.or_eq_true_iff.mp hacked with halone | htime
          · refine .inr fun c hc => ?_
            have := List.all_eq_true.mp halone c (List.mem_finRange c)
            simpa [hc] using this
          · exact .inl (by simpa using htime)
        refine path_collectHeard ⟨target, published, mask, hpending, ?_⟩
          fun ht hc => hcare ht target i g withdrawn noted _ _ hpending hend hc
        rcases hend with htime | halone
        · rcases hended with halone | htimed | hheard
          · refine .inl fun c hc => ?_
            have := List.all_eq_true.mp halone c (List.mem_finRange c)
            simpa [hc] using this
          · rw [htime] at htimed
            cases htimed
          · exact .inr (heard hheard)
        · exact .inl halone
  · rename_i i g published mask hpending
    obtain ⟨hended, ⟨⟩⟩ := Option.ite_none_right_eq_some.mp h
    refine path_finishSeal hpending fun hack => ?_
    rcases hended with htimed | hheard
    · simp [htimed] at hack
    · exact heard hheard
  · cases h

/-- **`terminate_in`.** -/
theorem path_terminate
    (hd : (s.tables.domains d).state = .building ∨ (s.tables.domains d).state = .runnable)
    (me : Cpu) (faulted : Bool) : Path care (s, .idle) (s.terminate me d faulted, .idle) := by
  have hstop : Move care (s, .idle) ({ s with
      tables := s.tables.setDomain d fun domain =>
        { domain with state := if faulted then .faulted else .stopping } },
      { Midway.idle with dying := some d }) :=
    .stop rfl hd (by cases faulted <;> simp)
  obtain ⟨hpath, -, hnone, -, -⟩ := withdrawAll care { Midway.idle with dying := some d } me
    (fun record => record.used = true ∧ record.domain = d) (fun _ h => h.1) (List.finRange maxMaps)
    { s with
      tables := s.tables.setDomain d fun domain =>
        { domain with state := if faulted then .faulted else .stopping } }
  refine (Relation.ReflTransGen.head hstop hpath).tail (.stopped rfl fun m hused hm => ?_)
  exact hnone m (List.mem_finRange m) ⟨hused, hm⟩

/-! ### Reaping -/

/-- No processor stands in a domain's space or is on its way there, and none can set out. -/
def State.Left (s : State) (d : DomainId) : Prop :=
  (s.tables.domains d).state ≠ .runnable ∧
    ∀ c, (s.cpus c).online = true → (s.cpus c).loaded ≠ some d ∧ (s.cpus c).next ≠ some (some d)

theorem State.Left.setCpu (h : s.Left d) (c : Cpu) {f : Processor → Processor}
    (hon : (f (s.cpus c)).online = (s.cpus c).online) (hf : (s.cpus c).online = true →
      (f (s.cpus c)).loaded ≠ some d ∧ (f (s.cpus c)).next ≠ some (some d)) :
    (s.setCpu c f).Left d := by
  refine ⟨h.1, fun c' hon' => ?_⟩
  by_cases hc : c' = c
  · subst hc
    simp only [State.setCpu, Function.update_self] at hon' ⊢
    exact hf (hon ▸ hon')
  · simp only [State.setCpu, Function.update_of_ne hc] at hon' ⊢
    exact h.2 c' hon'

variable {a : State.Alone}

theorem State.Left.does (h : s.Left d) (ha : s.Does a s') : s'.Left d := by
  cases ha with
  | still a => exact h
  | note _ hd _ =>
    refine State.Left.setCpu ?_ _ rfl fun hon => ⟨(h.2 _ hon).1, fun he => ?_⟩
    · exact h
    · obtain rfl := Option.some.inj (Option.some.inj he)
      exact h.1 hd
  | rest _ => exact h.setCpu _ rfl fun hon => ⟨(h.2 _ hon).1, fun he => by cases he⟩
  | stay _ _ => exact h.setCpu _ rfl fun hon => ⟨(h.2 _ hon).1, fun he => by cases he⟩
  | move hon hn _ =>
    refine State.Left.setCpu ?_ _ rfl fun _ =>
      ⟨fun he => (h.2 _ hon).2 (he ▸ hn), fun he => by cases he⟩
    exact h
  | refresh _ _ => exact h.setCpu _ rfl fun hon => h.2 _ hon
  | walk _ _ => exact h.setCpu _ rfl fun hon => h.2 _ hon
  | walkKernel _ _ => exact h.setCpu _ rfl fun hon => h.2 _ hon

/-- A processor that flushes between the generation a stack is retired at and the removal of
its pages does not walk them. -/
def State.Unkept (slot : KstackId) (between : List State.Alone) : Prop :=
  ∀ c, State.Alone.refresh c ∉ between ∨
    ∀ k, State.Alone.walkKernel c (Tables.kstackPage slot k / pageSize) ∉ between

/-- A processor that has not flushed since a kernel generation was taken. -/
def State.Behind (s : State) (stamp : Nat) (c : Cpu) : Prop :=
  (s.cpus c).seen < stamp ∧ (s.cpus c).seenKernel < s.kernelGeneration

/-- What one processor can still hold of a stack whose generation is taken. -/
def State.Retiring (s : State) (slot : KstackId) (stamp : Nat) (c : Cpu) : Prop :=
  s.Behind stamp c ∨
    ∀ entry ∈ (s.cpus c).kernelCache, ∀ k, entry.1 ≠ Tables.kstackPage slot k / pageSize

theorem State.Does.clocks (h : s.Does a s') :
    s'.generation = s.generation ∧ s'.kernelGeneration = s.kernelGeneration := by
  cases h <;> exact ⟨rfl, rfl⟩

theorem State.Does.other (h : s.Does a s') (hc : c ≠ a.cpu) : s'.cpus c = s.cpus c := by
  cases h with
  | still a => rfl
  | _ => exact Function.update_of_ne hc _ _

theorem State.Behind.does (hb : s.Behind stamp c)
    (h : s.Does a s') (ha : a ≠ .refresh c) : s'.Behind stamp c := by
  unfold State.Behind at hb ⊢
  rw [h.clocks.2]
  by_cases hc : c = a.cpu
  · subst hc
    cases h with
    | still a => exact hb
    | refresh _ _ => exact absurd rfl ha
    | _ => simpa [State.setCpu, State.Alone.cpu] using hb
  · rwa [h.other hc]

variable {slot : KstackId}

theorem State.Retiring.does (hr : s.Retiring slot stamp c) (h : s.Does a s')
    (ha : ∀ k, a ≠ .walkKernel c (Tables.kstackPage slot k / pageSize)) :
    s'.Retiring slot stamp c := by
  by_cases hc : c = a.cpu
  · subst hc
    cases h with
    | still a => exact hr
    | refresh hon hg =>
      refine .inr fun entry he k => ?_
      simp only [State.setCpu, State.Alone.cpu, Function.update_self] at he
      split at he
      · cases he
      · rename_i hk
        rcases hr with hb | hnone
        · exact absurd hb.2 hk
        · exact hnone entry he k
    | @walkKernel c page f rights hon ht =>
      refine hr.imp (fun hb => ?_) fun hnone entry he k => ?_
      · simpa [State.Behind, State.setCpu, State.Alone.cpu] using hb
      · simp only [State.setCpu, State.Alone.cpu, Function.update_self] at he
        rcases List.mem_cons.mp he with rfl | he
        · exact fun hk => ha k (by rw [← hk]; rfl)
        · exact hnone entry he k
    | _ =>
      simpa [State.Retiring, State.Behind, State.setCpu, State.Alone.cpu] using hr
  · unfold State.Retiring State.Behind at hr ⊢
    rwa [h.other hc, h.clocks.2]

theorem path_meanwhile (me : Cpu) (between : List State.Alone) :
    Path care (s, x) (s.meanwhile me between, x) :=
  path_foldl _ fun _ a => .single (.alone a)

theorem meanwhile_keeps {P : State → Prop} (me : Cpu) (between : List State.Alone)
    (hstep : ∀ s a s', a ∈ between → P s → s.Does a s' → P s') (hs : P s) :
    P (s.meanwhile me between) := by
  unfold State.meanwhile
  have hsub : ∀ a ∈ between.filter (fun a => a.walks || a.cpu != me), a ∈ between :=
    fun a ha => (List.mem_filter.mp ha).1
  generalize between.filter (fun a => a.walks || a.cpu != me) = steps at hsub
  induction steps generalizing s with
  | nil => exact hs
  | cons a rest ih =>
    exact ih (hstep s a _ (hsub a List.mem_cons_self) hs (alone_does s a))
      fun b hb => hsub b (List.mem_cons_of_mem _ hb)

/-- **A stack's pages are out of every processor's reach when they are retired.** -/
theorem meanwhile_retiring {between : List State.Alone} (hu : State.Unkept slot between) (me : Cpu)
    (hb : s.Behind stamp c) : (s.meanwhile me between).Retiring slot stamp c := by
  rcases hu c with hflush | hwalk
  · exact .inl (meanwhile_keeps me between (P := fun s => s.Behind stamp c)
      (fun _ _ _ ha hb h => hb.does h fun he => hflush (he ▸ ha)) hb)
  · exact meanwhile_keeps me between (P := fun s => s.Retiring slot stamp c)
      (fun _ _ _ ha hr h => hr.does h fun k he => hwalk k (he ▸ ha)) (.inl hb)

/-- **`release_kernel_stack`.** -/
theorem path_releaseStack (me : Cpu) (slot : KstackId) (between : List State.Alone)
    (hc : care.translations → s.Clocked) (hu : care.translations → State.Unkept slot between) :
    Path care (s, x) (s.releaseStack me slot between, x) := by
  unfold State.releaseStack
  simp only
  have hpublish : Move care (s, x) (s.publishKernel, x) := .publishKernel
  have hmid := Relation.ReflTransGen.head hpublish (path_meanwhile me between)
  have hgen : (s.publishKernel.meanwhile me between).generation = s.generation + 1 :=
    meanwhile_keeps me between (P := fun u => u.generation = s.generation + 1)
      (fun _ _ _ _ hu h => h.clocks.1.trans hu) rfl
  have hretiring : care.translations → ∀ c, (s.cpus c).online = true →
      (s.publishKernel.meanwhile me between).Retiring slot (s.generation + 1) c := by
    intro ht c hon
    refine meanwhile_retiring (hu ht) me ?_
    obtain ⟨hseen, hkernel⟩ := hc ht c hon
    exact ⟨Nat.lt_succ_of_le hseen, Nat.lt_succ_of_le hkernel⟩
  have honline : ∀ c, ((s.publishKernel.meanwhile me between).cpus c).online = (s.cpus c).online :=
    meanwhile_keeps me between (P := fun u => ∀ c, (u.cpus c).online = (s.cpus c).online)
      (fun _ a _ _ hu h c => by
        rw [← hu c]
        by_cases hca : c = a.cpu
        · subst hca
          cases h <;> simp [State.setCpu, State.Alone.cpu]
        · rw [h.other hca]) fun _ => rfl
  have hstamp : s.publishKernel.generation = s.generation + 1 := rfl
  rw [hstamp]
  generalize s.publishKernel.meanwhile me between = u at hmid hgen hretiring honline
  have hdrop : Goes care u x u.tables (u.tables.releaseStack slot (s.generation + 1)) := by
    unfold Tables.releaseStack
    split
    · refine Goes.trans (.foldl _ fun t k => .dropStackPage (le_of_eq hgen.symm) fun ht c hon => ?_)
        (.quiet { Tables.Quiet.refl _ with maps := rfl })
      rw [honline] at hon
      exact (hretiring ht c hon).imp id fun hnone entry he => hnone entry he k
    · exact .refl _
  have hevict : Move care (u.withTables (u.tables.releaseStack slot (s.generation + 1)), x) _ :=
    .evict me (fun _ => true) fun entry =>
      !((List.range kstackPages).any fun k =>
        State.releaseStack.kstackPageNumber slot k == entry.1)
  simp only [List.filter_true] at hevict
  exact (hmid.trans hdrop).tail hevict

/-- What the release of a stack leaves alone. -/
structure Untouched (t u : Tables) : Prop where
  domains : u.domains = t.domains
  deviceMaps : u.deviceMaps = t.deviceMaps

theorem Untouched.trans {v : Tables} (h : Untouched t u) (h' : Untouched u v) : Untouched t v :=
  ⟨h'.domains.trans h.domains, h'.deviceMaps.trans h.deviceMaps⟩

theorem dropStackPage_untouched (slot : KstackId) (t : Tables) (stamp k : Nat) :
    Untouched t (Tables.dropStackPage slot t stamp k) := by
  unfold Tables.dropStackPage
  split <;> exact ⟨rfl, rfl⟩

theorem releaseStack_untouched (s : State) (me : Cpu) (slot : KstackId)
    (between : List State.Alone) : Untouched s.tables (s.releaseStack me slot between).tables := by
  unfold State.releaseStack
  have hmid : (s.publishKernel.meanwhile me between).tables = s.tables :=
    meanwhile_keeps me between (P := fun u => u.tables = s.tables)
      (fun _ _ _ _ hu h => h.tables.trans hu) rfl
  have hfold : ∀ (l : List Nat) (t : Tables) (stamp : Nat), Untouched t
      (l.foldl (fun t k => Tables.dropStackPage slot t stamp k) t) := by
    intro l
    induction l with
    | nil => exact fun _ _ => ⟨rfl, rfl⟩
    | cons k rest ih =>
      exact fun t stamp => (dropStackPage_untouched slot t stamp k).trans (ih _ stamp)
  have hrelease : ∀ (t : Tables) (stamp : Nat), Untouched t (t.releaseStack slot stamp) := by
    intro t stamp
    unfold Tables.releaseStack
    split
    · obtain ⟨hd, hm⟩ := hfold (List.range kstackPages) t stamp
      exact ⟨hd, hm⟩
    · exact ⟨rfl, rfl⟩
  have hall := hrelease (s.publishKernel.meanwhile me between).tables s.publishKernel.generation
  rw [hmid] at hall
  simp only [State.setCpu, hmid]
  exact hall

theorem releaseStack_left (h : s.Left d) (me : Cpu) (slot : KstackId)
    (between : List State.Alone) : (s.releaseStack me slot between).Left d := by
  have hmid : (s.publishKernel.meanwhile me between).Left d :=
    meanwhile_keeps me between (P := fun u => u.Left d) (fun _ _ _ _ hu h => hu.does h) h
  have hdomains := (releaseStack_untouched s me slot between).domains
  have hcpus : ∀ c, ((s.releaseStack me slot between).cpus c).online =
        ((s.publishKernel.meanwhile me between).cpus c).online ∧
      ((s.releaseStack me slot between).cpus c).loaded =
        ((s.publishKernel.meanwhile me between).cpus c).loaded ∧
      ((s.releaseStack me slot between).cpus c).next =
        ((s.publishKernel.meanwhile me between).cpus c).next := by
    intro c
    unfold State.releaseStack
    by_cases hc : c = me
    · subst hc
      simp [State.setCpu]
    · simp [State.setCpu, hc]
  refine ⟨?_, fun c hon => ?_⟩
  · rw [hdomains]
    exact h.1
  · obtain ⟨ho, hl, hn⟩ := hcpus c
    rw [hl, hn]
    exact hmid.2 c (ho ▸ hon)

theorem path_releaseStacks (me : Cpu) (between : KstackId → List State.Alone)
    (hu : care.translations → ∀ slot, State.Unkept slot (between slot)) (slots : List KstackId)
    (s : State) (hc : care.translations → s.Clocked) (hl : s.Left d) :
    let u := slots.foldl (fun s slot => s.releaseStack me slot (between slot)) s
    Path care (s, x) (u, x) ∧ u.Left d ∧ Untouched s.tables u.tables := by
  induction slots generalizing s with
  | nil => exact ⟨.refl, hl, rfl, rfl⟩
  | cons slot rest ih =>
    have hone : Path care (s, x) (s.releaseStack me slot (between slot), x) :=
      path_releaseStack me slot _ hc fun ht => hu ht slot
    obtain ⟨hpath, hleft, hsame⟩ := ih _ (fun ht => hone.clocked (hc ht))
      (releaseStack_left hl me slot (between slot))
    exact ⟨hone.trans hpath, hleft, (releaseStack_untouched s me slot _).trans hsame⟩

theorem path_reapSpace (threads : Nat)
    (hstate : (s.tables.domains d).state = .faulted ∨ (s.tables.domains d).state = .stopping)
    (hw : s.tables.Windowless d) (hl : s.Left d) :
    Path care (s, .idle) (s.publish.publish.withTables
      (s.tables.reapSpace d threads (s.generation + 1)), .idle) := by
  have hdestroy : Move care (s, .idle) _ := .destroy rfl hstate hw hl.2
  refine Relation.ReflTransGen.head hdestroy ?_
  have hgone : ((s.tables.destroySpace d (s.generation + 1)).domains d).space = none ∧
      ((s.tables.destroySpace d (s.generation + 1)).domains d).state =
        (s.tables.domains d).state := by
    unfold Tables.destroySpace
    split
    · rename_i hnone
      exact ⟨hnone, rfl⟩
    · simp [Tables.setDomain]
  unfold Tables.reapSpace
  simp only
  generalize s.tables.destroySpace d (s.generation + 1) = v at hgone
  rw [← hgone.2] at hstate
  generalize s.publish.publish = w
  have hcredit : Goes care w .idle v
      ((v.release (v.domains d).ownerScope .memoryPages (v.domains d).reservedPages).release
        (v.domains d).ownerScope .metadata (v.domains d).reservedMetadata) :=
    .trans (.release _ _ _) (.release _ _ _)
  have hthreads := hcredit.trans (.scopes (calm_set _ (v.domains d).ownerScope
    (f := fun node => { node with threads := node.threads - max threads 1 })
    fun _ => ⟨rfl, rfl, rfl⟩))
  have haccounts := hthreads.trans (.domain d
    (f := fun domain => { domain with reservedPages := 0, reservedMetadata := 0 }) ⟨rfl, rfl, rfl⟩)
  refine Relation.ReflTransGen.trans haccounts (.single ?_)
  generalize hz : Tables.setDomain _ d
    (fun domain => { domain with reservedPages := 0, reservedMetadata := 0 }) = z
  have hzd : (z.domains d).space = (v.domains d).space ∧ (z.domains d).state = (v.domains d).state := by
    rw [← hz]
    simp [Tables.setDomain, Tables.release]
  have hbury : Move care (w.withTables z, .idle) _ :=
    .bury (d := d) rfl (by rw [State.withTables, hzd.2]; exact hstate) (hzd.1.trans hgone.1)
  rw [← hz] at hbury ⊢
  simpa [Tables.setDomain, State.withTables] using hbury

theorem Tables.Windowless.congr (h : t.Windowless d)
    (hm : u.deviceMaps = t.deviceMaps) (hg : (u.domains d).generation = (t.domains d).generation) :
    u.Windowless d := by
  intro m hu hd hgen
  rw [hm] at hu hd hgen ⊢
  exact h m hu hd (hgen.trans hg)

/-- **`reap_dead`.** -/
theorem path_reap (hr : s.reapable d = true)
    (between : KstackId → List State.Alone) (hw : s.tables.Windowless d)
    (hc : care.translations → s.Clocked)
    (hu : care.translations → ∀ slot, State.Unkept slot (between slot)) :
    Path care (s, .idle) (s.reap me d between, .idle) := by
  simp only [State.reapable, Bool.and_eq_true, Bool.or_eq_true, beq_iff_eq, List.all_eq_true,
    List.mem_finRange, forall_const, Bool.not_eq_true', bne_iff_ne] at hr
  obtain ⟨⟨hspace, hstate⟩, hcpus⟩ := hr
  have hleft : s.Left d := by
    refine ⟨?_, fun c hon => ?_⟩
    · rcases hstate with h | h <;> simp [h]
    · rcases hcpus c with hoff | hout
      · rw [hoff] at hon
        cases hon
      · exact hout
  obtain ⟨hpath, hleft', hsame⟩ := path_releaseStacks (x := .idle) me between hu
    (s.tables.domains d).kstacks s hc hleft
  unfold State.reap
  simp only
  generalize (s.tables.domains d).kstacks.foldl
    (fun s slot => s.releaseStack me slot (between slot)) s = u at hpath hleft' hsame
  have hstacks : Goes care u .idle u.tables
      (u.tables.setDomain d fun domain => { domain with kstacks := [] }) :=
    .domain d ⟨rfl, rfl, rfl⟩
  refine hpath.trans (Relation.ReflTransGen.trans hstacks ?_)
  generalize hv : u.tables.setDomain d (fun domain => { domain with kstacks := [] }) = v
  have hdomain : (v.domains d).state = (s.tables.domains d).state ∧
      (v.domains d).generation = (s.tables.domains d).generation := by
    rw [← hv, ← hsame.domains]
    simp [Tables.setDomain]
  have hmaps : v.deviceMaps = s.tables.deviceMaps := by
    rw [← hv, ← hsame.deviceMaps]
    rfl
  rw [← hdomain.1] at hstate
  refine path_reapSpace (s := u.withTables v) _ hstate (hw.congr hmaps hdomain.2) ⟨?_, hleft'.2⟩
  rw [State.withTables, hdomain.1, ← hsame.domains]
  exact hleft'.1

/-! ### Scopes -/

theorem takeScopeSlot_goes (care : Care) (s : State) (x : Midway) {unnamed : ScopeId → Bool}
    {i : ScopeId} (h : t.takeScopeSlot unnamed = (u, some i)) :
    Goes care s x t u ∧ (u.scopes i).state = .empty := by
  unfold Tables.takeScopeSlot at h
  split at h
  · rename_i j hj
    simp only [Prod.mk.injEq, Option.some.injEq] at h
    obtain ⟨rfl, rfl⟩ := h
    exact ⟨.refl _, by simpa using List.find?_some hj⟩
  split at h
  · rename_i j hj
    simp only [Prod.mk.injEq, Option.some.injEq] at h
    obtain ⟨rfl, rfl⟩ := h
    have hretired := List.find?_some hj
    simp only [Tables.retiredCollectable, Bool.and_eq_true, beq_iff_eq, Bool.not_eq_true']
      at hretired
    obtain ⟨⟨⟨hstate, -⟩, -⟩, hchild⟩ := hretired
    -- The parent's count of children is quiet, and so is the quarantine's owner.
    have hreset : ∀ scopes : Scopes, Calm t.scopes scopes → Goes care s x t
        { t with
          allocator := t.allocator.reassignQuarantine (.scope j) .kernel
          scopes := scopes.reset j } := by
      intro scopes hcalm
      have hquiet : Goes care s x t { t with
          allocator := t.allocator.reassignQuarantine (.scope j) .kernel, scopes } :=
        .trans (.same (Allocator.reassign_same _ _ _))
          (.scopes (t := { t with
            allocator := t.allocator.reassignQuarantine (.scope j) .kernel }) hcalm)
      refine hquiet.trans (.move (.resetScope ((hcalm j).1.trans hstate) ?_))
      have hnone : ∀ k, ((scopes k).state != .empty && (scopes k).parent == some j) =
          ((t.scopes k).state != .empty && (t.scopes k).parent == some j) := by
        intro k
        rw [(hcalm k).1, (hcalm k).2.1]
      show scopes.hasChild j = false
      rw [← hchild]
      simp only [Scopes.hasChild, hnone]
    refine ⟨?_, by simp [Scopes.reset, Scopes.set, Scope.empty]⟩
    cases (t.scopes j).parent with
    | none => exact hreset _ (Calm.refl _)
    | some p => exact hreset _ (calm_set _ _ fun _ => ⟨rfl, rfl, rfl⟩)
  · cases h

/-- **`create_child`.** -/
theorem Goes.createChild (parent : ScopeId) (limits : Limits) (unnamed : ScopeId → Bool) :
    Goes care s x t (t.createChild parent limits unnamed).1 := by
  unfold Tables.createChild
  split
  · exact .refl _
  split
  · exact .refl _
  simp only
  split
  · rename_i u hu
    -- A slot that is not found leaves the tables as they were.
    have hsame : u = t := by
      unfold Tables.takeScopeSlot at hu
      split at hu
      · cases hu
      split at hu
      · cases hu
      · exact (Prod.mk.inj hu).1.symm
    exact .of_eq hsame.symm
  · rename_i u i hu
    obtain ⟨hslot, hempty⟩ := takeScopeSlot_goes care s x hu
    split
    · exact hslot
    rename_i scopes hscopes
    have hcalm := calm_reserve hscopes
    split
    · exact hslot.trans (.scopes (hcalm.trans (calm_release _ _ _ _)))
    · refine (hslot.trans (.scopes hcalm)).trans ?_
      have hopen : Move care (s.withTables { u with scopes }, x) _ :=
        @Move.openScope _ _ _ _ parent u.nextObjectId ((t.scopes parent).depth + 1) limits
          ((hcalm i).1.trans hempty) fun j hj => by
            refine (hcalm j).1.trans (reserve_opened hscopes j ?_)
            rw [← Scopes.chain_congr fun k => (hcalm k).2.1]
            exact hj
      have hchild := Relation.ReflTransGen.trans (.single hopen) (Goes.scopes (calm_set _ parent
        (f := fun node => { node with children := node.children + 1 }) fun _ => ⟨rfl, rfl, rfl⟩))
      exact Relation.ReflTransGen.trans hchild (Goes.spendId _)

/-- **`advance_quiescence`.** -/
theorem Goes.advance : Goes care s x t t.advance := by
  have hfold : ∀ (l : List ScopeId) (t : Tables), Goes care s x t { t with
      scopes := l.foldl
        (fun scopes i => if scopes.drained i then scopes.setState i .quiescent else scopes)
        t.scopes } := by
    intro l
    induction l with
    | nil => exact fun t => .refl t
    | cons i rest ih =>
      intro t
      rw [List.foldl_cons]
      split
      · rename_i h
        exact .trans (.move (.quiesce h)) (ih { t with scopes := t.scopes.setState i .quiescent })
      · exact ih t
  exact hfold _ t

/-- What a retirement has to meet as far as devices go. -/
def Tables.Ungranted (t : Tables) (root : ScopeId) : Prop :=
  ∀ i, (t.objects i).state ≠ .empty → t.scopes.isWithin root (t.objects i).sponsor = true →
    (t.objects i).mapCount = 0 → (t.objects i).dmaGrants = 0

/-- What it has to meet as far as translations go: the withdrawals of every object it frees have
been flushed. -/
def State.Settled (s : State) (root : ScopeId) : Prop :=
  ∀ i, (s.tables.objects i).state ≠ .empty →
    s.tables.scopes.isWithin root (s.tables.objects i).sponsor = true →
    (s.tables.objects i).mapCount = 0 → s.immediate i false = true

theorem collect_rest (t : Tables) (i : MemoryId) :
    Calm t.scopes (t.collect i true 0).scopes ∧ ∀ j,
      ((t.collect i true 0).objects j).state = .empty ∨
        (t.collect i true 0).objects j = t.objects j := by
  refine ⟨(calm_release _ _ _ _).trans (calm_release _ _ _ _), fun j => ?_⟩
  by_cases hj : j = i
  · subst hj
    exact .inl (by simp [Tables.collect, Tables.emptyObject, Tables.setObject, Object.empty])
  · exact .inr (by
      simp [Tables.collect, Tables.emptyObject, Tables.setObject, Tables.release, hj])

/-- **`scopeops::retire`.** -/
theorem Goes.retire {root : ScopeId} (hq : (t.scopes root).state = .quiescent)
    (hd : care.devices → t.Ungranted root)
    (ht : care.translations → (s.withTables t).Settled root) : Goes care s x t (t.retire root) := by
  have hfold : ∀ (l : List MemoryId) (t : Tables), (care.devices → t.Ungranted root) →
      (care.translations → (s.withTables t).Settled root) →
      Goes care s x t (l.foldl (Tables.releaseSponsored root) t) ∧
        Calm t.scopes (l.foldl (Tables.releaseSponsored root) t).scopes := by
    intro l
    induction l with
    | nil => exact fun t _ _ => ⟨.refl t, Calm.refl _⟩
    | cons i rest ih =>
      intro t hd ht
      rw [List.foldl_cons]
      unfold Tables.releaseSponsored
      simp only
      split
      · exact ih t hd ht
      rename_i hkeep
      simp only [not_or, Bool.not_eq_true', Bool.not_eq_false, not_not] at hkeep
      obtain ⟨hstate, hwithin, hmaps⟩ := hkeep
      have hfree : Move care (s.withTables t, x) _ :=
        .retireObject (i := i) hstate hmaps (fun h => hd h i hstate hwithin hmaps)
          fun h => ht h i hstate hwithin hmaps
      have hone : Goes care s x t (t.collect i true 0) :=
        Relation.ReflTransGen.head hfree (Goes.credited i true 0)
      obtain ⟨hcalm, hobjects⟩ := collect_rest t i
      have hwithin' : ∀ j, (t.collect i true 0).scopes.isWithin root (t.objects j).sponsor =
          t.scopes.isWithin root (t.objects j).sponsor := fun j => by
        simp only [Scopes.isWithin, Scopes.chain_congr fun k => (hcalm k).2.1]
      obtain ⟨hgoes, hrest⟩ := ih (t.collect i true 0)
        (fun h j hj hw hm => by
          rcases hobjects j with he | he
          · exact absurd he hj
          · rw [he] at hj hw hm ⊢
            exact hd h j hj (hwithin' j ▸ hw) hm)
        (fun h j hj hw hm => by
          rcases hobjects j with he | he
          · exact absurd he hj
          · have hnow : (s.withTables (t.collect i true 0)).immediate j false =
                (s.withTables t).immediate j false := by
              simp only [State.immediate, State.withTables, he]
              rfl
            simp only [State.withTables, he] at hj hw hm
            rw [hnow]
            exact ht h j hj (hwithin' j ▸ hw) hm)
      exact ⟨hone.trans hgoes, hcalm.trans hrest⟩
  obtain ⟨hgoes, hcalm⟩ := hfold (List.finRange maxMemoryObjects) t hd ht
  unfold Tables.retire
  generalize (List.finRange maxMemoryObjects).foldl (Tables.releaseSponsored root) t = v
    at hgoes hcalm
  exact hgoes.trans (.move (.retireScopes ((hcalm root).1.trans hq)))

end Thalyx.Kernel.Memory
