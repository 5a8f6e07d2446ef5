/-
What a workspace says has changed: the flag `put` and `substitute` of
`user/k5work/src/tree.rs` keep on each entry, and the verb `cambios` that lists it.

The flag is meant to say whether the entry differs from the version the workspace was
forked from.  Neither operation looks at that version.  `put` compares with what the entry
holds at the time, which for a new name is the empty content of a fresh slot, and
`substitute` compares with nothing.  So there are exactly two ways for the flag to go
wrong: a name given the content it was forked with, by any edit that is not a `put` of
what is there already, is reported as changed; and a new name with nothing in it is not.

`Misses` names those edits, and a run in which there are none is one whose flags are right
in every state it goes through.
-/
import ThalyxKernel.Work.Answers

namespace Thalyx.Work

open List

namespace Workspace

/-! ### The entry of a name -/

/-- The entry of a name. -/
def entry (w : Workspace) (name : Bytes) : Option Entry :=
  w.entries.find? fun e => e.name == name

variable {w : Workspace} {name n bytes : Bytes} {e : Entry}

theorem read_eq (w : Workspace) (name : Bytes) : w.read name = (w.entry name).map Entry.bytes := rfl

theorem name_of_entry (h : w.entry name = some e) : e.name = name := by
  simpa using find?_some h

theorem mem_of_entry (h : w.entry name = some e) : e ∈ w.entries := mem_of_find?_eq_some h

theorem entry_of_mem (h : e ∈ w.entries) : w.entry e.name = some e := by
  cases hfind : w.entry e.name with
  | none =>
    have hnot := find?_eq_none.mp hfind e h
    exact absurd (beq_self_eq_true e.name) hnot
  | some x =>
    have hx : x = e := inj_on_of_nodup_map w.names_nodup (mem_of_entry hfind) h
      (name_of_entry hfind)
    rw [hx]

theorem entry_eq_none : w.entry name = none ↔ w.has name = false := by
  simp [entry, has]

theorem find_update {f : Entry → Entry} (hf : ∀ e, (f e).name = e.name) (name n : Bytes)
    (l : List Entry) :
    (update name f l).find? (fun e => e.name == n) =
      if n = name then (l.find? fun e => e.name == name).map f
      else l.find? fun e => e.name == n := by
  induction l with
  | nil => simp [update]
  | cons x rest ih =>
    unfold update
    by_cases hx : x.name = name
    · rw [if_pos hx]
      by_cases hn : n = name
      · subst hn
        simp [hf, hx]
      · have hne : ¬ x.name = n := fun h => hn (h.symm.trans hx)
        simp [hf, hne, hn]
    · rw [if_neg hx, find?_cons, find?_cons, find?_cons]
      by_cases hxn : x.name = n
      · have hn : ¬ n = name := fun h => hx (hxn.trans h)
        simp [hxn, hn]
      · rw [beq_eq_false_iff_ne.mpr hxn, beq_eq_false_iff_ne.mpr hx]
        exact ih

theorem entry_modify {changed : Entry → Bool} (hfit : bytes.length ≤ maxBytes) (n : Bytes) :
    (w.modify name bytes changed hfit).entry n =
      if n = name then
        (w.entry name).map fun e => { e with bytes := bytes, changed := changed e }
      else w.entry n := by
  have hkeeps : ∀ e : Entry, ({ e with bytes := bytes, changed := changed e } : Entry).name
      = e.name := fun _ => rfl
  exact find_update hkeeps name n w.entries

theorem entry_push (hlegal : legalName name = true) (hnew : w.has name = false)
    (hroom : w.entries.length < maxEntries) (n : Bytes) :
    (w.push name hlegal hnew hroom).entry n =
      if n = name then some { name := name, bytes := [], changed := false } else w.entry n := by
  have hpush : (w.push name hlegal hnew hroom).entry n =
      (w.entry n).or ([({ name := name, bytes := [], changed := false } : Entry)].find?
        fun e => e.name == n) := find?_append
  rw [hpush]
  by_cases hn : n = name
  · subst hn
    rw [entry_eq_none.mpr hnew]
    simp
  · have hne : ¬ name = n := fun h => hn h.symm
    cases w.entry n <;> simp [hn, hne]

/-! ### Edits -/

/-- A file of the version the workspace is forked from, read into it: `put(.., true)`. -/
def load (w : Workspace) (file : Bytes × Bytes) : Workspace :=
  match w.put file.1 file.2 true with
  | .ok after => after
  | .error _ => w

/-- The workspace a version is read into, file by file. -/
def baseline (files : List (Bytes × Bytes)) : Workspace := files.foldl load new

end Workspace

/-- A call that edits a workspace. -/
inductive Edit where
  | put (name bytes : Bytes)
  | substitute (name before after : Bytes)
  deriving DecidableEq, Repr

namespace Workspace

/-- A workspace after an edit.  A refused one leaves it as it was. -/
def edit (w : Workspace) : Edit → Workspace
  | .put name bytes =>
    match w.put name bytes false with
    | .ok after => after
    | .error _ => w
  | .substitute name before after =>
    match w.substitute name before after with
    | .ok (edited, _) => edited
    | .error _ => w

/-- A workspace after a run of edits. -/
def run (w : Workspace) (edits : List Edit) : Workspace := edits.foldl edit w

variable {w base : Workspace} {name n bytes before after : Bytes} {e : Entry}

theorem put_cases (w : Workspace) (name bytes : Bytes) (baseline : Bool) :
    (∃ error, w.put name bytes baseline = .error error ∧
        (w.entry name = none →
          ¬ (legalName name = true ∧ bytes.length ≤ maxBytes ∧ w.entries.length < maxEntries)) ∧
        (w.entry name ≠ none → ¬ bytes.length ≤ maxBytes)) ∨
      ∃ after held, w.put name bytes baseline = .ok after ∧
        (w.entry name).getD { name := name, bytes := [], changed := false } = held ∧
        legalName name = true ∧ (w.entry name = none → w.entries.length < maxEntries) ∧
        ∀ n, after.entry n =
          if n = name then
            some { held with
              bytes := bytes
              changed := if baseline then false else if held.bytes = bytes then held.changed
                else true }
          else w.entry n := by
  have hlegalOf : w.entry name ≠ none → legalName name = true := by
    intro h
    obtain ⟨e, he⟩ := Option.ne_none_iff_exists'.mp h
    rw [← name_of_entry he]
    exact w.names_legal e (mem_of_entry he)
  unfold put
  by_cases hlegal : legalName name = true
  swap
  · refine .inl ⟨.badName, by simp [hlegal], fun _ h => hlegal h.1, fun h => ?_⟩
    exact absurd (hlegalOf h) hlegal
  by_cases hfit : bytes.length ≤ maxBytes
  swap
  · exact .inl ⟨.tooLarge, by simp [hlegal, hfit], fun _ h => hfit h.2.1, fun _ => hfit⟩
  rw [dif_pos hlegal, dif_pos hfit]
  by_cases hhas : w.has name = false
  · have hnone := entry_eq_none.mpr hhas
    rw [dif_pos hhas]
    by_cases hroom : w.entries.length < maxEntries
    · rw [dif_pos hroom]
      refine .inr ⟨_, _, rfl, rfl, hlegal, fun _ => hroom, fun n => ?_⟩
      rw [entry_modify, entry_push, entry_push, hnone]
      by_cases hn : n = name <;> simp [hn]
    · rw [dif_neg hroom]
      refine .inl ⟨.full, rfl, fun _ h => hroom h.2.2, fun h => absurd hnone h⟩
  · obtain ⟨e, he⟩ : ∃ e, w.entry name = some e :=
      Option.ne_none_iff_exists'.mp fun h => hhas (entry_eq_none.mp h)
    rw [dif_neg hhas]
    refine .inr ⟨_, _, rfl, rfl, hlegal, fun h => ?_, fun n => ?_⟩
    · exact absurd (he.symm.trans h) nofun
    rw [entry_modify, he]
    by_cases hn : n = name <;> simp [hn]

theorem substitute_cases (w : Workspace) (name before after : Bytes) :
    (∃ error, w.substitute name before after = .error error ∧
        ∀ held pos, w.read name = some held → findBytes held before = some pos →
          ¬ (held.take pos ++ after ++ held.drop (pos + before.length)).length ≤ maxBytes) ∨
      ∃ held pos edited, w.substitute name before after = .ok (edited, pos) ∧
        w.entry name = some held ∧ findBytes held.bytes before = some pos ∧
        ∀ n, edited.entry n =
          if n = name then
            some { held with
              bytes := held.bytes.take pos ++ after ++ held.bytes.drop (pos + before.length)
              changed := true }
          else w.entry n := by
  unfold substitute
  rw [read_eq]
  cases hentry : w.entry name with
  | none => exact .inl ⟨.noSuchName, rfl, fun _ _ h => by cases h⟩
  | some held =>
    simp only [Option.map_some]
    cases hfind : findBytes held.bytes before with
    | none =>
      refine .inl ⟨.notFound, rfl, fun held' pos hread h => ?_⟩
      cases hread
      rw [hfind] at h
      cases h
    | some pos =>
      simp only
      by_cases hfit :
          (held.bytes.take pos ++ after ++ held.bytes.drop (pos + before.length)).length
            ≤ maxBytes
      · rw [dif_pos hfit]
        refine .inr ⟨held, pos, _, rfl, rfl, hfind, fun n => ?_⟩
        rw [entry_modify, hentry]
        rfl
      · rw [dif_neg hfit]
        refine .inl ⟨.tooLarge, rfl, fun held' pos' hread h => ?_⟩
        cases hread
        rw [hfind] at h
        cases h
        exact hfit

/-! ### When the flags are right -/

/-- Every flag says whether its entry differs from what the baseline has under its name. -/
def Tells (base w : Workspace) : Prop :=
  ∀ e ∈ w.entries, e.changed = true ↔ base.read e.name ≠ some e.bytes

/-- The edits the flag does not follow: a new name with nothing in it, and a name given the
content it was forked with, unless by a `put` of what is there already. -/
def Misses (base w : Workspace) : Edit → Prop
  | .put name bytes =>
    (w.read name = none ∧ bytes = [] ∧ legalName name = true ∧
        w.entries.length < maxEntries) ∨
      (w.read name ≠ some bytes ∧ base.read name = some bytes)
  | .substitute name before after =>
    ∃ held pos, w.read name = some held ∧ findBytes held before = some pos ∧
      base.read name = some (held.take pos ++ after ++ held.drop (pos + before.length))

/-- A run without such an edit. -/
def Followed (base : Workspace) : Workspace → List Edit → Prop
  | _, [] => True
  | w, e :: rest => ¬ Misses base w e ∧ Followed base (w.edit e) rest

/-- Every name of the baseline is still there. -/
def Covers (base w : Workspace) : Prop := ∀ n, w.entry n = none → base.entry n = none

theorem tells_iff {base w : Workspace} :
    Tells base w ↔
      ∀ n e, w.entry n = some e → (e.changed = true ↔ base.read n ≠ some e.bytes) := by
  constructor
  · intro h n e he
    rw [← name_of_entry he]
    exact h e (mem_of_entry he)
  · intro h e he
    exact h e.name e (entry_of_mem he)

variable {written : Entry}

theorem tells_of_entry {base w after : Workspace} {name : Bytes} (htells : Tells base w)
    (hentry : ∀ n, after.entry n = if n = name then some written else w.entry n) :
    Tells base after ↔ (written.changed = true ↔ base.read name ≠ some written.bytes) := by
  rw [tells_iff]
  constructor
  · intro h
    exact h name written (by rw [hentry, if_pos rfl])
  · intro h n e he
    rw [hentry] at he
    by_cases hn : n = name
    · rw [if_pos hn] at he
      cases he
      rw [hn]
      exact h
    · rw [if_neg hn] at he
      exact tells_iff.mp htells n e he

theorem covers_of_entry {base w after : Workspace} {name : Bytes} (hcovers : Covers base w)
    (hentry : ∀ n, after.entry n = if n = name then some written else w.entry n) :
    Covers base after := by
  intro n hn
  rw [hentry] at hn
  by_cases hname : n = name
  · rw [if_pos hname] at hn
    cases hn
  · rw [if_neg hname] at hn
    exact hcovers n hn

theorem read_fits {w : Workspace} {name bytes : Bytes} (h : w.read name = some bytes) :
    bytes.length ≤ maxBytes := by
  obtain ⟨e, he, rfl⟩ := Option.map_eq_some_iff.mp h
  exact w.bytes_fit e (mem_of_entry he)

theorem edit_covers {base w : Workspace} (hcovers : Covers base w) (e : Edit) :
    Covers base (w.edit e) := by
  cases e with
  | put name bytes =>
    rcases put_cases w name bytes false with
      ⟨error, hput, -⟩ | ⟨after, held, hput, -, -, -, hentry⟩
    · simpa only [edit, hput] using hcovers
    · simpa only [edit, hput] using covers_of_entry hcovers hentry
  | substitute name before after =>
    rcases substitute_cases w name before after with
      ⟨error, hsub, -⟩ | ⟨held, pos, edited, hsub, -, -, hentry⟩
    · simpa only [edit, hsub] using hcovers
    · simpa only [edit, hsub] using covers_of_entry hcovers hentry

theorem run_covers {base w : Workspace} (hcovers : Covers base w) (edits : List Edit) :
    Covers base (w.run edits) := by
  induction edits generalizing w with
  | nil => exact hcovers
  | cons e rest ih => exact ih (edit_covers hcovers e)

theorem put_tells {base w : Workspace} (htells : Tells base w) (hcovers : Covers base w)
    (name bytes : Bytes) :
    Tells base (w.edit (.put name bytes)) ↔ ¬ Misses base w (.put name bytes) := by
  rcases put_cases w name bytes false with
    ⟨error, hput, hnew, hheld⟩ | ⟨after, held, hput, hslot, hlegal, hroom, hentry⟩
  · -- refused, and so for a reason that keeps the edit from being one of those missed
    have hedit : w.edit (.put name bytes) = w := by simp only [edit, hput]
    rw [hedit]
    refine iff_of_true htells ?_
    rintro (⟨hread, rfl, hlegal, hroom⟩ | ⟨hread, hbase⟩)
    · have hnone : w.entry name = none := Option.map_eq_none_iff.mp hread
      exact hnew hnone ⟨hlegal, Nat.zero_le _, hroom⟩
    · refine hheld (fun hnone => ?_) (read_fits hbase)
      rw [read_eq, hcovers name hnone] at hbase
      cases hbase
  · have hedit : w.edit (.put name bytes) = after := by simp only [edit, hput]
    rw [hedit, tells_of_entry htells hentry]
    simp only [Misses, read_eq w, Bool.false_eq_true, if_false]
    cases he : w.entry name with
    | none =>
      -- a new name is compared with the empty content of its slot
      rw [he] at hslot
      have hbase : base.read name = none := by rw [read_eq, hcovers name he]; rfl
      subst hslot
      by_cases hempty : bytes = []
      · simp [hbase, hempty, hlegal, hroom he]
      · have hne : ¬ [] = bytes := fun h => hempty h.symm
        simp [hbase, hempty, hne]
    | some e =>
      -- and another with what it holds
      rw [he] at hslot
      cases hslot
      have hold := tells_iff.mp htells name e he
      by_cases hsame : e.bytes = bytes
      · simp [hsame, hold]
      · simp [hsame]

theorem substitute_tells {base w : Workspace} (htells : Tells base w) (name before after : Bytes) :
    Tells base (w.edit (.substitute name before after)) ↔
      ¬ Misses base w (.substitute name before after) := by
  rcases substitute_cases w name before after with
    ⟨error, hsub, hlong⟩ | ⟨held, pos, edited, hsub, he, hfind, hentry⟩
  · have hedit : w.edit (.substitute name before after) = w := by simp only [edit, hsub]
    rw [hedit]
    refine iff_of_true htells ?_
    rintro ⟨held, pos, hread, hfind, hbase⟩
    exact hlong held pos hread hfind (read_fits hbase)
  · have hedit : w.edit (.substitute name before after) = edited := by simp only [edit, hsub]
    rw [hedit, tells_of_entry htells hentry]
    have hread : w.read name = some held.bytes := by rw [read_eq, he]; rfl
    simp [Misses, hread, hfind]

/-- **One edit leaves the flags right exactly when it is not one of those they miss.** -/
theorem edit_tells {base w : Workspace} (htells : Tells base w) (hcovers : Covers base w)
    (e : Edit) : Tells base (w.edit e) ↔ ¬ Misses base w e := by
  cases e with
  | put name bytes => exact put_tells htells hcovers name bytes
  | substitute name before after => exact substitute_tells htells name before after

theorem run_tells {base w : Workspace} (htells : Tells base w) (hcovers : Covers base w)
    (edits : List Edit) :
    (∀ made, made <+: edits → Tells base (w.run made)) ↔ Followed base w edits := by
  induction edits generalizing w with
  | nil =>
    refine iff_of_true (fun made hmade => ?_) trivial
    rw [prefix_nil.mp hmade]
    exact htells
  | cons e rest ih =>
    have hcovers' := edit_covers hcovers e
    show _ ↔ ¬ Misses base w e ∧ Followed base (w.edit e) rest
    rw [← edit_tells htells hcovers e]
    constructor
    · intro h
      have hone : Tells base (w.edit e) := h [e] ⟨rest, rfl⟩
      exact ⟨hone, (ih hone hcovers').mp fun made hmade => h (e :: made)
        ((prefix_cons_inj e).mpr hmade)⟩
    · intro ⟨hone, hrest⟩ made hmade
      cases made with
      | nil => exact htells
      | cons x made =>
        obtain ⟨rfl, hrests⟩ := cons_prefix_cons.mp hmade
        exact (ih hone hcovers').mpr hrest made hrests

/-! ### The baseline, and what is listed -/

theorem baseline_unflagged (files : List (Bytes × Bytes)) (n : Bytes) (e : Entry)
    (h : (baseline files).entry n = some e) : e.changed = false := by
  have hload : ∀ (l : List (Bytes × Bytes)) (w : Workspace),
      (∀ n e, w.entry n = some e → e.changed = false) →
        ∀ n e, (l.foldl load w).entry n = some e → e.changed = false := by
    intro l
    induction l with
    | nil => exact fun w hw => hw
    | cons file rest ih =>
      intro w hw
      refine ih (w.load file) fun n e he => ?_
      rcases put_cases w file.1 file.2 true with
        ⟨error, hput, -⟩ | ⟨after, held, hput, -, -, -, hentry⟩
      · simp only [load, hput] at he
        exact hw n e he
      · simp only [load, hput] at he
        rw [hentry] at he
        by_cases hn : n = file.1
        · rw [if_pos hn] at he
          cases he
          rfl
        · rw [if_neg hn] at he
          exact hw n e he
  exact hload files new (fun _ _ he => by cases he) n e h

theorem baseline_tells (files : List (Bytes × Bytes)) :
    Tells (baseline files) (baseline files) := by
  refine tells_iff.mpr fun n e he => ?_
  have hflag := baseline_unflagged files n e he
  have hread : (baseline files).read n = some e.bytes := by rw [read_eq, he]; rfl
  simp [hflag, hread]

/-- What a candidate tree binds a name to. -/
def boundTo {D : Type} (sha : Sha D) (w : Workspace) (name : Bytes) : Option (Binding D) :=
  (w.sorted.map (bindingOf sha)).find? fun b => b.name == name

variable {D : Type}

theorem boundTo_eq (sha : Sha D) (w : Workspace) (name : Bytes) :
    w.boundTo sha name = (w.read name).map fun bytes => bindingOf sha ⟨name, bytes, false⟩ := by
  have hfind : w.sorted.find? (fun e => e.name == name) = w.entry name := by
    cases he : w.entry name with
    | none =>
      refine find?_eq_none.mpr fun e hmem => ?_
      exact find?_eq_none.mp he e (mem_sorted.mp hmem)
    | some e =>
      cases hs : w.sorted.find? (fun e => e.name == name) with
      | none =>
        have hnot := find?_eq_none.mp hs e (mem_sorted.mpr (mem_of_entry he))
        exact absurd (beq_iff_eq.mpr (name_of_entry he)) hnot
      | some x =>
        have hx : x.name = name := by simpa using find?_some hs
        have hmem := entry_of_mem (mem_sorted.mp (mem_of_find?_eq_some hs))
        rw [hx, he] at hmem
        exact hmem.symm
  unfold boundTo
  rw [find?_map]
  show (w.sorted.find? fun e => e.name == name).map (bindingOf sha) = _
  rw [hfind, read_eq]
  cases he : w.entry name with
  | none => rfl
  | some e =>
    have hname := name_of_entry he
    subst hname
    rfl

theorem boundTo_eq_iff (sha : Sha D) (w w' : Workspace) (name : Bytes) :
    w.boundTo sha name = w'.boundTo sha name ↔ w.read name = w'.read name := by
  rw [boundTo_eq, boundTo_eq]
  refine Option.map_injective ?_ |>.eq_iff
  intro a b h
  exact Content.raw.inj (sha.objectDigest_inj (congrArg Binding.digest h)).2

/-- The names `cambios` is to list: those the candidate tree binds to something else than
the version the workspace was forked from. -/
def Lists {D : Type} (sha : Sha D) (base w : Workspace) (names : List Bytes) : Prop :=
  names.Nodup ∧ ∀ name, name ∈ names ↔ w.boundTo sha name ≠ base.boundTo sha name

/-- What a workspace says has changed is what has. -/
structure Truthful {D : Type} (sha : Sha D) (base w : Workspace) : Prop where
  flags : Tells base w
  /-- `cambios` answers with those names and how many they are. -/
  listed : ∀ context : Context D, context.workspace = w → ∃ names, Lists sha base w names ∧
    Verbs.changed context = (Verbs.report [(ascii "count", .number names.length),
      (ascii "names", .array (names.map Json.Value.string))]).text

theorem lists_flagged (sha : Sha D) {base w : Workspace} (htells : Tells base w)
    (hcovers : Covers base w) :
    Lists sha base w ((w.entries.filter Entry.changed).map Entry.name) := by
  refine ⟨(filter_sublist.map _).nodup w.names_nodup, fun name => ?_⟩
  rw [Ne, boundTo_eq_iff, mem_map]
  constructor
  · rintro ⟨e, hmem, rfl⟩ hsame
    obtain ⟨he, hflag⟩ := mem_filter.mp hmem
    refine (htells e he).mp hflag ?_
    rw [← hsame, read_eq, entry_of_mem he]
    rfl
  · intro hdiffers
    cases he : w.entry name with
    | none =>
      refine absurd ?_ hdiffers
      rw [read_eq, read_eq, he, hcovers name he]
    | some e =>
      have hflag : e.changed = true := by
        refine (tells_iff.mp htells name e he).mpr fun hbase => hdiffers ?_
        rw [hbase, read_eq, he]
        rfl
      exact ⟨e, mem_filter.mpr ⟨mem_of_entry he, hflag⟩, name_of_entry he⟩

theorem truthful_iff (sha : Sha D) {base w : Workspace} (hcovers : Covers base w) :
    Truthful sha base w ↔ Tells base w := by
  refine ⟨Truthful.flags, fun htells => ⟨htells, ?_⟩⟩
  rintro context rfl
  refine ⟨_, lists_flagged sha htells hcovers, ?_⟩
  rw [Verbs.changed_eq, Verbs.bounded, if_pos (Verbs.changed_fits _), length_map,
    map_map]
  rfl

/-- **What a workspace says has changed is what differs from the version it was forked from,
in every state of a run of edits, exactly when the run has no edit its flags miss.** -/
theorem changed_truthful_iff {D : Type} (sha : Sha D) (files : List (Bytes × Bytes))
    (edits : List Edit) :
    (∀ made, made <+: edits → Truthful sha (baseline files) ((baseline files).run made)) ↔
      Followed (baseline files) (baseline files) edits := by
  have hcovers : Covers (baseline files) (baseline files) := fun _ h => h
  rw [← run_tells (baseline_tells files) hcovers edits]
  exact forall₂_congr fun made _ => truthful_iff sha (run_covers hcovers made)

instance (base w : Workspace) : Decidable (Tells base w) :=
  inferInstanceAs (Decidable (∀ e ∈ w.entries, e.changed = true ↔ base.read e.name ≠ some e.bytes))

/-- An edit and its undoing leave the name flagged, a substitution that changes nothing flags
it, and a new empty file is not flagged. -/
theorem changed_not_truthful :
    ¬ Tells (baseline [(ascii "module.js", ascii "a")])
        ((baseline [(ascii "module.js", ascii "a")]).run
          [.put (ascii "module.js") (ascii "b"), .put (ascii "module.js") (ascii "a")]) ∧
      ¬ Tells (baseline [(ascii "module.js", ascii "a")])
        ((baseline [(ascii "module.js", ascii "a")]).run
          [.substitute (ascii "module.js") (ascii "a") (ascii "a")]) ∧
      ¬ Tells (baseline [(ascii "module.js", ascii "a")])
        ((baseline [(ascii "module.js", ascii "a")]).run [.put (ascii "notes.md") []]) := by
  decide +kernel

end Workspace

end Thalyx.Work
