/-
The private workspace of one work: `user/k5work/src/tree.rs`.

A bounded set of names and bytes the work edits in its own memory.  The source keeps a
fixed array and a count; here it is the list of the entries in use, with what the array
and `put` guarantee carried by the structure: at most `maxEntries` of them, no name
twice, every name legal, every content within an object's ceiling.

The last section is what the rest of the work relies on: a workspace always has a
candidate digest, and two workspaces have the same one exactly when every name reads
the same in both.  Entries are bound in name order, so the order they were put in does
not matter, and neither does the `changed` flag.
-/
import Mathlib.Data.List.Sort
import Mathlib.Data.List.Nodup
import ThalyxKernel.Format.Object

namespace Thalyx.Work

open List

/-- `MAX_ENTRIES`: names one workspace may hold. -/
def maxEntries : Nat := 8

/-- `MAX_BYTES`: bytes one entry may hold. -/
def maxBytes : Nat := 3072

/-- One name and its content. -/
structure Entry where
  name : Bytes
  bytes : Bytes
  /-- Whether this entry differs from the version the workspace was forked from. -/
  changed : Bool
  deriving DecidableEq, Repr

/-- Why an edit did not happen. -/
inductive EditError where
  | noSuchName | full | tooLarge | notFound | badName
  deriving DecidableEq, Repr

/-- The word this refusal is reported as. -/
def EditError.word : EditError → String
  | .noSuchName => "no_such_name"
  | .full => "workspace_full"
  | .tooLarge => "too_large"
  | .notFound => "not_found"
  | .badName => "bad_name"

/-- The whole of one work's private state. -/
structure Workspace where
  entries : List Entry
  length_le : entries.length ≤ maxEntries
  names_nodup : (entries.map Entry.name).Nodup
  names_legal : ∀ e ∈ entries, legalName e.name = true
  bytes_fit : ∀ e ∈ entries, e.bytes.length ≤ maxBytes

namespace Workspace

theorem ext_entries {w w' : Workspace} (h : w.entries = w'.entries) : w = w' := by
  cases w
  cases w'
  cases h
  rfl

instance : DecidableEq Workspace := fun w w' =>
  decidable_of_iff (w.entries = w'.entries) ⟨ext_entries, congrArg entries⟩

/-- An empty workspace. -/
def new : Workspace where
  entries := []
  length_le := Nat.zero_le _
  names_nodup := nodup_nil
  names_legal := fun _ he => absurd he not_mem_nil
  bytes_fit := fun _ he => absurd he not_mem_nil

/-- Whether a name is there. -/
def has (w : Workspace) (name : Bytes) : Bool :=
  w.entries.any fun e => e.name == name

/-- The content of a name. -/
def read (w : Workspace) (name : Bytes) : Option Bytes :=
  (w.entries.find? fun e => e.name == name).map Entry.bytes

/-! ### Editing an entry in place -/

/-- The entries with the first one of that name changed by `f`. -/
def update (name : Bytes) (f : Entry → Entry) : List Entry → List Entry
  | [] => []
  | e :: rest => if e.name = name then f e :: rest else e :: update name f rest

theorem length_update (name : Bytes) (f : Entry → Entry) (l : List Entry) :
    (update name f l).length = l.length := by
  induction l with
  | nil => rfl
  | cons e rest ih =>
    unfold update
    split
    · rfl
    · simp only [length_cons, ih]

variable {f : Entry → Entry}

theorem names_update (hf : ∀ e, (f e).name = e.name) (name : Bytes)
    (l : List Entry) : (update name f l).map Entry.name = l.map Entry.name := by
  induction l with
  | nil => rfl
  | cons e rest ih =>
    unfold update
    split
    · simp only [map_cons, hf]
    · simp only [map_cons, ih]

theorem mem_update {name : Bytes} {l : List Entry} {e : Entry}
    (h : e ∈ update name f l) : e ∈ l ∨ ∃ e' ∈ l, e'.name = name ∧ e = f e' := by
  induction l with
  | nil => exact absurd h not_mem_nil
  | cons x rest ih =>
    unfold update at h
    split at h
    case isTrue hx =>
      rcases mem_cons.mp h with rfl | hmem
      · exact .inr ⟨x, mem_cons_self, hx, rfl⟩
      · exact .inl (mem_cons_of_mem _ hmem)
    case isFalse hx =>
      rcases mem_cons.mp h with rfl | hmem
      · exact .inl mem_cons_self
      · rcases ih hmem with hold | ⟨e', he', hname, rfl⟩
        · exact .inl (mem_cons_of_mem _ hold)
        · exact .inr ⟨e', mem_cons_of_mem _ he', hname, rfl⟩

/-- Changing one entry's content and flag keeps the workspace's shape. -/
def modify (w : Workspace) (name : Bytes) (bytes : Bytes) (changed : Entry → Bool)
    (hfit : bytes.length ≤ maxBytes) : Workspace where
  entries := update name (fun e => { e with bytes := bytes, changed := changed e }) w.entries
  length_le := by
    rw [length_update]
    exact w.length_le
  names_nodup := by
    rw [names_update (f := fun e => { e with bytes := bytes, changed := changed e })
      fun _ => rfl]
    exact w.names_nodup
  names_legal := by
    intro e he
    rcases mem_update he with hold | ⟨e', he', -, rfl⟩
    · exact w.names_legal e hold
    · exact w.names_legal e' he'
  bytes_fit := by
    intro e he
    rcases mem_update he with hold | ⟨e', -, -, rfl⟩
    · exact w.bytes_fit e hold
    · exact hfit

theorem not_mem_names_of_has {w : Workspace} {name : Bytes} (h : w.has name = false) :
    name ∉ w.entries.map Entry.name := by
  intro hmem
  obtain ⟨e, he, rfl⟩ := mem_map.mp hmem
  have hfalse := any_eq_false.mp h e he
  exact hfalse (beq_self_eq_true _)

/-- A name that was not there, with nothing under it yet. -/
def push (w : Workspace) (name : Bytes) (hlegal : legalName name = true)
    (hnew : w.has name = false) (hroom : w.entries.length < maxEntries) : Workspace where
  entries := w.entries ++ [{ name := name, bytes := [], changed := false }]
  length_le := by
    rw [length_append]
    exact hroom
  names_nodup := by
    rw [map_append, nodup_append]
    refine ⟨w.names_nodup, nodup_singleton _, ?_⟩
    intro a ha b hb hab
    simp only [map_cons, map_nil, mem_singleton] at hb
    subst hab hb
    exact not_mem_names_of_has hnew ha
  names_legal := by
    intro e he
    rcases mem_append.mp he with hold | hlast
    · exact w.names_legal e hold
    · rw [mem_singleton.mp hlast]
      exact hlegal
  bytes_fit := by
    intro e he
    rcases mem_append.mp he with hold | hlast
    · exact w.bytes_fit e hold
    · rw [mem_singleton.mp hlast]
      exact Nat.zero_le _

/-- `Workspace::put`: puts a name, replacing what was there.  A name put for the first
time is compared with the empty content of its fresh slot. -/
def put (w : Workspace) (name bytes : Bytes) (baseline : Bool) : Except EditError Workspace :=
  if hlegal : legalName name = true then
    if hfit : bytes.length ≤ maxBytes then
      let changed := fun e : Entry =>
        if baseline then false else if e.bytes = bytes then e.changed else true
      if hhas : w.has name = false then
        if hroom : w.entries.length < maxEntries then
          .ok ((w.push name hlegal hhas hroom).modify name bytes changed hfit)
        else .error .full
      else .ok (w.modify name bytes changed hfit)
    else .error .tooLarge
  else .error .badName

end Workspace

/-- `find_bytes`: where `needle` first appears in `haystack`. -/
def findBytes (haystack needle : Bytes) : Option Nat :=
  if needle.isEmpty || needle.length > haystack.length then none
  else (List.range (haystack.length - needle.length + 1)).find? fun pos =>
    (haystack.drop pos).take needle.length == needle

namespace Workspace

/-- `Workspace::substitute`: replaces the first occurrence of `before` with `after` in
one entry, and says where it was. -/
def substitute (w : Workspace) (name before after : Bytes) :
    Except EditError (Workspace × Nat) :=
  match w.read name with
  | none => .error .noSuchName
  | some bytes =>
    match findBytes bytes before with
    | none => .error .notFound
    | some pos =>
      let rebuilt := bytes.take pos ++ after ++ bytes.drop (pos + before.length)
      if hfit : rebuilt.length ≤ maxBytes then
        .ok (w.modify name rebuilt (fun _ => true) hfit, pos)
      else .error .tooLarge

/-- How many entries differ from the version this was forked from. -/
def changed (w : Workspace) : Nat :=
  (w.entries.filter Entry.changed).length

/-! ### The bindings a tree is encoded from -/

/-- The order of names is the order of their bytes. -/
def nameOrder {α : Type} (key : α → Bytes) (a b : α) : Prop := key a ≤ key b

instance {α : Type} (key : α → Bytes) : DecidableRel (nameOrder key) := fun a b =>
  inferInstanceAs (Decidable (key a ≤ key b))

instance {α : Type} (key : α → Bytes) : Std.Total (nameOrder key) :=
  ⟨fun a b => List.le_total (key a) (key b)⟩

instance {α : Type} (key : α → Bytes) : IsTrans α (nameOrder key) :=
  ⟨fun _ _ _ hab hbc => List.le_trans hab hbc⟩

/-- `Workspace::bindings`: one binding for each entry, in canonical order.  `digests` is
parallel to the entries. -/
def bindings {D : Type} (w : Workspace) (digests : List D) (room : Nat) :
    Option (List (Binding D)) :=
  if digests.length < w.entries.length ∨ room < w.entries.length then none
  else
    ((w.entries.zip digests).insertionSort (nameOrder fun p => p.1.name)).mapM fun p =>
      (Binding.new p.1.name ObjectType.bytes.code 0 p.1.bytes.length p.2).toOption

/-- `candidate_digest`: the tree digest of a workspace, computed without the service.
The encoder's buffer is 2048 bytes. -/
def candidateDigest {D : Type} (sha : Sha D) (w : Workspace) : Option D := do
  let digests := w.entries.map fun e => sha.objectDigest .bytes (.raw e.bytes)
  let bindings ← w.bindings digests maxEntries
  let content ← (encodeTree 2048 bindings).toOption
  return sha.objectDigest .tree content

/-! ### What a candidate digest says

The digest is that of the sorted bindings, the sorted bindings determine and are
determined by the pairs of name and content, and those are what `read` answers. -/

/-- The entries in name order. -/
def sorted (w : Workspace) : List Entry :=
  w.entries.insertionSort (nameOrder Entry.name)

/-- The binding of one entry. -/
def bindingOf {D : Type} (sha : Sha D) (e : Entry) : Binding D where
  name := e.name
  childType := ObjectType.bytes.code
  flags := 0
  length := e.bytes.length
  digest := sha.objectDigest .bytes (.raw e.bytes)

variable {w w' : Workspace}

theorem mem_sorted {e : Entry} : e ∈ w.sorted ↔ e ∈ w.entries :=
  (perm_insertionSort _ _).mem_iff

theorem sorted_length (w : Workspace) : w.sorted.length = w.entries.length :=
  (perm_insertionSort _ _).length_eq

theorem sorted_ascending (w : Workspace) : w.sorted.Pairwise fun a b => a.name < b.name := by
  have hle : w.sorted.Pairwise (nameOrder Entry.name) := pairwise_insertionSort _ _
  have hne : w.sorted.Pairwise fun a b => a.name ≠ b.name := by
    have hnodup : (w.sorted.map Entry.name).Nodup :=
      ((perm_insertionSort _ _).map Entry.name).nodup_iff.mpr w.names_nodup
    exact pairwise_map.mp hnodup
  refine (hle.and hne).imp ?_
  intro a b hab
  rcases List.le_iff_lt_or_eq.mp hab.1 with hlt | heq
  · exact hlt
  · exact absurd heq hab.2

variable {D : Type}

private theorem ascending_of_pairwise {l : List (Binding D)}
    (h : l.Pairwise fun a b => a.name < b.name) : ascending l = true := by
  induction l with
  | nil => rfl
  | cons a rest ih =>
    cases rest with
    | nil => rfl
    | cons b rest =>
      obtain ⟨ha, hrest⟩ := pairwise_cons.mp h
      simp only [ascending, Bool.and_eq_true, decide_eq_true_eq]
      exact ⟨ha b mem_cons_self, ih hrest⟩

private theorem mapM_of_forall {α β : Type} {f : α → Option β} {g : α → β} {l : List α}
    (h : ∀ a ∈ l, f a = some (g a)) : l.mapM f = some (l.map g) := by
  induction l with
  | nil => rfl
  | cons a rest ih =>
    have ha : f a = some (g a) := h a mem_cons_self
    have hrest := ih fun b hb => h b (mem_cons_of_mem _ hb)
    simp only [mapM_cons, ha, hrest, map_cons]
    rfl

theorem bindings_eq (sha : Sha D) (w : Workspace) :
    w.bindings (w.entries.map fun e => sha.objectDigest .bytes (.raw e.bytes)) maxEntries
      = some (w.sorted.map (bindingOf sha)) := by
  have hroom : ¬ (maxEntries < w.entries.length) := Nat.not_lt.mpr w.length_le
  have hzip : w.entries.zip (w.entries.map fun e => sha.objectDigest .bytes (.raw e.bytes))
      = w.entries.map fun e => (e, sha.objectDigest .bytes (.raw e.bytes)) := by
    rw [zip_map_right, zip_eq_zipWith, zipWith_self, map_map]
    rfl
  have hsort : (w.entries.map fun e => (e, sha.objectDigest .bytes (.raw e.bytes))).insertionSort
        (nameOrder fun p => p.1.name)
      = w.sorted.map fun e => (e, sha.objectDigest .bytes (.raw e.bytes)) := by
    refine (map_insertionSort _ _ _ _ ?_).symm
    intro a _ b _
    exact Iff.rfl
  unfold bindings
  rw [if_neg (by simp [hroom]), hzip, hsort, mapM_map]
  refine mapM_of_forall ?_
  intro e he
  have hlegal := w.names_legal e (mem_sorted.mp he)
  simp [Binding.new, hlegal, bindingOf, Except.toOption]

theorem candidateDigest_eq (sha : Sha D) (w : Workspace) :
    candidateDigest sha w
      = some (sha.objectDigest .tree (.tree (w.sorted.map (bindingOf sha)))) := by
  have hlen : w.sorted.length ≤ 8 := by
    rw [sorted_length]
    exact w.length_le
  have hasc : ascending (w.sorted.map (bindingOf sha)) = true := by
    refine ascending_of_pairwise (pairwise_map.mpr ?_)
    exact w.sorted_ascending
  have hlegal : (w.sorted.map (bindingOf sha)).any (fun entry => !legalName entry.name) = false := by
    rw [any_eq_false]
    intro b hb
    obtain ⟨e, he, rfl⟩ := mem_map.mp hb
    simp [bindingOf, w.names_legal e (mem_sorted.mp he)]
  have henc : encodeTree 2048 (w.sorted.map (bindingOf sha))
      = .ok (.tree (w.sorted.map (bindingOf sha))) := by
    unfold encodeTree
    rw [if_neg (by rw [length_map]; unfold maxTreeEntries; omega), hasc, hlegal]
    rw [if_neg (by simp), if_neg (by simp), if_neg]
    rw [length_map]
    unfold treeHeaderSize treeEntrySize
    omega
  unfold candidateDigest
  simp only [bindings_eq, henc, Except.toOption, Option.bind_eq_bind, Option.bind_some]
  rfl

/-- What a workspace holds: each name with its content. -/
def contents (w : Workspace) : List (Bytes × Bytes) :=
  w.entries.map fun e => (e.name, e.bytes)

theorem contents_keys_nodup (w : Workspace) : (w.contents.map Prod.fst).Nodup := by
  have hkeys : w.contents.map Prod.fst = w.entries.map Entry.name := by
    unfold contents
    rw [map_map]
    rfl
  rw [hkeys]
  exact w.names_nodup

theorem mem_contents_iff {name bytes : Bytes} :
    (name, bytes) ∈ w.contents ↔ w.read name = some bytes := by
  unfold contents read
  constructor
  · intro h
    obtain ⟨e, he, heq⟩ := mem_map.mp h
    obtain ⟨rfl, rfl⟩ := Prod.mk.inj heq
    have hsome : (w.entries.find? fun x => x.name == e.name).isSome := by
      rw [find?_isSome]
      exact ⟨e, he, beq_self_eq_true _⟩
    obtain ⟨x, hx⟩ := Option.isSome_iff_exists.mp hsome
    have hname : x.name = e.name := by
      simpa using find?_some hx
    have hxe : x = e := inj_on_of_nodup_map w.names_nodup (mem_of_find?_eq_some hx) he hname
    rw [hx, hxe]
    rfl
  · intro h
    obtain ⟨e, hfind, rfl⟩ := Option.map_eq_some_iff.mp h
    have hname : e.name = name := by
      simpa using find?_some hfind
    exact mem_map.mpr ⟨e, mem_of_find?_eq_some hfind, by rw [hname]⟩

theorem contents_perm (h : ∀ name, w.read name = w'.read name) : w.contents.Perm w'.contents := by
  refine (perm_ext_iff_of_nodup w.contents_keys_nodup.of_map
    w'.contents_keys_nodup.of_map).mpr ?_
  rintro ⟨name, bytes⟩
  rw [mem_contents_iff, mem_contents_iff, h]

theorem sorted_contents (w : Workspace) :
    (w.sorted.map fun e => (e.name, e.bytes)).Perm w.contents :=
  (perm_insertionSort _ _).map _

theorem sorted_contents_eq (h : ∀ name, w.read name = w'.read name) :
    w.sorted.map (fun e => (e.name, e.bytes)) = w'.sorted.map fun e => (e.name, e.bytes) := by
  have hperm := (w.sorted_contents.trans (contents_perm h)).trans w'.sorted_contents.symm
  have hsorted : ∀ v : Workspace,
      (v.sorted.map fun e => (e.name, e.bytes)).Pairwise fun a b => a.1 < b.1 :=
    fun v => pairwise_map.mpr v.sorted_ascending
  refine List.Perm.eq_of_pairwise ?_ (hsorted w) (hsorted w') hperm
  intro a b _ _ hab hba
  exact absurd hba (List.lt_asymm hab)

/-- **Two workspaces have the same candidate digest exactly when every name reads the
same in both.** -/
theorem candidateDigest_eq_iff (sha : Sha D) (w w' : Workspace) :
    candidateDigest sha w = candidateDigest sha w' ↔ ∀ name, w.read name = w'.read name := by
  -- a binding is a function of the name and the content, and by collision-freeness
  -- determines both
  let pairBinding : Bytes × Bytes → Binding D := fun p => bindingOf sha ⟨p.1, p.2, false⟩
  have hfactor : ∀ v : Workspace, v.sorted.map (bindingOf sha)
      = (v.sorted.map fun e => (e.name, e.bytes)).map pairBinding := by
    intro v
    rw [map_map]
    rfl
  have hinj : Function.Injective pairBinding := by
    intro p q heq
    have hdigest := (sha.objectDigest_inj (congrArg Binding.digest heq)).2
    exact Prod.ext (congrArg Binding.name heq) (Content.raw.inj hdigest)
  rw [candidateDigest_eq, candidateDigest_eq, hfactor, hfactor]
  constructor
  · intro h name
    have htree := (sha.objectDigest_inj (Option.some.inj h)).2
    have hpairs := (map_injective_iff.mpr hinj) (Content.tree.inj htree)
    have hmem : ∀ bytes, w.read name = some bytes ↔ w'.read name = some bytes := by
      intro bytes
      rw [← mem_contents_iff, ← mem_contents_iff, ← w.sorted_contents.mem_iff, hpairs,
        w'.sorted_contents.mem_iff]
    exact Option.ext hmem
  · intro h
    rw [sorted_contents_eq h]

end Workspace

end Thalyx.Work
