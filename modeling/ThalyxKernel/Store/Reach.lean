/-
What an object reaches: `Store::closure` against the graph it walks.

An object names others in the fields of its manifest or in the bindings of its tree, and the
graph is whatever the index and the medium make of that: an object may be named many times,
by itself too, and may be missing or malformed.  The walk is the general one over the
children, so it is enough to say when the children of an object are known, and how many
there are.

The queue has a place for every name that is read, not for every object, so a root whose
objects are all there is walked only while the names on them are no more than the queue
holds.
-/
import ThalyxKernel.Store.Engine

namespace Thalyx.K4

open Relation List Option

variable {D C : Type} [DecidableEq D] (fmt : Format D C)

/-! ### The graph -/

/-- The object of digest `d` names `d'`, in its manifest or in its tree. -/
def Store.Names (s : Store D C) (m : Moment) (d d' : D) : Prop :=
  ∃ entry, s.find d = some entry ∧
    ∃ digests, s.named fmt m entry = .ok digests ∧ d' ∈ digests ∧ d' ≠ fmt.zero

/-- `d` is reached from `root` by names. -/
def Store.Reaches (s : Store D C) (m : Moment) : D → D → Prop :=
  ReflTransGen (s.Names fmt m)

/-- The object of a digest is present and well-formed: the index has it, and the content of a
manifest or of a tree can be had and decodes. -/
def Store.Whole (s : Store D C) (m : Moment) (d : D) : Prop :=
  ∃ entry, s.find d = some entry ∧ ∃ digests, s.named fmt m entry = .ok digests

/-- The names on an object, with repetitions. -/
def Store.names (s : Store D C) (m : Moment) (d : D) : Nat :=
  match s.find d with
  | none => 0
  | some entry =>
    match s.named fmt m entry with
    | .error _ => 0
    | .ok digests => (digests.filter fun d => decide (d ≠ fmt.zero)).length

/-- The names on the objects of a list. -/
def Store.namesOn (s : Store D C) (m : Moment) : List D → Nat
  | [] => 0
  | d :: rest => s.names fmt m d + s.namesOn m rest

/-- The queue has a place for the root and for every name on the distinct objects it
reaches. -/
def Store.Fits (s : Store D C) (m : Moment) (root : D) : Prop :=
  ∀ nodes : List D, nodes.Nodup → (∀ d ∈ nodes, s.Reaches fmt m root d) →
    1 + s.namesOn fmt m nodes ≤ maxObjects

variable {fmt} {s : Store D C} {m : Moment} {d d' root : D} {next reached : List D}

theorem Store.children_eq_ok :
    s.children fmt m d = .ok next ↔ ∃ entry, s.find d = some entry ∧
      ∃ digests, s.named fmt m entry = .ok digests ∧
        next = digests.filter (fun d => decide (d ≠ fmt.zero)) ∧
        ∀ d' ∈ next, ∃ entry, s.find d' = some entry := by
  unfold Store.children
  cases hfind : s.find d with
  | none => simp
  | some entry =>
    cases hnamed : s.named fmt m entry with
    | error e => simp [hnamed]
    | ok digests =>
      simp only [some.injEq, exists_eq_left', hnamed, Except.ok.injEq]
      constructor
      · intro h
        split at h
        · rename_i hall
          cases h
          refine ⟨rfl, fun d' hd' => ?_⟩
          exact isSome_iff_exists.mp (all_eq_true.mp hall d' hd')
        · cases h
      · rintro ⟨rfl, hall⟩
        rw [if_pos]
        exact all_eq_true.mpr fun d' hd' => isSome_iff_exists.mpr (hall d' hd')

theorem Store.whole_of_children (h : s.children fmt m d = .ok next) : s.Whole fmt m d := by
  obtain ⟨entry, hfind, digests, hnamed, -, -⟩ := children_eq_ok.mp h
  exact ⟨entry, hfind, digests, hnamed⟩

theorem Store.child_iff_of_children (h : s.children fmt m d = .ok next) :
    Child (s.children fmt m) d d' ↔ s.Names fmt m d d' := by
  obtain ⟨entry, hfind, digests, hnamed, rfl, -⟩ := children_eq_ok.mp h
  constructor
  · rintro ⟨next, hnext, hin⟩
    rw [h, Except.ok.injEq] at hnext
    rw [← hnext, mem_filter, decide_eq_true_eq] at hin
    exact ⟨entry, hfind, digests, hnamed, hin⟩
  · rintro ⟨entry', hfind', digests', hnamed', hin, hne⟩
    rw [hfind, some.injEq] at hfind'
    subst hfind'
    rw [hnamed, Except.ok.injEq] at hnamed'
    subst hnamed'
    exact ⟨_, h, mem_filter.mpr ⟨hin, decide_eq_true hne⟩⟩

theorem Store.degree_of_children (h : s.children fmt m d = .ok next) :
    degree (s.children fmt m) d = s.names fmt m d := by
  obtain ⟨entry, hfind, digests, hnamed, rfl, -⟩ := children_eq_ok.mp h
  simp only [degree, h, Store.names, hfind, hnamed]

/-! ### What is reached -/

theorem Store.reaches_iff_of_known (h : ∀ a, ReflTransGen (Child (s.children fmt m)) root a →
      ∃ next, s.children fmt m a = .ok next) :
    s.Reaches fmt m root d ↔ ReflTransGen (Child (s.children fmt m)) root d := by
  constructor
  · intro hd
    unfold Store.Reaches at hd
    induction hd with
    | refl => exact .refl
    | tail _ hstep ih =>
      obtain ⟨next, hnext⟩ := h _ ih
      exact ih.tail ((child_iff_of_children hnext).mpr hstep)
  · intro hd
    unfold Store.Reaches
    induction hd with
    | refl => exact .refl
    | tail hprev hstep ih =>
      obtain ⟨next, hnext⟩ := h _ hprev
      exact ih.tail ((child_iff_of_children hnext).mp hstep)

theorem Store.known_iff_whole :
    (∀ a, ReflTransGen (Child (s.children fmt m)) root a → ∃ next, s.children fmt m a = .ok next) ↔
      ∀ d, s.Reaches fmt m root d → s.Whole fmt m d := by
  constructor
  · intro h d hd
    obtain ⟨next, hnext⟩ := h d ((reaches_iff_of_known h).mp hd)
    exact whole_of_children hnext
  · intro h
    have hknown : ∀ d, s.Reaches fmt m root d → ∃ next, s.children fmt m d = .ok next := by
      intro d hd
      obtain ⟨entry, hfind, digests, hnamed⟩ := h d hd
      refine ⟨_, children_eq_ok.mpr ⟨entry, hfind, digests, hnamed, rfl, fun d' hd' => ?_⟩⟩
      rw [mem_filter, decide_eq_true_eq] at hd'
      obtain ⟨entry', hfind', -⟩ := h d' (hd.tail ⟨entry, hfind, digests, hnamed, hd'⟩)
      exact ⟨entry', hfind'⟩
    intro a ha
    refine hknown a ?_
    induction ha with
    | refl => exact .refl
    | tail _ hstep ih =>
      obtain ⟨next, hnext⟩ := hknown _ ih
      exact ih.tail ((child_iff_of_children hnext).mp hstep)

variable {nodes : List D}

theorem Store.degrees_eq (h : ∀ d ∈ nodes, ∃ next, s.children fmt m d = .ok next) :
    degrees (s.children fmt m) nodes = s.namesOn fmt m nodes := by
  induction nodes with
  | nil => rfl
  | cons d rest ih =>
    obtain ⟨next, hnext⟩ := h d mem_cons_self
    rw [degrees, Store.namesOn, degree_of_children hnext,
      ih fun d' hd' => h d' (mem_cons_of_mem d hd')]

/-! ### What `closure` computes -/

theorem Store.closure_eq_walk (hroot : ∃ entry, s.find root = some entry) :
    s.closure fmt m root
      = walk (s.children fmt m) .broken maxObjects (2 * maxObjects) [root] 1 [] := by
  obtain ⟨entry, hfind⟩ := hroot
  unfold Store.closure
  rw [hfind]

/-- **`closure` gets there exactly when everything the root reaches is present and well-formed
and the names on it fit the queue.** -/
theorem Store.closure_ok :
    (∃ reached, s.closure fmt m root = .ok reached) ↔
      (∀ d, s.Reaches fmt m root d → s.Whole fmt m d) ∧ s.Fits fmt m root := by
  cases hfind : s.find root with
  | none =>
    constructor
    · rintro ⟨reached, h⟩
      unfold Store.closure at h
      rw [hfind] at h
      cases h
    · rintro ⟨hwhole, -⟩
      obtain ⟨entry, hentry, -⟩ := hwhole root .refl
      rw [hfind] at hentry
      cases hentry
  | some entry =>
    have hwalk : (∃ reached, walk (s.children fmt m) .broken maxObjects (2 * maxObjects) [root]
        1 [] = .ok reached) ↔ _ := walk_ok (by decide) (by decide)
    rw [closure_eq_walk ⟨entry, hfind⟩, hwalk, ← known_iff_whole]
    refine and_congr_right fun hknown => ?_
    have hreach : ∀ d, s.Reaches fmt m root d ↔ ReflTransGen (Child (s.children fmt m)) root d :=
      fun d => reaches_iff_of_known hknown
    unfold Store.Fits
    simp only [hreach]
    constructor
    · intro h nodes hnodup hin
      rw [← degrees_eq fun d hd => hknown d (hin d hd)]
      exact h nodes hnodup hin
    · intro h nodes hnodup hin
      rw [degrees_eq fun d hd => hknown d (hin d hd)]
      exact h nodes hnodup hin

theorem Store.closure_lists (h : s.closure fmt m root = .ok reached) :
    reached.Nodup ∧ ∀ d, d ∈ reached ↔ s.Reaches fmt m root d := by
  have hknown := known_iff_whole.mpr (closure_ok.mp ⟨reached, h⟩).1
  cases hfind : s.find root with
  | none =>
    unfold Store.closure at h
    rw [hfind] at h
    cases h
  | some entry =>
    rw [closure_eq_walk ⟨entry, hfind⟩] at h
    refine ⟨walk_nodup h nodup_nil, fun d => ?_⟩
    rw [mem_walk h, reaches_iff_of_known hknown]

/-- **`closure` answers exactly what the root reaches, and answers whenever all of it is present
and well-formed, for the roots of which something is not or the names fit the queue, and for no
others.** -/
theorem Store.closure_correct_iff (fmt : Format D C) (s : Store D C) (m : Moment) (root : D) :
    (((∃ reached, s.closure fmt m root = .ok reached) ↔
          ∀ d, s.Reaches fmt m root d → s.Whole fmt m d) ∧
        ∀ reached, s.closure fmt m root = .ok reached →
          reached.Nodup ∧ ∀ d, d ∈ reached ↔ s.Reaches fmt m root d) ↔
      (∃ d, s.Reaches fmt m root d ∧ ¬ s.Whole fmt m d) ∨ s.Fits fmt m root := by
  constructor
  · rintro ⟨hiff, -⟩
    by_cases hwhole : ∀ d, s.Reaches fmt m root d → s.Whole fmt m d
    · exact Or.inr (closure_ok.mp (hiff.mpr hwhole)).2
    · push Not at hwhole
      exact Or.inl hwhole
  · intro h
    refine ⟨?_, fun reached hreached => closure_lists hreached⟩
    rw [closure_ok]
    refine and_iff_left_of_imp fun hwhole => ?_
    rcases h with ⟨d, hd, hnot⟩ | hfits
    · exact absurd (hwhole d hd) hnot
    · exact hfits

/-! ### A root with more names than the queue has places

One object of bytes, bound twelve times in each of three trees, and a fourth time beside them
in the tree that binds the three. -/

/-- An object's children are known and among `nodes`. -/
def Store.within (fmt : Format D C) (s : Store D C) (m : Moment) (nodes : List D) (d : D) : Bool :=
  match s.children fmt m d with
  | .error _ => false
  | .ok next => next.all fun d' => decide (d' ∈ nodes)

theorem Store.whole_of_within (hroot : root ∈ nodes)
    (hwithin : nodes.all (s.within fmt m nodes) = true) :
    ∀ d, s.Reaches fmt m root d → s.Whole fmt m d := by
  have hclosed : ∀ d ∈ nodes, ∃ next, s.children fmt m d = .ok next ∧ next ⊆ nodes := by
    intro d hd
    have hin := all_eq_true.mp hwithin d hd
    unfold Store.within at hin
    split at hin
    · cases hin
    · rename_i next hnext
      refine ⟨next, hnext, fun d' hd' => ?_⟩
      exact of_decide_eq_true (all_eq_true.mp hin d' hd')
  refine known_iff_whole.mp fun a ha => ?_
  have hin : a ∈ nodes := by
    induction ha with
    | refl => exact hroot
    | tail _ hstep ih =>
      obtain ⟨next, hnext, hsub⟩ := hclosed _ ih
      obtain ⟨next', hnext', hin⟩ := hstep
      rw [hnext, Except.ok.injEq] at hnext'
      exact hsub (hnext' ▸ hin)
  obtain ⟨next, hnext, -⟩ := hclosed a hin
  exact ⟨next, hnext⟩

section Sample

/-- A staged object. -/
def ObjectEntry.staged (objectType : Nat) (content : Content Symbol) :
    ObjectEntry Symbol (Content Symbol) where
  digest := symbolicFormat.objectDigest objectType content
  objectType := objectType
  length := symbolicFormat.size content
  block := 0
  durable := false
  stage := some content
  pinned := false

/-- A tree that binds the digests of a list to one-letter names. -/
def boundTree (flags : Nat) (digests : List Symbol) : Content Symbol :=
  .tree (digests.zipIdx.map fun (digest, i) =>
    { name := [97 + UInt8.ofNat i], childType := 1, flags, length := 0, digest })

def sharedLeaf : ObjectEntry Symbol (Content Symbol) := .staged ObjectType.bytes.code (.raw [])

def sharingTree (flags : Nat) : ObjectEntry Symbol (Content Symbol) :=
  .staged ObjectType.tree.code (boundTree flags (List.replicate 12 sharedLeaf.digest))

def sharingRoot : ObjectEntry Symbol (Content Symbol) :=
  .staged ObjectType.tree.code (boundTree 0
    [(sharingTree 1).digest, (sharingTree 2).digest, (sharingTree 3).digest, sharedLeaf.digest])

def sharingObjects : List (ObjectEntry Symbol (Content Symbol)) :=
  [sharedLeaf, sharingTree 1, sharingTree 2, sharingTree 3, sharingRoot]

/-- A store that holds them, over a medium that answers every read. -/
def sharingStore : Store Symbol (Content Symbol) :=
  { Store.new symbolicFormat (.new (fun _ => .settled .other) (fun _ _ => false) []) [] 16 with
    objects := sharingObjects
    stageUsed := 5
    ready := true }

/-- Everything is there and well-formed, five objects of the forty the index can name, and
`closure` refuses. -/
theorem closure_refuses_whole :
    (∀ d, sharingStore.Reaches symbolicFormat [] sharingRoot.digest d →
        sharingStore.Whole symbolicFormat [] d) ∧
      ¬ ∃ reached, sharingStore.closure symbolicFormat [] sharingRoot.digest = .ok reached := by
  constructor
  · have hwithin : (sharingObjects.map ObjectEntry.digest).all
        (sharingStore.within symbolicFormat [] (sharingObjects.map ObjectEntry.digest)) = true := by
      decide +kernel
    exact Store.whole_of_within (by decide +kernel) hwithin
  · rintro ⟨reached, h⟩
    have hbroken : (sharingStore.closure symbolicFormat [] sharingRoot.digest).toOption = none := by
      decide +kernel
    rw [h] at hbroken
    cases hbroken

end Sample

end Thalyx.K4
