/-
The service's workspaces: `Workspace` and the operations on it, of `user/k4store/src/main.rs`.

A workspace is a fixed array of bindings and a count of those in use, and `bind` keeps the
names in order by moving the bindings behind the new one up by a place, one by one, from the
last.  The operations below are over that array and over the bytes of the published tree;
what a request finds in the index or on the medium is part of the request, so nothing is
assumed of it.

`bind` is an update of a map kept in the order of its names.  From that, every workspace there
ever is can be frozen: its names are legal and ascend, and there are no more of them than a
tree may have.
-/
import Mathlib.Data.List.Induction
import ThalyxKernel.Format.Tree
import ThalyxKernel.Lib.Keyed
import ThalyxKernel.Lib.Run
import ThalyxKernel.Store.Service

namespace Thalyx.Wire

open Keyed Option

/-- `Binding::default`. -/
def Binding.blank : Binding where
  stored := Vector.replicate 32 0
  nameLen := 0
  childType := 0
  flags := 0
  length := 0
  digest := Vector.replicate 32 0
  nameLen_le := by decide

/-- `Workspace`, while it is live. -/
structure Workspace where
  owner : Nat
  baseGeneration : Nat
  count : Nat
  bindings : List Binding
  length_bindings : bindings.length = maxTreeEntries
  count_le : count ≤ maxTreeEntries

theorem ordered_iff (entries : List Binding) :
    ordered entries = true ↔ Keyed.Ascending Binding.name entries := by
  induction entries with
  | nil => exact iff_of_true rfl List.Pairwise.nil
  | cons a rest ih =>
    cases rest with
    | nil => exact iff_of_true rfl (List.pairwise_singleton _ _)
    | cons b rest =>
      have hcons : ordered (a :: b :: rest) =
          (decide (a.name < b.name) && ordered (b :: rest)) :=
        rfl
      rw [hcons, Bool.and_eq_true, decide_eq_true_eq, ih]
      constructor
      · rintro ⟨hab, hrest⟩
        refine List.pairwise_cons.mpr ⟨fun e he => ?_, hrest⟩
        rcases List.mem_cons.mp he with rfl | he
        · exact hab
        · exact Trans.trans hab ((List.pairwise_cons.mp hrest).1 e he)
      · intro h
        obtain ⟨hhead, hrest⟩ := List.pairwise_cons.mp h
        exact ⟨hhead b List.mem_cons_self, hrest⟩

namespace Workspace

/-- The bindings in use. -/
def held (w : Workspace) : List Binding := w.bindings.take w.count

/-- What a name is bound to. -/
def lookup (w : Workspace) (name : Bytes) : Option Binding := Keyed.get Binding.name name w.held

theorem length_held (w : Workspace) : w.held.length = w.count := by
  have := w.count_le
  rw [held, List.length_take, w.length_bindings]
  omega

/-! ### `Workspace::bind` -/

/-- Where the first loop of `bind` ends: at the binding of an equal name, at that of the first
greater one, or past the last. -/
inductive Place where
  | equal (index : Nat)
  | before (index : Nat)

/-- The first loop, with `left` turns to go from `index` on. -/
def place (name : Bytes) (bindings : List Binding) : Nat → Nat → Place
  | 0, index => .before index
  | left + 1, index =>
    let held := (bindings.getD index .blank).name
    if held = name then .equal index
    else if name < held then .before index
    else place name bindings left (index + 1)

/-- The second loop: the bindings from `at_` on are moved up by a place, from the last. -/
def shift (at_ : Nat) : Nat → List Binding → List Binding
  | 0, bindings => bindings
  | slot + 1, bindings =>
    if at_ < slot + 1 then shift at_ slot (bindings.set (slot + 1) (bindings.getD slot .blank))
    else bindings

theorem length_shift (at_ slot : Nat) (bindings : List Binding) :
    (shift at_ slot bindings).length = bindings.length := by
  induction slot generalizing bindings with
  | zero => rfl
  | succ slot ih =>
    unfold shift
    split
    · rw [ih, List.length_set]
    · rfl

/-- `Workspace::bind`: the count, or a refusal, and the workspace. -/
def bind (w : Workspace) (binding : Binding) : Except StoreStatus Nat × Workspace :=
  match place binding.name w.bindings w.count 0 with
  | .equal index =>
    (.ok w.count, { w with
      bindings := w.bindings.set index binding
      length_bindings := by rw [List.length_set, w.length_bindings] })
  | .before index =>
    if hfull : w.count = maxTreeEntries then (.error .exhausted, w)
    else
      (.ok (w.count + 1), { w with
        count := w.count + 1
        bindings := (shift index w.count w.bindings).set index binding
        length_bindings := by rw [List.length_set, length_shift, w.length_bindings]
        count_le := by
          have := w.count_le
          omega })

/-! ### The loops -/

theorem place_past {name : Bytes} {low high after : List Binding}
    (hlow : ∀ e ∈ low, e.name ≠ name ∧ ¬ name < e.name) (done : List Binding) :
    place name (done ++ (low ++ (high ++ after))) (low.length + high.length) done.length
      = place name (done ++ (low ++ (high ++ after))) high.length (done.length + low.length) := by
  induction low generalizing done with
  | nil => simp
  | cons e low ih =>
    obtain ⟨⟨hne, hnlt⟩, hrest⟩ := List.forall_mem_cons.mp hlow
    have hget : (done ++ (e :: low ++ (high ++ after))).getD done.length .blank = e := by
      simp [List.getD_eq_getElem?_getD]
    have hturns : (e :: low).length + high.length = (low.length + high.length) + 1 := by
      rw [List.length_cons]
      omega
    rw [hturns, place, hget, if_neg hne, if_neg hnlt]
    have hnext := ih hrest (done ++ [e])
    rw [List.append_assoc, List.length_append, List.length_singleton] at hnext
    rw [List.length_cons, ← Nat.add_assoc, Nat.add_right_comm]
    exact hnext

variable {binding : Binding}

theorem place_equal {low rest after : List Binding} {e : Binding}
    (hlow : ∀ e ∈ low, e.name ≠ binding.name ∧ ¬ binding.name < e.name)
    (hname : e.name = binding.name) :
    place binding.name ((low ++ e :: rest) ++ after) (low ++ e :: rest).length 0
      = .equal low.length := by
  have hpast := @place_past binding.name low (e :: rest) after hlow []
  have hget : (low ++ (e :: rest ++ after)).getD low.length .blank = e := by
    simp [List.getD_eq_getElem?_getD]
  rw [List.nil_append, List.length_nil, Nat.zero_add] at hpast
  rw [List.append_assoc, List.length_append, hpast, List.length_cons, place, hget, if_pos hname]

theorem place_before {low high after : List Binding}
    (hlow : ∀ e ∈ low, e.name ≠ binding.name ∧ ¬ binding.name < e.name)
    (hhigh : ∀ e rest, high = e :: rest → binding.name < e.name) :
    place binding.name ((low ++ high) ++ after) (low ++ high).length 0 = .before low.length := by
  have hpast := @place_past binding.name low high after hlow []
  rw [List.nil_append, List.length_nil, Nat.zero_add] at hpast
  rw [List.append_assoc, List.length_append, hpast]
  cases high with
  | nil => rfl
  | cons e rest =>
    have hlt := hhigh e rest rfl
    have hget : (low ++ (e :: rest ++ after)).getD low.length .blank = e := by
      simp [List.getD_eq_getElem?_getD]
    have hne : e.name ≠ binding.name := (ne_of_lt hlt).symm
    rw [List.length_cons, place, hget, if_neg hne, if_pos hlt]

theorem shift_spec (low : List Binding) {high after : List Binding} {spare : Binding} :
    ∃ left, shift low.length (low.length + high.length) (low ++ high ++ spare :: after)
      = low ++ left :: high ++ after := by
  induction high using List.reverseRecOn generalizing spare after with
  | nil =>
    refine ⟨spare, ?_⟩
    rw [List.length_nil, Nat.add_zero]
    cases low with
    | nil => rfl
    | cons e low =>
      rw [List.length_cons, shift, if_neg (Nat.lt_irrefl _)]
      simp
  | append_singleton high e ih =>
    have hlen : low.length + (high ++ [e]).length = (low.length + high.length) + 1 := by
      simp [Nat.add_assoc]
    have hlist :
        low ++ (high ++ [e]) ++ spare :: after = (low ++ high) ++ e :: spare :: after := by
      simp
    have hget : ((low ++ high) ++ e :: spare :: after).getD (low.length + high.length) .blank
        = e := by
      rw [← List.length_append]
      simp [List.getD_eq_getElem?_getD]
    have hset : ((low ++ high) ++ e :: spare :: after).set (low.length + high.length + 1) e
        = low ++ high ++ e :: e :: after := by
      rw [← List.length_append, List.set_append_right _ _ (Nat.le_add_right _ 1),
        Nat.add_sub_cancel_left]
      rfl
    obtain ⟨left, hleft⟩ := @ih (e :: after) e
    refine ⟨left, ?_⟩
    rw [hlen, hlist, shift, if_pos (by omega), hget, hset, hleft]
    simp

/-! ### `bind` is the update of a map -/

theorem bindings_eq (w : Workspace) : w.bindings = w.held ++ w.bindings.drop w.count :=
  (List.take_append_drop _ _).symm

variable {w : Workspace}

theorem held_eq_of {xs after : List Binding} (h : w.bindings = xs ++ after)
    (hlen : xs.length = w.count) : w.held = xs := by
  rw [held, h, ← hlen, List.take_left]

theorem bind_cases (w : Workspace) (binding : Binding) (h : Keyed.Ascending Binding.name w.held) :
    (w.lookup binding.name = none ∧ w.count = maxTreeEntries ∧
        w.bind binding = (.error .exhausted, w)) ∨
      (¬ (w.lookup binding.name = none ∧ w.count = maxTreeEntries) ∧
        (w.bind binding).1 = .ok (w.bind binding).2.count ∧
        (w.bind binding).2.held = Keyed.put Binding.name binding w.held) := by
  obtain ⟨low, high, hheld, hlow, hput⟩ := @Keyed.put_split _ _ _ _ _ Binding.name binding w.held
  have hcount : (low ++ high).length = w.count := by rw [← hheld, length_held]
  obtain ⟨tail, hbindings⟩ : ∃ tail, w.bindings = (low ++ high) ++ tail := by
    rw [← hheld]
    exact ⟨_, w.bindings_eq⟩
  rcases hput with ⟨e, rest, rfl, hname, hput⟩ | ⟨hhigh, hput⟩
  · -- the name is there, and its binding is replaced
    have hplace : place binding.name w.bindings w.count 0 = .equal low.length := by
      rw [hbindings, ← hcount]
      exact place_equal hlow hname
    have hbind : (w.bind binding).1 = .ok w.count ∧ (w.bind binding).2.count = w.count ∧
        (w.bind binding).2.bindings = w.bindings.set low.length binding := by
      unfold bind
      rw [hplace]
      exact ⟨rfl, rfl, rfl⟩
    have hlookup : w.lookup binding.name ≠ none := by
      intro hnone
      refine Keyed.get_eq_none.mp hnone e ?_ hname
      rw [hheld]
      simp
    have hset : (w.bind binding).2.bindings = (low ++ binding :: rest) ++ tail := by
      rw [hbind.2.2, hbindings]
      simp
    refine Or.inr ⟨fun hrefused => hlookup hrefused.1, by rw [hbind.1, hbind.2.1], ?_⟩
    rw [hput, held_eq_of hset]
    rw [hbind.2.1, ← hcount, List.length_append, List.length_append, List.length_cons,
      List.length_cons]
  · -- the name is new
    have hplace : place binding.name w.bindings w.count 0 = .before low.length := by
      rw [hbindings, ← hcount]
      exact place_before hlow hhigh
    have hlookup : w.lookup binding.name = none := by
      refine Keyed.get_eq_none.mpr fun e he => ?_
      rw [hheld] at he h
      rcases List.mem_append.mp he with he | he
      · exact (hlow e he).1
      · cases high with
        | nil => cases he
        | cons first rest =>
          have hfirst := hhigh first rest rfl
          rcases List.mem_cons.mp he with rfl | he
          · exact (ne_of_lt hfirst).symm
          · have hafter := (List.pairwise_cons.mp (List.pairwise_append.mp h).2.1).1 e he
            exact (ne_of_lt (Trans.trans hfirst hafter)).symm
    by_cases hfull : w.count = maxTreeEntries
    · refine Or.inl ⟨hlookup, hfull, ?_⟩
      unfold bind
      rw [hplace]
      exact dif_pos hfull
    · have hbind : (w.bind binding).1 = .ok (w.count + 1) ∧
          (w.bind binding).2.count = w.count + 1 ∧
          (w.bind binding).2.bindings
            = (shift low.length w.count w.bindings).set low.length binding := by
        unfold bind
        rw [hplace]
        dsimp only
        rw [dif_neg hfull]
        exact ⟨rfl, rfl, rfl⟩
      have htail : tail ≠ [] := by
        rintro rfl
        have hlen := congrArg List.length hbindings
        rw [List.append_nil, hcount, w.length_bindings] at hlen
        exact hfull hlen.symm
      obtain ⟨spare, after, hafter⟩ := List.exists_cons_of_ne_nil htail
      obtain ⟨left, hleft⟩ := @shift_spec low high after spare
      have hset : (w.bind binding).2.bindings = (low ++ binding :: high) ++ after := by
        rw [hbind.2.2, hbindings, hafter, ← hcount, List.length_append, hleft]
        simp
      refine Or.inr ⟨fun hrefused => hfull hrefused.2, by rw [hbind.1, hbind.2.1], ?_⟩
      rw [hput, held_eq_of hset]
      rw [hbind.2.1, ← hcount, List.length_append, List.length_append, List.length_cons]
      omega

/-- The names of a workspace ascend and are legal. -/
structure Fit (w : Workspace) : Prop where
  ascending : Keyed.Ascending Binding.name w.held
  legal : ∀ b ∈ w.held, legalName b.name = true

theorem Fit.bind (h : w.Fit) (hlegal : legalName binding.name = true) : (w.bind binding).2.Fit := by
  rcases bind_cases w binding h.ascending with ⟨-, -, hbind⟩ | ⟨-, -, hheld⟩
  · rw [hbind]
    exact h
  · refine ⟨?_, fun b hb => ?_⟩
    · rw [hheld]
      exact ascending_put h.ascending
    · rw [hheld] at hb
      rcases mem_put hb with rfl | hb
      · exact hlegal
      · exact h.legal b hb

theorem Fit.canonical (h : w.Fit) : Canonical w.held where
  few := w.length_held ▸ w.count_le
  ordered := (ordered_iff _).mpr h.ascending
  legal := h.legal

end Workspace

/-! ### The requests -/

variable {found out : List Binding}

theorem length_decodeEntries {bytes : Bytes} {left index : Nat}
    (h : decodeEntries bytes left index out = .ok found) : found.length = out.length := by
  induction left generalizing index out with
  | zero => rw [Except.ok.inj h]
  | succ left ih =>
    unfold decodeEntries at h
    split at h
    · cases h
    · rename_i raw hraw
      cases hentry : decodeEntry raw with
      | error e =>
        rw [hentry] at h
        cases h
      | ok binding =>
        rw [hentry] at h
        dsimp only [bind, Except.bind] at h
        split at h
        · cases h
        · rw [ih h, List.length_set]

theorem decodeTree_shape {bytes : Bytes} {count : Nat}
    (h : decodeTree bytes out = .ok (found, count)) :
    found.length = out.length ∧ count ≤ maxTreeEntries := by
  unfold decodeTree at h
  split at h
  · cases h
  · rename_i header hheader
    dsimp only at h
    split at h
    · cases h
    · rename_i hfields
      split at h
      · cases h
      · cases hentries : decodeEntries bytes header.entryCount.toNat 0 out with
        | error e =>
          rw [hentries] at h
          cases h
        | ok filled =>
          rw [hentries] at h
          obtain ⟨rfl, rfl⟩ := Prod.mk.inj (Except.ok.inj h)
          exact ⟨length_decodeEntries hentries, by omega⟩

/-- The workspaces of the service, one to a slot. -/
structure Workspaces where
  slots : List (Option Workspace)

/-- What the index has under a digest: `ObjectEntry`, the fields `write` reads. -/
structure Indexed where
  objectType : UInt32
  length : UInt32
  digest : Digest

/-- The requests that change a workspace, with what they find in the store. -/
inductive WorkspaceRequest where
  /-- `published` is the published generation, and `tree` the bytes of its tree, if they can be
  had. -/
  | fork (principal generation published : Nat) (tree : Option Bytes)
  /-- `entry` is what the index has under the request's digest. -/
  | write (principal id : Nat) (name : Vector UInt8 32) (nameLen : Nat) (flags : UInt32)
      (entry : Option Indexed)
  | discard (principal id : Nat)

namespace Workspaces

/-- No workspace is live. -/
def new : Workspaces := ⟨List.replicate K4.maxWorkspaces none⟩

/-- `Service::workspace`: the slot an id names, if this principal owns it. -/
def workspace (s : Workspaces) (id principal : Nat) : Option (Nat × Workspace) :=
  if id = 0 then none
  else
    match s.slots.getD (id - 1) none with
    | none => none
    | some w => if w.owner = principal then some (id - 1, w) else none

/-- `Service::fork`. -/
def fork (s : Workspaces) (principal generation published : Nat) (tree : Option Bytes) :
    StoreStatus × Workspaces :=
  if generation ≠ published then (.generationStale, s)
  else
    match s.slots.findIdx? Option.isNone with
    | none => (.exhausted, s)
    | some slot =>
      let blank := List.replicate maxTreeEntries Binding.blank
      if published = 0 then
        (.ok, ⟨s.slots.set slot (some {
          owner := principal, baseGeneration := generation, count := 0, bindings := blank
          length_bindings := List.length_replicate, count_le := Nat.zero_le _ })⟩)
      else
        match tree with
        | none => (.integrityFailed, s)
        | some bytes =>
          match h : decodeTree bytes blank with
          | .error _ => (.integrityFailed, s)
          | .ok (bindings, count) =>
            (.ok, ⟨s.slots.set slot (some {
              owner := principal, baseGeneration := generation, count, bindings
              length_bindings := (decodeTree_shape h).1.trans List.length_replicate
              count_le := (decodeTree_shape h).2 })⟩)

/-- `Service::write`. -/
def write (s : Workspaces) (principal id : Nat) (name : Vector UInt8 32) (nameLen : Nat)
    (flags : UInt32) (entry : Option Indexed) : StoreStatus × Workspaces :=
  match s.workspace id principal with
  | none => (.notFound, s)
  | some (slot, w) =>
    if nameLen = 0 ∨ 32 < nameLen then (.invalidRequest, s)
    else
      match entry with
      | none => (.notFound, s)
      | some entry =>
        match Binding.new (name.toList.take nameLen) entry.objectType flags
            entry.length.toUInt64 entry.digest with
        | .error _ => (.invalidRequest, s)
        | .ok binding =>
          match w.bind binding with
          | (.error status, w) => (status, ⟨s.slots.set slot (some w)⟩)
          | (.ok _, w) => (.ok, ⟨s.slots.set slot (some w)⟩)

/-- `Service::discard`. -/
def discard (s : Workspaces) (principal id : Nat) : StoreStatus × Workspaces :=
  match s.workspace id principal with
  | none => (.notFound, s)
  | some (slot, _) => (.ok, ⟨s.slots.set slot none⟩)

def serve (s : Workspaces) : WorkspaceRequest → StoreStatus × Workspaces
  | .fork principal generation published tree => s.fork principal generation published tree
  | .write principal id name nameLen flags entry => s.write principal id name nameLen flags entry
  | .discard principal id => s.discard principal id

/-- Every sequence of these requests, whatever they find. -/
def system : System Workspaces WorkspaceRequest :=
  .ofStep (· = .new) fun s request => some (s.serve request).2

/-! ### Every workspace can be frozen -/

/-- Every live workspace of the service is fit. -/
def Fit (s : Workspaces) : Prop := ∀ w, some w ∈ s.slots → w.Fit

variable {s : Workspaces}

theorem Fit.set (h : s.Fit) {slot : Nat} {space : Option Workspace}
    (hspace : ∀ w, space = some w → w.Fit) : Fit ⟨s.slots.set slot space⟩ := by
  intro w hw
  rcases List.mem_or_eq_of_mem_set hw with hw | hw
  · exact h w hw
  · exact hspace w hw.symm

theorem Fit.of_workspace (h : s.Fit) {id principal slot : Nat} {w : Workspace}
    (hw : s.workspace id principal = some (slot, w)) : w.Fit := by
  unfold workspace at hw
  split at hw
  · cases hw
  split at hw
  · cases hw
  · rename_i w' hget
    split at hw
    · obtain ⟨-, rfl⟩ := Prod.mk.inj (some.inj hw)
      refine h w' ?_
      rw [List.getD_eq_getElem?_getD] at hget
      cases hslot : s.slots[id - 1]? with
      | none => rw [hslot] at hget; cases hget
      | some space =>
        rw [hslot] at hget
        exact hget ▸ List.mem_of_getElem? hslot
    · cases hw

theorem Fit.fork (h : s.Fit) (principal generation published : Nat)
    (tree : Option Bytes) : (s.fork principal generation published tree).2.Fit := by
  unfold Workspaces.fork
  split
  · exact h
  split
  · exact h
  dsimp only
  split
  · refine h.set fun w hw => ?_
    cases hw
    exact ⟨List.Pairwise.nil, fun b hb => absurd hb List.not_mem_nil⟩
  cases tree with
  | none => exact h
  | some bytes =>
    dsimp only
    split
    · exact h
    · rename_i bindings count hdecode
      obtain ⟨hcanonical, -, hadmitted⟩ := decodeTree_ok hdecode
      refine h.set fun w hw => ?_
      cases hw
      exact ⟨(ordered_iff _).mp hcanonical.ordered, hcanonical.legal⟩

theorem Fit.write (h : s.Fit) (principal id : Nat) (name : Vector UInt8 32)
    (nameLen : Nat) (flags : UInt32) (entry : Option Indexed) :
    (s.write principal id name nameLen flags entry).2.Fit := by
  unfold Workspaces.write
  split
  · exact h
  rename_i slot w hw
  split
  · exact h
  split
  · exact h
  split
  · exact h
  rename_i binding hnew
  have hlegal : legalName binding.name = true := by
    have hbuilt : binding.Built := ⟨_, _, _, _, _, hnew⟩
    exact hbuilt.admitted.legal
  have hbound : (w.bind binding).2.Fit := (h.of_workspace hw).bind hlegal
  split
  · rename_i hbind
    rw [hbind] at hbound
    exact h.set fun w' hw' => some.inj hw' ▸ hbound
  · rename_i hbind
    rw [hbind] at hbound
    exact h.set fun w' hw' => some.inj hw' ▸ hbound

theorem Fit.discard (h : s.Fit) (principal id : Nat) : (s.discard principal id).2.Fit := by
  unfold Workspaces.discard
  split
  · exact h
  · exact h.set fun w hw => by cases hw

theorem Fit.serve (h : s.Fit) (request : WorkspaceRequest) : (s.serve request).2.Fit := by
  cases request with
  | fork principal generation published tree => exact h.fork principal generation published tree
  | write principal id name nameLen flags entry =>
    exact h.write principal id name nameLen flags entry
  | discard principal id => exact h.discard principal id

theorem fit_of_reachable (h : system.Reachable s) : s.Fit := by
  refine h.invariant ?_ ?_
  · rintro s rfl w hw
    cases List.eq_of_mem_replicate hw
  · intro s request s' hs hstep
    cases hstep
    exact hs.serve request

/-- **A workspace is a map in the order of its names, and can always be frozen**: after every
sequence of requests its names ascend and are legal, `bind` is the update of the map or a
refusal of a new name that there is no room for, and `encode_tree` does not refuse it. -/
theorem workspace_freezes {s : Workspaces} (h : system.Reachable s) {w : Workspace}
    (hw : some w ∈ s.slots) :
    (Keyed.Ascending Binding.name w.held ∧ (∀ b ∈ w.held, legalName b.name = true) ∧
        w.held.length ≤ maxTreeEntries) ∧
      (∀ binding : Binding, binding.Built →
        if w.lookup binding.name = none ∧ w.held.length = maxTreeEntries then
          w.bind binding = (.error .exhausted, w)
        else
          (w.bind binding).1 = .ok (w.bind binding).2.held.length ∧
            ∀ name, (w.bind binding).2.lookup name
              = if name = binding.name then some binding else w.lookup name) ∧
      ∀ out : Bytes, out.length = K4.objectMax →
        ∃ written, encodeTree out w.held = .ok written := by
  have hfit : w.Fit := fit_of_reachable h w hw
  refine ⟨⟨hfit.ascending, hfit.legal, hfit.canonical.few⟩, fun binding _ => ?_, fun out hout => ?_⟩
  · rw [w.length_held]
    rcases w.bind_cases binding hfit.ascending with ⟨hnew, hfull, hbind⟩ | ⟨hroom, hok, hheld⟩
    · rw [if_pos ⟨hnew, hfull⟩]
      exact hbind
    · rw [if_neg hroom, Workspace.length_held]
      refine ⟨hok, fun name => ?_⟩
      unfold Workspace.lookup
      rw [hheld, get_put]
  · have hroom : (treeBytes w.held).length ≤ out.length := by
      have hfew := hfit.canonical.few
      rw [length_treeBytes, hout]
      unfold treeHeaderSize treeEntrySize K4.objectMax
      unfold maxTreeEntries at hfew
      omega
    obtain ⟨out', hencode, -⟩ := encodeTree_of_canonical hfit.canonical hroom
    exact ⟨_, hencode⟩

/-- A workspace over no version, with two names bound to it out of order. -/
def twoNames : List WorkspaceRequest :=
  let entry : Indexed := ⟨1, 0, Vector.replicate 32 0⟩
  [.fork 1 0 0 none, .write 1 1 (Vector.replicate 32 98) 1 0 (some entry),
    .write 1 1 (Vector.replicate 32 97) 2 0 (some entry)]

/-- The first workspace after some requests. -/
def firstAfter (requests : List WorkspaceRequest) : Option Workspace :=
  (System.exec (fun s request => some (serve s request).2) requests new).bind fun s =>
    s.slots.getD 0 none

theorem two_names_freeze :
    ∃ s w, system.Reachable s ∧ some w ∈ s.slots ∧ w.held.map Binding.name = [[97, 97], [98]] ∧
      ∀ out : Bytes, out.length = K4.objectMax →
        ∃ written, encodeTree out w.held = .ok written := by
  have hnames : (firstAfter twoNames).map (fun w => w.held.map Binding.name)
      = some [[97, 97], [98]] := by decide +kernel
  obtain ⟨w, hw, hheld⟩ := map_eq_some_iff.mp hnames
  obtain ⟨s, hs, hslot⟩ := bind_eq_some_iff.mp hw
  have hreachable : system.Reachable s := System.reachable_of_exec (.init rfl) hs
  have hmem : some w ∈ s.slots := by
    rw [List.getD_eq_getElem?_getD] at hslot
    cases hget : s.slots[0]? with
    | none => rw [hget] at hslot; cases hslot
    | some space =>
      rw [hget] at hslot
      exact hslot ▸ List.mem_of_getElem? hget
  exact ⟨s, w, hreachable, hmem, hheld, (workspace_freezes hreachable hmem).2.2⟩

end Workspaces

end Thalyx.Wire
