/-
Capability tables over runs: `CapTable` of `kernel/src/obj.rs`.

A run is a list of calls on a table that begins empty, and each call leaves an event: a handle
was issued, a slot was released, or the call was refused.  What a handle stands for is read
off the events alone: it is held from the event that issued it until its slot is released.
The table is then compared with that.

Everything but one part of the comparison holds of every run.  The part that does not is when
`install` succeeds.  It takes the lowest slot that is neither live nor retired and gives up
if `install_at` refuses that slot, which it does when the slot's generations are used up.  The
slot is retired then and the next installation gets past it, but this one was refused
although a higher slot would have done.
-/
import ThalyxKernel.Kernel.Entries

namespace Thalyx.Kernel

open Function List Option

/-! ### Calls and events -/

/-- What can be asked of a table. -/
inductive TableCall where
  | install (object : ObjRef) (grant : Option GrantId)
  | installAt (slot : Nat) (object : ObjRef) (grant : Option GrantId)
  | release (handle : Handle)
  | releaseSlot (slot : Nat)

/-- What a call did. -/
inductive TableEvent where
  | installed (handle : Handle) (object : ObjRef) (grant : Option GrantId)
  | released (slot : Nat)
  | refused
  deriving DecidableEq

/-- The event of an installation that answered `handle`. -/
def TableEvent.ofInstall (object : ObjRef) (grant : Option GrantId) : Option Handle → TableEvent
  | some handle => .installed handle object grant
  | none => .refused

/-- The event of a release of `slot` that answered `entry`. -/
def TableEvent.ofRelease (slot : Nat) : Option CapEntry → TableEvent
  | some _ => .released slot
  | none => .refused

/-- The handle an event issued. -/
def TableEvent.handle? : TableEvent → Option Handle
  | .installed handle _ _ => some handle
  | _ => none

/-- One call.  A slot past the end of the table is refused, as `get_mut` refuses it. -/
def CapTable.call (t : CapTable) : TableCall → CapTable × TableEvent
  | .install object grant =>
    ((t.install object grant).1, .ofInstall object grant (t.install object grant).2)
  | .installAt slot object grant =>
    if h : slot < maxCaps then
      ((t.installAt ⟨slot, h⟩ object grant).1,
        .ofInstall object grant (t.installAt ⟨slot, h⟩ object grant).2)
    else (t, .refused)
  | .release handle => ((t.release handle).1, .ofRelease handle.slot (t.release handle).2)
  | .releaseSlot slot =>
    if h : slot < maxCaps then
      ((t.releaseSlot ⟨slot, h⟩).1, .ofRelease slot (t.releaseSlot ⟨slot, h⟩).2)
    else (t, .refused)

/-- A table and the events that led to it, oldest first. -/
structure TableTrace where
  table : CapTable
  events : List TableEvent

/-- The empty table, and nothing done. -/
def TableTrace.start : TableTrace := ⟨.new, []⟩

def TableTrace.call (s : TableTrace) (c : TableCall) : TableTrace :=
  ⟨(s.table.call c).1, s.events ++ [(s.table.call c).2]⟩

/-- What a list of calls leads to. -/
def tableRun (calls : List TableCall) : TableTrace := calls.foldl .call .start

theorem tableRun_concat (calls : List TableCall) (c : TableCall) :
    tableRun (calls ++ [c]) = (tableRun calls).call c := by
  simp [tableRun, foldl_append]

/-! ### What one call can do -/

/-- What a release leaves in a slot. -/
def CapEntry.vacated (e : CapEntry) : CapEntry := { e with live := false, grant := none }

/-- A slot withdrawn because its generations are used up. -/
def CapEntry.withdrawn (e : CapEntry) : CapEntry := { e with retired := true }

/-- The ways one call can change a table, and the event of each. -/
inductive CapTable.Moves (t : CapTable) : CapTable → TableEvent → Prop where
  | install (i : CapSlot) (object : ObjRef) (grant : Option GrantId) : t.usable i →
      t.Moves (Function.update t i (t.fresh i object grant))
        (.installed ⟨i, (t i).generation + 1⟩ object grant)
  | release (i : CapSlot) : (t i).live = true →
      t.Moves (Function.update t i (t i).vacated) (.released i)
  | withdraw (i : CapSlot) : (t i).live = false →
      t.Moves (Function.update t i (t i).withdrawn) .refused
  | refuse : t.Moves t .refused

namespace CapTable

variable (t : CapTable)
variable {i : CapSlot}

theorem installAt_taken (h : (t i).live = true ∨ (t i).retired = true)
    (object : ObjRef) (grant : Option GrantId) : t.installAt i object grant = (t, none) := by
  have htaken : ((t i).live || (t i).retired) = true := by simpa using h
  simp [installAt, htaken]

theorem installAt_exhausted (hlive : (t i).live = false)
    (hretired : (t i).retired = false) (hgen : (t i).generation = u32Max) (object : ObjRef)
    (grant : Option GrantId) : t.installAt i object grant = (update t i (t i).withdrawn, none) := by
  simp [installAt, hlive, hretired, hgen, CapEntry.withdrawn]

theorem moves_installAt (i : CapSlot) (object : ObjRef) (grant : Option GrantId) :
    t.Moves (t.installAt i object grant).1
      (.ofInstall object grant (t.installAt i object grant).2) := by
  by_cases htaken : (t i).live = true ∨ (t i).retired = true
  · rw [installAt_taken t htaken]
    exact .refuse
  simp only [not_or, Bool.not_eq_true] at htaken
  by_cases hgen : (t i).generation = u32Max
  · rw [installAt_exhausted t htaken.1 htaken.2 hgen]
    exact .withdraw i htaken.1
  · have husable : t.usable i := ⟨htaken.1, htaken.2, hgen⟩
    rw [installAt_of_usable husable]
    exact .install i object grant husable

theorem moves_releaseSlot (i : CapSlot) :
    t.Moves (t.releaseSlot i).1 (.ofRelease i (t.releaseSlot i).2) := by
  by_cases hlive : (t i).live = true
  · simp only [releaseSlot, hlive, Bool.not_true, Bool.false_eq_true, ↓reduceIte]
    have hmove := Moves.release (t := t) i hlive
    rw [CapEntry.vacated] at hmove
    exact hmove
  · simp only [releaseSlot, hlive, Bool.not_false, ↓reduceIte]
    exact .refuse

theorem moves_call (c : TableCall) : t.Moves (t.call c).1 (t.call c).2 := by
  cases c with
  | install object grant =>
    show t.Moves (t.install object grant).1 (.ofInstall object grant (t.install object grant).2)
    unfold install
    split
    · exact moves_installAt t _ object grant
    · exact .refuse
  | installAt slot object grant =>
    by_cases hslot : slot < maxCaps
    · simp only [call, hslot, ↓reduceDIte]
      exact moves_installAt t ⟨slot, hslot⟩ object grant
    · simp only [call, hslot, ↓reduceDIte]
      exact .refuse
  | release handle =>
    show t.Moves (t.release handle).1 (.ofRelease handle.slot (t.release handle).2)
    unfold release
    split
    · dsimp only
      split
      · exact .refuse
      · exact moves_releaseSlot t _
    · exact .refuse
  | releaseSlot slot =>
    by_cases hslot : slot < maxCaps
    · simp only [call, hslot, ↓reduceDIte]
      exact moves_releaseSlot t ⟨slot, hslot⟩
    · simp only [call, hslot, ↓reduceDIte]
      exact .refuse

theorem lookup_eq_some {h : Handle} {e : CapEntry} :
    t.lookup h = some (i, e) ↔
      h ≠ .zero ∧ h = ⟨i, (t i).generation⟩ ∧ e = t i ∧ (t i).live = true := by
  unfold lookup
  by_cases hz : h = .zero
  · simp [hz]
  by_cases hslot : h.slot < maxCaps
  · simp only [hz, ↓reduceIte, hslot, ↓reduceDIte]
    constructor
    · intro hsome
      split at hsome
      · exact absurd hsome (by simp)
      rename_i hname
      obtain ⟨rfl, rfl⟩ := Prod.mk.inj (some.inj hsome)
      simp only [Bool.or_eq_true, Bool.not_eq_true', bne_iff_ne, ne_eq, not_or, not_not,
        Bool.not_eq_false] at hname
      exact ⟨hz, by rw [hname.2], rfl, hname.1⟩
    · rintro ⟨-, rfl, rfl, hlive⟩
      simp [hlive]
  · simp only [hz, ↓reduceIte, hslot, ↓reduceDIte]
    constructor
    · intro hnone
      exact absurd hnone (by simp)
    · rintro ⟨-, rfl, -, -⟩
      exact absurd i.isLt hslot

end CapTable

/-! ### What the events say of a handle -/

/-- `h` was issued for `object` under `grant`, and its slot has not been released since. -/
def Held (events : List TableEvent) (h : Handle) (object : ObjRef) (grant : Option GrantId) :
    Prop :=
  ∃ before after, events = before ++ .installed h object grant :: after ∧
    .released h.slot ∉ after

/-- `h` was issued, and its slot has been released since. -/
def Dropped (events : List TableEvent) (h : Handle) : Prop :=
  ∃ before object grant after, events = before ++ .installed h object grant :: after ∧
    .released h.slot ∈ after

/-- The handles issued, in order. -/
def issued (events : List TableEvent) : List Handle := events.filterMap TableEvent.handle?

section Events

variable {events : List TableEvent} {e : TableEvent} {h : Handle} {object : ObjRef}
  {grant : Option GrantId}

theorem held_concat : Held (events ++ [e]) h object grant ↔
    e = .installed h object grant ∨ Held events h object grant ∧ e ≠ .released h.slot := by
  constructor
  · rintro ⟨before, after, heq, hnot⟩
    rcases eq_nil_or_concat after with rfl | ⟨rest, x, rfl⟩
    · exact .inl (singleton_inj.mp (append_inj' heq rfl).2)
    · rw [concat_eq_append, ← cons_append, ← append_assoc] at heq
      obtain ⟨hinit, hlast⟩ := append_inj' heq rfl
      obtain rfl := singleton_inj.mp hlast
      refine .inr ⟨⟨before, rest, hinit, ?_⟩, ?_⟩
      · exact fun hmem => hnot (by simp [hmem])
      · exact fun hrel => hnot (by simp [hrel])
  · rintro (rfl | ⟨⟨before, after, rfl, hnot⟩, hrel⟩)
    · exact ⟨events, [], rfl, by simp⟩
    · refine ⟨before, after ++ [e], by simp, ?_⟩
      simp [hnot, Ne.symm hrel]

theorem mem_issued : h ∈ issued events ↔ ∃ o g, .installed h o g ∈ events := by
  simp only [issued, mem_filterMap]
  constructor
  · rintro ⟨e, hmem, he⟩
    cases e with
    | installed h' o g =>
      obtain rfl := some.inj he
      exact ⟨o, g, hmem⟩
    | released slot => exact absurd he (by simp [TableEvent.handle?])
    | refused => exact absurd he (by simp [TableEvent.handle?])
  · rintro ⟨o, g, hmem⟩
    exact ⟨_, hmem, rfl⟩

theorem Dropped.mem_issued (hdrop : Dropped events h) : h ∈ issued events := by
  obtain ⟨before, o, g, after, rfl, -⟩ := hdrop
  exact Kernel.mem_issued.mpr ⟨o, g, by simp⟩

theorem dropped_concat (hdrop : Dropped (events ++ [e]) h) :
    Dropped events h ∨ e = .released h.slot := by
  obtain ⟨before, o, g, after, heq, hrel⟩ := hdrop
  rcases eq_nil_or_concat after with rfl | ⟨rest, x, rfl⟩
  · exact absurd hrel (by simp)
  · rw [concat_eq_append, ← cons_append, ← append_assoc] at heq
    obtain ⟨hinit, hlast⟩ := append_inj' heq rfl
    obtain rfl := singleton_inj.mp hlast
    rw [concat_eq_append, mem_append, mem_singleton] at hrel
    rcases hrel with hrel | hrel
    · exact .inl ⟨before, o, g, rest, hinit, hrel⟩
    · exact .inr hrel.symm

theorem issued_concat : issued (events ++ [e]) = issued events ++ e.handle?.toList := by
  cases e <;> simp [issued, TableEvent.handle?]

theorem Held.mem_issued (hheld : Held events h object grant) : h ∈ issued events := by
  obtain ⟨before, after, rfl, -⟩ := hheld
  exact Kernel.mem_issued.mpr ⟨object, grant, by simp⟩

theorem Dropped.not_held (hnodup : (issued events).Nodup) (hdrop : Dropped events h) :
    ¬ Held events h object grant := by
  induction events using List.reverseRecOn with
  | nil =>
    intro hheld
    obtain ⟨before, after, heq, -⟩ := hheld
    exact absurd heq (by simp)
  | append_singleton events e ih =>
    rw [issued_concat] at hnodup
    intro hheld
    rcases held_concat.mp hheld with rfl | ⟨hheld, hkept⟩
    · -- Issued here, so not before.
      rcases dropped_concat hdrop with hdrop | hrel
      · have hfresh := (nodup_append.mp hnodup).2.2 h hdrop.mem_issued h
        exact absurd rfl (hfresh (by simp [TableEvent.handle?]))
      · exact absurd hrel (by simp)
    · rcases dropped_concat hdrop with hdrop | hrel
      · exact ih (nodup_append.mp hnodup).1 hdrop hheld
      · exact hkept hrel

end Events

/-! ### The invariant of a run -/

/-- The table is what the events say. -/
structure TableTrace.Consistent (s : TableTrace) : Prop where
  /-- A generation fits its field. -/
  bound : ∀ i, (s.table i).generation ≤ u32Max
  held : ∀ h o g, Held s.events h o g ↔ ∃ i : CapSlot, h = ⟨i, (s.table i).generation⟩ ∧
    (s.table i).live = true ∧ (s.table i).object = o ∧ (s.table i).grant = g
  past : ∀ h ∈ issued s.events, ∃ i : CapSlot, h.slot = i ∧ 1 ≤ h.generation ∧
    h.generation ≤ (s.table i).generation
  once : (issued s.events).Nodup

namespace TableTrace.Consistent

variable {t : CapTable} {events : List TableEvent}

theorem start : TableTrace.start.Consistent where
  bound i := Nat.zero_le _
  held h o g := by
    constructor
    · rintro ⟨before, after, heq, -⟩
      exact absurd heq (by simp [TableTrace.start])
    · rintro ⟨i, -, hlive, -⟩
      exact absurd hlive (by simp [TableTrace.start, CapTable.new, CapEntry.empty])
  past h hmem := absurd hmem (by simp [TableTrace.start, issued])
  once := by simp [TableTrace.start, issued]

theorem refused (hc : TableTrace.Consistent ⟨t, events⟩) {t' : CapTable}
    (hgen : ∀ i, (t' i).generation = (t i).generation) (hlive : ∀ i, (t' i).live = (t i).live)
    (hobject : ∀ i, (t' i).object = (t i).object) (hgrant : ∀ i, (t' i).grant = (t i).grant) :
    TableTrace.Consistent ⟨t', events ++ [.refused]⟩ where
  bound i := by
    rw [hgen]
    exact hc.bound i
  held h o g := by
    rw [held_concat]
    simp only [hgen, hlive, hobject, hgrant, reduceCtorEq, false_or, ne_eq, not_false_eq_true,
      and_true]
    exact hc.held h o g
  past h hmem := by
    rw [issued_concat] at hmem
    obtain ⟨i, hslot, hpos, hle⟩ := hc.past h (by simpa [TableEvent.handle?] using hmem)
    exact ⟨i, hslot, hpos, by rw [hgen]; exact hle⟩
  once := by
    rw [issued_concat]
    simpa [TableEvent.handle?] using hc.once

theorem installed (hc : TableTrace.Consistent ⟨t, events⟩) {i : CapSlot}
    (husable : t.usable i) (object : ObjRef) (grant : Option GrantId) :
    TableTrace.Consistent ⟨update t i (t.fresh i object grant),
      events ++ [.installed ⟨i, (t i).generation + 1⟩ object grant]⟩ where
  bound j := by
    have hbound : (t i).generation ≤ u32Max := hc.bound i
    have hroom : (t i).generation ≠ u32Max := husable.2.2
    by_cases hj : j = i
    · subst hj
      simp only [update_self, CapTable.fresh]
      omega
    · simp only [update_of_ne hj]
      exact hc.bound j
  held h o g := by
    rw [held_concat]
    constructor
    · rintro (heq | ⟨hheld, -⟩)
      · obtain ⟨rfl, rfl, rfl⟩ := TableEvent.installed.inj heq
        exact ⟨i, by simp [CapTable.fresh]⟩
      · obtain ⟨j, hj⟩ := (hc.held h o g).mp hheld
        -- The slot was free, so the handle held is another slot's.
        have hne : j ≠ i := by
          rintro rfl
          exact absurd (husable.1.symm.trans hj.2.1) (by simp)
        exact ⟨j, by simpa [update_of_ne hne] using hj⟩
    · rintro ⟨j, hj⟩
      by_cases hji : j = i
      · subst hji
        simp only [update_self, CapTable.fresh] at hj
        obtain ⟨rfl, -, rfl, rfl⟩ := hj
        exact .inl rfl
      · simp only [update_of_ne hji] at hj
        exact .inr ⟨(hc.held h o g).mpr ⟨j, hj⟩, by simp⟩
  past h hmem := by
    rw [issued_concat, mem_append] at hmem
    rcases hmem with hold | hnew
    · obtain ⟨j, hslot, hpos, hle⟩ := hc.past h hold
      refine ⟨j, hslot, hpos, hle.trans ?_⟩
      by_cases hji : j = i
      · subst hji
        simp [CapTable.fresh]
      · simp [update_of_ne hji]
    · obtain rfl : ⟨i, (t i).generation + 1⟩ = h := by
        simpa [TableEvent.handle?, eq_comm] using hnew
      exact ⟨i, rfl, by simp, by simp [CapTable.fresh]⟩
  once := by
    rw [issued_concat]
    simp only [TableEvent.handle?, toList_some]
    refine nodup_append.mpr ⟨hc.once, nodup_singleton _, ?_⟩
    rintro h hold _ hnew rfl
    obtain rfl := mem_singleton.mp hnew
    obtain ⟨j, hslot, -, hle⟩ := hc.past _ hold
    obtain rfl : i = j := Fin.ext hslot
    exact absurd hle (by simp)

theorem released (hc : TableTrace.Consistent ⟨t, events⟩) {i : CapSlot} :
    TableTrace.Consistent ⟨update t i (t i).vacated, events ++ [.released i]⟩ where
  bound j := by
    by_cases hj : j = i
    · subst hj
      simpa [CapEntry.vacated] using hc.bound j
    · simpa [update_of_ne hj] using hc.bound j
  held h o g := by
    rw [held_concat]
    constructor
    · rintro (heq | ⟨hheld, hother⟩)
      · exact absurd heq (by simp)
      · obtain ⟨j, hj⟩ := (hc.held h o g).mp hheld
        have hne : j ≠ i := by
          rintro rfl
          exact hother (by rw [hj.1])
        exact ⟨j, by simpa [update_of_ne hne] using hj⟩
    · rintro ⟨j, hj⟩
      by_cases hji : j = i
      · subst hji
        exact absurd hj.2.1 (by simp [CapEntry.vacated])
      · simp only [update_of_ne hji] at hj
        refine .inr ⟨(hc.held h o g).mpr ⟨j, hj⟩, ?_⟩
        rw [hj.1]
        simpa [Fin.ext_iff, eq_comm] using hji
  past h hmem := by
    rw [issued_concat] at hmem
    obtain ⟨j, hslot, hpos, hle⟩ := hc.past h (by simpa [TableEvent.handle?] using hmem)
    refine ⟨j, hslot, hpos, hle.trans (le_of_eq ?_)⟩
    by_cases hji : j = i
    · subst hji
      simp [CapEntry.vacated]
    · simp [update_of_ne hji]
  once := by
    rw [issued_concat]
    simpa [TableEvent.handle?] using hc.once

theorem call {s : TableTrace} (hc : s.Consistent) (c : TableCall) : (s.call c).Consistent := by
  obtain ⟨t, events⟩ := s
  unfold TableTrace.call
  generalize hr : t.call c = r
  have hmove : t.Moves r.1 r.2 := hr ▸ t.moves_call c
  obtain ⟨t', e⟩ := r
  cases hmove with
  | install i object grant husable => exact hc.installed husable object grant
  | release i hlive => exact hc.released
  | withdraw i hlive =>
    apply hc.refused
    all_goals
      intro j
      by_cases hj : j = i
      · subst hj
        simp [CapEntry.withdrawn]
      · simp [hj]
  | refuse => exact hc.refused (fun _ => rfl) (fun _ => rfl) (fun _ => rfl) fun _ => rfl

theorem run (calls : List TableCall) : (tableRun calls).Consistent := by
  induction calls using List.reverseRecOn with
  | nil => exact start
  | append_singleton calls c ih =>
    rw [tableRun_concat]
    exact ih.call c

end TableTrace.Consistent

/-! ### When an installation succeeds -/

namespace CapTable

variable {t : CapTable}

/-- A slot that is not live, not retired and has generations left. -/
def Open (t : CapTable) (i : CapSlot) : Prop :=
  (t i).live = false ∧ (t i).retired = false ∧ (t i).generation < u32Max

/-- The lowest slot that is neither live nor retired has generations left, unless no slot has
that is neither. -/
def Ready (t : CapTable) : Prop :=
  ∀ i, (t i).live = false → (t i).retired = false →
    (∀ j < i, (t j).live = true ∨ (t j).retired = true) →
    (t i).generation = u32Max → ∀ j, ¬ t.Open j

theorem freeSlot_eq_some {i : CapSlot} : t.freeSlot = some i ↔
    (t i).live = false ∧ (t i).retired = false ∧
      ∀ j < i, (t j).live = true ∨ (t j).retired = true := by
  unfold freeSlot
  rw [← Fin.find?_eq_find?_finRange, Fin.find?_eq_some_iff]
  simp only [Bool.not_eq_true', Bool.or_eq_false_iff, Bool.not_eq_false', Bool.or_eq_true,
    and_assoc]

theorem freeSlot_eq_none : t.freeSlot = none ↔ ∀ i, (t i).live = true ∨ (t i).retired = true := by
  unfold freeSlot
  rw [← Fin.find?_eq_find?_finRange, Fin.find?_eq_none_iff]
  simp only [Bool.not_eq_false', Bool.or_eq_true]

theorem install_isSome (object : ObjRef) (grant : Option GrantId) :
    (t.install object grant).2.isSome ↔ ∃ i, t.freeSlot = some i ∧ t.usable i := by
  unfold install
  cases hfree : t.freeSlot with
  | none => simp
  | some i =>
    simp only [some.injEq, exists_eq_left']
    by_cases husable : t.usable i
    · simp [installAt_of_usable husable, husable]
    · obtain ⟨t', hnone, -⟩ := installAt_of_not_usable object grant husable
      simp [hnone, husable]

theorem install_exact_iff (hbound : ∀ i, (t i).generation ≤ u32Max) :
    (∀ object grant, (t.install object grant).2.isSome ↔ ∃ i, t.Open i) ↔ t.Ready := by
  constructor
  · intro hexact i hlive hretired hlow hgen j hopen
    obtain ⟨k, hk, husable⟩ := (install_isSome ⟨.scope 0, 0⟩ none).mp
      ((hexact ⟨.scope 0, 0⟩ none).mpr ⟨j, hopen⟩)
    have hi : t.freeSlot = some i := freeSlot_eq_some.mpr ⟨hlive, hretired, hlow⟩
    obtain rfl : k = i := some.inj (hk.symm.trans hi)
    exact husable.2.2 hgen
  · intro hready object grant
    rw [install_isSome]
    constructor
    · rintro ⟨i, -, hlive, hretired, hgen⟩
      exact ⟨i, hlive, hretired, lt_of_le_of_ne (hbound i) hgen⟩
    · rintro ⟨j, hopen⟩
      cases hfree : t.freeSlot with
      | none =>
        rcases freeSlot_eq_none.mp hfree j with hlive | hretired
        · exact absurd (hopen.1.symm.trans hlive) (by simp)
        · exact absurd (hopen.2.1.symm.trans hretired) (by simp)
      | some i =>
        obtain ⟨hlive, hretired, hlow⟩ := freeSlot_eq_some.mp hfree
        refine ⟨i, rfl, hlive, hretired, ?_⟩
        intro hgen
        exact hready i hlive hretired hlow hgen j hopen

end CapTable

/-! ### The contract of a table -/

/-- The handle that names a slot as it stands. -/
def CapTable.handle (t : CapTable) (i : CapSlot) : Handle := ⟨i, (t i).generation⟩

/-- What a table promises at the end of a list of calls. -/
structure TableContract (calls : List TableCall) : Prop where
  /-- A handle resolves from the call that issued it until its slot is released. -/
  resolves : ∀ h, ((tableRun calls).table.lookup h).isSome ↔
    ∃ object grant, Held (tableRun calls).events h object grant
  /-- To what it was issued for. -/
  names : ∀ h i e, (tableRun calls).table.lookup h = some (i, e) →
    Held (tableRun calls).events h e.object e.grant
  /-- A handle that has been dropped does not resolve. -/
  gone : ∀ h, Dropped (tableRun calls).events h → (tableRun calls).table.lookup h = none
  /-- No handle is issued twice. -/
  once : (issued (tableRun calls).events).Nodup
  /-- A live entry has a handle of its own. -/
  own : ∀ i, ((tableRun calls).table i).live = true →
    (tableRun calls).table.lookup ((tableRun calls).table.handle i) =
      some (i, (tableRun calls).table i)
  /-- An installation succeeds exactly when a slot is open. -/
  installs : ∀ object grant, ((tableRun calls).table.install object grant).2.isSome ↔
    ∃ i, (tableRun calls).table.Open i

namespace TableTrace.Consistent

variable {s : TableTrace} {h : Handle} {object : ObjRef} {grant : Option GrantId}

theorem lookup_of_held (hc : s.Consistent) (hheld : Held s.events h object grant) :
    ∃ i : CapSlot, h = s.table.handle i ∧ s.table.lookup h = some (i, s.table i) := by
  obtain ⟨i, rfl, hlive, -, -⟩ := (hc.held h object grant).mp hheld
  obtain ⟨-, -, hpos, -⟩ := hc.past _ hheld.mem_issued
  refine ⟨i, rfl, (CapTable.lookup_eq_some _).mpr ⟨?_, rfl, rfl, hlive⟩⟩
  -- The zero handle has no generation, and a slot that is live has one.
  intro hzero
  have hgen : (s.table i).generation = 0 := congrArg Handle.generation hzero
  exact absurd hpos (by simp [hgen])

theorem held_of_lookup (hc : s.Consistent) {i : CapSlot} {e : CapEntry}
    (hlookup : s.table.lookup h = some (i, e)) : Held s.events h e.object e.grant := by
  obtain ⟨-, hname, rfl, hlive⟩ := (CapTable.lookup_eq_some _).mp hlookup
  exact (hc.held h _ _).mpr ⟨i, hname, hlive, rfl, rfl⟩

theorem resolves (hc : s.Consistent) (h : Handle) :
    (s.table.lookup h).isSome ↔ ∃ object grant, Held s.events h object grant := by
  constructor
  · intro hsome
    obtain ⟨⟨i, e⟩, hlookup⟩ := isSome_iff_exists.mp hsome
    exact ⟨_, _, hc.held_of_lookup hlookup⟩
  · rintro ⟨object, grant, hheld⟩
    obtain ⟨i, -, hlookup⟩ := hc.lookup_of_held hheld
    simp [hlookup]

theorem gone (hc : s.Consistent) (hdrop : Dropped s.events h) : s.table.lookup h = none := by
  rw [← not_isSome_iff_eq_none, hc.resolves]
  rintro ⟨object, grant, hheld⟩
  exact hdrop.not_held hc.once hheld

theorem own (hc : s.Consistent) {i : CapSlot} (hlive : (s.table i).live = true) :
    s.table.lookup (s.table.handle i) = some (i, s.table i) := by
  have hheld := (hc.held (s.table.handle i) _ _).mpr ⟨i, rfl, hlive, rfl, rfl⟩
  obtain ⟨j, hname, hlookup⟩ := hc.lookup_of_held hheld
  obtain rfl : i = j := Fin.ext (congrArg Handle.slot hname)
  exact hlookup

end TableTrace.Consistent

/-- **A table keeps its contract at the end of a list of calls just when the slot that `install`
would take has generations left, or no slot has.** -/
theorem tableContract_iff (calls : List TableCall) :
    TableContract calls ↔ (tableRun calls).table.Ready := by
  have hc := TableTrace.Consistent.run calls
  rw [← CapTable.install_exact_iff hc.bound]
  constructor
  · exact TableContract.installs
  · intro hinstalls
    exact
      { resolves := hc.resolves
        names := fun h i e => hc.held_of_lookup
        gone := fun h => hc.gone
        once := hc.once
        own := fun i => hc.own
        installs := hinstalls }

/-- Installing in the lowest slot and releasing it, `n` times over. -/
def turnovers (object : ObjRef) : Nat → List TableCall
  | 0 => []
  | n + 1 => turnovers object n ++ [.installAt 0 object none] ++ [.releaseSlot 0]

theorem CapTable.turnover {t : CapTable} (husable : t.usable 0) (object : ObjRef) :
    ((t.call (.installAt 0 object none)).1.call (.releaseSlot 0)).1 =
      update t 0 (t.fresh 0 object none).vacated := by
  have hinstall : (t.call (.installAt 0 object none)).1 =
      update t 0 (t.fresh 0 object none) := by
    show (t.installAt 0 object none).1 = _
    rw [installAt_of_usable husable]
  rw [hinstall]
  show (CapTable.releaseSlot (update t 0 (t.fresh 0 object none)) 0).1 = _
  simp [releaseSlot, fresh, CapEntry.vacated]

theorem turnovers_table (object : ObjRef) {n : Nat} (hn : n ≤ u32Max) :
    ∃ e : CapEntry, e.live = false ∧ e.retired = false ∧ e.generation = n ∧
      (tableRun (turnovers object n)).table = update CapTable.new 0 e := by
  induction n with
  | zero => exact ⟨.empty, rfl, rfl, rfl, (update_eq_self 0 CapTable.new).symm⟩
  | succ n ih =>
    obtain ⟨e, hlive, hretired, hgen, htable⟩ := ih (by omega)
    have husable : (tableRun (turnovers object n)).table.usable 0 := by
      rw [htable]
      simp only [CapTable.usable, update_self]
      exact ⟨hlive, hretired, by omega⟩
    refine ⟨((tableRun (turnovers object n)).table.fresh 0 object none).vacated, ?_⟩
    rw [turnovers, tableRun_concat, tableRun_concat]
    refine ⟨rfl, ?_, ?_, ?_⟩
    · simp [CapEntry.vacated, CapTable.fresh, htable, hretired]
    · simp [CapEntry.vacated, CapTable.fresh, htable, hgen]
    · show (((tableRun (turnovers object n)).table.call _).1.call _).1 = _
      rw [CapTable.turnover husable, htable, update_idem]

/-- **The contract fails** after the lowest slot has been turned over as often as its
generations allow: an installation is refused with every other slot open. -/
theorem tableContract_fails : ¬ TableContract (turnovers ⟨.scope 0, 0⟩ u32Max) := by
  rw [tableContract_iff]
  obtain ⟨e, hlive, hretired, hgen, htable⟩ :=
    turnovers_table ⟨.scope 0, 0⟩ (le_refl u32Max)
  rw [htable]
  intro hready
  have hlow : ∀ j < (0 : CapSlot), (Function.update CapTable.new 0 e j).live = true ∨
      (Function.update CapTable.new 0 e j).retired = true :=
    fun j hj => absurd hj (Fin.not_lt_zero j)
  refine hready 0 ?_ ?_ hlow ?_ 1 ?_
  · simpa using hlive
  · simpa using hretired
  · simpa using hgen
  · have hroom : 0 < u32Max := by decide
    simpa [CapTable.Open, CapTable.new, CapEntry.empty] using hroom

end Thalyx.Kernel
