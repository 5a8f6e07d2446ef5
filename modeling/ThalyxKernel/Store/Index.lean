/-
An index whose entries are what their digests say.
-/
import ThalyxKernel.Store.Service

namespace Thalyx.K4

open Fallible

variable {D C : Type} {fmt : Format D C}

/-! ### Entries that are what their digests say -/

/-- An entry's type and length are those of the one content its digest is of, and so is
what it has staged. -/
def ObjectEntry.WellFormed (fmt : Format D C) (entry : ObjectEntry D C) : Prop :=
  ∃ content, fmt.objectDigest entry.objectType content = entry.digest ∧
    fmt.size content = entry.length ∧ ∀ staged, entry.stage = some staged → staged = content

/-- Every entry of the index is well formed. -/
def Store.Indexed (fmt : Format D C) (s : Store D C) : Prop :=
  ∀ entry ∈ s.objects, entry.WellFormed fmt

theorem ObjectEntry.WellFormed.moved {entry entry' : ObjectEntry D C}
    (h : entry.WellFormed fmt) (hdigest : entry'.digest = entry.digest)
    (htype : entry'.objectType = entry.objectType) (hlength : entry'.length = entry.length)
    (hstage : entry'.stage = entry.stage ∨ entry'.stage = none) : entry'.WellFormed fmt := by
  obtain ⟨content, hd, hl, hs⟩ := h
  refine ⟨content, by rw [hdigest, htype, hd], by rw [hlength, hl], fun staged hst => ?_⟩
  rcases hstage with hsame | hnone
  · exact hs staged (hsame ▸ hst)
  · rw [hnone] at hst
    cases hst

theorem mem_updateEntry [DecidableEq D] {digest : D} {f : ObjectEntry D C → ObjectEntry D C}
    {objects : List (ObjectEntry D C)} {entry : ObjectEntry D C}
    (h : entry ∈ updateEntry digest f objects) :
    ∃ old ∈ objects, entry = old ∨ (old.digest = digest ∧ entry = f old) := by
  obtain ⟨old, hold, heq⟩ := List.mem_map.mp h
  refine ⟨old, hold, ?_⟩
  split at heq
  · rename_i hd
    exact Or.inr ⟨hd, heq.symm⟩
  · exact Or.inl heq.symm

end Thalyx.K4
