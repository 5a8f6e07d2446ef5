/-
A walk over records that carry their own lengths.

The records lie one behind the other in a buffer of `size` bytes.  A record begins with a
header that says of what kind it is and how long; a length shorter than the header, or one
that runs past the buffer, ends the walk.  `walk` is the loop, which stops rather than go on
wrong; `scan` says which records it meets and whether a bad length ended it, and `walk_eq`
says that the loop is the fold over them.
-/
import ThalyxKernel.Lib.Checked

namespace Thalyx.Records

open Checked List Option

variable {σ κ : Type} (size header : Nat)

/-- The loop, for at most as many turns as given.  `head` reads the header at an offset,
`visit` handles a record and `reject` notes a bad length. -/
def walk (head : Nat → Option (κ × Nat)) (visit : σ → Nat → κ → Nat → Option σ)
    (reject : σ → Option σ) : Nat → σ → Nat → Option σ
  | 0, _, _ => none
  | turns + 1, s, offset => do
    let bound ← add offset header
    if bound ≤ size then
      let (kind, length) ← head offset
      if length < header then reject s
      else
        let stop ← add offset length
        if size < stop then reject s
        else
          let s ← visit s offset kind length
          walk head visit reject turns s stop
    else some s

variable {visit : σ → Nat → κ → Nat → Option σ} {reject : σ → Option σ} {start turns : Nat}

theorem walk_keeps {size header : Nat} {head : Nat → Option (κ × Nat)} {P : σ → Prop}
    (hvisit : ∀ s offset kind length s', visit s offset kind length = some s' → P s → P s')
    (hreject : ∀ s s', reject s = some s' → P s → P s') {offset : Nat} {s s' : σ}
    (h : walk size header head visit reject turns s offset = some s') (hs : P s) : P s' := by
  induction turns generalizing s offset with
  | zero => exact absurd h (by simp [walk])
  | succ turns ih =>
    obtain ⟨bound, -, h⟩ := bind_eq_some_iff.mp h
    split at h
    · obtain ⟨⟨kind, length⟩, -, h⟩ := bind_eq_some_iff.mp h
      dsimp only at h
      split at h
      · exact hreject s s' h hs
      · obtain ⟨stop, -, h⟩ := bind_eq_some_iff.mp h
        split at h
        · exact hreject s s' h hs
        · obtain ⟨t, ht, h⟩ := bind_eq_some_iff.mp h
          exact ih h (hvisit s offset kind length t ht hs)
    · obtain rfl := some_inj.mp h
      exact hs

/-- The records a walk meets from an offset on, and whether a bad length ends it. -/
def scan (head : Nat → κ × Nat) : Nat → Nat → List (Nat × κ × Nat) × Bool
  | 0, _ => ([], false)
  | turns + 1, offset =>
    if offset + header ≤ size then
      let (kind, length) := head offset
      if length < header ∨ size < offset + length then ([], true)
      else
        let (records, bad) := scan head turns (offset + length)
        ((offset, kind, length) :: records, bad)
    else ([], false)

variable {size header}
variable {head : Nat → κ × Nat}

theorem mem_scan {r : Nat × κ × Nat} (h : r ∈ (scan size header head turns start).1) :
    r.2 = head r.1 ∧ header ≤ r.2.2 ∧ r.1 + r.2.2 ≤ size := by
  induction turns generalizing start with
  | zero => exact absurd h (by simp [scan])
  | succ turns ih =>
    unfold scan at h
    split at h
    · dsimp only at h
      split at h
      · exact absurd h (by simp)
      · rename_i hlength
        rcases mem_cons.mp h with rfl | hrest
        · refine ⟨rfl, ?_, ?_⟩
          · exact Nat.le_of_not_lt fun hshort => hlength (Or.inl hshort)
          · exact Nat.le_of_not_lt fun hlong => hlength (Or.inr hlong)
        · exact ih hrest
    · exact absurd h (by simp)

theorem length_scan_le (head : Nat → κ × Nat) (turns start : Nat) :
    (scan size header head turns start).1.length ≤ turns := by
  induction turns generalizing start with
  | zero => exact le_refl 0
  | succ turns ih =>
    unfold scan
    split
    · dsimp only
      split
      · exact Nat.zero_le _
      · exact Nat.succ_le_succ (ih _)
    · exact Nat.zero_le _

/-- **The loop ends, and is the fold over the records it meets.** -/
theorem walk_eq {head? : Nat → Option (κ × Nat)}
    (hhead : ∀ offset, offset + header ≤ size → head? offset = some (head offset))
    (hpos : 0 < header) (hfit : ∀ offset, offset ≤ size →
      offset + header < usizeValues ∧ offset + (head offset).2 < usizeValues)
    (hstart : start ≤ size) (hturns : size < start + turns) (s : σ) :
    walk size header head? visit reject turns s start =
      ((scan size header head turns start).1.foldlM
        (fun s r => visit s r.1 r.2.1 r.2.2) s).bind fun s =>
          if (scan size header head turns start).2 then reject s else some s := by
  induction turns generalizing start s with
  | zero => omega
  | succ turns ih =>
    unfold walk scan
    rw [add_eq (hfit start hstart).1]
    simp only [bind_eq_bind, bind_some]
    by_cases hroom : start + header ≤ size
    · simp only [hroom, ↓reduceIte, hhead start hroom, bind_some]
      by_cases hshort : (head start).2 < header
      · simp [hshort]
      · simp only [hshort, ↓reduceIte, add_eq (hfit start hstart).2, bind_some, false_or]
        by_cases hlong : size < start + (head start).2
        · simp [hlong]
        · simp only [hlong, ↓reduceIte, foldlM_cons, bind_eq_bind,
            bind_assoc]
          congr 1
          funext t
          exact ih (by omega) (by omega) t
    · simp [hroom]

theorem foldlM_invariant {α : Type} {f : σ → α → Option σ} {l : List α} (P : List α → σ → Prop)
    {s : σ} (hstart : P [] s) (hturn : ∀ done x s, done ++ [x] <+: l → P done s →
      ∃ s', f s x = some s' ∧ P (done ++ [x]) s') : ∃ s', l.foldlM f s = some s' ∧ P l s' := by
  suffices hgeneral : ∀ rest done s, done ++ rest = l → P done s →
      ∃ s', rest.foldlM f s = some s' ∧ P l s' from hgeneral l [] s rfl hstart
  intro rest
  induction rest with
  | nil =>
    intro done s hl hP
    rw [append_nil] at hl
    exact ⟨s, rfl, hl ▸ hP⟩
  | cons x rest ih =>
    intro done s hl hP
    obtain ⟨t, ht, hPt⟩ := hturn done x s ⟨rest, by rw [← hl]; simp⟩ hP
    obtain ⟨s', hs', hPl⟩ := ih (done ++ [x]) t (by rw [← hl]; simp) hPt
    refine ⟨s', ?_, hPl⟩
    rw [foldlM_cons, ht]
    exact hs'

/-- **What a walk keeps**: it ends, with what every record keeps from those before it. -/
theorem walk_spec {head? : Nat → Option (κ × Nat)} {s : σ} (head : Nat → κ × Nat)
    (P : List (Nat × κ × Nat) → σ → Prop) (Q : σ → Prop)
    (hhead : ∀ offset, offset + header ≤ size → head? offset = some (head offset))
    (hpos : 0 < header) (hfit : ∀ offset, offset ≤ size →
      offset + header < usizeValues ∧ offset + (head offset).2 < usizeValues)
    (hstart : start ≤ size) (hturns : size < start + turns) (hP : P [] s)
    (hvisit : ∀ done r s, done.length < turns →
      r.2 = head r.1 ∧ header ≤ r.2.2 ∧ r.1 + r.2.2 ≤ size → P done s →
      ∃ s', visit s r.1 r.2.1 r.2.2 = some s' ∧ P (done ++ [r]) s')
    (hend : ∀ s, P (scan size header head turns start).1 s → Q s)
    (hreject : ∀ s, P (scan size header head turns start).1 s → ∃ s', reject s = some s' ∧ Q s') :
    ∃ s', walk size header head? visit reject turns s start = some s' ∧ Q s' := by
  have hcount := @length_scan_le κ size header head turns start
  rw [walk_eq hhead hpos hfit hstart hturns]
  obtain ⟨t, ht, hPt⟩ := foldlM_invariant (f := fun s r => visit s r.1 r.2.1 r.2.2)
    (l := (scan size header head turns start).1) P hP (by
      rintro done r s ⟨rest, hrest⟩ hPs
      have hmem : r ∈ (scan size header head turns start).1 := by
        rw [← hrest]
        simp
      have hlength : done.length < turns := by
        rw [← hrest] at hcount
        simp only [length_append, length_singleton] at hcount
        omega
      exact hvisit done r s hlength (mem_scan hmem) hPs)
  rw [ht, bind_some]
  split
  · exact hreject t hPt
  · exact ⟨t, rfl, hend t hPt⟩

theorem foldlM_none {α : Type} {f : σ → α → Option σ} {l : List α} {x : α} (hmem : x ∈ l)
    (hx : ∀ s, f s x = none) (s : σ) : l.foldlM f s = none := by
  induction l generalizing s with
  | nil => exact absurd hmem (by simp)
  | cons y rest ih =>
    rw [foldlM_cons]
    rcases mem_cons.mp hmem with rfl | hrest
    · rw [hx s]
      rfl
    · cases f s y with
      | none => rfl
      | some t => exact ih hrest t

end Thalyx.Records
