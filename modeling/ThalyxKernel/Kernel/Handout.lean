/-
What the frame allocator hands out.

The clear bits are the free frames, and the count is how many they are.  Each operation is
said once in these terms: which frames it gives back, which it hands out, and that the free
frames afterwards are those before it and those given back, less those handed out.  Both
searches find a frame, or a run of frames, whenever there is one.
-/
import Mathlib.Order.Interval.Finset.Nat
import ThalyxKernel.Kernel.Pool

namespace Thalyx.Kernel.Pool

open Checked List Function

namespace FrameAllocator

/-- The free frames. -/
def spare (a : FrameAllocator) : Finset Nat := Bitmap.spare a.bitmap

/-- The slots of the quarantine that hold a frame. -/
def waiting (a : FrameAllocator) : Finset (Fin quarantineSlots) :=
  Finset.univ.filter fun i => (a.quarantine i).used = true

/-- What holds between two operations. -/
structure Sound (a : FrameAllocator) : Prop where
  small : a.frames ≤ 2 ^ 52
  words : a.frames ≤ 64 * a.bitmap.length
  below : ∀ f ∈ a.spare, f < a.frames
  counted : a.free = a.spare.card
  hint : a.hint < a.frames
  waiting : a.quarantined = a.waiting.card

/-- What no single bit changes. -/
structure Kept (a b : FrameAllocator) : Prop where
  frames : b.frames = a.frames
  words : b.bitmap.length = a.bitmap.length
  hint : b.hint = a.hint
  quarantine : b.quarantine = a.quarantine
  quarantined : b.quarantined = a.quarantined

theorem Kept.refl (a : FrameAllocator) : Kept a a := ⟨rfl, rfl, rfl, rfl, rfl⟩

variable {a b : FrameAllocator}

theorem Kept.trans {c : FrameAllocator} (h : Kept a b) (h' : Kept b c) : Kept a c :=
  ⟨h'.frames.trans h.frames, h'.words.trans h.words, h'.hint.trans h.hint,
    h'.quarantine.trans h.quarantine, h'.quarantined.trans h.quarantined⟩

theorem Sound.of_kept (hs : Sound a) (hk : Kept a b)
    (hbelow : ∀ f ∈ b.spare, f < a.frames) (hcounted : b.free = b.spare.card) : Sound b where
  small := by rw [hk.frames]; exact hs.small
  words := by rw [hk.frames, hk.words]; exact hs.words
  below := by rw [hk.frames]; exact hbelow
  counted := hcounted
  hint := by rw [hk.hint, hk.frames]; exact hs.hint
  waiting := by
    have hsame : b.waiting = a.waiting := by
      unfold FrameAllocator.waiting
      rw [hk.quarantine]
    rw [hk.quarantined, hsame]
    exact hs.waiting

variable {count i limit : Nat}

theorem Sound.in_words (hs : Sound a) (hi : i < a.frames) :
    i < 64 * a.bitmap.length := Nat.lt_of_lt_of_le hi hs.words

/-! ### Single frames -/

theorem test_spare : i ∈ a.spare ↔ a.test i = some false :=
  Bitmap.mem_spare (by decide)

theorem test_held (hs : Sound a) (hi : i < a.frames) (hheld : i ∉ a.spare) : a.test i = some true :=
  Bitmap.test_of_not_mem (hs.in_words hi) hheld

theorem hold_spec (hs : Sound a) (hi : i ∈ a.spare) :
    ∃ b, a.hold i = some b ∧ Sound b ∧ Kept a b ∧ b.spare = a.spare.erase i := by
  obtain ⟨bitmap, hset, hlength, hspare⟩ := Bitmap.set_spec (hs.in_words (hs.below i hi))
  have hpos : 1 ≤ a.free := by
    rw [hs.counted]
    exact Finset.card_pos.mpr ⟨i, hi⟩
  have hk : Kept a { a with bitmap, free := a.free - 1 } := ⟨rfl, hlength, rfl, rfl, rfl⟩
  refine ⟨_, by simp [hold, hset, sub_eq hpos], hs.of_kept hk ?_ ?_, hk, hspare⟩
  · intro f hf
    have hmem : f ∈ a.spare.erase i := hspare ▸ hf
    exact hs.below f (Finset.mem_of_mem_erase hmem)
  · calc a.free - 1 = a.spare.card - 1 := by rw [hs.counted]
      _ = (a.spare.erase i).card := (Finset.card_erase_of_mem hi).symm
      _ = (Bitmap.spare bitmap).card := by rw [hspare]; rfl

theorem letGo_spec (hs : Sound a) (hi : i < a.frames) (hheld : i ∉ a.spare) :
    ∃ b, a.letGo i = some b ∧ Sound b ∧ Kept a b ∧ b.spare = insert i a.spare := by
  obtain ⟨bitmap, hclear, hlength, hspare⟩ := Bitmap.clear_spec (hs.in_words hi)
  have hk : Kept a { a with bitmap, free := a.free + 1 } := ⟨rfl, hlength, rfl, rfl, rfl⟩
  refine ⟨_, by simp [letGo, hclear], hs.of_kept hk ?_ ?_, hk, hspare⟩
  · intro f hf
    have hmem : f ∈ insert i a.spare := hspare ▸ hf
    rcases Finset.mem_insert.mp hmem with rfl | hold
    · exact hi
    · exact hs.below f hold
  · calc a.free + 1 = a.spare.card + 1 := by rw [hs.counted]
      _ = (insert i a.spare).card := (Finset.card_insert_of_notMem hheld).symm
      _ = (Bitmap.spare bitmap).card := by rw [hspare]; rfl

theorem take_spec (hs : Sound a) (owner : Owner) (hi : i ∈ a.spare) :
    ∃ b, take owner a i = some b ∧ Sound b ∧ Kept a b ∧ b.spare = a.spare.erase i := by
  obtain ⟨b, hb, hsb, hk, hspare⟩ := hold_spec hs hi
  refine ⟨{ b with charged := update b.charged owner (b.charged owner + 1) },
    by simp [take, hb], ⟨hsb.small, hsb.words, hsb.below, hsb.counted, hsb.hint, hsb.waiting⟩,
    ⟨hk.frames, hk.words, hk.hint, hk.quarantine, hk.quarantined⟩, hspare⟩

theorem letGoHeld_spec (hs : Sound a) (hi : i < a.frames) :
    ∃ b, a.letGoHeld i = some b ∧ Sound b ∧ Kept a b ∧ b.spare = insert i a.spare := by
  by_cases hfree : i ∈ a.spare
  · refine ⟨a, ?_, hs, .refl a, (Finset.insert_eq_of_mem hfree).symm⟩
    simp [letGoHeld, test_spare.mp hfree]
  · obtain ⟨b, hb, hrest⟩ := letGo_spec hs hi hfree
    exact ⟨b, by simp [letGoHeld, test_held hs hi hfree, hb], hrest⟩

theorem holdFree_some (hs : Sound a)
    (h : a.holdFree i = some b) : Sound b ∧ Kept a b ∧ b.spare = a.spare.erase i := by
  simp only [holdFree, bind, Option.bind_eq_some_iff] at h
  obtain ⟨held, hheld, h⟩ := h
  cases held with
  | true =>
    cases h
    have hnot : i ∉ a.spare := by
      rw [test_spare, hheld]
      simp
    exact ⟨hs, .refl a, (Finset.erase_eq_of_notMem hnot).symm⟩
  | false =>
    obtain ⟨c, hc, hrest⟩ := hold_spec hs (test_spare.mpr hheld)
    simp only [Bool.false_eq_true, if_false, hc, Option.some.injEq] at h
    exact h ▸ hrest

/-! ### Loops over frames -/

variable {l : List Nat}

/-- **A row of frames let go.** -/
theorem letGoHeld_row :
    ∀ {a : FrameAllocator}, Sound a → (∀ i ∈ l, i < a.frames) →
      ∃ b, l.foldlM letGoHeld a = some b ∧ Sound b ∧ Kept a b
        ∧ b.spare = l.toFinset ∪ a.spare := by
  induction l with
  | nil =>
    intro a hs _
    exact ⟨a, rfl, hs, .refl a, by simp⟩
  | cons i rest ih =>
    intro a hs hbelow
    obtain ⟨c, hc, hsc, hkc, hspare⟩ := letGoHeld_spec hs (hbelow i mem_cons_self)
    obtain ⟨b, hb, hsb, hkb, hspare'⟩ := ih hsc fun j hj => by
      rw [hkc.frames]
      exact hbelow j (mem_cons_of_mem i hj)
    refine ⟨b, by simp [hc, hb], hsb, hkc.trans hkb, ?_⟩
    rw [hspare', hspare, toFinset_cons, Finset.insert_union, Finset.union_insert]

theorem holdFree_row :
    ∀ {a b : FrameAllocator}, Sound a → l.foldlM holdFree a = some b →
      Sound b ∧ Kept a b ∧ b.spare = a.spare \ l.toFinset := by
  induction l with
  | nil =>
    intro a b hs h
    simp only [foldlM_nil, pure, Option.some.injEq] at h
    subst h
    exact ⟨hs, .refl a, by simp⟩
  | cons i rest ih =>
    intro a b hs h
    simp only [foldlM_cons, bind, Option.bind_eq_some_iff] at h
    obtain ⟨c, hc, h⟩ := h
    obtain ⟨hsc, hkc, hspare⟩ := holdFree_some hs hc
    obtain ⟨hsb, hkb, hspare'⟩ := ih hsc h
    refine ⟨hsb, hkc.trans hkb, ?_⟩
    rw [hspare', hspare, toFinset_cons, Finset.sdiff_insert, Finset.erase_sdiff_comm]

/-- **A row of free frames, held for an owner.** -/
theorem take_row (owner : Owner) :
    ∀ {a : FrameAllocator}, Sound a → l.Nodup → (∀ i ∈ l, i ∈ a.spare) →
      ∃ b, l.foldlM (take owner) a = some b ∧ Sound b ∧ Kept a b
        ∧ b.spare = a.spare \ l.toFinset := by
  induction l with
  | nil =>
    intro a hs _ _
    exact ⟨a, rfl, hs, .refl a, by simp⟩
  | cons i rest ih =>
    intro a hs hnodup hfree
    obtain ⟨hnot, hnodup⟩ := List.nodup_cons.mp hnodup
    obtain ⟨c, hc, hsc, hkc, hspare⟩ := take_spec hs owner (hfree i mem_cons_self)
    obtain ⟨b, hb, hsb, hkb, hspare'⟩ := ih hsc hnodup fun j hj => by
      rw [hspare, Finset.mem_erase]
      exact ⟨fun heq => hnot (heq ▸ hj), hfree j (mem_cons_of_mem i hj)⟩
    refine ⟨b, by simp [hc, hb], hsb, hkc.trans hkb, ?_⟩
    rw [hspare', hspare, toFinset_cons, Finset.sdiff_insert, Finset.erase_sdiff_comm]

/-! ### The quarantine -/

theorem Sound.giveUp (hs : Sound a) {i : Fin quarantineSlots} (hi : (a.quarantine i).used = true) :
    Sound { a with
      quarantine := update a.quarantine i { a.quarantine i with used := false }
      quarantined := a.quarantined - 1 } where
  small := hs.small
  words := hs.words
  below := hs.below
  counted := hs.counted
  hint := hs.hint
  waiting := by
    have hmem : i ∈ a.waiting := Finset.mem_filter.mpr ⟨Finset.mem_univ i, hi⟩
    have herase : FrameAllocator.waiting { a with
        quarantine := update a.quarantine i { a.quarantine i with used := false }
        quarantined := a.quarantined - 1 } = a.waiting.erase i := by
      ext j
      unfold FrameAllocator.waiting
      simp only [Finset.mem_filter, Finset.mem_univ, true_and, Finset.mem_erase,
        update_apply]
      by_cases h : j = i
      · simp [h]
      · simp [h]
    rw [herase, Finset.card_erase_of_mem hmem, ← hs.waiting]

theorem Sound.quarantined_pos (hs : Sound a) {i : Fin quarantineSlots}
    (hi : (a.quarantine i).used = true) : 1 ≤ a.quarantined := by
  rw [hs.waiting]
  exact Finset.card_pos.mpr ⟨i, Finset.mem_filter.mpr ⟨Finset.mem_univ i, hi⟩⟩

/-- **`release` puts its frame among the free ones, if it is one of the table's.** -/
theorem release_spec (hs : Sound a) (f : Nat) (owner : Owner) :
    ∃ b, a.release f owner = some b ∧ Sound b ∧ b.frames = a.frames
      ∧ b.quarantine = a.quarantine
      ∧ ∀ g, g ∈ b.spare ↔ g ∈ a.spare ∨ g = f ∧ f < a.frames := by
  by_cases hf : f < a.frames
  · by_cases hfree : f ∈ a.spare
    · refine ⟨a, ?_, hs, rfl, rfl, ?_⟩
      · simp [release, Nat.not_le.mpr hf, test_spare.mp hfree]
      · intro g
        refine ⟨.inl, ?_⟩
        rintro (h | ⟨rfl, -⟩)
        · exact h
        · exact hfree
    · obtain ⟨b, hb, hsb, hk, hspare⟩ := letGo_spec hs hf hfree
      refine ⟨{ b with
          hint := if f < b.hint then f else b.hint
          charged := update b.charged owner (b.charged owner - 1) },
        by simp [release, Nat.not_le.mpr hf, test_held hs hf hfree, hb],
        ⟨hsb.small, hsb.words, hsb.below, hsb.counted, ?_, hsb.waiting⟩, hk.frames,
        hk.quarantine, ?_⟩
      · have hhint := hsb.hint
        have hframes := hk.frames
        dsimp only
        split
        · omega
        · exact hhint
      · intro g
        have hmem : g ∈ b.spare ↔ g ∈ insert f a.spare := by rw [hspare]
        rw [Finset.mem_insert] at hmem
        refine hmem.trans ⟨?_, ?_⟩
        · rintro (rfl | h)
          · exact .inr ⟨rfl, hf⟩
          · exact .inl h
        · rintro (h | ⟨rfl, -⟩)
          · exact .inr h
          · exact .inl rfl
  · refine ⟨a, by simp [release, Nat.le_of_not_lt hf], hs, rfl, rfl, ?_⟩
    intro g
    refine ⟨.inl, ?_⟩
    rintro (h | ⟨-, h⟩)
    · exact h
    · exact absurd h hf

/-- A slot whose frame comes back once every processor has flushed past `safe`. -/
def Due (a : FrameAllocator) (safe : Nat) (i : Fin quarantineSlots) (f : Nat) : Prop :=
  (a.quarantine i).used = true ∧ (a.quarantine i).generation ≤ safe
    ∧ (a.quarantine i).frame = f ∧ f < a.frames

theorem drainSlot_spec (hs : Sound a) (safe : Nat) (i : Fin quarantineSlots) :
    ∃ b, drainSlot safe a i = some b ∧ Sound b ∧ b.frames = a.frames
      ∧ (∀ j, j ≠ i → b.quarantine j = a.quarantine j)
      ∧ ∀ f, f ∈ b.spare ↔ f ∈ a.spare ∨ a.Due safe i f := by
  by_cases hstays : (a.quarantine i).used = false ∨ safe < (a.quarantine i).generation
  · refine ⟨a, if_pos hstays, hs, rfl, fun _ _ => rfl, ?_⟩
    intro f
    refine ⟨.inl, ?_⟩
    rintro (h | ⟨hused, hgeneration, -⟩)
    · exact h
    · rcases hstays with hunused | hlater
      · rw [hunused] at hused
        cases hused
      · omega
  · rw [not_or, Bool.not_eq_false] at hstays
    obtain ⟨hused, hlater⟩ := hstays
    have hgeneration := Nat.le_of_not_lt hlater
    obtain ⟨b, hb, hsb, hframes, hquarantine, hspare⟩ :=
      release_spec (hs.giveUp hused) (a.quarantine i).frame (a.quarantine i).owner
    refine ⟨b, ?_, hsb, hframes, ?_, ?_⟩
    · have hdue : ¬((a.quarantine i).used = false ∨ safe < (a.quarantine i).generation) := by
        rw [not_or, Bool.not_eq_false]
        exact ⟨hused, hlater⟩
      rw [drainSlot, if_neg hdue, sub_eq (hs.quarantined_pos hused)]
      exact hb
    · intro j hj
      rw [hquarantine]
      exact update_of_ne hj _ _
    · intro f
      refine (hspare f).trans (or_congr_right ?_)
      constructor
      · rintro ⟨rfl, hlt⟩
        exact ⟨hused, hgeneration, rfl, hlt⟩
      · rintro ⟨-, -, rfl, hlt⟩
        exact ⟨rfl, hlt⟩

theorem drain_slots (safe : Nat) {l : List (Fin quarantineSlots)} :
    ∀ {a : FrameAllocator}, Sound a → l.Nodup →
      ∃ b, l.foldlM (drainSlot safe) a = some b ∧ Sound b ∧ b.frames = a.frames
        ∧ ∀ f, f ∈ b.spare ↔ f ∈ a.spare ∨ ∃ i ∈ l, a.Due safe i f := by
  induction l with
  | nil =>
    intro a hs _
    exact ⟨a, rfl, hs, rfl, by simp⟩
  | cons i rest ih =>
    intro a hs hnodup
    obtain ⟨hnot, hnodup⟩ := List.nodup_cons.mp hnodup
    obtain ⟨c, hc, hsc, hframes, hquarantine, hspare⟩ := drainSlot_spec hs safe i
    obtain ⟨b, hb, hsb, hframes', hspare'⟩ := ih hsc hnodup
    refine ⟨b, by simp [hc, hb], hsb, hframes'.trans hframes, ?_⟩
    intro f
    -- The slots that are still to come are as they were.
    have hrest : (∃ j ∈ rest, c.Due safe j f) ↔ ∃ j ∈ rest, a.Due safe j f := by
      apply exists_congr
      intro j
      apply and_congr_right
      intro hj
      rw [Due, Due, hquarantine j fun heq => hnot (heq ▸ hj), hframes]
    rw [hspare', hspare, hrest, or_assoc]
    simp

/-- **`drain_quarantine` gives back the frames that are due, and no others.** -/
theorem drain_spec (hs : Sound a) (safe : Nat) :
    ∃ b, a.drainQuarantine safe = some b ∧ Sound b ∧ b.frames = a.frames
      ∧ ∀ f, f ∈ b.spare ↔ f ∈ a.spare ∨ ∃ i, a.Due safe i f := by
  obtain ⟨b, hb, hsb, hframes, hspare⟩ := drain_slots safe hs (nodup_finRange _)
  refine ⟨b, hb, hsb, hframes, ?_⟩
  intro f
  rw [hspare]
  simp

theorem retireAt_spec (hs : Sound a) (f : Nat) (owner : Owner) (generation : Nat) :
    Sound (a.retireAt f owner generation) ∧ (a.retireAt f owner generation).frames = a.frames
      ∧ (a.retireAt f owner generation).spare = a.spare := by
  unfold retireAt
  cases hfind : (List.finRange quarantineSlots).find? fun i => !(a.quarantine i).used with
  | none => exact ⟨hs, rfl, rfl⟩
  | some i =>
    refine ⟨⟨hs.small, hs.words, hs.below, hs.counted, hs.hint, ?_⟩, rfl, rfl⟩
    have hunused : (a.quarantine i).used = false := by
      simpa using find?_some hfind
    have hnot : i ∉ a.waiting := by
      intro hmem
      rw [(Finset.mem_filter.mp hmem).2] at hunused
      cases hunused
    have hinsert : FrameAllocator.waiting { a with
        quarantine := update a.quarantine i ⟨true, f, owner, generation⟩
        quarantined := a.quarantined + 1 } = insert i a.waiting := by
      ext j
      unfold FrameAllocator.waiting
      simp only [Finset.mem_filter, Finset.mem_univ, true_and, Finset.mem_insert,
        update_apply]
      by_cases h : j = i
      · simp [h]
      · simp [h]
    dsimp only
    rw [hinsert, Finset.card_insert_of_notMem hnot, ← hs.waiting]

theorem reassign_spec (hs : Sound a) (source target : Owner) :
    Sound (a.reassignQuarantine source target)
      ∧ (a.reassignQuarantine source target).frames = a.frames
      ∧ (a.reassignQuarantine source target).spare = a.spare := by
  refine ⟨⟨hs.small, hs.words, hs.below, hs.counted, hs.hint, ?_⟩, rfl, rfl⟩
  have hsame : (a.reassignQuarantine source target).waiting = a.waiting := by
    ext j
    unfold FrameAllocator.waiting reassignQuarantine
    simp only [Finset.mem_filter, Finset.mem_univ, true_and]
    split <;> rfl
  rw [hsame]
  exact hs.waiting

theorem reclaim_spec (hs : Sound a) (base pages : Nat) :
    ∃ b, a.reclaim base pages = some b ∧ Sound b ∧ b.frames = a.frames
      ∧ ∀ f, f ∈ b.spare ↔ f ∈ a.spare
        ∨ base / pageSize ≤ f ∧ f < base / pageSize + pages ∧ f < a.frames := by
  obtain ⟨b, hb, hsb, hk, hspare⟩ := letGoHeld_row
    (l := List.range' (base / pageSize)
      (min (base / pageSize + pages) a.frames - base / pageSize)) hs (by
        intro i hi
        rw [mem_range'_1] at hi
        omega)
  refine ⟨b, hb, hsb, hk.frames, ?_⟩
  intro f
  rw [hspare, Finset.mem_union, mem_toFinset, mem_range'_1, or_comm]
  apply or_congr_right
  omega

/-! ### The searches -/

/-- What a search that answers says of the free frames. -/
def Found (a : FrameAllocator) (answer : Option Nat) : Prop :=
  match answer with
  | some i => i ∈ a.spare
  | none => a.spare = ∅

/-- **The round of `alloc` comes back to its start only if no frame is free.** -/
theorem search_spec (hs : Sound a) {start : Nat} (hstart : start < a.frames) :
    ∀ (turns index : Nat), index < a.frames →
      turns = (if start ≤ index then a.frames - index + start else start - index) →
      (∀ f ∈ a.spare, if start ≤ index then f < start ∨ index ≤ f else f < start ∧ index ≤ f) →
      ∃ answer, a.search start turns index = some answer ∧ a.Found answer := by
  intro turns
  induction turns with
  | zero =>
    intro index hindex hturns _
    split at hturns <;> omega
  | succ turns ih =>
    intro index hindex hturns hseen
    by_cases hfree : index ∈ a.spare
    · exact ⟨some index, by simp [search, test_spare.mp hfree], hfree⟩
    · have hskip : ∀ f ∈ a.spare, f ≠ index := fun f hf heq => hfree (heq ▸ hf)
      generalize hnext : (if a.frames ≤ index + 1 then 0 else index + 1) = next
      by_cases hround : next = start
      · refine ⟨none, by simp [search, test_held hs hindex hfree, hnext, hround], ?_⟩
        rw [Found, Finset.eq_empty_iff_forall_notMem]
        intro f hf
        have hbefore := hseen f hf
        have hne := hskip f hf
        have hlt := hs.below f hf
        split at hnext <;> split at hbefore <;> omega
      · obtain ⟨answer, hanswer, hfound⟩ := ih next
          (by split at hnext <;> omega)
          (by split at hnext <;> split at hturns <;> split <;> omega)
          (by
            intro f hf
            have hbefore := hseen f hf
            have hne := hskip f hf
            have hlt := hs.below f hf
            split at hnext <;> split at hbefore <;> split <;> omega)
        refine ⟨answer, ?_, hfound⟩
        simp [search, test_held hs hindex hfree, hnext, hround, hanswer]

theorem searchBelow_spec (hs : Sound a) :
    (∀ i ∈ l, i < a.frames) →
      ∃ answer, a.searchBelow l = some answer ∧ ∀ i, answer = some i → i ∈ a.spare := by
  induction l with
  | nil =>
    intro _
    exact ⟨none, rfl, fun _ h => nomatch h⟩
  | cons i rest ih =>
    intro hbelow
    by_cases hfree : i ∈ a.spare
    · refine ⟨some i, by simp [searchBelow, test_spare.mp hfree], ?_⟩
      intro j hj
      cases hj
      exact hfree
    · obtain ⟨answer, hanswer, hfound⟩ := ih fun j hj => hbelow j (mem_cons_of_mem i hj)
      refine ⟨answer, ?_, hfound⟩
      simp [searchBelow, test_held hs (hbelow i mem_cons_self) hfree, hanswer]

/-- A run of free frames. -/
def FreeRun (a : FrameAllocator) (index count : Nat) : Prop := ∀ k < count, index + k ∈ a.spare

theorem FreeRun.end_le (hs : Sound a) {index : Nat}
    (h : a.FreeRun index count) (hcount : 0 < count) : index + count ≤ a.frames := by
  have hlast := hs.below _ (h (count - 1) (by omega))
  omega

theorem runLength_spec (hs : Sound a) {index : Nat} (hfits : index + count ≤ a.frames) :
    ∀ (left run : Nat), run + left = count → a.FreeRun index run →
      ∃ length, a.runLength index left run = some length ∧ a.FreeRun index length
        ∧ length ≤ count ∧ (length < count → index + length ∉ a.spare) := by
  intro left
  induction left with
  | zero =>
    intro run hsum hrun
    exact ⟨run, rfl, hrun, by omega, by omega⟩
  | succ left ih =>
    intro run hsum hrun
    by_cases hfree : index + run ∈ a.spare
    · have hlonger : a.FreeRun index (run + 1) := by
        intro k hk
        rcases Nat.lt_succ_iff_lt_or_eq.mp hk with hlt | rfl
        · exact hrun k hlt
        · exact hfree
      obtain ⟨length, hlength, hrest⟩ := ih (run + 1) (by omega) hlonger
      exact ⟨length, by simp [runLength, test_spare.mp hfree, hlength], hrest⟩
    · refine ⟨run, ?_, hrun, by omega, fun _ => hfree⟩
      simp [runLength, test_held hs (show index + run < a.frames by omega) hfree]

/-- What `take_run` leaves when it takes a run. -/
structure TookRun (a : FrameAllocator) (frame count : Nat) (b : FrameAllocator) : Prop where
  free : a.FreeRun frame count
  sound : Sound b
  frames : b.frames = a.frames
  words : b.bitmap.length = a.bitmap.length
  spare : b.spare = a.spare \ Finset.Ico frame (frame + count)

theorem Sound.hintAfter (hs : Sound a) (index : Nat) :
    Sound { a with hint := a.hintAfter index } := by
  refine ⟨hs.small, hs.words, hs.below, hs.counted, ?_, hs.waiting⟩
  have hhint := hs.hint
  dsimp only [FrameAllocator.hintAfter]
  split <;> omega

theorem toFinset_range' (index count : Nat) :
    (List.range' index count).toFinset = Finset.Ico index (index + count) := by
  ext i
  rw [mem_toFinset, mem_range'_1, Finset.mem_Ico]

/-- **The loop of `take_run` takes the first run there is, or there is none.**  It stops the
kernel only on a count that no table has room for. -/
theorem takeRun_spec (hs : Sound a) {stop : Nat} (owner : Owner)
    (hcount : 0 < count) (hstop : stop ≤ a.frames) :
    ∀ (turns index : Nat), stop < index + turns → index ≤ stop →
      (∃ frame b, a.takeRun stop count owner turns index = some (some frame, b)
        ∧ TookRun a frame count b)
      ∨ (a.takeRun stop count owner turns index = some (none, a)
          ∨ a.takeRun stop count owner turns index = none ∧ usizeValues ≤ a.frames + count)
        ∧ ∀ frame, index ≤ frame → frame + count ≤ stop → ¬ a.FreeRun frame count := by
  intro turns
  induction turns with
  | zero =>
    intro index hturns hindex
    omega
  | succ turns ih =>
    intro index hturns hindex
    have hsmall := hs.small
    by_cases hover : index + count < usizeValues
    swap
    · -- A sum that does not fit is past the end of the table.
      rw [Nat.not_lt] at hover
      refine .inr ⟨.inr ⟨?_, by omega⟩, ?_⟩
      · simp [takeRun, add, Nat.not_lt.mpr hover]
      · intro frame hle hend
        simp only [usizeValues] at hover
        omega
    by_cases hpast : stop < index + count
    · refine .inr ⟨.inl (by simp [takeRun, add_eq hover, hpast]), ?_⟩
      intro frame hle hend
      omega
    · obtain ⟨length, hlength, hrun, hle, hblocked⟩ := runLength_spec hs
        (show index + count ≤ a.frames by omega) count 0 (Nat.zero_add count)
        (fun k hk => absurd hk (Nat.not_lt_zero k))
      by_cases hwhole : length = count
      · subst hwhole
        obtain ⟨b, hb, hsb, hk, hspare⟩ := take_row (l := List.range' index length) owner hs
          nodup_range' (by
            intro i hi
            rw [mem_range'_1] at hi
            have hmem := hrun (i - index) (by omega)
            rwa [Nat.add_sub_cancel' hi.1] at hmem)
        refine .inl ⟨index, { b with hint := b.hintAfter (index + length) }, ?_, hrun,
          hsb.hintAfter _, hk.frames, hk.words, ?_⟩
        · simp [takeRun, add_eq hover, hpast, hlength, hb]
        · rw [← toFinset_range']
          exact hspare
      · have hnot := hblocked (by omega)
        have hstep : a.takeRun stop count owner (turns + 1) index
            = a.takeRun stop count owner turns (index + (length + 1)) := by
          simp [takeRun, add_eq hover, hpast, hlength, hwhole]
        rw [hstep]
        refine (ih _ (by omega) (by omega)).imp_right fun ⟨hanswer, hnone⟩ => ⟨hanswer, ?_⟩
        intro frame hle hend hfree
        -- A run that began before the next index would hold the frame that is taken.
        rcases Nat.lt_or_ge frame (index + (length + 1)) with hlt | hge
        · have hmem := hfree (index + length - frame) (by omega)
          rw [Nat.add_sub_cancel' (by omega)] at hmem
          exact hnot hmem
        · exact hnone frame hge hend hfree

/-! ### The operations -/

/-- What an operation does to the free frames: those it gives back join them, and those it hands
out, which were among them, leave them. -/
structure Effect (a : FrameAllocator) (back : Nat → Prop) (out : Finset Nat)
    (b : FrameAllocator) : Prop where
  sound : Sound b
  frames : b.frames = a.frames
  free : ∀ f ∈ out, f ∈ a.spare ∨ back f
  spare : ∀ f, f ∈ b.spare ↔ (f ∈ a.spare ∨ back f) ∧ f ∉ out

theorem Effect.backOnly {back : Nat → Prop} (hsound : Sound b)
    (hframes : b.frames = a.frames) (hspare : ∀ f, f ∈ b.spare ↔ f ∈ a.spare ∨ back f) :
    Effect a back ∅ b :=
  ⟨hsound, hframes, by simp, fun f => by simp [hspare f]⟩

theorem Effect.nothing (hsound : Sound b)
    (hframes : b.frames = a.frames) (hspare : b.spare = a.spare) : Effect a (fun _ => False) ∅ b :=
  .backOnly hsound hframes fun f => by simp [hspare]

theorem drainIfNone_spec (hs : Sound a) (safe : Nat) :
    ∃ b, a.drainIfNone safe = some b ∧ Sound b ∧ b.frames = a.frames
      ∧ ∀ f, f ∈ b.spare ↔ f ∈ a.spare ∨ a.free = 0 ∧ ∃ i, a.Due safe i f := by
  by_cases hnone : a.free = 0
  · obtain ⟨b, hb, hsb, hframes, hspare⟩ := drain_spec hs safe
    refine ⟨b, by rw [drainIfNone, if_pos hnone, hb], hsb, hframes, ?_⟩
    intro f
    simp only [hspare, hnone, true_and]
  · refine ⟨a, if_neg hnone, hs, rfl, ?_⟩
    intro f
    simp [hnone]

/-- The frames a call hands out, if it answers with a frame. -/
def handedOne (answer : Option Nat) : Finset Nat := answer.elim ∅ fun f => {f}

/-- **`alloc` hands out a free frame, or none is free once the quarantine is drained.** -/
theorem alloc_spec (hs : Sound a) (safe : Nat) (owner : Owner) :
    ∃ answer b, a.alloc safe owner = some (answer, b)
      ∧ Effect a (fun f => a.free = 0 ∧ ∃ i, a.Due safe i f) (handedOne answer) b
      ∧ (answer = none → b.spare = ∅) := by
  obtain ⟨d, hd, hsd, hframes, hspare⟩ := drainIfNone_spec hs safe
  obtain ⟨answer, hanswer, hfound⟩ := search_spec hsd hsd.hint d.frames d.hint hsd.hint (by
      have hhint := hsd.hint
      rw [if_pos (Nat.le_refl _)]
      omega) (by
      intro f _
      rw [if_pos (Nat.le_refl _)]
      omega)
  cases answer with
  | none =>
    exact ⟨none, d, by simp [alloc, hd, hanswer], .backOnly hsd hframes hspare,
      fun _ => hfound⟩
  | some i =>
    obtain ⟨b, hb, hsb, hk, herase⟩ := take_spec hsd owner hfound
    refine ⟨some i, { b with hint := b.hintAfter (i + 1) }, by simp [alloc, hd, hanswer, hb],
      ⟨hsb.hintAfter _, hk.frames.trans hframes, ?_, ?_⟩, fun h => nomatch h⟩
    · intro f hf
      have heq : f = i := Finset.mem_singleton.mp hf
      exact (hspare f).mp (heq ▸ hfound)
    · intro f
      have hmem : f ∈ b.spare ↔ f ∈ d.spare.erase i := by rw [herase]
      refine hmem.trans ?_
      rw [Finset.mem_erase, hspare, and_comm]
      exact and_congr_right fun _ => not_congr Finset.mem_singleton.symm

theorem allocBelow_spec (hs : Sound a) (limit : Nat) (owner : Owner) :
    ∃ answer b, a.allocBelow limit owner = some (answer, b)
      ∧ Effect a (fun _ => False) (handedOne answer) b := by
  obtain ⟨answer, hanswer, hfound⟩ := searchBelow_spec hs
    (l := List.range' 1 (min (limit / pageSize) a.frames - 1)) (by
      intro i hi
      rw [mem_range'_1] at hi
      omega)
  cases answer with
  | none => exact ⟨none, a, by simp [allocBelow, hanswer], .nothing hs rfl rfl⟩
  | some i =>
    have hfree := hfound i rfl
    obtain ⟨b, hb, hsb, hk, herase⟩ := take_spec hs owner hfree
    refine ⟨some i, b, by simp [allocBelow, hanswer, hb], hsb, hk.frames, ?_, ?_⟩
    · intro f hf
      have heq : f = i := Finset.mem_singleton.mp hf
      exact .inl (heq ▸ hfree)
    · intro f
      rw [herase, Finset.mem_erase, and_comm, or_false]
      exact and_congr_right fun _ => not_congr Finset.mem_singleton.symm

theorem allocContiguous_spec {d : FrameAllocator} (hs : Sound a) {safe : Nat}
    (owner : Owner) (hcount : 0 < count) (hd : a.drainQuarantine safe = some d) :
    (∃ frame b, a.allocContiguous safe count owner = some (some frame, b)
        ∧ TookRun d frame count b)
      ∨ (a.allocContiguous safe count owner = some (none, d)
          ∨ a.allocContiguous safe count owner = none ∧ usizeValues ≤ a.frames + count)
        ∧ ∀ frame, ¬ d.FreeRun frame count := by
  obtain ⟨d', hd', hsd, hframes, -⟩ := drain_spec hs safe
  rw [hd] at hd'
  cases hd'
  have hzero : ¬count = 0 := by omega
  have hhint := hsd.hint
  have hfirst := takeRun_spec hsd owner hcount (Nat.le_refl d.frames) (d.frames + 1)
    (min d.hint d.frames) (by omega) (by omega)
  rcases hfirst with ⟨frame, b, hb, htook⟩ | ⟨hanswer, hafter⟩
  · refine .inl ⟨frame, b, ?_, htook⟩
    simp [allocContiguous, hzero, hd, hb]
  · rcases hanswer with hanswer | ⟨hanswer, hover⟩
    · -- Nothing from the hint on: what is left begins before it, and ends past it by less
      -- than the run is long.
      have hsecond := takeRun_spec hsd owner hcount
        (Nat.min_le_right (min d.hint d.frames + count) d.frames)
        (min (min d.hint d.frames + count) d.frames + 1) 0
        (by omega) (Nat.zero_le _)
      have hsame : a.allocContiguous safe count owner
          = d.takeRun (min (min d.hint d.frames + count) d.frames) count owner
            (min (min d.hint d.frames + count) d.frames + 1) 0 := by
        simp [allocContiguous, hzero, hd, hanswer]
      rw [hsame, ← hframes]
      refine hsecond.imp_right fun ⟨hlast, hbefore⟩ => ⟨hlast, ?_⟩
      intro frame hfree
      have hend := hfree.end_le hsd hcount
      rcases Nat.lt_or_ge frame (min d.hint d.frames) with hlt | hge
      · exact hbefore frame (Nat.zero_le _) (by omega) hfree
      · exact hafter frame hge hend hfree
    · refine .inr ⟨.inr ⟨by simp [allocContiguous, hzero, hd, hanswer], by omega⟩, ?_⟩
      intro frame hfree
      have hend := hfree.end_le hsd hcount
      have hsmall := hsd.small
      simp only [usizeValues] at hover
      omega

/-! ### Construction -/

theorem full_sound (hpos : 0 < limit) (hsmall : limit ≤ 2 ^ 52) :
    Sound (full limit) where
  small := hsmall
  words := by
    have hup := Pages.le_up (p := 64) (by decide) limit
    rw [Pages.up, Nat.mul_comm] at hup
    simpa [full, bitmapWords] using hup
  below := by
    intro f hf
    rw [spare, full, Bitmap.spare_full] at hf
    cases hf
  counted := by
    rw [spare, full, Bitmap.spare_full]
    rfl
  hint := hpos
  waiting := by
    have hnone : (full limit).waiting = ∅ := by
      unfold FrameAllocator.waiting
      simp [full, Quarantined.empty]
    rw [hnone]
    rfl

theorem addUsable_spec (hs : Sound a) (hlimit : a.frames = limit) (region : MemoryRegion) :
    ∃ b, addUsable limit a region = some b ∧ Sound b ∧ Kept a b := by
  cases husable : region.usable with
  | false => exact ⟨a, by simp [addUsable, husable], hs, .refl a⟩
  | true =>
    obtain ⟨b, hb, hsb, hk, -⟩ := letGoHeld_row
      (l := List.range' (region.base / pageSize)
        (min (region.base / pageSize + region.pages) limit - region.base / pageSize)) hs (by
          intro i hi
          rw [mem_range'_1] at hi
          omega)
    exact ⟨b, by simpa [addUsable, husable] using hb, hsb, hk⟩

theorem addUsable_all (regions : List MemoryRegion) :
    ∀ {a : FrameAllocator}, Sound a → a.frames = limit →
      ∃ b, regions.foldlM (addUsable limit) a = some b ∧ Sound b ∧ Kept a b := by
  induction regions with
  | nil =>
    intro a hs _
    exact ⟨a, rfl, hs, .refl a⟩
  | cons region rest ih =>
    intro a hs hlimit
    obtain ⟨c, hc, hsc, hkc⟩ := addUsable_spec hs hlimit region
    obtain ⟨b, hb, hsb, hkb⟩ := ih hsc (hkc.frames.trans hlimit)
    exact ⟨b, by simp [hc, hb], hsb, hkc.trans hkb⟩

/-- **What `new` builds is sound.** -/
theorem new_sound {regions : List MemoryRegion}
    (hpos : 0 < limit) (hsmall : limit ≤ 2 ^ 52) (h : new regions limit = some (some a)) :
    Sound a := by
  unfold new at h
  split at h
  · cases h
  · have hframes : (full limit).frames = limit := rfl
    obtain ⟨c, hc, hsc, -⟩ := addUsable_all regions (full_sound hpos hsmall) hframes
    simp only [hc, bind, Option.bind_eq_some_iff, Option.some.injEq, pure] at h
    obtain ⟨b, rfl, e, he, rfl⟩ := h
    obtain ⟨hse, -, -⟩ := holdFree_row hsc he
    exact ⟨hse.small, hse.words, hse.below, hse.counted, hse.hint, hse.waiting⟩

end FrameAllocator

end Thalyx.Kernel.Pool
