/-
How many frames can be handed out, and what the allocator does to that number.

A frame counts when it is free or when draining the quarantine would free it, so a drain
does not change the number, an allocation takes one from it, and a frame retired at a
generation no processor has flushed at yet does not come back to it.
-/
import ThalyxKernel.Kernel.Frame
import Mathlib.Data.Finset.Card
import Mathlib.Data.Finset.Range

namespace Thalyx.Kernel.FrameAllocator

open List

variable {a a' : FrameAllocator} {safe : Nat} {owner : Owner} {frame : Frame}

/-- The frames that can be handed out. -/
def spare (a : FrameAllocator) (safe : Nat) : Finset Frame :=
  (Finset.range a.frames).filter fun i => (a.state i).available safe = true

theorem available_eq_card : a.available safe = (a.spare safe).card := by
  unfold available spare
  rw [Finset.card_def, Finset.filter_val, Finset.range_val]
  simp [Multiset.range, Multiset.filter_coe]

variable {i : Frame}

theorem mem_spare : i ∈ a.spare safe ↔ i < a.frames ∧ (a.state i).available safe = true := by
  simp [spare]

theorem available_le (hf : a'.frames = a.frames)
    (h : ∀ i, (a'.state i).available safe = true → (a.state i).available safe = true) :
    a'.available safe ≤ a.available safe := by
  rw [available_eq_card, available_eq_card]
  refine Finset.card_le_card ?_
  intro i hi
  rw [mem_spare] at hi ⊢
  exact ⟨hf ▸ hi.1, h i hi.2⟩

theorem available_congr (hf : a'.frames = a.frames)
    (h : ∀ i, (a'.state i).available safe = (a.state i).available safe) :
    a'.available safe = a.available safe := by
  refine le_antisymm (available_le hf fun i hi => h i ▸ hi) ?_
  exact available_le hf.symm fun i hi => (h i).symm ▸ hi

theorem available_of_held (hf : a'.frames = a.frames) (hmem : frame ∈ a.spare safe)
    (hs : a'.state = Function.update a.state frame .held) :
    a'.available safe + 1 = a.available safe := by
  have herase : a'.spare safe = (a.spare safe).erase frame := by
    ext i
    rw [Finset.mem_erase, mem_spare, mem_spare, hf, hs]
    by_cases hi : i = frame
    · subst hi
      simp [FrameState.available]
    · simp [hi]
  rw [available_eq_card, available_eq_card, herase, Finset.card_erase_of_mem hmem]
  have := Finset.card_pos.mpr ⟨frame, hmem⟩
  omega

/-! ### Draining -/

theorem drainFrame_frames : (drainFrame safe a frame).frames = a.frames := by
  unfold drainFrame release
  cases a.state frame with
  | free => rfl
  | held => rfl
  | quarantined owner generation =>
    by_cases hg : generation ≤ safe
    · simp only [hg, if_true]
      split <;> rfl
    · simp [hg]

theorem drainFrame_state (a : FrameAllocator) (safe : Nat) (frame i : Frame) :
    (drainFrame safe a frame).state i = a.state i ∨
      (i = frame ∧ (a.state i).available safe = true ∧
        (drainFrame safe a frame).state i = .free) := by
  unfold drainFrame release
  cases hs : a.state frame with
  | free => exact .inl rfl
  | held => exact .inl rfl
  | quarantined owner generation =>
    by_cases hg : generation ≤ safe
    · simp only [hg, if_true]
      split
      · exact .inl rfl
      · by_cases hi : i = frame
        · subst hi
          right
          simp [hs, FrameState.available, hg]
        · left
          simp [hi]
    · simp [hg]

theorem drainFrame_available (i : Frame) :
    ((drainFrame safe a frame).state i).available safe = (a.state i).available safe := by
  obtain h | ⟨-, hav, h⟩ := drainFrame_state a safe frame i
  · rw [h]
  · rw [h, hav]
    rfl

theorem drain_available (a : FrameAllocator) (safe : Nat) (frames : List Frame) :
    (frames.foldl (drainFrame safe) a).frames = a.frames ∧
      ∀ i, ((frames.foldl (drainFrame safe) a).state i).available safe =
        (a.state i).available safe := by
  induction frames generalizing a with
  | nil => exact ⟨rfl, fun _ => rfl⟩
  | cons frame rest ih =>
    obtain ⟨hf, hs⟩ := ih (drainFrame safe a frame)
    refine ⟨hf.trans drainFrame_frames, ?_⟩
    intro i
    rw [foldl_cons, hs i, drainFrame_available]

/-- **Draining the quarantine does not change what can be handed out.** -/
theorem available_drainQuarantine : (a.drainQuarantine safe).available safe = a.available safe := by
  obtain ⟨hf, hs⟩ := drain_available a safe (List.range a.frames)
  exact available_congr hf hs

theorem drain_state_of_free (frames : List Frame) (h : a.state i = .free) :
    (frames.foldl (drainFrame safe) a).state i = .free := by
  induction frames generalizing a with
  | nil => exact h
  | cons frame rest ih =>
    refine ih ?_
    obtain h' | ⟨-, -, h'⟩ := drainFrame_state a safe frame i
    · rw [h', h]
    · exact h'

theorem drain_free {frames : List Frame} (hi : i ∈ frames) (hlt : i < a.frames)
    (hav : (a.state i).available safe = true) :
    (frames.foldl (drainFrame safe) a).state i = .free := by
  induction frames generalizing a with
  | nil => cases hi
  | cons frame rest ih =>
    rw [foldl_cons]
    by_cases h : i = frame
    · subst h
      refine drain_state_of_free rest ?_
      unfold drainFrame release
      cases hs : a.state i with
      | free => exact hs
      | held => simp [hs, FrameState.available] at hav
      | quarantined owner generation =>
        have hg : generation ≤ safe := by simpa [hs, FrameState.available] using hav
        simp [hg, Nat.not_le_of_lt hlt]
    · have hrest : i ∈ rest := by
        obtain h' | h' := mem_cons.mp hi
        · exact absurd h' h
        · exact h'
      refine ih hrest ?_ ?_
      · rw [drainFrame_frames]
        exact hlt
      · rw [drainFrame_available]
        exact hav

/-! ### Allocating -/

theorem mem_order : i ∈ a.order ↔ i < a.frames := by
  unfold order
  rw [mem_append, or_comm, ← mem_append, take_append_drop, mem_range]

/-- The allocator an allocation searches. -/
def drained (a : FrameAllocator) (safe : Nat) : FrameAllocator :=
  if a.freeFrames = 0 then a.drainQuarantine safe else a

theorem drained_frames : (a.drained safe).frames = a.frames := by
  unfold drained
  split
  · exact (drain_available a safe (List.range a.frames)).1
  · rfl

theorem available_drained : (a.drained safe).available safe = a.available safe := by
  unfold drained
  split
  · exact available_drainQuarantine
  · rfl

theorem exists_free (h : 0 < a.available safe) :
    ∃ i, i < a.frames ∧ (a.drained safe).state i = .free := by
  unfold drained
  by_cases hf : a.freeFrames = 0
  · rw [if_pos hf]
    rw [available_eq_card] at h
    obtain ⟨i, hi⟩ := Finset.card_pos.mp h
    obtain ⟨hlt, hav⟩ := mem_spare.mp hi
    exact ⟨i, hlt, drain_free (mem_range.mpr hlt) hlt hav⟩
  · rw [if_neg hf]
    obtain ⟨i, hi⟩ := exists_mem_of_length_pos (Nat.pos_of_ne_zero hf)
    obtain ⟨hlt, hfree⟩ := mem_filter.mp hi
    exact ⟨i, mem_range.mp hlt, by simpa using hfree⟩

theorem alloc_some (h : a.alloc safe owner = (a', some frame)) :
    a'.frames = a.frames ∧ a'.available safe + 1 = a.available safe := by
  unfold alloc at h
  dsimp only at h
  split at h
  · rename_i i hfind
    replace hfind : (a.drained safe).order.find? (fun i => (a.drained safe).state i == .free) =
        some i := hfind
    obtain ⟨ha', hi⟩ := Prod.mk.inj h
    obtain rfl := Option.some.inj hi
    have hfree : (a.drained safe).state i = .free := by
      have := find?_some hfind
      simpa using this
    have hlt : i < (a.drained safe).frames := mem_order.mp (mem_of_find?_eq_some hfind)
    subst ha'
    refine ⟨drained_frames, ?_⟩
    rw [← available_drained (a := a)]
    refine available_of_held rfl (mem_spare.mpr ⟨hlt, ?_⟩) rfl
    rw [hfree]
    rfl
  · cases (Prod.mk.inj h).2

theorem alloc_none (h : a.alloc safe owner = (a', none)) :
    a' = a.drained safe ∧ a.available safe = 0 := by
  unfold alloc at h
  dsimp only at h
  split at h
  · cases (Prod.mk.inj h).2
  · rename_i hfind
    replace hfind : (a.drained safe).order.find? (fun i => (a.drained safe).state i == .free) =
        none := hfind
    refine ⟨(Prod.mk.inj h).1.symm, ?_⟩
    by_contra hne
    obtain ⟨i, hlt, hfree⟩ := exists_free (Nat.pos_of_ne_zero hne)
    have hmem : i ∈ (a.drained safe).order := mem_order.mpr (drained_frames.symm ▸ hlt)
    have := find?_eq_none.mp hfind i hmem
    simp [hfree] at this

/-- **An allocation goes through exactly when a frame can be handed out, and takes one.** -/
theorem alloc_cases (a : FrameAllocator) (safe : Nat) (owner : Owner) :
    (0 < a.available safe ∧ ∃ a' frame, a.alloc safe owner = (a', some frame) ∧
        a'.available safe + 1 = a.available safe) ∨
      (a.available safe = 0 ∧ ∃ a', a.alloc safe owner = (a', none) ∧
        a'.available safe = 0) := by
  rcases h : a.alloc safe owner with ⟨a', _ | frame⟩
  · obtain ⟨rfl, hzero⟩ := alloc_none h
    exact .inr ⟨hzero, _, rfl, by rw [available_drained, hzero]⟩
  · obtain ⟨-, hone⟩ := alloc_some h
    exact .inl ⟨by omega, a', frame, rfl, hone⟩

/-! ### Retiring -/

theorem available_retireAt {generation : Nat} (h : safe < generation) :
    (a.retireAt frame owner generation).available safe ≤ a.available safe := by
  unfold retireAt
  split
  · refine available_le rfl ?_
    intro i hi
    by_cases hif : i = frame
    · subst hif
      simp [FrameState.available, Nat.not_le_of_lt h] at hi
    · simpa [hif] using hi
  · exact le_rfl

/-! ### Contiguous runs -/

theorem allocContiguous_none {count : Nat} (h : a.allocContiguous safe count owner = (a', none)) :
    a'.available safe = a.available safe := by
  unfold allocContiguous at h
  by_cases hc : count = 0
  · simp only [hc, if_true, Prod.mk.injEq, and_true] at h
    rw [h]
  · rw [if_neg hc] at h
    dsimp only at h
    split at h
    · cases h
    · rw [← (Prod.mk.inj h).1]
      exact available_drainQuarantine

end Thalyx.Kernel.FrameAllocator
