/-
What the allocator's functions do to the pool.

Two allocators that differ in hints, charges and the owners of quarantined frames are the
same to everything proved here.  Up to that, an allocation is a drain of the quarantine
followed by the taking of frames that are free, and a release or a retirement of a run of
frames is what it is for each of them.
-/
import ThalyxKernel.Kernel.Memory.Frames
import Mathlib.Data.List.Sublists

namespace Thalyx.Kernel.Memory

open List

/-- What of a quarantined frame decides when it comes back. -/
def Quarantined.due (q : Quarantined) : Nat × Nat := (q.frame, q.generation)

namespace Allocator

/-- The same pool, whoever is charged for it and wherever the next search starts. -/
structure Same (a b : Allocator) : Prop where
  frames : b.frames = a.frames
  taken : b.taken = a.taken
  content : b.content = a.content
  due : b.quarantine.map Quarantined.due = a.quarantine.map Quarantined.due

theorem Same.refl (a : Allocator) : Same a a := ⟨rfl, rfl, rfl, rfl⟩

theorem reassign_same (a : Allocator) (source target : Owner) :
    Same a (a.reassignQuarantine source target) := by
  refine ⟨rfl, rfl, rfl, ?_⟩
  simp only [reassignQuarantine, map_map]
  refine map_congr_left fun q _ => ?_
  simp only [Function.comp_apply]
  split <;> rfl

/-! ### Releases -/

@[simp] theorem release_frames (a : Allocator) (f : Nat) (o : Owner) :
    (a.release f o).frames = a.frames := by
  unfold release
  split <;> rfl

@[simp] theorem release_quarantine (a : Allocator) (f : Nat) (o : Owner) :
    (a.release f o).quarantine = a.quarantine := by
  unfold release
  split <;> rfl

@[simp] theorem release_content (a : Allocator) (f : Nat) (o : Owner) :
    (a.release f o).content = a.content := by
  unfold release
  split <;> rfl

theorem release_taken (a : Allocator) (f : Nat) (o : Owner) (g : Nat) :
    (a.release f o).taken g = (a.taken g && !decide (g = f ∧ f < a.frames)) := by
  unfold release
  split
  · rename_i h
    by_cases hg : g = f
    · subst hg
      rcases h with h | h
      · simp [Nat.not_lt.mpr h]
      · simp [h]
    · simp [hg]
  · rename_i h
    rw [not_or, Nat.not_le] at h
    by_cases hg : g = f
    · subst hg
      simp [h.1]
    · simp [hg]

theorem foldl_release {ι : Type} (frame : ι → Nat) (owner : ι → Owner) (l : List ι)
    (a : Allocator) :
    let b := l.foldl (fun a x => a.release (frame x) (owner x)) a
    b.frames = a.frames ∧ b.quarantine = a.quarantine ∧ b.content = a.content ∧
      ∀ g, b.taken g = (a.taken g && !decide (g < a.frames ∧ g ∈ l.map frame)) := by
  induction l generalizing a with
  | nil => simp
  | cons x rest ih =>
    obtain ⟨hframes, hq, hc, ht⟩ := ih (a.release (frame x) (owner x))
    refine ⟨hframes.trans (release_frames _ _ _), hq.trans (release_quarantine _ _ _),
      hc.trans (release_content _ _ _), fun g => ?_⟩
    rw [foldl_cons, ht, release_taken, release_frames]
    by_cases hg : g = frame x
    · subst hg
      by_cases hlt : frame x < a.frames <;> simp [hlt]
    · simp [hg]

/-- Whether a frame belongs to a run. -/
def inRun (base : Nat) (pages : Nat) (f : Nat) : Prop := base ≤ f ∧ f < base + pages

instance (base : Nat) (pages : Nat) (f : Nat) : Decidable (inRun base pages f) :=
  inferInstanceAs (Decidable (_ ∧ _))

variable {count f safe : Nat}

theorem mem_run {base pages : Nat} :
    f ∈ (List.range pages).map (fun k => base + k) ↔ inRun base pages f := by
  simp only [mem_map, mem_range, inRun]
  constructor
  · rintro ⟨k, hk, rfl⟩
    omega
  · intro h
    exact ⟨f - base, by omega, by omega⟩

theorem releaseRun_spec (a : Allocator) (base : Nat) (pages : Nat) (owner : Owner) :
    (a.releaseRun base pages owner).frames = a.frames ∧
      (a.releaseRun base pages owner).quarantine = a.quarantine ∧
      (a.releaseRun base pages owner).content = a.content ∧
      ∀ g, (a.releaseRun base pages owner).taken g =
        (a.taken g && !decide (g < a.frames ∧ inRun base pages g)) := by
  obtain ⟨hframes, hq, hc, ht⟩ :=
    foldl_release (fun k => base + k) (fun _ => owner) (List.range pages) a
  refine ⟨hframes, hq, hc, fun g => ?_⟩
  rw [releaseRun, ht]
  simp only [mem_run]

/-! ### The quarantine -/

theorem drain_spec (a : Allocator) (safe : Nat) :
    (a.drainQuarantine safe).frames = a.frames ∧
      (a.drainQuarantine safe).content = a.content ∧
      (a.drainQuarantine safe).quarantine =
        a.quarantine.filter (fun q => !(q.generation ≤ safe)) ∧
      ∀ g, (a.drainQuarantine safe).taken g = (a.taken g && !decide (g < a.frames ∧
        ∃ q ∈ a.quarantine, q.generation ≤ safe ∧ q.frame = g)) := by
  obtain ⟨hframes, hq, hc, ht⟩ :=
    foldl_release Quarantined.frame Quarantined.owner
      (a.quarantine.filter fun q => q.generation ≤ safe)
      { a with quarantine := a.quarantine.filter fun q => !(q.generation ≤ safe) }
  refine ⟨hframes, hc, hq, fun g => ?_⟩
  unfold drainQuarantine
  rw [ht]
  congr 2
  simp only [mem_map, mem_filter, decide_eq_true_eq, and_assoc]

theorem foldl_retireAt (stamp : Nat) (owner : Owner) (l : List Nat) (a : Allocator) :
    ∃ kept : List Quarantined,
      l.foldl (fun a f => a.retireAt stamp owner f) a =
        { a with quarantine := a.quarantine ++ kept } ∧
      (kept.map Quarantined.frame).Sublist l ∧ ∀ q ∈ kept, q.generation = stamp := by
  induction l generalizing a with
  | nil => exact ⟨[], by simp⟩
  | cons f rest ih =>
    rw [foldl_cons]
    unfold retireAt
    split
    · obtain ⟨kept, heq, hsub, hgen⟩ :=
        ih { a with quarantine := a.quarantine ++ [⟨f, owner, stamp⟩] }
      refine ⟨⟨f, owner, stamp⟩ :: kept, ?_, ?_, ?_⟩
      · simp only [retireAt] at heq
        rw [heq]
        simp [append_assoc]
      · simpa using hsub
      · intro q hq
        rcases mem_cons.mp hq with rfl | hq
        · rfl
        · exact hgen q hq
    · obtain ⟨kept, heq, hsub, hgen⟩ := ih a
      simp only [retireAt] at heq
      exact ⟨kept, heq, hsub.trans (sublist_cons_self f rest), hgen⟩

theorem retireRun_spec (a : Allocator) (base : Nat) (pages : Nat) (owner : Owner) (stamp : Nat) :
    ∃ kept : List Quarantined,
      a.retireRun base pages owner stamp = { a with quarantine := a.quarantine ++ kept } ∧
      (kept.map Quarantined.frame).Sublist ((List.range pages).map fun k => base + k) ∧
      ∀ q ∈ kept, q.generation = stamp := by
  obtain ⟨kept, heq, hrest⟩ :=
    foldl_retireAt stamp owner ((List.range pages).map fun k => base + k) a
  refine ⟨kept, ?_, hrest⟩
  rw [foldl_map] at heq
  exact heq

/-! ### Allocations -/

/-- The pool with a frame taken and filled. -/
@[simps] def grow (a : Allocator) (f : Nat) (bytes : Nat → UInt8) : Allocator :=
  { a with taken := Function.update a.taken f true, content := Function.update a.content f bytes }

/-- The quarantine drained, or left alone. -/
def Drains (safe : Nat) (a b : Allocator) : Prop := b = a ∨ b = a.drainQuarantine safe

variable {a b : Allocator}

theorem mem_order (h : f ∈ a.order) : f < a.frames := by
  unfold order at h
  rcases mem_append.mp h with h | h
  · exact mem_range.mp (mem_of_mem_drop h)
  · exact mem_range.mp (mem_of_mem_take h)

variable {owner : Owner}

/-- **`alloc` hands out a frame that was free, after draining at most.** -/
theorem alloc_some (h : a.alloc safe owner = (b, some f)) :
    ∃ a', Drains safe a a' ∧ f < a'.frames ∧ a'.taken f = false ∧ Same (a'.grow f fun _ => 0) b := by
  unfold alloc at h
  generalize ha : (if a.freeFrames = 0 then a.drainQuarantine safe else a) = a' at h
  have hdrains : Drains safe a a' := by
    rw [← ha]
    split
    · exact .inr rfl
    · exact .inl rfl
  simp only at h
  split at h
  · rename_i g hg
    obtain ⟨rfl, hfg⟩ := Prod.mk.inj h
    obtain rfl := Option.some.inj hfg
    have hmem := mem_of_find?_eq_some hg
    have hfree := find?_some hg
    exact ⟨a', hdrains, mem_order hmem, by simpa using hfree, ⟨rfl, rfl, rfl, rfl⟩⟩
  · cases h

theorem alloc_none (h : a.alloc safe owner = (b, none)) : Drains safe a b := by
  unfold alloc at h
  generalize ha : (if a.freeFrames = 0 then a.drainQuarantine safe else a) = a' at h
  simp only at h
  split at h
  · cases h
  · obtain ⟨rfl, -⟩ := Prod.mk.inj h
    rw [← ha]
    split
    · exact .inr rfl
    · exact .inl rfl

/-- The pool with a run of frames taken, zeroed. -/
@[simps] def growRun (a : Allocator) (base : Nat) (pages : Nat) : Allocator :=
  { a with
    taken := fun g => a.taken g || decide (inRun base pages g)
    content := fun g => if inRun base pages g then fun _ => 0 else a.content g }

theorem foldl_take_same (owner : Owner) (base : Nat) (pages : Nat) (a : Allocator) :
    Same (a.growRun base pages)
      ((List.range pages).foldl (fun a k => a.take owner (base + k)) a) := by
  induction pages with
  | zero =>
    refine ⟨rfl, ?_, ?_, rfl⟩
    · funext g
      simp [growRun, inRun]
    · funext g
      have hno : ¬ inRun base 0 g := by simp [inRun]
      simp [growRun, hno]
  | succ n ih =>
    rw [range_succ, foldl_append, foldl_cons, foldl_nil]
    generalize (List.range n).foldl (fun a k => a.take owner (base + k)) a = b at ih
    refine ⟨ih.frames, ?_, ?_, ih.due⟩
    · funext g
      simp only [take, ih.taken]
      by_cases hg : g = base + n
      · subst hg
        simp [growRun, inRun]
      · have hiff : inRun base (n + 1) g ↔ inRun base n g := by
          simp only [inRun]
          omega
        simp [growRun, hg, hiff]
    · funext g
      simp only [take, ih.content]
      by_cases hg : g = base + n
      · subst hg
        simp [growRun, inRun]
      · have hiff : inRun base (n + 1) g ↔ inRun base n g := by
          simp only [inRun]
          omega
        simp [growRun, hg, hiff]

theorem findRun_spec {first last : Nat} (h : a.findRun first last count = some f) :
    f + count ≤ last ∧ ∀ g, inRun f count g → a.taken g = false := by
  have hmem := mem_of_find?_eq_some h
  have hfree := find?_some h
  rw [mem_range'_1] at hmem
  refine ⟨by omega, fun g hg => ?_⟩
  rw [all_eq_true] at hfree
  have := hfree (g - f) (mem_range.mpr (by unfold inRun at hg; omega))
  have hfg : f + (g - f) = g := by unfold inRun at hg; omega
  simpa [hfg] using this

/-- **`alloc_contiguous` hands out a run of frames that were free, after draining.** -/
theorem allocContiguous_some (h : a.allocContiguous safe count owner = (b, some f)) :
    f + count ≤ a.frames ∧ (∀ g, inRun f count g → (a.drainQuarantine safe).taken g = false) ∧
      Same ((a.drainQuarantine safe).growRun f count) b := by
  have hframes := (drain_spec a safe).1
  unfold allocContiguous at h
  split at h
  · cases h
  · generalize a.drainQuarantine safe = a' at h hframes ⊢
    simp only at h
    split at h
    · rename_i g hg
      obtain ⟨rfl, hfg⟩ := Prod.mk.inj h
      obtain rfl := Option.some.inj hfg
      have hrun : g + count ≤ a'.frames ∧ ∀ x, inRun g count x → a'.taken x = false := by
        rcases Option.or_eq_some_iff.mp hg with hg | ⟨-, hg⟩
        · exact findRun_spec hg
        · have := findRun_spec hg
          exact ⟨le_trans this.1 (min_le_right _ _), this.2⟩
      refine ⟨hframes ▸ hrun.1, hrun.2, ?_⟩
      have hsame := foldl_take_same owner g count a'
      exact ⟨hsame.frames, hsame.taken, hsame.content, hsame.due⟩
    · cases h

theorem allocContiguous_none
    (h : a.allocContiguous safe count owner = (b, none)) : Drains safe a b := by
  unfold allocContiguous at h
  split at h
  · obtain ⟨rfl, -⟩ := Prod.mk.inj h
    exact .inl rfl
  · simp only at h
    split at h
    · cases h
    · obtain ⟨rfl, -⟩ := Prod.mk.inj h
      exact .inr rfl

end Allocator

end Thalyx.Kernel.Memory
