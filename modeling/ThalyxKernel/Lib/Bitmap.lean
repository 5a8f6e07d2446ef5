/-
Bitmaps.

A set of numbers kept as words of `w` bits: the bit of a number is in the word its quotient
picks, at the place its remainder picks.  Code that indexes past the words stops, so every
operation is partial.  What the words stand for is the set of numbers whose bit is clear, and
setting or clearing a bit takes one number out of it or puts one in.
-/
import ThalyxKernel.Lib.Checked
import Mathlib.Data.Finset.Card
import Mathlib.Data.Finset.Range

namespace Thalyx.Bitmap

open List Option

variable {w : Nat}

/-- `words[i / w] & (1 << (i % w)) != 0`. -/
def test (words : List (BitVec w)) (i : Nat) : Option Bool :=
  (words[i / w]?).map fun word => word &&& (1#w <<< (i % w)) != 0#w

/-- `words[i / w] |= 1 << (i % w)`. -/
def set (words : List (BitVec w)) (i : Nat) : Option (List (BitVec w)) :=
  (words[i / w]?).map fun word => words.set (i / w) (word ||| (1#w <<< (i % w)))

/-- `words[i / w] &= !(1 << (i % w))`. -/
def clear (words : List (BitVec w)) (i : Nat) : Option (List (BitVec w)) :=
  (words[i / w]?).map fun word => words.set (i / w) (word &&& ~~~(1#w <<< (i % w)))

/-- The numbers whose bit is clear. -/
def spare (words : List (BitVec w)) : Finset Nat :=
  (Finset.range (w * words.length)).filter fun i => test words i = some false

/-! ### One bit of a word -/

variable {i : Nat}

theorem getLsbD_place {j : Nat} (hj : j < w) : (1#w <<< i).getLsbD j = decide (j = i) := by
  rw [BitVec.getLsbD_shiftLeft, BitVec.getLsbD_one]
  by_cases h : j = i
  · subst h
    simp [hj]
    omega
  · simp [h]
    omega

variable {word : BitVec w}

theorem and_place_ne_zero (hi : i < w) : (word &&& (1#w <<< i) != 0#w) = word.getLsbD i := by
  cases hbit : word.getLsbD i with
  | true =>
    rw [bne_iff_ne]
    intro hzero
    have hand : (word &&& (1#w <<< i)).getLsbD i = true := by
      rw [BitVec.getLsbD_and, getLsbD_place hi, hbit]
      simp
    rw [hzero, BitVec.getLsbD_zero] at hand
    cases hand
  | false =>
    rw [bne_eq_false_iff_eq]
    apply BitVec.eq_of_getLsbD_eq
    intro j hj
    rw [BitVec.getLsbD_and, getLsbD_place hj, BitVec.getLsbD_zero]
    by_cases h : j = i
    · rw [h, hbit, Bool.false_and]
    · simp [h]

/-! ### Tests -/

variable {words : List (BitVec w)}

theorem index_lt (h : i < w * words.length) : i / w < words.length := Nat.div_lt_of_lt_mul h

theorem place_lt (h : i < w * words.length) : i % w < w := by
  apply Nat.mod_lt
  exact Nat.pos_of_mul_pos_right (Nat.zero_lt_of_lt h)

theorem test_eq (h : i < w * words.length) (hindex : i / w < words.length) :
    test words i = some (words[i / w].getLsbD (i % w)) := by
  rw [test, getElem?_eq_getElem hindex, map_some, and_place_ne_zero (place_lt h)]

theorem test_isSome (h : i < w * words.length) :
    ∃ bit, test words i = some bit := ⟨_, test_eq h (index_lt h)⟩

theorem test_some_lt {bit : Bool} (hw : 0 < w)
    (h : test words i = some bit) : i < w * words.length := by
  rw [test, map_eq_some_iff] at h
  obtain ⟨word, hword, -⟩ := h
  obtain ⟨hlt, -⟩ := List.getElem?_eq_some_iff.mp hword
  rw [Nat.mul_comm]
  exact (Nat.div_lt_iff_lt_mul hw).mp hlt

theorem mem_spare (hw : 0 < w) : i ∈ spare words ↔ test words i = some false := by
  rw [spare, Finset.mem_filter, Finset.mem_range]
  exact ⟨And.right, fun h => ⟨test_some_lt hw h, h⟩⟩

theorem test_of_not_mem (h : i < w * words.length)
    (hi : i ∉ spare words) : test words i = some true := by
  obtain ⟨bit, hbit⟩ := test_isSome h
  cases bit with
  | true => exact hbit
  | false => exact absurd (Finset.mem_filter.mpr ⟨Finset.mem_range.mpr h, hbit⟩) hi

/-! ### Updates -/

theorem test_replace {index : Nat} (h : i < w * words.length) :
    test (words.set index word) i
      = if i / w = index then some (word.getLsbD (i % w)) else test words i := by
  have hlength : i < w * (words.set index word).length := by rwa [length_set]
  rw [test_eq hlength (index_lt hlength)]
  by_cases hat : i / w = index
  · subst hat
    rw [if_pos rfl, getElem_set_self]
  · rw [if_neg hat, test_eq h (index_lt h), getElem_set_ne (Ne.symm hat)]

theorem place_inj {j : Nat} (hquotient : j / w = i / w) (hplace : j % w = i % w) : j = i := by
  rw [← Nat.div_add_mod j w, hquotient, hplace, Nat.div_add_mod]

/-- **Setting a bit takes its number out.** -/
theorem set_spec (h : i < w * words.length) :
    ∃ words', set words i = some words' ∧ words'.length = words.length
      ∧ spare words' = (spare words).erase i := by
  refine ⟨_, by rw [set, getElem?_eq_getElem (index_lt h), map_some],
    length_set, ?_⟩
  ext j
  simp only [spare, length_set, Finset.mem_filter, Finset.mem_range, Finset.mem_erase]
  rw [← and_left_comm]
  apply and_congr_right
  intro hj
  rw [test_replace hj]
  by_cases hword : j / w = i / w
  · rw [if_pos hword, test_eq hj (index_lt hj), BitVec.getLsbD_or, getLsbD_place (place_lt hj)]
    simp only [hword, some.injEq, Bool.or_eq_false_iff, decide_eq_false_iff_not]
    constructor
    · intro ⟨hclear, hplace⟩
      exact ⟨fun heq => hplace (by rw [heq]), hclear⟩
    · intro ⟨hne, hclear⟩
      exact ⟨hclear, fun hplace => hne (place_inj hword hplace)⟩
  · rw [if_neg hword]
    have hne : j ≠ i := fun heq => hword (by rw [heq])
    simp [hne]

/-- **Clearing a bit puts its number in.** -/
theorem clear_spec (h : i < w * words.length) :
    ∃ words', clear words i = some words' ∧ words'.length = words.length
      ∧ spare words' = insert i (spare words) := by
  refine ⟨_, by rw [clear, getElem?_eq_getElem (index_lt h), map_some],
    length_set, ?_⟩
  ext j
  simp only [spare, length_set, Finset.mem_filter, Finset.mem_range, Finset.mem_insert]
  by_cases hj : j < w * words.length
  · rw [test_replace hj]
    by_cases hword : j / w = i / w
    · rw [if_pos hword, test_eq hj (index_lt hj), BitVec.getLsbD_and, BitVec.getLsbD_not,
        getLsbD_place (place_lt hj)]
      simp only [hj, place_lt hj, hword, true_and, some.injEq, decide_true, Bool.true_and,
        Bool.and_eq_false_iff, Bool.not_eq_false', decide_eq_true_eq]
      constructor
      · rintro (hclear | hplace)
        · exact .inr hclear
        · exact .inl (place_inj hword hplace)
      · rintro (heq | hclear)
        · exact .inr (by rw [heq])
        · exact .inl hclear
    · rw [if_neg hword]
      have hne : j ≠ i := fun heq => hword (by rw [heq])
      simp [hne]
  · have hne : j ≠ i := fun heq => hj (heq ▸ h)
    simp [hj, hne]

theorem spare_full (n : Nat) : spare (List.replicate n (BitVec.allOnes w)) = ∅ := by
  rw [Finset.eq_empty_iff_forall_notMem]
  intro i hi
  obtain ⟨hlt, htest⟩ := Finset.mem_filter.mp hi
  rw [Finset.mem_range] at hlt
  rw [test_eq hlt (index_lt hlt)] at htest
  have hplace := place_lt hlt
  simp [hplace] at htest

end Thalyx.Bitmap
