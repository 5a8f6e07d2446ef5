/-
Sorting and searching an array in memory (`swap_bytes`, `qsort` and `bsearch` of
`user/native/src/conv.c`).

A comparator is a function of the bytes it is given pointers to.  An array lies within the
address space, so pointers into it are natural numbers; what `bsearch` adds up is not a pointer,
and wraps at 64 bits.

Every loop works on whole elements, so the proofs are about `items`, the list of them.  What
the sort may do to the memory is `Rearranged`, which a part of the array hands on to the whole.
-/
import Mathlib.Algebra.Order.Ring.Nat
import Mathlib.Data.List.Nodup
import Mathlib.Logic.Equiv.Basic
import Mathlib.Tactic.Common

namespace Thalyx.Native.Sorting

open Function List

/-- The bytes, by their addresses. -/
abbrev Memory := Nat → UInt8

/-- The bytes of an element. -/
abbrev Element := List UInt8

abbrev Comparator := Element → Element → Int

/-- `swap_bytes`, after so many turns of its loop. -/
def swapBytes (a b : Nat) : Nat → Memory → Memory
  | 0, m => m
  | i + 1, m =>
    let swapped := swapBytes a b i m
    update (update swapped (a + i) (swapped (b + i))) (b + i) (swapped (a + i))

/-- The bytes of the element `items + i * size`. -/
def item (m : Memory) (base size i : Nat) : Element :=
  (range size).map fun k => m (base + i * size + k)

/-- The elements of an array. -/
def items (m : Memory) (base size count : Nat) : List Element :=
  (range count).map (item m base size)

def swapItems (base size i j : Nat) (m : Memory) : Memory :=
  swapBytes (base + i * size) (base + j * size) size m

section Loops

variable (compare : Comparator) (base size : Nat)

/-- The inner loop of the insertion sort, from `j` down. -/
def sink : Nat → Memory → Memory
  | 0, m => m
  | j + 1, m =>
    if 0 < compare (item m base size j) (item m base size (j + 1)) then
      sink j (swapItems base size j (j + 1) m)
    else m

/-- The insertion sort, after the turns `1` to `i`. -/
def insertion : Nat → Memory → Memory
  | 0, m => m
  | i + 1, m => sink compare base size (i + 1) (insertion i m)

/-- The loop that gathers what is below the pivot, after the turns `1` to `i`, and `split`. -/
def partition : Nat → Memory → Memory × Nat
  | 0, m => (m, 0)
  | i + 1, m =>
    let (m, split) := partition i m
    if compare (item m base size (i + 1)) (item m base size 0) < 0 then
      (swapItems base size (split + 1) (i + 1) m, split + 1)
    else (m, split)

theorem partition_le (i : Nat) (m : Memory) : (partition compare base size i m).2 ≤ i := by
  induction i with
  | zero => exact Nat.le_refl _
  | succ i ih =>
    unfold partition
    dsimp only
    split
    · exact Nat.succ_le_succ ih
    · exact Nat.le_succ_of_le ih

/-- The array around its middle element, and where that element is then. -/
def divide (count : Nat) (m : Memory) : Memory × Nat :=
  let (m, split) :=
    partition compare base size (count - 1) (swapItems base size 0 (count / 2) m)
  (swapItems base size 0 split m, split)

theorem divide_le (count : Nat) (m : Memory) : (divide compare base size count m).2 ≤ count - 1 :=
  partition_le compare base size _ _

/-- `qsort` -/
def qsort (base count : Nat) (m : Memory) : Memory :=
  if count < 2 then m
  else if count < 12 then insertion compare base size (count - 1) m
  else
    let divided := divide compare base size count m
    let split := divided.2
    qsort (base + (split + 1) * size) (count - split - 1) (qsort base split divided.1)
termination_by count
decreasing_by
  · have := divide_le compare base size count m
    omega
  · omega

theorem middle_lt {low high : Nat} (h : low < high) : (low + high) % 2 ^ 64 / 2 < high := by
  omega

/-- The loop of `bsearch`, which ends because `low + high` does not wrap below `2 ^ 64`. -/
def search (key : Element) (m : Memory) (low high : Nat) (hhigh : high ≤ 2 ^ 63) : Option Nat :=
  if h : low < high then
    let middle := (low + high) % 2 ^ 64 / 2
    let order := compare key (item m base size middle)
    if order = 0 then some (base + middle * size)
    else if order < 0 then search key m low middle ((middle_lt h).le.trans hhigh)
    else search key m (middle + 1) high hhigh
  else none
termination_by high - low
decreasing_by all_goals omega

/-- `bsearch` -/
def bsearch (key : Element) (m : Memory) (count : Nat) (hcount : count ≤ 2 ^ 63) : Option Nat :=
  search compare base size key m 0 count hcount

end Loops

/-- What a comparator is for: a total order of classes of elements. -/
structure TotalPreorder (compare : Comparator) : Prop where
  flip : ∀ a b, compare a b < 0 ↔ 0 < compare b a
  trans : ∀ a b c, compare a b ≤ 0 → compare b c ≤ 0 → compare a c ≤ 0

/-- The elements stand in non-decreasing order. -/
def Sorted (compare : Comparator) (l : List Element) : Prop :=
  l.Pairwise fun a b => compare a b ≤ 0

variable {compare : Comparator} {base size count i j k n x : Nat}
  {m m' m'' : Memory}

namespace TotalPreorder

variable {a b c : Element}

theorem le_iff (h : TotalPreorder compare) : compare a b ≤ 0 ↔ 0 ≤ compare b a := by
  rw [← not_lt, ← h.flip, not_lt]

theorem lt_of_lt_of_le (h : TotalPreorder compare) (hab : compare a b < 0)
    (hbc : compare b c ≤ 0) : compare a c < 0 := by
  by_contra hnot
  exact absurd (h.trans b c a hbc (h.le_iff.mpr (not_lt.mp hnot)))
    (not_le.mpr ((h.flip a b).mp hab))

theorem lt_of_le_of_lt (h : TotalPreorder compare) (hab : compare a b ≤ 0)
    (hbc : compare b c < 0) : compare a c < 0 := by
  by_contra hnot
  exact absurd (h.trans c a b (h.le_iff.mpr (not_lt.mp hnot)) hab)
    (not_le.mpr ((h.flip b c).mp hbc))

end TotalPreorder

/-! ### Elements and exchanges -/

theorem swapBytes_apply {a b : Nat} (h : a = b ∨ a + n ≤ b ∨ b + n ≤ a) :
    swapBytes a b n m x = if a ≤ x ∧ x < a + n then m (b + (x - a))
      else if b ≤ x ∧ x < b + n then m (a + (x - b)) else m x := by
  induction n generalizing x with
  | zero =>
    show m x = _
    rw [if_neg (by omega), if_neg (by omega)]
  | succ n ih =>
    unfold swapBytes
    dsimp only
    rw [update_apply, update_apply, ih (by omega), ih (by omega), ih (by omega)]
    grind

theorem end_le (size : Nat) (hij : i < j) : i * size + size ≤ j * size :=
  (Nat.succ_mul i size).symm.trans_le (Nat.mul_le_mul_right size hij)

/-- Bytes of different elements are different. -/
theorem within_iff (hk : k < size) :
    base + i * size ≤ base + j * size + k ∧ base + j * size + k < base + i * size + size ↔
      j = i := by
  constructor
  · rintro ⟨hle, hlt⟩
    rcases Nat.lt_trichotomy j i with hji | hji | hij
    · have := end_le size hji
      omega
    · exact hji
    · have := end_le size hij
      omega
  · rintro rfl
    omega

theorem apart (base size i j : Nat) : base + i * size = base + j * size ∨
    base + i * size + size ≤ base + j * size ∨ base + j * size + size ≤ base + i * size := by
  rcases Nat.lt_trichotomy i j with hij | rfl | hji
  · have := end_le size hij
    omega
  · exact .inl rfl
  · have := end_le size hji
    omega

/-- **An exchange exchanges two elements** and leaves every other. -/
theorem item_swapItems : item (swapItems base size i j m) base size k =
    item m base size (Equiv.swap i j k) := by
  refine map_congr_left fun o ho => ?_
  have hlt : o < size := mem_range.mp ho
  unfold swapItems
  rw [swapBytes_apply (apart base size i j), Equiv.swap_apply_def]
  simp only [within_iff hlt]
  split
  · rename_i hk
    rw [hk]
    congr 1
    omega
  · split
    · rename_i hk
      rw [hk]
      congr 1
      omega
    · rfl

theorem swapItems_outside (hi : i < count) (hj : j < count)
    (hx : x < base ∨ base + count * size ≤ x) : swapItems base size i j m x = m x := by
  have hi' := end_le size hi
  have hj' := end_le size hj
  unfold swapItems
  rw [swapBytes_apply (apart base size i j), if_neg (by omega), if_neg (by omega)]

theorem items_succ : items m base size (n + 1) = items m base size n ++ [item m base size n] := by
  simp [items, range_succ]

theorem item_add : item m (base + n * size) size i = item m base size (n + i) := by
  simp [item, Nat.add_mul, Nat.add_assoc]

theorem items_add : items m base size (n + k) =
    items m base size n ++ items m (base + n * size) size k := by
  unfold items
  rw [range_add, map_append, map_map]
  exact congrArg _ (map_congr_left fun i _ => item_add.symm)

theorem mem_items {e : Element} :
    e ∈ items m base size count ↔ ∃ i < count, item m base size i = e := by
  simp [items]

theorem items_congr (h : ∀ x, base ≤ x → x < base + count * size → m' x = m x) :
    items m' base size count = items m base size count := by
  refine map_congr_left fun i hi => map_congr_left fun o ho => h _ ?_ ?_
  · omega
  · have := end_le size (mem_range.mp hi)
    have := mem_range.mp ho
    omega

/-! ### What the sort may do -/

/-- The same elements in some order, and the same bytes around them. -/
structure Rearranged (base size count : Nat) (m m' : Memory) : Prop where
  perm : items m' base size count ~ items m base size count
  outside : ∀ x, x < base ∨ base + count * size ≤ x → m' x = m x

namespace Rearranged

theorem refl (m : Memory) : Rearranged base size count m m := ⟨.refl _, fun _ _ => rfl⟩

theorem trans (h : Rearranged base size count m m') (h' : Rearranged base size count m' m'') :
    Rearranged base size count m m'' :=
  ⟨h'.perm.trans h.perm, fun x hx => (h'.outside x hx).trans (h.outside x hx)⟩

theorem swap (hi : i < count) (hj : j < count) :
    Rearranged base size count m (swapItems base size i j m) where
  perm := by
    have hitems : items (swapItems base size i j m) base size count =
        ((range count).map (Equiv.swap i j)).map (item m base size) := by
      rw [map_map]
      exact map_congr_left fun k _ => item_swapItems
    have hrange : (range count).map (Equiv.swap i j) ~ range count := by
      refine (perm_ext_iff_of_nodup (Nodup.map (Equiv.swap i j).injective nodup_range)
        nodup_range).mpr fun k => ?_
      have hswap : Equiv.swap i j k < count ↔ k < count := by
        rw [Equiv.swap_apply_def]
        split
        · omega
        · split <;> omega
      rw [mem_map, mem_range, ← hswap]
      constructor
      · rintro ⟨k', hk', rfl⟩
        rwa [Equiv.swap_apply_self, ← mem_range]
      · exact fun hk => ⟨_, mem_range.mpr hk, Equiv.swap_apply_self i j k⟩
    rw [hitems]
    exact hrange.map _
  outside x hx := swapItems_outside hi hj hx

/-- A part of the array is rearranged, so the array is. -/
theorem of_part (h : Rearranged (base + n * size) size k m m') (hle : n + k ≤ count) :
    Rearranged base size count m m' := by
  obtain ⟨rest, rfl⟩ := Nat.exists_eq_add_of_le hle
  have hwidth : (n + k + rest) * size = n * size + k * size + rest * size := by
    rw [Nat.add_mul, Nat.add_mul]
  refine ⟨?_, fun x hx => h.outside x (by omega)⟩
  have hbefore : items m' base size n = items m base size n :=
    items_congr fun x _ hlt => h.outside x (by omega)
  have hafter : items m' (base + (n + k) * size) size rest =
      items m (base + (n + k) * size) size rest :=
    items_congr fun x hle _ => h.outside x (.inr (by rw [Nat.add_mul] at hle; omega))
  rw [items_add, items_add, items_add (n := n + k), items_add, hbefore, hafter]
  exact (h.perm.append_left _).append_right _

theorem of_front (h : Rearranged base size n m m') (hle : n ≤ count) :
    Rearranged base size count m m' := by
  refine of_part (n := 0) (k := n) ?_ (by omega)
  simpa using h

end Rearranged

/-! ### The insertion sort -/

variable (hc : TotalPreorder compare)

theorem sink_rearranged (compare : Comparator) (j : Nat) (m : Memory) :
    Rearranged base size (j + 1) m (sink compare base size j m) := by
  induction j generalizing m with
  | zero => exact .refl m
  | succ j ih =>
    unfold sink
    split
    · exact (Rearranged.swap (by omega) (by omega)).trans ((ih _).of_front (by omega))
    · exact .refl m

include hc

theorem Sorted.concat {l : List Element} {e f : Element}
    (h : Sorted compare (l ++ [e])) (hef : compare e f ≤ 0) : ∀ x ∈ l ++ [e], compare x f ≤ 0 := by
  intro x hx
  rcases mem_append.mp hx with hx | hx
  · exact hc.trans x e f ((pairwise_append.mp h).2.2 x hx e (mem_singleton.mpr rfl)) hef
  · rwa [mem_singleton.mp hx]

/-- **Sinking puts the last element where it belongs** among those before it. -/
theorem sink_sorted (h : Sorted compare (items m base size j)) :
    Sorted compare (items (sink compare base size j m) base size (j + 1)) := by
  induction j generalizing m with
  | zero => simp [items, Sorted]
  | succ j ih =>
    rw [items_succ] at h
    unfold sink
    split
    · rename_i hout
      have hle : compare (item m base size (j + 1)) (item m base size j) ≤ 0 :=
        ((hc.flip _ _).mpr hout).le
      generalize hs : swapItems base size j (j + 1) m = s
      have hitem : ∀ k, item s base size k = item m base size (Equiv.swap j (j + 1) k) := by
        intro k
        rw [← hs]
        exact item_swapItems
      have hbefore : items s base size j = items m base size j := by
        refine map_congr_left fun k hk => ?_
        have hlt := mem_range.mp hk
        rw [hitem, Equiv.swap_apply_of_ne_of_ne (by omega) (by omega)]
      have hlast : item (sink compare base size j s) base size (j + 1) = item m base size j := by
        have hkept : item (sink compare base size j s) base size (j + 1) =
            item s base size (j + 1) :=
          map_congr_left fun o _ => (sink_rearranged compare j s).outside _ (by omega)
        rw [hkept, hitem, Equiv.swap_apply_right]
      have hsorted := ih (m := s) (hbefore ▸ (pairwise_append.mp h).1)
      rw [items_succ, hlast]
      refine pairwise_append.mpr ⟨hsorted, pairwise_singleton _ _, fun x hx y hy => ?_⟩
      rw [mem_singleton.mp hy]
      have hx' := (sink_rearranged compare j s).perm.subset hx
      rw [items_succ, hbefore, hitem, Equiv.swap_apply_left] at hx'
      rcases mem_append.mp hx' with hx' | hx'
      · exact (pairwise_append.mp h).2.2 x hx' _ (mem_singleton.mpr rfl)
      · rwa [mem_singleton.mp hx']
    · rename_i hin
      rw [items_succ, items_succ]
      refine pairwise_append.mpr ⟨h, pairwise_singleton _ _, fun x hx y hy => ?_⟩
      rw [mem_singleton.mp hy]
      exact Sorted.concat hc h (not_lt.mp hin) x hx

theorem insertion_sorts (base size i : Nat) (m : Memory) :
    Rearranged base size (i + 1) m (insertion compare base size i m) ∧
      Sorted compare (items (insertion compare base size i m) base size (i + 1)) := by
  induction i with
  | zero => exact ⟨.refl m, by simp [insertion, items, Sorted]⟩
  | succ i ih =>
    unfold insertion
    exact ⟨(ih.1.of_front (by omega)).trans (sink_rearranged compare (i + 1) _),
      sink_sorted hc ih.2⟩

omit hc

/-! ### The partition -/

/-- The pivot is the first element; what is below it comes next, up to `split`. -/
structure Parted (compare : Comparator) (base size n : Nat) (m : Memory)
    (split : Nat) : Prop where
  below : ∀ k, 0 < k → k ≤ split → compare (item m base size k) (item m base size 0) < 0
  rest : ∀ k, split < k → k ≤ n → 0 ≤ compare (item m base size k) (item m base size 0)

/-- **A turn of the loop** takes one more element to its side of the pivot. -/
theorem partition_parts (i : Nat) (m : Memory) :
    Rearranged base size (i + 1) m (partition compare base size i m).1 ∧
      Parted compare base size i (partition compare base size i m).1
        (partition compare base size i m).2 := by
  induction i with
  | zero =>
    refine ⟨.refl m, fun k hk hle => ?_, fun k hk hle => ?_⟩
    · exact absurd (hk.trans_le hle) (Nat.lt_irrefl 0)
    · exact absurd (hk.trans_le hle) (Nat.not_lt_zero _)
  | succ i ih =>
    have hsplit := partition_le compare base size i m
    unfold partition
    generalize partition compare base size i m = parted at ih hsplit ⊢
    obtain ⟨s, split⟩ := parted
    obtain ⟨hkept, hbelow, hrest⟩ := ih
    dsimp only at hkept hbelow hrest hsplit ⊢
    have hkept' := hkept.of_front (Nat.le_succ (i + 1))
    split
    · rename_i hlt
      refine ⟨hkept'.trans (Rearranged.swap (by omega) (by omega)), fun k hk hle => ?_,
        fun k hk hle => ?_⟩
      · rw [item_swapItems, item_swapItems,
          Equiv.swap_apply_of_ne_of_ne (x := 0) (by omega) (by omega)]
        by_cases hlast : k = split + 1
        · rwa [hlast, Equiv.swap_apply_left]
        · rw [Equiv.swap_apply_of_ne_of_ne hlast (by omega)]
          exact hbelow k hk (by omega)
      · rw [item_swapItems, item_swapItems,
          Equiv.swap_apply_of_ne_of_ne (x := 0) (by omega) (by omega)]
        by_cases hlast : k = i + 1
        · rw [hlast, Equiv.swap_apply_right]
          exact hrest _ (by omega) (by omega)
        · rw [Equiv.swap_apply_of_ne_of_ne (by omega) hlast]
          exact hrest k (by omega) (by omega)
    · rename_i hge
      refine ⟨hkept', hbelow, fun k hk hle => ?_⟩
      by_cases hlast : k = i + 1
      · rw [hlast]
        exact not_lt.mp hge
      · exact hrest k hk (by omega)

/-- One element is where it belongs, with what is below it before it and the rest after it. -/
structure Divided (compare : Comparator) (base size count : Nat) (m : Memory)
    (split : Nat) : Prop where
  below : ∀ k < split, compare (item m base size k) (item m base size split) < 0
  above : ∀ k < count, split < k → 0 ≤ compare (item m base size k) (item m base size split)

theorem divide_divides (compare : Comparator) (base size : Nat)
    (hcount : 0 < count) (m : Memory) :
    Rearranged base size count m (divide compare base size count m).1 ∧
      Divided compare base size count (divide compare base size count m).1
        (divide compare base size count m).2 := by
  have hle := divide_le compare base size count m
  obtain ⟨hkept, hbelow, hrest⟩ := @partition_parts compare base size (count - 1)
    (swapItems base size 0 (count / 2) m)
  rw [Nat.sub_add_cancel hcount] at hkept
  unfold divide at hle ⊢
  generalize partition compare base size (count - 1) (swapItems base size 0 (count / 2) m) =
    parted at hle hkept hbelow hrest ⊢
  obtain ⟨s, split⟩ := parted
  dsimp only at hle hkept hbelow hrest ⊢
  have hpivot : item (swapItems base size 0 split s) base size split = item s base size 0 := by
    rw [item_swapItems, Equiv.swap_apply_right]
  have hmiddle : Rearranged base size count m (swapItems base size 0 (count / 2) m) :=
    .swap hcount (by omega)
  refine ⟨(hmiddle.trans hkept).trans (.swap hcount (by omega)), fun k hk => ?_,
    fun k hk hlt => ?_⟩
  · rw [hpivot, item_swapItems]
    by_cases hzero : k = 0
    · rw [hzero, Equiv.swap_apply_left]
      exact hbelow split (by omega) le_rfl
    · rw [Equiv.swap_apply_of_ne_of_ne hzero (by omega)]
      exact hbelow k (by omega) hk.le
  · rw [hpivot, item_swapItems, Equiv.swap_apply_of_ne_of_ne (by omega) (by omega)]
    exact hrest k hlt (by omega)

/-! ### The sort -/

include hc

/-- **With both sides sorted the whole is.** -/
theorem Divided.sorted (hd : Divided compare base size (n + 1 + k) m n)
    (hleft : Rearranged base size n m m') (hleft' : Sorted compare (items m' base size n))
    (hright : Rearranged (base + (n + 1) * size) size k m' m'')
    (hright' : Sorted compare (items m'' (base + (n + 1) * size) size k)) :
    Sorted compare (items m'' base size (n + 1 + k)) := by
  have hwidth : (n + 1) * size = n * size + size := Nat.succ_mul n size
  have hbefore : items m'' base size n = items m' base size n :=
    items_congr fun x _ hlt => hright.outside x (.inl (by omega))
  have hpivot : item m'' base size n = item m base size n := by
    refine map_congr_left fun o ho => ?_
    have hlt : o < size := mem_range.mp ho
    exact (hright.outside _ (.inl (by omega))).trans (hleft.outside _ (.inr (by omega)))
  have hafter : items m' (base + (n + 1) * size) size k = items m (base + (n + 1) * size) size k :=
    items_congr fun x hle _ => hleft.outside x (.inr (by omega))
  have hbelow : ∀ e ∈ items m'' base size n, compare e (item m base size n) ≤ 0 := by
    intro e he
    obtain ⟨i, hi, rfl⟩ := mem_items.mp (hleft.perm.subset (hbefore ▸ he))
    exact (hd.below i hi).le
  have habove : ∀ e ∈ items m'' (base + (n + 1) * size) size k,
      compare (item m base size n) e ≤ 0 := by
    intro e he
    obtain ⟨i, hi, rfl⟩ := mem_items.mp (hafter ▸ hright.perm.subset he)
    rw [item_add, hc.le_iff]
    exact hd.above _ (by omega) (by omega)
  rw [items_add, items_succ, hpivot]
  refine pairwise_append.mpr ⟨pairwise_append.mpr ⟨hbefore ▸ hleft', pairwise_singleton _ _,
    fun x hx y hy => ?_⟩, hright', fun x hx y hy => ?_⟩
  · exact mem_singleton.mp hy ▸ hbelow x hx
  · rcases mem_append.mp hx with hx | hx
    · exact hc.trans _ _ _ (hbelow x hx) (habove y hy)
    · exact mem_singleton.mp hx ▸ habove y hy

theorem qsort_spec (base size count : Nat) (m : Memory) :
    Rearranged base size count m (qsort compare size base count m) ∧
      Sorted compare (items (qsort compare size base count m) base size count) := by
  induction count using Nat.strong_induction_on generalizing base m with
  | _ count ih =>
    rw [qsort]
    split
    · refine ⟨.refl m, ?_⟩
      have hcases : count = 0 ∨ count = 1 := by omega
      rcases hcases with rfl | rfl <;> simp [items, Sorted]
    · split
      · have hsorts := insertion_sorts hc base size (count - 1) m
        rwa [Nat.sub_add_cancel (by omega)] at hsorts
      · obtain ⟨hkept, hd⟩ := divide_divides compare base size (by omega : 0 < count) m
        have hle := divide_le compare base size count m
        dsimp only
        generalize divide compare base size count m = divided at hkept hd hle ⊢
        obtain ⟨s, n⟩ := divided
        dsimp only at hkept hd hle ⊢
        obtain ⟨k, rfl⟩ : ∃ k, count = n + 1 + k := ⟨count - n - 1, by omega⟩
        rw [show n + 1 + k - n - 1 = k by omega]
        obtain ⟨hleft, hleft'⟩ := ih n (by omega) base s
        obtain ⟨hright, hright'⟩ := ih k (by omega) (base + (n + 1) * size)
          (qsort compare size base n s)
        exact ⟨(hkept.trans (hleft.of_front (by omega))).trans (hright.of_part le_rfl),
          hd.sorted hc hleft hleft' hright hright'⟩

/-! ### The search -/

variable {low high : Nat} {key : Element} {hhigh : high ≤ 2 ^ 63}

omit hc in
theorem Sorted.le (h : Sorted compare (items m base size count)) (hij : i < j) (hj : j < count) :
    compare (item m base size i) (item m base size j) ≤ 0 := by
  have hpairwise := pairwise_iff_getElem.mp h i j (by simp [items]; omega) (by simp [items, hj]) hij
  simpa [items] using hpairwise

/-- What a search answers: an element equal to the key, or that there is none. -/
def Answers (compare : Comparator) (base size count : Nat) (m : Memory)
    (key : Element) : Option Nat → Prop
  | some a => ∃ i < count, a = base + i * size ∧ compare key (item m base size i) = 0
  | none => ∀ i < count, compare key (item m base size i) ≠ 0

/-- **What the loop has passed is not the key**: it is above every element before `low` and
below every element from `high` on. -/
theorem search_spec (h : Sorted compare (items m base size count)) (hle : high ≤ count)
    (hlow : ∀ i < low, 0 < compare key (item m base size i))
    (habove : ∀ i < count, high ≤ i → compare key (item m base size i) < 0) :
    Answers compare base size count m key (search compare base size key m low high hhigh) := by
  induction hwidth : high - low using Nat.strong_induction_on generalizing low high with
  | _ width ih =>
    rw [search]
    by_cases hlt : low < high
    · rw [dif_pos hlt]
      obtain ⟨middle, hmiddle⟩ : ∃ middle, (low + high) % 2 ^ 64 / 2 = middle := ⟨_, rfl⟩
      have hwithin : low ≤ middle ∧ middle < high := by omega
      simp only [hmiddle]
      split
      · rename_i hequal
        exact ⟨middle, by omega, rfl, hequal⟩
      · rename_i hdiffers
        split
        · rename_i hbelow
          refine ih (middle - low) (by omega) (by omega) hlow (fun i hi hge => ?_) rfl
          rcases Nat.eq_or_lt_of_le hge with rfl | hgt
          · exact hbelow
          · exact hc.lt_of_lt_of_le hbelow (h.le hgt hi)
        · rename_i hnot
          refine ih (high - (middle + 1)) (by omega) hle (fun i hi => ?_) habove rfl
          have hover : 0 < compare key (item m base size middle) := by omega
          rcases Nat.eq_or_lt_of_le (Nat.lt_succ_iff.mp hi) with rfl | hlt'
          · exact hover
          · exact (hc.flip _ _).mp
              (hc.lt_of_le_of_lt (h.le hlt' (by omega)) ((hc.flip _ _).mpr hover))
    · rw [dif_neg hlt]
      intro i hi
      by_cases hbefore : i < low
      · exact (hlow i hbefore).ne'
      · exact (habove i hi (by omega)).ne

omit hc

/-- **`qsort` sorts**: for every comparator that is a total preorder, every number of elements
and every element size, it leaves the same elements in non-decreasing order, and every byte
outside the array as it was. -/
theorem qsort_sorts (hc : TotalPreorder compare) (base size count : Nat) (m : Memory) :
    items (qsort compare size base count m) base size count ~ items m base size count ∧
      (items (qsort compare size base count m) base size count).Pairwise
        (fun a b => compare a b ≤ 0) ∧
      ∀ x, x < base ∨ base + count * size ≤ x → qsort compare size base count m x = m x := by
  obtain ⟨hkept, hsorted⟩ := qsort_spec hc base size count m
  exact ⟨hkept.perm, hsorted, hkept.outside⟩

/-- The order of the first bytes. -/
def compareFirst (a b : Element) : Int := (a.headD 0).toNat - (b.headD 0).toNat

theorem compareFirst_preorder : TotalPreorder compareFirst :=
  ⟨fun a b => by unfold compareFirst; omega, fun a b c => by unfold compareFirst; omega⟩

theorem qsort_sorts_first : (items (qsort compareFirst 2 100 20 fun x => .ofNat (7 * x)) 100 2
    20).Pairwise fun a b => compareFirst a b ≤ 0 :=
  (qsort_sorts compareFirst_preorder 100 2 20 _).2.1

/-- **`bsearch` finds in what `qsort` left exactly what was in the array before**, and what it
points to then is equal to the key. -/
theorem bsearch_after_qsort (hc : TotalPreorder compare) (base size : Nat) (m : Memory)
    (key : Element) (hcount : count ≤ 2 ^ 63) :
    (∀ a, bsearch compare base size key (qsort compare size base count m) count hcount = some a →
      ∃ i < count, a = base + i * size ∧
        compare key (item (qsort compare size base count m) base size i) = 0) ∧
    ((bsearch compare base size key (qsort compare size base count m) count hcount).isSome ↔
      ∃ i < count, compare key (item m base size i) = 0) := by
  obtain ⟨hkept, hsorted⟩ := qsort_spec hc base size count m
  generalize qsort compare size base count m = s at hkept hsorted ⊢
  have hanswers : Answers compare base size count s key
      (bsearch compare base size key s count hcount) :=
    search_spec hc hsorted le_rfl (fun i hi => absurd hi (Nat.not_lt_zero i))
      fun i hi hge => absurd hi (Nat.not_lt.mpr hge)
  have hsame : (∃ i < count, compare key (item s base size i) = 0) ↔
      ∃ i < count, compare key (item m base size i) = 0 := by
    have hmem := fun e => (hkept.perm.mem_iff (a := e)).trans mem_items
    constructor
    · rintro ⟨i, hi, hequal⟩
      obtain ⟨k, hk, hitem⟩ := (hmem _).mp (mem_items.mpr ⟨i, hi, rfl⟩)
      exact ⟨k, hk, hitem ▸ hequal⟩
    · rintro ⟨i, hi, hequal⟩
      obtain ⟨k, hk, hitem⟩ := mem_items.mp ((hmem _).mpr ⟨i, hi, rfl⟩)
      exact ⟨k, hk, hitem ▸ hequal⟩
  rw [← hsame]
  cases hfound : bsearch compare base size key s count hcount with
  | none =>
    rw [hfound] at hanswers
    exact ⟨nofun, nofun, fun ⟨i, hi, hequal⟩ => absurd hequal (hanswers i hi)⟩
  | some a =>
    rw [hfound] at hanswers
    obtain ⟨i, hi, ha, hequal⟩ := hanswers
    exact ⟨fun b hb => ⟨i, hi, Option.some.inj hb ▸ ha, hequal⟩, fun _ => ⟨i, hi, hequal⟩,
      fun _ => rfl⟩

theorem bsearch_after_qsort_first : ((bsearch compareFirst 100 2 [40]
      (qsort compareFirst 2 100 20 fun x => .ofNat (7 * x)) 20 (by decide)).isSome ↔
    ∃ i < 20, compareFirst [40] (item (fun x => .ofNat (7 * x)) 100 2 i) = 0) :=
  (bsearch_after_qsort compareFirst_preorder 100 2 _ [40] (by decide)).2

end Thalyx.Native.Sorting
