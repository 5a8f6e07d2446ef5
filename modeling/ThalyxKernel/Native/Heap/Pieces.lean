/-
What the boundary tags say: the heap's addresses as a row of pieces.

From the base of the heap to the next address `grow` will use, memory is blocks laid end to
end, and a fence after the last block of every arena.  `Tagged` reads this off the tags,
`Shaped` says what a piece may be, and `Tagged.retile` is the one way any operation changes
the row: some neighbouring pieces become others of the same extent, and what was written
outside them is only links of free blocks.
-/
import ThalyxKernel.Lib.Tiling
import ThalyxKernel.Native.Heap.Model

namespace Thalyx.Native.Heap

open Tiling List

/-- A block, or the fence: a block of no size that is in use. -/
structure Piece where
  size : Nat
  used : Bool
deriving DecidableEq, Repr

namespace Piece

abbrev fence : Piece := ⟨0, true⟩

/-- The addresses a piece takes: a fence is a header. -/
def extent (x : Piece) : Nat := if x.size = 0 then header else x.size

/-- What `size_flags` of the piece is. -/
def flags (x : Piece) : Nat := x.size + if x.used then flagInuse else 0

/-- A piece is the fence, or a block that is large enough to be free one day. -/
def Shaped (x : Piece) : Prop := x = fence ∨ minBlock ≤ x.size ∧ align ∣ x.size

/-- Not both of two neighbours are free. -/
def Joined (x y : Piece) : Prop := x.used = true ∨ y.used = true

variable {x : Piece}

theorem Shaped.extent_ge (h : x.Shaped) : header ≤ x.extent := by
  unfold extent
  rcases h with rfl | ⟨hsize, -⟩
  · exact Nat.le_refl _
  · split <;> simp only [header, minBlock] at * <;> omega

theorem Shaped.dvd_size (h : x.Shaped) : align ∣ x.size := by
  rcases h with rfl | ⟨-, hdvd⟩
  · exact Nat.dvd_zero _
  · exact hdvd

theorem Shaped.dvd_extent (h : x.Shaped) : align ∣ x.extent := by
  unfold extent
  rcases h with rfl | ⟨-, hdvd⟩
  · exact Nat.dvd_refl _
  · split
    · exact Nat.dvd_refl _
    · exact hdvd

theorem Shaped.of_free (h : x.Shaped) (hfree : x.used = false) :
    minBlock ≤ x.size ∧ align ∣ x.size ∧ x.extent = x.size := by
  rcases h with rfl | ⟨hsize, hdvd⟩
  · cases hfree
  · refine ⟨hsize, hdvd, if_neg ?_⟩
    intro hzero
    simp [hzero, minBlock, header] at hsize

end Piece

/-! ### Rounding and flags -/

theorem clear_two_pow (n k : Nat) : clear n (2 ^ k - 1) = n / 2 ^ k * 2 ^ k := by
  have hdiv := Nat.div_add_mod n (2 ^ k)
  rw [clear, Nat.and_two_pow_sub_one_eq_mod, Nat.mul_comm]
  omega

theorem clear_align (n : Nat) : clear n (align - 1) = n / align * align := clear_two_pow n 4

theorem or_flagInuse {size : Nat} (h : align ∣ size) : size ||| flagInuse = size + flagInuse := by
  obtain ⟨k, rfl⟩ := h
  exact (Nat.two_pow_add_eq_or_of_lt (i := 4) (by decide) k).symm

variable {a back start : Nat} {x : Piece}
variable {m m' : Mem}

theorem blockSize_of_flags (h : m.sizeFlags a = x.flags)
    (hsize : align ∣ x.size) : m.blockSize a = x.size := by
  rw [Mem.blockSize, h, clear_align, Piece.flags]
  simp only [align, flagInuse] at hsize ⊢
  split <;> omega

theorem blockInuse_of_flags (h : m.sizeFlags a = x.flags)
    (hsize : align ∣ x.size) : m.blockInuse a = x.used := by
  rw [Mem.blockInuse, h, Piece.flags, flagInuse, Nat.and_one_is_mod]
  simp only [align] at hsize
  cases x.used
  · simp only [Bool.false_eq_true, if_false, decide_eq_false_iff_not, not_not]
    omega
  · simp only [if_true, decide_eq_true_eq]
    omega

/-! ### Reading a row of pieces off the tags -/

/-- The back link of what follows the pieces. -/
def backOf : Nat → List Piece → Nat
  | back, [] => back
  | _, x :: rest => backOf x.size rest

/-- Walking forward from `start` by the sizes in the tags meets exactly these pieces, and each
one's `prev_size` is the size of the one before it: 0 where that is a fence. -/
def Tagged (m : Mem) : Nat → Nat → List Piece → Prop
  | _, _, [] => True
  | back, start, x :: rest =>
    m.prevSize start = back ∧ m.sizeFlags start = x.flags
      ∧ Tagged m x.size (start + x.extent) rest

/-- The arenas that the fences end, with the length of each. -/
def arenasFrom : Nat → Nat → List Piece → List (Nat × Nat)
  | _, _, [] => []
  | first, start, x :: rest =>
    if x.size = 0 then
      (first, start + header - first) :: arenasFrom (start + header) (start + header) rest
    else arenasFrom first (start + x.size) rest

/-- The pieces with their addresses. -/
abbrev placed (start : Nat) (pieces : List Piece) : List (Nat × Piece) :=
  lay Piece.extent start pieces

/-- There is a free block of this size at the address. -/
def FreeIn (start : Nat) (pieces : List Piece) (a size : Nat) : Prop :=
  (a, ⟨size, false⟩) ∈ placed start pieces

/-- There is a block in use of this size at the address. -/
def UsedIn (start : Nat) (pieces : List Piece) (a size : Nat) : Prop :=
  (a, ⟨size, true⟩) ∈ placed start pieces ∧ size ≠ 0

/-- The sizes of the blocks in use, together. -/
def usedSize (pieces : List Piece) : Nat := ((pieces.filter (·.used)).map (·.size)).sum

@[simp] theorem backOf_nil (back : Nat) : backOf back [] = back := rfl

@[simp] theorem backOf_append (back : Nat) (before after : List Piece) :
    backOf back (before ++ after) = backOf (backOf back before) after := by
  induction before generalizing back with
  | nil => rfl
  | cons x rest ih => exact ih x.size

variable {after before blocks pieces rest : List Piece}

theorem tagged_append :
    Tagged m back start (before ++ after) ↔ Tagged m back start before
      ∧ Tagged m (backOf back before) (start + span Piece.extent before) after := by
  induction before generalizing back start with
  | nil => simp [Tagged]
  | cons x rest ih =>
    simp only [cons_append, Tagged, ih, backOf, span_cons, Nat.add_assoc, and_assoc]

theorem Tagged.congr (h : Tagged m back start pieces) (heq : ∀ a x, (a, x) ∈ placed start pieces →
      m'.prevSize a = m.prevSize a ∧ m'.sizeFlags a = m.sizeFlags a) :
    Tagged m' back start pieces := by
  induction pieces generalizing back start with
  | nil => trivial
  | cons x rest ih =>
    obtain ⟨hback, hflags, hrest⟩ := h
    have hhead := heq start x mem_cons_self
    refine ⟨hhead.1.trans hback, hhead.2.trans hflags, ih hrest ?_⟩
    intro a y hmem
    exact heq a y (mem_cons_of_mem _ hmem)

theorem Tagged.flags_eq (h : Tagged m back start pieces) (hmem : (a, x) ∈ placed start pieces) :
    m.sizeFlags a = x.flags := by
  induction pieces generalizing back start with
  | nil => simp at hmem
  | cons y rest ih =>
    rcases List.mem_cons.mp hmem with heq | hrest
    · obtain ⟨rfl, rfl⟩ := Prod.mk.inj heq
      exact h.2.1
    · exact ih h.2.2 hrest

@[simp] theorem arenasFrom_append_blocks {first : Nat} (h : ∀ x ∈ blocks, x.size ≠ 0) :
    arenasFrom first start (blocks ++ rest)
      = arenasFrom first (start + span Piece.extent blocks) rest := by
  induction blocks generalizing start with
  | nil => rfl
  | cons x blocks ih =>
    have hx := h x mem_cons_self
    rw [cons_append, arenasFrom, if_neg hx, ih fun y hy => h y (mem_cons_of_mem _ hy),
      span_cons, Piece.extent, if_neg hx, Nat.add_assoc]

theorem arenasFrom_retile {first : Nat} {blocks' : List Piece}
    (h : ∀ x ∈ blocks, x.size ≠ 0) (h' : ∀ x ∈ blocks', x.size ≠ 0)
    (hspan : span Piece.extent blocks' = span Piece.extent blocks) :
    arenasFrom first start (before ++ blocks' ++ rest)
      = arenasFrom first start (before ++ blocks ++ rest) := by
  induction before generalizing first start with
  | nil =>
    rw [nil_append, nil_append, arenasFrom_append_blocks h,
      arenasFrom_append_blocks h', hspan]
  | cons x before ih =>
    simp only [cons_append, arenasFrom, ih]

theorem arenasFrom_append_fence (first start : Nat) (before after : List Piece) :
    arenasFrom first start (before ++ [Piece.fence] ++ after)
      = arenasFrom first start (before ++ [Piece.fence])
        ++ arenasFrom (start + span Piece.extent (before ++ [Piece.fence]))
          (start + span Piece.extent (before ++ [Piece.fence])) after := by
  induction before generalizing first start with
  | nil => rfl
  | cons x before ih =>
    simp only [cons_append, arenasFrom, span_cons, ih, Piece.extent, ← Nat.add_assoc]
    split <;> rfl

@[simp] theorem usedSize_append (before after : List Piece) :
    usedSize (before ++ after) = usedSize before + usedSize after := by
  rw [usedSize, filter_append, map_append, sum_append]
  rfl

@[simp] theorem usedSize_nil : usedSize [] = 0 := rfl

@[simp] theorem usedSize_cons (x : Piece) (rest : List Piece) :
    usedSize (x :: rest) = (if x.used then x.size else 0) + usedSize rest := by
  unfold usedSize
  split <;> rename_i hused <;> simp [hused]

/-! ### Where things are in a row -/

section Row

variable {start a b size size' : Nat} {x : Piece} {pieces : List Piece}

theorem FreeIn.shape (hshaped : ∀ x ∈ pieces, x.Shaped) (h : FreeIn start pieces a size) :
    minBlock ≤ size ∧ align ∣ size := by
  have hof := (hshaped _ (mem_of_mem_lay h)).of_free rfl
  exact ⟨hof.1, hof.2.1⟩

theorem FreeIn.extent (hshaped : ∀ x ∈ pieces, x.Shaped) (h : FreeIn start pieces a size) :
    (⟨size, false⟩ : Piece).extent = size :=
  ((hshaped _ (mem_of_mem_lay h)).of_free rfl).2.2

theorem FreeIn.unique (hshaped : ∀ x ∈ pieces, x.Shaped) (h : FreeIn start pieces a size)
    (hmem : (a, x) ∈ placed start pieces) : x = ⟨size, false⟩ := by
  have hsize := (h.shape hshaped).1
  have hextent := h.extent hshaped
  have hpos := (hshaped x (mem_of_mem_lay hmem)).extent_ge
  simp only [header, minBlock] at hsize hpos
  rcases apart_of_mem_lay h hmem with ⟨-, heq⟩ | hlt | hlt
  · exact heq.symm
  · omega
  · omega

theorem FreeIn.link_apart (hshaped : ∀ x ∈ pieces, x.Shaped) (h : FreeIn start pieces b size)
    (hmem : (a, x) ∈ placed start pieces) :
    (a ≠ b + 16 ∧ a ≠ b + 24) ∧ a + 8 ≠ b + 16 ∧ a + 8 ≠ b + 24 := by
  have hsize := (h.shape hshaped).1
  have hextent := h.extent hshaped
  have hpos := (hshaped x (mem_of_mem_lay hmem)).extent_ge
  simp only [header, minBlock] at hsize hpos
  rcases apart_of_mem_lay h hmem with ⟨heq, -⟩ | hlt | hlt <;> omega

theorem dvd_of_mem_placed (hstart : align ∣ start) (hshaped : ∀ x ∈ pieces, x.Shaped)
    (hmem : (a, x) ∈ placed start pieces) : align ∣ a := by
  apply dvd_of_mem_lay hstart _ hmem
  intro y hy
  exact (hshaped y hy).dvd_extent

end Row

/-! ### Changing some pieces -/

/-- **Retiling.**  Memory outside the pieces that change is as it was, but for links of blocks
that are free afterwards; then the tags say the row with the pieces changed, if they do so for
these pieces and the piece after them. -/
theorem Tagged.retile {middle middle' : List Piece}
    (h : Tagged m back start (before ++ middle ++ x :: after))
    (hshaped : ∀ y ∈ before ++ middle' ++ x :: after, y.Shaped)
    (hspan : span Piece.extent middle' = span Piece.extent middle)
    (hframe : ∀ w, (∀ a size, FreeIn start (before ++ middle' ++ x :: after) a size →
        w ≠ a + 16 ∧ w ≠ a + 24) →
      w < start + span Piece.extent before
          ∨ start + span Piece.extent before + span Piece.extent middle < w →
      m'.word w = m.word w)
    (hmiddle : Tagged m' (backOf back before) (start + span Piece.extent before) middle')
    (hback : m'.prevSize (start + span Piece.extent before + span Piece.extent middle)
      = backOf (backOf back before) middle') :
    Tagged m' back start (before ++ middle' ++ x :: after) := by
  -- no tag of a piece is a link of a free block
  have hsame : ∀ a y, (a, y) ∈ placed start (before ++ middle' ++ x :: after) →
      (a + header ≤ start + span Piece.extent before
        ∨ start + span Piece.extent before + span Piece.extent middle < a) →
      m'.prevSize a = m.prevSize a ∧ m'.sizeFlags a = m.sizeFlags a := by
    intro a y hmem hfar
    constructor
    · apply hframe
      · intro b size hfree
        exact (hfree.link_apart hshaped hmem).1
      · simp only [header] at hfar
        omega
    · apply hframe
      · intro b size hfree
        exact (hfree.link_apart hshaped hmem).2
      · simp only [header] at hfar
        omega
  have hpos : ∀ {a : Nat} {y : Piece}, (a, y) ∈ placed start (before ++ middle' ++ x :: after) →
      header ≤ y.extent := fun hmem => (hshaped _ (mem_of_mem_lay hmem)).extent_ge
  simp only [lay_append, mem_append, lay_cons, mem_cons, span_append] at hsame hpos
  rw [tagged_append, tagged_append] at h ⊢
  simp only [span_append, backOf_append, hspan, Tagged, ← Nat.add_assoc] at h hsame hpos ⊢
  obtain ⟨⟨hbefore, -⟩, -, hflags, hafter⟩ := h
  refine ⟨⟨?_, hmiddle⟩, hback, ?_, ?_⟩
  · apply hbefore.congr
    intro a y hmem
    have hwithin := (within_of_mem_lay hmem).2
    have := hpos (.inl (.inl hmem))
    apply hsame a y (.inl (.inl hmem))
    omega
  · rw [← hflags]
    apply hframe
    · intro b size hfree
      apply (hfree.link_apart hshaped (x := x) _).2
      simp [hspan, Nat.add_assoc]
    · omega
  · apply hafter.congr
    intro a y hmem
    have hwithin := (within_of_mem_lay hmem).1
    have := hpos (.inr (.inl rfl))
    apply hsame a y (.inr (.inr hmem))
    simp only [header] at this
    omega

end Thalyx.Native.Heap
