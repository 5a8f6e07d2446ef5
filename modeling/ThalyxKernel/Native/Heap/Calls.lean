/-
The calls of the native heap.

`Sound` adds to the row of pieces what the heap's counters say of it.  `Taken` is what a
caller sees of an operation: one block in use more, and every other block where it was.
What frees a block is the same, seen the other way round.
-/
import Mathlib.Data.List.Perm.Subperm
import ThalyxKernel.Native.Heap.Blocks

namespace Thalyx.Native.Heap

open Tiling TwoWay List Option

variable {pieces pieces' before middle middle' after : List Piece} {a b s size want : Nat}
  {x : Piece} {m : Mem} {h h' : Heap}

/-! ### What a caller sees -/

/-- The second row has one block more in use than the first. -/
structure Taken (pieces pieces' : List Piece) (a size : Nat) : Prop where
  span : span Piece.extent pieces' = span Piece.extent pieces
  arenas : arenasFrom thHeapBase thHeapBase pieces' = arenasFrom thHeapBase thHeapBase pieces
  used : usedSize pieces' = usedSize pieces + size
  fresh : ∀ s, ¬ UsedIn thHeapBase pieces a s
  blocks : ∀ b s, UsedIn thHeapBase pieces' b s ↔ UsedIn thHeapBase pieces b s ∨ b = a ∧ s = size

theorem Taken.without (h : Taken pieces pieces' a size) (b s : Nat) :
    UsedIn thHeapBase pieces b s ↔ UsedIn thHeapBase pieces' b s ∧ b ≠ a := by
  rw [h.blocks]
  constructor
  · intro hused
    refine ⟨.inl hused, ?_⟩
    rintro rfl
    exact h.fresh s hused
  · intro ⟨hused, hne⟩
    exact hused.resolve_right fun heq => hne heq.1

theorem usedIn_append (b s : Nat) :
    UsedIn thHeapBase (before ++ middle ++ after) b s
      ↔ UsedIn thHeapBase before b s ∨ UsedIn (endOf before) middle b s
        ∨ UsedIn (endOf before + Tiling.span Piece.extent middle) after b s := by
  simp only [UsedIn, lay_append, span_append, mem_append, endOf, ← Nat.add_assoc]
  tauto

theorem not_usedIn_of_free {start : Nat} (hfree : ∀ z ∈ middle, z.used = false) (b s : Nat) :
    ¬ UsedIn start middle b s := by
  intro hused
  have := hfree _ (mem_of_mem_lay hused.1)
  cases this

theorem usedSize_of_free (hfree : ∀ z ∈ middle, z.used = false) : usedSize middle = 0 := by
  rw [usedSize, filter_eq_nil_iff.mpr (by simpa using hfree)]
  rfl

theorem UsedIn.extent_eq {start : Nat} (hused : UsedIn start pieces a size) :
    Piece.extent ⟨size, true⟩ = size := if_neg hused.2

theorem UsedIn.within {start : Nat} (hused : UsedIn start pieces a size) :
    start ≤ a ∧ a + size ≤ start + Tiling.span Piece.extent pieces := by
  have hwithin := within_of_mem_lay hused.1
  rw [hused.extent_eq] at hwithin
  exact hwithin

theorem size_ne_zero (hshaped : x.Shaped) (hfree : x.used = false) : x.size ≠ 0 := by
  have := (hshaped.of_free hfree).1
  simp only [minBlock, header] at this
  omega

theorem usedIn_single {pre post : List Piece} (hsize : size ≠ 0) (hpre : ∀ z ∈ pre, z.used = false)
    (hpost : ∀ z ∈ post, z.used = false) (b s : Nat) :
    UsedIn (endOf before) (pre ++ ⟨size, true⟩ :: post) b s
      ↔ b = endOf (before ++ pre) ∧ s = size := by
  have hnone := @not_usedIn_of_free pre (endOf before) hpre b s
  have hnone' := @not_usedIn_of_free post
    (endOf before + Tiling.span Piece.extent pre + Piece.extent ⟨size, true⟩) hpost b s
  simp only [UsedIn, lay_append, lay_cons, mem_append, mem_cons, Prod.mk.injEq,
    Piece.mk.injEq, and_true, endOf, span_append, ← Nat.add_assoc] at hnone hnone' ⊢
  constructor
  · intro ⟨hmem, hs⟩
    rcases hmem with hmem | hmem | hmem
    · exact absurd ⟨hmem, hs⟩ hnone
    · exact hmem
    · exact absurd ⟨hmem, hs⟩ hnone'
  · rintro ⟨rfl, rfl⟩
    exact ⟨.inr (.inl ⟨rfl, rfl⟩), hsize⟩

theorem taken_of_retile {pre post : List Piece} (hsize : size ≠ 0)
    (hmiddle : ∀ z ∈ middle, z.used = false ∧ z.size ≠ 0)
    (hpre : ∀ z ∈ pre, z.used = false ∧ z.size ≠ 0)
    (hpost : ∀ z ∈ post, z.used = false ∧ z.size ≠ 0)
    (hspan : Tiling.span Piece.extent (pre ++ ⟨size, true⟩ :: post)
      = Tiling.span Piece.extent middle) :
    Taken (before ++ middle ++ after) (before ++ (pre ++ ⟨size, true⟩ :: post) ++ after)
      (endOf (before ++ pre)) size := by
  have hone := @usedIn_single before size pre post hsize (fun z hz => (hpre z hz).1)
    fun z hz => (hpost z hz).1
  have hnone : ∀ b s, ¬ UsedIn (endOf before) middle b s :=
    not_usedIn_of_free fun z hz => (hmiddle z hz).1
  have hplace : Tiling.span Piece.extent (pre ++ ⟨size, true⟩ :: post)
      = Tiling.span Piece.extent pre + size + Tiling.span Piece.extent post := by
    rw [span_append, span_cons, Piece.extent, if_neg hsize, Nat.add_assoc]
  refine ⟨?_, ?_, ?_, ?_, ?_⟩
  · rw [span_append _ _ after, span_append _ _ after, span_append, span_append _ before middle,
      hspan]
  · apply arenasFrom_retile (fun z hz => (hmiddle z hz).2) _ hspan
    intro z hz
    rcases mem_append.mp hz with hz | hz
    · exact (hpre z hz).2
    · rcases mem_cons.mp hz with rfl | hz
      · exact hsize
      · exact (hpost z hz).2
  · have h1 := usedSize_of_free fun z hz => (hmiddle z hz).1
    have h2 := usedSize_of_free fun z hz => (hpre z hz).1
    have h3 := usedSize_of_free fun z hz => (hpost z hz).1
    simp only [usedSize_append, usedSize_cons, h1, h2, h3, if_true]
    omega
  · intro s hused
    simp only [endOf, span_append] at hused
    rcases (usedIn_append _ _).mp hused with hu | hu | hu
    · have hwithin := hu.within.2
      have hpos := hu.2
      omega
    · exact hnone _ _ hu
    · have hwithin := hu.within.1
      simp only [endOf] at hwithin
      omega
  · intro b s
    rw [usedIn_append, usedIn_append, hone, hspan]
    have hno := hnone b s
    tauto

/-! ### Between two calls -/

/-- What holds of the heap between two calls. -/
structure Sound (h : Heap) (pieces : List Piece) : Prop where
  laid : Laid h.mem pieces
  inUse : h.inUse = usedSize pieces
  held : h.pagesHeld * pageBytes = Tiling.span Piece.extent pieces
  limit : endOf pieces ≤ thHeapLimit
  unused : h.ready = false → pieces = []
  ended : h.ready = true → h.nextVaddr = endOf pieces
  growth : h.ready = true → h.arenaPages * pageBytes + thHeapLimit < wordRange

theorem Sound.update {m : Mem} {inUse : Nat} (hs : Sound h pieces) (hlaid : Laid m pieces')
    (hinUse : inUse = usedSize pieces')
    (hspan : Tiling.span Piece.extent pieces' = Tiling.span Piece.extent pieces) :
    Sound { h with mem := m, inUse } pieces' := by
  refine ⟨hlaid, hinUse, ?_, ?_, ?_, ?_, hs.growth⟩
  · rw [hspan]
    exact hs.held
  · rw [endOf, hspan]
    exact hs.limit
  · intro hready
    have hnil := hs.unused hready
    rw [hnil, span_nil] at hspan
    cases pieces' with
    | nil => rfl
    | cons y rest =>
      have hpos := (hlaid.shaped y mem_cons_self).extent_ge
      simp only [span_cons, header] at hspan hpos
      omega
  · intro hready
    rw [endOf, hspan]
    exact hs.ended hready

theorem UsedIn.split (hused : UsedIn thHeapBase pieces a size) :
    ∃ before after, pieces = before ++ ⟨size, true⟩ :: after ∧ a = endOf before :=
  split_of_mem_lay hused.1

theorem UsedIn.next {m : Mem} (hlaid : Laid m pieces) (hused : UsedIn thHeapBase pieces a size) :
    ∃ before x after, pieces = before ++ [⟨size, true⟩] ++ x :: after ∧ a = endOf before := by
  obtain ⟨before, after, rfl, rfl⟩ := hused.split
  cases after with
  | nil =>
    obtain ⟨rest, hrest⟩ := hlaid.fenced.resolve_left (by simp)
    have hlast := (append_inj' hrest rfl).2
    simp only [Piece.fence, cons.injEq, Piece.mk.injEq, and_true] at hlast
    exact absurd hlast hused.2
  | cons x after => exact ⟨before, x, after, by simp, rfl⟩

/-- **`release`** gives back the block. -/
theorem Sound.release (hs : Sound h pieces) (hused : UsedIn thHeapBase pieces a size) :
    ∃ pieces', Sound (h.release (a + header)) pieces' ∧ Taken pieces' pieces a size
      ∧ (h.release (a + header)).pagesHeld = h.pagesHeld
      ∧ (h.release (a + header)).nextVaddr = h.nextVaddr := by
  obtain ⟨before, after, rfl, rfl⟩ := hused.split
  have hsize := hused.2
  obtain ⟨init, pre, post, y, rest, rfl, rfl, hfree, hlaid, heq⟩ := hs.laid.release hsize
  have hrow : init ++ pre ++ ⟨size, true⟩ :: (post ++ y :: rest)
      = init ++ (pre ++ ⟨size, true⟩ :: post) ++ y :: rest := by simp
  have hshaped := hs.laid.shaped
  rw [hrow] at hs hshaped ⊢
  have hpart : ∀ z ∈ pre ++ post, z.used = false ∧ z.size ≠ 0 := by
    intro z hz
    refine ⟨hfree z hz, size_ne_zero (hshaped z ?_) (hfree z hz)⟩
    simp only [mem_append, mem_cons] at hz ⊢
    tauto
  have htotal : Tiling.span Piece.extent (pre ++ ⟨size, true⟩ :: post) ≠ 0 := by
    have hextent : Piece.extent ⟨size, true⟩ = size := if_neg hsize
    rw [span_append, span_cons, hextent]
    omega
  have htaken : Taken
      (init ++ [⟨Tiling.span Piece.extent (pre ++ ⟨size, true⟩ :: post), false⟩] ++ y :: rest)
      (init ++ (pre ++ ⟨size, true⟩ :: post) ++ y :: rest) (endOf (init ++ pre)) size := by
    apply taken_of_retile hsize
    · simpa using htotal
    · intro z hz
      exact hpart z (mem_append_left _ hz)
    · intro z hz
      exact hpart z (mem_append_right _ hz)
    · rw [span_cons, span_nil, Nat.add_zero, Piece.extent, if_neg htotal]
  refine ⟨_, ?_, htaken, ?_, ?_⟩
  · rw [heq]
    apply hs.update hlaid
    · rw [hs.inUse, htaken.used, Nat.add_sub_cancel]
    · exact htaken.span.symm
  · rw [heq]
  · rw [heq]

theorem FreeIn.split {m : Mem} (hlaid : Laid m pieces) (hfree : FreeIn thHeapBase pieces a size) :
    ∃ before x after, pieces = before ++ [⟨size, false⟩] ++ x :: after ∧ a = endOf before := by
  obtain ⟨before, after, rfl, rfl⟩ := split_of_mem_lay hfree
  cases after with
  | nil =>
    obtain ⟨rest, hrest⟩ := hlaid.fenced.resolve_left (by simp)
    have hlast := (append_inj' hrest rfl).2
    simp [Piece.fence] at hlast
  | cons x after => exact ⟨before, x, after, by simp, rfl⟩

/-- **`carve`** hands out a block of at least the size wanted. -/
theorem Sound.carve (hs : Sound h pieces) (hfree : FreeIn thHeapBase pieces a size)
    (hwant : minBlock ≤ want) (hdvd : align ∣ want) (hle : want ≤ size) :
    ∃ pieces' taken, Sound (h.carve a want).1 pieces' ∧ Taken pieces pieces' a taken
      ∧ want ≤ taken ∧ (h.carve a want).2 = a + header
      ∧ (h.carve a want).1.pagesHeld = h.pagesHeld
      ∧ (h.carve a want).1.nextVaddr = h.nextVaddr ∧ (h.carve a want).1.ready = h.ready := by
  have hshape := hfree.shape hs.laid.shaped
  have hextent := hfree.extent hs.laid.shaped
  obtain ⟨before, x, after, rfl, rfl⟩ := hfree.split hs.laid
  obtain ⟨taken, rest, htaken, hspan, hrest, hlaid, heq⟩ := hs.laid.carve hwant hdvd hle
  simp only [minBlock, header] at hshape hwant
  have hpart : ∀ z ∈ rest, z.used = false ∧ z.size ≠ 0 := by
    intro z hz
    refine ⟨hrest z hz, size_ne_zero (hlaid.shaped z ?_) (hrest z hz)⟩
    simp [hz]
  have hrow : Taken (before ++ [⟨size, false⟩] ++ x :: after)
      (before ++ (⟨taken, true⟩ :: rest) ++ x :: after) (endOf before) taken := by
    have hretile := @taken_of_retile before [⟨size, false⟩] (x :: after) taken [] rest (by omega)
      (by simp; omega) (by simp) hpart
      (by rw [nil_append, hspan, span_cons, hextent, span_nil, Nat.add_zero])
    rw [append_nil, nil_append] at hretile
    exact hretile
  refine ⟨_, taken, ?_, hrow, htaken, ?_, ?_, ?_, ?_⟩
  · rw [heq]
    apply hs.update hlaid
    · rw [hs.inUse, hrow.used]
    · exact hrow.span
  all_goals rw [heq]

/-! ### Finding a block -/

theorem length_free_le (start : Nat) (hshaped : ∀ x ∈ pieces, x.Shaped) :
    ((lay Piece.extent start pieces).filter fun p => !p.2.used).length * minBlock
      ≤ Tiling.span Piece.extent pieces := by
  induction pieces generalizing start with
  | nil => exact Nat.le_of_eq (Nat.zero_mul _)
  | cons x rest ih =>
    have hrest := ih (start + x.extent) fun y hy => hshaped y (mem_cons_of_mem _ hy)
    rw [lay_cons, filter_cons, span_cons]
    by_cases hused : x.used = true
    · rw [if_neg (by simp [hused])]
      exact Nat.le_trans hrest (Nat.le_add_left _ _)
    · have hof := (hshaped x mem_cons_self).of_free (Bool.eq_false_iff.mpr hused)
      rw [if_pos (by simp [hused]), length_cons, Nat.add_mul, Nat.one_mul, Nat.add_comm]
      exact Nat.add_le_add (hof.2.2 ▸ hof.1) hrest

theorem length_lt_maxBlocks (hs : Sound h pieces) {nodes : List Nat} (hnodup : nodes.Nodup)
    (hfree : ∀ a ∈ nodes, ∃ size, FreeIn thHeapBase pieces a size) : nodes.length < maxBlocks := by
  have hsub : nodes ⊆ ((lay Piece.extent thHeapBase pieces).filter fun p => !p.2.used).map
      Prod.fst := by
    intro a ha
    obtain ⟨size, hmem⟩ := hfree a ha
    exact mem_map.mpr ⟨(a, ⟨size, false⟩), mem_filter.mpr ⟨hmem, rfl⟩, rfl⟩
  have hlength := (subperm_of_subset hnodup hsub).length_le
  rw [length_map] at hlength
  have hspan := length_free_le thHeapBase hs.laid.shaped
  generalize ((lay Piece.extent thHeapBase pieces).filter fun p => !p.2.used).length = frees
    at hlength hspan
  have hlimit := hs.limit
  simp only [maxBlocks, minBlock, header, thHeapBase, thHeapLimit, endOf] at hspan hlimit ⊢
  omega

/-- No free block of the row is large enough. -/
def NoFit (pieces : List Piece) (want : Nat) : Prop :=
  ∀ a size, FreeIn thHeapBase pieces a size → size < want

/-- What looking for a block comes to: one is handed out, or there was none. -/
def Found (h : Heap) (pieces : List Piece) (want : Nat) (out : Heap × Nat) : Prop :=
  (out = (h, 0) ∧ NoFit pieces want)
    ∨ ∃ pieces' a taken, Sound out.1 pieces' ∧ Taken pieces pieces' a taken ∧ want ≤ taken
      ∧ out.2 = a + header ∧ out.1.pagesHeld = h.pagesHeld ∧ out.1.nextVaddr = h.nextVaddr
      ∧ out.1.ready = h.ready

theorem Sound.seek (hs : Sound h pieces) {i : Nat} (hi : i < numBins) :
    ∃ block, TwoWay.seek 0 h.mem.next (fun block => decide (want ≤ h.mem.blockSize block)) maxBlocks
        (h.mem.bins i) = some block
      ∧ (block = 0 → ∀ a size, FreeIn thHeapBase pieces a size → binOf size = i → size < want)
      ∧ (block ≠ 0 → ∃ size, FreeIn thHeapBase pieces block size ∧ want ≤ size) := by
  obtain ⟨nodes, hlist⟩ := hs.laid.binned i hi
  have hread : ∀ a size, FreeIn thHeapBase pieces a size → h.mem.blockSize a = size :=
    fun a size hfree => (hs.laid.tagged.read hs.laid.shaped (fun _ _ => rfl) hfree).2.1
  have hlength : nodes.length < maxBlocks := by
    apply length_lt_maxBlocks hs hlist.nodup
    intro a ha
    obtain ⟨size, hfree, -⟩ := (hlist.holds a).mp ha
    exact ⟨size, hfree⟩
  refine ⟨_, hlist.linked.seek hlength, ?_, ?_⟩
  · intro hzero a size hfree hbin
    have hmem := (hlist.holds a).mpr ⟨size, hfree, hbin⟩
    cases hfind : nodes.find? fun block => decide (want ≤ h.mem.blockSize block) with
    | none =>
      have hnot := find?_eq_none.mp hfind a hmem
      rw [decide_eq_true_eq, hread a size hfree] at hnot
      omega
    | some block =>
      rw [hfind, getD_some] at hzero
      exact absurd hzero (hlist.linked.ne_null _ (mem_of_find?_eq_some hfind))
  · intro hne
    cases hfind : nodes.find? fun block => decide (want ≤ h.mem.blockSize block) with
    | none =>
      rw [hfind] at hne
      exact absurd rfl hne
    | some block =>
      obtain ⟨size, hfree, -⟩ := (hlist.holds block).mp (mem_of_find?_eq_some hfind)
      have hfits := find?_some hfind
      rw [decide_eq_true_eq, hread block size hfree] at hfits
      exact ⟨size, hfree, hfits⟩

theorem Sound.findFrom (hs : Sound h pieces) (hwant : minBlock ≤ want) (hdvd : align ∣ want)
    (left index : Nat) (hindex : index + left = numBins)
    (hbefore : ∀ a size, FreeIn thHeapBase pieces a size → binOf size < index → size < want) :
    ∃ out, h.findFrom want left index = some out ∧ Found h pieces want out := by
  induction left generalizing index with
  | zero =>
    refine ⟨(h, 0), rfl, .inl ⟨rfl, ?_⟩⟩
    intro a size hfree
    apply hbefore a size hfree
    have := binOf_lt size
    omega
  | succ left ih =>
    obtain ⟨block, hseek, hnone, hsome⟩ := @Sound.seek pieces want h hs index (by omega)
    rw [Heap.findFrom, hseek, bind_eq_bind, bind_some]
    by_cases hzero : block = 0
    · rw [if_pos hzero]
      apply ih (index + 1) (by omega)
      intro a size hfree hlt
      by_cases hbin : binOf size = index
      · exact hnone hzero a size hfree hbin
      · exact hbefore a size hfree (by omega)
    · rw [if_neg hzero]
      obtain ⟨size, hfree, hle⟩ := hsome hzero
      obtain ⟨pieces', taken, hsound, htaken, hsize, hptr, hkept⟩ :=
        hs.carve hfree hwant hdvd hle
      exact ⟨_, rfl, .inr ⟨pieces', block, taken, hsound, htaken, hsize, hptr, hkept⟩⟩

/-- **`find_fit`** hands out a block, or no free block of the heap is large enough. -/
theorem Sound.findFit (hs : Sound h pieces) (hwant : minBlock ≤ want) (hdvd : align ∣ want) :
    ∃ out, h.findFit want = some out ∧ Found h pieces want out := by
  have hlt := binOf_lt want
  apply hs.findFrom hwant hdvd _ _ (by omega)
  intro a size _ hbin
  by_contra hle
  have := binOf_mono (Nat.le_of_not_lt hle)
  omega

/-! ### Growing -/

theorem mapObjects_le {maps : Nat → Nat → Int} {first pages mapped : Nat} (hle : mapped ≤ pages)
    (turns : Nat) (error : Int) : (mapObjects maps first pages turns mapped error).1 ≤ pages := by
  induction turns generalizing mapped error with
  | zero => exact hle
  | succ turns ih =>
    simp only [mapObjects]
    split
    · split
      · exact hle
      · apply ih
        omega
    · exact hle

/-- The row with one more arena of free memory. -/
structure Grown (pieces pieces' : List Piece) (length : Nat) : Prop where
  span : Tiling.span Piece.extent pieces' = Tiling.span Piece.extent pieces + length
  arenas : arenasFrom thHeapBase thHeapBase pieces'
    = arenasFrom thHeapBase thHeapBase pieces ++ [(endOf pieces, length)]
  used : usedSize pieces' = usedSize pieces
  blocks : ∀ b s, UsedIn thHeapBase pieces' b s ↔ UsedIn thHeapBase pieces b s

theorem grown_arena (hlaid : Laid m pieces) {usable : Nat} (husable : usable ≠ 0) :
    Grown pieces (pieces ++ [⟨usable, false⟩, Piece.fence]) (usable + header) := by
  have hextent : Piece.extent ⟨usable, false⟩ = usable := if_neg husable
  have hfence : Piece.extent Piece.fence = header := rfl
  refine ⟨?_, ?_, ?_, ?_⟩
  · rw [span_append, span_cons, span_cons, hextent, hfence, span_nil, Nat.add_zero]
  · have hnew : arenasFrom (endOf pieces) (endOf pieces) [⟨usable, false⟩, Piece.fence]
        = [(endOf pieces, usable + header)] := by
      simp only [arenasFrom, if_neg husable, if_true, cons.injEq, Prod.mk.injEq, true_and,
        and_true]
      omega
    rcases hlaid.fenced with rfl | ⟨rest, rfl⟩
    · exact hnew
    · rw [arenasFrom_append_fence, ← hnew]
  · simp [Piece.fence]
  · intro b s
    simp only [UsedIn, lay_append, mem_append, lay_cons, lay_nil, mem_cons,
      not_mem_nil, or_false, Prod.mk.injEq, Piece.mk.injEq, and_true]
    constructor
    · rintro ⟨hmem | ⟨-, -, hused⟩ | ⟨-, rfl⟩, hne⟩
      · exact ⟨hmem, hne⟩
      · cases hused
      · exact absurd rfl hne
    · intro h
      obtain ⟨hmem, hne⟩ := h
      exact ⟨.inl hmem, hne⟩

theorem Sound.addArena (hs : Sound h pieces) (hready : h.ready = true) {pages : Nat}
    (hpages : pages ≠ 0) (hroom : h.nextVaddr + pages * pageBytes ≤ thHeapLimit) :
    ∃ pieces', Sound (h.addArena pages) pieces' ∧ Grown pieces pieces' (pages * pageBytes) := by
  have hended := hs.ended hready
  have husable : clear (pages * pageBytes - header) (align - 1) = pages * pageBytes - header := by
    rw [clear_align]
    simp only [align, header, pageBytes]
    omega
  have hmin : minBlock ≤ pages * pageBytes - header := by
    simp only [minBlock, header, pageBytes]
    omega
  have hdvd : align ∣ pages * pageBytes - header := by
    simp only [align, header, pageBytes]
    omega
  have hpositive : pages * pageBytes - header ≠ 0 := by
    simp only [minBlock, header] at hmin ⊢
    omega
  have hgrown := grown_arena hs.laid hpositive
  have hlength : pages * pageBytes - header + header = pages * pageBytes := by
    simp only [header, pageBytes]
    omega
  rw [hlength] at hgrown
  refine ⟨_, ⟨?_, ?_, ?_, ?_, ?_, ?_, hs.growth⟩, hgrown⟩
  · simp only [Heap.addArena, husable, hended]
    exact hs.laid.addArena hmin hdvd
  · rw [hgrown.used]
    exact hs.inUse
  · rw [hgrown.span, ← hs.held]
    exact Nat.add_mul _ _ _
  · rw [endOf, hgrown.span, ← Nat.add_assoc]
    rw [hended] at hroom
    exact hroom
  · intro hnot
    rw [Heap.addArena, hready] at hnot
    cases hnot
  · intro _
    rw [endOf, hgrown.span, ← Nat.add_assoc]
    rw [Heap.addArena, hended]

/-- What growing comes to: another arena, or nothing but another last error. -/
def Grew (h : Heap) (pieces : List Piece) (out : Heap × Bool) : Prop :=
  (out.2 = false ∧ Sound out.1 pieces ∧ out.1.pagesHeld = h.pagesHeld)
    ∨ (out.2 = true ∧ ∃ pieces' mapped, mapped ≠ 0 ∧ Sound out.1 pieces'
      ∧ Grown pieces pieces' (mapped * pageBytes) ∧ out.1.pagesHeld = h.pagesHeld + mapped
      ∧ out.1.nextVaddr = endOf pieces + mapped * pageBytes)

theorem pages_lt {arenaPages : Nat} (hgrowth : arenaPages * pageBytes + thHeapLimit < wordRange)
    (hwant : want ≤ 2 * maxRequest) :
    max arenaPages ((want + header * 2 + 4095) / 4096) * pageBytes + thHeapLimit < wordRange := by
  rcases Nat.le_total arenaPages ((want + header * 2 + 4095) / 4096) with hle | hle
  · rw [Nat.max_eq_right hle]
    clear hgrowth hle
    simp only [maxRequest, header, pageBytes, thHeapLimit, wordRange] at hwant ⊢
    omega
  · rw [Nat.max_eq_left hle]
    exact hgrowth

theorem wrap_end {next pages : Nat} (hnext : next ≤ thHeapLimit)
    (hpages : pages * pageBytes + thHeapLimit < wordRange) :
    wrap (next + wrap (pages * pageBytes)) = next + pages * pageBytes := by
  simp only [wrap, pageBytes, thHeapLimit, wordRange] at hnext hpages ⊢
  omega

/-- **`grow`** adds an arena of what it could map, if anything. -/
theorem Sound.grow (hs : Sound h pieces) (hready : h.ready = true) (maps : Nat → Nat → Int)
    (hwant : want ≤ 2 * maxRequest) : Grew h pieces (h.grow maps want) := by
  have hended := hs.ended hready
  have hlimit := hs.limit
  rw [← hended] at hlimit
  have hnowrap := pages_lt (hs.growth hready) hwant
  unfold Heap.grow
  simp only
  generalize max h.arenaPages ((want + header * 2 + 4095) / 4096) = pages at hnowrap ⊢
  have hwrap := wrap_end hlimit hnowrap
  simp only [hwrap]
  split
  · exact .inl ⟨rfl, hs, rfl⟩
  split
  · exact .inl ⟨rfl, hs, rfl⟩
  rename_i hroom
  have hle := @mapObjects_le maps h.nextVaddr pages 0 (Nat.zero_le pages) pages h.lastError
  generalize mapObjects maps h.nextVaddr pages pages 0 h.lastError = out at hle ⊢
  obtain ⟨mapped, error⟩ := out
  have hs' : Sound { h with lastError := error } pieces :=
    ⟨hs.laid, hs.inUse, hs.held, hs.limit, hs.unused, hs.ended, hs.growth⟩
  simp only
  by_cases hzero : mapped = 0
  · rw [if_pos hzero]
    exact .inl ⟨rfl, hs', rfl⟩
  · rw [if_neg hzero]
    have hmapped : h.nextVaddr + mapped * pageBytes ≤ thHeapLimit :=
      Nat.le_trans (Nat.add_le_add_left (Nat.mul_le_mul_right pageBytes hle) _)
        (Nat.le_of_not_lt hroom)
    obtain ⟨pieces', hsound, hgrown⟩ := hs'.addArena hready hzero hmapped
    refine .inr ⟨rfl, pieces', mapped, hzero, hsound, hgrown, rfl, ?_⟩
    rw [← hended]
    rfl

/-! ### Allocating -/

theorem Sound.init (hs : Sound h pieces) (config : Config) :
    Sound (h.init config) pieces ∧ (h.init config).ready = true
      ∧ (h.init config).pagesHeld = h.pagesHeld := by
  unfold Heap.init
  cases hready : h.ready with
  | true => exact ⟨hs, hready, rfl⟩
  | false =>
    have hnil := hs.unused hready
    refine ⟨⟨hs.laid, hs.inUse, hs.held, hs.limit, ?_, ?_, ?_⟩, rfl, rfl⟩
    · intro hnot
      cases hnot
    · intro _
      rw [hnil]
      rfl
    · intro _
      simp only [Bool.false_eq_true, if_false]
      split
      · decide
      · exact config.fits

/-- What an allocation comes to that looks for a block of `need` bytes, to hand out one of at
least `want` bytes. -/
def Allocated (h : Heap) (pieces : List Piece) (need want : Nat) (out : Heap × Nat) : Prop :=
  ∃ pieces', Sound out.1 pieces'
    ∧ arenasFrom thHeapBase thHeapBase pieces'
      = arenasFrom thHeapBase thHeapBase pieces ++ Program.grown h out.1
    ∧ ((out.2 = 0 ∧ NoFit pieces' need
        ∧ ∀ b s, UsedIn thHeapBase pieces' b s ↔ UsedIn thHeapBase pieces b s)
      ∨ ∃ a taken, out.2 = a + header ∧ want ≤ taken ∧ (∀ s, ¬ UsedIn thHeapBase pieces a s)
        ∧ ∀ b s, UsedIn thHeapBase pieces' b s
          ↔ UsedIn thHeapBase pieces b s ∨ b = a ∧ s = taken)

theorem grown_eq_nil (heq : h'.pagesHeld = h.pagesHeld) : Program.grown h h' = [] := if_pos heq

variable {out : Heap × Nat}

theorem Found.allocated (hs : Sound h pieces) (hfound : Found h pieces want out) :
    Allocated h pieces want want out := by
  rcases hfound with ⟨rfl, hnone⟩ | ⟨pieces', a, taken, hsound, htaken, hle, hptr, hheld, -, -⟩
  · refine ⟨pieces, hs, ?_, .inl ⟨rfl, hnone, fun b s => Iff.rfl⟩⟩
    rw [grown_eq_nil rfl, append_nil]
  · refine ⟨pieces', hsound, ?_, .inr ⟨a, taken, hptr, hle, htaken.fresh, htaken.blocks⟩⟩
    rw [grown_eq_nil hheld, append_nil, htaken.arenas]

theorem Found.allocated_grown {g : Heap} {grownPieces : List Piece} {mapped : Nat}
    (hmapped : mapped ≠ 0) (hs : Sound g grownPieces)
    (hgrown : Grown pieces grownPieces (mapped * pageBytes))
    (hheld : g.pagesHeld = h.pagesHeld + mapped)
    (hnext : g.nextVaddr = endOf pieces + mapped * pageBytes)
    (hfound : Found g grownPieces want out) : Allocated h pieces want want out := by
  have hnew : ∀ h' : Heap, h'.pagesHeld = g.pagesHeld → h'.nextVaddr = g.nextVaddr →
      Program.grown h h' = [(endOf pieces, mapped * pageBytes)] := by
    intro h' hheld' hnext'
    rw [hheld] at hheld'
    rw [hnext] at hnext'
    rw [Program.grown, hheld', hnext', if_neg (by omega), Nat.add_sub_cancel_left]
    simp only [Nat.add_sub_cancel]
  rcases hfound with
    ⟨rfl, hnone⟩ | ⟨pieces', a, taken, hsound, htaken, hle, hptr, hheld', hnext', -⟩
  · refine ⟨grownPieces, hs, ?_, .inl ⟨rfl, hnone, hgrown.blocks⟩⟩
    rw [hnew _ rfl rfl, hgrown.arenas]
  · refine ⟨pieces', hsound, ?_, .inr ⟨a, taken, hptr, hle, ?_, ?_⟩⟩
    · rw [hnew _ hheld' hnext', htaken.arenas, hgrown.arenas]
    · intro s hused
      exact htaken.fresh s ((hgrown.blocks a s).mpr hused)
    · intro b s
      rw [htaken.blocks, hgrown.blocks]

theorem wanted_ge (n : Nat) : minBlock ≤ wanted n ∧ align ∣ wanted n ∧ n + header ≤ wanted n := by
  rw [wanted, clear_align]
  simp only [minBlock, header, align]
  omega

theorem wanted_le {n bound : Nat} (hn : n ≤ bound) : wanted n ≤ bound + 64 := by
  rw [wanted, clear_align]
  simp only [minBlock, header, align]
  omega

theorem wanted_asked (n : Nat) :
    wanted (if n = 0 then 1 else n) = wanted n ∧ (if n = 0 then 1 else n) ≤ n + 1 := by
  split
  · rename_i hzero
    rw [hzero]
    decide
  · exact ⟨rfl, Nat.le_succ n⟩

theorem Sound.noFit (hs : Sound h pieces) (hwant : thHeapLimit ≤ want) : NoFit pieces want := by
  intro a size hfree
  have hwithin := within_of_mem_lay hfree
  have hextent := hfree.extent hs.laid.shaped
  have hlimit := hs.limit
  simp only [endOf] at hwithin hlimit
  have hbase : 0 < thHeapBase := by decide
  omega

/-- **`allocate`** always returns, and `NULL` only if no free block is large enough then. -/
theorem Sound.allocate (hs : Sound h pieces) (config : Config) (maps : Nat → Nat → Int) (n : Nat) :
    ∃ out, h.allocate config maps n = some out ∧ Allocated h pieces (wanted n) (wanted n) out := by
  obtain ⟨hs', hready, hheld⟩ := hs.init config
  have hsame : ∀ out, Allocated (h.init config) pieces (wanted n) (wanted n) out →
      Allocated h pieces (wanted n) (wanted n) out := by
    intro out hout
    obtain ⟨pieces', hsound, harenas, hcases⟩ := hout
    refine ⟨pieces', hsound, ?_, hcases⟩
    rw [harenas, Program.grown, Program.grown, hheld]
  have hleast := wanted_asked n
  unfold Heap.allocate
  generalize (if n = 0 then 1 else n) = asked at hleast ⊢
  simp only [hleast.1]
  split
  · rename_i hlarge
    refine ⟨_, rfl, hsame _ (Found.allocated hs' (.inl ⟨rfl, hs'.noFit ?_⟩))⟩
    have hge := (wanted_ge n).2.2
    simp only [thHeapLimit, maxRequest, header] at hge hlarge ⊢
    omega
  · rename_i hsmall
    obtain ⟨hmin, hdvd, -⟩ := wanted_ge n
    have hbound : wanted n ≤ 2 * maxRequest := by
      have hle := @wanted_le asked maxRequest (by omega)
      rw [hleast.1] at hle
      simp only [maxRequest] at hle ⊢
      omega
    obtain ⟨out, hfind, hfound⟩ := hs'.findFit hmin hdvd
    rw [hfind, bind_eq_bind, bind_some]
    by_cases hzero : out.2 = 0
    · simp only [hzero, ne_eq, not_true, if_false]
      rcases hfound with ⟨rfl, hnone⟩ | ⟨_, a, _, _, _, _, hptr, _⟩
      · rcases hs'.grow hready maps hbound with ⟨hno, hsound, hheld'⟩ |
          ⟨hyes, pieces', mapped, hmapped, hsound, hgrown, hheld', hnext⟩
        · simp only [hno, Bool.false_eq_true, if_false]
          refine ⟨_, rfl, hsame _ ⟨pieces, hsound, ?_, .inl ⟨rfl, hnone, fun b s => Iff.rfl⟩⟩⟩
          rw [grown_eq_nil hheld', append_nil]
        · simp only [hyes, if_true]
          obtain ⟨out', hfind', hfound'⟩ := hsound.findFit hmin hdvd
          exact ⟨out', hfind', hsame _ (hfound'.allocated_grown hmapped hsound hgrown hheld' hnext)⟩
      · simp only [header] at hptr
        omega
    · simp only [hzero, ne_eq, not_false_eq_true, if_true]
      exact ⟨_, rfl, hsame _ (hfound.allocated hs')⟩

/-! ### Allocating at an alignment -/

theorem usedIn_cut {total front : Nat} (htotal : total ≠ 0) (hfront : front ≠ 0)
    (hlt : front < total) (b s : Nat) :
    UsedIn thHeapBase (before ++ [⟨front, true⟩, ⟨total - front, true⟩] ++ after) b s
      ↔ (UsedIn thHeapBase (before ++ [⟨total, true⟩] ++ after) b s ∧ b ≠ endOf before)
        ∨ (b = endOf before ∧ s = front) ∨ (b = endOf before + front ∧ s = total - front) := by
  have h1 : Piece.extent ⟨total, true⟩ = total := if_neg htotal
  have h2 : Piece.extent ⟨front, true⟩ = front := if_neg hfront
  have h3 : Piece.extent ⟨total - front, true⟩ = total - front := if_neg (by simp; omega)
  have hspan : Tiling.span Piece.extent [⟨front, true⟩, ⟨total - front, true⟩] = total := by
    rw [span_cons, span_cons, h2, h3, span_nil]
    omega
  have hspan' : Tiling.span Piece.extent [⟨total, true⟩] = total := by
    rw [span_cons, h1, span_nil, Nat.add_zero]
  have hout : ∀ {row : List Piece} {start : Nat}, UsedIn start row b s →
      (start + Tiling.span Piece.extent row ≤ endOf before ∨ endOf before + total ≤ start) →
      b ≠ endOf before := by
    intro row start hu hside
    have hwithin := hu.within
    have hpos := hu.2
    omega
  rw [usedIn_append, usedIn_append, hspan, hspan']
  have hmiddle : UsedIn (endOf before) [⟨front, true⟩, ⟨total - front, true⟩] b s
      ↔ (b = endOf before ∧ s = front) ∨ (b = endOf before + front ∧ s = total - front) := by
    simp only [UsedIn, lay_cons, lay_nil, mem_cons, not_mem_nil, or_false, Prod.mk.injEq,
      Piece.mk.injEq, and_true, h2]
    omega
  have hmiddle' : UsedIn (endOf before) [⟨total, true⟩] b s → b = endOf before := by
    simp only [UsedIn, lay_cons, lay_nil, mem_singleton, Prod.mk.injEq]
    tauto
  have hleft : UsedIn thHeapBase before b s → b ≠ endOf before := fun hu =>
    hout hu (.inl (Nat.le_refl _))
  have hright : UsedIn (endOf before + total) after b s → b ≠ endOf before := fun hu =>
    hout hu (.inr (Nat.le_refl _))
  rw [hmiddle]
  tauto

theorem Sound.cutFront {total front : Nat} (hs : Sound h pieces)
    (hused : UsedIn thHeapBase pieces a total) (hfront : minBlock ≤ front) (hdvd : align ∣ front)
    (hrest : front + minBlock ≤ total) :
    ∃ pieces', Sound (h.cutFront (a + header) (a + front + header)) pieces'
      ∧ arenasFrom thHeapBase thHeapBase pieces' = arenasFrom thHeapBase thHeapBase pieces
      ∧ (h.cutFront (a + header) (a + front + header)).pagesHeld = h.pagesHeld
      ∧ (h.cutFront (a + header) (a + front + header)).nextVaddr = h.nextVaddr
      ∧ ∀ b s, UsedIn thHeapBase pieces' b s
          ↔ (UsedIn thHeapBase pieces b s ∧ b ≠ a) ∨ b = a + front ∧ s = total - front := by
  have hread := (hs.laid.tagged.read hs.laid.shaped (fun _ _ => rfl) hused.1).2.1
  obtain ⟨before, x, after, rfl, rfl⟩ := hused.next hs.laid
  have hcut := hs.laid.cut hfront hdvd hrest
  generalize hm : (((h.mem.setSizeFlags _ _).setPrevSize _ _).setPrevSize _ _).setSizeFlags _ _ = m
    at hcut
  have hblocks := @usedIn_cut before (x :: after) total front hused.2
    (by simp only [minBlock, header] at hfront; omega)
    (by simp only [minBlock, header] at hrest; omega)
  simp only [minBlock, header] at hfront hrest
  have htotal : Piece.extent ⟨total, true⟩ = total := if_neg hused.2
  have hone : Piece.extent ⟨front, true⟩ = front := if_neg (by simp; omega)
  have htwo : Piece.extent ⟨total - front, true⟩ = total - front := if_neg (by simp; omega)
  have hspan : Tiling.span Piece.extent [⟨front, true⟩, ⟨total - front, true⟩]
      = Tiling.span Piece.extent [⟨total, true⟩] := by
    rw [span_cons, span_cons, span_cons, htotal, hone, htwo, span_nil]
    omega
  have harenas := @arenasFrom_retile thHeapBase before [⟨total, true⟩] (x :: after) thHeapBase
    [⟨front, true⟩, ⟨total - front, true⟩] (by simpa using hused.2)
    (by simp; omega) hspan
  have hs' : Sound { h with mem := m } _ := hs.update hcut (by
      rw [hs.inUse]
      simp only [usedSize_append, usedSize_cons, usedSize_nil, if_true]
      omega) (by
      simp only [span_append, hspan])
  obtain ⟨pieces', hsound, htaken, hheld, hnext⟩ := hs'.release
    ((hblocks _ _).mpr (.inr (.inl ⟨rfl, rfl⟩)))
  have hfrontEq : endOf before + front + header - (endOf before + header) = front := by omega
  -- `release` took the front off the count, and it is added and taken off again
  have heq : h.cutFront (endOf before + header) (endOf before + front + header)
      = Heap.release { h with mem := m } (endOf before + header) := by
    rw [← hm]
    unfold Heap.cutFront
    simp only [hfrontEq, Nat.add_sub_cancel, hread]
  rw [heq]
  refine ⟨pieces', hsound, htaken.arenas.symm.trans harenas, hheld, hnext, ?_⟩
  intro b s
  rw [htaken.without, hblocks]
  constructor
  · intro ⟨hu, hne⟩
    rcases hu with hu | ⟨heq, -⟩ | hu
    · exact .inl hu
    · exact absurd heq hne
    · exact .inr hu
  · intro hu
    refine ⟨hu.imp_right .inr, ?_⟩
    rcases hu with hu | hu
    · exact hu.2
    · omega

theorem two_pow_of_and {alignment : Nat} (hlow : 8 ≤ alignment)
    (hand : alignment &&& (alignment - 1) = 0) : ∃ k, alignment = 2 ^ k :=
  (Nat.and_sub_one_eq_zero_iff_isPowerOfTwo (by omega)).mp hand

theorem dvd_of_two_pow {alignment k : Nat} (hpow : alignment = 2 ^ k) :
    (alignment ≤ align → alignment ∣ align) ∧ (align < alignment → 2 * align ∣ alignment) := by
  have hfour : align = 2 ^ 4 := rfl
  have hfive : 2 * align = 2 ^ 5 := rfl
  constructor
  · intro hle
    rw [hpow, hfour] at hle ⊢
    exact Nat.pow_dvd_pow 2 ((Nat.pow_le_pow_iff_right (by decide)).mp hle)
  · intro hlt
    rw [hpow, hfour] at hlt
    rw [hpow, hfive]
    exact Nat.pow_dvd_pow 2 ((Nat.pow_lt_pow_iff_right (by decide)).mp hlt)

theorem widen_spec {p alignment aligned : Nat} (hlarge : align ≤ alignment)
    (hdvd : alignment ∣ aligned) (hgap : align ∣ aligned - p) (hstep : align ∣ alignment)
    (hle : p ≤ aligned) (hnear : aligned ≤ p + alignment + 32) (turns : Nat)
    (hturns : minBlock ≤ aligned - p + turns * align) :
    alignment ∣ widen p alignment turns aligned ∧ align ∣ widen p alignment turns aligned - p
      ∧ p + minBlock ≤ widen p alignment turns aligned
      ∧ widen p alignment turns aligned ≤ p + alignment + 32 := by
  simp only [align, minBlock, header] at hlarge hgap hstep hturns ⊢
  induction turns generalizing aligned with
  | zero =>
    refine ⟨hdvd, hgap, ?_, hnear⟩
    rw [widen]
    omega
  | succ turns ih =>
    unfold widen
    split
    · rename_i hsmall
      simp only [minBlock, header] at hsmall
      apply ih
      · exact Nat.dvd_add hdvd (Nat.dvd_refl _)
      · omega
      · omega
      · omega
      · omega
    · rename_i hroom
      simp only [minBlock, header] at hroom
      refine ⟨hdvd, hgap, ?_, hnear⟩
      omega

/-- The block size `allocate_aligned` looks for. -/
def alignedNeed (alignment n : Nat) : Nat :=
  if alignment ≤ align then wanted n else wanted (wanted n + alignment + minBlock)

theorem Allocated.dvd {need : Nat} (hout : Allocated h pieces need want out) : align ∣ out.2 := by
  obtain ⟨pieces', hsound, -, ⟨hzero, -⟩ | ⟨a, taken, hptr, -, -, hblocks⟩⟩ := hout
  · rw [hzero]
    exact Nat.dvd_zero _
  · have hused := (hblocks a taken).mpr (.inr ⟨rfl, rfl⟩)
    rw [hptr]
    exact Nat.dvd_add (dvd_of_mem_placed align_dvd_base hsound.laid.shaped hused.1) (Nat.dvd_refl _)

theorem Allocated.cutFront {need front taken : Nat} {g : Heap} {grownPieces : List Piece}
    (hs : Sound g grownPieces) (harenas : arenasFrom thHeapBase thHeapBase grownPieces
      = arenasFrom thHeapBase thHeapBase pieces ++ Program.grown h g)
    (hfresh : ∀ s, ¬ UsedIn thHeapBase pieces a s)
    (hblocks : ∀ b s, UsedIn thHeapBase grownPieces b s
      ↔ UsedIn thHeapBase pieces b s ∨ b = a ∧ s = taken)
    (hfront : minBlock ≤ front) (hdvd : align ∣ front) (hmin : minBlock ≤ want)
    (hrest : front + want ≤ taken) :
    Allocated h pieces need want
      (g.cutFront (a + header) (a + front + header), a + front + header) := by
  have hused := (hblocks a taken).mpr (.inr ⟨rfl, rfl⟩)
  obtain ⟨pieces', hsound, hsame, hheld, hnext, hcut⟩ :=
    hs.cutFront hused hfront hdvd (Nat.le_trans (Nat.add_le_add_left hmin front) hrest)
  simp only [minBlock, header] at hfront hmin
  refine ⟨pieces', hsound, ?_, .inr ⟨a + front, taken - front, rfl, by omega, ?_, ?_⟩⟩
  · rw [hsame, harenas, Program.grown, Program.grown, hheld, hnext]
  · -- a block there would overlap the one that was cut
    intro s hother
    have hother' := (hblocks _ _).mpr (.inl hother)
    have hextent : Piece.extent ⟨taken, true⟩ = taken := if_neg hused.2
    have hextent' : Piece.extent ⟨s, true⟩ = s := if_neg hother.2
    have hne := hother.2
    rcases apart_of_mem_lay hused.1 hother'.1 with ⟨heq, -⟩ | hlt | hlt <;> omega
  · intro b s
    rw [hcut, hblocks]
    constructor
    · rintro (⟨hu | ⟨rfl, -⟩, hne⟩ | hu)
      · exact .inl hu
      · exact absurd rfl hne
      · exact .inr hu
    · rintro (hu | hu)
      · refine .inl ⟨.inl hu, ?_⟩
        rintro rfl
        exact hfresh s hu
      · exact .inr hu

/-- **`allocate_aligned`** hands out a block at a multiple of the alignment. -/
theorem Sound.allocateAligned (hs : Sound h pieces) (config : Config) (maps : Nat → Nat → Int)
    {alignment n : Nat} (hlow : 8 ≤ alignment) (hand : alignment &&& (alignment - 1) = 0)
    (hfits : alignment ≤ align ∨ wanted n + alignment + minBlock < wordRange) :
    ∃ out, h.allocateAligned config maps alignment n = some out
      ∧ Allocated h pieces (alignedNeed alignment n) (wanted n) out ∧ alignment ∣ out.2 := by
  obtain ⟨k, hpow⟩ := two_pow_of_and hlow hand
  obtain ⟨hdvdSmall, hdvdLarge⟩ := dvd_of_two_pow hpow
  unfold Heap.allocateAligned alignedNeed
  by_cases hsmall : alignment ≤ align
  · rw [if_pos hsmall, if_pos hsmall]
    obtain ⟨out, hout, hallocated⟩ := hs.allocate config maps n
    exact ⟨out, hout, hallocated, Nat.dvd_trans (hdvdSmall hsmall) hallocated.dvd⟩
  rw [if_neg hsmall, if_neg hsmall]
  have hsum := hfits.resolve_left hsmall
  obtain ⟨hmin, -, hge⟩ := wanted_ge n
  have hwrap : max (clear (wrap (n + header + align - 1)) (align - 1)) minBlock = wanted n := by
    rw [wanted, wrap, Nat.mod_eq_of_lt]
    simp only [header, align, minBlock, wordRange] at hsum hge hsmall ⊢
    omega
  have hwrap' : wrap (wanted n + alignment + minBlock) = wanted n + alignment + minBlock :=
    Nat.mod_eq_of_lt hsum
  obtain ⟨⟨g, p⟩, hout, hallocated⟩ := hs.allocate config maps (wanted n + alignment + minBlock)
  have hptrDvd := hallocated.dvd
  simp only [hwrap, hwrap', hout, bind_eq_bind, bind_some]
  obtain ⟨grownPieces, hsound, harenas, ⟨hzero, hnone, hsame⟩ |
    ⟨a, taken, hptr, htaken, hfresh, hblocks⟩⟩ := hallocated
  · have hzero : p = 0 := hzero
    rw [if_pos hzero]
    exact ⟨_, rfl, ⟨grownPieces, hsound, harenas, .inl ⟨rfl, hnone, hsame⟩⟩, Nat.dvd_zero _⟩
  have hptr : p = a + header := hptr
  have hne : p ≠ 0 := by
    simp only [header] at hptr
    omega
  have hlarge := (wanted_ge (wanted n + alignment + minBlock)).2.2
  -- the block has the alignment in it, so the alignment is no larger than the heap
  have hinside : p + alignment ≤ thHeapLimit := by
    have hused := (hblocks a taken).mpr (.inr ⟨rfl, rfl⟩)
    have hwithin := hused.within.2
    have hlimit := hsound.limit
    simp only [endOf] at hlimit
    simp only [header, minBlock] at hptr hlarge htaken hmin
    omega
  have hwrap'' : wrap (p + alignment - 1) = p + alignment - 1 := by
    rw [wrap, Nat.mod_eq_of_lt]
    simp only [thHeapLimit, wordRange] at hinside ⊢
    omega
  have hclear : clear (p + alignment - 1) (alignment - 1)
      = (p + alignment - 1) / alignment * alignment := by
    rw [hpow]
    exact clear_two_pow _ _
  rw [if_neg hne, hwrap'', hclear]
  -- the first multiple of the alignment that is not below the pointer
  obtain ⟨aligned, haligned, hdvdAligned, hle, hlt⟩ : ∃ aligned,
      (p + alignment - 1) / alignment * alignment = aligned ∧ alignment ∣ aligned ∧ p ≤ aligned
        ∧ aligned < p + alignment := by
    refine ⟨_, rfl, Nat.dvd_mul_left _ _, ?_⟩
    have hdiv := Nat.div_add_mod (p + alignment - 1) alignment
    have hmod := Nat.mod_lt (p + alignment - 1) (Nat.lt_of_lt_of_le (by decide) hlow)
    rw [Nat.mul_comm] at hdiv
    omega
  rw [haligned]
  by_cases hexact : aligned = p
  · rw [if_pos hexact]
    refine ⟨_, rfl, ⟨grownPieces, hsound, harenas, .inr ⟨a, taken, hptr, ?_, hfresh, hblocks⟩⟩,
      hexact ▸ hdvdAligned⟩
    simp only [header] at hlarge
    omega
  rw [if_neg hexact]
  have hdouble := hdvdLarge (Nat.lt_of_not_le hsmall)
  have hptrDvd : align ∣ p := hptrDvd
  have hsixteen : align ∣ aligned :=
    Nat.dvd_trans (Nat.dvd_trans (Nat.dvd_mul_left _ _) hdouble) hdvdAligned
  obtain ⟨hdvdWide, hgap, hroom, hnear⟩ := widen_spec (p := p) (Nat.le_of_not_le hsmall) hdvdAligned
    (Nat.dvd_sub hsixteen hptrDvd) (Nat.dvd_trans (Nat.dvd_mul_left _ _) hdouble) hle
    (by omega) minBlock (by simp only [minBlock, header, align]; omega)
  generalize widen p alignment minBlock aligned = wide at hdvdWide hgap hroom hnear ⊢
  obtain ⟨front, rfl⟩ : ∃ front, wide = a + front + header := by
    refine ⟨wide - p, ?_⟩
    omega
  rw [hptr] at hgap hroom hnear ⊢
  have hfront : a + front + header - (a + header) = front := by omega
  rw [hfront] at hgap
  refine ⟨_, rfl, ?_, hdvdWide⟩
  apply Allocated.cutFront hsound harenas hfresh hblocks _ hgap hmin
  · simp only [minBlock, header] at hlarge hnear htaken ⊢
    omega
  · omega

end Thalyx.Native.Heap
