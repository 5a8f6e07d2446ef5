/-
Freeing and carving blocks of the native heap.

`Laid` is what holds of the memory between two calls: the tags lay out the row of pieces,
no two neighbours are both free, every arena ends in its fence, and the bins hold the free
blocks.  Each operation on blocks is followed from one row to the next.
-/
import Mathlib.Data.List.Chain
import ThalyxKernel.Native.Heap.Bins

namespace Thalyx.Native.Heap

open Tiling List Option

/-- Memory is the row of pieces, and the bins hold its free blocks. -/
structure Laid (m : Mem) (pieces : List Piece) : Prop where
  shaped : ∀ x ∈ pieces, x.Shaped
  tagged : Tagged m 0 thHeapBase pieces
  joined : pieces.IsChain Piece.Joined
  fenced : pieces = [] ∨ ∃ rest, pieces = rest ++ [Piece.fence]
  binned : Binned m (FreeIn thHeapBase pieces)

/-- Where the pieces after `before` start. -/
abbrev endOf (before : List Piece) : Nat := thHeapBase + span Piece.extent before

/-- The free blocks on either side of the pieces `middle`. -/
def freeAround (before middle after : List Piece) (a size : Nat) : Prop :=
  FreeIn thHeapBase before a size ∨ FreeIn (endOf before + span Piece.extent middle) after a size

variable {m m' : Mem} {pieces before middle after : List Piece} {a size total : Nat} {x y : Piece}

theorem align_dvd_base : align ∣ thHeapBase := by decide

theorem align_dvd_span (h : ∀ x ∈ pieces, x.Shaped) : align ∣ span Piece.extent pieces := by
  induction pieces with
  | nil => exact Nat.dvd_zero _
  | cons x rest ih =>
    rw [span_cons]
    apply Nat.dvd_add (h x mem_cons_self).dvd_extent
    exact ih fun y hy => h y (mem_cons_of_mem _ hy)

theorem align_dvd_endOf (h : ∀ x ∈ before, x.Shaped) : align ∣ endOf before :=
  Nat.dvd_add align_dvd_base (align_dvd_span h)

theorem scattered (h : ∀ x ∈ pieces, x.Shaped) : Scattered (FreeIn thHeapBase pieces) where
  aligned hfree := dvd_of_mem_placed align_dvd_base h hfree
  ne_null hfree := by
    have hbase := (within_of_mem_lay hfree).1
    simp only [thHeapBase] at hbase
    omega
  unique hfree hfree' := congrArg Piece.size (hfree'.unique h hfree)

theorem freeAround_of_append (a size : Nat) :
    FreeIn thHeapBase (before ++ middle ++ after) a size
      ↔ FreeIn (endOf before) middle a size ∨ freeAround before middle after a size := by
  simp only [FreeIn, freeAround, endOf, lay_append, span_append, mem_append, ← Nat.add_assoc]
  tauto

variable {start w : Nat}

theorem FreeIn.within (h : ∀ x ∈ pieces, x.Shaped) (hfree : FreeIn start pieces a size) :
    start ≤ a ∧ a + minBlock ≤ start + span Piece.extent pieces := by
  have hwithin := within_of_mem_lay hfree
  have hextent := hfree.extent h
  have hsize := (hfree.shape h).1
  omega

theorem not_freeAround (h : ∀ x ∈ before, x.Shaped) (hlow : endOf before ≤ a)
    (hhigh : a < endOf before + span Piece.extent middle) (size : Nat) :
    ¬ freeAround before middle after a size := by
  intro hfree
  rcases hfree with hbefore | hafter
  · have hwithin := (hbefore.within h).2
    simp only [minBlock, header, endOf] at hwithin hlow
    omega
  · have hwithin := (within_of_mem_lay hafter).1
    omega

theorem apart_of_among (h : ∀ x ∈ before, x.Shaped) (hlow : endOf before ≤ w)
    (hhigh : w < endOf before + span Piece.extent middle + header) :
    Apart (freeAround before middle after) w := by
  intro a size hfree
  rcases hfree with hbefore | hafter
  · have hwithin := (hbefore.within h).2
    simp only [minBlock, header, endOf] at hwithin hlow
    omega
  · have hwithin := (within_of_mem_lay hafter).1
    simp only [header] at hhigh
    omega

theorem apart_of_around (h : ∀ x ∈ middle, x.Shaped)
    (haround : Apart (freeAround before middle after) w)
    (hout : w < endOf before ∨ endOf before + span Piece.extent middle ≤ w) :
    Apart (FreeIn thHeapBase (before ++ middle ++ after)) w := by
  intro a size hfree
  rcases (freeAround_of_append a size).mp hfree with hmiddle | hother
  · have hwithin := hmiddle.within h
    simp only [minBlock, header] at hwithin
    omega
  · exact haround a size hother

theorem apart_header (h : ∀ x ∈ pieces, x.Shaped) (hmem : (a, x) ∈ placed start pieces) :
    Apart (FreeIn start pieces) a ∧ Apart (FreeIn start pieces) (a + 8) := by
  constructor
  · intro b size hfree
    exact (hfree.link_apart h hmem).1
  · intro b size hfree
    exact (hfree.link_apart h hmem).2

theorem Tagged.read {back : Nat} (htagged : Tagged m back start pieces) (h : ∀ x ∈ pieces, x.Shaped)
    (hframe : ∀ w, Apart (FreeIn start pieces) w → m'.word w = m.word w)
    (hmem : (a, x) ∈ placed start pieces) :
    m'.sizeFlags a = x.flags ∧ m'.blockSize a = x.size ∧ m'.blockInuse a = x.used := by
  have hflags : m'.sizeFlags a = x.flags :=
    (hframe _ (apart_header h hmem).2).trans (htagged.flags_eq hmem)
  have hdvd := (h x (mem_of_mem_lay hmem)).dvd_size
  exact ⟨hflags, blockSize_of_flags hflags hdvd, blockInuse_of_flags hflags hdvd⟩

theorem Laid.retile (h : Laid m (before ++ middle ++ x :: after))
    {middle' : List Piece} (hshaped : ∀ y ∈ middle', y.Shaped)
    (hspan : span Piece.extent middle' = span Piece.extent middle)
    (hjoined : middle'.IsChain Piece.Joined)
    (hfirst : ∀ z ∈ before.getLast?, ∀ y ∈ middle'.head?, z.Joined y)
    (hlast : ∀ y ∈ (before ++ middle').getLast?, y.Joined x)
    (hframe : ∀ w, Apart (FreeIn thHeapBase (before ++ middle' ++ x :: after)) w →
      w < endOf before ∨ endOf before + span Piece.extent middle < w → m'.word w = m.word w)
    (hmiddle : Tagged m' (backOf 0 before) (endOf before) middle')
    (hback : m'.prevSize (endOf before + span Piece.extent middle)
      = backOf (backOf 0 before) middle')
    (hbinned : Binned m' (FreeIn thHeapBase (before ++ middle' ++ x :: after))) :
    Laid m' (before ++ middle' ++ x :: after) := by
  have hall : ∀ y ∈ before ++ middle' ++ x :: after, y.Shaped := by
    intro y hy
    rcases mem_append.mp hy with hy | hy
    · rcases mem_append.mp hy with hy | hy
      · exact h.shaped y (mem_append_left _ (mem_append_left _ hy))
      · exact hshaped y hy
    · exact h.shaped y (mem_append_right _ hy)
  have hchain : (before ++ middle' ++ x :: after).IsChain Piece.Joined := by
    have hold := h.joined
    rw [isChain_append, isChain_append] at hold
    rw [isChain_append, isChain_append]
    refine ⟨⟨hold.1.1, hjoined, hfirst⟩, hold.2.1, fun y hy z hz => ?_⟩
    obtain rfl : x = z := some.inj hz
    exact hlast y hy
  refine ⟨hall, h.tagged.retile hall hspan hframe hmiddle hback, hchain, .inr ?_, hbinned⟩
  obtain ⟨rest, hrest⟩ := h.fenced.resolve_left (by simp)
  obtain ⟨init, hinit⟩ : ∃ init, x :: after = init ++ [Piece.fence] := by
    refine ⟨(x :: after).dropLast, ?_⟩
    have hlast := congrArg List.getLast? hrest
    rw [getLast?_append_of_ne_nil _ (cons_ne_nil x after), getLast?_concat] at hlast
    exact (dropLast_append_getLast? _ hlast).symm
  exact ⟨before ++ middle' ++ init, by simp only [hinit, append_assoc]⟩

/-! ### Publishing a free block -/

theorem Binned.publish {free : Nat → Nat → Prop} (h : Binned m free) (hs : Scattered free)
    (hfresh : ∀ s, ¬ free a s) (ha : align ∣ a) (hnull : a ≠ 0) (hsize : minBlock ≤ size)
    (hdvd : align ∣ size) (htag : Apart free (a + 8)) (hafter : Apart free (a + size)) :
    Binned (m.publishFree a size) (fun b s => b = a ∧ s = size ∨ free b s)
      ∧ (m.publishFree a size).sizeFlags a = size
      ∧ (m.publishFree a size).prevSize (a + size) = size
      ∧ ∀ w, Apart (fun b s => b = a ∧ s = size ∨ free b s) w → w ≠ a + 8 → w ≠ a + size →
        (m.publishFree a size).word w = m.word w := by
  simp only [minBlock, header] at hsize
  -- the two tags are written first, and neither is a link
  let n := (m.setSizeFlags a size).setPrevSize (a + size) size
  have hwritten : ∀ w, n.word w
      = if w = a + size then size else if w = a + 8 then size else m.word w := by
    intro w
    simp only [n, Mem.setPrevSize, Mem.setSizeFlags, Mem.put_word]
  have hn : Binned n free := (h.put htag size).put hafter size
  have hread : n.sizeFlags a = size := by
    rw [Mem.sizeFlags, hwritten, if_neg (by omega), if_pos rfl]
  have hown : n.blockSize a = size :=
    blockSize_of_flags (x := ⟨size, false⟩) hread hdvd
  obtain ⟨hbinned, hframe⟩ := hn.insert hs hfresh ha hnull hown
  have hnew : ∀ w, Apart free w → w ≠ a + 16 → w ≠ a + 24 →
      Apart (fun b s => b = a ∧ s = size ∨ free b s) w := by
    intro w hw h1 h2 b s hb
    rcases hb with ⟨rfl, -⟩ | hb
    · exact ⟨h1, h2⟩
    · exact hw b s hb
  refine ⟨hbinned, ?_, ?_, ?_⟩
  · exact (hframe _ (hnew _ htag (by omega) (by omega))).trans hread
  · refine (hframe _ (hnew _ hafter (by omega) (by omega))).trans ?_
    rw [hwritten, if_pos rfl]
  · intro w hw h1 h2
    refine (hframe w hw).trans ?_
    rw [hwritten, if_neg h2, if_neg h1]

theorem Laid.publish (h : Laid m (before ++ middle ++ x :: after))
    (hspan : span Piece.extent middle = total) (htotal : minBlock ≤ total)
    (hfirst : ∀ z ∈ before.getLast?, z.used = true) (hnext : x.used = true)
    (hbinned : Binned m' (freeAround before middle (x :: after)))
    (hframe : ∀ w, Apart (FreeIn thHeapBase (before ++ middle ++ x :: after)) w →
      m'.word w = m.word w) :
    Laid (m'.publishFree (endOf before) total) (before ++ [⟨total, false⟩] ++ x :: after) := by
  have hmiddle : ∀ y ∈ middle, y.Shaped := fun y hy =>
    h.shaped y (mem_append_left _ (mem_append_right _ hy))
  have hbefore : ∀ y ∈ before, y.Shaped := fun y hy =>
    h.shaped y (mem_append_left _ (mem_append_left _ hy))
  have hdvd : align ∣ total := hspan ▸ align_dvd_span hmiddle
  have hshape : Piece.Shaped ⟨total, false⟩ := .inr ⟨htotal, hdvd⟩
  have hextent : Piece.extent ⟨total, false⟩ = total := (hshape.of_free rfl).2.2
  -- afterwards the free blocks are those around and the new one
  have hfree : ∀ b s, FreeIn thHeapBase (before ++ [⟨total, false⟩] ++ x :: after) b s
      ↔ b = endOf before ∧ s = total ∨ freeAround before middle (x :: after) b s := by
    intro b s
    rw [freeAround_of_append, freeAround, freeAround, span_cons, hextent, hspan]
    simp [FreeIn]
  have hall : ∀ y ∈ before ++ [⟨total, false⟩] ++ x :: after, y.Shaped := by
    intro y hy
    simp only [mem_append, mem_singleton] at hy
    rcases hy with (hy | rfl) | hy
    · exact hbefore y hy
    · exact hshape
    · exact h.shaped y (mem_append_right _ hy)
  have hplace : (endOf before, ⟨total, false⟩)
      ∈ placed thHeapBase (before ++ [⟨total, false⟩] ++ x :: after) := by
    simp [endOf]
  have hplace' : (endOf before + total, x)
      ∈ placed thHeapBase (before ++ [⟨total, false⟩] ++ x :: after) := by
    simp [endOf, hextent, Nat.add_assoc]
  have hmono : ∀ w, Apart (FreeIn thHeapBase (before ++ [⟨total, false⟩] ++ x :: after)) w →
      Apart (freeAround before middle (x :: after)) w := fun w hw =>
    hw.mono fun b s hb => (hfree b s).mpr (.inr hb)
  have hscattered := scattered hall
  obtain ⟨hbin, hflags, hback, hwords⟩ := hbinned.publish
    (hscattered.mono fun b s hb => (hfree b s).mpr (.inr hb))
    (not_freeAround hbefore (Nat.le_refl _) (by rw [hspan]; simp only [minBlock] at htotal; omega))
    (align_dvd_endOf hbefore) (by simp [endOf, thHeapBase]) htotal hdvd
    (hmono _ (apart_header hall hplace).2) (hmono _ (apart_header hall hplace').1)
  have hapart : ∀ w, Apart (FreeIn thHeapBase (before ++ [⟨total, false⟩] ++ x :: after)) w →
      Apart (fun b s =>
        b = endOf before ∧ s = total ∨ freeAround before middle (x :: after) b s) w :=
    fun w hw => hw.mono fun b s hb => (hfree b s).mpr hb
  -- the back link of the new block is the one of the first block it is made of
  have hpre : m'.prevSize (endOf before) = backOf 0 before := by
    have htagged := (tagged_append.mp (tagged_append.mp h.tagged).1).2
    cases middle with
    | nil =>
      simp only [span_nil, minBlock, header] at hspan htotal
      omega
    | cons z rest =>
      refine (hframe _ (apart_header h.shaped (x := z) ?_).1).trans htagged.1
      simp [endOf]
  apply h.retile
  · intro y hy
    exact mem_singleton.mp hy ▸ hshape
  · rw [span_cons, hextent, hspan, span_nil, Nat.add_zero]
  · exact isChain_singleton _
  · exact fun z hz _ _ => .inl (hfirst z hz)
  · exact fun _ _ => .inr hnext
  · intro w hw hout
    rw [hspan] at hout
    rw [hwords w (hapart w hw) (by simp only [minBlock, header] at htotal; omega) (by omega)]
    apply hframe
    apply apart_of_around hmiddle (hmono w hw)
    omega
  · refine ⟨?_, ?_, trivial⟩
    · rw [← hpre]
      apply hwords _ (hapart _ (apart_header hall hplace).1)
      · omega
      · simp only [minBlock, header] at htotal
        omega
    · rw [hflags]
      rfl
  · rw [hspan]
    exact hback
  · exact hbin.iff hfree

/-! ### Joining free neighbours -/

theorem freeAround_absorb_after (hx : x.used = false) (hshaped : ∀ y ∈ before, y.Shaped)
    (hpos : 0 < x.extent) (a size : Nat) :
    freeAround before (middle ++ [x]) after a size
      ↔ freeAround before middle (x :: after) a size
        ∧ a ≠ endOf before + span Piece.extent middle := by
  obtain ⟨s, u⟩ := x
  subst hx
  simp only [freeAround, FreeIn, lay_cons, mem_cons, Prod.mk.injEq, Piece.mk.injEq, and_true,
    span_append, span_cons, span_nil, Nat.add_zero, ← Nat.add_assoc]
  constructor
  · intro hfree
    rcases hfree with hbefore | hafter
    · have hwithin := (FreeIn.within hshaped hbefore).2
      simp only [minBlock, header, endOf] at hwithin ⊢
      exact ⟨.inl hbefore, by omega⟩
    · have hwithin := (within_of_mem_lay hafter).1
      exact ⟨.inr (.inr hafter), by omega⟩
  · intro ⟨hfree, hne⟩
    rcases hfree with hbefore | ⟨rfl, -⟩ | hafter
    · exact .inl hbefore
    · exact absurd rfl hne
    · exact .inr hafter

theorem freeAround_absorb_before (hx : x.used = false) (hshaped : ∀ y ∈ before, y.Shaped)
    (hpos : 0 < x.extent) (a size : Nat) :
    freeAround before (x :: middle) after a size
      ↔ freeAround (before ++ [x]) middle after a size ∧ a ≠ endOf before := by
  obtain ⟨s, u⟩ := x
  subst hx
  simp only [freeAround, FreeIn, lay_append, lay_cons, lay_nil, mem_append, mem_singleton,
    Prod.mk.injEq, Piece.mk.injEq, and_true, endOf, span_append, span_cons, span_nil, Nat.add_zero,
    ← Nat.add_assoc]
  constructor
  · intro hfree
    rcases hfree with hbefore | hafter
    · have hwithin := (FreeIn.within hshaped hbefore).2
      simp only [minBlock, header] at hwithin
      exact ⟨.inl (.inl hbefore), by omega⟩
    · have hwithin := (within_of_mem_lay hafter).1
      exact ⟨.inr hafter, by omega⟩
  · intro ⟨hfree, hne⟩
    rcases hfree with (hbefore | ⟨rfl, -⟩) | hafter
    · exact .inl hbefore
    · exact absurd rfl hne
    · exact .inr hafter

theorem Laid.joinAfter (h : Laid m (before ++ ⟨size, true⟩ :: after)) (hsize : size ≠ 0) :
    ∃ more y rest, after = more ++ y :: rest ∧ y.used = true ∧ (∀ z ∈ more, z.used = false)
      ∧ (m.joinAfter (endOf before) size).2 = size + span Piece.extent more
      ∧ Binned (m.joinAfter (endOf before) size).1
          (freeAround before (⟨size, true⟩ :: more) (y :: rest))
      ∧ ∀ w, Apart (FreeIn thHeapBase (before ++ ⟨size, true⟩ :: after)) w →
          (m.joinAfter (endOf before) size).1.word w = m.word w := by
  have hbefore : ∀ y ∈ before, y.Shaped := fun y hy => h.shaped y (mem_append_left _ hy)
  have hextent : Piece.extent ⟨size, true⟩ = size := if_neg hsize
  -- the last piece is a fence, so there is one after the block
  obtain ⟨rest, hrest⟩ := h.fenced.resolve_left (by simp)
  have hlast : (before ++ ⟨size, true⟩ :: after).getLast? = some Piece.fence := by
    rw [hrest, getLast?_concat]
  rw [getLast?_append_of_ne_nil _ (cons_ne_nil _ _)] at hlast
  cases after with
  | nil =>
    simp only [getLast?_singleton, some.injEq, Piece.fence, Piece.mk.injEq] at hlast
    exact absurd hlast.1 hsize
  | cons x after =>
    have hplace : (endOf before + size, x)
        ∈ placed thHeapBase (before ++ ⟨size, true⟩ :: x :: after) := by
      simp [endOf, hextent]
    have hshape : x.Shaped := h.shaped x (mem_of_mem_lay hplace)
    have hnone : ∀ b s, freeAround before [⟨size, true⟩] (x :: after) b s
        ↔ FreeIn thHeapBase (before ++ ⟨size, true⟩ :: x :: after) b s := by
      intro b s
      have happend := @freeAround_of_append before [⟨size, true⟩] (x :: after) b s
      simp only [append_assoc, singleton_append] at happend
      rw [happend]
      simp [FreeIn]
    have hread := h.tagged.read h.shaped (fun w _ => rfl) hplace
    simp only [Mem.joinAfter, hread.2.2]
    by_cases hused : x.used = true
    · refine ⟨[], x, after, rfl, hused, by simp, ?_, ?_, ?_⟩
      · rw [if_pos hused]
        rfl
      · rw [if_pos hused]
        exact h.binned.iff hnone
      · intro w _
        rw [if_pos hused]
    · have hfree : x.used = false := Bool.eq_false_iff.mpr hused
      have hblock := hshape.of_free hfree
      have hmem : FreeIn thHeapBase (before ++ ⟨size, true⟩ :: x :: after)
          (endOf before + size) x.size := by
        rw [FreeIn, ← hfree]
        exact hplace
      obtain ⟨hbinned, hframe⟩ := h.binned.remove hmem (scattered h.shaped) hread.2.1
      have hwords : ∀ w, Apart (FreeIn thHeapBase (before ++ ⟨size, true⟩ :: x :: after)) w →
          (m.binRemove (endOf before + size)).word w = m.word w := fun w hw =>
        hframe w (hw.mono fun b s hb => hb.1)
      cases after with
      | nil =>
        simp only [getLast?_cons_cons, getLast?_singleton, some.injEq] at hlast
        exact absurd (hlast ▸ rfl) hused
      | cons y rest =>
        have hjoined := (isChain_append.mp h.joined).2.1
        simp only [isChain_cons_cons, Piece.Joined] at hjoined
        refine ⟨[x], y, rest, rfl, hjoined.2.1.resolve_left hused, by simp [hfree], ?_, ?_, ?_⟩
        · rw [if_neg hused, (h.tagged.read h.shaped hwords hplace).2.1, span_cons, hblock.2.2]
          rfl
        · rw [if_neg hused]
          apply hbinned.iff
          intro b s
          have habsorb := @freeAround_absorb_after before [⟨size, true⟩] (y :: rest) x hfree
            hbefore (by simp only [minBlock, header] at hblock; omega) b s
          rw [singleton_append, hnone, span_cons, hextent] at habsorb
          exact habsorb
        · rw [if_neg hused]
          exact hwords

/-- What joining the pieces `middle` with the block before them leads to, over the memory `m` of
the row: the bins, where the block starts now, and its size. -/
def JoinsBefore (m : Mem) (before middle after : List Piece) (total : Nat)
    (out : Mem × Nat × Nat) : Prop :=
  ∃ init more, before = init ++ more ∧ (∀ z ∈ init.getLast?, z.used = true)
    ∧ (∀ z ∈ more, z.used = false) ∧ out.2 = (endOf init, total + span Piece.extent more)
    ∧ Binned out.1 (freeAround init (more ++ middle) after)
    ∧ ∀ w, Apart (FreeIn thHeapBase (before ++ middle ++ after)) w → out.1.word w = m.word w

theorem Laid.joinBefore {first : Piece} {n : Mem} (h : Laid m (before ++ first :: middle ++ after))
    (hbinned : Binned n (freeAround before (first :: middle) after))
    (hframe : ∀ w, Apart (FreeIn thHeapBase (before ++ first :: middle ++ after)) w →
      n.word w = m.word w) (total : Nat) :
    JoinsBefore m before (first :: middle) after total (n.joinBefore (endOf before) total) := by
  have hplace : (endOf before, first) ∈ placed thHeapBase (before ++ first :: middle ++ after) := by
    simp [endOf]
  have hback : n.prevSize (endOf before) = backOf 0 before := by
    refine (hframe _ (apart_header h.shaped hplace).1).trans ?_
    have htagged := h.tagged
    rw [append_assoc, tagged_append] at htagged
    exact htagged.2.1
  have hstay : (∀ z ∈ before.getLast?, z.used = true) →
      JoinsBefore m before (first :: middle) after total (n, endOf before, total) := fun hlast =>
    ⟨before, [], (append_nil _).symm, hlast, by simp, rfl, hbinned, hframe⟩
  rcases eq_nil_or_concat before with rfl | ⟨init, z, rfl⟩
  · have hnone : n.prevSize (endOf []) = 0 := hback
    rw [Mem.joinBefore, if_pos hnone]
    exact hstay (by simp)
  rw [concat_eq_append] at *
  have hmem : (endOf init, z) ∈ placed thHeapBase (init ++ [z] ++ first :: middle ++ after) := by
    simp [endOf]
  have hshape : z.Shaped := h.shaped z (mem_of_mem_lay hmem)
  rw [backOf_append] at hback
  by_cases hzero : z.size = 0
  · -- the fence of the arena before
    have hfence : z.used = true := by
      rcases hshape with rfl | ⟨hsize, -⟩
      · rfl
      · simp [hzero, minBlock, header] at hsize
    rw [Mem.joinBefore, if_pos (hback.trans hzero)]
    apply hstay
    simp [hfence]
  have haddr : endOf (init ++ [z]) - n.prevSize (endOf (init ++ [z])) = endOf init := by
    rw [hback]
    simp only [endOf, span_append, span_cons, span_nil, Piece.extent, if_neg hzero, backOf]
    omega
  have hread := h.tagged.read h.shaped hframe hmem
  have hne : n.prevSize (endOf (init ++ [z])) ≠ 0 := by
    rw [hback]
    exact hzero
  simp only [Mem.joinBefore, if_neg hne, haddr, hread.2.2]
  by_cases hused : z.used = true
  · rw [if_pos hused]
    apply hstay
    simp [hused]
  · have hfree : z.used = false := Bool.eq_false_iff.mpr hused
    have hblock := hshape.of_free hfree
    have hinit : ∀ y ∈ init, y.Shaped := fun y hy =>
      h.shaped y (by simp [hy])
    have hfreeIn : freeAround (init ++ [z]) (first :: middle) after (endOf init) z.size := by
      left
      rw [FreeIn, ← hfree]
      simp [endOf]
    have hall : ∀ b s, freeAround (init ++ [z]) (first :: middle) after b s →
        FreeIn thHeapBase (init ++ [z] ++ first :: middle ++ after) b s := fun b s hb =>
      (freeAround_of_append b s).mpr (.inr hb)
    obtain ⟨hout, hkept⟩ := hbinned.remove hfreeIn ((scattered h.shaped).mono hall) hread.2.1
    have hwords : ∀ w, Apart (FreeIn thHeapBase (init ++ [z] ++ first :: middle ++ after)) w →
        (n.binRemove (endOf init)).word w = m.word w := fun w hw =>
      (hkept w (hw.mono fun b s hb => hall b s hb.1)).trans (hframe w hw)
    rw [if_neg hused]
    refine ⟨init, [z], rfl, ?_, by simp [hfree], ?_, ?_, hwords⟩
    · intro y hy
      have hchain := h.joined
      simp only [append_assoc, singleton_append] at hchain
      have hpair := (isChain_append.mp hchain).2.2 y hy z (by simp)
      exact hpair.resolve_right hused
    · rw [(h.tagged.read h.shaped hwords hmem).2.1, span_cons, hblock.2.2]
      rfl
    · apply hout.iff
      exact freeAround_absorb_before hfree hinit
        (by simp only [minBlock, header] at hblock; omega)

theorem Laid.release {h : Heap} (hlaid : Laid h.mem (before ++ ⟨size, true⟩ :: after))
    (hsize : size ≠ 0) :
    ∃ init pre post y rest, before = init ++ pre ∧ after = post ++ y :: rest
      ∧ (∀ z ∈ pre ++ post, z.used = false)
      ∧ Laid (h.release (endOf before + header)).mem
          (init ++ [⟨span Piece.extent (pre ++ ⟨size, true⟩ :: post), false⟩] ++ y :: rest)
      ∧ h.release (endOf before + header)
          = { h with mem := (h.release (endOf before + header)).mem, inUse := h.inUse - size } := by
  have hextent : Piece.extent ⟨size, true⟩ = size := if_neg hsize
  have hplace : (endOf before, ⟨size, true⟩)
      ∈ placed thHeapBase (before ++ ⟨size, true⟩ :: after) := by
    simp [endOf]
  have hread := (hlaid.tagged.read hlaid.shaped (fun w _ => rfl) hplace).2.1
  obtain ⟨post, y, rest, rfl, hy, hpost, hjoinSize, hbinned, hframe⟩ := hlaid.joinAfter hsize
  have hassoc : before ++ ⟨size, true⟩ :: (post ++ y :: rest)
      = before ++ ⟨size, true⟩ :: post ++ y :: rest := by simp
  rw [hassoc] at hlaid hframe
  obtain ⟨init, pre, rfl, hlast, hpre, hout, hbinned', hframe'⟩ :=
    hlaid.joinBefore hbinned hframe (size + span Piece.extent post)
  have hassoc' : init ++ pre ++ ⟨size, true⟩ :: post ++ y :: rest
      = init ++ (pre ++ ⟨size, true⟩ :: post) ++ y :: rest := by simp
  rw [hassoc'] at hlaid hframe'
  have htotal : span Piece.extent (pre ++ ⟨size, true⟩ :: post)
      = size + span Piece.extent post + span Piece.extent pre := by
    rw [span_append, span_cons, hextent]
    omega
  have hmin : minBlock ≤ size := ((hlaid.shaped ⟨size, true⟩ (by simp)).resolve_left
    (fun heq => hsize (congrArg Piece.size heq))).1
  have hpublish := hlaid.publish rfl (by rw [htotal]; omega) hlast hy hbinned' hframe'
  have hrelease : h.release (endOf (init ++ pre) + header) = { h with
      mem := Mem.publishFree
        ((h.mem.joinAfter (endOf (init ++ pre)) size).1.joinBefore (endOf (init ++ pre))
          (size + span Piece.extent post)).1 (endOf init)
        (span Piece.extent (pre ++ ⟨size, true⟩ :: post))
      inUse := h.inUse - size } := by
    rw [Heap.release]
    simp only [header, Nat.add_sub_cancel, hread, hjoinSize, hout, htotal]
  refine ⟨init, pre, post, y, rest, rfl, rfl, ?_, ?_, ?_⟩
  · intro z hz
    exact (mem_append.mp hz).elim (hpre z) (hpost z)
  · rw [hrelease]
    exact hpublish
  · rw [hrelease]

/-! ### Carving a block -/

/-- A free block out of the bins, where nothing but links has been written. -/
structure Removed (m n : Mem) (before : List Piece) (size : Nat) (after : List Piece) : Prop where
  laid : Laid m (before ++ [⟨size, false⟩] ++ after)
  binned : Binned n (freeAround before [⟨size, false⟩] after)
  frame : ∀ w, Apart (freeAround before [⟨size, false⟩] after) w → n.word w = m.word w

namespace Removed

variable {n : Mem}

theorem shape (h : Removed m n before size after) :
    minBlock ≤ size ∧ align ∣ size ∧ span Piece.extent [⟨size, false⟩] = size := by
  have hof := (h.laid.shaped ⟨size, false⟩ (by simp)).of_free rfl
  exact ⟨hof.1, hof.2.1, by rw [span_cons, hof.2.2, span_nil, Nat.add_zero]⟩

theorem before_shaped (h : Removed m n before size after) : ∀ y ∈ before, y.Shaped :=
  fun y hy => h.laid.shaped y (by simp [hy])

theorem apart (h : Removed m n before size after) {k : Nat} (hk : k < size + header) :
    Apart (freeAround before [⟨size, false⟩] after) (endOf before + k) := by
  apply apart_of_among h.before_shaped (Nat.le_add_right _ _)
  rw [h.shape.2.2]
  omega

theorem header_eq (h : Removed m n before size after) {k : Nat} (hk : k < size + header) :
    n.word (endOf before + k) = m.word (endOf before + k) := h.frame _ (h.apart hk)

theorem prevSize_eq (h : Removed m n before size after) :
    n.prevSize (endOf before) = backOf 0 before := by
  refine (h.header_eq (k := 0) (by simp [header])).trans ?_
  have htagged := h.laid.tagged
  rw [append_assoc, tagged_append] at htagged
  exact htagged.2.1

theorem blockSize_eq (h : Removed m n before size after) : n.blockSize (endOf before) = size := by
  have hshape := h.shape
  simp only [minBlock, header] at hshape
  have hsame : n.sizeFlags (endOf before) = m.sizeFlags (endOf before) :=
    h.header_eq (k := 8) (by simp only [header]; omega)
  apply blockSize_of_flags (x := ⟨size, false⟩) _ hshape.2.1
  rw [hsame]
  exact h.laid.tagged.flags_eq (by simp [endOf])

theorem scattered (h : Removed m n before size after) :
    Scattered (freeAround before [⟨size, false⟩] after) :=
  (Heap.scattered h.laid.shaped).mono fun b s hb => (freeAround_of_append b s).mpr (.inr hb)

theorem freeIn_iff (h : Removed m n before size after) {middle : List Piece}
    (hspan : span Piece.extent middle = size) (b s : Nat) :
    FreeIn thHeapBase (before ++ middle ++ after) b s
      ↔ FreeIn (endOf before) middle b s ∨ freeAround before [⟨size, false⟩] after b s := by
  rw [freeAround_of_append, freeAround, freeAround, hspan, h.shape.2.2]

theorem whole (h : Removed m n before size (x :: after)) :
    Laid ((n.setSizeFlags (endOf before) (size ||| flagInuse)).setPrevSize
      (endOf before + size) size)
      (before ++ [⟨size, true⟩] ++ x :: after) := by
  obtain ⟨hmin, hdvd, hspan⟩ := h.shape
  have hne : size ≠ 0 := by
    simp only [minBlock, header] at hmin
    omega
  have hextent : span Piece.extent [⟨size, true⟩] = size := by simp [Piece.extent, hne]
  have hfree : ∀ b s, FreeIn thHeapBase (before ++ [⟨size, true⟩] ++ x :: after) b s
      ↔ freeAround before [⟨size, false⟩] (x :: after) b s := by
    intro b s
    rw [h.freeIn_iff hextent]
    simp [FreeIn]
  have hwords : ∀ w, ((n.setSizeFlags (endOf before) (size ||| flagInuse)).setPrevSize
      (endOf before + size) size).word w
        = if w = endOf before + size then size
          else if w = endOf before + 8 then size ||| flagInuse else n.word w := by
    intro w
    simp only [Mem.setPrevSize, Mem.setSizeFlags, Mem.put_word]
  simp only [minBlock, header] at hmin
  apply h.laid.retile
  · intro y hy
    rw [mem_singleton.mp hy]
    exact .inr ⟨hmin, hdvd⟩
  · rw [hextent, hspan]
  · exact isChain_singleton _
  · simp [Piece.Joined]
  · simp [Piece.Joined]
  · intro w hw hout
    rw [hspan] at hout
    rw [hwords, if_neg (by omega), if_neg (by omega)]
    apply h.frame
    exact hw.mono fun b s hb => (hfree b s).mpr hb
  · refine ⟨?_, ?_, trivial⟩
    · rw [← h.prevSize_eq, Mem.prevSize, hwords, if_neg (by omega), if_neg (by omega)]
      rfl
    · rw [Mem.sizeFlags, hwords, if_neg (by omega), if_pos rfl, or_flagInuse hdvd]
      rfl
  · rw [hspan, Mem.prevSize, hwords, if_pos rfl]
    rfl
  · have htag := h.apart (k := 8) (by simp only [header]; omega)
    have hback := h.apart (k := size) (by simp only [header]; omega)
    exact ((h.binned.put htag _).put hback _).iff hfree

theorem split {want : Nat} (h : Removed m n before size (x :: after)) (hx : x.used = true)
    (hwant : minBlock ≤ want) (hdvd : align ∣ want) (hroom : want + minBlock ≤ size) :
    Laid ((((n.setPrevSize (endOf before + want) want).publishFree (endOf before + want)
        (size - want)).setSizeFlags (endOf before) (want ||| flagInuse)).setPrevSize
          (endOf before + want) want)
      (before ++ [⟨want, true⟩, ⟨size - want, false⟩] ++ x :: after) := by
  obtain ⟨-, hdvdSize, hspan⟩ := h.shape
  have hleft : minBlock ≤ size - want := by omega
  have hdvdLeft : align ∣ size - want := Nat.dvd_sub hdvdSize hdvd
  simp only [minBlock, header] at hwant hroom
  have hused : Piece.extent ⟨want, true⟩ = want := if_neg (by simp; omega)
  have hrest : Piece.extent ⟨size - want, false⟩ = size - want := if_neg (by simp; omega)
  have hextent : span Piece.extent [⟨want, true⟩, ⟨size - want, false⟩] = size := by
    rw [span_cons, span_cons, hused, hrest, span_nil]
    omega
  have hfree : ∀ b s, FreeIn thHeapBase
      (before ++ [⟨want, true⟩, ⟨size - want, false⟩] ++ x :: after) b s
        ↔ b = endOf before + want ∧ s = size - want
          ∨ freeAround before [⟨size, false⟩] (x :: after) b s := by
    intro b s
    rw [h.freeIn_iff hextent]
    simp [FreeIn, hused]
  -- the back link of the rest is written before it is published
  have hput : ∀ w, (n.setPrevSize (endOf before + want) want).word w
      = if w = endOf before + want then want else n.word w := fun w => Mem.put_word _ _ _ _
  have hbinned : Binned (n.setPrevSize (endOf before + want) want)
      (freeAround before [⟨size, false⟩] (x :: after)) := h.binned.put (h.apart (by omega)) want
  have hpublish := hbinned.publish h.scattered
    (not_freeAround h.before_shaped (Nat.le_add_right _ _) (by rw [hspan]; omega))
    (Nat.dvd_add (align_dvd_endOf h.before_shaped) hdvd) (by simp only [endOf, thHeapBase]; omega)
    hleft hdvdLeft (by rw [Nat.add_assoc]; exact h.apart (by simp only [header]; omega))
    (by rw [Nat.add_assoc]; exact h.apart (by simp only [header]; omega))
  obtain ⟨hbin, hflags, hback, hkept⟩ := hpublish
  have hapart : ∀ w, Apart (FreeIn thHeapBase
      (before ++ [⟨want, true⟩, ⟨size - want, false⟩] ++ x :: after)) w →
      Apart (fun b s => b = endOf before + want ∧ s = size - want
        ∨ freeAround before [⟨size, false⟩] (x :: after) b s) w := fun w hw =>
    hw.mono fun b s hb => (hfree b s).mpr hb
  -- what memory holds in the end
  have hwords : ∀ w, ((((n.setPrevSize (endOf before + want) want).publishFree (endOf before + want)
      (size - want)).setSizeFlags (endOf before) (want ||| flagInuse)).setPrevSize
        (endOf before + want) want).word w
      = if w = endOf before + want then want
        else if w = endOf before + 8 then want ||| flagInuse
        else ((n.setPrevSize (endOf before + want) want).publishFree (endOf before + want)
          (size - want)).word w := by
    intro w
    simp only [Mem.setPrevSize, Mem.setSizeFlags, Mem.put_word]
  have hlinkFree : ∀ k < size + header, k ≠ want + 16 → k ≠ want + 24 → Apart (fun b s =>
      b = endOf before + want ∧ s = size - want
        ∨ freeAround before [⟨size, false⟩] (x :: after) b s) (endOf before + k) := by
    intro k hk h1 h2 b s hb
    rcases hb with ⟨rfl, -⟩ | hb
    · omega
    · exact h.apart hk b s hb
  simp only [header] at hlinkFree
  apply h.laid.retile
  · intro y hy
    simp only [mem_cons, not_mem_nil, or_false] at hy
    rcases hy with rfl | rfl
    · exact .inr ⟨hwant, hdvd⟩
    · exact .inr ⟨hleft, hdvdLeft⟩
  · rw [hextent, hspan]
  · simp [Piece.Joined]
  · simp [Piece.Joined]
  · exact fun _ _ => .inr hx
  · intro w hw hout
    rw [hspan] at hout
    rw [hwords, if_neg (by omega), if_neg (by omega), hkept w (hapart w hw) (by omega) (by omega),
      hput, if_neg (by omega)]
    apply h.frame
    exact hw.mono fun b s hb => (hfree b s).mpr (.inr hb)
  · refine ⟨?_, ?_, ?_, ?_, trivial⟩
    · rw [← h.prevSize_eq, Mem.prevSize, hwords, if_neg (by omega), if_neg (by omega),
        hkept (endOf before) (hlinkFree 0 (by omega) (by omega) (by omega)) (by omega) (by omega),
        hput, if_neg (by omega)]
      rfl
    · rw [Mem.sizeFlags, hwords, if_neg (by omega), if_pos rfl, or_flagInuse hdvd]
      rfl
    · rw [hused, Mem.prevSize, hwords, if_pos rfl]
    · rw [hused, Mem.sizeFlags, hwords, if_neg (by omega), if_neg (by omega)]
      exact hflags
  · rw [hspan, Mem.prevSize, hwords, if_neg (by omega), if_neg (by omega)]
    have hend : endOf before + want + (size - want) = endOf before + size := by omega
    rw [hend] at hback
    exact hback
  · have htag := hlinkFree 8 (by omega) (by omega) (by omega)
    have hrestBack := hlinkFree want (by omega) (by omega) (by omega)
    exact ((hbin.put htag _).put hrestBack _).iff hfree

end Removed

theorem Laid.removed (h : Laid m (before ++ [⟨size, false⟩] ++ after)) :
    Removed m (m.binRemove (endOf before)) before size after := by
  have hfree : FreeIn thHeapBase (before ++ [⟨size, false⟩] ++ after) (endOf before) size := by
    simp [FreeIn, endOf]
  have hshape := (h.shaped ⟨size, false⟩ (by simp)).of_free rfl
  have hread := h.tagged.read h.shaped (fun w _ => rfl) hfree
  have hothers : ∀ b s, freeAround before [⟨size, false⟩] after b s
      ↔ FreeIn thHeapBase (before ++ [⟨size, false⟩] ++ after) b s ∧ b ≠ endOf before := by
    intro b s
    rw [freeAround_of_append]
    constructor
    · intro hb
      refine ⟨.inr hb, ?_⟩
      rintro rfl
      apply not_freeAround (fun y hy => h.shaped y (by simp [hy])) (Nat.le_refl _) _ s hb
      simp only [minBlock, span_cons, span_nil] at hshape ⊢
      omega
    · intro ⟨hb, hne⟩
      apply hb.resolve_left
      intro hown
      simp only [FreeIn, lay_cons, lay_nil, mem_singleton, Prod.mk.injEq] at hown
      exact hne hown.1
  obtain ⟨hbinned, hframe⟩ := h.binned.remove hfree (scattered h.shaped) hread.2.1
  refine ⟨h, hbinned.iff hothers, ?_⟩
  intro w hw
  exact hframe w (hw.mono fun b s hb => (hothers b s).mpr hb)

theorem Laid.carve {h : Heap} {want : Nat}
    (hlaid : Laid h.mem (before ++ [⟨size, false⟩] ++ x :: after)) (hwant : minBlock ≤ want)
    (hdvd : align ∣ want) (hle : want ≤ size) :
    ∃ taken rest, want ≤ taken ∧ span Piece.extent (⟨taken, true⟩ :: rest) = size
      ∧ (∀ z ∈ rest, z.used = false)
      ∧ Laid (h.carve (endOf before) want).1.mem (before ++ (⟨taken, true⟩ :: rest) ++ x :: after)
      ∧ h.carve (endOf before) want = ({ h with
          mem := (h.carve (endOf before) want).1.mem
          inUse := h.inUse + taken }, endOf before + header) := by
  have hremoved := hlaid.removed
  have hx : x.used = true := by
    have hchain := (isChain_append.mp hlaid.joined).2.2 ⟨size, false⟩ (by simp) x (by simp)
    exact hchain.resolve_left (by simp)
  have hmin := hremoved.shape.1
  simp only [minBlock, header] at hwant hmin
  by_cases hroom : want + minBlock ≤ size
  · refine ⟨want, [⟨size - want, false⟩], Nat.le_refl _, ?_, by simp, ?_, ?_⟩
    · simp only [minBlock, header] at hroom
      have hused : Piece.extent ⟨want, true⟩ = want := if_neg (by simp; omega)
      have hrest : Piece.extent ⟨size - want, false⟩ = size - want := if_neg (by simp; omega)
      rw [span_cons, span_cons, hused, hrest, span_nil]
      omega
    · simp only [Heap.carve, hremoved.blockSize_eq, if_pos hroom]
      exact hremoved.split hx hwant hdvd hroom
    · simp only [Heap.carve, hremoved.blockSize_eq, if_pos hroom]
  · refine ⟨size, [], hle, ?_, by simp, ?_, ?_⟩
    · rw [span_cons, span_nil, Nat.add_zero]
      exact if_neg (by simp; omega)
    · simp only [Heap.carve, hremoved.blockSize_eq, if_neg hroom]
      exact hremoved.whole
    · simp only [Heap.carve, hremoved.blockSize_eq, if_neg hroom]

/-! ### Adding an arena -/

theorem Laid.backOf_eq (h : Laid m pieces) : backOf 0 pieces = 0 := by
  rcases h.fenced with rfl | ⟨rest, rfl⟩
  · rfl
  · rw [backOf_append]
    rfl

theorem Laid.addArena (h : Laid m pieces) {usable : Nat} (husable : minBlock ≤ usable)
    (hdvd : align ∣ usable) :
    Laid (((m.setPrevSize (endOf pieces) 0).publishFree (endOf pieces) usable).setSizeFlags
        (endOf pieces + usable) flagInuse)
      (pieces ++ [⟨usable, false⟩, Piece.fence]) := by
  simp only [minBlock, header] at husable
  have hextent : Piece.extent ⟨usable, false⟩ = usable := if_neg (by simp; omega)
  have hshaped : ∀ y ∈ pieces ++ [⟨usable, false⟩, Piece.fence], y.Shaped := by
    intro y hy
    simp only [mem_append, mem_cons, not_mem_nil, or_false] at hy
    rcases hy with hy | rfl | rfl
    · exact h.shaped y hy
    · exact .inr ⟨husable, hdvd⟩
    · exact .inl rfl
  have hfree : ∀ b s, FreeIn thHeapBase (pieces ++ [⟨usable, false⟩, Piece.fence]) b s
      ↔ b = endOf pieces ∧ s = usable ∨ FreeIn thHeapBase pieces b s := by
    intro b s
    simp [FreeIn, endOf, or_comm]
  have hplace : (endOf pieces, ⟨usable, false⟩)
      ∈ placed thHeapBase (pieces ++ [⟨usable, false⟩, Piece.fence]) := by
    simp [endOf]
  have hplace' : (endOf pieces + usable, Piece.fence)
      ∈ placed thHeapBase (pieces ++ [⟨usable, false⟩, Piece.fence]) := by
    simp [endOf, hextent]
  -- nothing past the end is a link
  have hpast : ∀ w, endOf pieces ≤ w → Apart (FreeIn thHeapBase pieces) w := by
    intro w hw b s hb
    have hwithin := (hb.within h.shaped).2
    simp only [minBlock, header, endOf] at hwithin hw
    omega
  have hput : ∀ w, (m.setPrevSize (endOf pieces) 0).word w
      = if w = endOf pieces then 0 else m.word w := fun w => Mem.put_word _ _ _ _
  have hbinned : Binned (m.setPrevSize (endOf pieces) 0) (FreeIn thHeapBase pieces) :=
    h.binned.put (hpast _ (Nat.le_refl _)) 0
  have hfresh : ∀ s, ¬ FreeIn thHeapBase pieces (endOf pieces) s := by
    intro s hs
    have hwithin := (hs.within h.shaped).2
    simp only [minBlock, header, endOf] at hwithin
    omega
  obtain ⟨hbin, hflags, hback, hkept⟩ := hbinned.publish (scattered h.shaped) hfresh
    (align_dvd_endOf h.shaped) (by simp [endOf, thHeapBase]) husable hdvd
    (hpast _ (Nat.le_add_right _ _)) (hpast _ (Nat.le_add_right _ _))
  have hapart : ∀ w, Apart (FreeIn thHeapBase (pieces ++ [⟨usable, false⟩, Piece.fence])) w →
      Apart (fun b s => b = endOf pieces ∧ s = usable ∨ FreeIn thHeapBase pieces b s) w :=
    fun w hw => hw.mono fun b s hb => (hfree b s).mpr hb
  have hwords : ∀ w, (((m.setPrevSize (endOf pieces) 0).publishFree (endOf pieces)
      usable).setSizeFlags (endOf pieces + usable) flagInuse).word w
      = if w = endOf pieces + usable + 8 then flagInuse
        else ((m.setPrevSize (endOf pieces) 0).publishFree (endOf pieces) usable).word w :=
    fun w => Mem.put_word _ _ _ _
  refine ⟨hshaped, ?_, ?_, .inr ⟨pieces ++ [⟨usable, false⟩], by simp⟩, ?_⟩
  · rw [tagged_append, h.backOf_eq]
    change _ ∧ Tagged _ 0 (endOf pieces) _
    refine ⟨?_, ?_, ?_, ?_, ?_, trivial⟩
    · apply h.tagged.congr
      intro a y hmem
      have hwithin := (within_of_mem_lay hmem).2
      have hpos := (h.shaped y (mem_of_mem_lay hmem)).extent_ge
      have hsafe := apart_header (a := a) (x := y) hshaped (by
        rw [placed, lay_append]
        exact mem_append_left _ hmem)
      simp only [header] at hpos
      have hend : a + 16 ≤ endOf pieces := by
        simp only [endOf]
        omega
      constructor
      · rw [Mem.prevSize, hwords, if_neg (by omega), hkept a (hapart _ hsafe.1) (by omega)
          (by omega), hput, if_neg (by omega)]
        rfl
      · rw [Mem.sizeFlags, hwords, if_neg (by omega), hkept (a + 8) (hapart _ hsafe.2) (by omega)
          (by omega), hput, if_neg (by omega)]
        rfl
    · have hsafe := (apart_header hshaped hplace).1
      rw [Mem.prevSize, hwords, if_neg (by omega), hkept _ (hapart _ hsafe) (by omega) (by omega),
        hput, if_pos rfl]
    · rw [Mem.sizeFlags, hwords, if_neg (by omega)]
      exact hflags
    · rw [hextent, Mem.prevSize, hwords, if_neg (by omega)]
      exact hback
    · rw [hextent, Mem.sizeFlags, hwords, if_pos rfl]
      rfl
  · rw [isChain_append]
    refine ⟨h.joined, ?_, ?_⟩
    · simp [Piece.Joined]
    · intro y hy z _
      rcases h.fenced with rfl | ⟨rest, rfl⟩
      · simp at hy
      · rw [getLast?_concat, mem_some] at hy
        exact .inl (hy ▸ rfl)
  · exact (hbin.put (hapart _ (apart_header hshaped hplace').2) flagInuse).iff hfree

/-! ### Cutting a block in two -/

theorem Laid.cut (h : Laid m (before ++ [⟨total, true⟩] ++ x :: after)) {front : Nat}
    (hfront : minBlock ≤ front) (hdvd : align ∣ front) (hrest : front + minBlock ≤ total) :
    Laid ((((m.setSizeFlags (endOf before + front) ((total - front) ||| flagInuse)).setPrevSize
        (endOf before + front) front).setPrevSize (endOf before + front + (total - front))
          (total - front)).setSizeFlags (endOf before) (front ||| flagInuse))
      (before ++ [⟨front, true⟩, ⟨total - front, true⟩] ++ x :: after) := by
  simp only [minBlock, header] at hfront hrest
  have hshape : Piece.Shaped ⟨total, true⟩ := h.shaped _ (by simp)
  have hdvdTotal : align ∣ total := hshape.dvd_size
  have hdvdRest : align ∣ total - front := Nat.dvd_sub hdvdTotal hdvd
  have htotal : Piece.extent ⟨total, true⟩ = total := if_neg (by simp; omega)
  have hone : Piece.extent ⟨front, true⟩ = front := if_neg (by simp; omega)
  have htwo : Piece.extent ⟨total - front, true⟩ = total - front := if_neg (by simp; omega)
  have hspan : span Piece.extent [⟨total, true⟩] = total := by
    rw [span_cons, htotal, span_nil, Nat.add_zero]
  have hextent : span Piece.extent [⟨front, true⟩, ⟨total - front, true⟩] = total := by
    rw [span_cons, span_cons, hone, htwo, span_nil]
    omega
  have hbefore : ∀ y ∈ before, y.Shaped := fun y hy => h.shaped y (by simp [hy])
  have hend : endOf before + front + (total - front) = endOf before + total := by omega
  have hwords : ∀ w, ((((m.setSizeFlags (endOf before + front)
      ((total - front) ||| flagInuse)).setPrevSize (endOf before + front) front).setPrevSize
        (endOf before + front + (total - front)) (total - front)).setSizeFlags (endOf before)
          (front ||| flagInuse)).word w
      = if w = endOf before + 8 then front ||| flagInuse
        else if w = endOf before + total then total - front
        else if w = endOf before + front then front
        else if w = endOf before + front + 8 then (total - front) ||| flagInuse else m.word w := by
    intro w
    simp only [Mem.setPrevSize, Mem.setSizeFlags, Mem.put_word, hend]
  -- the free blocks are the same before and after
  have hfree : ∀ b s, FreeIn thHeapBase
      (before ++ [⟨front, true⟩, ⟨total - front, true⟩] ++ x :: after) b s
        ↔ FreeIn thHeapBase (before ++ [⟨total, true⟩] ++ x :: after) b s := by
    intro b s
    rw [freeAround_of_append, freeAround_of_append, freeAround, freeAround, hextent, hspan]
    simp [FreeIn]
  have hamong : ∀ k < total + header, Apart (FreeIn thHeapBase
      (before ++ [⟨total, true⟩] ++ x :: after)) (endOf before + k) := by
    intro k hk b s hb
    rcases (freeAround_of_append b s).mp hb with hmiddle | haround
    · simp [FreeIn] at hmiddle
    · apply apart_of_among hbefore (Nat.le_add_right _ _) _ b s haround
      rw [hspan]
      omega
  simp only [header] at hamong
  apply h.retile
  · intro y hy
    simp only [mem_cons, not_mem_nil, or_false] at hy
    rcases hy with rfl | rfl
    · exact .inr ⟨hfront, hdvd⟩
    · refine .inr ⟨?_, hdvdRest⟩
      simp only [minBlock, header]
      omega
  · rw [hextent, hspan]
  · simp [Piece.Joined]
  · simp [Piece.Joined]
  · simp [Piece.Joined]
  · intro w _ hout
    rw [hspan] at hout
    rw [hwords, if_neg (by omega), if_neg (by omega), if_neg (by omega), if_neg (by omega)]
  · have htagged := h.tagged
    rw [append_assoc, tagged_append] at htagged
    refine ⟨?_, ?_, ?_, ?_, trivial⟩
    · rw [Mem.prevSize, hwords, if_neg (by omega), if_neg (by omega), if_neg (by omega),
        if_neg (by omega)]
      exact htagged.2.1
    · rw [Mem.sizeFlags, hwords, if_pos rfl, or_flagInuse hdvd]
      rfl
    · rw [hone, Mem.prevSize, hwords, if_neg (by omega), if_neg (by omega), if_pos rfl]
    · rw [hone, Mem.sizeFlags, hwords, if_neg (by omega), if_neg (by omega), if_neg (by omega),
        if_pos rfl, or_flagInuse hdvdRest]
      rfl
  · rw [hspan, Mem.prevSize, hwords, if_neg (by omega), if_pos rfl]
    rfl
  · have hlater := hamong (front + 8) (by omega)
    have hmiddle := hamong front (by omega)
    have hlast := hend ▸ hamong total (by omega)
    exact ((((h.binned.put hlater _).put hmiddle _).put hlast _).put (hamong 8 (by omega)) _).iff hfree

/-! ### What the program writes -/

theorem Laid.write (h : Laid m pieces) (hmem : (a, ⟨size, true⟩) ∈ placed thHeapBase pieces)
    (hsize : size ≠ 0) (hwords : ∀ w, w < a + header ∨ a + size ≤ w → m'.word w = m.word w)
    (hbins : m'.bins = m.bins) : Laid m' pieces := by
  have hextent : Piece.extent ⟨size, true⟩ = size := if_neg hsize
  have hsame : ∀ b y, (b, y) ∈ placed thHeapBase pieces → ∀ k, k < y.extent →
      (y.used = true → k < header) → m'.word (b + k) = m.word (b + k) := by
    intro b y hy k hk hhead
    apply hwords
    rcases apart_of_mem_lay hmem hy with ⟨rfl, rfl⟩ | hlt | hlt
    · exact .inl (Nat.add_lt_add_left (hhead rfl) _)
    · rw [hextent] at hlt
      exact .inr (Nat.le_trans hlt (Nat.le_add_right _ _))
    · left
      simp only [header]
      omega
  refine ⟨h.shaped, ?_, h.joined, h.fenced, ?_⟩
  · apply h.tagged.congr
    intro b y hy
    have hpos := (h.shaped y (mem_of_mem_lay hy)).extent_ge
    simp only [header] at hpos
    constructor
    · exact hsame b y hy 0 (by omega) (fun _ => by simp [header])
    · exact hsame b y hy 8 (by omega) (fun _ => by simp [header])
  · apply h.binned.congr hbins
    intro b s hb
    have hshape := hb.shape h.shaped
    simp only [minBlock, header] at hshape
    have hextent' := hb.extent h.shaped
    constructor
    · apply hsame b _ hb 16
      · omega
      · intro hused
        cases hused
    · apply hsame b _ hb 24
      · omega
      · intro hused
        cases hused

end Thalyx.Native.Heap
