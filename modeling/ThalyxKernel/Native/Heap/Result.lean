/-
The native heap over every run of a program that frees and writes only what it holds.

`Represents` is what the tags, the bins and the counters say together, in terms of the
blocks the program holds.  Every call keeps it, whatever `th_map_new` answers, and a null
pointer means that no free block was large enough.
-/
import ThalyxKernel.Native.Heap.Calls

namespace Thalyx.Native.Heap

open Tiling List

variable {s s' : Program} {h h' : Heap} {pieces pieces' : List Piece} {live : List Live}
  {a b size taken need want p n : Nat} {used used' : Nat → Nat → Prop}

/-! ### What the program holds -/

/-- The blocks the program holds are the blocks in use, each large enough and aligned. -/
structure Held (live : List Live) (used : Nat → Nat → Prop) : Prop where
  block : ∀ l ∈ live, ∃ a size, l.ptr = a + header ∧ used a size ∧ l.requested + header ≤ size
    ∧ l.alignment ∣ l.ptr
  holder : ∀ a size, used a size → ∃ l ∈ live, l.ptr = a + header
  nodup : (live.map (·.ptr)).Nodup

theorem Held.iff (hl : Held live used) (heq : ∀ b s, used' b s ↔ used b s) : Held live used' := by
  have : used' = used := funext fun b => funext fun s => propext (heq b s)
  exact this ▸ hl

theorem Held.hold (hl : Held live used) (hfresh : ∀ s, ¬ used a s)
    (hused : ∀ b s, used' b s ↔ used b s ∨ b = a ∧ s = taken) {requested alignment : Nat}
    (hsize : requested + header ≤ taken) (hdvd : alignment ∣ a + header) :
    Held (Program.hold live (a + header) requested alignment) used' := by
  have hne : a + header ≠ 0 := by simp [header]
  rw [Program.hold, if_neg hne]
  refine ⟨?_, ?_, ?_⟩
  · intro l hmem
    rcases mem_cons.mp hmem with rfl | hmem
    · exact ⟨a, taken, rfl, (hused _ _).mpr (.inr ⟨rfl, rfl⟩), hsize, hdvd⟩
    · obtain ⟨b, size, hptr, hb, hrest⟩ := hl.block l hmem
      exact ⟨b, size, hptr, (hused _ _).mpr (.inl hb), hrest⟩
  · intro b size hb
    rcases (hused b size).mp hb with hb | ⟨rfl, -⟩
    · obtain ⟨l, hmem, hptr⟩ := hl.holder b size hb
      exact ⟨l, mem_cons_of_mem _ hmem, hptr⟩
    · exact ⟨_, mem_cons_self, rfl⟩
  · refine nodup_cons.mpr ⟨?_, hl.nodup⟩
    intro hmem
    obtain ⟨l, hmem, hptr⟩ := mem_map.mp hmem
    have hptr : l.ptr = a + header := hptr
    obtain ⟨b, size, hptr', hb, -⟩ := hl.block l hmem
    have heq : b = a := by omega
    exact hfresh size (heq ▸ hb)

theorem Held.drop (hl : Held live used) (hused : ∀ b s, used' b s ↔ used b s ∧ b ≠ a) :
    Held (Program.drop live (a + header)) used' := by
  refine ⟨?_, ?_, ?_⟩
  · intro l hmem
    obtain ⟨hmem, hne⟩ := mem_filter.mp hmem
    obtain ⟨b, size, hptr, hb, hrest⟩ := hl.block l hmem
    refine ⟨b, size, hptr, (hused b size).mpr ⟨hb, ?_⟩, hrest⟩
    rintro rfl
    simp [hptr] at hne
  · intro b size hb
    obtain ⟨hb, hne⟩ := (hused b size).mp hb
    obtain ⟨l, hmem, hptr⟩ := hl.holder b size hb
    refine ⟨l, mem_filter.mpr ⟨hmem, ?_⟩, hptr⟩
    simp only [decide_eq_true_eq, ne_eq]
    omega
  · exact hl.nodup.sublist (filter_sublist.map _)

theorem Held.drop_null (hl : Held live used) : Program.drop live 0 = live := by
  apply filter_eq_self.mpr
  intro l hmem
  obtain ⟨a, size, hptr, -⟩ := hl.block l hmem
  simp [hptr, header]

/-! ### The invariant -/

/-- What every run keeps. -/
structure Kept (s : Program) (pieces : List Piece) : Prop where
  sound : Sound s.heap pieces
  arenas : arenasFrom thHeapBase thHeapBase pieces = s.arenas
  held : Held s.live (UsedIn thHeapBase pieces)

/-- The block size a call looks for: it is `none` where the call allocates nothing. -/
def needed : HeapCall → Option Nat
  | .malloc n => some (wanted n)
  | .calloc count size => some (wanted (count * size))
  | .realloc p n => if p ≠ 0 ∧ n = 0 then none else some (wanted n)
  | .posixMemalign alignment size =>
    if alignment < 8 ∨ alignment &&& (alignment - 1) ≠ 0 then none
    else some (alignedNeed alignment size)
  | .free _ | .write _ _ => none

/-- What one action leads to. -/
def Keeps (config : Config) (s : Program) (action : HeapCall) (maps : Nat → Nat → Int) : Prop :=
  ∃ s' p pieces', Program.step config s (action, maps) = some s'
    ∧ s.heap.act config maps action = some (s'.heap, p) ∧ Kept s' pieces'
    ∧ (p = 0 → ∀ need, needed action = some need → NoFit pieces' need)

variable {config : Config} {maps : Nat → Nat → Int}
variable {action : HeapCall}

theorem keeps_of (hact : s.heap.act config maps action = some (h', p)) (hsound : Sound h' pieces')
    (harenas : arenasFrom thHeapBase thHeapBase pieces' = s.arenas ++ Program.grown s.heap h')
    (hheld : Held (Program.held s.live p action) (UsedIn thHeapBase pieces'))
    (hnone : p = 0 → ∀ need, needed action = some need → NoFit pieces' need) :
    Keeps config s action maps := by
  refine ⟨Program.mk h' (Program.held s.live p action) (s.arenas ++ Program.grown s.heap h'), p,
    pieces', ?_, hact, ⟨hsound, harenas, hheld⟩, hnone⟩
  rw [Program.step, hact, Option.bind_eq_bind, Option.bind_some]

theorem Allocated.keeps {out : Heap × Nat} {requested alignment : Nat} (hkept : Kept s pieces)
    (hout : Allocated s.heap pieces need want out) (hdvd : alignment ∣ out.2)
    (hwant : requested + header ≤ want)
    (hact : s.heap.act config maps action = some out) (hneed : needed action = some need)
    (hheld : Program.held s.live out.2 action = Program.hold s.live out.2 requested alignment) :
    Keeps config s action maps := by
  obtain ⟨g, p⟩ := out
  obtain ⟨pieces', hsound, harenas, hcases⟩ := hout
  rw [hkept.arenas] at harenas
  refine keeps_of hact hsound harenas ?_ ?_
  · rw [hheld]
    rcases hcases with ⟨hzero, -, hsame⟩ | ⟨a, taken, hptr, hle, hfresh, hblocks⟩
    · have hzero : p = 0 := hzero
      rw [Program.hold, if_pos hzero]
      exact hkept.held.iff hsame
    · have hptr : p = a + header := hptr
      rw [hptr] at hdvd ⊢
      exact hkept.held.hold hfresh hblocks (Nat.le_trans hwant hle) hdvd
  · intro hzero n hn
    rw [hneed, Option.some.injEq] at hn
    rcases hcases with ⟨-, hnone, -⟩ | ⟨a, taken, hptr, -⟩
    · exact hn ▸ hnone
    · have hptr : p = a + header := hptr
      simp only [header] at hptr
      omega

/-! ### The calls -/

theorem keeps_malloc (hkept : Kept s pieces) (n : Nat) (maps : Nat → Nat → Int) :
    Keeps config s (.malloc n) maps := by
  obtain ⟨out, hout, hallocated⟩ := hkept.sound.allocate config maps n
  exact hallocated.keeps hkept hallocated.dvd (wanted_ge n).2.2 hout rfl rfl

theorem Sound.write {m : Mem} (hs : Sound h pieces) (hused : UsedIn thHeapBase pieces a size)
    (hwords : ∀ w, w < a + header ∨ a + size ≤ w → m.word w = h.mem.word w)
    (hbins : m.bins = h.mem.bins) : Sound { h with mem := m } pieces :=
  hs.update (hs.laid.write hused.1 hused.2 hwords hbins) hs.inUse rfl

theorem Sound.usable (hs : Sound h pieces) (hused : UsedIn thHeapBase pieces a size) :
    h.mallocUsableSize (a + header) = size - header ∧ minBlock ≤ size := by
  have hread := (hs.laid.tagged.read hs.laid.shaped (fun _ _ => rfl) hused.1).2.1
  have hshape := (hs.laid.shaped _ (mem_of_mem_lay hused.1)).resolve_left
    (fun heq => hused.2 (congrArg Piece.size heq))
  have hne : a + header ≠ 0 := by simp [header]
  refine ⟨?_, hshape.1⟩
  rw [Heap.mallocUsableSize, if_neg hne, Nat.add_sub_cancel, hread]

theorem keeps_calloc (hkept : Kept s pieces) (count size : Nat)
    (maps : Nat → Nat → Int) : Keeps config s (.calloc count size) maps := by
  have hge := (wanted_ge (count * size)).2.2
  by_cases hover : size ≠ 0 ∧ wrap (count * size) / size ≠ count
  · -- a product that wraps is larger than the heap
    have hlarge : wordRange ≤ count * size := by
      by_contra hlt
      rw [wrap, Nat.mod_eq_of_lt (Nat.lt_of_not_le hlt),
        Nat.mul_div_cancel _ (Nat.pos_of_ne_zero hover.1)] at hover
      exact hover.2 rfl
    have hact : s.heap.act config maps (.calloc count size) = some (s.heap, 0) := by
      rw [Heap.act, Heap.calloc]
      simp only [hover, ne_eq, not_false_eq_true, and_self, if_true]
    have hnone : NoFit pieces (wanted (count * size)) := by
      apply hkept.sound.noFit
      simp only [thHeapLimit, wordRange, header] at hlarge hge ⊢
      omega
    have hallocated : Allocated s.heap pieces (wanted (count * size)) (wanted (count * size))
        (s.heap, 0) := by
      refine ⟨pieces, hkept.sound, ?_, .inl ⟨rfl, hnone, fun b s => Iff.rfl⟩⟩
      rw [grown_eq_nil rfl, append_nil]
    exact hallocated.keeps hkept hallocated.dvd hge hact rfl rfl
  · have htotal : wrap (count * size) = count * size := by
      by_cases hzero : size = 0
      · rw [hzero, Nat.mul_zero]
        rfl
      · have hdiv : wrap (count * size) / size = count := by
          by_contra hne
          exact hover ⟨hzero, hne⟩
        have hle : wrap (count * size) ≤ count * size := Nat.mod_le _ _
        have hback := Nat.div_mul_le_self (wrap (count * size)) size
        rw [hdiv] at hback
        omega
    obtain ⟨⟨g, p⟩, hout, hallocated⟩ := hkept.sound.allocate config maps (count * size)
    have hact : s.heap.act config maps (.calloc count size)
        = some (if p = 0 then g else { g with mem := g.mem.zero p (count * size) }, p) := by
      rw [Heap.act, Heap.calloc]
      simp only
      rw [if_neg hover, htotal, Heap.malloc, hout, Option.bind_eq_bind, Option.bind_some]
    have hdvd := hallocated.dvd
    have hzeroed : Allocated s.heap pieces (wanted (count * size)) (wanted (count * size))
        (if p = 0 then g else { g with mem := g.mem.zero p (count * size) }, p) := by
      obtain ⟨pieces', hsound, harenas, hcases⟩ := hallocated
      rcases hcases with ⟨hzero, hnone⟩ | ⟨a, taken, hptr, hle, hfresh, hblocks⟩
      · have hzero : p = 0 := hzero
        rw [if_pos hzero]
        exact ⟨pieces', hsound, harenas, .inl ⟨hzero, hnone⟩⟩
      · have hptr : p = a + header := hptr
        have hne : p ≠ 0 := by
          simp only [header] at hptr
          omega
        rw [if_neg hne]
        have hused := (hblocks a taken).mpr (.inr ⟨rfl, rfl⟩)
        refine ⟨pieces', hsound.write hused ?_ rfl, harenas,
          .inr ⟨a, taken, hptr, hle, hfresh, hblocks⟩⟩
        intro w hw
        simp only [Mem.zero]
        rw [if_neg]
        omega
    exact hzeroed.keeps hkept hdvd hge hact rfl rfl

theorem sum_lt {alignment : Nat} (halignment : alignment ≤ maxRequest) (hn : n ≤ maxRequest) :
    wanted n + alignment + minBlock < wordRange := by
  have hle := wanted_le hn
  simp only [maxRequest, minBlock, header, wordRange] at hle halignment ⊢
  omega

theorem keeps_posixMemalign (hkept : Kept s pieces) {alignment : Nat}
    (halloc : 8 ≤ alignment → alignment &&& (alignment - 1) = 0 →
      ∃ out, s.heap.allocateAligned config maps alignment n = some out
        ∧ Allocated s.heap pieces (alignedNeed alignment n) (wanted n) out ∧ alignment ∣ out.2) :
    Keeps config s (.posixMemalign alignment n) maps := by
  by_cases hrefused : alignment < 8 ∨ alignment &&& (alignment - 1) ≠ 0
  · have hact : s.heap.act config maps (.posixMemalign alignment n) = some (s.heap, 0) := by
      rw [Heap.act, Heap.posixMemalign, if_pos hrefused]
      rfl
    refine keeps_of hact hkept.sound ?_ hkept.held ?_
    · rw [grown_eq_nil rfl, append_nil, hkept.arenas]
    · intro _ need hneed
      rw [needed, if_pos hrefused] at hneed
      cases hneed
  · have hneed : needed (.posixMemalign alignment n) = some (alignedNeed alignment n) :=
      if_neg hrefused
    obtain ⟨hlow, hand⟩ := not_or.mp hrefused
    obtain ⟨out, hout, hallocated, hdvd⟩ := halloc (Nat.le_of_not_lt hlow) (not_not.mp hand)
    have hact : s.heap.act config maps (.posixMemalign alignment n) = some out := by
      rw [Heap.act, Heap.posixMemalign, if_neg hrefused, hout]
      rfl
    exact hallocated.keeps hkept hdvd (wanted_ge n).2.2 hact hneed rfl

theorem Kept.release (hkept : Kept s pieces) {l : Live} (hmem : l ∈ s.live) :
    ∃ pieces', Sound (s.heap.free l.ptr) pieces'
      ∧ arenasFrom thHeapBase thHeapBase pieces'
          = s.arenas ++ Program.grown s.heap (s.heap.free l.ptr)
      ∧ Held (Program.drop s.live l.ptr) (UsedIn thHeapBase pieces') := by
  obtain ⟨a, size, hptr, hused, -⟩ := hkept.held.block l hmem
  obtain ⟨pieces', hsound, htaken, hheld, -⟩ := hkept.sound.release hused
  have hfree : s.heap.free l.ptr = s.heap.release (a + header) := by
    rw [Heap.free, hptr, if_neg (by simp [header])]
  rw [hfree]
  refine ⟨pieces', hsound, ?_, ?_⟩
  · rw [grown_eq_nil hheld, append_nil, ← hkept.arenas, htaken.arenas]
  · rw [hptr]
    exact hkept.held.drop htaken.without

theorem keeps_free (hkept : Kept s pieces)
    (hlive : p = 0 ∨ ∃ l ∈ s.live, l.ptr = p) (maps : Nat → Nat → Int) :
    Keeps config s (.free p) maps := by
  have hnothing : ∀ pieces',
      (0 = 0 → ∀ need, needed (.free p) = some need → NoFit pieces' need) := by
    intro pieces' _ need hneed
    cases hneed
  rcases hlive with rfl | ⟨l, hmem, rfl⟩
  · have hact : s.heap.act config maps (.free 0) = some (s.heap, 0) := rfl
    refine keeps_of hact hkept.sound ?_ ?_ (hnothing pieces)
    · rw [grown_eq_nil rfl, append_nil, hkept.arenas]
    · rw [Program.held, hkept.held.drop_null]
      exact hkept.held
  · obtain ⟨pieces', hsound, harenas, hheld⟩ := hkept.release hmem
    exact keeps_of rfl hsound harenas hheld (hnothing pieces')

theorem Held.resize (hl : Held live (UsedIn thHeapBase pieces))
    (hused : UsedIn thHeapBase pieces a size) (hshaped : ∀ x ∈ pieces, x.Shaped) {requested : Nat} (hsize : requested + header ≤ size) :
    Held (Program.hold (Program.drop live (a + header)) (a + header) requested align)
      (UsedIn thHeapBase pieces) := by
  have hdropped : Held _ fun b s => UsedIn thHeapBase pieces b s ∧ b ≠ a :=
    hl.drop fun b s => Iff.rfl
  refine @Held.hold _ a size _ _ hdropped ?_ ?_ _ _ hsize ?_
  rotate_left 2
  · exact Nat.dvd_add (dvd_of_mem_placed align_dvd_base hshaped hused.1) (Nat.dvd_refl _)
  · intro s hs
    exact hs.2 rfl
  · intro b s
    constructor
    · intro hb
      by_cases heq : b = a
      · subst heq
        refine .inr ⟨rfl, ?_⟩
        have h1 : Piece.extent ⟨s, true⟩ = s := if_neg hb.2
        have h2 : Piece.extent ⟨size, true⟩ = size := if_neg hused.2
        have hpos := hb.2
        have hpos' := hused.2
        rcases apart_of_mem_lay hb.1 hused.1 with ⟨-, hsame⟩ | hlt | hlt
        · exact congrArg Piece.size hsame
        · omega
        · omega
      · exact .inl ⟨hb, heq⟩
    · rintro (⟨hb, -⟩ | ⟨rfl, rfl⟩)
      · exact hb
      · exact hused

theorem keeps_moved (hkept : Kept s pieces)
    (hused : UsedIn thHeapBase pieces a size) (hn : n ≠ 0) (hlarge : size - header < n) :
    Keeps config s (.realloc (a + header) n) maps := by
  obtain ⟨husable, hmin⟩ := hkept.sound.usable hused
  obtain ⟨⟨g, out⟩, hout, hallocated⟩ := hkept.sound.allocate config maps n
  have hne : a + header ≠ 0 := by simp [header]
  have hneed : needed (.realloc (a + header) n) = some (wanted n) := by
    rw [needed, if_neg fun h => hn h.2]
  have hheld : Program.held s.live out (.realloc (a + header) n)
      = if out = 0 then s.live
        else Program.hold (Program.drop s.live (a + header)) out n align := by
    rw [Program.held]
    apply if_congr _ rfl rfl
    tauto
  have hact : s.heap.act config maps (.realloc (a + header) n)
      = some (if out = 0 then (g, 0) else
          (({ g with mem := g.mem.copy out (a + header) (size - header) } : Heap).free (a + header),
            out)) := by
    rw [Heap.act, Heap.realloc, if_neg hne, if_neg hn, husable]
    simp only
    rw [if_neg (Nat.not_le_of_lt hlarge), Heap.malloc, hout, Option.bind_eq_bind, Option.bind_some]
    exact (apply_ite some _ _ _).symm
  have hwant := (wanted_ge n).2.2
  have hdvd := hallocated.dvd
  obtain ⟨grownPieces, hsound, harenas, ⟨hzero, hnone, hsame⟩ |
    ⟨b, taken, hptr, htaken, hfresh, hblocks⟩⟩ := hallocated
  · have hzero : out = 0 := hzero
    rw [if_pos hzero] at hact
    refine keeps_of hact hsound ?_ ?_ ?_
    · rw [harenas, hkept.arenas]
    · rw [← hzero, hheld, if_pos hzero]
      exact hkept.held.iff hsame
    · intro _ need hn'
      rw [hneed, Option.some.injEq] at hn'
      exact hn' ▸ hnone
  · have hptr : out = b + header := hptr
    have hout : out ≠ 0 := by
      simp only [header] at hptr
      omega
    rw [if_neg hout] at hact
    -- the copy goes into the new block
    have hnew := (hblocks b taken).mpr (.inr ⟨rfl, rfl⟩)
    have hcopied := hsound.write (m := g.mem.copy out (a + header) (size - header)) hnew (by
      intro w hw
      simp only [Mem.copy]
      rw [if_neg]
      simp only [header] at *
      omega) rfl
    obtain ⟨pieces', hfinal, hfreed, hheldPages, hnext⟩ :=
      hcopied.release ((hblocks a size).mpr (.inl hused))
    have hfree : ({ g with
          mem := g.mem.copy out (a + header) (size - header) } : Heap).free (a + header)
        = ({ g with mem := g.mem.copy out (a + header) (size - header) } : Heap).release
          (a + header) := if_neg hne
    rw [hfree] at hact
    have hother : b ≠ a := by
      rintro rfl
      exact hfresh size hused
    refine keeps_of hact hfinal ?_ ?_ (fun hzero => absurd hzero hout)
    · rw [← hfreed.arenas, harenas, hkept.arenas, Program.grown, Program.grown, hheldPages, hnext]
    · rw [hheld, if_neg hout, hptr]
      rw [hptr] at hdvd
      have hdropped : Held _ fun c s => UsedIn thHeapBase pieces c s ∧ c ≠ a :=
        hkept.held.drop fun c s => Iff.rfl
      refine @Held.hold _ b taken _ _ hdropped ?_ ?_ _ _ ?_ ?_
      · intro s hs
        exact hfresh s hs.1
      · intro c s
        rw [hfreed.without, hblocks]
        constructor
        · rintro ⟨hc | hc, hne⟩
          · exact .inl ⟨hc, hne⟩
          · exact .inr hc
        · rintro (hc | ⟨rfl, rfl⟩)
          · exact ⟨.inl hc.1, hc.2⟩
          · exact ⟨.inr ⟨rfl, rfl⟩, hother⟩
      · exact Nat.le_trans hwant htaken
      · exact hdvd

theorem keeps_realloc (hkept : Kept s pieces)
    (hlive : p = 0 ∨ ∃ l ∈ s.live, l.ptr = p) (n : Nat) (maps : Nat → Nat → Int) :
    Keeps config s (.realloc p n) maps := by
  rcases hlive with rfl | ⟨l, hmem, rfl⟩
  · -- a null pointer: `malloc`
    obtain ⟨out, hout, hallocated⟩ := hkept.sound.allocate config maps n
    have hact : s.heap.act config maps (.realloc 0 n) = some out := hout
    have hneed : needed (.realloc 0 n) = some (wanted n) := by
      rw [needed, if_neg fun h => h.1 rfl]
    apply hallocated.keeps hkept hallocated.dvd (wanted_ge n).2.2 hact hneed
    rw [Program.held, hkept.held.drop_null]
    split
    · rename_i hzero
      rw [Program.hold, if_pos hzero.1]
    · rfl
  · obtain ⟨a, size, hptr, hused, -⟩ := hkept.held.block l hmem
    have hne : l.ptr ≠ 0 := by simp [hptr, header]
    obtain ⟨husable, hmin⟩ := hkept.sound.usable hused
    by_cases hn : n = 0
    · -- a size of nothing: `free`
      have hact : s.heap.act config maps (.realloc l.ptr n) = some (s.heap.free l.ptr, 0) := by
        rw [Heap.act, Heap.realloc, if_neg hne, if_pos hn]
      obtain ⟨pieces', hsound, harenas, hheld⟩ := hkept.release hmem
      refine keeps_of hact hsound harenas ?_ ?_
      · rw [Program.held, if_neg (by simp [hn]), Program.hold, if_pos rfl]
        exact hheld
      · intro _ need hneed
        rw [needed, if_pos ⟨hne, hn⟩] at hneed
        cases hneed
    · by_cases hfits : n ≤ size - header
      · -- the block is large enough
        have hact : s.heap.act config maps (.realloc l.ptr n) = some (s.heap, l.ptr) := by
          rw [Heap.act, Heap.realloc, if_neg hne, if_neg hn, hptr, husable]
          exact if_pos hfits
        refine keeps_of hact hkept.sound ?_ ?_ (fun hzero => absurd hzero hne)
        · rw [grown_eq_nil rfl, append_nil, hkept.arenas]
        · rw [Program.held, if_neg (fun h => hne h.1), hptr]
          apply hkept.held.resize hused hkept.sound.laid.shaped
          simp only [header, minBlock] at hfits hmin ⊢
          omega
      · rw [hptr]
        exact keeps_moved hkept hused hn (Nat.lt_of_not_le hfits)

theorem keeps_write (hkept : Kept s pieces) {address value : Nat} {l : Live}
    (hmem : l ∈ s.live) (hlow : l.ptr ≤ address)
    (hhigh : address < l.ptr + s.heap.mallocUsableSize l.ptr) (maps : Nat → Nat → Int) :
    Keeps config s (.write address value) maps := by
  obtain ⟨a, size, hptr, hused, -⟩ := hkept.held.block l hmem
  obtain ⟨husable, hmin⟩ := hkept.sound.usable hused
  rw [hptr] at hlow hhigh
  rw [husable] at hhigh
  have hact : s.heap.act config maps (.write address value)
      = some ({ s.heap with mem := s.heap.mem.put address value }, 0) := rfl
  have hsound := hkept.sound.write (m := s.heap.mem.put address value) hused (by
    intro w hw
    rw [Mem.put_word, if_neg]
    simp only [header, minBlock] at *
    omega) rfl
  refine keeps_of hact hsound ?_ hkept.held ?_
  · simp only [Program.grown, if_true, append_nil]
    exact hkept.arenas
  · intro _ need hneed
    cases hneed

theorem Kept.step (hkept : Kept s pieces) (action : HeapCall)
    (maps : Nat → Nat → Int) (hallowed : s.Allowed action) : Keeps config s action maps := by
  cases action with
  | malloc n => exact keeps_malloc hkept n maps
  | calloc count size => exact keeps_calloc hkept count size maps
  | realloc p n => exact keeps_realloc hkept hallowed.2 n maps
  | free p => exact keeps_free hkept hallowed maps
  | posixMemalign alignment size =>
    exact keeps_posixMemalign hkept fun hlow hand =>
      hkept.sound.allocateAligned config maps hlow hand (.inr (sum_lt hallowed.1 hallowed.2))
  | write address value =>
    obtain ⟨-, l, hmem, hlow, hhigh⟩ := hallowed
    exact keeps_write hkept hmem hlow hhigh maps

theorem kept_initial (hs : s.Initial) : Kept s [] := by
  obtain ⟨hlive, harenas, hbins, hready, hheld, hinUse⟩ := hs
  refine ⟨⟨⟨by simp, trivial, isChain_nil, .inl rfl, ?_⟩, hinUse, ?_, by decide,
    fun _ => rfl, ?_,
    ?_⟩, harenas.symm, ?_⟩
  · intro i _
    refine ⟨[], ?_, nodup_nil, ?_⟩
    · rw [hbins]
      rfl
    · simp [FreeIn]
  · rw [hheld]
    rfl
  · intro h
    rw [hready] at h
    cases h
  · intro h
    rw [hready] at h
    cases h
  · rw [hlive]
    exact ⟨by simp, fun a size hused => absurd hused.1 (by simp), nodup_nil⟩

theorem kept_of_reachable (hs : (Program.system config).Reachable s) : ∃ pieces, Kept s pieces := by
  apply hs.invariant (I := fun s => ∃ pieces, Kept s pieces)
  · intro s hs
    exact ⟨[], kept_initial hs⟩
  · intro s event s' ⟨pieces, hkept⟩ ⟨hallowed, hstep⟩
    obtain ⟨s'', p, pieces', hstep', -, hkept', -⟩ := hkept.step event.1 event.2 hallowed
    have heq : Program.step config s event = some s'' := hstep'
    rw [hstep] at heq
    exact ⟨pieces', Option.some.inj heq ▸ hkept'⟩

/-! ### What it says of the program's blocks -/

/-- The tags, the bins and the counters agree with the blocks the program holds. -/
structure Represents (s : Program) (pieces : List Piece) : Prop where
  /-- walking by the sizes in the tags from the base of the heap meets the pieces -/
  tagged : Tagged s.heap.mem 0 thHeapBase pieces
  shaped : ∀ x ∈ pieces, x.Shaped
  /-- the fences cut them into the arenas that `grow` made, and nothing follows the last one -/
  arenas : arenasFrom thHeapBase thHeapBase pieces = s.arenas
  fenced : pieces = [] ∨ ∃ rest, pieces = rest ++ [Piece.fence]
  joined : pieces.IsChain Piece.Joined
  /-- every free block is in one bin, once, and it is the bin of its size -/
  binned : Binned s.heap.mem (FreeIn thHeapBase pieces)
  block : ∀ l ∈ s.live, header ≤ l.ptr ∧ l.alignment ∣ l.ptr
    ∧ UsedIn thHeapBase pieces (l.ptr - header) (s.heap.mem.blockSize (l.ptr - header))
    ∧ l.requested + header ≤ s.heap.mem.blockSize (l.ptr - header)
  holder : ∀ a size, UsedIn thHeapBase pieces a size → ∃ l ∈ s.live, l.ptr = a + header
  disjoint : s.live.Pairwise fun l l' =>
    l.ptr + l.requested ≤ l'.ptr ∨ l'.ptr + l'.requested ≤ l.ptr
  inUse : s.heap.inUse = (s.live.map fun l => s.heap.mem.blockSize (l.ptr - header)).sum

/-- The addresses of the blocks in use. -/
def usedAt (start : Nat) (pieces : List Piece) : List Nat :=
  ((lay Piece.extent start pieces).filter fun q => q.2.used && q.2.size != 0).map Prod.fst

theorem mem_usedAt {start : Nat} :
    a ∈ usedAt start pieces ↔ ∃ size, UsedIn start pieces a size := by
  simp only [usedAt, UsedIn, mem_map, mem_filter, Bool.and_eq_true, bne_iff_ne, ne_eq,
    Prod.exists, exists_and_right, exists_eq_right]
  constructor
  · rintro ⟨⟨size, used⟩, hmem, hused, hne⟩
    have hused : used = true := hused
    subst hused
    exact ⟨size, hmem, hne⟩
  · rintro ⟨size, hmem, hne⟩
    exact ⟨⟨size, true⟩, hmem, rfl, hne⟩

theorem nodup_usedAt {start : Nat} : (usedAt start pieces).Nodup := by
  induction pieces generalizing start with
  | nil => exact nodup_nil
  | cons x rest ih =>
    have hrest := @ih (start + x.extent)
    unfold usedAt at hrest ⊢
    rw [lay_cons, filter_cons]
    split
    · rename_i hused
      rw [map_cons, nodup_cons]
      refine ⟨?_, hrest⟩
      intro hmem
      obtain ⟨size, hmem⟩ := mem_usedAt.mp hmem
      have hwithin := hmem.within.1
      have hpos : x.extent ≠ 0 := by
        simp only [Bool.and_eq_true, bne_iff_ne, ne_eq] at hused
        rw [Piece.extent, if_neg hused.2]
        exact hused.2
      omega
    · exact hrest

theorem sum_usedAt {start : Nat} {size : Nat → Nat}
    (hsize : ∀ a x, (a, x) ∈ lay Piece.extent start pieces → size a = x.size) :
    ((usedAt start pieces).map size).sum = usedSize pieces := by
  induction pieces generalizing start with
  | nil => rfl
  | cons x rest ih =>
    have hrest := @ih (start + x.extent) fun a y hmem =>
      hsize a y (mem_cons_of_mem _ hmem)
    have hx := hsize start x mem_cons_self
    unfold usedAt at hrest ⊢
    rw [lay_cons, filter_cons, usedSize_cons]
    by_cases hused : x.used = true
    · by_cases hzero : x.size = 0
      · rw [if_neg (by simp [hzero]), hrest, if_pos hused, hzero, Nat.zero_add]
      · rw [if_pos (by simp [hused, hzero]), if_pos hused, map_cons, map_cons,
          sum_cons, hrest, hx]
    · rw [if_neg (by simp [hused]), hrest, if_neg hused, Nat.zero_add]

theorem Kept.represents (hkept : Kept s pieces) : Represents s pieces := by
  have hread : ∀ a x, (a, x) ∈ lay Piece.extent thHeapBase pieces →
      s.heap.mem.blockSize a = x.size :=
    fun a x hmem =>
      (hkept.sound.laid.tagged.read hkept.sound.laid.shaped (fun _ _ => rfl) hmem).2.1
  have hblock : ∀ l ∈ s.live, header ≤ l.ptr ∧ l.alignment ∣ l.ptr
      ∧ UsedIn thHeapBase pieces (l.ptr - header) (s.heap.mem.blockSize (l.ptr - header))
      ∧ l.requested + header ≤ s.heap.mem.blockSize (l.ptr - header) := by
    intro l hmem
    obtain ⟨a, size, hptr, hused, hsize, hdvd⟩ := hkept.held.block l hmem
    have haddr : l.ptr - header = a := by omega
    rw [haddr, hread a _ hused.1]
    exact ⟨by omega, hdvd, hused, hsize⟩
  refine ⟨hkept.sound.laid.tagged, hkept.sound.laid.shaped, hkept.arenas, hkept.sound.laid.fenced,
    hkept.sound.laid.joined, hkept.sound.laid.binned, hblock, hkept.held.holder, ?_, ?_⟩
  · have hdistinct := pairwise_map.mp hkept.held.nodup
    apply hdistinct.imp_of_mem
    intro l l' hl hl' hne
    obtain ⟨hlow, -, hused, hsize⟩ := hblock l hl
    obtain ⟨hlow', -, hused', hsize'⟩ := hblock l' hl'
    have hextent := hused.extent_eq
    have hextent' := hused'.extent_eq
    rcases apart_of_mem_lay hused.1 hused'.1 with ⟨heq, -⟩ | hlt | hlt
    · exact absurd (by omega) hne
    · left
      omega
    · right
      omega
  · rw [hkept.sound.inUse, ← sum_usedAt hread]
    have hperm : (s.live.map fun l => l.ptr - header).Perm (usedAt thHeapBase pieces) := by
      apply (perm_ext_iff_of_nodup ?_ nodup_usedAt).mpr
      · intro a
        rw [mem_usedAt, mem_map]
        constructor
        · rintro ⟨l, hl, rfl⟩
          exact ⟨_, (hblock l hl).2.2.1⟩
        · rintro ⟨size, hused⟩
          obtain ⟨l, hl, hptr⟩ := hkept.held.holder a size hused
          exact ⟨l, hl, by omega⟩
      · apply pairwise_map.mpr
        apply (pairwise_map.mp hkept.held.nodup).imp_of_mem
        intro l l' hl hl' hne heq
        have hlow := (hblock l hl).1
        have hlow' := (hblock l' hl').1
        exact hne (by omega)
    have hsum := (hperm.map fun a => s.heap.mem.blockSize a).sum_eq
    rw [map_map] at hsum
    exact hsum.symm

/-- **The heap is sound over every run**: whatever the program asked for and `th_map_new` answered,
the tags lay out arenas of blocks, no two neighbours are both free, the bins hold the free blocks,
and the blocks held are the blocks in use.  Every call the program may make next has an outcome,
after which this holds again; and a call that answers `NULL` has left no free block of the size it
needed. -/
theorem heap_representation (config : Config) {s : Program}
    (h : (Program.system config).Reachable s) :
    ∃ pieces, Represents s pieces ∧ ∀ action maps, s.Allowed action →
      ∃ s' p pieces', Program.step config s (action, maps) = some s'
        ∧ s.heap.act config maps action = some (s'.heap, p) ∧ Represents s' pieces'
        ∧ (p = 0 → ∀ need, needed action = some need → NoFit pieces' need) := by
  obtain ⟨pieces, hkept⟩ := kept_of_reachable h
  refine ⟨pieces, hkept.represents, ?_⟩
  intro action maps hallowed
  obtain ⟨s', p, pieces', hstep, hact, hkept', hnone⟩ :=
    @Kept.step s pieces config hkept action maps hallowed
  exact ⟨s', p, pieces', hstep, hact, hkept'.represents, hnone⟩

/-- The heap the first recipe of the launcher gives its program. -/
def launcherConfig : Config := ⟨512, 64, by decide⟩

/-- A program that has not called the heap yet. -/
def freshProgram : Program where
  heap := {
    mem := { word := fun _ => 0, bins := fun _ => 0 }
    nextVaddr := 0
    pagesHeld := 0
    inUse := 0
    arenaPages := 0
    pageCeiling := 0
    ready := false
    lastError := 0 }
  live := []
  arenas := []

/-- The program after some calls for which every object is mapped. -/
def ranThrough (actions : List HeapCall) : Option Program :=
  System.exec (System.guarded (fun s event => s.Allowed event.1) (Program.step launcherConfig))
    (actions.map fun action => (action, fun _ _ => 0)) freshProgram

/-- A run that carves an aligned block out of the middle, moves one and frees one; then an object
is refused, and no block is large enough. -/
theorem heap_representation_sample :
    ∃ s, ranThrough [.malloc 100, .posixMemalign 64 200, .realloc 0x30000010 200, .calloc 3 5,
        .free 0x300000C0] = some s
      ∧ s.live = [⟨0x30000010, 15, 16⟩, ⟨0x300001F0, 200, 16⟩] ∧ s.arenas = [(0x30000000, 0x40000)]
      ∧ ∃ pieces s' pieces', Represents s pieces
        ∧ Program.step launcherConfig s (.malloc 300000, fun _ _ => 3) = some s'
        ∧ Represents s' pieces' ∧ NoFit pieces' (wanted 300000) := by
  have hrun : (ranThrough [.malloc 100, .posixMemalign 64 200, .realloc 0x30000010 200, .calloc 3 5,
      .free 0x300000C0]).map (fun s => (s.live, s.arenas,
        (s.heap.malloc launcherConfig (fun _ _ => 3) 300000).map (·.2)))
      = some ([⟨0x30000010, 15, 16⟩, ⟨0x300001F0, 200, 16⟩], [(0x30000000, 0x40000)], some 0) := by
    decide +kernel
  obtain ⟨s, hs, hfacts⟩ := Option.map_eq_some_iff.mp hrun
  simp only [Prod.mk.injEq] at hfacts
  obtain ⟨hlive, harenas, hnull⟩ := hfacts
  have hreachable : (Program.system launcherConfig).Reachable s :=
    System.reachable_within_of_guarded (.init ⟨rfl, rfl, rfl, rfl, rfl, rfl⟩) hs
  obtain ⟨pieces, hrepresents, hnext⟩ := heap_representation launcherConfig hreachable
  obtain ⟨s', p, pieces', hstep, hact, hrepresents', hnone⟩ :=
    hnext (.malloc 300000) (fun _ _ => 3) (show 300000 ≤ maxRequest by decide)
  have hzero : p = 0 := by
    rw [show s.heap.malloc launcherConfig (fun _ _ => 3) 300000 = some (s'.heap, p) from hact]
      at hnull
    exact Option.some.inj hnull
  exact ⟨s, hs, hlive, harenas, pieces, s', pieces', hrepresents, hstep, hrepresents',
    hnone hzero _ rfl⟩

/-! ### A heap of which nothing is held -/

end Thalyx.Native.Heap
