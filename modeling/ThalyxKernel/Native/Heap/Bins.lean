/-
The bins of the native heap.

A bin is a doubly linked list of free blocks, threaded through the words after their
headers.  `Binned` says that the bins hold a set of free blocks, each in the one bin of its
size; `bin_insert` and `bin_remove` add a block to that set and take one out, and write
nothing but links of blocks of the set.
-/
import ThalyxKernel.Native.Heap.Pieces

namespace Thalyx.Native.Heap

open Tiling TwoWay List Function

/-! ### Size classes -/

theorem binFrom_le (size left index bound : Nat) :
    index ≤ binFrom size left index bound ∧ binFrom size left index bound ≤ index + left := by
  induction left generalizing index bound with
  | zero => exact ⟨Nat.le_refl _, Nat.le_refl _⟩
  | succ left ih =>
    unfold binFrom
    split
    · have := ih (index + 1) (bound * 2)
      omega
    · omega

theorem binOf_lt (size : Nat) : binOf size < numBins := by
  have := (binFrom_le size (numBins - 1) 0 32).2
  unfold binOf
  simp only [numBins] at this ⊢
  omega

theorem binFrom_mono {size size' : Nat} (h : size ≤ size') (left index bound : Nat) :
    binFrom size left index bound ≤ binFrom size' left index bound := by
  induction left generalizing index bound with
  | zero => exact Nat.le_refl _
  | succ left ih =>
    have hle := (binFrom_le size' left (index + 1) (bound * 2)).1
    unfold binFrom
    split
    · rw [if_pos (by omega)]
      exact ih _ _
    · split
      · omega
      · exact Nat.le_refl _

theorem binOf_mono {size size' : Nat} (h : size ≤ size') : binOf size ≤ binOf size' :=
  binFrom_mono h _ _ _

/-! ### What the bins hold -/

/-- A bin is the list of `nodes`, which are the free blocks of its sizes, each once. -/
structure BinList (m : Mem) (free : Nat → Nat → Prop) (i : Nat) (nodes : List Nat) : Prop where
  linked : Linked 0 m.next m.prev 0 (m.bins i) nodes
  nodup : nodes.Nodup
  holds : ∀ a, a ∈ nodes ↔ ∃ size, free a size ∧ binOf size = i

/-- The bins hold the free blocks of `free`, each once and in the bin of its size. -/
def Binned (m : Mem) (free : Nat → Nat → Prop) : Prop :=
  ∀ i < numBins, ∃ nodes, BinList m free i nodes

/-- Blocks at multiples of the alignment, one at an address. -/
structure Scattered (free : Nat → Nat → Prop) : Prop where
  aligned : ∀ {a size}, free a size → align ∣ a
  ne_null : ∀ {a size}, free a size → a ≠ 0
  unique : ∀ {a size size'}, free a size → free a size' → size = size'

/-- A word that is no link of a block of the set. -/
def Apart (free : Nat → Nat → Prop) (w : Nat) : Prop :=
  ∀ a size, free a size → w ≠ a + 16 ∧ w ≠ a + 24

variable {m m' : Mem} {free free' : Nat → Nat → Prop} {a size : Nat}

theorem Apart.mono {w : Nat} (h : Apart free w) (hle : ∀ a size, free' a size → free a size) :
    Apart free' w :=
  fun a size hfree => h a size (hle a size hfree)

theorem Scattered.mono (h : Scattered free) (hle : ∀ a size, free' a size → free a size) :
    Scattered free' where
  aligned hfree := h.aligned (hle _ _ hfree)
  ne_null hfree := h.ne_null (hle _ _ hfree)
  unique hfree hfree' := h.unique (hle _ _ hfree) (hle _ _ hfree')

variable {b i : Nat}

theorem BinList.congr {nodes : List Nat} (h : BinList m free i nodes) (hbins : m'.bins i = m.bins i)
    (hlinks : ∀ a ∈ nodes, m'.next a = m.next a ∧ m'.prev a = m.prev a) :
    BinList m' free i nodes := by
  refine ⟨?_, h.nodup, h.holds⟩
  rw [hbins]
  apply h.linked.congr
  · intro a ha
    exact (hlinks a ha).1
  · intro a ha
    exact (hlinks a ha).2

theorem Binned.congr (h : Binned m free) (hbins : m'.bins = m.bins)
    (hlinks : ∀ a size, free a size → m'.next a = m.next a ∧ m'.prev a = m.prev a) :
    Binned m' free := by
  intro i hi
  obtain ⟨nodes, hlist⟩ := h i hi
  refine ⟨nodes, hlist.congr (congrFun hbins i) ?_⟩
  intro a ha
  obtain ⟨size, hfree, -⟩ := (hlist.holds a).mp ha
  exact hlinks a size hfree

theorem Binned.iff (h : Binned m free) (heq : ∀ a size, free' a size ↔ free a size) :
    Binned m free' := by
  have : free' = free := funext fun a => funext fun size => propext (heq a size)
  exact this ▸ h

/-! ### Taking a block out -/

@[simp] theorem Mem.put_word (m : Mem) (w value u : Nat) :
    (m.put w value).word u = if u = w then value else m.word u := by
  rw [Mem.put]
  exact update_apply _ _ _ _

@[simp] theorem Mem.put_bins (m : Mem) (w value : Nat) : (m.put w value).bins = m.bins := rfl

theorem Binned.put (h : Binned m free) {w : Nat} (hw : Apart free w) (value : Nat) :
    Binned (m.put w value) free := by
  refine h.congr rfl fun a size ha => ?_
  have hlink := hw a size ha
  constructor
  · rw [Mem.next, Mem.put_word, if_neg hlink.1.symm]
    rfl
  · rw [Mem.prev, Mem.put_word, if_neg hlink.2.symm]
    rfl

theorem binRemove_word (ha : align ∣ a) (hprev : align ∣ m.prev a) (w : Nat) :
    (m.binRemove a).word w = if m.next a ≠ 0 ∧ w = m.next a + 24 then m.prev a
      else if m.prev a ≠ 0 ∧ w = m.prev a + 16 then m.next a else m.word w := by
  simp only [align] at ha hprev
  simp only [Mem.binRemove, Mem.next, Mem.prev, Mem.setNext, Mem.setPrev] at hprev ⊢
  by_cases hp : m.word (a + 24) = 0
  · simp only [hp, if_true, ne_eq, not_true, false_and, if_false]
    by_cases hn : m.word (a + 16) = 0
    · simp [hn]
    · simp [hn]
  · have hback : a + 24 ≠ m.word (a + 24) + 16 := by omega
    have hown : (if a = m.word (a + 24) then m.word (a + 16) else m.word (a + 16))
        = m.word (a + 16) := by split <;> rfl
    simp only [hp, if_false, ne_eq, not_false_eq_true, true_and, Mem.put_word,
      Nat.add_right_cancel_iff,
      hown, if_neg hback]
    by_cases hn : m.word (a + 16) = 0
    · simp [hn]
    · simp [hn]

theorem binRemove_bins (m : Mem) (a i : Nat) :
    (m.binRemove a).bins i
      = if m.prev a = 0 ∧ i = binOf (m.blockSize a) then m.next a else m.bins i := by
  simp only [Mem.binRemove]
  by_cases hp : m.prev a = 0
  · simp only [hp, if_true, true_and]
    split <;> simp [Mem.setPrev, Mem.put, update_apply]
  · simp only [hp, if_false, false_and]
    split <;> simp [Mem.setPrev, Mem.setNext, Mem.put]

theorem binRemove_links (ha : align ∣ a) (hprev : align ∣ m.prev a)
    (hnext : align ∣ m.next a) (hb : align ∣ b) (hnull : b ≠ 0) :
    (m.binRemove a).next b = (if b = m.prev a then m.next a else m.next b)
      ∧ (m.binRemove a).prev b = (if b = m.next a then m.prev a else m.prev b) := by
  have hword := binRemove_word ha hprev
  simp only [align] at hprev hnext hb
  constructor
  · rw [Mem.next, hword, if_neg (by omega)]
    apply if_congr _ rfl rfl
    omega
  · rw [Mem.prev, hword]
    by_cases heq : b = m.next a
    · rw [if_pos heq, if_pos (by omega)]
    · rw [if_neg heq, if_neg (by omega), if_neg (by omega)]
      rfl

variable {after before : List Nat}

theorem BinList.next_mem
    (h : BinList m free i (before ++ a :: after)) : m.next a = 0 ∨ m.next a ∈ after := by
  rw [h.linked.next_eq]
  cases after with
  | nil => exact .inl rfl
  | cons b rest => exact .inr mem_cons_self

theorem BinList.prev_mem (h : BinList m free i (before ++ a :: after)) :
    (m.prev a = 0 ∧ before = []) ∨ (m.prev a ≠ 0 ∧ m.prev a ∈ before) := by
  rw [h.linked.prev_eq]
  cases before with
  | nil => exact .inl ⟨rfl, rfl⟩
  | cons b rest =>
    have hlast : (b :: rest).getLastD 0 ∈ b :: rest := by
      rw [getLastD_cons]
      exact getLastD_mem_cons
    exact .inr ⟨h.linked.ne_null _ (mem_append_left _ hlast), hlast⟩

theorem BinList.near (h : BinList m free i (before ++ a :: after)) (hb : b ∈ before ++ after) :
    ∃ s, (free b s ∧ b ≠ a) ∧ binOf s = i := by
  have hhere : a ∉ before ++ after := (List.nodup_middle.mp h.nodup).notMem
  have hmem : b ∈ before ++ a :: after := by
    simp only [mem_append, mem_cons] at hb ⊢
    tauto
  obtain ⟨s, hfree, hbin⟩ := (h.holds b).mp hmem
  refine ⟨s, ⟨hfree, ?_⟩, hbin⟩
  rintro rfl
  exact hhere hb

theorem BinList.remove
    (h : BinList m free (binOf size) (before ++ a :: after)) (hsize : m.blockSize a = size)
    (hlinks : ∀ b ∈ before ++ after,
      (m.binRemove a).next b = (if b = m.prev a then m.next a else m.next b)
        ∧ (m.binRemove a).prev b = (if b = m.next a then m.prev a else m.prev b)) :
    BinList (m.binRemove a) (fun b s => free b s ∧ b ≠ a) (binOf size) (before ++ after) := by
  refine ⟨?_, (List.nodup_middle.mp h.nodup).of_cons, ?_⟩
  · have hstart : (m.binRemove a).bins (binOf size)
        = if before = [] then m.next a else m.bins (binOf size) := by
      rw [binRemove_bins, hsize]
      apply if_congr _ rfl rfl
      rcases h.prev_mem with ⟨hzero, hnil⟩ | ⟨hne, hmem⟩
      · simp only [hzero, hnil, and_self]
      · simp only [hne, false_and, false_iff]
        exact ne_nil_of_mem hmem
    rw [hstart]
    apply h.linked.unlink
    · exact List.nodup_cons.mpr ⟨fun hzero => h.linked.ne_null 0 hzero rfl, h.nodup⟩
    · intro b hb
      exact (hlinks b hb).1
    · intro b hb
      exact (hlinks b hb).2
  · intro b
    constructor
    · exact h.near
    · intro ⟨s, ⟨hfree, hne⟩, hbin⟩
      have hmem := (h.holds b).mpr ⟨s, hfree, hbin⟩
      simp only [mem_append, mem_cons] at hmem ⊢
      tauto

theorem Binned.remove (h : Binned m free) (hfree : free a size) (hs : Scattered free)
    (hsize : m.blockSize a = size) :
    Binned (m.binRemove a) (fun b s => free b s ∧ b ≠ a)
      ∧ ∀ w, Apart (fun b s => free b s ∧ b ≠ a) w → (m.binRemove a).word w = m.word w := by
  obtain ⟨nodes, hlist⟩ := h _ (binOf_lt size)
  obtain ⟨before, after, rfl⟩ := append_of_mem ((hlist.holds a).mpr ⟨size, hfree, rfl⟩)
  have hprev : m.prev a = 0 ∨ m.prev a ∈ before ++ after :=
    hlist.prev_mem.imp And.left fun hmem => mem_append_left _ hmem.2
  have hnext : m.next a = 0 ∨ m.next a ∈ before ++ after :=
    hlist.next_mem.imp_right (mem_append_right _)
  have haligned : ∀ {b}, b = 0 ∨ b ∈ before ++ after → align ∣ b := by
    intro b hb
    rcases hb with rfl | hb
    · exact Nat.dvd_zero _
    · obtain ⟨s, hnear, -⟩ := hlist.near hb
      exact hs.aligned hnear.1
  have hlinks : ∀ b s, free b s →
      (m.binRemove a).next b = (if b = m.prev a then m.next a else m.next b)
        ∧ (m.binRemove a).prev b = (if b = m.next a then m.prev a else m.prev b) := by
    intro b s hb
    exact binRemove_links (hs.aligned hfree) (haligned hprev) (haligned hnext) (hs.aligned hb)
      (hs.ne_null hb)
  constructor
  · intro i hi
    by_cases hbin : i = binOf size
    · subst hbin
      refine ⟨before ++ after, hlist.remove hsize ?_⟩
      intro b hb
      obtain ⟨s, hnear, -⟩ := hlist.near hb
      exact hlinks b s hnear.1
    · obtain ⟨nodes, hother⟩ := h i hi
      -- a block of another bin is neither the block nor its neighbour
      have hfar : ∀ b s, free b s → binOf s = i → b ≠ a ∧ b ∉ before ++ after := by
        intro b s hb hbin'
        constructor
        · rintro rfl
          rw [hs.unique hb hfree] at hbin'
          exact hbin hbin'.symm
        · intro hmem
          obtain ⟨s', hnear, hbin''⟩ := hlist.near hmem
          rw [hs.unique hb hnear.1] at hbin'
          exact hbin (hbin'.symm.trans hbin'')
      refine ⟨nodes, ?_⟩
      have hsame : BinList (m.binRemove a) free i nodes := by
        apply hother.congr
        · rw [binRemove_bins, hsize, if_neg (fun heq => hbin heq.2)]
        · intro b hb
          obtain ⟨s, hb, hbin'⟩ := (hother.holds b).mp hb
          have hnear := (hfar b s hb hbin').2
          have hne := hs.ne_null hb
          rw [(hlinks b s hb).1, (hlinks b s hb).2, if_neg, if_neg]
          · exact ⟨rfl, rfl⟩
          · rintro rfl
            exact hnear (hnext.resolve_left hne)
          · rintro rfl
            exact hnear (hprev.resolve_left hne)
      refine ⟨hsame.linked, hsame.nodup, ?_⟩
      intro b
      rw [hsame.holds]
      constructor
      · intro ⟨s, hb, hbin'⟩
        exact ⟨s, ⟨hb, (hfar b s hb hbin').1⟩, hbin'⟩
      · intro ⟨s, hb, hbin'⟩
        exact ⟨s, hb.1, hbin'⟩
  · intro w hw
    rw [binRemove_word (hs.aligned hfree) (haligned hprev), if_neg, if_neg]
    · rintro ⟨hne, rfl⟩
      obtain ⟨s, hnear, -⟩ := hlist.near (hprev.resolve_left hne)
      exact (hw _ s hnear).1 rfl
    · rintro ⟨hne, rfl⟩
      obtain ⟨s, hnear, -⟩ := hlist.near (hnext.resolve_left hne)
      exact (hw _ s hnear).2 rfl

/-! ### Putting a block in -/

theorem binInsert_word (m : Mem) (a w : Nat) :
    (m.binInsert a).word w
      = if m.bins (binOf (m.blockSize a)) ≠ 0 ∧ w = m.bins (binOf (m.blockSize a)) + 24 then a
        else if w = a + 16 then m.bins (binOf (m.blockSize a))
        else if w = a + 24 then 0 else m.word w := by
  simp only [Mem.binInsert, Mem.setNext, Mem.setPrev, Mem.put_bins]
  by_cases hzero : m.bins (binOf (m.blockSize a)) = 0
  · simp only [hzero, if_true, Mem.put_word, ne_eq, not_true, false_and, if_false]
  · simp only [hzero, if_false, Mem.put_word, ne_eq, not_false_eq_true, true_and]

theorem binInsert_bins (m : Mem) (a i : Nat) :
    (m.binInsert a).bins i = if i = binOf (m.blockSize a) then a else m.bins i := by
  simp only [Mem.binInsert, Mem.setNext, Mem.setPrev, Mem.put_bins]
  by_cases hzero : m.bins (binOf (m.blockSize a)) = 0
  · simp only [hzero, if_true, update_apply, Mem.put_bins]
  · simp only [hzero, if_false, update_apply, Mem.put_bins]

theorem binInsert_links (ha : align ∣ a) (hb : align ∣ b) (hnull : b ≠ 0)
    (hhead : align ∣ m.bins (binOf (m.blockSize a))) :
    (m.binInsert a).next b = (if b = a then m.bins (binOf (m.blockSize a)) else m.next b)
      ∧ (m.binInsert a).prev b
        = if b = m.bins (binOf (m.blockSize a)) then a else if b = a then 0 else m.prev b := by
  simp only [align] at ha hb hhead
  rw [Mem.next, Mem.prev, binInsert_word, binInsert_word]
  constructor
  · rw [if_neg (by omega)]
    by_cases heq : b = a
    · rw [if_pos heq, if_pos (by omega)]
    · rw [if_neg heq, if_neg (by omega), if_neg (by omega)]
      rfl
  · by_cases hfirst : b = m.bins (binOf (m.blockSize a))
    · rw [if_pos hfirst, if_pos (by omega)]
    · rw [if_neg hfirst, if_neg (by omega), if_neg (by omega)]
      by_cases heq : b = a
      · rw [if_pos heq, if_pos (by omega)]
      · rw [if_neg heq, if_neg (by omega)]
        rfl

theorem Binned.insert (h : Binned m free) (hs : Scattered free) (hfresh : ∀ s, ¬ free a s)
    (ha : align ∣ a) (hnull : a ≠ 0) (hsize : m.blockSize a = size) :
    Binned (m.binInsert a) (fun b s => b = a ∧ s = size ∨ free b s)
      ∧ ∀ w, Apart (fun b s => b = a ∧ s = size ∨ free b s) w →
        (m.binInsert a).word w = m.word w := by
  obtain ⟨nodes, hlist⟩ := h _ (binOf_lt size)
  have hnot : a ∉ nodes := fun hmem => by
    obtain ⟨s, hfree, -⟩ := (hlist.holds a).mp hmem
    exact hfresh s hfree
  -- the first block of the bin is in the set, or there is none
  have hhead : m.bins (binOf size) = 0
      ∨ m.bins (binOf size) ∈ nodes ∧ ∃ s, free (m.bins (binOf size)) s ∧ binOf s = binOf size := by
    cases nodes with
    | nil => exact .inl hlist.linked
    | cons b rest =>
      have hfirst := hlist.linked.1
      exact .inr ⟨hfirst ▸ mem_cons_self, (hlist.holds _).mp (hfirst ▸ mem_cons_self)⟩
  have haligned : align ∣ m.bins (binOf (m.blockSize a)) := by
    rw [hsize]
    rcases hhead with hzero | ⟨-, s, hfree, -⟩
    · exact hzero ▸ Nat.dvd_zero _
    · exact hs.aligned hfree
  have hown := binInsert_links (m := m) ha ha hnull haligned
  have hlinks : ∀ b s, free b s → (m.binInsert a).next b = m.next b ∧ (m.binInsert a).prev b
      = if b = m.bins (binOf size) then a else m.prev b := by
    intro b s hb
    have hne : b ≠ a := fun heq => hfresh s (heq ▸ hb)
    have hboth := binInsert_links (m := m) ha (hs.aligned hb) (hs.ne_null hb) haligned
    rw [if_neg hne, if_neg hne, hsize] at hboth
    exact hboth
  rw [hsize] at hown
  constructor
  · intro i hi
    by_cases hbin : i = binOf size
    · subst hbin
      refine ⟨a :: nodes, ?_, List.nodup_cons.mpr ⟨hnot, hlist.nodup⟩, ?_⟩
      · rw [binInsert_bins, hsize, if_pos rfl]
        apply hlist.linked.push hnull hlist.nodup
        · rw [hown.1, if_pos rfl]
        · rw [hown.2, if_neg, if_pos rfl]
          intro heq
          rcases hhead with hzero | ⟨hmem, -⟩
          · exact hnull (heq.trans hzero)
          · exact hnot (heq ▸ hmem)
        · intro b hb
          obtain ⟨s, hfree, -⟩ := (hlist.holds b).mp hb
          exact (hlinks b s hfree).1
        · intro b hb
          obtain ⟨s, hfree, -⟩ := (hlist.holds b).mp hb
          exact (hlinks b s hfree).2
      · intro b
        rw [mem_cons, hlist.holds]
        constructor
        · intro hb
          rcases hb with rfl | ⟨s, hfree, hbin⟩
          · exact ⟨size, .inl ⟨rfl, rfl⟩, rfl⟩
          · exact ⟨s, .inr hfree, hbin⟩
        · intro ⟨s, hb, hbin⟩
          rcases hb with ⟨rfl, -⟩ | hfree
          · exact .inl rfl
          · exact .inr ⟨s, hfree, hbin⟩
    · obtain ⟨nodes', hother⟩ := h i hi
      have hsame : BinList (m.binInsert a) free i nodes' := by
        apply hother.congr
        · rw [binInsert_bins, hsize, if_neg hbin]
        · intro b hb
          obtain ⟨s, hfree, hbin'⟩ := (hother.holds b).mp hb
          rw [(hlinks b s hfree).1, (hlinks b s hfree).2, if_neg]
          · exact ⟨rfl, rfl⟩
          · rintro rfl
            rcases hhead with hzero | ⟨-, s', hfree', hbin''⟩
            · exact hs.ne_null hfree hzero
            · rw [hs.unique hfree hfree'] at hbin'
              exact hbin (hbin'.symm.trans hbin'')
      refine ⟨nodes', hsame.linked, hsame.nodup, ?_⟩
      intro b
      rw [hsame.holds]
      constructor
      · intro ⟨s, hfree, hbin'⟩
        exact ⟨s, .inr hfree, hbin'⟩
      · intro ⟨s, hb, hbin'⟩
        rcases hb with ⟨-, rfl⟩ | hfree
        · exact absurd hbin'.symm hbin
        · exact ⟨s, hfree, hbin'⟩
  · intro w hw
    have hlink := hw a size (.inl ⟨rfl, rfl⟩)
    rw [binInsert_word, hsize, if_neg, if_neg hlink.1, if_neg hlink.2]
    rintro ⟨hne, rfl⟩
    rcases hhead with hzero | ⟨-, s, hfree, -⟩
    · exact hne hzero
    · exact (hw _ s (.inr hfree)).2 rfl

end Thalyx.Native.Heap
