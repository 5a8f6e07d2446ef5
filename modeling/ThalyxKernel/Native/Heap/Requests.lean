/-
The sizes a program may ask of the native heap: `user/native/src/heap.c`.

Every number of 64 bits may come in as a size, a count or an alignment.  `allocate` refuses
what is too large before it rounds and `calloc` checks its product, but `allocate_aligned`
adds a header, the alignment and a smallest block up without looking, so that the sum may
wrap and `allocate` be asked for less than the program was promised.  `Fits` says which
requests that cannot happen to.
-/
import ThalyxKernel.Native.Heap.Result

namespace Thalyx.Native

open Option

namespace Heap

/-- What `allocate_aligned` asks of `allocate`. -/
def alignedSum (alignment n : Nat) : Nat :=
  let want := max (clear (wrap (n + header + align - 1)) (align - 1)) minBlock
  wrap (want + alignment + minBlock)

def alignedAlloc (config : Config) (maps : Nat → Nat → Int) (h : Heap) (alignment size : Nat) :
    Option (Heap × Nat) := do
  let (h, status, p) ← h.posixMemalign config maps (if alignment < 8 then 8 else alignment) size
  some (h, if status ≠ 0 then 0 else p)

def memalign (config : Config) (maps : Nat → Nat → Int) (h : Heap) (alignment size : Nat) :
    Option (Heap × Nat) :=
  h.alignedAlloc config maps alignment size

/-- The largest block the heap's addresses have room for: an arena ends in a fence. -/
abbrev largestBlock : Nat := thHeapLimit - thHeapBase - header

end Heap

open Heap

namespace HeapCall

/-- Every number in it is one of 64 bits. -/
def Words : HeapCall → Prop
  | .malloc n | .realloc _ n => n < wordRange
  | .calloc count size => count < wordRange ∧ size < wordRange
  | .posixMemalign alignment size => alignment < wordRange ∧ size < wordRange
  | .free _ | .write _ _ => True

/-- How many bytes it asks for. -/
def asked : HeapCall → Nat
  | .malloc n | .realloc _ n | .posixMemalign _ n => n
  | .calloc count size => count * size
  | .free _ | .write _ _ => 0

/-- The size it comes to, as a number without a bound. -/
def rounded : HeapCall → Nat
  | .malloc n | .realloc _ n => wanted n
  | .calloc count size => wanted (count * size)
  | .posixMemalign alignment n =>
    if alignment ≤ align then wanted n else wanted n + alignment + minBlock
  | .free _ | .write _ _ => 0

/-- No sum of the call wraps, or it wraps to more than any block has. -/
def Fits : HeapCall → Prop
  | .posixMemalign alignment n =>
    alignment < 8 ∨ alignment &&& (alignment - 1) ≠ 0 ∨ alignment ≤ align
      ∨ wanted n + alignment + minBlock < wordRange ∨ largestBlock < wanted (alignedSum alignment n)
  | _ => True

instance : (action : HeapCall) → Decidable action.Words
  | .malloc _ | .realloc _ _ => inferInstanceAs (Decidable (_ < _))
  | .calloc _ _ | .posixMemalign _ _ => inferInstanceAs (Decidable (_ ∧ _))
  | .free _ | .write _ _ => inferInstanceAs (Decidable True)

instance : (action : HeapCall) → Decidable action.Fits
  | .posixMemalign _ _ => inferInstanceAs (Decidable (_ ∨ _))
  | .malloc _ | .realloc _ _ | .calloc _ _ | .free _ | .write _ _ =>
    inferInstanceAs (Decidable True)

end HeapCall

/-- What a program asks of the heap. -/
inductive Request where
  | call (action : HeapCall)
  | alignedAlloc (alignment size : Nat)
  | memalign (alignment size : Nat)
deriving DecidableEq, Repr

namespace Request

/-- The call it comes to. -/
def heapCall : Request → HeapCall
  | .call action => action
  | .alignedAlloc alignment size | .memalign alignment size =>
    .posixMemalign (if alignment < 8 then 8 else alignment) size

def act (config : Config) (maps : Nat → Nat → Int) (h : Heap) : Request → Option (Heap × Nat)
  | .call action => h.act config maps action
  | .alignedAlloc alignment size => h.alignedAlloc config maps alignment size
  | .memalign alignment size => h.memalign config maps alignment size

/-- The request keeps what was promised of it: the block holds the bytes that were asked for, and
a size that does not fit 64 bits is refused. -/
def Satisfied (config : Config) (maps : Nat → Nat → Int) (h : Heap) (r : Request) : Prop :=
  ∃ h' p, r.act config maps h = some (h', p)
    ∧ (p ≠ 0 → r.heapCall.asked ≤ h'.mallocUsableSize p)
    ∧ (wordRange ≤ r.heapCall.rounded → p = 0)

end Request

namespace Program

/-- The program frees and writes only what it holds. -/
def Owns (s : Program) : HeapCall → Prop
  | .realloc p _ | .free p => p = 0 ∨ ∃ l ∈ s.live, l.ptr = p
  | .write address _ =>
    8 ∣ address ∧ ∃ l ∈ s.live, l.ptr ≤ address ∧ address < l.ptr + s.heap.mallocUsableSize l.ptr
  | .malloc _ | .calloc _ _ | .posixMemalign _ _ => True

instance (s : Program) : (action : HeapCall) → Decidable (s.Owns action)
  | .realloc _ _ | .free _ => inferInstanceAs (Decidable (_ ∨ _))
  | .write _ _ => inferInstanceAs (Decidable (_ ∧ _))
  | .malloc _ | .calloc _ _ | .posixMemalign _ _ => inferInstanceAs (Decidable True)

def request (config : Config) (s : Program) (event : Request × (Nat → Nat → Int)) :
    Option Program := do
  let (h, p) ← event.1.act config event.2 s.heap
  some { heap := h, live := held s.live p event.1.heapCall, arenas := s.arenas ++ grown s.heap h }

/-- The program may ask for it, and it fits. -/
def Fit (s : Program) (r : Request) : Prop :=
  s.Owns r.heapCall ∧ r.heapCall.Words ∧ r.heapCall.Fits

instance (s : Program) (r : Request) : Decidable (s.Fit r) := inferInstanceAs (Decidable (_ ∧ _))

/-- Every run of a program that keeps to what it holds and asks only for what fits. -/
def requests (config : Config) : System Program (Request × (Nat → Nat → Int)) :=
  (System.ofStep Initial (request config)).within fun s event => s.Fit event.1

end Program

namespace Heap

variable {s s' : Program} {h h' : Heap} {pieces : List Piece} {a size n alignment p : Nat}
  {config : Config} {maps : Nat → Nat → Int} {action : HeapCall}

/-! ### The requests as calls -/

theorem posixMemalign_status {status : Nat}
    (hout : h.posixMemalign config maps alignment n = some (h', status, p)) :
    (if status ≠ 0 then 0 else p) = p := by
  unfold Heap.posixMemalign at hout
  split at hout
  · cases hout
    rfl
  · obtain ⟨⟨g, q⟩, -, heq⟩ := bind_eq_some_iff.mp hout
    cases heq
    by_cases hzero : p = 0
    · rw [hzero, ite_self]
    · rw [if_neg hzero, if_neg (by simp)]

theorem alignedAlloc_eq :
    h.alignedAlloc config maps alignment n
      = h.act config maps (.posixMemalign (if alignment < 8 then 8 else alignment) n) := by
  rw [Heap.alignedAlloc, Heap.act]
  cases hout : h.posixMemalign config maps (if alignment < 8 then 8 else alignment) n with
  | none => rfl
  | some out =>
    obtain ⟨g, status, q⟩ := out
    have hstatus := posixMemalign_status hout
    rw [bind_eq_bind, bind_some, map_some]
    exact congrArg (fun q => some (g, q)) hstatus

theorem act_heapCall (r : Request) : r.act config maps h = h.act config maps r.heapCall := by
  cases r with
  | call action => rfl
  | alignedAlloc alignment size => exact alignedAlloc_eq
  | memalign alignment size => exact alignedAlloc_eq

theorem request_eq (r : Request) :
    Program.request config s (r, maps) = Program.step config s (r.heapCall, maps) := by
  unfold Program.request Program.step
  rw [act_heapCall]

/-! ### How large a block can be -/

theorem Sound.size_le {x y : Piece} {before after : List Piece}
    (hs : Sound h (before ++ x :: y :: after)) : x.size ≤ largestBlock := by
  have hy := (hs.laid.shaped y (by simp)).extent_ge
  have hlimit := hs.limit
  have hx : x.size ≤ x.extent := by
    unfold Piece.extent
    split <;> omega
  simp only [endOf, Tiling.span_append, Tiling.span_cons] at hlimit
  simp only [largestBlock, thHeapLimit, thHeapBase, header] at hlimit hy ⊢
  omega

theorem Sound.used_le (hs : Sound h pieces) (hused : UsedIn thHeapBase pieces a size) :
    size ≤ largestBlock := by
  obtain ⟨before, x, after, rfl, -⟩ := hused.next hs.laid
  rw [List.append_assoc] at hs
  exact hs.size_le

theorem Kept.usable (hkept : Kept s pieces) {l : Live} (hmem : l ∈ s.live) :
    l.requested ≤ s.heap.mallocUsableSize l.ptr ∧ l.requested ≤ largestBlock := by
  obtain ⟨a, size, hptr, hused, hsize, -⟩ := hkept.held.block l hmem
  have hle := hkept.sound.used_le hused
  rw [hptr, (hkept.sound.usable hused).1]
  omega

/-! ### Requests that fit -/

theorem allocateAligned_eq (hlarge : align < alignment) :
    h.allocateAligned config maps alignment n
      = (h.allocate config maps (alignedSum alignment n)).bind fun out =>
        if out.2 = 0 then some (out.1, 0)
        else
          let aligned := clear (wrap (out.2 + alignment - 1)) (alignment - 1)
          if aligned = out.2 then some out
          else
            some (out.1.cutFront out.2 (widen out.2 alignment minBlock aligned),
              widen out.2 alignment minBlock aligned) := by
  unfold Heap.allocateAligned
  rw [if_neg (Nat.not_le_of_lt hlarge)]
  rfl

theorem Sound.allocateAligned_refused (hs : Sound h pieces) (config : Config)
    (maps : Nat → Nat → Int) (hlarge : align < alignment)
    (hwraps : wordRange ≤ wanted n + alignment + minBlock)
    (hbig : largestBlock < wanted (alignedSum alignment n)) :
    ∃ g, h.allocateAligned config maps alignment n = some (g, 0)
      ∧ Allocated h pieces (alignedNeed alignment n) (wanted n) (g, 0) := by
  obtain ⟨⟨g, p⟩, hout, pieces', hsound, harenas, hcases⟩ :=
    hs.allocate config maps (alignedSum alignment n)
  rcases hcases with ⟨hzero, hnone, hsame⟩ | ⟨a, taken, -, htaken, -, hblocks⟩
  · have hzero : p = 0 := hzero
    subst hzero
    refine ⟨g, ?_, pieces', hsound, harenas, Or.inl ⟨rfl, ?_, hsame⟩⟩
    · rw [allocateAligned_eq hlarge, hout]
      rfl
    · apply hsound.noFit
      have hge := (wanted_ge (wanted n + alignment + minBlock)).2.2
      rw [alignedNeed, if_neg (Nat.not_le_of_lt hlarge)]
      simp only [thHeapLimit, wordRange, header] at hwraps hge ⊢
      omega
  · -- no block is that large
    have hle := hsound.used_le ((hblocks a taken).mpr (Or.inr ⟨rfl, rfl⟩))
    omega

theorem Kept.posixMemalign (hkept : Kept s pieces)
    (hfits : (HeapCall.posixMemalign alignment n).Fits) :
    Keeps config s (.posixMemalign alignment n) maps := by
  apply keeps_posixMemalign hkept
  intro hlow hand
  by_cases hsmall : alignment ≤ align ∨ wanted n + alignment + minBlock < wordRange
  · exact hkept.sound.allocateAligned config maps hlow hand hsmall
  · obtain ⟨hlarge, hwraps⟩ := not_or.mp hsmall
    have hbig : largestBlock < wanted (alignedSum alignment n) := by
      rcases hfits with hlt | hne | hle | hlt | hbig
      · exact absurd hlow (Nat.not_le_of_lt hlt)
      · exact absurd hand hne
      · exact absurd hle hlarge
      · exact absurd hlt hwraps
      · exact hbig
    obtain ⟨g, hout, hallocated⟩ := hkept.sound.allocateAligned_refused config maps
      (Nat.lt_of_not_le hlarge) (Nat.le_of_not_lt hwraps) hbig
    exact ⟨(g, 0), hout, hallocated, Nat.dvd_zero _⟩

theorem Kept.ask (hkept : Kept s pieces) (howns : s.Owns action) (hfits : action.Fits)
    (maps : Nat → Nat → Int) : Keeps config s action maps := by
  cases action with
  | malloc n => exact keeps_malloc hkept n maps
  | calloc count size => exact keeps_calloc hkept count size maps
  | realloc p n => exact keeps_realloc hkept howns n maps
  | free p => exact keeps_free hkept howns maps
  | posixMemalign alignment size => exact hkept.posixMemalign hfits
  | write address value =>
    obtain ⟨-, l, hmem, hlow, hhigh⟩ := howns
    exact keeps_write hkept hmem hlow hhigh maps

theorem kept_of_requests (hs : (Program.requests config).Reachable s) :
    ∃ pieces, Kept s pieces := by
  apply hs.invariant (I := fun s => ∃ pieces, Kept s pieces)
  · intro s hs
    exact ⟨[], kept_initial hs⟩
  · intro s ⟨r, maps⟩ s' ⟨pieces, hkept⟩ ⟨⟨howns, _, hfits⟩, hstep⟩
    obtain ⟨s'', p, pieces', hstep', -, hkept', -⟩ :=
      @Kept.ask s pieces config _ hkept howns hfits maps
    have heq : Program.request config s (r, maps) = some s'' := (request_eq r).trans hstep'
    rw [show Program.request config s (r, maps) = some s' from hstep] at heq
    exact ⟨pieces', some.inj heq ▸ hkept'⟩

/-! ### What a request is answered -/

theorem held_answer (live : List Live) (hact : h.act config maps action = some (h', p))
    (hne : p ≠ 0) : ∃ alignment, ⟨p, action.asked, alignment⟩ ∈ Program.held live p action := by
  have hhold : ∀ live requested alignment,
      (⟨p, requested, alignment⟩ : Live) ∈ Program.hold live p requested alignment := by
    intro live requested alignment
    rw [Program.hold, if_neg hne]
    exact List.mem_cons_self
  cases action with
  | malloc n => exact ⟨align, hhold _ _ _⟩
  | calloc count size => exact ⟨align, hhold _ _ _⟩
  | realloc old n =>
    refine ⟨align, ?_⟩
    rw [Program.held, if_neg fun hnull => hne hnull.1]
    exact hhold _ _ _
  | free old =>
    cases hact
    exact absurd rfl hne
  | posixMemalign alignment n => exact ⟨alignment, hhold _ _ _⟩
  | write address value =>
    cases hact
    exact absurd rfl hne

theorem Sound.null_of_rounded (hs : Sound h pieces) (hfits : action.Fits)
    (hact : h.act config maps action = some (h', p)) (hle : p ≠ 0 → action.asked ≤ largestBlock)
    (hover : wordRange ≤ action.rounded) : p = 0 := by
  by_contra hne
  have hasked := wanted_le (hle hne)
  have hsmall : wanted action.asked < wordRange := by
    simp only [largestBlock, thHeapLimit, thHeapBase, header] at hasked
    simp only [wordRange]
    omega
  cases action with
  | malloc n => exact absurd hsmall (Nat.not_lt_of_le hover)
  | calloc count size => exact absurd hsmall (Nat.not_lt_of_le hover)
  | realloc old n => exact absurd hsmall (Nat.not_lt_of_le hover)
  | free old => exact absurd (Nat.lt_of_lt_of_le (by decide) hover) (Nat.lt_irrefl 0)
  | write address value => exact absurd (Nat.lt_of_lt_of_le (by decide) hover) (Nat.lt_irrefl 0)
  | posixMemalign alignment n =>
    rw [Heap.act, Heap.posixMemalign] at hact
    split at hact
    · cases hact
      exact hne rfl
    rename_i hasks
    obtain ⟨hlow, hand⟩ := not_or.mp hasks
    have hlarge : ¬ alignment ≤ align := by
      intro hle
      rw [HeapCall.rounded, if_pos hle] at hover
      exact absurd hsmall (Nat.not_lt_of_le hover)
    rw [HeapCall.rounded, if_neg hlarge] at hover
    have hbig : largestBlock < wanted (alignedSum alignment n) := by
      rcases hfits with hlt | hand' | hle | hlt | hbig
      · exact absurd hlt hlow
      · exact absurd hand' hand
      · exact absurd hle hlarge
      · exact absurd hlt (Nat.not_lt_of_le hover)
      · exact hbig
    obtain ⟨g, hout, -⟩ := hs.allocateAligned_refused config maps
      (Nat.lt_of_not_le hlarge) hover hbig
    rw [hout] at hact
    cases hact
    exact hne rfl

theorem Kept.satisfied (hkept : Kept s pieces) {r : Request} (howns : s.Owns r.heapCall)
    (hfits : r.heapCall.Fits) (maps : Nat → Nat → Int) : r.Satisfied config maps s.heap := by
  obtain ⟨s', p, pieces', hstep, hact, hkept', -⟩ :=
    @Kept.ask s pieces config _ hkept howns hfits maps
  have hlive : s'.live = Program.held s.live p r.heapCall := by
    rw [Program.step, hact] at hstep
    exact (congrArg Program.live (some.inj hstep)).symm
  have husable : p ≠ 0 → r.heapCall.asked ≤ s'.heap.mallocUsableSize p
      ∧ r.heapCall.asked ≤ largestBlock := by
    intro hne
    obtain ⟨alignment, hmem⟩ := held_answer s.live hact hne
    rw [← hlive] at hmem
    exact hkept'.usable hmem
  exact ⟨s'.heap, p, (act_heapCall r).trans hact, fun hne => (husable hne).1,
    hkept.sound.null_of_rounded hfits hact fun hne => (husable hne).2⟩

/-! ### Requests that do not fit -/

theorem le_widen (turns aligned : Nat) : aligned ≤ widen p alignment turns aligned := by
  induction turns generalizing aligned with
  | zero => exact Nat.le_refl _
  | succ turns ih =>
    unfold widen
    split
    · exact Nat.le_trans (Nat.le_add_right _ _) (ih _)
    · exact Nat.le_refl _

theorem Sound.allocate_found (hs : Sound h pieces) (config : Config) (maps : Nat → Nat → Int)
    (hfree : FreeIn thHeapBase pieces a size) (hle : wanted n ≤ size) :
    ∃ g p, h.allocate config maps n = some (g, p) ∧ 0 < p ∧ p ≤ thHeapLimit := by
  obtain ⟨⟨g, p⟩, hout, hallocated⟩ := hs.allocate config maps n
  refine ⟨g, p, hout, ?_, ?_⟩
  · obtain ⟨before, x, after, rfl, -⟩ := hfree.split hs.laid
    have hroom := (List.append_assoc _ _ _ ▸ hs).size_le
    have hge := (wanted_ge n).2.2
    have hleast := wanted_asked n
    unfold Heap.allocate at hout
    generalize (if n = 0 then 1 else n) = asked at hleast hout
    simp only [hleast.1] at hout
    rw [if_neg (by
      simp only [largestBlock, thHeapLimit, thHeapBase, header, maxRequest] at hroom hge ⊢
      omega)] at hout
    obtain ⟨hs', hready, -⟩ := hs.init config
    obtain ⟨out, hfind, hfound⟩ := hs'.findFit (wanted_ge n).1 (wanted_ge n).2.1
    rcases hfound with ⟨-, hnone⟩ | ⟨pieces', a, taken, -, -, -, hptr, -⟩
    · exact absurd hle (Nat.not_le_of_lt (hnone _ _ hfree))
    · have hne : out.2 ≠ 0 := by
        rw [hptr]
        simp [header]
      obtain ⟨found, q⟩ := out
      rw [hfind, bind_eq_bind, bind_some] at hout
      simp only [hne, ne_eq, not_false_eq_true, if_true, some.injEq, Prod.mk.injEq] at hout
      exact Nat.pos_of_ne_zero (hout.2 ▸ hne)
  · obtain ⟨pieces', hsound, -, ⟨hzero, -⟩ | ⟨a, taken, hptr, -, -, hblocks⟩⟩ := hallocated
    · have hzero : p = 0 := hzero
      exact hzero ▸ Nat.zero_le _
    · have hused := (hblocks a taken).mpr (Or.inr ⟨rfl, rfl⟩)
      have hwithin := hused.within.2
      have hlimit := hsound.limit
      have hmin := (hsound.usable hused).2
      have hptr : p = a + header := hptr
      simp only [endOf] at hlimit
      simp only [header, minBlock] at hptr hmin
      omega

theorem two_pow_le {k : Nat} (h : 2 ^ k < wordRange) : 2 ^ k ≤ 2 ^ 63 :=
  Nat.pow_le_pow_right (by decide)
    (Nat.le_of_lt_succ ((Nat.pow_lt_pow_iff_right (by decide)).mp (show 2 ^ k < 2 ^ 64 from h)))

theorem Sound.allocateAligned_wrapped (hs : Sound h pieces) (config : Config)
    (maps : Nat → Nat → Int) (hlarge : align < alignment)
    (hand : alignment &&& (alignment - 1) = 0) (hword : alignment < wordRange)
    (hfree : FreeIn thHeapBase pieces a size) (hle : wanted (alignedSum alignment n) ≤ size) :
    ∃ g p, h.allocateAligned config maps alignment n = some (g, p) ∧ p ≠ 0 := by
  obtain ⟨g, p, hout, hpos, hlimit⟩ := hs.allocate_found config maps hfree hle
  have hlow : 8 ≤ alignment := Nat.le_of_lt (Nat.lt_trans (by decide) hlarge)
  obtain ⟨k, hpow⟩ := two_pow_of_and hlow hand
  have hhalf : alignment ≤ 2 ^ 63 := by
    rw [hpow] at hword ⊢
    exact two_pow_le hword
  have hwrap : wrap (p + alignment - 1) = p + alignment - 1 := by
    rw [wrap, Nat.mod_eq_of_lt]
    simp only [thHeapLimit, wordRange] at hlimit ⊢
    omega
  have hclear : clear (p + alignment - 1) (alignment - 1)
      = (p + alignment - 1) / alignment * alignment := by
    rw [hpow]
    exact clear_two_pow _ _
  have habove : p ≤ (p + alignment - 1) / alignment * alignment := by
    have hdiv := Nat.div_add_mod (p + alignment - 1) alignment
    have hmod := Nat.mod_lt (p + alignment - 1) (Nat.lt_of_lt_of_le (by decide) hlow)
    rw [Nat.mul_comm] at hdiv
    omega
  rw [allocateAligned_eq hlarge, hout, bind_some, if_neg (Nat.ne_of_gt hpos)]
  simp only [hwrap, hclear]
  split
  · exact ⟨g, p, rfl, Nat.ne_of_gt hpos⟩
  · refine ⟨_, _, rfl, ?_⟩
    have hwide := @le_widen alignment p minBlock ((p + alignment - 1) / alignment * alignment)
    omega

/-- All the heap may hold, as one arena. -/
def wholeConfig : Config := ⟨32768, 64, launcherConfig.fits⟩

/-- The program after some requests for which every object is mapped. -/
def askedThrough (config : Config) (requests : List Request) : Option Program :=
  System.exec (System.guarded (fun s event => s.Fit event.1) (Program.request config))
    (requests.map fun r => (r, fun _ _ => 0)) freshProgram

theorem reachable_of_asked {requests : List Request} (hs : askedThrough config requests = some s) :
    (Program.requests config).Reachable s :=
  System.reachable_within_of_guarded (.init ⟨rfl, rfl, rfl, rfl, rfl, rfl⟩) hs

theorem whole_reached :
    ∃ s pieces a size, (Program.requests wholeConfig).Reachable s ∧ Kept s pieces
      ∧ FreeIn thHeapBase pieces a size ∧ largestBlock ≤ size := by
  have hrun : (askedThrough wholeConfig [.call (.malloc (largestBlock - 2 * header)),
      .call (.free (thHeapBase + header))]).map (fun s =>
        TwoWay.seek 0 s.heap.mem.next (fun b => decide (largestBlock ≤ s.heap.mem.blockSize b))
          maxBlocks (s.heap.mem.bins (binOf largestBlock)))
      = some (some thHeapBase) := by
    decide +kernel
  obtain ⟨s, hs, hseek⟩ := map_eq_some_iff.mp hrun
  have hreachable := reachable_of_asked hs
  obtain ⟨pieces, hkept⟩ := kept_of_requests hreachable
  obtain ⟨block, hfound, -, hfree⟩ :=
    @Sound.seek _ largestBlock _ hkept.sound (binOf largestBlock) (binOf_lt _)
  rw [hseek, some.injEq] at hfound
  obtain ⟨size, hfree, hle⟩ := hfree (hfound ▸ by decide)
  exact ⟨s, pieces, block, size, hreachable, hkept, hfree, hle⟩

theorem unfit_unsatisfied {r : Request} (hwords : r.heapCall.Words) (hfits : ¬ r.heapCall.Fits) :
    ∃ s, (Program.requests wholeConfig).Reachable s ∧ s.Owns r.heapCall
      ∧ ∀ maps, ¬ r.Satisfied wholeConfig maps s.heap := by
  obtain ⟨s, pieces, a, size, hreachable, hkept, hfree, hsize⟩ := whole_reached
  refine ⟨s, hreachable, ?_⟩
  unfold Request.Satisfied
  simp only [act_heapCall]
  generalize r.heapCall = action at hwords hfits ⊢
  cases action with
  | malloc n => exact absurd trivial hfits
  | calloc count size => exact absurd trivial hfits
  | realloc p n => exact absurd trivial hfits
  | free p => exact absurd trivial hfits
  | write address value => exact absurd trivial hfits
  | posixMemalign alignment n =>
    simp only [HeapCall.Fits, not_or, Nat.not_lt, Nat.not_le, ne_eq, not_not] at hfits
    obtain ⟨hlow, hand, hlarge, hwraps, hroom⟩ := hfits
    refine ⟨trivial, ?_⟩
    rintro maps ⟨g, p, hact, -, hnull⟩
    obtain ⟨g', p', hout, hne⟩ := hkept.sound.allocateAligned_wrapped wholeConfig maps hlarge
      hand hwords.1 hfree (Nat.le_trans hroom hsize)
    rw [Heap.act, Heap.posixMemalign, if_neg (by simp [hlow, hand]), hout] at hact
    have hptr : p' = p := congrArg Prod.snd (some.inj hact)
    apply hne
    rw [hptr]
    apply hnull
    rw [HeapCall.rounded, if_neg (Nat.not_le_of_lt hlarge)]
    exact hwraps

/-- **The sizes of the heap's calls**: over every run of a program that asks only for what fits,
whatever `th_map_new` answers, the tags lay out blocks that are apart and every block that is held
has the bytes that were asked for; and in all these states a request of 64-bit numbers is kept
what was promised of it exactly where it fits. -/
theorem requests_satisfied (r : Request) (hwords : r.heapCall.Words) :
    (∀ config s, (Program.requests config).Reachable s →
      (∃ pieces, Represents s pieces)
        ∧ ∀ l ∈ s.live, l.requested ≤ s.heap.mallocUsableSize l.ptr)
    ∧ ((∀ config s, (Program.requests config).Reachable s → s.Owns r.heapCall →
        ∀ maps, r.Satisfied config maps s.heap) ↔ r.heapCall.Fits) := by
  refine ⟨?_, ?_, ?_⟩
  · intro config s hs
    obtain ⟨pieces, hkept⟩ := kept_of_requests hs
    exact ⟨⟨pieces, hkept.represents⟩, fun l hmem => (hkept.usable hmem).1⟩
  · intro hall
    by_contra hfits
    obtain ⟨s, hs, howns, hnot⟩ := unfit_unsatisfied hwords hfits
    exact hnot (fun _ _ => 0) (hall wholeConfig s hs howns _)
  · intro hfits config s hs howns maps
    obtain ⟨pieces, hkept⟩ := kept_of_requests hs
    exact hkept.satisfied howns hfits maps

/-- A run with an aligned block in it, after which a sum that wraps around is refused. -/
theorem requests_satisfied_sample :
    ∃ s, askedThrough launcherConfig [.call (.malloc 100), .memalign 64 200,
        .call (.realloc 0x30000010 300), .call (.calloc 3 5)] = some s
      ∧ (∀ l ∈ s.live, l.requested ≤ s.heap.mallocUsableSize l.ptr)
      ∧ Request.Satisfied launcherConfig (fun _ _ => 0) s.heap
          (.alignedAlloc (2 ^ 63) (2 ^ 63 + 2 ^ 30)) := by
  have hrun : (askedThrough launcherConfig [.call (.malloc 100), .memalign 64 200,
      .call (.realloc 0x30000010 300), .call (.calloc 3 5)]).isSome = true := by
    decide +kernel
  obtain ⟨s, hs⟩ := isSome_iff_exists.mp hrun
  have hreachable := reachable_of_asked hs
  obtain ⟨hruns, hrequest⟩ :=
    requests_satisfied (.alignedAlloc (2 ^ 63) (2 ^ 63 + 2 ^ 30)) (by decide +kernel)
  exact ⟨s, hs, (hruns launcherConfig s hreachable).2,
    hrequest.mpr (by decide +kernel) launcherConfig s hreachable trivial _⟩

/-- The first call of a program asks for all of memory but a byte, at a multiple of 32, and is
given 80 bytes. -/
theorem posix_memalign_wraps :
    Program.Initial freshProgram ∧ ∃ h p,
      freshProgram.heap.act launcherConfig (fun _ _ => 0) (.posixMemalign 32 (2 ^ 64 - 1))
          = some (h, p)
        ∧ p ≠ 0 ∧ h.mallocUsableSize p = 80
        ∧ ¬ Request.Satisfied launcherConfig (fun _ _ => 0) freshProgram.heap
          (.call (.posixMemalign 32 (2 ^ 64 - 1))) := by
  have hrun : (freshProgram.heap.act launcherConfig (fun _ _ => 0)
      (.posixMemalign 32 (2 ^ 64 - 1))).map (fun out => (out.2, out.1.mallocUsableSize out.2))
      = some (0x30000040, 80) := by
    decide +kernel
  obtain ⟨⟨h, p⟩, hact, hfacts⟩ := map_eq_some_iff.mp hrun
  simp only [Prod.mk.injEq] at hfacts
  obtain ⟨hptr, husable⟩ := hfacts
  have hne : p ≠ 0 := hptr ▸ by decide
  refine ⟨⟨rfl, rfl, rfl, rfl, rfl, rfl⟩, h, p, hact, hne, husable, ?_⟩
  rintro ⟨h', p', hact', hholds, -⟩
  rw [show Request.act launcherConfig (fun _ _ => 0) freshProgram.heap
    (.call (.posixMemalign 32 (2 ^ 64 - 1))) = some (h, p) from hact] at hact'
  cases hact'
  have hle := hholds hne
  rw [husable] at hle
  exact absurd hle (by decide)

end Heap

end Thalyx.Native
