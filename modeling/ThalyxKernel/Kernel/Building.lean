/-
How many frames a build needs.

`Outline` is what decides whether a page can be mapped and how many tables it takes: the
interior tables an address space has and the pages it maps.  `Outline.demand` adds up the
frames a list of pages needs, and `Needs` says of a build step that it goes through exactly
when that many can be handed out, and takes that many.  From it follows when a whole build
goes through, in terms of the image and of the machine it begins in.
-/
import ThalyxKernel.Kernel.Build
import ThalyxKernel.Kernel.Frames
import ThalyxKernel.Lib.Fallible

namespace Thalyx.Kernel

open Fallible List Option

/-! ### Outlines -/

/-- The interior tables of an address space, by level and address, and its mapped pages. -/
structure Outline where
  tables : List (Nat × Nat)
  pages : List Nat
  deriving DecidableEq, Repr

namespace Outline

/-- The table of a level on the way to an address. -/
def key (level vaddr : Nat) : Nat × Nat := (level, vaddr / 2 ^ (12 + 9 * level))

/-- The table of a level, when it is missing on the way to an address. -/
def absent (o : Outline) (level vaddr : Nat) : List (Nat × Nat) :=
  if o.tables.contains (key level vaddr) then [] else [key level vaddr]

/-- The tables missing on the way to an address. -/
def missing (o : Outline) (vaddr : Nat) : List (Nat × Nat) :=
  o.absent 1 vaddr ++ (o.absent 2 vaddr ++ o.absent 3 vaddr)

/-- A mapping that is well formed and not there yet. -/
def accepts (o : Outline) (vaddr : Nat) (rights : PageRights) : Bool :=
  rights.valid && AddressSpace.canonical vaddr && vaddr % AddressSpace.pageSize == 0
    && !o.pages.contains (vaddr / AddressSpace.pageSize)

/-- The outline with one more page. -/
def grow (o : Outline) (vaddr : Nat) : Outline where
  tables := o.missing vaddr ++ o.tables
  pages := vaddr / AddressSpace.pageSize :: o.pages

/-- The frames a list of pages needs, each page its own and the tables it is the first to
use; none, when one of them cannot be mapped. -/
def demand : Outline → List (Nat × PageRights) → Option Nat
  | _, [] => some 0
  | o, (vaddr, rights) :: rest =>
    if o.accepts vaddr rights then
      ((o.grow vaddr).demand rest).map (1 + (o.missing vaddr).length + ·)
    else none

/-- The outline with a list of pages more. -/
def growAll : Outline → List (Nat × PageRights) → Outline
  | o, [] => o
  | o, (vaddr, _) :: rest => (o.grow vaddr).growAll rest

end Outline

/-- The outline of an address space. -/
def AddressSpace.outline (space : AddressSpace) : Outline where
  tables := space.tables.map Prod.fst
  pages := space.leaves.map Prod.fst

namespace AddressSpace

variable {space : AddressSpace} {a : FrameAllocator} {safe : Nat} {owner : Owner}

theorem lookup_isSome_iff_contains {α β : Type} [BEq α] [LawfulBEq α] (l : List (α × β)) (k : α) :
    (l.lookup k).isSome = (l.map Prod.fst).contains k := by
  induction l with
  | nil => rfl
  | cons p rest ih =>
    rw [map_cons, contains_cons, ← ih]
    rw [show p :: rest = (p.1, p.2) :: rest from rfl, lookup_cons]
    by_cases h : (k == p.1) = true
    · simp [h]
    · simp [h]

theorem child_cases (space : AddressSpace) (level vaddr : Nat) (a : FrameAllocator) (safe : Nat)
    (owner : Owner) :
    ((space.outline.absent level vaddr).length ≤ a.available safe ∧
        ∃ a' space', space.child level vaddr a safe owner = (a', some space') ∧
          a'.available safe + (space.outline.absent level vaddr).length = a.available safe ∧
          space'.outline = { space.outline with
            tables := space.outline.absent level vaddr ++ space.outline.tables }) ∨
      (a.available safe < (space.outline.absent level vaddr).length ∧
        ∃ a', space.child level vaddr a safe owner = (a', none) ∧
          a'.available safe ≤ a.available safe) := by
  have hl : (space.tables.lookup (Outline.key level vaddr)).isSome =
      space.outline.tables.contains (Outline.key level vaddr) :=
    lookup_isSome_iff_contains _ _
  unfold Outline.absent
  by_cases hc : space.outline.tables.contains (Outline.key level vaddr) = true
  · rw [if_pos hc]
    rw [hc] at hl
    exact .inl ⟨Nat.zero_le _, a, space, if_pos hl, rfl, rfl⟩
  · rw [if_neg hc]
    have hl' : ¬ (space.tables.lookup (Outline.key level vaddr)).isSome = true := by
      rw [hl]
      exact hc
    obtain ⟨hpos, a', frame, halloc, hone⟩ | ⟨hzero, a', halloc, hz⟩ := a.alloc_cases safe owner
    · have hchild : space.child level vaddr a safe owner =
          (a', some { space with tables := (Outline.key level vaddr, frame) :: space.tables }) :=
        (if_neg hl').trans (by rw [halloc]; rfl)
      exact .inl ⟨hpos, a', _, hchild, hone, rfl⟩
    · have hchild : space.child level vaddr a safe owner = (a', none) :=
        (if_neg hl').trans (by rw [halloc])
      exact .inr ⟨by simp [hzero], a', hchild, by omega⟩

theorem absent_of_ne {o : Outline} {level level' vaddr : Nat} (h : level ≠ level') :
    ({ o with tables := o.absent level' vaddr ++ o.tables } : Outline).absent level vaddr =
      o.absent level vaddr := by
  unfold Outline.absent
  by_cases hc : o.tables.contains (Outline.key level' vaddr) = true
  · simp only [hc, if_true, nil_append]
  · have hkey : Outline.key level vaddr ≠ Outline.key level' vaddr := by
      simp [Outline.key, h]
    have hbeq : (Outline.key level vaddr == Outline.key level' vaddr) = false := by
      simpa using hkey
    simp only [hc, contains_cons, cons_append, nil_append, hbeq, Bool.false_or,
      Bool.false_eq_true, if_false]

theorem entryFor_cases (space : AddressSpace) (vaddr : Nat) (a : FrameAllocator) (safe : Nat)
    (owner : Owner) :
    ((space.outline.missing vaddr).length ≤ a.available safe ∧
        ∃ a' space', space.entryFor vaddr a safe owner = (a', space', true) ∧
          a'.available safe + (space.outline.missing vaddr).length = a.available safe ∧
          space'.outline = { space.outline with
            tables := space.outline.missing vaddr ++ space.outline.tables }) ∨
      (a.available safe < (space.outline.missing vaddr).length ∧
        ∃ a' space', space.entryFor vaddr a safe owner = (a', space', false) ∧
          a'.available safe ≤ a.available safe) := by
  unfold entryFor Outline.missing
  simp only [length_append]
  obtain ⟨h3, a3, s3, hc3, ha3, ho3⟩ | ⟨h3, a3, hc3, ha3⟩ :=
    space.child_cases 3 vaddr a safe owner
  · have e2 : s3.outline.absent 2 vaddr = space.outline.absent 2 vaddr := by
      rw [ho3]
      exact absent_of_ne (by decide)
    have e1 : s3.outline.absent 1 vaddr = space.outline.absent 1 vaddr := by
      rw [ho3]
      exact absent_of_ne (by decide)
    obtain ⟨h2, a2, s2, hc2, ha2, ho2⟩ | ⟨h2, a2, hc2, ha2⟩ :=
      s3.child_cases 2 vaddr a3 safe owner
    · have e1' : s2.outline.absent 1 vaddr = space.outline.absent 1 vaddr := by
        rw [ho2, absent_of_ne (by decide), e1]
      obtain ⟨h1, a1, s1, hc1, ha1, ho1⟩ | ⟨h1, a1, hc1, ha1⟩ :=
        s2.child_cases 1 vaddr a2 safe owner
      · left
        rw [e2] at h2 ha2
        rw [e1'] at h1 ha1
        refine ⟨by omega, a1, s1, by simp only [hc3, hc2, hc1], by omega, ?_⟩
        rw [ho1, e1', ho2, e2, ho3]
        simp
      · right
        rw [e2] at h2 ha2
        rw [e1'] at h1
        exact ⟨by omega, a1, s2, by simp only [hc3, hc2, hc1], by omega⟩
    · right
      rw [e2] at h2
      exact ⟨by omega, a2, s3, by simp only [hc3, hc2], by omega⟩
  · right
    exact ⟨by omega, a3, space, by simp only [hc3], ha3⟩

/-- **A page is mapped exactly when it can be and its tables can be paid for.** -/
theorem map_cases (space : AddressSpace) (vaddr : Nat) (frame : Frame) (rights : PageRights)
    (a : FrameAllocator) (safe : Nat) (owner : Owner) :
    ((space.outline.accepts vaddr rights = true ∧
          (space.outline.missing vaddr).length ≤ a.available safe) ∧
        ∃ a' space', space.map vaddr frame rights a safe owner = (a', space', .ok ()) ∧
          a'.available safe + (space.outline.missing vaddr).length = a.available safe ∧
          space'.outline = space.outline.grow vaddr) ∨
      (¬ (space.outline.accepts vaddr rights = true ∧
          (space.outline.missing vaddr).length ≤ a.available safe) ∧
        ∃ a' space' e, space.map vaddr frame rights a safe owner = (a', space', .error e) ∧
          a'.available safe ≤ a.available safe) := by
  unfold AddressSpace.map Outline.accepts
  by_cases hr : rights.valid = true
  · by_cases hb : canonical vaddr = true ∧ vaddr % AddressSpace.pageSize = 0
    · have hb' : (!canonical vaddr || vaddr % AddressSpace.pageSize != 0) = false := by
        simp [hb.1, hb.2]
      obtain ⟨hm, a', s', he, ha', ho'⟩ | ⟨hm, a', s', he, ha'⟩ :=
        space.entryFor_cases vaddr a safe owner
      · have hl : (s'.leaves.lookup (vaddr / AddressSpace.pageSize)).isSome =
            space.outline.pages.contains (vaddr / AddressSpace.pageSize) := by
          rw [lookup_isSome_iff_contains]
          exact congrArg (·.pages.contains (vaddr / AddressSpace.pageSize)) ho'
        by_cases hc : space.outline.pages.contains (vaddr / AddressSpace.pageSize) = true
        · right
          refine ⟨?_, a', s', .alreadyMapped, ?_, by omega⟩
          · rw [hc]
            simp
          · rw [hc] at hl
            simp [hr, hb', he, hl]
        · left
          rw [Bool.not_eq_true] at hc
          rw [hc] at hl ⊢
          refine ⟨⟨by simp [hr, hb.1, hb.2], hm⟩, a',
            { s' with leaves := (vaddr / AddressSpace.pageSize, frame, rights) :: s'.leaves }, ?_,
            ha', ?_⟩
          · simp [hr, hb', he, hl]
          · have hp := congrArg Outline.pages ho'
            have ht := congrArg Outline.tables ho'
            simp only [AddressSpace.outline] at hp ht
            simp [AddressSpace.outline, Outline.grow, hp, ht]
      · right
        exact ⟨by omega, a', s', .outOfMemory, by simp [hr, hb', he], ha'⟩
    · right
      have hb' : (!canonical vaddr || vaddr % AddressSpace.pageSize != 0) = true := by
        by_cases hcan : canonical vaddr = true
        · have : vaddr % AddressSpace.pageSize ≠ 0 := fun h => hb ⟨hcan, h⟩
          simp [this]
        · simp [hcan]
      refine ⟨?_, a, space, .badAddress, by simp [hr, hb'], le_rfl⟩
      rintro ⟨h, -⟩
      simp only [Bool.and_eq_true, beq_iff_eq] at h
      exact hb ⟨h.1.1.2, h.1.2⟩
  · right
    exact ⟨by simp [hr], a, space, .rights, by simp [hr], le_rfl⟩

end AddressSpace

/-- The frames that can be handed out. -/
def Machine.availableFrames (s : Machine) : Nat := s.allocator.available s.tlb.safeGeneration

/-! ### What a step needs -/

/-- The frames of two steps. -/
def sumDemand (m n : Option Nat) : Option Nat := m.bind fun m => n.map (m + ·)

/-- The step goes through exactly when `demand` frames can be handed out; then it takes that
many and ends as `post` says. -/
def Needs {α : Type} (b : Build α) (s : Machine) (demand : Option Nat)
    (post : α → Machine → Prop) : Prop :=
  (∃ n, demand = some n ∧ n ≤ s.availableFrames ∧
      ∃ a s', b s = .ok a s' ∧ s'.availableFrames + n = s.availableFrames ∧ post a s') ∨
    ((∀ n, demand = some n → s.availableFrames < n) ∧ ∃ e s', b s = .error e s')

namespace Needs

variable {α β : Type} {s : Machine} {b : Build α} {m n : Option Nat}
  {post : α → Machine → Prop}

theorem bind {f : α → Build β} {post' : β → Machine → Prop} (hb : Needs b s m post)
    (hf : ∀ a s', post a s' → Needs (f a) s' n post') :
    Needs (b >>= f) s (sumDemand m n) post' := by
  obtain ⟨i, rfl, hi, a, s', hok, hav, hp⟩ | ⟨hlt, e, s', he⟩ := hb
  · obtain ⟨j, rfl, hj, c, s'', hok', hav', hp'⟩ | ⟨hlt', e, s'', he'⟩ := hf a s' hp
    · refine .inl ⟨i + j, rfl, by omega, c, s'', ?_, by omega, hp'⟩
      rw [Fallible.bind_of_ok hok, hok']
    · refine .inr ⟨?_, e, s'', ?_⟩
      · intro k hk
        obtain ⟨j, hj, hij⟩ := map_eq_some_iff.mp hk
        have := hlt' j hj
        omega
      · rw [Fallible.bind_of_ok hok, he']
  · refine .inr ⟨?_, e, s', Fallible.bind_of_error he⟩
    intro k hk
    obtain ⟨i, hi, hik⟩ := bind_eq_some_iff.mp hk
    obtain ⟨j, -, rfl⟩ := map_eq_some_iff.mp hik
    have := hlt i hi
    omega

theorem orUndo {undo : Machine → Machine} (hb : Needs b s m post) :
    Needs (b.orUndo undo) s m post := by
  obtain ⟨n, rfl, hn, a, s', hok, hav, hp⟩ | ⟨hlt, e, s', he⟩ := hb
  · exact .inl ⟨n, rfl, hn, a, s', by simp [Build.orUndo, hok], hav, hp⟩
  · exact .inr ⟨hlt, e, undo s', by simp [Build.orUndo, he]⟩

theorem of_pure {a : α} (h : post a s) : Needs (pure a) s (some 0) post :=
  .inl ⟨0, rfl, Nat.zero_le _, a, s, rfl, rfl, h⟩

theorem modify_bind {g : Machine → Machine} {f : PUnit → Build α}
    (hav : (g s).availableFrames = s.availableFrames) (h : Needs (f ⟨⟩) (g s) m post) :
    Needs (modify g >>= f) s m post := by
  unfold Needs at h ⊢
  rw [Fallible.bind_of_ok (modify_run g s), ← hav]
  exact h

theorem bind_modify {g : α → Machine → Machine} {post' : PUnit → Machine → Prop}
    (hav : ∀ a s, (g a s).availableFrames = s.availableFrames) (hb : Needs b s m post)
    (h : ∀ a s', post a s' → post' ⟨⟩ (g a s')) :
    Needs (b >>= fun a => modify (g a)) s m post' := by
  obtain ⟨n, rfl, hn, a, s', hok, hs', hp⟩ | ⟨hlt, e, s', he⟩ := hb
  · refine .inl ⟨n, rfl, hn, ⟨⟩, g a s', ?_, by rw [hav, hs'], h a s' hp⟩
    rw [Fallible.bind_of_ok hok]
    rfl
  · exact .inr ⟨hlt, e, s', Fallible.bind_of_error he⟩

end Needs

theorem sumDemand_assoc (l m n : Option Nat) :
    sumDemand (sumDemand l m) n = sumDemand l (sumDemand m n) := by
  cases l <;> cases m <;> cases n <;> simp [sumDemand, Nat.add_assoc]

theorem zero_sumDemand (m : Option Nat) : sumDemand (some 0) m = m := by
  cases m <;> simp [sumDemand]

theorem Outline.demand_append (o : Outline) (ps qs : List (Nat × PageRights)) :
    o.demand (ps ++ qs) = sumDemand (o.demand ps) ((o.growAll ps).demand qs) := by
  induction ps generalizing o with
  | nil => exact (zero_sumDemand _).symm
  | cons p rest ih =>
    obtain ⟨vaddr, rights⟩ := p
    simp only [cons_append, demand, growAll]
    by_cases h : o.accepts vaddr rights = true
    · rw [if_pos h, if_pos h, ih]
      cases (o.grow vaddr).demand rest with
      | none => rfl
      | some m =>
        cases ((o.grow vaddr).growAll rest).demand qs with
        | none => rfl
        | some n => simp [sumDemand, Nat.add_assoc]
    · rw [if_neg h, if_neg h]
      rfl

theorem Outline.growAll_append (o : Outline) (ps qs : List (Nat × PageRights)) :
    o.growAll (ps ++ qs) = (o.growAll ps).growAll qs := by
  induction ps generalizing o with
  | nil => rfl
  | cons p rest ih => exact ih (o.grow p.1)

/-! ### The steps of a build -/

namespace Machine

variable {index : DomainId} {s : Machine} {o k : Outline} {u : ThreadId → Bool}

/-- What the pages mapped so far leave: the outline of the domain's space, that of the
kernel's, and the kernel stacks in use. -/
structure Shape (index : DomainId) (o k : Outline) (u : ThreadId → Bool) (s : Machine) : Prop where
  space : ∃ space, (s.domains index).space = some space ∧ space.outline = o
  kernel : s.kernelSpace.outline = k
  kstacks : s.kstackUsed = u

theorem allocFrame_needs (owner : Owner) (s : Machine) :
    Needs (allocFrame owner) s (some 1) fun _ s' => ∃ allocator, s' = { s with allocator } := by
  obtain ⟨hpos, a', frame, h, hone⟩ | ⟨hzero, a', h, -⟩ :=
    s.allocator.alloc_cases s.tlb.safeGeneration owner
  · exact .inl ⟨1, rfl, hpos, frame, { s with allocator := a' }, by simp [allocFrame, h], hone,
      a', rfl⟩
  · refine .inr ⟨?_, .outOfMemory, { s with allocator := a' }, by simp [allocFrame, h]⟩
    rintro n ⟨rfl⟩
    exact Nat.lt_one_iff.mpr hzero

theorem mapDomainFrame_needs (rights : PageRights) (vaddr : Nat) (frame : Frame)
    (hs : Shape index o k u s) :
    Needs (mapDomainFrame index rights vaddr frame) s
      (if o.accepts vaddr rights then some (o.missing vaddr).length else none)
      fun _ => Shape index (o.grow vaddr) k u := by
  obtain ⟨⟨space, hspace, rfl⟩, hk, hu⟩ := hs
  obtain ⟨⟨hacc, hle⟩, a', space', h, hav, ho⟩ | ⟨hno, a', space', e, h, -⟩ :=
    space.map_cases vaddr frame rights s.allocator s.tlb.safeGeneration (.domain index)
  · rw [if_pos hacc]
    have hok : mapDomainFrame index rights vaddr frame s = .ok ()
        ({ s with allocator := a' }.setDomain index fun d => { d with space := some space' }) := by
      simp [mapDomainFrame, hspace, h]
    refine .inl ⟨_, rfl, hle, (), _, hok, hav, ?_⟩
    exact ⟨⟨space', by simp [setDomain], ho⟩, hk, hu⟩
  · refine .inr ⟨?_, .ofMap e, _, by simp only [mapDomainFrame, hspace, h]; rfl⟩
    intro n hn
    by_cases hacc : space.outline.accepts vaddr rights = true
    · rw [if_pos hacc] at hn
      have := some.inj hn
      have : ¬ (space.outline.missing vaddr).length ≤
          s.allocator.available s.tlb.safeGeneration := fun hle => hno ⟨hacc, hle⟩
      show s.allocator.available s.tlb.safeGeneration < n
      omega
    · rw [if_neg hacc] at hn
      cases hn

theorem mapDomainPage_needs (rights : PageRights) (vaddr : Nat) (hs : Shape index o k u s) :
    Needs (mapDomainPage index rights vaddr) s (o.demand [(vaddr, rights)])
      fun _ => Shape index (o.grow vaddr) k u := by
  have hd : o.demand [(vaddr, rights)] = sumDemand (some 1)
      (if o.accepts vaddr rights then some (o.missing vaddr).length else none) := by
    by_cases h : o.accepts vaddr rights = true <;> simp [Outline.demand, sumDemand, h]
  rw [hd]
  refine (allocFrame_needs _ s).bind ?_
  rintro frame s' ⟨allocator, rfl⟩
  exact mapDomainFrame_needs rights vaddr frame ⟨hs.space, hs.kernel, hs.kstacks⟩

/-- **A list of pages needs what its demand says.** -/
theorem mapDomainPages_needs (pages : List Nat) (rights : PageRights) (vaddr : Nat → Nat)
    (hs : Shape index o k u s) :
    Needs (pages.forM fun page => mapDomainPage index rights (vaddr page)) s
      (o.demand (pages.map fun page => (vaddr page, rights)))
      fun _ => Shape index (o.growAll (pages.map fun page => (vaddr page, rights))) k u := by
  induction pages generalizing o s with
  | nil => exact Needs.of_pure hs
  | cons page rest ih =>
    have hd := o.demand_append [(vaddr page, rights)]
      (rest.map fun page => (vaddr page, rights))
    rw [singleton_append] at hd
    rw [map_cons, hd]
    exact (mapDomainPage_needs rights (vaddr page) hs).bind fun _ s' hs' => ih hs'

end Machine

/-- The pages of a segment, with their rights. -/
def Segment.pageList (segment : Segment) : List (Nat × PageRights) :=
  (List.range segment.pages).map fun page =>
    (segment.vaddr + page * pageSize, ⟨true, segment.read, segment.write, segment.execute⟩)

/-- The pages of an image's segments and of the user stack. -/
def Image.pageList (image : Image) : List (Nat × PageRights) :=
  image.segments.flatMap Segment.pageList ++
    (List.range userStackPages).map fun page =>
      (Machine.userStackPage page, ⟨true, true, true, false⟩)

/-- The pages of a kernel stack. -/
def kstackPageList (slot : ThreadId) (pages : List Nat) : List (Nat × PageRights) :=
  pages.map fun page => (Machine.kstackPage slot page, ⟨false, true, true, false⟩)

/-- The frames a kernel stack needs; none, when every stack is in use. -/
def kstackDemand (k : Outline) (u : ThreadId → Bool) : Option Nat :=
  ((List.finRange maxThreads).find? fun slot => !u slot).bind fun slot =>
    k.demand (kstackPageList slot (List.range kstackPages))

/-- **The frames the build of an image needs**: the root, the pages with their tables, and the
kernel stack. -/
def Image.demand (image : Image) (k : Outline) (u : ThreadId → Bool) : Option Nat :=
  sumDemand (some 1) (sumDemand ((Outline.mk [] []).demand image.pageList) (kstackDemand k u))

namespace Machine

variable {index : DomainId} {s : Machine} {o k : Outline} {u : ThreadId → Bool}

theorem mapSegment_needs (segment : Segment) (hs : Shape index o k u s) :
    Needs (mapSegment index segment) s (o.demand segment.pageList)
      fun _ => Shape index (o.growAll segment.pageList) k u := by
  refine Needs.bind_modify (g := fun _ s => s.setDomain index fun d =>
    { d with segments := d.segments + 1 }) (fun _ _ => rfl)
    (mapDomainPages_needs (List.range segment.pages) _ _ hs) ?_
  rintro _ s' ⟨⟨space, hspace, ho⟩, hk, hu⟩
  exact ⟨⟨space, by simpa [setDomain] using hspace, ho⟩, hk, hu⟩

theorem mapSegments_needs (segments : List Segment) (hs : Shape index o k u s) :
    Needs (segments.forM (mapSegment index)) s (o.demand (segments.flatMap Segment.pageList))
      fun _ => Shape index (o.growAll (segments.flatMap Segment.pageList)) k u := by
  induction segments generalizing o s with
  | nil => exact Needs.of_pure hs
  | cons segment rest ih =>
    rw [flatMap_cons, Outline.demand_append, Outline.growAll_append]
    exact (mapSegment_needs segment hs).bind fun _ s' hs' => ih hs'

/-! ### Kernel stacks -/

theorem mapKernelFrame_needs (vaddr : Nat) (frame : Frame) (hs : Shape index o k u s) :
    Needs (mapKernelFrame vaddr frame) s
      (if k.accepts vaddr ⟨false, true, true, false⟩ then some (k.missing vaddr).length else none)
      fun _ => Shape index o (k.grow vaddr) u := by
  obtain ⟨hspace, rfl, hu⟩ := hs
  obtain ⟨⟨hacc, hle⟩, a', space', h, hav, ho⟩ | ⟨hno, a', space', e, h, -⟩ :=
    s.kernelSpace.map_cases vaddr frame ⟨false, true, true, false⟩ s.allocator
      s.tlb.safeGeneration .kernel
  · rw [if_pos hacc]
    have hok : mapKernelFrame vaddr frame s =
        .ok () { s with allocator := a', kernelSpace := space' } := by
      simp [mapKernelFrame, h]
    exact .inl ⟨_, rfl, hle, (), _, hok, hav, hspace, ho, hu⟩
  · refine .inr ⟨?_, .ofMap e, { s with allocator := a', kernelSpace := space' }, ?_⟩
    · intro n hn
      by_cases hacc : s.kernelSpace.outline.accepts vaddr ⟨false, true, true, false⟩ = true
      · rw [if_pos hacc] at hn
        have hn := some.inj hn
        have : ¬ (s.kernelSpace.outline.missing vaddr).length ≤
            s.allocator.available s.tlb.safeGeneration := fun hle => hno ⟨hacc, hle⟩
        show s.allocator.available s.tlb.safeGeneration < n
        omega
      · rw [if_neg hacc] at hn
        cases hn
    · simp [mapKernelFrame, h]

theorem mapKernelPage_needs (slot : ThreadId) (page : Nat) (hs : Shape index o k u s) :
    Needs (mapKernelPage slot page) s (k.demand (kstackPageList slot [page]))
      fun _ => Shape index o (k.grow (kstackPage slot page)) u := by
  have hd : k.demand (kstackPageList slot [page]) = sumDemand (some 1)
      (if k.accepts (kstackPage slot page) ⟨false, true, true, false⟩ then
        some (k.missing (kstackPage slot page)).length else none) := by
    by_cases h : k.accepts (kstackPage slot page) ⟨false, true, true, false⟩ = true <;>
      simp [kstackPageList, Outline.demand, sumDemand, h]
  rw [hd]
  refine (allocFrame_needs _ s).bind ?_
  rintro frame s' ⟨allocator, rfl⟩
  exact mapKernelFrame_needs _ frame ⟨hs.space, hs.kernel, hs.kstacks⟩

theorem mapKernelPages_needs (slot : ThreadId) (pages mapped : List Nat)
    (hs : Shape index o k u s) :
    Needs (mapKernelPages slot pages mapped) s (k.demand (kstackPageList slot pages))
      fun _ => Shape index o (k.growAll (kstackPageList slot pages)) u := by
  induction pages generalizing k s mapped with
  | nil => exact Needs.of_pure hs
  | cons page rest ih =>
    have hd := k.demand_append (kstackPageList slot [page]) (kstackPageList slot rest)
    rw [show kstackPageList slot (page :: rest) =
      kstackPageList slot [page] ++ kstackPageList slot rest from rfl, hd]
    exact (mapKernelPage_needs slot page hs).orUndo.bind fun _ s' hs' => ih _ hs'

theorem allocateKernelStack_needs (hs : Shape index o k u s) :
    Needs allocateKernelStack s (kstackDemand k u) fun _ _ => True := by
  unfold kstackDemand
  have hfind : ((List.finRange maxThreads).find? fun slot => !s.kstackUsed slot) =
      (List.finRange maxThreads).find? fun slot => !u slot := by
    rw [hs.kstacks]
  cases hslot : (List.finRange maxThreads).find? fun slot => !u slot with
  | none =>
    have he : findKernelStack s = .error .kernelStackExhausted s := by
      unfold findKernelStack
      rw [hfind, hslot]
    exact .inr ⟨fun n hn => (by simp at hn), _, s, Fallible.bind_of_error he⟩
  | some slot =>
    have hok : findKernelStack s = .ok slot s := by
      unfold findKernelStack
      rw [hfind, hslot]
    unfold Needs allocateKernelStack
    rw [Fallible.bind_of_ok hok]
    obtain ⟨n, hn, hle, _, s', hs', hav, -⟩ | ⟨hlt, e, s', he⟩ :=
      mapKernelPages_needs slot (List.range kstackPages) [] hs
    · refine .inl ⟨n, hn, hle, slot,
        { s' with kstackUsed := Function.update s'.kstackUsed slot true }, ?_, hav, trivial⟩
      rw [Fallible.bind_of_ok hs']
      rfl
    · exact .inr ⟨hlt, e, s', Fallible.bind_of_error he⟩

/-- **The frames of a build are there exactly when its image's demand can be met.** -/
theorem buildSpace_needs (index : DomainId) (image : Image) (s : Machine) :
    Needs (buildSpace index image) s (image.demand s.kernelSpace.outline s.kstackUsed)
      fun _ _ => True := by
  unfold Image.demand Image.pageList
  rw [Outline.demand_append]
  refine (allocFrame_needs (.domain index) s).bind ?_
  rintro root s₁ ⟨allocator, rfl⟩
  refine Needs.modify_bind rfl ?_
  rw [sumDemand_assoc]
  have hshape : Shape index ⟨[], []⟩ s.kernelSpace.outline s.kstackUsed
      ({ s with allocator }.setDomain index fun d => { d with space := some ⟨root, [], []⟩ }) :=
    ⟨⟨⟨root, [], []⟩, by simp [setDomain], rfl⟩, rfl, rfl⟩
  refine (mapSegments_needs image.segments hshape).bind fun _ s₂ h₂ => ?_
  refine (mapDomainPages_needs (List.range userStackPages) _ _ h₂).bind fun _ s₃ h₃ => ?_
  refine Needs.modify_bind rfl ?_
  obtain ⟨⟨space, hspace, ho⟩, hk, hu⟩ := h₃
  have h₃' : Shape index _ s.kernelSpace.outline s.kstackUsed (s₃.setDomain index fun d =>
      { d with stackMapped := true, entry := image.entry }) :=
    ⟨⟨space, by simpa [setDomain] using hspace, ho⟩, hk, hu⟩
  exact allocateKernelStack_needs h₃'

/-! ### What a build leaves alone

Whatever becomes of a build, the frames it took do not come back by themselves: those it
retires wait for a generation no processor has flushed at.
-/

/-- The frames that can be handed out have not become more. -/
structure Shrinks (s s' : Machine) : Prop where
  safe : s'.tlb.safeGeneration = s.tlb.safeGeneration
  frames : s'.availableFrames ≤ s.availableFrames

theorem Shrinks.refl (s : Machine) : Shrinks s s := ⟨rfl, le_rfl⟩

theorem Shrinks.trans {s t u : Machine} (h : Shrinks s t) (h' : Shrinks t u) : Shrinks s u :=
  ⟨h'.safe.trans h.safe, h'.frames.trans h.frames⟩

theorem Shrinks.foldl {α : Type} {f : Machine → α → Machine} (hf : ∀ s a, Shrinks s (f s a))
    (xs : List α) (s : Machine) : Shrinks s (xs.foldl f s) := by
  induction xs generalizing s with
  | nil => exact .refl s
  | cons a rest ih => exact (hf s a).trans (ih (f s a))

/-- What the steps of a build keep besides. -/
structure BuildKept (s s' : Machine) : Prop extends Shrinks s s' where
  scopes : s'.scopes = s.scopes
  grants : s'.grants = s.grants
  grantHint : s'.grantHint = s.grantHint
  caps : s'.caps = s.caps
  nextObjectId : s'.nextObjectId = s.nextObjectId
  owner : ∀ d, (s'.domains d).ownerScope = (s.domains d).ownerScope
  state : ∀ d, (s'.domains d).state = (s.domains d).state

theorem BuildKept.refl (s : Machine) : BuildKept s s :=
  ⟨.refl s, rfl, rfl, rfl, rfl, rfl, fun _ => rfl, fun _ => rfl⟩

theorem BuildKept.trans (s t u : Machine) (h : BuildKept s t) (h' : BuildKept t u) :
    BuildKept s u where
  toShrinks := h.toShrinks.trans h'.toShrinks
  scopes := h'.scopes.trans h.scopes
  grants := h'.grants.trans h.grants
  grantHint := h'.grantHint.trans h.grantHint
  caps := h'.caps.trans h.caps
  nextObjectId := h'.nextObjectId.trans h.nextObjectId
  owner d := (h'.owner d).trans (h.owner d)
  state d := (h'.state d).trans (h.state d)

theorem retireFrame_shrinks (s : Machine) (frame : Frame) (owner : Owner) {stamp : Nat}
    (h : s.tlb.safeGeneration < stamp) : Shrinks s (s.retireFrame frame owner stamp) :=
  ⟨rfl, FrameAllocator.available_retireAt h⟩

theorem bumpTlb_fresh (s : Machine) : s.bumpTlb.tlb.safeGeneration < s.bumpTlb.tlb.generation :=
  Nat.lt_succ_of_le s.tlb.safe_le

theorem Shrinks.foldl_fresh {α : Type} {f : Machine → α → Machine}
    (hf : ∀ s a, s.tlb.safeGeneration < s.tlb.generation →
      Shrinks s (f s a) ∧ (f s a).tlb = s.tlb) (xs : List α) (s : Machine)
    (h : s.tlb.safeGeneration < s.tlb.generation) : Shrinks s (xs.foldl f s) := by
  induction xs generalizing s with
  | nil => exact .refl s
  | cons a rest ih =>
    obtain ⟨hs, ht⟩ := hf s a h
    exact hs.trans (ih (f s a) (ht ▸ h))

theorem retireFrames_shrinks (s : Machine) (frames : List Frame) (owner : Owner) :
    Shrinks s (s.retireFrames frames owner) := by
  have hbump : Shrinks s s.bumpTlb := ⟨rfl, le_rfl⟩
  refine hbump.trans (Shrinks.foldl_fresh ?_ frames s.bumpTlb s.bumpTlb_fresh)
  intro s frame h
  exact ⟨retireFrame_shrinks s frame owner h, rfl⟩

theorem unmapKernelPage_kept (slot : ThreadId) (s : Machine) (page : Nat)
    (h : s.tlb.safeGeneration < s.tlb.generation) :
    BuildKept s (unmapKernelPage slot s page) ∧ (unmapKernelPage slot s page).tlb = s.tlb := by
  unfold unmapKernelPage
  rcases s.kernelSpace.unmap (kstackPage slot page) with ⟨space, _ | frame⟩
  · exact ⟨.refl s, rfl⟩
  · exact ⟨⟨⟨rfl, FrameAllocator.available_retireAt h⟩, rfl, rfl, rfl, rfl, rfl, fun _ => rfl,
      fun _ => rfl⟩, rfl⟩

theorem releaseKernelStack_shrinks (s : Machine) (slot : Nat) :
    Shrinks s (s.releaseKernelStack slot) := by
  unfold releaseKernelStack
  split
  · split
    · exact .refl s
    · have hfold := Shrinks.foldl_fresh
        (fun s page h => (unmapKernelPage_kept ⟨slot, ‹_›⟩ s page h).imp BuildKept.toShrinks id)
        (List.range kstackPages) s.bumpTlb s.bumpTlb_fresh
      exact ⟨hfold.safe, hfold.frames⟩
  · exact .refl s

theorem clearThread_shrinks (index : DomainId) (s : Machine) (slot : Fin maxThreadsPerDomain) :
    Shrinks s (clearThread index s slot) := by
  unfold clearThread
  cases (s.domains index).threads slot with
  | none => exact .refl s
  | some thread =>
    have h := releaseKernelStack_shrinks (s.setDomain index fun d =>
      { d with threads := Function.update d.threads slot none })
      ((s.setDomain index fun d =>
        { d with threads := Function.update d.threads slot none }).threads thread).kstackSlot
    exact ⟨h.safe, h.frames⟩

theorem destroySpace_shrinks (s : Machine) (index : DomainId) :
    Shrinks s (s.destroySpace index) := by
  unfold destroySpace
  cases (s.domains index).space with
  | none => exact .refl s
  | some space =>
    have hset : Shrinks s (s.setDomain index fun d => { d with space := none }) := ⟨rfl, le_rfl⟩
    exact hset.trans ((retireFrames_shrinks _ _ _).trans (retireFrames_shrinks _ _ _))

theorem abandonDomain_shrinks (s : Machine) (index : DomainId) (ownerScope : ScopeId)
    (reservedPages : Nat) : Shrinks s (s.abandonDomain index ownerScope reservedPages) := by
  have h : Shrinks s (s.demolish index) :=
    (Shrinks.foldl (fun s slot => clearThread_shrinks index s slot) _ s).trans
      (destroySpace_shrinks _ index)
  exact ⟨h.safe, h.frames⟩

/-! ### The steps keep what a build keeps -/

theorem allocFrame_kept (owner : Owner) : Within BuildKept (allocFrame owner) := by
  intro s
  unfold allocFrame
  obtain ⟨-, a', frame, h, hav⟩ | ⟨hzero, a', h, hav⟩ :=
    s.allocator.alloc_cases s.tlb.safeGeneration owner
  · rw [h]
    have : a'.available s.tlb.safeGeneration ≤ s.allocator.available s.tlb.safeGeneration := by
      omega
    exact ⟨⟨rfl, this⟩, rfl, rfl, rfl, rfl, rfl, fun _ => rfl, fun _ => rfl⟩
  · rw [h]
    have : a'.available s.tlb.safeGeneration ≤ s.allocator.available s.tlb.safeGeneration := by
      omega
    exact ⟨⟨rfl, this⟩, rfl, rfl, rfl, rfl, rfl, fun _ => rfl, fun _ => rfl⟩

theorem map_available (space : AddressSpace) (vaddr : Nat) (frame : Frame) (rights : PageRights)
    (a : FrameAllocator) (safe : Nat) (owner : Owner) :
    (space.map vaddr frame rights a safe owner).1.available safe ≤ a.available safe := by
  obtain ⟨-, a', space', h, hav, -⟩ | ⟨-, a', space', e, h, hav⟩ :=
    space.map_cases vaddr frame rights a safe owner
  · rw [h]
    show a'.available safe ≤ a.available safe
    omega
  · rw [h]
    exact hav

theorem mapKernelFrame_kept (vaddr : Nat) (frame : Frame) :
    Within BuildKept (mapKernelFrame vaddr frame) := by
  intro s
  have hav := map_available s.kernelSpace vaddr frame ⟨false, true, true, false⟩ s.allocator
    s.tlb.safeGeneration .kernel
  unfold mapKernelFrame
  rcases hm : s.kernelSpace.map vaddr frame ⟨false, true, true, false⟩ s.allocator
    s.tlb.safeGeneration .kernel with ⟨a', space', e | u⟩ <;> rw [hm] at hav <;>
    exact ⟨⟨rfl, hav⟩, rfl, rfl, rfl, rfl, rfl, fun _ => rfl, fun _ => rfl⟩

theorem mapKernelPage_kept (slot : ThreadId) (page : Nat) :
    Within BuildKept (mapKernelPage slot page) :=
  .bind BuildKept.trans (allocFrame_kept _) fun _ => mapKernelFrame_kept _ _

theorem mapKernelPages_kept (slot : ThreadId) (pages mapped : List Nat) :
    Within BuildKept (mapKernelPages slot pages mapped) := by
  induction pages generalizing mapped with
  | nil => exact BuildKept.refl
  | cons page rest ih =>
    refine .bind BuildKept.trans ?_ fun _ => ih _
    intro s
    have hpage := mapKernelPage_kept slot page s
    unfold Build.orUndo
    cases h : mapKernelPage slot page s with
    | ok a s' =>
      rw [h] at hpage
      exact hpage
    | error e s' =>
      rw [h] at hpage
      refine BuildKept.trans _ _ _ hpage ?_
      clear hpage h
      show BuildKept s' (mapped.foldl (fun s p => unmapKernelPage slot s.bumpTlb p) s')
      induction mapped generalizing s' with
      | nil => exact .refl s'
      | cons p rest ihm =>
        have hp := (unmapKernelPage_kept slot s'.bumpTlb p s'.bumpTlb_fresh).1
        have hbump : BuildKept s' s'.bumpTlb :=
          ⟨⟨rfl, le_rfl⟩, rfl, rfl, rfl, rfl, rfl, fun _ => rfl, fun _ => rfl⟩
        exact BuildKept.trans _ _ _ (BuildKept.trans _ _ _ hbump hp) (ihm _)

theorem findKernelStack_kept : Within BuildKept findKernelStack := by
  intro s
  unfold findKernelStack
  split <;> exact .refl s

theorem allocateKernelStack_kept : Within BuildKept allocateKernelStack := by
  refine .bind BuildKept.trans findKernelStack_kept fun slot => ?_
  refine .bind BuildKept.trans (mapKernelPages_kept slot _ _) fun _ s => ?_
  exact ⟨⟨rfl, le_rfl⟩, rfl, rfl, rfl, rfl, rfl, fun _ => rfl, fun _ => rfl⟩

theorem setDomain_kept {index : DomainId} {f : Domain → Domain} {allocator : FrameAllocator}
    (s : Machine) (hav : allocator.available s.tlb.safeGeneration ≤ s.availableFrames)
    (ho : ∀ d, (f d).ownerScope = d.ownerScope) (hs : ∀ d, (f d).state = d.state) :
    BuildKept s ({ s with allocator }.setDomain index f) := by
  refine ⟨⟨rfl, hav⟩, rfl, rfl, rfl, rfl, rfl, ?_, ?_⟩
  · intro d
    by_cases h : d = index
    · subst h
      simp [setDomain, ho]
    · simp [setDomain, h]
  · intro d
    by_cases h : d = index
    · subst h
      simp [setDomain, hs]
    · simp [setDomain, h]

theorem modifyDomain_kept {index : DomainId} {f : Domain → Domain}
    (ho : ∀ d, (f d).ownerScope = d.ownerScope) (hs : ∀ d, (f d).state = d.state) :
    Within BuildKept (modify fun s => s.setDomain index f : Build PUnit) := fun s =>
  setDomain_kept s le_rfl ho hs

theorem mapDomainFrame_kept (index : DomainId) (rights : PageRights) (vaddr : Nat)
    (frame : Frame) : Within BuildKept (mapDomainFrame index rights vaddr frame) := by
  intro s
  cases hspace : (s.domains index).space with
  | none =>
    have hfin : final (mapDomainFrame index rights vaddr frame s) = s := by
      simp [mapDomainFrame, hspace]
    rw [hfin]
    exact .refl s
  | some space =>
    have hav := map_available space vaddr frame rights s.allocator s.tlb.safeGeneration
      (.domain index)
    rcases hm : space.map vaddr frame rights s.allocator s.tlb.safeGeneration (.domain index)
      with ⟨a', space', result⟩
    rw [hm] at hav
    have hfin : final (mapDomainFrame index rights vaddr frame s) =
        { s with allocator := a' }.setDomain index fun d => { d with space := some space' } := by
      cases result <;> simp [mapDomainFrame, hspace, hm]
    rw [hfin]
    exact setDomain_kept s hav (fun _ => rfl) (fun _ => rfl)

theorem mapDomainPage_kept (index : DomainId) (rights : PageRights) (vaddr : Nat) :
    Within BuildKept (mapDomainPage index rights vaddr) :=
  .bind BuildKept.trans (allocFrame_kept _) fun _ => mapDomainFrame_kept _ _ _ _

theorem mapSegment_kept (index : DomainId) (segment : Segment) :
    Within BuildKept (mapSegment index segment) :=
  .bind BuildKept.trans
    (.forM BuildKept.refl BuildKept.trans fun _ => mapDomainPage_kept _ _ _)
    fun _ => modifyDomain_kept (fun _ => rfl) fun _ => rfl

theorem fillSpace_kept (index : DomainId) (image : Image) (root : Frame) :
    Within BuildKept (fillSpace index image root) := by
  refine .bind BuildKept.trans (modifyDomain_kept (fun _ => rfl) fun _ => rfl) fun _ => ?_
  refine .bind BuildKept.trans
    (.forM BuildKept.refl BuildKept.trans fun _ => mapSegment_kept _ _) fun _ => ?_
  refine .bind BuildKept.trans
    (.forM BuildKept.refl BuildKept.trans fun _ => mapDomainPage_kept _ _ _) fun _ => ?_
  exact .bind BuildKept.trans (modifyDomain_kept (fun _ => rfl) fun _ => rfl)
    fun _ => allocateKernelStack_kept

theorem buildSpace_kept (index : DomainId) (image : Image) :
    Within BuildKept (buildSpace index image) :=
  .bind BuildKept.trans (allocFrame_kept _) fun _ => fillSpace_kept _ _ _

/-- **A build that fails has taken a frame for good**, unless there was none to take. -/
theorem buildSpace_error {index : DomainId} {image : Image} {s s' : Machine} {e : CreateError}
    (h : buildSpace index image s = .error e s') :
    (0 < s.availableFrames ∧ s'.availableFrames < s.availableFrames) ∨
      (s.availableFrames = 0 ∧ ∃ allocator, s' = { s with allocator } ∧
        s'.availableFrames = 0) := by
  obtain ⟨hpos, a', frame, halloc, hone⟩ | ⟨hzero, a', halloc, hz⟩ :=
    s.allocator.alloc_cases s.tlb.safeGeneration (.domain index)
  · have hok : allocFrame (.domain index) s = .ok frame { s with allocator := a' } := by
      simp [allocFrame, halloc]
    unfold buildSpace at h
    rw [Fallible.bind_of_ok hok] at h
    have hkept := fillSpace_kept index image frame { s with allocator := a' }
    rw [h] at hkept
    have hle : s'.availableFrames ≤ a'.available s.tlb.safeGeneration := hkept.frames
    refine .inl ⟨hpos, ?_⟩
    show s'.availableFrames < s.allocator.available s.tlb.safeGeneration
    omega
  · have he : allocFrame (.domain index) s = .error .outOfMemory { s with allocator := a' } := by
      simp [allocFrame, halloc]
    unfold buildSpace at h
    rw [Fallible.bind_of_error he] at h
    obtain ⟨-, rfl⟩ := EStateM.Result.error.inj h
    exact .inr ⟨hzero, a', rfl, hz⟩

end Machine

end Thalyx.Kernel
