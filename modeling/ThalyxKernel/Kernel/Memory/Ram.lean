/-
Where the frames of the pool come from.

Every frame that is free, waits in the quarantine, or is held by the kernel, by an object or by
a page table has been described as RAM, by the memory map or by a call of `reclaim`; a frame
that a leaf of a domain names has been described too or is one of a register window that the
domain has mapped.  Frames only move between these places, and a space that is torn down with
no window in it sends nothing but RAM to the quarantine.
-/
import ThalyxKernel.Kernel.Memory.Step

namespace Thalyx.Kernel.Memory

open AddressSpace (pageSize)
open Allocator (Same inRun Drains)

variable {care : Care} {s s' : State} {x y : Midway} {t u : Tables}

namespace Tables

/-- The physical frame a record of a window starts at. -/
def physOf (t : Tables) (m : DeviceMapId) : Nat :=
  ((t.devices (t.deviceMaps m).device).regions (t.deviceMaps m).region).phys

/-- A record of a window that its domain still has, and the page of it. -/
def WindowPage (t : Tables) (m : DeviceMapId) (d : DomainId) (page : Nat) : Prop :=
  (t.deviceMaps m).used = true ∧ (t.deviceMaps m).domain = d ∧
    (t.deviceMaps m).domainGeneration = (t.domains d).generation ∧
    inPages (t.deviceMaps m).vaddr (t.deviceMaps m).pages page

/-- A page of a domain names a frame of a window the domain has mapped there. -/
def WindowAt (t : Tables) (d : DomainId) (page f : Nat) : Prop :=
  ∃ m, t.WindowPage m d page ∧ f = t.physOf m + (page - (t.deviceMaps m).vaddr / pageSize)

/-- **Only RAM, wherever the pool can get at it.** -/
structure Ram (t : Tables) (x : Midway) : Prop where
  records : ∀ m, (t.deviceMaps m).used = true → (t.deviceMaps m).vaddr % pageSize = 0 ∧
    (t.deviceMaps m).vaddr + (t.deviceMaps m).pages * pageSize ≤ userMaxAddr
  free : ∀ f < t.allocator.frames, t.allocator.taken f = false → t.described f = true
  waiting : ∀ q ∈ t.allocator.quarantine, t.described q.frame = true
  held : ∀ f, x.held = some f → t.described f = true
  leaf : ∀ d space, (t.domains d).space = some space → ∀ page f rights,
    (page, f, rights) ∈ space.leaves →
      t.described f = true ∨ x.raising ≠ some d ∧ t.WindowAt d page f
  root : ∀ d space, (t.domains d).space = some space → t.described space.root = true
  table : ∀ d space, (t.domains d).space = some space → ∀ key f, (key, f) ∈ space.tables →
    t.described f = true
  kernelLeaf : ∀ page f rights, (page, f, rights) ∈ t.kernel.leaves → t.described f = true
  kernelTable : ∀ key f, (key, f) ∈ t.kernel.tables → t.described f = true
  object : ∀ i, (t.objects i).state ≠ .empty → ∀ f, inRun (t.objects i).base (t.objects i).pages f →
    t.described f = true

namespace Ram

theorem pool (h : t.Ram x) {a : Allocator}
    (hfree : ∀ f < a.frames, a.taken f = false → t.described f = true)
    (hwaiting : ∀ q ∈ a.quarantine, t.described q.frame = true) : Ram { t with allocator := a } x :=
  { h with free := hfree, waiting := hwaiting }

theorem grow (h : t.Ram x) (f : Nat) (bytes : Nat → UInt8) : (t.growFrame f bytes).Ram x := by
  refine h.pool (fun g hg htaken => h.free g hg ?_) h.waiting
  simp only [Allocator.grow, Function.update_apply] at htaken
  split at htaken
  · cases htaken
  · exact htaken

theorem setSpace (h : t.Ram x) {d : DomainId} {space : Option AddressSpace}
    (hleaf : ∀ new, space = some new → ∀ page f rights, (page, f, rights) ∈ new.leaves →
      t.described f = true ∨ x.raising ≠ some d ∧ t.WindowAt d page f)
    (hroot : ∀ new, space = some new → t.described new.root = true)
    (htable : ∀ new, space = some new → ∀ key f, (key, f) ∈ new.tables → t.described f = true) :
    (t.setSpace d space).Ram x := by
  have hgen : ∀ e, ((t.setSpace d space).domains e).generation = (t.domains e).generation := by
    intro e
    by_cases he : e = d
    · subst he
      simp [Tables.setSpace, setDomain]
    · simp [Tables.setSpace, setDomain, he]
  have hwindow : ∀ e page f, t.WindowAt e page f → (t.setSpace d space).WindowAt e page f := by
    rintro e page f ⟨m, ⟨hu, hd, hg, hp⟩, hf⟩
    exact ⟨m, ⟨hu, hd, hg.trans (hgen e).symm, hp⟩, hf⟩
  have hspace : ∀ e new, ((t.setSpace d space).domains e).space = some new →
      (e = d ∧ space = some new) ∨ (t.domains e).space = some new := by
    intro e new hnew
    by_cases he : e = d
    · subst he
      simp only [Tables.setSpace, setDomain, Function.update_self] at hnew
      exact .inl ⟨rfl, hnew⟩
    · simp only [Tables.setSpace, setDomain, Function.update_of_ne he] at hnew
      exact .inr hnew
  refine { h with leaf := ?_, root := ?_, table := ?_ }
  · intro e new hnew page f rights hmem
    rcases hspace e new hnew with ⟨rfl, hd⟩ | he
    · exact (hleaf new hd page f rights hmem).imp_right fun hw => ⟨hw.1, hwindow _ _ _ hw.2⟩
    · exact (h.leaf e new he page f rights hmem).imp_right fun hw => ⟨hw.1, hwindow _ _ _ hw.2⟩
  · intro e new hnew
    rcases hspace e new hnew with ⟨rfl, hd⟩ | he
    · exact hroot new hd
    · exact h.root e new he
  · intro e new hnew key f hmem
    rcases hspace e new hnew with ⟨rfl, hd⟩ | he
    · exact htable new hd key f hmem
    · exact h.table e new he key f hmem

theorem objects (h : t.Ram x) {objects : MemoryId → Object}
    (ho : ∀ i, (objects i).state ≠ .empty → (t.objects i).state ≠ .empty ∧
      (objects i).base = (t.objects i).base ∧ (objects i).pages = (t.objects i).pages) :
    Ram { t with objects } x :=
  { h with
    object := fun i hi f hf => by
      obtain ⟨hlive, hbase, hpages⟩ := ho i hi
      rw [hbase, hpages] at hf
      exact h.object i hlive f hf }

theorem setObject (h : t.Ram x) (i : MemoryId) {f : Object → Object}
    (ho : (f (t.objects i)).state ≠ .empty → (t.objects i).state ≠ .empty ∧
      (f (t.objects i)).base = (t.objects i).base ∧
      (f (t.objects i)).pages = (t.objects i).pages) : (t.setObject i f).Ram x := by
  refine h.objects fun j hj => ?_
  by_cases hji : j = i
  · subst hji
    simp only [Function.update_self] at hj ⊢
    exact ho hj
  · rw [Function.update_of_ne hji] at hj ⊢
    exact ⟨hj, rfl, rfl⟩

theorem removeRun (h : t.Ram x) (d : DomainId) (vaddr count : Nat) :
    (t.removeRun d vaddr count).Ram x := by
  have hsub : ∀ (n : Nat) (space : AddressSpace), (unmapRun space vaddr n).root = space.root ∧
      (unmapRun space vaddr n).tables = space.tables ∧
      ∀ e ∈ (unmapRun space vaddr n).leaves, e ∈ space.leaves := by
    intro n space
    unfold unmapRun
    induction n with
    | zero => exact ⟨rfl, rfl, fun _ he => he⟩
    | succ n ih =>
      rw [List.range_succ, List.foldl_append, List.foldl_cons, List.foldl_nil]
      generalize (List.range n).foldl
        (fun space k => (space.unmap (vaddr + k * AddressSpace.pageSize)).1) space = mid at ih
      unfold AddressSpace.unmap
      split
      · exact ih
      · split
        · exact ih
        · exact ⟨ih.1, ih.2.1, fun e he => ih.2.2 e (List.mem_filter.mp he).1⟩
  refine @Tables.Ram.setSpace _ _ h d ((t.domains d).space.map fun space => unmapRun space vaddr count)
    ?_ ?_ ?_
  · intro new hnew page f rights hmem
    obtain ⟨space, hspace, rfl⟩ := Option.map_eq_some_iff.mp hnew
    exact h.leaf d space hspace page f rights ((hsub count space).2.2 _ hmem)
  · intro new hnew
    obtain ⟨space, hspace, rfl⟩ := Option.map_eq_some_iff.mp hnew
    rw [(hsub count space).1]
    exact h.root d space hspace
  · intro new hnew key f hmem
    obtain ⟨space, hspace, rfl⟩ := Option.map_eq_some_iff.mp hnew
    rw [(hsub count space).2.1] at hmem
    exact h.table d space hspace key f hmem

theorem retire (h : t.Ram x) {frames : List Nat} (stamp : Nat) (owner : Owner)
    (hf : ∀ f ∈ frames, t.described f = true) :
    Ram { t with
      allocator := frames.foldl (fun a f => a.retireAt stamp owner f) t.allocator } x := by
  obtain ⟨kept, heq, hsub, -⟩ := Allocator.foldl_retireAt stamp owner frames t.allocator
  rw [heq]
  refine h.pool h.free fun q hq => ?_
  rcases List.mem_append.mp hq with hq | hq
  · exact h.waiting q hq
  · exact hf _ (hsub.subset (List.mem_map_of_mem hq))

theorem freeObject (h : t.Ram x) {i : MemoryId} (hi : (t.objects i).state ≠ .empty)
    (immediate : Bool) (stamp : Nat) : (t.freeObject i immediate stamp).Ram x := by
  have hobject := h.object i hi
  have hpool : Ram { t with
      allocator :=
        if immediate then
          t.allocator.releaseRun (t.objects i).base (t.objects i).pages (.scope (t.objects i).sponsor)
        else
          t.allocator.retireRun (t.objects i).base (t.objects i).pages
            (.scope (t.objects i).sponsor) stamp } x := by
    cases immediate with
    | true =>
      obtain ⟨hframes, hq, -, ht⟩ := Allocator.releaseRun_spec t.allocator (t.objects i).base
        (t.objects i).pages (.scope (t.objects i).sponsor)
      refine h.pool (fun f hf hfree => ?_) fun q hmem => h.waiting q (hq ▸ hmem)
      rw [if_pos rfl] at hf hfree
      rw [hframes] at hf
      rw [ht, Bool.and_eq_false_iff] at hfree
      rcases hfree with hfree | hrun
      · exact h.free f hf hfree
      · exact hobject f (by simpa using hrun : f < t.allocator.frames ∧ _).2
    | false =>
      obtain ⟨kept, heq, hsub, -⟩ := Allocator.retireRun_spec t.allocator (t.objects i).base
        (t.objects i).pages (.scope (t.objects i).sponsor) stamp
      rw [if_neg (by simp), heq]
      refine h.pool h.free fun q hq => ?_
      rcases List.mem_append.mp hq with hq | hq
      · exact h.waiting q hq
      · exact hobject _ (Allocator.mem_run.mp (hsub.subset (List.mem_map_of_mem hq)))
  exact hpool.setObject i (f := fun object => .empty object.generation) fun hne => absurd rfl hne

theorem destroySpace (h : t.Ram x) (d : DomainId) (stamp : Nat)
    (hleaf : ∀ space, (t.domains d).space = some space → ∀ page f rights,
      (page, f, rights) ∈ space.leaves → t.described f = true) :
    (t.destroySpace d stamp).Ram x := by
  unfold Tables.destroySpace
  split
  · exact h
  rename_i space hspace
  have huser : ∀ f ∈ space.userFrames, t.described f = true := by
    intro f hf
    simp only [AddressSpace.userFrames, List.mem_append, List.mem_map] at hf
    rcases hf with ⟨⟨page, f', rights⟩, hmem, rfl⟩ | ⟨⟨key, f'⟩, hmem, rfl⟩
    · exact hleaf space hspace page f' rights hmem
    · exact h.table d space hspace key f' hmem
  have hroot := @Tables.Ram.retire _ _ (h.retire stamp (.domain d) huser) [space.root] (stamp + 1)
    (.domain d) fun f hf => by
      rw [List.mem_singleton.mp hf]
      exact h.root d space hspace
  exact hroot.setSpace (fun _ hn => by cases hn) (fun _ hn => by cases hn) fun _ hn => by cases hn

theorem setDomain (h : t.Ram x) (d : DomainId) {f : Domain → Domain}
    (hs : (f (t.domains d)).space = none ∨ (f (t.domains d)).space = (t.domains d).space ∧
      (f (t.domains d)).generation = (t.domains d).generation) (hx : ∀ e, y.raising = some e →
      x.raising = some e ∨ e = d ∧ (f (t.domains d)).space = none)
    (hh : y.held = x.held) : (t.setDomain d f).Ram y := by
  have hspace : ∀ e space, ((t.setDomain d f).domains e).space = some space →
      (t.domains e).space = some space ∧
        ((t.setDomain d f).domains e).generation = (t.domains e).generation ∧
        (y.raising = some e → x.raising = some e) := by
    intro e space he
    by_cases hed : e = d
    · subst hed
      simp only [Tables.setDomain, Function.update_self] at he ⊢
      rcases hs with hn | ⟨hn, hg⟩
      · rw [hn] at he
        cases he
      · refine ⟨hn ▸ he, hg, fun hr => (hx e hr).elim id fun hnone => ?_⟩
        rw [hnone.2] at he
        cases he
    · have hsame : (t.setDomain d f).domains e = t.domains e := Function.update_of_ne hed _ _
      rw [hsame] at he ⊢
      exact ⟨he, rfl, fun hr => (hx e hr).elim id fun hnone => absurd hnone.1 hed⟩
  refine { h with held := ?_, leaf := ?_, root := ?_, table := ?_ }
  · rw [hh]
    exact h.held
  · intro e space he page f rights hmem
    obtain ⟨hold, hg, hr⟩ := hspace e space he
    refine (h.leaf e space hold page f rights hmem).imp_right ?_
    rintro ⟨hout, m, ⟨hu, hd, hgm, hp⟩, hf⟩
    exact ⟨fun hy => hout (hr hy), m, ⟨hu, hd, hgm.trans hg.symm, hp⟩, hf⟩
  · intro e space he
    exact h.root e space (hspace e space he).1
  · intro e space he
    exact h.table e space (hspace e space he).1

theorem phys (h : t.Ram x) {devices : DeviceId → Device} (hu : u = { t with devices })
    (hp : ∀ i k, ((u.devices i).regions k).phys = ((t.devices i).regions k).phys) : u.Ram x := by
  subst hu
  refine { h with leaf := fun d space hd page f rights hmem => ?_ }
  refine (h.leaf d space hd page f rights hmem).imp_right ?_
  rintro ⟨hr, m, hw, hf⟩
  exact ⟨hr, m, hw, hf.trans (by rw [Tables.physOf, Tables.physOf, hp])⟩

end Ram

end Tables

open Tables (Ram WindowAt WindowPage)

theorem Tables.Ram.midway (h : t.Ram x) (hh : y.held = none ∨ y.held = x.held)
    (hr : ∀ d, y.raising = some d → x.raising = some d) : t.Ram y :=
  { h with
    held := fun f hf => by
      rcases hh with hh | hh
      · rw [hh] at hf
        cases hf
      · exact h.held f (hh ▸ hf)
    leaf := fun d space hd page f rights hmem =>
      (h.leaf d space hd page f rights hmem).imp_right fun hw =>
        ⟨fun hy => hw.1 (hr d hy), hw.2⟩ }

theorem Tables.Ram.quiet (h : t.Ram x) (hq : t.Quiet u) : u.Ram x := by
  have hobject : ∀ i, (u.objects i).state = (t.objects i).state ∧
      (u.objects i).base = (t.objects i).base ∧ (u.objects i).pages = (t.objects i).pages := by
    intro i
    obtain ⟨refs, hrefs⟩ := hq.objects i
    rw [hrefs]
    exact ⟨rfl, rfl, rfl⟩
  have hwaiting : ∀ q ∈ u.allocator.quarantine, ∃ q' ∈ t.allocator.quarantine,
      q'.frame = q.frame := by
    intro q hqm
    have hmem : q.due ∈ t.allocator.quarantine.map Quarantined.due := by
      rw [← hq.allocator.due]
      exact List.mem_map_of_mem hqm
    obtain ⟨q', hq', heq⟩ := List.mem_map.mp hmem
    exact ⟨q', hq', (Prod.mk.inj heq).1⟩
  have hwindow : ∀ d page f, t.WindowAt d page f → u.WindowAt d page f := by
    rintro d page f ⟨m, ⟨hu, hd, hg, hp⟩, hf⟩
    refine ⟨m, ?_, ?_⟩
    · unfold WindowPage
      rw [hq.deviceMaps, (hq.domains d).2.1]
      exact ⟨hu, hd, hg, hp⟩
    · rw [hf]
      unfold Tables.physOf
      rw [hq.deviceMaps, (hq.windows _ _).1]
  refine
    { records := by rw [hq.deviceMaps]; exact h.records
      free := fun f hf hfree => ?_
      waiting := fun q hqm => ?_
      held := fun f hf => by rw [hq.described]; exact h.held f hf
      leaf := fun d space hd page f rights hmem => ?_
      root := fun d space hd => by
        rw [hq.described]
        exact h.root d space ((hq.domains d).2.2 ▸ hd)
      table := fun d space hd key f hmem => by
        rw [hq.described]
        exact h.table d space ((hq.domains d).2.2 ▸ hd) key f hmem
      kernelLeaf := by rw [hq.kernel, hq.described]; exact h.kernelLeaf
      kernelTable := by rw [hq.kernel, hq.described]; exact h.kernelTable
      object := fun i hi f hf => ?_ }
  · rw [hq.allocator.frames] at hf
    rw [hq.allocator.taken] at hfree
    rw [hq.described]
    exact h.free f hf hfree
  · obtain ⟨q', hq', heq⟩ := hwaiting q hqm
    rw [hq.described, ← heq]
    exact h.waiting q' hq'
  · rw [hq.described]
    exact (h.leaf d space ((hq.domains d).2.2 ▸ hd) page f rights hmem).imp_right
      fun hw => ⟨hw.1, hwindow _ _ _ hw.2⟩
  · obtain ⟨hs, hb, hp⟩ := hobject i
    rw [hs] at hi
    rw [hb, hp] at hf
    rw [hq.described]
    exact h.object i hi f hf

theorem Tables.Ram.drain (h : t.Ram x) (safe : Nat) :
    Ram { t with allocator := t.allocator.drainQuarantine safe } x := by
  obtain ⟨hframes, -, hq, ht⟩ := Allocator.drain_spec t.allocator safe
  refine h.pool (fun f hf hfree => ?_) fun q hmem => ?_
  · rw [hframes] at hf
    rw [ht, Bool.and_eq_false_iff] at hfree
    rcases hfree with hfree | hdrained
    · exact h.free f hf hfree
    · simp only [Bool.not_eq_false', decide_eq_true_eq] at hdrained
      obtain ⟨-, q, hq, -, rfl⟩ := hdrained
      exact h.waiting q hq
  · rw [hq] at hmem
    exact h.waiting q (List.mem_filter.mp hmem).1

theorem Tables.Ram.reclaim (h : t.Ram x) (region : Region) :
    Ram { t with
      allocator := t.allocator.reclaim region.base region.pages
      described := fun f => t.described f || region.has f } x := by
  have hgrown : ∀ f, t.described f = true → (t.described f || region.has f) = true := by
    intro f hf
    simp [hf]
  refine
    { records := h.records
      free := fun f hf hfree => ?_
      waiting := fun q hq => hgrown _ (h.waiting q hq)
      held := fun f hf => hgrown _ (h.held f hf)
      leaf := fun d space hd page f rights hmem =>
        (h.leaf d space hd page f rights hmem).imp_left (hgrown _)
      root := fun d space hd => hgrown _ (h.root d space hd)
      table := fun d space hd key f hmem => hgrown _ (h.table d space hd key f hmem)
      kernelLeaf := fun page f rights hmem => hgrown _ (h.kernelLeaf page f rights hmem)
      kernelTable := fun key f hmem => hgrown _ (h.kernelTable key f hmem)
      object := fun i hi f hf => hgrown _ (h.object i hi f hf) }
  simp only [Allocator.reclaim, Bool.and_eq_false_iff, Bool.not_eq_false', decide_eq_true_eq]
    at hf hfree
  rcases hfree with hfree | ⟨hlo, hhi, -⟩
  · exact hgrown f (h.free f hf hfree)
  · simp [Region.has, hlo, hhi]

variable {i : MemoryId}

theorem collectable_state (h : t.collectable i = true) : (t.objects i).state ≠ .empty := by
  simp only [Tables.collectable, Bool.and_eq_true, bne_iff_ne] at h
  exact h.1.1.1.1

theorem withdraw_ram (h : t.Ram x) (m : MapId) (published : Nat) (cpus : Cpu → Bool) :
    (t.withdraw m published cpus).Ram x := by
  have huncount : (t.uncountMap (t.maps m) published cpus).Ram x := by
    unfold Tables.uncountMap
    split
    · exact h.setObject _ fun hne => ⟨hne, rfl, rfl⟩
    · exact h
  have hout := huncount.removeRun (t.maps m).domain (t.maps m).vaddr (t.maps m).pages
  exact { hout with records := hout.records }

variable {m : DeviceMapId} {space : AddressSpace}
variable {d : DomainId} {f limit : Nat} {rights : PageRights}

theorem withdrawDevice_leaf (h : t.Ram x) (hu : (t.deviceMaps m).used = true) {v : Tables} (hv : v =
      if (t.domains (t.deviceMaps m).domain).generation = (t.deviceMaps m).domainGeneration then
        t.removeRun (t.deviceMaps m).domain (t.deviceMaps m).vaddr (t.deviceMaps m).pages
      else t) (hs : (v.domains d).space = some space)
    {page : Nat} (hmem : (page, f, rights) ∈ space.leaves) :
    t.described f = true ∨ x.raising ≠ some d ∧
      ∃ k, k ≠ m ∧ t.WindowPage k d page ∧ f = t.physOf k + (page - (t.deviceMaps k).vaddr / pageSize) := by
  obtain ⟨haligned, hbelow⟩ := h.records m hu
  have hold : ∃ old, (t.domains d).space = some old ∧ (page, f, rights) ∈ old.leaves ∧
      ¬ t.WindowPage m d page := by
    split at hv
    · rename_i hg
      by_cases hd : d = (t.deviceMaps m).domain
      · rw [hv, hd] at hs
        simp only [Tables.removeRun, Tables.setDomain, Function.update_self] at hs
        obtain ⟨old, hold, rfl⟩ := Option.map_eq_some_iff.mp hs
        rw [unmapRun_eq haligned hbelow] at hmem
        obtain ⟨hmem, hout⟩ := List.mem_filter.mp hmem
        refine ⟨old, hd ▸ hold, hmem, fun hw => ?_⟩
        simp [hw.2.2.2] at hout
      · rw [hv] at hs
        simp only [Tables.removeRun, Tables.setDomain, Function.update_of_ne hd] at hs
        exact ⟨space, hs, hmem, fun hw => hd hw.2.1.symm⟩
    · rename_i hg
      rw [hv] at hs
      exact ⟨space, hs, hmem, fun hw => hg (hw.2.1 ▸ hw.2.2.1.symm)⟩
  obtain ⟨old, hspace, hmem, hout⟩ := hold
  obtain hram | ⟨hr, k, hk, hf⟩ := h.leaf d old hspace page f rights hmem
  · exact Or.inl hram
  · refine Or.inr ⟨hr, k, ?_, hk, hf⟩
    rintro rfl
    exact hout hk

theorem withdrawDevice_ram (h : t.Ram x) (hu : (t.deviceMaps m).used = true) :
    (t.withdrawDevice m).Ram x := by
  unfold Tables.withdrawDevice
  simp only
  generalize hv : (if (t.domains (t.deviceMaps m).domain).generation =
      (t.deviceMaps m).domainGeneration then
    t.removeRun (t.deviceMaps m).domain (t.deviceMaps m).vaddr (t.deviceMaps m).pages else t) = v
  have hram : v.Ram x := by
    rw [← hv]
    split
    · exact h.removeRun _ _ _
    · exact h
  have hsame : v.described = t.described ∧ v.deviceMaps = t.deviceMaps ∧ v.devices = t.devices ∧
      ∀ d, (v.domains d).generation = (t.domains d).generation := by
    rw [← hv]
    split
    · refine ⟨rfl, rfl, rfl, fun d => ?_⟩
      by_cases hd : d = (t.deviceMaps m).domain
      · rw [hd]
        simp [Tables.removeRun, Tables.setDomain]
      · simp [Tables.removeRun, Tables.setDomain, hd]
    · exact ⟨rfl, rfl, rfl, fun _ => rfl⟩
  obtain ⟨hdescribed, hmaps, hdevices, hgen⟩ := hsame
  -- The count on the region changes, and its address does not.
  have hout : ∀ w : Tables, w.Ram x → w.deviceMaps = v.deviceMaps → w.domains = v.domains →
      w.described = v.described →
      (∀ i k, ((w.devices i).regions k).phys = ((v.devices i).regions k).phys) →
      ((w.release (t.deviceMaps m).scope .metadata 1).setDeviceMap m .empty).Ram x := by
    intro w hw hwm hwd hwr hphys
    refine { hw with records := fun k hk => ?_, leaf := fun d space hd page f rights hmem => ?_ }
    · by_cases hkm : k = m
      · subst hkm
        simp [Tables.setDeviceMap, DeviceMap.empty] at hk
      · simp only [Tables.setDeviceMap, Function.update_of_ne hkm, Tables.release] at hk ⊢
        exact hw.records k hk
    · have hd' : (w.domains d).space = some space := hd
      rw [hwd] at hd'
      have hwt : w.described = t.described := hwr.trans hdescribed
      obtain hf | ⟨hr, k, hkm, ⟨hku, hkd, hkg, hkp⟩, hf⟩ := withdrawDevice_leaf h hu hv.symm hd' hmem
      · left
        show w.described f = true
        rw [hwt]
        exact hf
      refine Or.inr ⟨hr, k, ?_, ?_⟩
      · refine ⟨?_, ?_, ?_, ?_⟩ <;>
          simp only [Tables.setDeviceMap, Function.update_of_ne hkm, Tables.release, hwm, hmaps,
            hwd, hgen]
        · exact hku
        · exact hkd
        · exact hkg
        · exact hkp
      · simp only [Tables.physOf, Tables.setDeviceMap, Function.update_of_ne hkm, Tables.release,
          hwm, hmaps, hphys, hdevices]
        exact hf
  split
  · have hphys : ∀ i k, (((v.setDevice (t.deviceMaps m).device fun device =>
        { device with
          regions := Function.update device.regions (t.deviceMaps m).region
            { device.regions (t.deviceMaps m).region with
              maps := (device.regions (t.deviceMaps m).region).maps - 1 } }).devices i).regions k).phys =
        ((v.devices i).regions k).phys := by
      intro i k
      by_cases hi : i = (t.deviceMaps m).device
      · subst hi
        by_cases hk : k = (t.deviceMaps m).region
        · subst hk
          simp [Tables.setDevice]
        · simp [Tables.setDevice, hk]
      · simp [Tables.setDevice, hi]
    exact hout _ (hram.phys rfl hphys) rfl rfl rfl hphys
  · exact hout v hram rfl rfl rfl fun _ _ => rfl

theorem writeRegion_ram (h : t.Ram .idle)
    {i : DeviceId} {slot : RegionId} {vaddr : Nat} (hw : t.Windowable m d space i slot vaddr) :
    (t.writeRegion m d space i slot vaddr).Ram .idle := by
  -- A record that was in use is still there, and its domain has the generation it had.
  have hkeep : ∀ e page f, t.WindowAt e page f →
      (t.writeRegion m d space i slot vaddr).WindowAt e page f := by
    rintro e page f ⟨k, ⟨hu, hd, hg, hp⟩, hf⟩
    have hkm : k ≠ m := by
      rintro rfl
      rw [hw.unused] at hu
      cases hu
    have hgen : ((t.writeRegion m d space i slot vaddr).domains e).generation =
        (t.domains e).generation := by
      by_cases he : e = d
      · subst he
        simp [Tables.writeRegion, Tables.setSpace, Tables.setDomain, Tables.setDeviceMap]
      · simp [Tables.writeRegion, Tables.setSpace, Tables.setDomain, Tables.setDeviceMap, he]
    refine ⟨k, ⟨?_, ?_, ?_, ?_⟩, ?_⟩
    · simpa [Tables.writeRegion, Tables.setDeviceMap, hkm, Tables.setSpace] using hu
    · simpa [Tables.writeRegion, Tables.setDeviceMap, hkm, Tables.setSpace] using hd
    · rw [hgen]
      simpa [Tables.writeRegion, Tables.setDeviceMap, hkm, Tables.setSpace] using hg
    · simpa [Tables.writeRegion, Tables.setDeviceMap, hkm, Tables.setSpace] using hp
    · simpa [Tables.physOf, Tables.writeRegion, Tables.setDeviceMap, hkm, Tables.setSpace,
        Tables.setDomain] using hf
  have hspace : ∀ e new, ((t.writeRegion m d space i slot vaddr).domains e).space = some new →
      (e = d ∧ new = { space with
        leaves := entries vaddr ((t.devices i).regions slot).phys Tables.deviceRights
          ((t.devices i).regions slot).pages ++ space.leaves }) ∨
        (t.domains e).space = some new := by
    intro e new hnew
    by_cases he : e = d
    · subst he
      refine .inl ⟨rfl, ?_⟩
      simpa [Tables.writeRegion, Tables.setSpace, Tables.setDomain, Tables.setDeviceMap]
        using hnew.symm
    · refine .inr ?_
      simpa [Tables.writeRegion, Tables.setSpace, Tables.setDomain, Tables.setDeviceMap, he]
        using hnew
  refine { h with records := fun k hk => ?_, leaf := ?_, root := ?_, table := ?_ }
  · by_cases hkm : k = m
    · subst hkm
      simp only [Tables.writeRegion, Tables.setDeviceMap, Function.update_self]
      exact ⟨hw.aligned, hw.below⟩
    · simp only [Tables.writeRegion, Tables.setDeviceMap, Function.update_of_ne hkm,
        Tables.setSpace, Tables.setDomain] at hk ⊢
      exact h.records k hk
  · intro e new hnew page f rights hmem
    rcases hspace e new hnew with ⟨rfl, rfl⟩ | hold
    · rcases List.mem_append.mp hmem with hmem | hmem
      · obtain ⟨k, hk, heq⟩ := mem_entries.mp hmem
        obtain ⟨rfl, rfl, -⟩ := by simpa using heq
        refine .inr ⟨by simp [Midway.idle], m, ⟨?_, ?_, ?_, ?_⟩, ?_⟩
        · simp [Tables.writeRegion, Tables.setDeviceMap]
        · simp [Tables.writeRegion, Tables.setDeviceMap]
        · simp [Tables.writeRegion, Tables.setDeviceMap, Tables.setSpace, Tables.setDomain]
        · simp [Tables.writeRegion, Tables.setDeviceMap, inPages, inRun, hk, Tables.setSpace,
            Tables.setDomain]
        · simp [Tables.physOf, Tables.writeRegion, Tables.setDeviceMap, Tables.setSpace,
            Tables.setDomain]
      · exact (h.leaf e space hw.inSpace page f rights hmem).imp_right
          fun hw => ⟨hw.1, hkeep _ _ _ hw.2⟩
    · exact (h.leaf e new hold page f rights hmem).imp_right fun hw => ⟨hw.1, hkeep _ _ _ hw.2⟩
  · intro e new hnew
    rcases hspace e new hnew with ⟨rfl, rfl⟩ | hold
    · exact h.root e space hw.inSpace
    · exact h.root e new hold
  · intro e new hnew key f hmem
    rcases hspace e new hnew with ⟨rfl, rfl⟩ | hold
    · exact h.table e space hw.inSpace key f hmem
    · exact h.table e new hold key f hmem

theorem openObject_ram (h : t.Ram x) {base pages : Nat} (hb : base + pages ≤ t.allocator.frames)
    (hf : ∀ f, inRun base pages f → t.allocator.taken f = false) (maxRights : Rights)
    (sponsor : ScopeId) (refs : Nat) :
    ((t.growRun base pages).openObject i .writable base pages maxRights sponsor refs).Ram x := by
  have hgrown : (t.growRun base pages).Ram x := by
    refine h.pool (fun f hlt htaken => h.free f hlt ?_) h.waiting
    simp only [Allocator.growRun_taken, Bool.or_eq_false_iff] at htaken
    exact htaken.1
  refine { hgrown with object := fun j hj f hin => ?_ }
  by_cases hji : j = i
  · subst hji
    simp only [Tables.openObject, Tables.spendId_objects, Tables.setObject_objects,
      Function.update_self] at hin
    exact h.free f (by unfold inRun at hin; omega) (hf f hin)
  · simp only [Tables.openObject, Tables.spendId_objects, Tables.setObject_objects,
      Function.update_of_ne hji] at hj hin
    exact hgrown.object j hj f hin

theorem writeMap_ram (h : t.Ram x) {m : MapId} {request : MapRequest}
    (hm : t.Mappable m d space i request rights) :
    (t.writeMap m d space i request rights).Ram x := by
  have hspace : (t.setSpace d (some { space with
      leaves := entries request.vaddr ((t.objects i).base + request.offsetPages) rights
        request.pageCount ++ space.leaves })).Ram x := by
    refine h.setSpace ?_ ?_ ?_
    · intro new hnew page f rights' hmem
      obtain rfl := Option.some.inj hnew
      rcases List.mem_append.mp hmem with hmem | hmem
      · obtain ⟨k, hk, heq⟩ := mem_entries.mp hmem
        obtain ⟨-, rfl, -⟩ := by simpa using heq
        refine .inl (h.object i hm.object _ ?_)
        have := hm.fits
        simp only [inRun]
        omega
      · exact h.leaf d space hm.inSpace page f rights' hmem
    · intro new hnew
      obtain rfl := Option.some.inj hnew
      exact h.root d space hm.inSpace
    · intro new hnew key f hmem
      obtain rfl := Option.some.inj hnew
      exact h.table d space hm.inSpace key f hmem
  have hobject := hspace.setObject i (f := fun object =>
    { object with
      mapCount := object.mapCount + 1
      writableMaps :=
        if request.rights &&& Right.memoryWrite ≠ 0#32 then object.writableMaps + 1
        else object.writableMaps }) fun hne => ⟨hne, rfl, rfl⟩
  exact { hobject with records := hobject.records }

/-- **Every move keeps it.** -/
theorem Move.ram (h : Move care (s, x) (s', y)) (hs : s.tables.Ram x) : s'.tables.Ram y := by
  cases h with
  | quiet h => exact hs.quiet h
  | drain => exact hs.drain _
  | take bytes _ hf =>
    exact { hs.grow _ bytes with held := fun f h => Option.some.inj h ▸ hs.free _ hf.1 hf.2 }
  | leak => exact hs.midway (.inl rfl) fun _ h => h
  | reclaim _ _ _ => exact hs.reclaim _
  | table hd _ hf =>
    refine (hs.grow _ _).setSpace ?_ ?_ ?_
    · intro new hnew page f rights hmem
      obtain rfl := Option.some.inj hnew
      exact hs.leaf _ _ hd page f rights hmem
    · intro new hnew
      have hroot := hs.root _ _ hd
      obtain rfl := Option.some.inj hnew
      exact hroot
    · intro new hnew key f hmem
      obtain rfl := Option.some.inj hnew
      rcases List.mem_cons.mp hmem with heq | hmem
      · obtain ⟨-, rfl⟩ := Prod.mk.inj heq
        exact hs.free _ hf.1 hf.2
      · exact hs.table _ _ hd key f hmem
  | root _ _ hf =>
    refine (hs.grow _ _).setSpace ?_ ?_ ?_
    · intro new hnew page f rights hmem
      obtain rfl := Option.some.inj hnew
      cases hmem
    · intro new hnew
      obtain rfl := Option.some.inj hnew
      exact hs.free _ hf.1 hf.2
    · intro new hnew key f hmem
      obtain rfl := Option.some.inj hnew
      cases hmem
  | leaf rights _ hd _ hf =>
    have hnew := hs.midway (y := { x with held := none }) (.inl rfl) fun _ h => h
    refine hnew.setSpace ?_ ?_ ?_
    · intro new hnew page f rights hmem
      obtain rfl := Option.some.inj hnew
      rcases List.mem_cons.mp hmem with heq | hmem
      · obtain ⟨-, heq⟩ := Prod.mk.inj heq
        obtain ⟨rfl, -⟩ := Prod.mk.inj heq
        exact .inl (hs.held _ hf)
      · exact hs.leaf _ _ hd page f rights hmem
    · intro new hnew
      have hroot := hs.root _ _ hd
      obtain rfl := Option.some.inj hnew
      exact hroot
    · intro new hnew key f hmem
      obtain rfl := Option.some.inj hnew
      exact hs.table _ _ hd key f hmem
  | kernelTable _ hf =>
    refine { hs.grow _ _ with kernelTable := fun key f hmem => ?_ }
    rcases List.mem_cons.mp hmem with heq | hmem
    · obtain ⟨-, rfl⟩ := Prod.mk.inj heq
      exact hs.free _ hf.1 hf.2
    · exact hs.kernelTable key f hmem
  | kernelLeaf rights _ hf =>
    refine { hs with held := (by simp), kernelLeaf := fun page f rights hmem => ?_ }
    rcases List.mem_cons.mp hmem with heq | hmem
    · obtain ⟨-, heq⟩ := Prod.mk.inj heq
      obtain ⟨rfl, -⟩ := Prod.mk.inj heq
      exact hs.held _ hf
    · exact hs.kernelLeaf page f rights hmem
  | @dropKernelLeaf _ _ page f stamp rights hp _ _ =>
    have hf := hs.kernelLeaf _ _ _ (mem_of_lookup hp)
    have hretired := hs.retire stamp .kernel fun g (hg : g ∈ [f]) => by
      rw [List.mem_singleton.mp hg]
      exact hf
    exact { hretired with
      kernelLeaf := fun page f rights hmem =>
        hs.kernelLeaf page f rights (List.mem_filter.mp hmem).1 }
  | openObject maxRights sponsor refs _ hb hf _ => exact openObject_ram hs hb hf maxRights sponsor refs
  | collect hc _ => exact hs.freeObject (collectable_state hc) _ _
  | collectHeard hc _ _ => exact hs.freeObject (collectable_state hc) _ _
  | collectLater hc => exact hs.freeObject (collectable_state hc) _ _
  | retireObject hi _ _ _ => exact hs.freeObject hi _ _
  | @beginSeal _ _ i hi _ =>
    have hne : (s.tables.objects i).state ≠ .empty := by
      rcases hi with hi | hi <;> simp [hi]
    have hset := hs.setObject i (f := fun object => { object with state := .sealing })
      fun _ => ⟨hne, rfl, rfl⟩
    exact hset.midway (.inr rfl) fun _ h => h
  | shut _ _ => exact hs.midway (.inr rfl) fun _ h => h
  | finishSeal hi _ _ =>
    exact hs.setObject _ (f := fun object => { object with state := .sealed })
      fun _ => ⟨hi, rfl, rfl⟩
  | bootSeal _ hi _ _ =>
    exact hs.setObject _ (f := fun object => { object with state := .sealed })
      fun _ => ⟨by simp [hi], rfl, rfl⟩
  | write _ _ _ _ => exact hs.pool hs.free hs.waiting
  | fill _ _ => exact hs.pool hs.free hs.waiting
  | deviceWrite _ _ _ _ _ => exact hs.pool hs.free hs.waiting
  | store _ _ _ _ _ => exact hs.pool hs.free hs.waiting
  | map _ hm => exact writeMap_ram hs hm
  | ghost _ _ _ _ _ _ _ => exact hs
  | withdraw me hu =>
    rw [withdrawDeferring_tables s me _ hu]
    exact withdraw_ram hs _ _ _
  | region _ hx hw =>
    subst hx
    exact writeRegion_ram hs hw
  | dropRegion hu => exact withdrawDevice_ram hs hu
  | @dma _ _ g grant _ _ =>
    have hset := hs.setObject grant.memory (f := fun object =>
      { object with dmaGrants := object.dmaGrants + 1 }) fun hne => ⟨hne, rfl, rfl⟩
    exact { hset with records := hset.records }
  | @revoke _ _ g _ =>
    simp only [Tables.revokeGrant]
    split
    · have hset := hs.setObject (s.tables.dma g).memory (f := fun object =>
        { object with dmaGrants := object.dmaGrants - 1 }) fun hne => ⟨hne, rfl, rfl⟩
      exact { hset with records := hset.records }
    · exact { hs with records := hs.records }
  | @openDomain _ _ d owner reserved hx _ =>
    have hset := hs.setDomain d (y := { x with raising := some d }) (f := fun domain =>
      { Domain.empty (min (domain.generation + 1) u32Max) with
        state := .building, ownerScope := owner, reservedPages := reserved
        reservedMetadata := 2 }) (.inl rfl) (fun e he => .inr ⟨(Option.some.inj he).symm, rfl⟩) rfl
    exact { hset with records := hset.records }
  | raised hx _ => exact hs.midway (y := { x with raising := none }) (.inr rfl) fun _ h => by cases h
  | abandon hx =>
    refine hs.destroySpace _ _ fun space hspace page f rights hmem => ?_
    exact (hs.leaf _ space hspace page f rights hmem).resolve_right fun hw => hw.1 hx
  | emptyDomain _ _ _ =>
    exact hs.setDomain _ (y := { x with raising := none })
      (f := fun domain => .empty domain.generation) (.inl rfl) (fun _ h => by cases h) rfl
  | activate _ _ =>
    exact hs.setDomain _ (f := fun domain => { domain with state := .runnable })
      (.inr ⟨rfl, rfl⟩) (fun _ h => .inl h) rfl
  | stop _ _ _ =>
    exact hs.setDomain _ (f := fun domain => { domain with state := _ })
      (.inr ⟨rfl, rfl⟩) (fun _ h => .inl h) rfl
  | stopped _ _ => exact hs.midway (.inr rfl) fun _ h => h
  | destroy _ _ hw _ =>
    refine hs.destroySpace _ _ fun space hspace page f rights hmem => ?_
    refine (hs.leaf _ space hspace page f rights hmem).resolve_right ?_
    rintro ⟨-, m, ⟨hu, hd, hg, hp⟩, -⟩
    rw [hw m hu hd hg] at hp
    simp only [inPages, inRun] at hp
    omega
  | bury _ _ _ =>
    exact hs.setDomain _ (f := fun domain => { domain with state := .dead })
      (.inr ⟨rfl, rfl⟩) (fun _ h => .inl h) rfl
  | openScope _ _ _ _ _ => exact { hs with records := hs.records }
  | resetScope _ _ => exact { hs with records := hs.records }
  | fence _ => exact { hs with records := hs.records }
  | quiesce _ => exact { hs with records := hs.records }
  | retireScopes _ => exact { hs with records := hs.records }
  | alone a =>
    rw [alone_tables]
    exact hs
  | announce me =>
    simp only [State.announce]
    split <;> exact hs
  | look me =>
    simp only [State.look]
    split <;> exact hs
  | _ => exact hs

/-! ### What enters the pool -/

variable {regions : List Region} {content : Nat → Nat → UInt8}

theorem Allocator.new_taken {a : Allocator} (h : Allocator.new regions limit content = some a)
    (hf : a.taken f = false) : (regions.any fun r => r.kind == .usable && r.has f) = true := by
  unfold Allocator.new at h
  split at h
  · cases h
  · simp only at h
    split at h
    · obtain rfl := Option.some.inj h
      simp only [Bool.or_eq_false_iff, Bool.not_eq_false'] at hf
      exact hf.1.2
    · cases h

theorem Allocator.new_quarantine
    {a : Allocator} (h : Allocator.new regions limit content = some a) : a.quarantine = [] := by
  unfold Allocator.new at h
  split at h
  · cases h
  · simp only at h
    split at h
    · obtain rfl := Option.some.inj h
      rfl
    · cases h

theorem boot_ram {hw : Hardware} (h : hw.boot = some s) : s.tables.Ram .idle := by
  obtain ⟨a, ha, rfl⟩ := Option.map_eq_some_iff.mp h
  refine
    { records := fun m hm => by simp [Hardware.tables, DeviceMap.empty] at hm
      free := fun f _ hf => Allocator.new_taken ha hf
      waiting := fun q hq => ?_
      held := fun f hf => by cases hf
      leaf := fun d space hd => by simp [Hardware.tables, Domain.empty] at hd
      root := fun d space hd => by simp [Hardware.tables, Domain.empty] at hd
      table := fun d space hd => by simp [Hardware.tables, Domain.empty] at hd
      kernelLeaf := fun page f rights hmem => by cases hmem
      kernelTable := fun key f hmem => by cases hmem
      object := fun i hi => absurd rfl hi }
  have hq' : q ∈ a.quarantine := hq
  rw [Allocator.new_quarantine ha] at hq'
  cases hq'

/-- A frame that may be handed out, or will be once every processor has flushed, has been
described as RAM, by the memory map or by a call of `reclaim`. -/
def State.OnlyRam (s : State) : Prop :=
  (∀ f < s.tables.allocator.frames, s.tables.allocator.taken f = false →
    s.tables.described f = true) ∧
  ∀ q ∈ s.tables.allocator.quarantine, s.tables.described q.frame = true

/-- No domain is reaped while it has a window of registers mapped. -/
def Step.ReapsWindowless (s : State) : Step → Prop
  | .reap _ d _ => s.tables.Windowless d
  | _ => True

instance (t : Tables) (d : DomainId) : Decidable (t.Windowless d) :=
  inferInstanceAs (Decidable (∀ _ : Fin 12, _))

instance (s : State) (a : Step) : Decidable (a.ReapsWindowless s) := by
  cases a <;> unfold Step.ReapsWindowless <;> infer_instance

/-- **Only RAM enters the pool, in every run that reaps no domain with a window of registers
still mapped.** -/
theorem only_ram_enters {hw : Hardware}
    (h : ((memory hw).within fun s a => a.ReapsWindowless s).Reachable s) : s.OnlyRam := by
  have hram : s.tables.Ram .idle := by
    refine @reachable_invariant _ _ ⟨False, False, False, False⟩ _
      (fun s x => s.tables.Ram x) (fun s hs => boot_ram hs) (fun hm hs => hm.ram hs) ?_ h
    intro s a _ hok
    cases a with
    | reap me d between => exact ⟨hok, fun h => h.elim⟩
    | retire root => exact ⟨fun h => h.elim, fun h => h.elim⟩
    | mapRegion i session slot target vaddr => exact fun h => h
    | create _ _ _ _ => exact fun h => h.elim
    | module _ _ _ => exact fun h => h.elim
    | map _ _ _ _ _ _ => exact fun h => h.elim
    | finish _ _ => exact fun h => h.elim
    | _ => trivial
  exact ⟨hram.free, hram.waiting⟩

/-- A domain whose window is unmapped before it is reaped leaves nothing but RAM. -/
theorem unmapped_window_stays_out :
    ∃ s, ((memory .small).within fun s a => a.ReapsWindowless s).Reachable s ∧ s.OnlyRam ∧
      (s.tables.domains 0).state = .dead := by
  have hplayed : ((Hardware.small.playedWithin (fun s a => a.ReapsWindowless s)
      [.createDomain 0 Image.small (fun _ _ => 0) true fun _ => true,
        .mapRegion 0 1 0 0 0x10000, .unmapRegion 0 1 0x10000, .terminate 0 0 false,
        .reap 0 0 fun _ => [], .alone (.refresh 0), .drainQuarantine]).any fun s =>
      decide ((s.tables.domains 0).state = .dead)) = true := by
    decide +kernel
  obtain ⟨s, hs, hdead⟩ := (Option.any_eq_true _ _).mp hplayed
  have hreach := reachable_of_playedWithin hs
  exact ⟨s, hreach, only_ram_enters hreach, of_decide_eq_true hdead⟩

/-- The frame of a window that is mapped when its domain is reaped becomes free. -/
theorem window_enters_pool : ∃ s, (memory .small).Reachable s ∧ ¬ s.OnlyRam := by
  have hplayed : ((Hardware.small.played
      [.createDomain 0 Image.small (fun _ _ => 0) true fun _ => true,
        .mapRegion 0 1 0 0 0x10000, .terminate 0 0 false, .reap 0 0 fun _ => [],
        .alone (.refresh 0), .drainQuarantine]).any fun s =>
      decide (62 < s.tables.allocator.frames ∧ s.tables.allocator.taken 62 = false ∧
        s.tables.described 62 = false)) = true := by
    decide +kernel
  obtain ⟨s, hs, hwrong⟩ := (Option.any_eq_true _ _).mp hplayed
  refine ⟨s, reachable_of_played hs, fun honly => ?_⟩
  obtain ⟨hlt, hfree, hnot⟩ := of_decide_eq_true hwrong
  exact absurd (honly.1 62 hlt hfree) (by simp [hnot])

/-- **What a domain can reach is RAM or a window it has mapped there**, in every run that reaps no
domain with a window still mapped, between any two steps of any processor; and its page tables are
RAM. -/
theorem domain_reaches_ram_or_window {hw : Hardware}
    (h : ((memory hw).within fun s a => a.ReapsWindowless s).Reachable s) {d : DomainId}
    {space : AddressSpace} (hspace : (s.tables.domains d).space = some space) :
    s.tables.described space.root = true ∧
      (∀ key f, (key, f) ∈ space.tables → s.tables.described f = true) ∧
      ∀ page f rights, (page, f, rights) ∈ space.leaves →
        s.tables.described f = true ∨ s.tables.WindowAt d page f := by
  have hram : s.tables.Ram .idle := by
    refine @reachable_invariant _ _ ⟨False, False, False, False⟩ _
      (fun s x => s.tables.Ram x) (fun s hs => boot_ram hs) (fun hm hs => hm.ram hs) ?_ h
    intro s a _ hok
    cases a with
    | reap me d between => exact ⟨hok, fun h => h.elim⟩
    | retire root => exact ⟨fun h => h.elim, fun h => h.elim⟩
    | mapRegion i session slot target vaddr => exact fun h => h
    | create | module | map | finish => exact fun h => h.elim
    | _ => trivial
  refine ⟨hram.root d space hspace, hram.table d space hspace, fun page f rights hleaf => ?_⟩
  exact (hram.leaf d space hspace page f rights hleaf).imp_right And.right

theorem domain_reaches_ram_or_window_mapped : ∃ (s : State) (space : AddressSpace),
    (s.tables.domains 0).space = some space ∧ s.tables.described space.root = true := by
  have hplayed : ((Hardware.small.playedWithin (fun s a => a.ReapsWindowless s)
      [.createDomain 0 Image.small (fun _ _ => 0) true fun _ => true,
        .mapRegion 0 1 0 0 0x10000]).any fun s => (s.tables.domains 0).space.isSome) = true := by
    decide +kernel
  obtain ⟨s, hs, hsome⟩ := (Option.any_eq_true _ _).mp hplayed
  obtain ⟨space, hspace⟩ := Option.isSome_iff_exists.mp hsome
  exact ⟨s, space, hspace, (domain_reaches_ram_or_window (reachable_of_playedWithin hs) hspace).1⟩

end Thalyx.Kernel.Memory
