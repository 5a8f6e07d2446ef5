/-
The moves of mappings, register windows and device grants.

A run of pages is installed in two parts: the interior tables it needs, which are moves of
their own and stay, and the entries, which are one move together with the record that
accounts for them, or are taken out again.
-/
import ThalyxKernel.Kernel.Memory.Growth

namespace Thalyx.Kernel.Memory

open AddressSpace (pageSize)
open Allocator (Same inRun Drains)

variable {care : Care} {s : State} {x : Midway} {t u : Tables}
variable {n vaddr : Nat}

theorem reserve_opened {scopes scopes' : Scopes} {scope : ScopeId} {r : Resource}
    (h : scopes.reserve scope r n = some scopes') :
    ∀ j ∈ scopes.chain scope, (scopes j).state = .opened := by
  unfold Scopes.reserve at h
  generalize scopes.chain scope = nodes at h
  induction nodes generalizing scopes with
  | nil => simp
  | cons i rest ih =>
    rw [Scopes.reserveAlong] at h
    split at h
    · rename_i hroom
      have hopen : (scopes i).state = .opened := by
        simp only [Scopes.hasRoom, Bool.and_eq_true, beq_iff_eq] at hroom
        exact hroom.1
      intro j hj
      rcases List.mem_cons.mp hj with rfl | hj
      · exact hopen
      · have hstate := ih h j hj
        simp only [Scopes.charge, Scopes.set, Function.update_apply] at hstate
        split at hstate
        · rename_i hji
          rw [hji]
          exact hopen
        · exact hstate
    · cases h

/-! ### Runs of pages in a domain's space -/

variable {d : DomainId}
variable {space : AddressSpace}

theorem Tables.at_self
    (h : (t.domains d).space = some space) : t.at d (space, t.allocator) = t := by
  unfold Tables.at Tables.setSpace Tables.setDomain
  rw [← h]
  simp

variable {rights : PageRights}
variable {count frame : Nat}

/-- **A run of pages installed: first tables, which stay, and then the entries of pages that
had none.** -/
theorem installRun_spec (care : Care) (x : Midway) (hs : (t.domains d).space = some space)
    {failure : Option MapError}
    (h : t.installRun s.safeGeneration d vaddr frame rights count = (u, n, failure)) :
    ∃ p : AddressSpace × Allocator,
      Goes care s x t (t.at d ({ p.1 with leaves := space.leaves }, p.2)) ∧ u = t.at d p ∧
      p.1.leaves = entries vaddr frame rights n ++ space.leaves ∧
      (∀ page, inPages vaddr n page → space.leaves.lookup page = none) ∧
      n ≤ count ∧ (failure = none → n = count) ∧ (failure ≠ none → n < count) := by
  unfold Tables.installRun at h
  rw [hs] at h
  simp only at h
  cases hrun : mapRun space vaddr frame rights t.allocator s.safeGeneration (.domain d) count with
  | mk a r =>
    obtain ⟨space', n', failure'⟩ := r
    obtain ⟨hle, hall, hpart, hleaves, hclear, hgrows⟩ := mapRun_spec hrun
    rw [hrun] at h
    simp only [Prod.mk.injEq] at h
    obtain ⟨rfl, rfl, rfl⟩ := h
    refine ⟨(space', a), ?_, rfl, hleaves, hclear, hle, hall, hpart⟩
    have hgoes : Goes care s x (t.at d (space, t.allocator)) _ := .grows hgrows
    rwa [Tables.at_self hs] at hgoes

variable {p : AddressSpace × Allocator} {leaves : List (Nat × Nat × PageRights)}

theorem removeRun_at
    (ha : vaddr % pageSize = 0) (hb : vaddr + count * pageSize ≤ userMaxAddr) (hn : n ≤ count)
    (hleaves : p.1.leaves = entries vaddr frame rights n ++ leaves)
    (hclear : ∀ page, inPages vaddr n page → leaves.lookup page = none) :
    (t.at d p).removeRun d vaddr n = t.at d ({ p.1 with leaves }, p.2) := by
  have hbelow : vaddr + n * pageSize ≤ userMaxAddr :=
    le_trans (Nat.add_le_add_left (Nat.mul_le_mul_right _ hn) _) hb
  have hout : (entries vaddr frame rights n).filter
      (fun leaf => !decide (inPages vaddr n leaf.1)) = [] := by
    rw [List.filter_eq_nil_iff]
    intro leaf hleaf
    simpa using entries_keys.mp (List.mem_map_of_mem hleaf)
  have hin : leaves.filter (fun leaf => !decide (inPages vaddr n leaf.1)) = leaves := by
    rw [List.filter_eq_self]
    intro leaf hleaf
    have hno : ¬ inPages vaddr n leaf.1 := fun hp =>
      not_mem_of_lookup_none (hclear leaf.1 hp) (List.mem_map_of_mem hleaf)
    simpa using hno
  have hrun : unmapRun p.1 vaddr n = { p.1 with leaves } := by
    rw [unmapRun_eq ha hbelow, hleaves, List.filter_append, hout, hin, List.nil_append]
  simp [Tables.removeRun, Tables.at, Tables.setSpace, Tables.setDomain, hrun]

/-! ### Mappings -/

variable {capRights : Rights} {request : MapRequest}

theorem mapChecks_ok {i : MemoryId} {m : MapId}
    (h : t.mapChecks d i capRights request = .ok (rights, m)) :
    0 < request.pageCount ∧
      ((t.domains d).state = .building ∨ (t.domains d).state = .runnable) ∧
      mappingRights request.rights = .ok rights ∧
      (rights.write = true → (t.objects i).state = .writable) ∧
      request.offsetPages + request.pageCount ≤ (t.objects i).pages ∧
      request.vaddr % pageSize = 0 ∧
      request.vaddr + request.pageCount * pageSize ≤ userMaxAddr ∧ (t.maps m).used = false := by
  unfold Tables.mapChecks at h
  simp only [bind, Except.bind, pure, Except.pure, throw, throwThe, MonadExceptOf.throw] at h
  repeat' split at h
  all_goals cases h
  rename_i hcount hstate _ _ _ hfits haligned hbelow _ hrights hwrite hfind
  refine ⟨by omega, by tauto, hrights, by tauto, by omega, by omega, by omega, ?_⟩
  simpa using List.find?_some hfind

variable {owner : ScopeId}

theorem reserveMap_ok (h : t.reserveMap owner = (u, true)) :
    (∃ scopes, Calm t.scopes scopes ∧ u = { t with scopes }) ∧
      ∀ j ∈ t.scopes.chain owner, (t.scopes j).state = .opened := by
  unfold Tables.reserveMap at h
  split at h
  · cases h
  rename_i scopes hscopes
  split at h
  · cases h
  rename_i scopes' hscopes'
  obtain ⟨rfl, -⟩ := Prod.mk.inj h
  exact ⟨⟨scopes', (calm_reserve hscopes).trans (calm_reserve hscopes'), rfl⟩,
    reserve_opened hscopes⟩

theorem reserveMap_refused (h : t.reserveMap owner = (u, false)) : Goes care s x t u := by
  unfold Tables.reserveMap at h
  split at h
  · obtain ⟨rfl, -⟩ := Prod.mk.inj h
    exact .refl _
  rename_i scopes hscopes
  split at h
  · obtain ⟨rfl, -⟩ := Prod.mk.inj h
    exact .scopes ((calm_reserve hscopes).trans (calm_release _ _ _ _))
  · cases h

theorem Calm.set {a b : Scopes} (h : Calm a b) (i : ScopeId) {f : Scope → Scope}
    (hf : ∀ node node' : Scope, node'.state = node.state → node'.parent = node.parent →
      node'.mapsPending = node.mapsPending → (f node').state = (f node).state ∧
        (f node').parent = (f node).parent ∧ (f node').mapsPending = (f node).mapsPending) :
    Calm (a.set i f) (b.set i f) := by
  intro j
  unfold Scopes.set
  by_cases hj : j = i
  · subst hj
    obtain ⟨hs, hp, hm⟩ := h j
    simpa using hf (a j) (b j) hs hp hm
  · simpa [hj] using h j

theorem Goes.recordMap {i : MemoryId} {m : MapId} {before : Nat} (hx : x = .idle)
    (hleaves : p.1.leaves = entries request.vaddr ((t.objects i).base + request.offsetPages) rights
      request.pageCount ++ leaves)
    (h : (t.at d ({ p.1 with leaves }, p.2)).Mappable m d { p.1 with leaves } i request rights) :
    Goes care s x (t.at d ({ p.1 with leaves }, p.2))
      ((t.at d p).recordMap m d i request before) := by
  refine .trans (.move (.map hx h)) (.quiet ?_)
  have hspace : p.1 = { p.1 with
      leaves := entries request.vaddr ((t.objects i).base + request.offsetPages) rights
        request.pageCount ++ leaves } := by
    rw [← hleaves]
  have hscopes := Calm.set (calm_release t.scopes (t.domains d).ownerScope .memoryPages
    (mapTableReserve - min (p.2.charged (.domain d) - before) mapTableReserve))
    (t.domains d).ownerScope (f := fun node => { node with mapsPending := node.mapsPending + 1 })
    (fun _ _ hs hp hm => ⟨hs, hp, by simp only [hm]⟩)
  refine { Tables.Quiet.refl _ with
    scopes := fun j => ?_, domains := fun e => ?_, objects := fun j => ⟨_, rfl⟩, maps := ?_ }
  · simpa [Tables.recordMap, Tables.writeMap, Tables.at, Tables.setSpace, Tables.setDomain,
      Tables.setMap, Tables.setObject, Tables.release, State.withTables] using hscopes j
  · by_cases he : e = d
    · subst he
      simpa [Tables.recordMap, Tables.writeMap, Tables.at, Tables.setSpace, Tables.setDomain,
        Tables.setMap, Tables.setObject, Tables.release, State.withTables] using hspace
    · simp [Tables.recordMap, Tables.writeMap, Tables.at, Tables.setSpace, Tables.setDomain,
        Tables.setMap, Tables.setObject, Tables.release, State.withTables, he]
  · simp [Tables.recordMap, Tables.writeMap, Tables.at, Tables.setSpace, Tables.setDomain,
      Tables.setMap, Tables.setObject, Tables.release, State.withTables]

/-! ### Register windows -/

variable {m : DeviceMapId}
variable {i : DeviceId} {slot : RegionId}

theorem regionChecks_ok {session : Nat} (h : t.regionChecks i session slot d vaddr = .ok m) :
    (t.domains d).state = .building ∧ vaddr % pageSize = 0 ∧
      vaddr + ((t.devices i).regions slot).pages * pageSize ≤ userMaxAddr ∧
      (t.deviceMaps m).used = false := by
  unfold Tables.regionChecks at h
  simp only [bind, Except.bind, pure, Except.pure, throw, throwThe, MonadExceptOf.throw] at h
  repeat' split at h
  all_goals cases h
  rename_i _ _ haligned hstate hbelow _ hfind
  refine ⟨by tauto, by omega, by omega, ?_⟩
  simpa using List.find?_some hfind

theorem Goes.recordRegion (hx : x = .idle) (hcare : ¬ care.noWindows)
    (hleaves : p.1.leaves = entries vaddr ((t.devices i).regions slot).phys Tables.deviceRights
      ((t.devices i).regions slot).pages ++ leaves)
    (h : (t.at d ({ p.1 with leaves }, p.2)).Windowable m d { p.1 with leaves } i slot vaddr) :
    Goes care s x (t.at d ({ p.1 with leaves }, p.2))
      ((t.at d p).recordRegion m i slot d vaddr) := by
  refine .trans (.move (.region hcare hx h)) (.quiet ?_)
  have hspace : p.1 = { p.1 with
      leaves := entries vaddr ((t.devices i).regions slot).phys Tables.deviceRights
        ((t.devices i).regions slot).pages ++ leaves } := by
    rw [← hleaves]
  refine { Tables.Quiet.refl _ with
    domains := fun e => ?_, deviceMaps := ?_, windows := fun j k => ?_ }
  · by_cases he : e = d
    · subst he
      simpa [Tables.recordRegion, Tables.writeRegion, Tables.at, Tables.setSpace,
        Tables.setDomain, Tables.setDeviceMap, Tables.setDevice, State.withTables] using hspace
    · simp [Tables.recordRegion, Tables.writeRegion, Tables.at, Tables.setSpace,
        Tables.setDomain, Tables.setDeviceMap, Tables.setDevice, State.withTables, he]
  · simp [Tables.recordRegion, Tables.writeRegion, Tables.at, Tables.setSpace,
      Tables.setDomain, Tables.setDeviceMap, Tables.setDevice, State.withTables]
  · by_cases hj : j = i
    · subst hj
      by_cases hk : k = slot
      · subst hk
        simp [Tables.recordRegion, Tables.writeRegion, Tables.at, Tables.setSpace,
          Tables.setDomain, Tables.setDeviceMap, Tables.setDevice, State.withTables]
      · simp [Tables.recordRegion, Tables.writeRegion, Tables.at, Tables.setSpace,
          Tables.setDomain, Tables.setDeviceMap, Tables.setDevice, State.withTables, hk]
    · simp [Tables.recordRegion, Tables.writeRegion, Tables.at, Tables.setSpace,
        Tables.setDomain, Tables.setDeviceMap, Tables.setDevice, State.withTables, hj]

/-- The domains that can be mapped into have a space. -/
def Tables.Housed (t : Tables) : Prop :=
  ∀ d, (t.domains d).state = .building ∨ (t.domains d).state = .runnable →
    ∃ space, (t.domains d).space = some space

theorem Goes.mapRegion (hx : x = .idle) (hcare : ¬ care.noWindows) (hh : t.Housed) (i : DeviceId)
    (session : Nat) (slot : RegionId) (d : DomainId) (vaddr : Nat) :
    Goes care s x t (t.mapRegion s.safeGeneration i session slot d vaddr).1 := by
  unfold Tables.mapRegion
  split
  · exact .refl _
  rename_i m hm
  obtain ⟨hstate, haligned, hbelow, hunused⟩ := regionChecks_ok hm
  obtain ⟨space, hspace⟩ := hh d (.inl hstate)
  simp only
  split
  · exact .refl _
  rename_i scopes hscopes
  have hcalm : Goes care s x t { t with scopes } := .scopes (calm_reserve hscopes)
  generalize hrun : Tables.installRun _ _ _ _ _ _ _ = r
  obtain ⟨u, n, failure⟩ := r
  obtain ⟨p, hgoes, rfl, hleaves, hclear, hle, -, -⟩ :=
    installRun_spec (t := { t with scopes }) care x hspace hrun
  simp only
  split
  · refine (hcalm.trans hgoes).trans ?_
    rw [removeRun_at haligned hbelow hle hleaves hclear]
    exact .release _ _ _
  · rename_i hn
    have hn : n = ((t.devices i).regions slot).pages := by simpa using hn
    rw [hn] at hleaves hclear
    refine (hcalm.trans hgoes).trans (.recordRegion hx hcare hleaves ?_)
    exact
      { unused := hunused
        inSpace := Tables.at_space _ _ _
        state := by simpa [Tables.at, Tables.setSpace, Tables.setDomain] using hstate
        aligned := haligned
        below := hbelow
        clear := hclear }

theorem Goes.withdrawDevice (h : (t.deviceMaps m).used = true) :
    Goes care s x t (t.withdrawDevice m) := .move (.dropRegion h)

theorem Goes.unmapRegion (i : DeviceId) (session vaddr : Nat) :
    Goes care s x t (t.unmapRegion i session vaddr).1 := by
  unfold Tables.unmapRegion
  split
  · exact .refl _
  split
  · exact .refl _
  · rename_i m hm
    refine .withdrawDevice ?_
    have := List.find?_some hm
    simp only [Bool.and_eq_true] at this
    exact this.1.1

/-! ### Device grants -/

variable {memory : MemoryId}

theorem dmaChecks_ok {request : Tables.DmaMapRequest} {sustained : Bool} {g : DmaId}
    (h : t.dmaChecks i memory capRights request sustained = .ok g) :
    request.offsetPages + request.pageCount ≤ (t.objects memory).pages ∧
      (request.rights &&& Right.memoryWrite ≠ 0#32 → (t.objects memory).state = .writable) ∧
      (t.dma g).used = false := by
  unfold Tables.dmaChecks at h
  simp only [bind, Except.bind, pure, Except.pure, throw, throwThe, MonadExceptOf.throw] at h
  repeat' split at h
  all_goals cases h
  rename_i hfits hwrite _ _ hfind
  refine ⟨by omega, by tauto, ?_⟩
  simpa using List.find?_some hfind

theorem Goes.dmaMap (hx : x = .idle) (caller : DomainId) (i : DeviceId)
    (ho : (t.objects memory).state ≠ .empty) (capRights : Rights)
    (request : Tables.DmaMapRequest) (sustained : Bool) :
    Goes care s x t (t.dmaMap caller i memory capRights request sustained).1 := by
  unfold Tables.dmaMap
  split
  · exact .refl _
  rename_i g hg
  obtain ⟨hfits, hwrite, hunused⟩ := dmaChecks_ok hg
  simp only
  split
  · exact .refl _
  rename_i scopes hscopes
  refine .trans (.scopes (calm_reserve hscopes)) (.move (.dma hx ?_))
  exact
    { unused := hunused, used := rfl, object := ho, generation := rfl, fits := hfits
      iova := rfl, writable := hwrite }

theorem Goes.revokeGrant {g : DmaId} (h : (t.dma g).used = true) :
    Goes care s x t (t.revokeGrant g) := .move (.revoke h)

theorem Goes.dmaUnmap (i : DeviceId) (session iova : Nat) :
    Goes care s x t (t.dmaUnmap i session iova).1 := by
  unfold Tables.dmaUnmap
  split
  · exact .refl _
  split
  · exact .refl _
  split
  · exact .refl _
  · rename_i g hg
    refine .revokeGrant ?_
    have := List.find?_some hg
    simp only [Bool.and_eq_true] at this
    exact this.1.1

theorem Goes.device (i : DeviceId) {f : Device → Device}
    (h : (f (t.devices i)).regions = (t.devices i).regions) :
    Goes care s x t (t.setDevice i f) := by
  refine .quiet { Tables.Quiet.refl t with windows := fun j k => ?_ }
  by_cases hj : j = i
  · subst hj
    simp [Tables.setDevice, h]
  · simp [Tables.setDevice, hj]

theorem Goes.foldl {ι : Type} {f : Tables → ι → Tables} (l : List ι)
    (h : ∀ t i, Goes care s x t (f t i)) : Goes care s x t (l.foldl f t) := by
  induction l generalizing t with
  | nil => exact .refl _
  | cons i rest ih => exact (h t i).trans ih

theorem Goes.finishReset (i : DeviceId) : Goes care s x t (t.finishReset i) := by
  unfold Tables.finishReset
  refine Goes.trans (.device i rfl) (Goes.trans (.foldl _ fun t m => ?_)
    (Goes.trans (.foldl _ fun t g => ?_) (.device i rfl)))
  · split
    · rename_i h
      exact .withdrawDevice h.1
    · exact .refl _
  · split
    · rename_i h
      exact .revokeGrant h.1
    · exact .refl _

end Thalyx.Kernel.Memory
