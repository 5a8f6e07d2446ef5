/-
What ends with a session.

The invariant says that every record is of the session its device is in, that every page of a
register in a domain's space has its record, that a device that masters the bus is recorded as
one, and that it does not while a reset has stopped it.  The last is kept only if nothing
enables bus mastering between the two locks of a reset: the session is still the old one
there, and an operation that names it is accepted.
-/
import ThalyxKernel.Kernel.Session

namespace Thalyx.Kernel.Session

open Function Option

variable {τ : Type}

/-- A reset of the device turned bus mastering off, and has not finished. -/
def State.Stopped (s : State τ) (d : DeviceId) : Prop :=
  ∃ t, s.resets t = some (.stopped d) ∨ s.resets t = some (.confirmed d)

/-- What holds between two acts. -/
structure Inv (s : State τ) : Prop where
  maps : ∀ m, (s.maps m).used = true → (s.maps m).session = (s.devices (s.maps m).device).session
  grants : ∀ g, (s.grants g).used = true →
    (s.grants g).session = (s.devices (s.grants g).device).session
  irqs : ∀ i, (s.irqs i).used = true → (s.irqs i).session = (s.devices (s.irqs i).device).session
  /-- A page of a register is in the window of a record. -/
  pages : ∀ x leaves page d, (s.domains x).space = some leaves →
    leaves page = some (.register d) → ∃ m, (s.maps m).used = true ∧ (s.maps m).device = d
      ∧ (s.maps m).domain = x ∧ (s.maps m).domainGeneration = (s.domains x).generation
      ∧ (s.maps m).vaddr / pageSize ≤ page
      ∧ page < (s.maps m).vaddr / pageSize + (s.maps m).pages
  masters : ∀ d, s.command d = true → (s.devices d).busMaster = true
  stopped : ∀ d, s.Stopped d → s.command d = false

theorem Fresh.inv {s : State τ} (h : Fresh s) : Inv s where
  maps := by
    intro m hm
    rw [h.maps m] at hm
    cases hm
  grants := by
    intro g hg
    rw [h.grants g] at hg
    cases hg
  irqs := by
    intro i hi
    rw [h.irqs i] at hi
    cases hi
  pages := by
    intro x leaves page d hspace hleaf
    rw [h.spaces x leaves page hspace] at hleaf
    cases hleaf
  masters := by
    intro d hd
    rw [h.command d] at hd
    cases hd
  stopped := fun d _ => h.command d

/-! ### What one operation does -/

namespace State

variable {s s' : State τ} {d : DeviceId}
variable {answer : Answer}

theorem mapRegion_cases {request : MapRequest} (h : s.mapRegion d request = (s', answer)) :
    s' = s ∨ ∃ m x pages space, (s.maps m).used = false
      ∧ install (s.domains x).space d (request.vaddr / pageSize) pages request.tables = some space
      ∧ s' = { s with
          domains := update s.domains x { s.domains x with space }
          maps := update s.maps m
            { used := true, device := d, session := (s.devices d).session
              region := request.region, domain := x
              domainGeneration := (s.domains x).generation
              vaddr := request.vaddr, pages } } := by
  simp only [mapRegion] at h
  split at h
  · exact .inl (Prod.mk.inj h).1.symm
  split at h
  · exact .inl (Prod.mk.inj h).1.symm
  rename_i pages hpages
  split at h
  · exact .inl (Prod.mk.inj h).1.symm
  split at h
  · exact .inl (Prod.mk.inj h).1.symm
  rename_i x hx
  split at h
  · exact .inl (Prod.mk.inj h).1.symm
  split at h
  · exact .inl (Prod.mk.inj h).1.symm
  split at h
  · exact .inl (Prod.mk.inj h).1.symm
  rename_i m hm
  split at h
  · exact .inl (Prod.mk.inj h).1.symm
  split at h
  · exact .inl (Prod.mk.inj h).1.symm
  rename_i space hspace
  refine .inr ⟨m, x, pages, space, ?_, hspace, (Prod.mk.inj h).1.symm⟩
  simpa using List.find?_some hm

variable {session : Nat}

theorem unmapRegion_cases {vaddr : Nat} {acknowledged : Bool}
    (h : s.unmapRegion d session vaddr acknowledged = (s', answer)) :
    s' = s ∨ ∃ m, s' = s.withdrawDeviceMap m := by
  simp only [unmapRegion] at h
  split at h
  · exact .inl (Prod.mk.inj h).1.symm
  split at h
  · exact .inl (Prod.mk.inj h).1.symm
  · exact .inr ⟨_, (Prod.mk.inj h).1.symm⟩

theorem bindIrq_cases {request : IrqRequest} (h : s.bindIrq d request = (s', answer)) :
    s' = s ∨ ∃ i b, s' = { s with irqs := update s.irqs i b }
      ∧ b.device = d ∧ b.session = (s.devices d).session := by
  simp only [bindIrq] at h
  split at h
  · exact .inl (Prod.mk.inj h).1.symm
  split at h
  · exact .inl (Prod.mk.inj h).1.symm
  split at h
  · exact .inl (Prod.mk.inj h).1.symm
  split at h
  · exact .inl (Prod.mk.inj h).1.symm
  split at h
  · exact .inl (Prod.mk.inj h).1.symm
  split at h
  · exact .inl (Prod.mk.inj h).1.symm
  split at h
  · exact .inr ⟨_, _, (Prod.mk.inj h).1.symm, rfl, rfl⟩
  · exact .inl (Prod.mk.inj h).1.symm

variable {masters : DeviceId → Bool}

theorem setMaster_cases {enable : Bool} (h : s.setMaster masters d session enable = (s', answer)) :
    s' = s ∨ s.sessionOk d session = true ∧ s' = { s with
      devices := update s.devices d
        { s.devices d with
          busMaster := enable && masters d
          state := if enable && masters d then .running else .ready }
      command := update s.command d (enable && masters d) } := by
  simp only [setMaster, setCommand, update_self] at h
  split at h
  · exact .inl (Prod.mk.inj h).1.symm
  · rename_i hsession
    exact .inr ⟨by simpa using hsession, (Prod.mk.inj h).1.symm⟩

theorem dmaMap_cases {request : DmaMapRequest} (h : s.dmaMap d request = (s', answer)) :
    s' = s ∨ ∃ g b, s' = { s with grants := update s.grants g b }
      ∧ b.device = d ∧ b.session = (s.devices d).session := by
  simp only [dmaMap] at h
  split at h
  · exact .inl (Prod.mk.inj h).1.symm
  split at h
  · exact .inl (Prod.mk.inj h).1.symm
  split at h
  · exact .inl (Prod.mk.inj h).1.symm
  · exact .inr ⟨_, _, (Prod.mk.inj h).1.symm, rfl, rfl⟩

theorem dmaUnmap_cases {request : DmaUnmapRequest} (h : s.dmaUnmap d request = (s', answer)) :
    (s' = s ∧ ∀ n, answer ≠ .ok n)
      ∨ (s.devices d).busMaster = false ∧ ∃ g, s' = s.revokeGrant g := by
  simp only [dmaUnmap] at h
  split at h
  · obtain ⟨rfl, rfl⟩ := Prod.mk.inj h
    exact .inl ⟨rfl, fun n => by simp⟩
  split at h
  · obtain ⟨rfl, rfl⟩ := Prod.mk.inj h
    exact .inl ⟨rfl, fun n => by simp⟩
  split at h
  · obtain ⟨rfl, rfl⟩ := Prod.mk.inj h
    exact .inl ⟨rfl, fun n => by simp⟩
  rename_i hmaster
  split at h
  · obtain ⟨rfl, rfl⟩ := Prod.mk.inj h
    exact .inl ⟨rfl, fun n => by simp⟩
  · exact .inr ⟨by simpa using hmaster, _, (Prod.mk.inj h).1.symm⟩

theorem refused [DecidableEq τ] {act : Act τ}
    (hnames : act.names = some (d, session)) (hother : (s.devices d).session ≠ session) :
    perform masters s act = some (s, .error .stateConflict) := by
  have hsession : s.sessionOk d session = false := by
    simp [sessionOk, hother]
  cases act with
  | mapRegion e request =>
    obtain ⟨rfl, rfl⟩ := Prod.mk.inj (some.inj hnames)
    simp [perform, mapRegion, hsession]
  | unmapRegion e named vaddr acknowledged =>
    obtain ⟨rfl, rfl⟩ := Prod.mk.inj (some.inj hnames)
    simp [perform, unmapRegion, hsession]
  | bindIrq e request =>
    obtain ⟨rfl, rfl⟩ := Prod.mk.inj (some.inj hnames)
    simp [perform, bindIrq, hsession]
  | setMaster e named enable =>
    obtain ⟨rfl, rfl⟩ := Prod.mk.inj (some.inj hnames)
    simp [perform, setMaster, hsession]
  | dmaMap e request =>
    obtain ⟨rfl, rfl⟩ := Prod.mk.inj (some.inj hnames)
    simp [perform, dmaMap, dmaChecks, hsession]
  | dmaUnmap e request =>
    obtain ⟨rfl, rfl⟩ := Prod.mk.inj (some.inj hnames)
    simp [perform, dmaUnmap, hsession]
  | markReset t e => cases hnames
  | stopReset t => cases hnames
  | confirmReset t confirmed => cases hnames
  | finishReset t acknowledged => cases hnames
  | replaceDomain x generation built => cases hnames
  | memoryPage x page mapped => cases hnames

end State

/-! ### The invariant is kept -/

namespace Inv

variable {s : State τ}

theorem setIrq (h : Inv s) {i : Fin maxIrqBindings} {b : IrqBinding}
    (hb : b.used = true → b.session = (s.devices b.device).session) :
    Inv { s with irqs := update s.irqs i b } :=
  { h with
    irqs := (forall_update_iff s.irqs fun _ b =>
      b.used = true → b.session = (s.devices b.device).session).mpr ⟨hb, fun j _ => h.irqs j⟩
    stopped := h.stopped }

theorem setGrant (h : Inv s) {g : Fin maxDmaGrants} {b : DmaGrant}
    (hb : b.used = true → b.session = (s.devices b.device).session) :
    Inv { s with grants := update s.grants g b } :=
  { h with
    grants := (forall_update_iff s.grants fun _ b =>
      b.used = true → b.session = (s.devices b.device).session).mpr ⟨hb, fun j _ => h.grants j⟩
    stopped := h.stopped }

theorem revokeGrant (h : Inv s) (g : Fin maxDmaGrants) : Inv (s.revokeGrant g) :=
  h.setGrant fun hused => nomatch hused

variable {d : DeviceId}
variable {space : Option (Nat → Option Leaf)} {leaves : Nat → Option Leaf}

theorem install_leaf {e : DeviceId}
    {first pages page : Nat} {tables : Bool} {space' : Option (Nat → Option Leaf)}
    (h : State.install space d first pages tables = some space') (hspace : space' = some leaves)
    (hleaf : leaves page = some (.register e)) :
    (e = d ∧ first ≤ page ∧ page < first + pages)
      ∨ ∃ before, space = some before ∧ before page = some (.register e) := by
  simp only [State.install] at h
  split at h
  · cases h
    exact .inr ⟨leaves, hspace, hleaf⟩
  · split at h
    · cases h
    rename_i before
    split at h
    · cases h
      cases hspace
      dsimp only at hleaf
      split at hleaf
      · rename_i hrange
        cases hleaf
        exact .inl ⟨rfl, hrange⟩
      · exact .inr ⟨before, rfl, hleaf⟩
    · cases h

theorem mapRegion (h : Inv s) {x : DomainId} {m : Fin maxDeviceMaps}
    {region vaddr pages : Nat} {tables : Bool} (hfree : (s.maps m).used = false)
    (hinstall : State.install (s.domains x).space d (vaddr / pageSize) pages tables = some space) :
    Inv { s with
      domains := update s.domains x { s.domains x with space }
      maps := update s.maps m
        { used := true, device := d, session := (s.devices d).session, region, domain := x
          domainGeneration := (s.domains x).generation, vaddr, pages } } where
  maps := (forall_update_iff s.maps fun _ r =>
    r.used = true → r.session = (s.devices r.device).session).mpr
      ⟨fun _ => rfl, fun n _ => h.maps n⟩
  grants := h.grants
  irqs := h.irqs
  masters := h.masters
  stopped := h.stopped
  pages := by
    intro y leaves page e hspace hleaf
    dsimp only at hspace ⊢
    -- A page there was has a record that was in use, which the new one does not replace.
    have hold : ∀ before, (s.domains y).space = some before →
        before page = some (.register e) → ∃ n, n ≠ m ∧ (s.maps n).used = true
          ∧ (s.maps n).device = e ∧ (s.maps n).domain = y
          ∧ (s.maps n).domainGeneration = (s.domains y).generation
          ∧ (s.maps n).vaddr / pageSize ≤ page
          ∧ page < (s.maps n).vaddr / pageSize + (s.maps n).pages := by
      intro before hbefore hpage
      obtain ⟨n, hused, hrest⟩ := h.pages y before page e hbefore hpage
      refine ⟨n, ?_, hused, hrest⟩
      intro heq
      rw [heq, hfree] at hused
      cases hused
    by_cases hyx : y = x
    · subst hyx
      rw [update_self] at hspace ⊢
      rcases install_leaf hinstall hspace hleaf with ⟨rfl, hfirst, hlast⟩ | ⟨before, hb, hpage⟩
      · refine ⟨m, ?_⟩
        rw [update_self]
        exact ⟨rfl, rfl, rfl, rfl, hfirst, hlast⟩
      · obtain ⟨n, hne, hrest⟩ := hold before hb hpage
        refine ⟨n, ?_⟩
        rw [update_of_ne hne]
        exact hrest
    · rw [update_of_ne hyx] at hspace ⊢
      obtain ⟨n, hne, hrest⟩ := hold leaves hspace hleaf
      refine ⟨n, ?_⟩
      rw [update_of_ne hne]
      exact hrest

theorem withoutWindow_generation (domains : DomainId → Domain) (r : MapRecord) (y : DomainId) :
    (State.withoutWindow domains r y).generation = (domains y).generation := by
  simp only [State.withoutWindow]
  split
  · refine (forall_update_iff domains fun y x =>
      x.generation = (domains y).generation).mpr ⟨?_, fun _ _ => rfl⟩ y
    rfl
  · rfl

theorem withoutWindow_leaf {domains : DomainId → Domain} {r : MapRecord} {y : DomainId}
    {page : Nat} {leaf : Leaf} (hspace : (State.withoutWindow domains r y).space = some leaves)
    (hleaf : leaves page = some leaf) :
    ∃ before, (domains y).space = some before ∧ before page = some leaf
      ∧ ¬(r.domain = y ∧ r.domainGeneration = (domains y).generation
        ∧ r.vaddr / pageSize ≤ page ∧ page < r.vaddr / pageSize + r.pages) := by
  simp only [State.withoutWindow] at hspace
  split at hspace
  · by_cases hy : y = r.domain
    · subst hy
      rw [update_self] at hspace
      obtain ⟨before, hbefore, rfl⟩ := map_eq_some_iff.mp hspace
      simp only [State.uninstall] at hleaf
      split at hleaf
      · cases hleaf
      · rename_i hout
        exact ⟨before, hbefore, hleaf, fun hin => hout hin.2.2⟩
    · rw [update_of_ne hy] at hspace
      exact ⟨leaves, hspace, hleaf, fun hin => hy hin.1.symm⟩
  · rename_i hgeneration
    refine ⟨leaves, hspace, hleaf, ?_⟩
    rintro ⟨rfl, hsame, -⟩
    exact hgeneration hsame.symm

theorem withdraw (h : Inv s) (m : Fin maxDeviceMaps) : Inv (s.withdrawDeviceMap m) := by
  simp only [State.withdrawDeviceMap]
  split
  · exact h
  refine { h with maps := ?_, pages := ?_, stopped := h.stopped }
  · exact (forall_update_iff s.maps fun _ r =>
      r.used = true → r.session = (s.devices r.device).session).mpr
        ⟨fun hn => (Bool.false_ne_true hn).elim, fun n _ => h.maps n⟩
  · intro y leaves page e hspace hleaf
    dsimp only at hspace ⊢
    -- What is left was there before, and not in the withdrawn window.
    obtain ⟨before, hbefore, hpage, hout⟩ := withoutWindow_leaf hspace hleaf
    obtain ⟨n, hused, hdevice, hdomain, hgen, hrange⟩ := h.pages y before page e hbefore hpage
    have hnm : n ≠ m := by
      rintro rfl
      exact hout ⟨hdomain, hgen, hrange⟩
    refine ⟨n, ?_⟩
    rw [update_of_ne hnm, withoutWindow_generation]
    exact ⟨hused, hdevice, hdomain, hgen, hrange⟩

/-- The loop over the windows leaves none of the device's, and what else there is as it was. -/
structure Withdrawn (s s' : State τ) : Prop where
  inv : Inv s'
  devices : s'.devices = s.devices
  command : s'.command = s.command
  grants : s'.grants = s.grants
  irqs : s'.irqs = s.irqs
  resets : s'.resets = s.resets
  maps : ∀ m, s'.maps m = s.maps m ∨ (s'.maps m).used = false

theorem withdraw_one (h : Inv s) (m : Fin maxDeviceMaps) :
    Withdrawn s (s.withdrawDeviceMap m) ∧ ((s.withdrawDeviceMap m).maps m).used = false := by
  have hinv := h.withdraw m
  simp only [State.withdrawDeviceMap] at hinv ⊢
  split
  · rename_i hunused
    rw [if_pos hunused] at hinv
    exact ⟨⟨hinv, rfl, rfl, rfl, rfl, rfl, fun n => .inl rfl⟩, by simpa using hunused⟩
  · rename_i hused
    rw [if_neg hused] at hinv
    refine ⟨⟨hinv, rfl, rfl, rfl, rfl, rfl, ?_⟩, ?_⟩
    · exact (forall_update_iff s.maps fun n r => r = s.maps n ∨ r.used = false).mpr
        ⟨.inr rfl, fun n _ => .inl rfl⟩
    · show (update s.maps m .empty m).used = false
      rw [update_self]
      rfl

theorem Withdrawn.trans {s t u : State τ} (h : Withdrawn s t) (h' : Withdrawn t u) :
    Withdrawn s u where
  inv := h'.inv
  devices := h'.devices.trans h.devices
  command := h'.command.trans h.command
  grants := h'.grants.trans h.grants
  irqs := h'.irqs.trans h.irqs
  resets := h'.resets.trans h.resets
  maps := by
    intro m
    rcases h'.maps m with heq | hunused
    · rw [heq]
      exact h.maps m
    · exact .inr hunused

theorem withdraw_loop {l : List (Fin maxDeviceMaps)} :
    ∀ {s : State τ}, Inv s →
      let s' := l.foldl (fun s m =>
        if (s.maps m).used = true ∧ (s.maps m).device = d then s.withdrawDeviceMap m else s) s
      Withdrawn s s' ∧ ∀ m ∈ l, ¬((s'.maps m).used = true ∧ (s'.maps m).device = d) := by
  induction l with
  | nil =>
    intro s h
    exact ⟨⟨h, rfl, rfl, rfl, rfl, rfl, fun m => .inl rfl⟩, fun m hm => nomatch hm⟩
  | cons m rest ih =>
    intro s h
    have hfirst : ∃ t, (if (s.maps m).used = true ∧ (s.maps m).device = d then
          s.withdrawDeviceMap m else s) = t ∧ Withdrawn s t
        ∧ ¬((t.maps m).used = true ∧ (t.maps m).device = d) := by
      by_cases hmine : (s.maps m).used = true ∧ (s.maps m).device = d
      · obtain ⟨hwithdrawn, hunused⟩ := h.withdraw_one m
        refine ⟨_, if_pos hmine, hwithdrawn, ?_⟩
        rintro ⟨hused, -⟩
        rw [hunused] at hused
        cases hused
      · exact ⟨s, if_neg hmine, ⟨h, rfl, rfl, rfl, rfl, rfl, fun n => .inl rfl⟩, hmine⟩
    obtain ⟨t, ht, hwithdrawn, hgone⟩ := hfirst
    obtain ⟨hrest, hnone⟩ := ih hwithdrawn.inv
    rw [List.foldl_cons, ht]
    refine ⟨hwithdrawn.trans hrest, ?_⟩
    intro n hn
    rcases List.mem_cons.mp hn with rfl | hn
    · rcases hrest.maps n with heq | hunused
      · rw [heq]
        exact hgone
      · rintro ⟨hused, -⟩
        rw [hunused] at hused
        cases hused
    · exact hnone n hn

theorem setDomain (h : Inv s) {x : DomainId} {domain : Domain}
    (hpages : ∀ leaves page d, domain.space = some leaves →
      leaves page = some (.register d) → domain.generation = (s.domains x).generation
        ∧ ∃ before, (s.domains x).space = some before ∧ before page = some (.register d)) :
    Inv { s with domains := update s.domains x domain } :=
  { h with
    pages := by
      intro y leaves page d hspace hleaf
      dsimp only at hspace ⊢
      by_cases hyx : y = x
      · subst hyx
        rw [update_self] at hspace ⊢
        obtain ⟨hgeneration, before, hbefore, hpage⟩ := hpages leaves page d hspace hleaf
        rw [hgeneration]
        exact h.pages y before page d hbefore hpage
      · rw [update_of_ne hyx] at hspace ⊢
        exact h.pages y leaves page d hspace hleaf
    stopped := h.stopped }

variable {device : Device}

theorem update_session {devices : DeviceId → Device}
    (hsession : device.session = (devices d).session) (e : DeviceId) :
    (update devices d device e).session = (devices e).session :=
  (forall_update_iff devices fun e r => r.session = (devices e).session).mpr
    ⟨hsession, fun _ _ => rfl⟩ e

theorem setDevice (h : Inv s) {command : Bool} (hsession : device.session = (s.devices d).session)
    (hmaster : command = true → device.busMaster = true)
    (hstopped : s.Stopped d → command = false) :
    Inv { s with
      devices := update s.devices d device
      command := update s.command d command } := by
  refine ⟨?_, ?_, ?_, h.pages, ?_, ?_⟩
  · intro m hm
    dsimp only
    rw [update_session hsession]
    exact h.maps m hm
  · intro g hg
    dsimp only
    rw [update_session hsession]
    exact h.grants g hg
  · intro i hi
    dsimp only
    rw [update_session hsession]
    exact h.irqs i hi
  · intro e he
    dsimp only at he ⊢
    by_cases hed : e = d
    · subst hed
      rw [update_self] at he ⊢
      exact hmaster he
    · rw [update_of_ne hed] at he ⊢
      exact h.masters e he
  · intro e he
    dsimp only
    by_cases hed : e = d
    · subst hed
      rw [update_self]
      exact hstopped he
    · rw [update_of_ne hed]
      exact h.stopped e he

variable [DecidableEq τ]

theorem setReset (h : Inv s) {t : τ} {reset : Option Reset}
    (hstopped : ∀ d, reset = some (.stopped d) ∨ reset = some (.confirmed d) →
      s.command d = false) : Inv (s.setReset t reset) :=
  { h with
    stopped := by
      rintro d ⟨u, hu⟩
      simp only [State.setReset] at hu ⊢
      by_cases hut : u = t
      · subst hut
        rw [update_self] at hu
        exact hstopped d hu
      · rw [update_of_ne hut] at hu
        exact h.stopped d ⟨u, hu⟩ }

end Inv

/-! ### The last part of a reset -/

section Finish

variable {s : State τ} {d : DeviceId}

/-- Nothing of a device's is left. -/
structure Bare (s : State τ) (d : DeviceId) : Prop where
  maps : ∀ m, ¬((s.maps m).used = true ∧ (s.maps m).device = d)
  grants : ∀ g, ¬((s.grants g).used = true ∧ (s.grants g).device = d)
  irqs : ∀ i, ¬((s.irqs i).used = true ∧ (s.irqs i).device = d)
  pages : ∀ x leaves page, (s.domains x).space = some leaves → leaves page ≠ some (.register d)

theorem withdrawAll_spec (h : Inv s) (d : DeviceId) :
    Inv.Withdrawn s (s.withdrawAll d)
      ∧ ∀ m, ¬(((s.withdrawAll d).maps m).used = true ∧ ((s.withdrawAll d).maps m).device = d) := by
  obtain ⟨hwithdrawn, hnone⟩ := Inv.withdraw_loop (d := d) (l := List.finRange maxDeviceMaps) h
  exact ⟨hwithdrawn, fun m => hnone m (List.mem_finRange m)⟩

variable [DecidableEq τ] {t : τ}

theorem finishReset_devices (h : Inv s) :
    (s.finishReset t d).devices = update s.devices d
      { s.devices d with
        busMaster := false
        session := State.nextSession (s.devices d).session
        state := .ready } := by
  rw [← (withdrawAll_spec h d).1.devices]
  rfl

/-- **A reset that finishes with the bus-master bit off leaves nothing of the device's, and the
device recorded as what it is.** -/
theorem finishReset_spec (h : Inv s) (hcommand : s.command d = false) :
    Inv (s.finishReset t d) ∧ Bare (s.finishReset t d) d
      ∧ ((s.finishReset t d).devices d).busMaster = false
      ∧ (s.finishReset t d).command = s.command
      ∧ ((s.finishReset t d).devices d).session = State.nextSession (s.devices d).session := by
  obtain ⟨hwithdrawn, hnone⟩ := withdrawAll_spec h d
  have hi := hwithdrawn.inv
  set u := s.withdrawAll d with hu
  -- What is forgotten is the device's; what is kept is another device's.
  have hgrants : ∀ g, ((u.forget d).grants g).used = true →
      (u.forget d).grants g = u.grants g ∧ (u.grants g).device ≠ d := by
    intro g hg
    simp only [State.forget] at hg ⊢
    split at hg
    · cases hg
    · rename_i hkeep
      rw [if_neg hkeep]
      exact ⟨rfl, fun hdevice => hkeep ⟨hg, hdevice⟩⟩
  have hirqs : ∀ i, ((u.forget d).irqs i).used = true →
      (u.forget d).irqs i = u.irqs i ∧ (u.irqs i).device ≠ d := by
    intro i hi
    simp only [State.forget] at hi ⊢
    split at hi
    · cases hi
    · rename_i hkeep
      rw [if_neg hkeep]
      exact ⟨rfl, fun hdevice => hkeep ⟨hi, hdevice⟩⟩
  have hpages : ∀ x leaves page, (u.domains x).space = some leaves →
      leaves page ≠ some (.register d) := by
    intro x leaves page hspace hleaf
    obtain ⟨m, hused, hdevice, -⟩ := hi.pages x leaves page d hspace hleaf
    exact hnone m ⟨hused, hdevice⟩
  have hother : ∀ e, e ≠ d → (s.finishReset t d).devices e = u.devices e := by
    intro e he
    exact update_of_ne he _ _
  refine ⟨⟨?_, ?_, ?_, hi.pages, ?_, ?_⟩, ⟨hnone, ?_, ?_, hpages⟩, ?_, hwithdrawn.command, ?_⟩
  · intro m hm
    have hm' : (u.maps m).used = true := hm
    have hne : (u.maps m).device ≠ d := fun hdevice => hnone m ⟨hm', hdevice⟩
    show (u.maps m).session = ((s.finishReset t d).devices (u.maps m).device).session
    rw [hother _ hne]
    exact hi.maps m hm'
  · intro g hg
    obtain ⟨hsame, hne⟩ := hgrants g hg
    show ((u.forget d).grants g).session
      = ((s.finishReset t d).devices ((u.forget d).grants g).device).session
    rw [hsame, hother _ hne]
    exact hi.grants g (by rw [← hsame]; exact hg)
  · intro i hi'
    obtain ⟨hsame, hne⟩ := hirqs i hi'
    show ((u.forget d).irqs i).session
      = ((s.finishReset t d).devices ((u.forget d).irqs i).device).session
    rw [hsame, hother _ hne]
    exact hi.irqs i (by rw [← hsame]; exact hi')
  · intro e he
    have he' : u.command e = true := he
    by_cases hed : e = d
    · subst hed
      rw [hwithdrawn.command, hcommand] at he'
      cases he'
    · rw [hother e hed]
      exact hi.masters e he'
  · rintro e ⟨v, hv⟩
    show u.command e = false
    by_cases hvt : v = t
    · subst hvt
      have hnot : (s.finishReset v d).resets v = none := update_self _ _ _
      rw [hnot] at hv
      simp at hv
    · have hsame : (s.finishReset t d).resets v = u.resets v := update_of_ne hvt _ _
      rw [hsame] at hv
      exact hi.stopped e ⟨v, hv⟩
  · rintro g ⟨hused, hdevice⟩
    obtain ⟨hsame, hne⟩ := hgrants g hused
    exact hne (hsame ▸ hdevice)
  · rintro i ⟨hused, hdevice⟩
    obtain ⟨hsame, hne⟩ := hirqs i hused
    exact hne (hsame ▸ hdevice)
  · rw [finishReset_devices h, update_self]
  · rw [finishReset_devices h, update_self]

end Finish

/-! ### Runs -/

theorem nextSession_of_lt {session : Nat} (h : session < 2 ^ 32 - 1) :
    State.nextSession session = session + 1 := by
  simp only [State.nextSession]
  rw [Nat.mod_eq_of_lt (by omega)]
  omega

section Run

variable [DecidableEq τ] {masters : DeviceId → Bool}

/-- Nothing enables bus mastering on a device that a reset has stopped, and no reset ends the last
session there is a number for. -/
def Guarded (masters : DeviceId → Bool) (s : State τ) : Act τ → Prop
  | .setMaster d session enable =>
    enable = true → s.sessionOk d session = true → masters d = true → ¬s.Stopped d
  | .finishReset t _ =>
    match s.resets t with
    | some (.confirmed d) => (s.devices d).session < 2 ^ 32 - 1
    | _ => True
  | _ => True

variable {s : State τ} {d : DeviceId}

theorem Inv.markReset (h : Inv s) {t : τ} : Inv (s.markReset t d) := by
  have hmarked : Inv { s with
      devices := update s.devices d { s.devices d with state := .stopping }
      command := update s.command d (s.command d) } :=
    h.setDevice rfl (h.masters d) (h.stopped d)
  rw [update_eq_self] at hmarked
  apply hmarked.setReset
  intro e he
  simp at he

theorem Inv.stopReset (h : Inv s) {t : τ} :
    Inv ((s.setCommand masters d false).setReset t (some (.stopped d))) := by
  have hoff : Inv { s with
      devices := update s.devices d (s.devices d)
      command := update s.command d false } :=
    h.setDevice rfl (by simp) fun _ => rfl
  rw [update_eq_self] at hoff
  apply hoff.setReset
  intro e he
  obtain rfl : d = e := by simpa using he
  exact update_self _ _ _

theorem memoryPage_register {x : Domain} {page other : Nat} {mapped : Bool}
    {leaves : Nat → Option Leaf} (hspace : (x.memoryPage page mapped).space = some leaves)
    (hleaf : leaves other = some (.register d)) :
    ∃ before, x.space = some before ∧ before other = some (.register d) := by
  obtain ⟨before, hbefore, rfl⟩ := map_eq_some_iff.mp hspace
  refine ⟨before, hbefore, ?_⟩
  split at hleaf
  · by_cases heq : other = page
    · subst heq
      rw [update_self] at hleaf
      cases hleaf
    · rwa [update_of_ne heq] at hleaf
  split at hleaf
  · by_cases heq : other = page
    · subst heq
      rw [update_self] at hleaf
      cases hleaf
    · rwa [update_of_ne heq] at hleaf
  · exact hleaf

theorem perform_inv {s' : State τ} {act : Act τ} {answer : Answer} (h : Inv s)
    (hok : Guarded masters s act) (hact : perform masters s act = some (s', answer)) :
    Inv s' ∧ ∀ e, (s.devices e).session ≤ (s'.devices e).session := by
  cases act with
  | mapRegion d request =>
    rcases State.mapRegion_cases (some.inj hact) with
      rfl | ⟨m, x, pages, space, hfree, hinstall, rfl⟩
    · exact ⟨h, fun _ => le_rfl⟩
    · exact ⟨h.mapRegion hfree hinstall, fun _ => le_rfl⟩
  | unmapRegion d session vaddr acknowledged =>
    rcases State.unmapRegion_cases (some.inj hact) with rfl | ⟨m, rfl⟩
    · exact ⟨h, fun _ => le_rfl⟩
    · refine ⟨h.withdraw m, fun e => ?_⟩
      rw [(h.withdraw_one m).1.devices]
  | bindIrq d request =>
    rcases State.bindIrq_cases (some.inj hact) with rfl | ⟨i, b, rfl, hdevice, hsession⟩
    · exact ⟨h, fun _ => le_rfl⟩
    · refine ⟨h.setIrq fun _ => ?_, fun _ => le_rfl⟩
      rw [hdevice, hsession]
  | setMaster d session enable =>
    rcases State.setMaster_cases (some.inj hact) with rfl | ⟨hsession, rfl⟩
    · exact ⟨h, fun _ => le_rfl⟩
    · refine ⟨h.setDevice ?_ ?_ ?_, fun e => (Inv.update_session ?_ e).ge⟩
      · rfl
      · exact id
      · intro hstopped
        -- The bit comes on only where the condition forbids it while a reset is under way.
        rw [Bool.and_eq_false_iff]
        by_contra hon
        obtain ⟨henable, hmasters⟩ := not_or.mp hon
        exact hok (by simpa using henable) hsession (by simpa using hmasters) hstopped
      · rfl
  | dmaMap d request =>
    rcases State.dmaMap_cases (some.inj hact) with rfl | ⟨g, b, rfl, hdevice, hsession⟩
    · exact ⟨h, fun _ => le_rfl⟩
    · refine ⟨h.setGrant fun _ => ?_, fun _ => le_rfl⟩
      rw [hdevice, hsession]
  | dmaUnmap d request =>
    rcases State.dmaUnmap_cases (some.inj hact) with ⟨rfl, -⟩ | ⟨-, g, rfl⟩
    · exact ⟨h, fun _ => le_rfl⟩
    · exact ⟨h.revokeGrant g, fun _ => le_rfl⟩
  | markReset t d =>
    simp only [perform] at hact
    split at hact
    · obtain ⟨rfl, -⟩ := Prod.mk.inj (some.inj hact)
      refine ⟨h.markReset, fun e => (Inv.update_session ?_ e).ge⟩
      rfl
    · cases hact
  | stopReset t =>
    simp only [perform] at hact
    split at hact
    · rename_i d hmarked
      obtain ⟨rfl, -⟩ := Prod.mk.inj (some.inj hact)
      exact ⟨h.stopReset, fun _ => le_rfl⟩
    · cases hact
  | confirmReset t confirmed =>
    simp only [perform] at hact
    split at hact
    · rename_i d hstopped
      split at hact
      · obtain ⟨rfl, -⟩ := Prod.mk.inj (some.inj hact)
        refine ⟨h.setReset fun e he => ?_, fun _ => le_rfl⟩
        obtain rfl : d = e := by simpa using he
        exact h.stopped d ⟨t, .inl hstopped⟩
      · obtain ⟨rfl, -⟩ := Prod.mk.inj (some.inj hact)
        refine ⟨h.setReset fun e he => ?_, fun _ => le_rfl⟩
        simp at he
    · cases hact
  | finishReset t acknowledged =>
    simp only [perform] at hact
    split at hact
    · rename_i d hconfirmed
      obtain ⟨rfl, -⟩ := Prod.mk.inj (some.inj hact)
      simp only [Guarded, hconfirmed] at hok
      refine ⟨(finishReset_spec h (h.stopped d ⟨t, .inr hconfirmed⟩)).1, fun e => ?_⟩
      rw [finishReset_devices h]
      by_cases hed : e = d
      · subst hed
        rw [update_self]
        exact (nextSession_of_lt hok).ge.trans' (Nat.le_succ _)
      · rw [update_of_ne hed]
    · cases hact
  | replaceDomain x generation built =>
    obtain ⟨rfl, -⟩ := Prod.mk.inj (some.inj hact)
    refine ⟨h.setDomain fun leaves page d hspace hleaf => ?_, fun _ => le_rfl⟩
    -- A slot that is emptied or taken anew has no page at all.
    dsimp only at hspace
    split at hspace
    · cases hspace
      cases hleaf
    · cases hspace
  | memoryPage x page mapped =>
    obtain ⟨rfl, -⟩ := Prod.mk.inj (some.inj hact)
    refine ⟨h.setDomain fun leaves other d hspace hleaf => ?_, fun _ => le_rfl⟩
    exact ⟨rfl, memoryPage_register hspace hleaf⟩

theorem reachable_inv (h : ((machine masters).within (Guarded masters)).Reachable s) : Inv s := by
  refine h.invariant (fun s => Fresh.inv) ?_
  intro s act s' hs hstep
  obtain ⟨result, hact, rfl⟩ := map_eq_some_iff.mp hstep.2
  exact (perform_inv hs hstep.1 hact).1

theorem runs_session {s' : State τ} (h : Inv s)
    (hruns : ((machine masters).within (Guarded masters)).Runs s s') (d : DeviceId) :
    Inv s' ∧ (s.devices d).session ≤ (s'.devices d).session := by
  refine hruns.invariant
    (I := fun u => Inv u ∧ (s.devices d).session ≤ (u.devices d).session) ?_ ⟨h, le_rfl⟩
  intro u act u' hu hstep
  obtain ⟨result, hact, rfl⟩ := map_eq_some_iff.mp hstep.2
  obtain ⟨hinv, hup⟩ := perform_inv hu.1 hstep.1 hact
  exact ⟨hinv, hu.2.trans (hup d)⟩

/-- A session of a device is over: no record is of it, every register page is of a record made
since, and an operation that names it is refused. -/
structure Over (masters : DeviceId → Bool) (s : State τ) (d : DeviceId) (session : Nat) :
    Prop where
  maps : ∀ m, (s.maps m).used = true → (s.maps m).device = d → (s.maps m).session ≠ session
  grants : ∀ g, (s.grants g).used = true → (s.grants g).device = d →
    (s.grants g).session ≠ session
  irqs : ∀ i, (s.irqs i).used = true → (s.irqs i).device = d → (s.irqs i).session ≠ session
  pages : ∀ x leaves page, (s.domains x).space = some leaves →
    leaves page = some (.register d) → ∃ m, (s.maps m).used = true ∧ (s.maps m).device = d
      ∧ (s.maps m).domain = x ∧ (s.maps m).session ≠ session
  refused : ∀ act : Act τ, act.names = some (d, session) →
    perform masters s act = some (s, .error .stateConflict)

theorem Inv.over (h : Inv s) {session : Nat}
    (hpast : session < (s.devices d).session) : Over masters s d session where
  maps := by
    intro m hm hdevice heq
    have := h.maps m hm
    rw [hdevice, heq] at this
    omega
  grants := by
    intro g hg hdevice heq
    have := h.grants g hg
    rw [hdevice, heq] at this
    omega
  irqs := by
    intro i hi hdevice heq
    have := h.irqs i hi
    rw [hdevice, heq] at this
    omega
  pages := by
    intro x leaves page hspace hleaf
    obtain ⟨m, hused, hdevice, hdomain, -⟩ := h.pages x leaves page d hspace hleaf
    refine ⟨m, hused, hdevice, hdomain, ?_⟩
    intro heq
    have := h.maps m hused
    rw [hdevice, heq] at this
    omega
  refused := by
    intro act hnames
    exact State.refused hnames (by omega)

/-- **While nothing enables bus mastering on a device that a reset has stopped: a grant is freed
only with the bus-master bit off; a reset that finishes leaves the device recorded as what it is
and nothing of it mapped, granted or bound; and what named the session it ended is refused for
good.** -/
theorem reset_ends_session {s : State τ}
    (h : ((machine masters).within (Guarded masters)).Reachable s) :
    (∀ d request s' n, perform masters s (.dmaUnmap d request) = some (s', .ok n) →
      s.command d = false)
    ∧ ∀ t d acknowledged s₁ answer, s.resets t = some (.confirmed d) →
      Guarded masters s (.finishReset t acknowledged) →
      perform masters s (.finishReset t acknowledged) = some (s₁, answer) →
      (s₁.devices d).busMaster = s₁.command d ∧ s₁.command d = false ∧ Bare s₁ d
      ∧ ∀ s₂, ((machine masters).within (Guarded masters)).Runs s₁ s₂ →
        Over masters s₂ d (s.devices d).session := by
  have hinv := reachable_inv h
  refine ⟨?_, ?_⟩
  · intro d request s' n hact
    rcases State.dmaUnmap_cases (some.inj hact) with ⟨-, hnone⟩ | ⟨hmaster, -⟩
    · exact absurd rfl (hnone n)
    · by_contra hon
      have := hinv.masters d (by simpa using hon)
      rw [hmaster] at this
      cases this
  · intro t d acknowledged s₁ answer hconfirmed hok hact
    simp only [Guarded, hconfirmed] at hok
    simp only [perform, hconfirmed] at hact
    obtain ⟨rfl, -⟩ := Prod.mk.inj (some.inj hact)
    have hoff := hinv.stopped d ⟨t, .inr hconfirmed⟩
    obtain ⟨hinv₁, hbare, hmaster, hcommand, hsession⟩ := finishReset_spec (t := t) hinv hoff
    rw [nextSession_of_lt hok] at hsession
    refine ⟨by rw [hmaster, hcommand, hoff], by rw [hcommand, hoff], hbare, ?_⟩
    intro s₂ hruns
    obtain ⟨hinv₂, hle⟩ := runs_session hinv₁ hruns d
    exact hinv₂.over (by omega)

/-! ### One device, and one thread that resets it -/

instance [Fintype τ] (s : State τ) (d : DeviceId) : Decidable (s.Stopped d) :=
  inferInstanceAs (Decidable (∃ _, _ ∨ _))

instance [Fintype τ] (masters : DeviceId → Bool) (s : State τ) (act : Act τ) :
    Decidable (Guarded masters s act) :=
  match act with
  | .setMaster d session enable =>
    inferInstanceAs (Decidable (enable = true → s.sessionOk d session = true →
      masters d = true → ¬s.Stopped d))
  | .finishReset t _ =>
    match h : s.resets t with
    | some (.confirmed d) =>
      decidable_of_iff ((s.devices d).session < 2 ^ 32 - 1) (by simp [Guarded, h])
    | some (.marked _) => isTrue (by simp [Guarded, h])
    | some (.stopped _) => isTrue (by simp [Guarded, h])
    | none => isTrue (by simp [Guarded, h])
  | .mapRegion .. => isTrue trivial
  | .unmapRegion .. => isTrue trivial
  | .bindIrq .. => isTrue trivial
  | .dmaMap .. => isTrue trivial
  | .dmaUnmap .. => isTrue trivial
  | .markReset .. => isTrue trivial
  | .stopReset .. => isTrue trivial
  | .confirmReset .. => isTrue trivial
  | .replaceDomain .. => isTrue trivial
  | .memoryPage .. => isTrue trivial

/-- Devices of one register page each, none of them in use. -/
def assigned : State Unit where
  devices := fun _ => ⟨1, .ready, false, [1], some 1, 64⟩
  command := fun _ => false
  domains := fun _ => ⟨1, none⟩
  maps := fun _ => .empty
  grants := fun _ => .empty
  irqs := fun _ => .empty
  resets := fun _ => none

theorem assigned_fresh : Fresh assigned :=
  ⟨fun _ => rfl, fun _ => rfl, fun _ => rfl, fun _ => rfl, fun _ => rfl, fun _ => rfl,
    fun _ _ _ h => nomatch h⟩

/-- One page granted for reading. -/
def onePage (session : Nat) : DmaMapRequest where
  session := session
  offsetPages := 0
  pageCount := 1
  rights := Right.memoryRead
  requiredProfile := 0
  reserved0 := 0
  memory := .ok ⟨⟨.memory 0, 1⟩, 0x100000, 1, true⟩
  profile := 1
  reserves := true

/-- A driver with a grant and the bus, and a reset of its device up to the confirmation. -/
def orderly : List (Act Unit) :=
  [.dmaMap 0 (onePage 1), .setMaster 0 1 true, .markReset () 0, .stopReset (),
    .confirmReset () true]

theorem reset_ends_session_orderly :
    ∃ s s₁ : State Unit, (∃ g, (s.grants g).used = true ∧ (s.grants g).session = 1)
      ∧ perform (fun _ => true) s (.finishReset () true) = some (s₁, .ok 2)
      ∧ s₁.command 0 = false ∧ Bare s₁ 0 ∧ Over (fun _ => true) s₁ 0 1 := by
  have hrun : (System.exec (System.guarded (Guarded fun _ => true)
      fun s act => (perform (fun _ => true) s act).map Prod.fst) orderly assigned).map
        (fun s => (s.grants 0, s.resets (), (s.devices 0).session,
          (perform (fun _ => true) s (.finishReset () true)).map Prod.snd))
      = some (⟨true, 0, 1, ⟨.memory 0, 1⟩, 0, 1, Right.memoryRead, 0x100000, 1⟩,
          some (.confirmed 0), 1, some (.ok 2)) := by
    decide +kernel
  obtain ⟨s, hs, hend⟩ := map_eq_some_iff.mp hrun
  obtain ⟨hgrant, hreset, hsession, hanswer⟩ := by simpa only [Prod.mk.injEq] using hend
  have hreach : ((machine fun _ => true).within (Guarded fun _ => true)).Reachable s :=
    System.reachable_within_of_guarded (.init assigned_fresh) hs
  obtain ⟨⟨s₁, answer⟩, hact, rfl⟩ := map_eq_some_iff.mp hanswer
  have hok : Guarded (fun _ => true) s (.finishReset () true) := by
    simp [Guarded, hreset, hsession]
  obtain ⟨-, hoff, hbare, hover⟩ :=
    (reset_ends_session hreach).2 () 0 true s₁ _ hreset hok hact
  refine ⟨s, s₁, ⟨0, ?_, ?_⟩, hact, hoff, hbare, ?_⟩
  · rw [hgrant]
  · rw [hgrant]
  · rw [← hsession]
    exact hover s₁ (.refl s₁)

/-- The same, with bus mastering enabled anew before the transport confirms. -/
def rearmed : List (Act Unit) :=
  [.markReset () 0, .stopReset (), .setMaster 0 1 true, .confirmReset () true]

/-- What finishing the reset leaves and answers, and granting and freeing a page after it. -/
def aftermath (s : State Unit) :
    Option (Answer × Bool × Bool × Option (Answer × Bool × Option Answer)) :=
  (perform (fun _ => true) s (.finishReset () true)).map fun r =>
    (r.2, (r.1.devices 0).busMaster, r.1.command 0,
      (perform (fun _ => true) r.1 (.dmaMap 0 (onePage 2))).map fun r =>
        (r.2, r.1.command 0,
          (perform (fun _ => true) r.1 (.dmaUnmap 0 ⟨2, 0x100000, 0⟩)).map Prod.snd))

/-- A reset answers that it is done and leaves the device mastering the bus, recorded as one that
does not; a grant of the new session is then freed under it. -/
theorem reset_leaves_device_armed :
    ∃ s s₁ s₂ s₃ : State Unit, (machine fun _ => true).Reachable s
      ∧ perform (fun _ => true) s (.finishReset () true) = some (s₁, .ok 2)
      ∧ (s₁.devices 0).busMaster = false ∧ s₁.command 0 = true
      ∧ perform (fun _ => true) s₁ (.dmaMap 0 (onePage 2)) = some (s₂, .ok 0x100000)
      ∧ s₂.command 0 = true
      ∧ perform (fun _ => true) s₂ (.dmaUnmap 0 ⟨2, 0x100000, 0⟩) = some (s₃, .ok 1) := by
  have hrun : (System.exec (fun s act => (perform (fun _ => true) s act).map Prod.fst) rearmed
      assigned).map aftermath = some (some (.ok 2, false, true,
        some (.ok 0x100000, true, some (.ok 1)))) := by
    rfl
  obtain ⟨s, hs, hfinish⟩ := map_eq_some_iff.mp hrun
  obtain ⟨⟨s₁, answer₁⟩, h₁, hend₁⟩ := map_eq_some_iff.mp hfinish
  obtain ⟨rfl, hmaster, hcommand, hmap⟩ := by simpa only [Prod.mk.injEq] using hend₁
  obtain ⟨⟨s₂, answer₂⟩, h₂, hend₂⟩ := map_eq_some_iff.mp hmap
  obtain ⟨rfl, hstill, hunmap⟩ := by simpa only [Prod.mk.injEq] using hend₂
  obtain ⟨⟨s₃, answer₃⟩, h₃, rfl⟩ := map_eq_some_iff.mp hunmap
  exact ⟨s, s₁, s₂, s₃, System.reachable_of_exec (.init assigned_fresh) hs, h₁, hmaster, hcommand,
    h₂, hstill, h₃⟩

end Run

end Thalyx.Kernel.Session
