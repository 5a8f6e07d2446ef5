/-
Every hold of a capability operation keeps identities, as long as no collection empties a
node some operation in progress has resolved and not yet counted on.

The code does nothing to see to that condition, and `copy_attaches_to_recycled_node` is
what happens without it: a thread resolves a handle to copy it, another closes that handle,
which empties the node, and derives into the slot the node left; the copy is then installed
on the derived node, and counted there.
-/
import ThalyxKernel.Kernel.Sharing.Invariant

namespace Thalyx.Kernel.Sharing

open List Option

variable {T : Type} {s s' : State T}

/-! ### Holds of a table -/

/-- One slot of one table is rewritten. -/
structure Rewrites (s s' : State T) (domain : DomainId) (slot : CapSlot) (entry : CapEntry) :
    Prop where
  tables : s'.tables = Function.update s.tables domain (Function.update (s.tables domain) slot entry)
  nodes : s'.nodes = s.nodes
  origin : s'.origin = s.origin
  pc : s'.pc = s.pc
  under : ∀ d i, (d, i) ≠ (domain, slot) → s'.under d i = s.under d i

variable {domain : DomainId} {slot : CapSlot}

theorem Rewrites.table {entry : CapEntry}
    (h : Rewrites s s' domain slot entry) (d : DomainId) (i : CapSlot) :
    s'.tables d i = if (d, i) = (domain, slot) then entry else s.tables d i := by
  rw [h.tables]
  by_cases hd : d = domain
  · subst hd
    by_cases hi : i = slot
    · subst hi
      simp
    · simp [hi]
  · simp [hd]

theorem Rewrites.named {entry : CapEntry} (h : Rewrites s s' domain slot entry) (g : GrantId) :
    s'.named g + names g (s.tables domain slot) = s.named g + names g entry := by
  have hfamily : (fun at' : DomainId × CapSlot => s'.tables at'.1 at'.2) =
      Function.update (fun at' : DomainId × CapSlot => s.tables at'.1 at'.2) (domain, slot) entry := by
    funext at'
    rw [h.table, Function.update_apply]
  unfold State.named
  rw [hfamily]
  exact tally_update (fun _ entry => names g entry)
    (fun at' : DomainId × CapSlot => s.tables at'.1 at'.2) (domain, slot) entry

variable {g : GrantId}

theorem Rewrites.entry {entry : CapEntry}
    (h : Rewrites s s' domain slot entry) {i : Nat} (he : Entry s' g i) :
    Entry s g i ∨ entry.live = true ∧ entry.grant = some g ∧ s'.under domain slot = i := by
  obtain ⟨d, c, hlive, hgrant, hunder⟩ := he
  rw [h.table] at hlive hgrant
  by_cases hat : (d, c) = (domain, slot)
  · rw [if_pos hat] at hlive hgrant
    obtain ⟨rfl, rfl⟩ := Prod.mk.inj hat
    exact .inr ⟨hlive, hgrant, hunder⟩
  · rw [if_neg hat] at hlive hgrant
    rw [h.under d c hat] at hunder
    exact .inl ⟨d, c, hlive, hgrant, hunder⟩

variable {cap child parent : Cap}

theorem install_spec {r : Option CapSlot} (h : s.install domain cap = (s', r)) :
    (∃ slot, r = some slot ∧ (s.tables domain slot).live = false ∧
      ∃ entry, Rewrites s s' domain slot entry ∧ entry.live = true ∧
        entry.grant = some cap.grant ∧ s'.under domain slot = cap.identity) ∨
    r = none ∧ (s' = s ∨ ∃ slot entry, Rewrites s s' domain slot entry ∧
      (s.tables domain slot).live = false ∧ entry.live = false) := by
  unfold State.install at h
  split at h
  · obtain ⟨rfl, rfl⟩ := Prod.mk.inj h
    exact .inr ⟨rfl, .inl rfl⟩
  · rename_i slot hslot
    have hdead : (s.tables domain slot).live = false := by
      have := find?_some hslot
      simp only [Bool.not_or, Bool.and_eq_true, Bool.not_eq_eq_eq_not, Bool.not_true] at this
      exact this.1
    have hretired : (s.tables domain slot).retired = false := by
      have := find?_some hslot
      simp only [Bool.not_or, Bool.and_eq_true, Bool.not_eq_eq_eq_not, Bool.not_true] at this
      exact this.2
    unfold CapTable.installAt at h
    simp only [hdead, hretired, Bool.or_self, Bool.false_eq_true, if_false] at h
    split at h
    · rename_i hnone
      split at hnone
      · obtain ⟨rfl, rfl⟩ := Prod.mk.inj h
        obtain ⟨rfl, -⟩ := Prod.mk.inj hnone
        exact .inr ⟨rfl, .inr ⟨slot, _, ⟨rfl, rfl, rfl, rfl, fun _ _ _ => rfl⟩, hdead, rfl⟩⟩
      · exact absurd (Prod.mk.inj hnone).2 (by simp)
    · rename_i hsome
      split at hsome
      · exact absurd (Prod.mk.inj hsome).2 (by simp)
      · obtain ⟨rfl, rfl⟩ := Prod.mk.inj h
        obtain ⟨rfl, -⟩ := Prod.mk.inj hsome
        refine .inl ⟨slot, rfl, hdead, _, ⟨rfl, rfl, rfl, rfl, ?_⟩, rfl, rfl, by simp⟩
        intro d i hne
        by_cases hd : d = domain
        · subst hd
          have hi : i ≠ slot := fun hi => hne (by rw [hi])
          simp [hi]
        · simp [hd]

variable {r : Option CapEntry}

theorem releaseSlot_spec (h : s.releaseSlot domain slot = (s', r)) :
    (∃ entry, r = some (s.tables domain slot) ∧ (s.tables domain slot).live = true ∧
      Rewrites s s' domain slot entry ∧ entry.live = false) ∨ r = none ∧ s' = s := by
  unfold State.releaseSlot CapTable.releaseSlot at h
  by_cases hlive : (s.tables domain slot).live = true
  · simp only [hlive, Bool.not_true, Bool.false_eq_true, if_false] at h
    obtain ⟨rfl, rfl⟩ := Prod.mk.inj h
    exact .inl ⟨_, rfl, hlive, ⟨rfl, rfl, rfl, rfl, fun _ _ _ => rfl⟩, rfl⟩
  · have hdead : (s.tables domain slot).live = false := by simpa using hlive
    simp only [hdead, Bool.not_false, if_true] at h
    obtain ⟨rfl, rfl⟩ := Prod.mk.inj h
    refine .inr ⟨rfl, ?_⟩
    simp

variable {handle : Handle}

theorem release_spec (h : s.release domain handle = (s', r)) :
    (∃ slot, s.releaseSlot domain slot = (s', r)) ∨ r = none ∧ s' = s := by
  unfold State.release CapTable.release at h
  by_cases hslot : handle.slot < maxCaps
  · simp only [hslot, dif_pos] at h
    split at h
    · obtain ⟨rfl, rfl⟩ := Prod.mk.inj h
      exact .inr ⟨rfl, by simp⟩
    · exact .inl ⟨⟨handle.slot, hslot⟩, h⟩
  · simp only [hslot, dif_neg, not_false_eq_true] at h
    obtain ⟨rfl, rfl⟩ := Prod.mk.inj h
    exact .inr ⟨rfl, by simp⟩

theorem lookup_spec
    (h : s.lookup domain handle = some (slot, cap)) : Entry s cap.grant cap.identity := by
  unfold State.lookup at h
  split at h
  · exact absurd h (by simp)
  · rename_i i entry hlookup
    obtain ⟨grant, hgrant, heq⟩ := map_eq_some_iff.mp h
    obtain ⟨rfl, rfl⟩ := Prod.mk.inj heq
    obtain ⟨-, hlookup⟩ := ite_none_left_eq_some.mp hlookup
    split at hlookup
    · dsimp only at hlookup
      obtain ⟨hlive, hlookup⟩ := ite_none_left_eq_some.mp hlookup
      obtain ⟨rfl, rfl⟩ := Prod.mk.inj (some.inj hlookup)
      have hlive' : (s.tables domain ⟨handle.slot, by assumption⟩).live = true := by
        by_contra hdead
        simp [hdead] at hlive
      exact ⟨domain, _, hlive', hgrant, rfl⟩
    · exact absurd hlookup (by simp)

/-! ### What each hold keeps -/

variable [DecidableEq T] [Fintype T]

/-- A thread that owes nothing, and is not deriving. -/
def Pc.Clear (pc : Pc) : Prop :=
  pc.drops = none ∧ pc.orphans = none ∧ pc.uncounted = none ∧ pc.unadopted = none ∧ pc.owned = none

theorem Cont.clear (k : Cont) : k.pc.Clear := by
  cases k <;> simp [Cont.pc, Pc.Clear, Pc.drops, Pc.orphans, Pc.uncounted, Pc.unadopted, Pc.owned]

theorem Cont.relies_pc (k : Cont) : k.pc.relies = k.relies := by
  cases k <;> rfl

variable {t : T}
variable {pc : Pc}

theorem Sound.walk (h : Sound s)
    (hrelies : ∀ cap ∈ pc.relies, cap ∈ (s.pc t).relies ∨ Entry s cap.grant cap.identity)
    (hold : (s.pc t).Clear) (hnew : pc.Clear) : Sound (s.at t pc) := by
  obtain ⟨hd, ho, hu, ha, -⟩ := hold
  obtain ⟨hd', ho', hu', ha', hw'⟩ := hnew
  refine h.tables ⟨rfl, rfl, rfl⟩ (fun _ _ => .inl) hrelies ?_ ⟨ho, ho'⟩ ?_ ?_ ?_
  · intro g hg
    rw [hd'] at hg
    exact absurd hg (by simp)
  · intro g
    rw [hd, hu, hd', hu']
  · intro g
    rw [ha, ha']
  · intro parent child howned
    rw [hw'] at howned
    exact absurd howned (by simp)

theorem Sound.installing (h : Sound s)
    {k : CapSlot → Cont} {failed : Pc} (hcap : cap ∈ (s.pc t).relies)
    (hk : ∀ slot, ∀ c ∈ (k slot).relies, c ∈ (s.pc t).relies)
    (hfailed : ∀ c ∈ failed.relies, c ∈ (s.pc t).relies)
    (hold : (s.pc t).drops = none ∧ (s.pc t).orphans = none ∧ (s.pc t).uncounted = none ∧
      (s.pc t).unadopted = none)
    (hnew : failed.drops = none ∧ failed.orphans = none ∧ failed.uncounted = none ∧
      failed.unadopted = none) (howned : ∀ parent child, failed.owned = some (parent, child) →
      (s.pc t).owned = some (parent, child)) : Sound (installing s t domain cap k failed) := by
  obtain ⟨hd, ho, hu, ha⟩ := hold
  obtain ⟨hd', ho', hu', ha'⟩ := hnew
  unfold Sharing.installing
  cases hinstall : s.install domain cap with
  | mk s₁ r =>
  rcases install_spec hinstall with ⟨slot, rfl, hdead, entry, hw, hlive, hgrant, hunder⟩ | ⟨rfl, hw⟩
  · refine h.tables ⟨hw.nodes, hw.origin, hw.pc⟩ ?_ ?_ ?_ ⟨ho, rfl⟩ ?_ ?_ ?_
    · intro g i he
      rcases hw.entry (i := i) he with hold | ⟨-, hg, hi⟩
      · exact .inl hold
      · refine .inr ⟨cap, hcap, ?_, hunder.symm.trans hi⟩
        exact some.inj (hgrant.symm.trans hg)
    · intro c hc
      rcases mem_cons.mp hc with rfl | hc
      · exact .inl hcap
      · exact .inl (hk slot c hc)
    · intro g hg
      exact absurd hg (by simp [Pc.drops])
    · intro g
      have hnamed := hw.named g
      have hzero : names g (s.tables domain slot) = 0 := by simp [names, hdead]
      have hone : names g entry = one g (some cap.grant) := by simp [names, one, hlive, hgrant]
      rw [hd, hu]
      simp only [Pc.drops, Pc.uncounted, one_none]
      omega
    · intro g
      rw [ha, one_none]
      exact Nat.zero_le _
    · intro parent child howned
      exact absurd howned (by simp [Pc.owned])
  · have hsame : s₁.nodes = s.nodes ∧ s₁.origin = s.origin ∧ s₁.pc = s.pc ∧
        (∀ g, s₁.named g = s.named g) ∧ ∀ g i, Entry s₁ g i → Entry s g i := by
      rcases hw with rfl | ⟨slot, entry, hw, hdead, hstill⟩
      · exact ⟨rfl, rfl, rfl, fun _ => rfl, fun _ _ he => he⟩
      · refine ⟨hw.nodes, hw.origin, hw.pc, ?_, ?_⟩
        · intro g
          have := hw.named g
          have hzero : names g (s.tables domain slot) = 0 := by simp [names, hdead]
          have hzero' : names g entry = 0 := by simp [names, hstill]
          omega
        · intro g i he
          rcases hw.entry he with hold | ⟨hlive, -, -⟩
          · exact hold
          · simp [hstill] at hlive
    obtain ⟨hnodes, horigin, hpc, hnamed, hentry⟩ := hsame
    refine h.tables ⟨hnodes, horigin, hpc⟩ (fun g i he => .inl (hentry g i he))
      (fun c hc => .inl (hfailed c hc)) ?_ ⟨ho, ho'⟩ ?_ ?_ howned
    · intro g hg
      rw [hd'] at hg
      exact absurd hg (by simp)
    · intro g
      rw [hnamed, hd, hu, hd', hu']
    · intro g
      rw [ha, ha']

variable {k : Cont}

theorem Sound.released (h : Sound s) (hs : s.releaseSlot domain slot = (s', r))
    (hk : ∀ c ∈ k.relies, c ∈ (s.pc t).relies) (hold : (s.pc t).Clear) :
    Sound (s'.at t (r.elim k.pc (afterRelease k))) := by
  rcases releaseSlot_spec hs with ⟨entry, rfl, hlive, hw, hdead⟩ | ⟨rfl, rfl⟩
  · obtain ⟨hd, ho, hu, ha, -⟩ := hold
    have hnew : (afterRelease k (s.tables domain slot)).drops = (s.tables domain slot).grant ∧
        (afterRelease k (s.tables domain slot)).orphans = none ∧
        (afterRelease k (s.tables domain slot)).uncounted = none ∧
        (afterRelease k (s.tables domain slot)).unadopted = none ∧
        (afterRelease k (s.tables domain slot)).owned = none ∧
        (afterRelease k (s.tables domain slot)).relies = k.relies := by
      unfold afterRelease
      cases hg : (s.tables domain slot).grant with
      | none =>
        obtain ⟨hd', ho', hu', ha', hw'⟩ := k.clear
        exact ⟨hd', ho', hu', ha', hw', k.relies_pc⟩
      | some g => simp [Pc.drops, Pc.orphans, Pc.uncounted, Pc.unadopted, Pc.owned, Pc.relies]
    obtain ⟨hd', ho', hu', ha', hw', hr'⟩ := hnew
    show Sound (s'.at t (afterRelease k (s.tables domain slot)))
    refine h.tables ⟨hw.nodes, hw.origin, hw.pc⟩ ?_ ?_ ?_ ⟨ho, ho'⟩ ?_ ?_ ?_
    · intro g i he
      rcases hw.entry (i := i) he with hold | ⟨hlive', -, -⟩
      · exact .inl hold
      · simp [hdead] at hlive'
    · intro c hc
      rw [hr'] at hc
      exact .inl (hk c hc)
    · intro g hg
      rw [hd'] at hg
      exact ⟨_, domain, slot, hlive, hg, rfl⟩
    · intro g
      have hnamed := hw.named g
      have hone : names g (s.tables domain slot) = one g (s.tables domain slot).grant := by
        simp [names, one, hlive]
      have hzero : names g entry = 0 := by simp [names, hdead]
      rw [hd, hu, hd', hu', one_none]
      omega
    · intro g
      rw [ha, ha']
    · intro parent child hchild
      rw [hw'] at hchild
      exact absurd hchild (by simp)
  · refine h.walk ?_ hold k.clear
    intro c hc
    change c ∈ k.pc.relies at hc
    rw [k.relies_pc] at hc
    exact .inl (hk c hc)

theorem Sound.releasing (h : Sound s)
    (hk : ∀ c ∈ k.relies, c ∈ (s.pc t).relies) (hold : (s.pc t).Clear) :
    Sound (releasing s t domain slot k) := by
  unfold Sharing.releasing
  cases hs : s.releaseSlot domain slot with
  | mk s₁ r =>
  have := h.released hs hk hold
  cases r with
  | none => exact this
  | some entry => exact this

theorem Sound.recount (h : Sound s) {n : GrantId} {f : Node → Node}
    (hkeep : ∀ node, (f node).used = node.used ∧ (f node).id = node.id ∧
      (f node).parent = node.parent) (hrelies : ∀ cap ∈ pc.relies, cap ∈ (s.pc t).relies)
    (hnew : pc.drops = none ∧ pc.orphans = none ∧ pc.uncounted = none)
    (hrefs : (s.nodes n).refs + one n (s.pc t).uncounted ≤
      one n (s.pc t).drops + (f (s.nodes n)).refs)
    (hchildren : (s.nodes n).children + one n (s.pc t).unadopted ≤
      one n (s.pc t).orphans + (f (s.nodes n)).children + one n pc.unadopted)
    (hother : ∀ g, g ≠ n → one g (s.pc t).uncounted = 0 ∧
      one g (s.pc t).unadopted ≤ one g pc.unadopted)
    (hgrows : (s.nodes n).refs < (f (s.nodes n)).refs ∨
      (s.nodes n).children < (f (s.nodes n)).children → ∃ cap ∈ (s.pc t).relies, cap.grant = n)
    (howned : ∀ parent child, pc.owned = some (parent, child) →
      (s.pc t).owned = some (parent, child) ∧ child.grant ≠ n) :
    Sound ((s.setNode n f).at t pc) := by
  obtain ⟨hd', ho', hu'⟩ := hnew
  have hat : (s.setNode n f).nodes n = f (s.nodes n) := by simp [State.setNode]
  have hne : ∀ g, g ≠ n → (s.setNode n f).nodes g = s.nodes g := by
    intro g hg
    simp [State.setNode, hg]
  refine h.frame ⟨rfl, ?_, rfl, fun _ _ he => .inl he, fun c hc => .inl (hrelies c hc), ?_, ho',
    ?_, ?_, ?_, ?_⟩
  · intro g
    show ((s.setNode n f).nodes g).used = _ ∧ ((s.setNode n f).nodes g).id = _ ∧
      ((s.setNode n f).nodes g).parent = _
    by_cases hg : g = n
    · rw [hg, hat]
      exact hkeep _
    · rw [hne g hg]
      exact ⟨rfl, rfl, rfl⟩
  · intro g hg
    rw [hd'] at hg
    exact absurd hg (by simp)
  · intro g
    show s.named g + _ + _ ≤ _ + _ + (((s.setNode n f).nodes g).refs + _)
    rw [hd', hu', one_none]
    by_cases hg : g = n
    · rw [hg, hat]
      omega
    · rw [hne g hg]
      have := hother g hg
      omega
  · intro g
    show _ ≤ _ + (((s.setNode n f).nodes g).children + _)
    rw [ho', one_none]
    by_cases hg : g = n
    · rw [hg, hat]
      omega
    · rw [hne g hg]
      have := hother g hg
      omega
  · intro g hg
    change (s.nodes g).refs < ((s.setNode n f).nodes g).refs ∨
      (s.nodes g).children < ((s.setNode n f).nodes g).children at hg
    by_cases hgn : g = n
    · rw [hgn, hat] at hg
      rw [hgn]
      exact hgrows hg
    · rw [hne g hgn] at hg
      omega
  · intro parent child hchild
    obtain ⟨hsame, hcn⟩ := howned parent child hchild
    refine ⟨hsame, ?_, ?_⟩
    · show ((s.setNode n f).nodes _).refs ≤ _
      rw [hne _ hcn]
    · show ((s.setNode n f).nodes _).children ≤ _
      rw [hne _ hcn]

theorem Sound.collect (h : Sound s) {steps : Nat} (hpc : s.pc t = .collecting g (steps + 1) k)
    (halone : (s.nodes g).idle = true → ∀ t', ∀ cap ∈ (s.pc t').relies, cap.grant ≠ g) :
    Sound (collect s t g steps k) := by
  unfold Sharing.collect
  split
  · rename_i hidle
    have hfree := halone hidle
    have hnode : (s.nodes g).used = true ∧ (s.nodes g).refs = 0 ∧ (s.nodes g).children = 0 := by
      simpa [Node.idle, and_assoc] using hidle
    obtain ⟨hused, hrefs, hchildren⟩ := hnode
    have hgone : s.named g = 0 ∧ s.drops g = 0 ∧ s.offspring g = 0 ∧ s.orphans g = 0 := by
      have := h.counted g hused
      have := h.adopted g hused
      have := uncounted_eq_zero hfree
      have := unadopted_eq_zero hfree
      omega
    have hrelies : (s.pc t).relies = k.relies := by rw [hpc]; rfl
    have hold : (s.pc t).drops = none ∧ (s.pc t).orphans = none ∧ (s.pc t).uncounted = none := by
      rw [hpc]
      exact ⟨rfl, rfl, rfl⟩
    have hnothing : (s.pc t).unadopted = none := by rw [hpc]; rfl
    split
    · rename_i parent hparent
      refine h.free hused hgone ?_ (fun t' _ => hfree t') hold ⟨rfl, rfl, rfl, rfl⟩ ?_ ?_
      · intro cap hcap
        have hmem : cap ∈ (s.pc t).relies := hrelies ▸ hcap
        exact ⟨hmem, hfree t cap hmem⟩
      · intro p hp
        rw [hparent]
        exact hp
      · intro n
        rw [hparent, hnothing, one_none]
        exact Nat.le_refl _
    · rename_i hparent
      obtain ⟨hd, ho, hu, ha, hw⟩ := k.clear
      refine h.free hused hgone ?_ (fun t' _ => hfree t') hold ⟨hd, hu, ha, hw⟩ ?_ ?_
      · intro cap hcap
        rw [k.relies_pc, ← hrelies] at hcap
        exact ⟨hcap, hfree t cap hcap⟩
      · intro p hp
        rw [ho] at hp
        exact absurd hp (by simp)
      · intro n
        rw [ho, hnothing, one_none]
        exact Nat.zero_le _
  · refine h.walk ?_ ?_ k.clear
    · intro cap hcap
      rw [k.relies_pc] at hcap
      exact .inl (by rw [hpc]; exact hcap)
    · rw [hpc]
      exact ⟨rfl, rfl, rfl, rfl, rfl⟩

variable {choice : Choice}

theorem Sound.perform (h : Sound s) {op : Op} (hpc : s.pc t = .resolved op cap)
    (hs : perform domain s t cap op choice = some s') : Sound s' := by
  have hclear : (s.pc t).Clear := by
    rw [hpc]
    exact ⟨rfl, rfl, rfl, rfl, rfl⟩
  have hidle : ∀ {u : State T}, u = s.at t .idle → Sound u := by
    rintro u rfl
    exact h.walk (by simp [Pc.relies]) hclear ⟨rfl, rfl, rfl, rfl, rfl⟩
  unfold Sharing.perform at hs
  split at hs
  -- copy
  · refine some.inj hs ▸ h.installing ?_ ?_ ?_ ?_ ?_ ?_
    · simp [hpc, Pc.relies]
    · simp [Cont.relies]
    · simp [Pc.relies]
    · exact ⟨hclear.1, hclear.2.1, hclear.2.2.1, hclear.2.2.2.1⟩
    · exact ⟨rfl, rfl, rfl, rfl⟩
    · simp [Pc.owned]
  -- close
  · rename_i handle
    obtain ⟨-, hs⟩ := ite_none_left_eq_some.mp hs
    cases hrelease : s.release domain handle with
    | mk s₁ r =>
    rw [hrelease] at hs
    have hdone : Sound (s₁.at t (r.elim Cont.done.pc (afterRelease .done))) := by
      rcases release_spec hrelease with ⟨slot, hslot⟩ | ⟨rfl, rfl⟩
      · exact h.released hslot (by simp [Cont.relies]) hclear
      · exact hidle rfl
    cases r with
    | none => exact some.inj hs ▸ hdone
    | some entry => exact some.inj hs ▸ hdone
  -- derive
  · split at hs
    · exact absurd hs (by simp)
    · rename_i g hused
      have hfree : (s.nodes g).used = false := by simpa using hused
      refine some.inj hs ▸ h.claim cap.object hfree ?_ ?_ ?_ ⟨rfl, rfl, rfl, rfl⟩ ?_
      · intro c hc
        obtain rfl := some.inj hc
        simp [hpc, Pc.relies]
      · intro c hc
        rcases mem_cons.mp hc with rfl | hc
        · exact .inl (by simp [hpc, Pc.relies])
        · obtain rfl := mem_singleton.mp hc
          exact .inr ⟨rfl, rfl⟩
      · exact ⟨hclear.1, hclear.2.1, hclear.2.2.1, hclear.2.2.2.1⟩
      · intro p child howned
        obtain ⟨rfl, rfl⟩ := Prod.mk.inj (some.inj howned)
        exact ⟨rfl, rfl⟩
  -- send
  · refine some.inj hs ▸ h.walk ?_ hclear ⟨rfl, rfl, rfl, rfl, rfl⟩
    intro c hc
    exact .inl (by simpa [hpc, Pc.relies] using hc)
  · exact hidle (some.inj hs).symm
  · exact absurd hs (by simp)

theorem Sound.adopt (h : Sound s) (hpc : s.pc t = .adopting parent child) :
    Sound ((s.setNode parent.grant fun node => { node with children := node.children + 1 }).at t
      (.placing parent child)) := by
  have hown := h.own t parent child (by rw [hpc]; rfl)
  refine h.recount (fun _ => ⟨rfl, rfl, rfl⟩) ?_ ⟨rfl, rfl, rfl⟩ ?_ ?_ ?_ ?_ ?_
  · intro cap hcap
    rw [hpc]
    exact hcap
  · simp [hpc, Pc.uncounted, one_none]
  · simp [hpc, Pc.unadopted, one]
  · intro g hg
    simp [hpc, Pc.uncounted, Pc.unadopted, one, Ne.symm hg]
  · intro _
    exact ⟨parent, by simp [hpc, Pc.relies], rfl⟩
  · intro p c hc
    obtain ⟨rfl, rfl⟩ := Prod.mk.inj (some.inj hc)
    exact ⟨by rw [hpc]; rfl, hown.ne.symm⟩

theorem Sound.abandon (h : Sound s) (hpc : s.pc t = .abandoning parent child) :
    Sound ((s.setNode parent.grant fun node => { node with children := node.children - 1 }).at t
      (.clearing parent child)) := by
  have hown := h.own t parent child (by rw [hpc]; rfl)
  refine h.recount (fun _ => ⟨rfl, rfl, rfl⟩) ?_ ⟨rfl, rfl, rfl⟩ ?_ ?_ ?_ ?_ ?_
  · intro cap hcap
    rw [hpc]
    exact hcap
  · simp [hpc, Pc.uncounted, one_none]
  · simp only [hpc, Pc.unadopted, one]
    simp
    omega
  · intro g hg
    simp [hpc, Pc.uncounted, Pc.unadopted, one]
  · simp only [Nat.lt_irrefl, false_or]
    intro hlt
    omega
  · intro p c hc
    obtain ⟨rfl, rfl⟩ := Prod.mk.inj (some.inj hc)
    exact ⟨by rw [hpc]; rfl, hown.ne.symm⟩

theorem Sound.clear (h : Sound s) (hpc : s.pc t = .clearing parent child) :
    Sound ((s.setNode child.grant fun _ => .empty).at t .idle) := by
  have howned : (s.pc t).owned = some (parent, child) := by rw [hpc]; rfl
  have hown := h.own t parent child howned
  refine h.free (h.used_of_relied (Pc.relies_of_owned howned)) (h.private_unknown howned) ?_
    hown.alone ?_ ⟨rfl, rfl, rfl, rfl⟩ ?_ ?_
  · intro cap hcap
    exact absurd hcap (by simp [Pc.relies])
  · rw [hpc]
    exact ⟨rfl, rfl, rfl⟩
  · intro p hp
    exact absurd hp (by simp [Pc.orphans])
  · intro n
    rw [hpc, hown.link]
    simp [Pc.orphans, Pc.unadopted, one]

theorem Sound.count (h : Sound s) (hcap : cap ∈ (s.pc t).relies)
    (hrelies : ∀ c ∈ pc.relies, c ∈ (s.pc t).relies) (hnew : pc.Clear)
    (hold : (s.pc t).unadopted = none)
    (howed : ∀ g, one g (s.pc t).uncounted ≤ one g (some cap.grant)) :
    Sound ((s.setNode cap.grant fun node => { node with refs := node.refs + 1 }).at t pc) := by
  obtain ⟨hd, ho, hu, ha, hw⟩ := hnew
  refine h.recount (fun _ => ⟨rfl, rfl, rfl⟩) hrelies ⟨hd, ho, hu⟩ ?_ ?_ ?_ ?_ ?_
  · have := howed cap.grant
    have hself : one cap.grant (some cap.grant) = 1 := one_pos rfl
    show _ + _ ≤ _ + ((s.nodes cap.grant).refs + 1)
    omega
  · rw [hold, one_none]
    show _ ≤ _ + (s.nodes cap.grant).children + _
    omega
  · intro g hg
    have hzero : one g (some cap.grant) = 0 := by simp [one, Ne.symm hg]
    have := howed g
    rw [hold, one_none]
    exact ⟨by omega, Nat.zero_le _⟩
  · intro _
    exact ⟨cap, hcap, rfl⟩
  · intro p c hc
    rw [hw] at hc
    exact absurd hc (by simp)

theorem Sound.drop (h : Sound s) (hpc : s.pc t = .dropping g k) :
    Sound ((s.setNode g fun node => { node with refs := node.refs - 1 }).at t
      (.collecting g maxDeriveDepth k)) := by
  refine h.recount (fun _ => ⟨rfl, rfl, rfl⟩) ?_ ⟨rfl, rfl, rfl⟩ ?_ ?_ ?_ ?_ ?_
  · intro c hc
    rw [hpc]
    exact hc
  · have hself : one g (s.pc t).drops = 1 := one_pos (by rw [hpc]; rfl)
    rw [hself, show (s.pc t).uncounted = none by rw [hpc]; rfl, one_none]
    show _ ≤ 1 + ((s.nodes g).refs - 1)
    omega
  · rw [show (s.pc t).unadopted = none by rw [hpc]; rfl, one_none]
    show _ ≤ _ + (s.nodes g).children + _
    omega
  · intro n _
    rw [hpc]
    exact ⟨rfl, Nat.le_refl _⟩
  · intro hlt
    change _ < (s.nodes g).refs - 1 ∨ _ < (s.nodes g).children at hlt
    omega
  · intro p c hc
    exact absurd hc (by simp [Pc.owned])

theorem Sound.orphan (h : Sound s) {steps : Nat} (hpc : s.pc t = .orphaning g steps k) :
    Sound ((s.setNode g fun node => { node with children := node.children - 1 }).at t
      (.collecting g steps k)) := by
  refine h.recount (fun _ => ⟨rfl, rfl, rfl⟩) ?_ ⟨rfl, rfl, rfl⟩ ?_ ?_ ?_ ?_ ?_
  · intro c hc
    rw [hpc]
    exact hc
  · rw [show (s.pc t).uncounted = none by rw [hpc]; rfl, one_none]
    show _ ≤ _ + (s.nodes g).refs
    omega
  · have hself : one g (s.pc t).orphans = 1 := one_pos (by rw [hpc]; rfl)
    rw [hself, show (s.pc t).unadopted = none by rw [hpc]; rfl, one_none]
    show _ ≤ 1 + ((s.nodes g).children - 1) + _
    omega
  · intro n _
    rw [hpc]
    exact ⟨rfl, Nat.le_refl _⟩
  · intro hlt
    change _ < (s.nodes g).refs ∨ _ < (s.nodes g).children - 1 at hlt
    omega
  · intro p c hc
    exact absurd hc (by simp [Pc.owned])

theorem Sound.gather (h : Sound s) {x : Transfer} {pick : Pick}
    {rest : List Pick} (hpc : s.pc t = .gathering x (pick :: rest)) :
    Sound (gather domain s t x pick x.seen rest) := by
  have hclear : (s.pc t).Clear := by
    rw [hpc]
    exact ⟨rfl, rfl, rfl, rfl, rfl⟩
  have hidle : Sound (s.at t .idle) :=
    h.walk (by simp [Pc.relies]) hclear ⟨rfl, rfl, rfl, rfl, rfl⟩
  unfold Sharing.gather
  split
  · exact hidle
  · rename_i slot cap hlookup
    split
    · exact hidle
    · refine h.walk ?_ hclear ⟨rfl, rfl, rfl, rfl, rfl⟩
      intro c hc
      rcases mem_cons.mp hc with rfl | hc
      · exact .inr (lookup_spec hlookup)
      · exact .inl (by rw [hpc]; exact hc)

theorem Sound.pass (h : Sound s) {pc' : Pc} (hpc : s.pc t = pc) (hold : pc.Clear)
    (hnew : pc'.Clear) (hrelies : ∀ c ∈ pc'.relies, c ∈ pc.relies) : Sound (s.at t pc') := by
  subst hpc
  exact h.walk (fun c hc => .inl (hrelies c hc)) hold hnew

theorem Pc.clear_idle : Pc.Clear .idle := ⟨rfl, rfl, rfl, rfl, rfl⟩

theorem Sound.advance (h : Sound s)
    (hok : Undisturbed s (.advance t choice)) (hs : advance domain s t choice = some s') :
    Sound s' := by
  unfold Sharing.advance at hs
  split at hs <;> rename_i hpc
  -- idle
  · exact absurd hs (by simp)
  -- resolving
  · rename_i op cap
    have hclear : (Pc.resolving op cap).Clear := ⟨rfl, rfl, rfl, rfl, rfl⟩
    have hidle : Sound (s.at t .idle) := h.pass hpc hclear Pc.clear_idle (by simp [Pc.relies])
    split at hs
    · split at hs
      · refine some.inj hs ▸ h.pass hpc hclear ⟨rfl, rfl, rfl, rfl, rfl⟩ ?_
        intro c hc
        cases op <;> exact hc
      · exact some.inj hs ▸ hidle
    · exact some.inj hs ▸ hidle
  -- resolved
  · exact h.perform hpc hs
  -- deriving
  · exact some.inj hs ▸ h.adopt hpc
  · rename_i parent child
    split at hs
    · refine some.inj hs ▸ h.installing ?_ ?_ ?_ ?_ ⟨rfl, rfl, rfl, rfl⟩ ?_
      · simp [hpc, Pc.relies]
      · simp [Cont.relies]
      · simp [hpc, Pc.relies]
      · rw [hpc]
        exact ⟨rfl, rfl, rfl, rfl⟩
      · rw [hpc]
        exact fun _ _ hc => hc
    · refine some.inj hs ▸ h.tables ⟨rfl, rfl, rfl⟩ (fun _ _ => .inl) ?_ ?_ ?_ ?_ ?_ ?_
      · intro c hc
        rw [hpc]
        exact .inl hc
      · intro g hg
        exact absurd hg (by simp [Pc.drops])
      · rw [hpc]
        exact ⟨rfl, rfl⟩
      · intro g
        rw [hpc]
        exact Nat.le_refl _
      · intro g
        rw [hpc]
        exact Nat.le_refl _
      · intro p c hc
        rw [hpc]
        exact hc
  · exact some.inj hs ▸ h.abandon hpc
  · exact some.inj hs ▸ h.clear hpc
  -- counting
  · rename_i cap k
    refine some.inj hs ▸ h.count ?_ ?_ k.clear ?_ ?_
    · rw [hpc]
      exact mem_cons_self
    · intro c hc
      rw [k.relies_pc] at hc
      rw [hpc]
      exact mem_cons_of_mem _ hc
    · rw [hpc]
      rfl
    · intro g
      rw [hpc]
      exact Nat.le_refl _
  -- releasing
  · exact some.inj hs ▸ h.drop hpc
  · rename_i g k
    refine some.inj hs ▸ h.pass hpc ⟨rfl, rfl, rfl, rfl, rfl⟩ k.clear ?_
    intro c hc
    rwa [k.relies_pc] at hc
  · rename_i g steps k
    have hquiet : Spares s (s.pc t) := hok
    rw [hpc] at hquiet
    exact some.inj hs ▸ h.collect hpc hquiet
  · exact some.inj hs ▸ h.orphan hpc
  -- gathering
  · exact some.inj hs ▸ h.gather hpc
  · rename_i x
    have hclear : (Pc.gathering x []).Clear := ⟨rfl, rfl, rfl, rfl, rfl⟩
    split at hs
    · exact some.inj hs ▸ h.pass hpc hclear ⟨rfl, rfl, rfl, rfl, rfl⟩ fun _ hc => hc
    · exact some.inj hs ▸ h.pass hpc hclear Pc.clear_idle (by simp [Pc.relies])
  · rename_i x cap slot moved rest
    have hclear : (Pc.reading x cap slot moved rest).Clear := ⟨rfl, rfl, rfl, rfl, rfl⟩
    have hidle : Sound (s.at t .idle) := h.pass hpc hclear Pc.clear_idle (by simp [Pc.relies])
    split at hs
    · split at hs
      · refine some.inj hs ▸ h.pass hpc hclear ⟨rfl, rfl, rfl, rfl, rfl⟩ ?_
        intro c hc
        simp only [Pc.relies, Transfer.take, mem_cons, mem_append] at hc ⊢
        tauto
      · exact some.inj hs ▸ hidle
    · exact some.inj hs ▸ hidle
  -- sending
  · rename_i x
    have hclear : (Pc.sending x).Clear := ⟨rfl, rfl, rfl, rfl, rfl⟩
    split at hs
    · rename_i cap rest htodo
      refine some.inj hs ▸ h.installing ?_ ?_ ?_ ?_ ⟨rfl, rfl, rfl, rfl⟩ ?_
      · simp [hpc, Pc.relies, htodo]
      · intro slot c hc
        rw [hpc]
        simp only [Cont.relies, Pc.relies, mem_cons, htodo] at hc ⊢
        tauto
      · simp [Pc.relies]
      · rw [hpc]
        exact ⟨rfl, rfl, rfl, rfl⟩
      · simp [Pc.owned]
    · exact some.inj hs ▸ h.pass hpc hclear ⟨rfl, rfl, rfl, rfl, rfl⟩ (by simp [Pc.relies])
    · refine some.inj hs ▸ h.pass hpc hclear ⟨rfl, rfl, rfl, rfl, rfl⟩ ?_
      intro c hc
      obtain rfl := mem_singleton.mp hc
      exact mem_cons_self
  · exact some.inj hs ▸ h.pass hpc ⟨rfl, rfl, rfl, rfl, rfl⟩ Pc.clear_idle
      (by simp [Pc.relies])
  · refine some.inj hs ▸ h.releasing (by simp [Cont.relies]) ?_
    rw [hpc]
    exact ⟨rfl, rfl, rfl, rfl, rfl⟩
  -- consuming the moves
  · rename_i x
    have hclear : (Pc.consuming x).Clear := ⟨rfl, rfl, rfl, rfl, rfl⟩
    split at hs
    · refine some.inj hs ▸ h.releasing ?_ ?_
      · intro c hc
        rw [hpc]
        exact hc
      · rw [hpc]
        exact hclear
    · exact some.inj hs ▸ h.pass hpc hclear ⟨rfl, rfl, rfl, rfl, rfl⟩ fun _ hc => hc
    · exact some.inj hs ▸ h.pass hpc hclear Pc.clear_idle (by simp [Pc.relies])
  · rename_i x
    refine some.inj hs ▸ h.count ?_ (by simp [Pc.relies]) ⟨rfl, rfl, rfl, rfl, rfl⟩ ?_ ?_
    · rw [hpc]
      exact mem_cons_self
    · rw [hpc]
      rfl
    · intro g
      rw [hpc]
      exact Nat.zero_le _
  -- delivering to a waiting receiver
  · rename_i x
    have hclear : (Pc.delivering x).Clear := ⟨rfl, rfl, rfl, rfl, rfl⟩
    split at hs
    · split at hs
      · exact absurd hs (by simp)
      · rename_i g hused
        have hfree : (s.nodes g).used = false := by simpa using hused
        refine some.inj hs ▸ h.claim x.invocation hfree (by simp) ?_ ?_
          ⟨rfl, rfl, rfl, rfl⟩ (by simp [Pc.owned])
        · intro c hc
          obtain rfl := mem_singleton.mp hc
          exact .inr ⟨rfl, rfl⟩
        · rw [hpc]
          exact ⟨rfl, rfl, rfl, rfl⟩
    · exact some.inj hs ▸ h.pass hpc hclear Pc.clear_idle (by simp [Pc.relies])
  · rename_i receiver ticket
    have hclear : (Pc.ticketing receiver ticket).Clear := ⟨rfl, rfl, rfl, rfl, rfl⟩
    split at hs
    · refine some.inj hs ▸ h.installing ?_ ?_ ?_ ?_ ⟨rfl, rfl, rfl, rfl⟩ ?_
      · simp [hpc, Pc.relies]
      · simp [Cont.relies]
      · simp [Pc.relies, Cont.relies]
      · rw [hpc]
        exact ⟨rfl, rfl, rfl, rfl⟩
      · simp [Pc.owned]
    · exact some.inj hs ▸ h.pass hpc hclear ⟨rfl, rfl, rfl, rfl, rfl⟩
        (by simp [Pc.relies, Cont.relies])

theorem Sound.step (h : Sound s) {a : Step T} (hok : Undisturbed s a)
    (hs : step domain s a = some s') : Sound s' := by
  cases a with
  | start t op handle =>
    obtain ⟨hidle, hs⟩ := ite_none_right_eq_some.mp hs
    split at hs
    · exact some.inj hs ▸ h
    · rename_i slot cap hlookup
      refine some.inj hs ▸ h.walk ?_ ?_ ⟨rfl, rfl, rfl, rfl, rfl⟩
      · intro c hc
        have hcap : c = cap := by
          cases op <;> simp_all [Pc.relies]
        exact .inr (hcap ▸ lookup_spec hlookup)
      · rw [hidle]
        exact Pc.clear_idle
  | advance t choice => exact h.advance hok hs

omit [DecidableEq T] in
theorem Quiet.sound (h : Quiet s) : Sound s := by
  have hzero : ∀ g, s.drops g = 0 ∧ s.orphans g = 0 := by
    intro g
    refine ⟨tally_eq_zero fun t => ?_, tally_eq_zero fun t => ?_⟩
    · rw [h.idle t]
      exact one_none g
    · rw [h.idle t]
      exact one_none g
  refine ⟨?_, ?_, ?_, ?_, ?_, ?_⟩
  · intro g i hpoints
    cases hpoints with
    | entry hlive hgrant => exact h.identified.entries _ _ _ hlive hgrant
    | parent hused hparent => exact h.identified.parents _ _ hused hparent
    | @relied t cap hcap =>
      rw [h.idle t] at hcap
      exact absurd hcap (by simp [Pc.relies])
  · intro t g hg
    rw [h.idle t] at hg
    exact absurd hg (by simp [Pc.drops])
  · intro t g hg
    rw [h.idle t] at hg
    exact absurd hg (by simp [Pc.orphans])
  · intro g hused
    have := h.refs g hused
    have := hzero g
    omega
  · intro g hused
    have := h.children g hused
    have := hzero g
    omega
  · intro t p c hc
    rw [h.idle t] at hc
    exact absurd hc (by simp [Pc.owned])

/-! ### Results -/

/-- **Overlapping capability operations keep identities while collections disturb nobody.**
In every such run every live entry names the node it was installed under, and every grant's
parent is the node it was derived from. -/
theorem identities_kept (domain : DomainId)
    (h : ((system (T := T) domain).within Undisturbed).Reachable s) : Identified s := by
  have hsound : Sound s := by
    refine System.Reachable.invariant ?_ ?_ h
    · intro u hu
      exact Quiet.sound hu
    · intro u a u' hu hstep
      exact hu.step hstep.1 hstep.2
  exact hsound.identified

/-- Two grants of one signal, each with one handle in the first domain. -/
def twoHandles : State Bool where
  tables := fun domain slot =>
    if domain = 0 ∧ slot = 0 then ⟨1, true, false, ⟨.signal 0, 1⟩, some 0⟩
    else if domain = 0 ∧ slot = 1 then ⟨1, true, false, ⟨.signal 0, 1⟩, some 1⟩
    else ⟨0, false, false, ⟨.scope 0, 0⟩, none⟩
  nodes := fun g =>
    if g = 0 then ⟨true, 1, none, ⟨.signal 0, 1⟩, 1, 0⟩
    else if g = 1 then ⟨true, 2, none, ⟨.signal 0, 1⟩, 1, 0⟩
    else .empty
  nextId := 2
  pc := fun _ => .idle
  under := fun _ slot => if slot = 0 then 1 else 2
  origin := fun _ => 0

theorem twoHandles_quiet : Quiet twoHandles := by
  refine ⟨fun _ => rfl, ⟨?_, ?_⟩, ?_, ?_⟩
  · intro domain slot g hlive hgrant
    unfold twoHandles at hlive hgrant ⊢
    dsimp only at hlive hgrant ⊢
    split at hlive
    · rename_i hat
      obtain ⟨rfl, rfl⟩ := hat
      obtain rfl := some.inj hgrant
      exact ⟨rfl, rfl⟩
    · split at hlive
      · rename_i hat
        obtain ⟨rfl, rfl⟩ := hat
        obtain rfl := some.inj hgrant
        exact ⟨rfl, rfl⟩
      · exact absurd hlive (by simp)
  · intro g parent _ hparent
    unfold twoHandles at hparent
    dsimp only at hparent
    split at hparent
    · exact absurd hparent (by simp)
    · split at hparent
      · exact absurd hparent (by simp)
      · exact absurd hparent (by simp [Node.empty])
  · decide +kernel
  · decide +kernel

/-- The first handle is copied and closed; the other thread derives from the second on the way. -/
def copiedThenClosed : List (Step Bool) :=
  [.start false .copy ⟨0, 1⟩, .advance false .go,
    .start true .derive ⟨1, 1⟩, .advance true .go, .advance true (.node 2), .advance true .go,
    .advance false .go, .advance true .go, .advance false .go, .advance true .go,
    .start false (.close ⟨0, 1⟩) ⟨0, 1⟩, .advance false .go, .advance false .go,
    .advance false .go, .advance false .go]

theorem copy_and_derive_keep_identities : ∃ s : State Bool,
    (s.tables 0 2).grant = some 0 ∧ (s.tables 0 3).grant = some 2 ∧ Identified s := by
  have hrun : (System.exec (System.guarded Undisturbed (step 0)) copiedThenClosed twoHandles).map
      (fun s => ((s.tables 0 2).grant, (s.tables 0 3).grant)) = some (some 0, some 2) := by
    decide +kernel
  obtain ⟨s, hs, hend⟩ := map_eq_some_iff.mp hrun
  obtain ⟨htwo, hthree⟩ : (s.tables 0 2).grant = some 0 ∧ (s.tables 0 3).grant = some 2 := by
    simpa using hend
  have hstart : ((system 0).within Undisturbed).Reachable twoHandles := .init twoHandles_quiet
  have hreach := System.reachable_within_of_guarded hstart hs
  exact ⟨s, htwo, hthree, identities_kept 0 hreach⟩

/-- The first handle is resolved for a copy; the other thread closes it, and derives from the
second handle into the node the first one left; then the copy is installed. -/
def closedUnderCopy : List (Step Bool) :=
  [.start false .copy ⟨0, 1⟩, .advance false .go,
    .start true (.close ⟨0, 1⟩) ⟨0, 1⟩, .advance true .go, .advance true .go, .advance true .go,
    .advance true .go,
    .start true .derive ⟨1, 1⟩, .advance true .go, .advance true (.node 0), .advance true .go,
    .advance true .go, .advance true .go,
    .advance false .go, .advance false .go]

/-- **A copy attaches to a recycled node.**  Nobody is inside an operation, and a live entry
installed under the identity of a node that is gone names the node derived in its place. -/
theorem copy_attaches_to_recycled_node : ∃ s : State Bool, (system 0).Reachable s ∧
    (∀ t, s.pc t = .idle) ∧ (s.tables 0 2).live = true ∧ (s.tables 0 2).grant = some 0 ∧
      s.under 0 2 = 1 ∧ (s.nodes 0).id = 3 ∧ ¬ Identified s := by
  have hrun : (System.exec (step 0) closedUnderCopy twoHandles).map
      (fun s => ((s.pc true, s.pc false), (s.tables 0 2).live, (s.tables 0 2).grant, s.under 0 2,
        (s.nodes 0).id)) = some ((.idle, .idle), true, some 0, 1, 3) := by
    decide +kernel
  obtain ⟨s, hs, hend⟩ := map_eq_some_iff.mp hrun
  simp only [Prod.mk.injEq] at hend
  obtain ⟨⟨htrue, hfalse⟩, hlive, hgrant, hunder, hid⟩ := hend
  have hreach : (system 0).Reachable s := System.reachable_of_exec (.init twoHandles_quiet) hs
  refine ⟨s, hreach, ?_, hlive, hgrant, hunder, hid, ?_⟩
  · intro t
    cases t with
    | false => exact hfalse
    | true => exact htrue
  · intro hidentified
    have := (hidentified.entries 0 2 0 hlive hgrant).2
    rw [hid, hunder] at this
    exact absurd this (by decide)

end Thalyx.Kernel.Sharing
