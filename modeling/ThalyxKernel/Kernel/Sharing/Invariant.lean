/-
What keeps an index meaning the node it meant.

Everything that points at a node does so through an index and an identity: a live entry, a
node's parent link, a capability an operation has resolved.  The invariant says that every
such pointer finds its node, and that a node in use counts the entries that name it and the
nodes below it, up to what the operations in progress have installed and not counted, or
released and not taken away.  So a node whose counts are zero, and which no operation in
progress relies on, has nothing pointing at it and may go.
-/
import ThalyxKernel.Kernel.Sharing.Model

namespace Thalyx.Kernel.Sharing

open Function

/-! ### What a thread owes the counts -/

/-- The node a thread has released an entry of. -/
def Pc.drops : Pc → Option GrantId
  | .dropping g _ => some g
  | _ => none

/-- The node a thread has emptied a child of. -/
def Pc.orphans : Pc → Option GrantId
  | .orphaning parent _ _ => some parent
  | _ => none

/-- The node a thread has installed an entry of, and not counted it. -/
def Pc.uncounted : Pc → Option GrantId
  | .counting cap _ => some cap.grant
  | _ => none

/-- The node a thread has made a child of that is not counted there. -/
def Pc.unadopted : Pc → Option GrantId
  | .adopting parent _ => some parent.grant
  | .clearing parent _ => some parent.grant
  | _ => none

/-- The child a derivation has claimed and nobody else knows. -/
def Pc.owned : Pc → Option (Cap × Cap)
  | .adopting parent child => some (parent, child)
  | .placing parent child => some (parent, child)
  | .abandoning parent child => some (parent, child)
  | .clearing parent child => some (parent, child)
  | _ => none

/-- One if it is `g`. -/
def one (g : GrantId) (o : Option GrantId) : Nat := if o = some g then 1 else 0

theorem one_none (g : GrantId) : one g none = 0 := by simp [one]

variable {g : GrantId}

theorem one_pos {o : Option GrantId} (h : o = some g) : one g o = 1 := by
  simp [one, h]

variable {T : Type} [Fintype T]

def State.drops (s : State T) (g : GrantId) : Nat := tally (fun _ pc => one g (Pc.drops pc)) s.pc

def State.orphans (s : State T) (g : GrantId) : Nat :=
  tally (fun _ pc => one g (Pc.orphans pc)) s.pc

def State.uncounted (s : State T) (g : GrantId) : Nat :=
  tally (fun _ pc => one g (Pc.uncounted pc)) s.pc

def State.unadopted (s : State T) (g : GrantId) : Nat :=
  tally (fun _ pc => one g (Pc.unadopted pc)) s.pc

/-! ### The invariant -/

/-- Something in the state points at `g`, meaning the node of identity `i`. -/
inductive Points (s : State T) : GrantId → Nat → Prop where
  | entry {domain : DomainId} {slot : CapSlot} {g : GrantId} :
      (s.tables domain slot).live = true → (s.tables domain slot).grant = some g →
        Points s g (s.under domain slot)
  | parent {g parent : GrantId} :
      (s.nodes g).used = true → (s.nodes g).parent = some parent → Points s parent (s.origin g)
  | relied {t : T} {cap : Cap} : cap ∈ (s.pc t).relies → Points s cap.grant cap.identity

/-- A child nobody but the deriving thread knows. -/
structure Private (s : State T) (t : T) (parent child : Cap) : Prop where
  link : (s.nodes child.grant).parent = some parent.grant
  ne : parent.grant ≠ child.grant
  refs : (s.nodes child.grant).refs = 0
  children : (s.nodes child.grant).children = 0
  alone : ∀ t', t' ≠ t → ∀ cap ∈ (s.pc t').relies, cap.grant ≠ child.grant

/-- The invariant of runs in which no collection disturbs anybody. -/
structure Sound (s : State T) : Prop where
  alive : ∀ g i, Points s g i → (s.nodes g).used = true ∧ (s.nodes g).id = i
  dropped : ∀ t g, (s.pc t).drops = some g → (s.nodes g).used = true
  orphaned : ∀ t g, (s.pc t).orphans = some g → (s.nodes g).used = true
  counted : ∀ g, (s.nodes g).used = true →
    s.named g + s.drops g ≤ (s.nodes g).refs + s.uncounted g
  adopted : ∀ g, (s.nodes g).used = true →
    s.offspring g + s.orphans g ≤ (s.nodes g).children + s.unadopted g
  own : ∀ t parent child, (s.pc t).owned = some (parent, child) → Private s t parent child

variable {s s' : State T}

theorem Sound.identified (h : Sound s) : Identified s :=
  ⟨fun _ _ g hlive hgrant => h.alive g _ (.entry hlive hgrant),
    fun _ parent hused hparent => h.alive parent _ (.parent hused hparent)⟩

variable {t : T}

theorem Sound.used_of_relied (h : Sound s) {cap : Cap} (hcap : cap ∈ (s.pc t).relies) :
    (s.nodes cap.grant).used = true :=
  (h.alive _ _ (.relied hcap)).1

/-! ### Who relies on what they owe -/

variable {pc : Pc}

theorem Pc.relies_of_uncounted (h : pc.uncounted = some g) : ∃ cap ∈ pc.relies, cap.grant = g := by
  cases pc <;> simp_all [Pc.uncounted, Pc.relies]

theorem Pc.relies_of_unadopted (h : pc.unadopted = some g) : ∃ cap ∈ pc.relies, cap.grant = g := by
  cases pc <;> simp_all [Pc.unadopted, Pc.relies]

variable {child parent : Cap}

theorem Pc.relies_of_owned (h : pc.owned = some (parent, child)) : child ∈ pc.relies := by
  cases pc <;> simp_all [Pc.owned, Pc.relies]

theorem uncounted_eq_zero (h : ∀ t, ∀ cap ∈ (s.pc t).relies, cap.grant ≠ g) :
    s.uncounted g = 0 := by
  refine tally_eq_zero fun t => ?_
  unfold one
  split
  · rename_i howed
    obtain ⟨cap, hcap, hgrant⟩ := Pc.relies_of_uncounted howed
    exact absurd hgrant (h t cap hcap)
  · rfl

theorem unadopted_eq_zero (h : ∀ t, ∀ cap ∈ (s.pc t).relies, cap.grant ≠ g) :
    s.unadopted g = 0 := by
  refine tally_eq_zero fun t => ?_
  unfold one
  split
  · rename_i howed
    obtain ⟨cap, hcap, hgrant⟩ := Pc.relies_of_unadopted howed
    exact absurd hgrant (h t cap hcap)
  · rfl

omit [Fintype T] in
theorem named_pos {domain : DomainId} {slot : CapSlot} (hlive : (s.tables domain slot).live = true)
    (hgrant : (s.tables domain slot).grant = some g) : 0 < s.named g := by
  have hle : names g (s.tables domain slot) ≤ s.named g :=
    le_tally (fun _ entry => names g entry)
      (fun at' : DomainId × CapSlot => s.tables at'.1 at'.2) (domain, slot)
  have hone : names g (s.tables domain slot) = 1 := by simp [names, hlive, hgrant]
  omega

omit [Fintype T] in
theorem offspring_pos {parent : GrantId} (hused : (s.nodes g).used = true)
    (hparent : (s.nodes g).parent = some parent) : 0 < s.offspring parent := by
  have hle : below parent (s.nodes g) ≤ s.offspring parent :=
    le_tally (fun _ node => below parent node) s.nodes g
  have hone : below parent (s.nodes g) = 1 := by simp [below, hused, hparent]
  omega

theorem drops_pos (h : (s.pc t).drops = some g) : 0 < s.drops g := by
  have hle : one g (s.pc t).drops ≤ s.drops g :=
    le_tally (fun _ pc => one g (Pc.drops pc)) s.pc t
  have hone := one_pos h
  omega

theorem orphans_pos (h : (s.pc t).orphans = some g) : 0 < s.orphans g := by
  have hle : one g (s.pc t).orphans ≤ s.orphans g :=
    le_tally (fun _ pc => one g (Pc.orphans pc)) s.pc t
  have hone := one_pos h
  omega

theorem Sound.private_unknown (h : Sound s) (howned : (s.pc t).owned = some (parent, child)) :
    s.named child.grant = 0 ∧ s.drops child.grant = 0 ∧ s.offspring child.grant = 0 ∧
      s.orphans child.grant = 0 := by
  have hown := h.own t parent child howned
  have hused := h.used_of_relied (Pc.relies_of_owned howned)
  have huncounted : s.uncounted child.grant = 0 := by
    refine tally_eq_zero fun t' => ?_
    unfold one
    split
    · rename_i howed
      by_cases ht : t' = t
      · subst ht
        cases hpc : s.pc t' <;> simp_all [Pc.owned, Pc.uncounted]
      · obtain ⟨cap, hcap, hgrant⟩ := Pc.relies_of_uncounted howed
        exact absurd hgrant (hown.alone t' ht cap hcap)
    · rfl
  have hunadopted : s.unadopted child.grant = 0 := by
    refine tally_eq_zero fun t' => ?_
    unfold one
    split
    · rename_i howed
      by_cases ht : t' = t
      · subst ht
        exfalso
        refine hown.ne ?_
        cases hpc : s.pc t' <;> simp_all [Pc.owned, Pc.unadopted]
      · obtain ⟨cap, hcap, hgrant⟩ := Pc.relies_of_unadopted howed
        exact absurd hgrant (hown.alone t' ht cap hcap)
    · rfl
  have hcounted := h.counted _ hused
  have hadopted := h.adopted _ hused
  have := hown.refs
  have := hown.children
  omega

/-! ### Steps that neither claim a node nor empty one -/

variable [DecidableEq T]

theorem owed_update (hpc : s'.pc = update s.pc t pc) (g : GrantId) :
    s'.drops g + one g (s.pc t).drops = s.drops g + one g pc.drops ∧
    s'.orphans g + one g (s.pc t).orphans = s.orphans g + one g pc.orphans ∧
    s'.uncounted g + one g (s.pc t).uncounted = s.uncounted g + one g pc.uncounted ∧
    s'.unadopted g + one g (s.pc t).unadopted = s.unadopted g + one g pc.unadopted := by
  unfold State.drops State.orphans State.uncounted State.unadopted
  rw [hpc]
  exact ⟨tally_update (fun _ pc => one g (Pc.drops pc)) s.pc t pc,
    tally_update (fun _ pc => one g (Pc.orphans pc)) s.pc t pc,
    tally_update (fun _ pc => one g (Pc.uncounted pc)) s.pc t pc,
    tally_update (fun _ pc => one g (Pc.unadopted pc)) s.pc t pc⟩

/-- A live entry names `g`, installed under identity `i`. -/
def Entry (s : State T) (g : GrantId) (i : Nat) : Prop :=
  ∃ domain slot, (s.tables domain slot).live = true ∧
    (s.tables domain slot).grant = some g ∧ s.under domain slot = i

/-- What a thread may do to the tables, the counts and its own position, every node staying
what it is. -/
structure Frame (s s' : State T) (t : T) (pc : Pc) : Prop where
  moved : s'.pc = Function.update s.pc t pc
  nodes : ∀ g, (s'.nodes g).used = (s.nodes g).used ∧ (s'.nodes g).id = (s.nodes g).id ∧
    (s'.nodes g).parent = (s.nodes g).parent
  origin : s'.origin = s.origin
  /-- A new entry is of a capability the thread relied on. -/
  entries : ∀ g i, Entry s' g i →
    Entry s g i ∨ ∃ cap ∈ (s.pc t).relies, cap.grant = g ∧ cap.identity = i
  /-- What it relies on now it relied on before, or has just looked up. -/
  relies : ∀ cap ∈ pc.relies, cap ∈ (s.pc t).relies ∨ Entry s cap.grant cap.identity
  /-- What it has released was there. -/
  drops : ∀ g, pc.drops = some g → ∃ i, Entry s g i
  orphans : pc.orphans = none
  counted : ∀ g, s'.named g + one g pc.drops + ((s.nodes g).refs + one g (s.pc t).uncounted) ≤
    s.named g + one g (s.pc t).drops + ((s'.nodes g).refs + one g pc.uncounted)
  adopted : ∀ g, one g pc.orphans + ((s.nodes g).children + one g (s.pc t).unadopted) ≤
    one g (s.pc t).orphans + ((s'.nodes g).children + one g pc.unadopted)
  /-- It counts only on what it relied on. -/
  grows : ∀ g, (s.nodes g).refs < (s'.nodes g).refs ∨
    (s.nodes g).children < (s'.nodes g).children → ∃ cap ∈ (s.pc t).relies, cap.grant = g
  owned : ∀ parent child, pc.owned = some (parent, child) →
    (s.pc t).owned = some (parent, child) ∧
      (s'.nodes child.grant).refs ≤ (s.nodes child.grant).refs ∧
      (s'.nodes child.grant).children ≤ (s.nodes child.grant).children

omit [DecidableEq T] [Fintype T] in
theorem Points.of_entry {i : Nat} (h : Entry s g i) : Points s g i := by
  obtain ⟨domain, slot, hlive, hgrant, rfl⟩ := h
  exact .entry hlive hgrant

omit [DecidableEq T] in
theorem Sound.not_private_of_entry (h : Sound s) {i : Nat}
    (howned : (s.pc t).owned = some (parent, child)) : ¬ Entry s child.grant i := by
  rintro ⟨domain, slot, hlive, hgrant, -⟩
  have := named_pos hlive hgrant
  have := (h.private_unknown howned).1
  omega

theorem Sound.frame (h : Sound s) (f : Frame s s' t pc) : Sound s' := by
  have hself : s'.pc t = pc := by rw [f.moved, update_self]
  have hother : ∀ t', t' ≠ t → s'.pc t' = s.pc t' := by
    intro t' ht
    rw [f.moved, update_of_ne ht]
  have hoffspring : ∀ g, s'.offspring g = s.offspring g := by
    intro g
    refine tally_congr fun n => ?_
    simp only [below, (f.nodes n).1, (f.nodes n).2.2]
  have hentry : ∀ g i, Entry s' g i → Points s g i := by
    intro g i he
    rcases f.entries g i he with hold | ⟨cap, hcap, rfl, rfl⟩
    · exact .of_entry hold
    · exact .relied hcap
  refine ⟨?_, ?_, ?_, ?_, ?_, ?_⟩
  · intro g i hpoints
    rw [(f.nodes g).1, (f.nodes g).2.1]
    refine h.alive g i ?_
    cases hpoints with
    | entry hlive hgrant => exact hentry g _ ⟨_, _, hlive, hgrant, rfl⟩
    | @parent n _ hused hparent =>
      rw [(f.nodes n).1] at hused
      rw [(f.nodes n).2.2] at hparent
      rw [f.origin]
      exact .parent hused hparent
    | @relied t' cap hcap =>
      by_cases ht : t' = t
      · rw [ht, hself] at hcap
        rcases f.relies cap hcap with hold | hnew
        · exact .relied hold
        · exact .of_entry hnew
      · rw [hother t' ht] at hcap
        exact .relied hcap
  · intro t' g hdrops
    rw [(f.nodes g).1]
    by_cases ht : t' = t
    · rw [ht, hself] at hdrops
      obtain ⟨i, hi⟩ := f.drops g hdrops
      exact (h.alive g i (.of_entry hi)).1
    · rw [hother t' ht] at hdrops
      exact h.dropped t' g hdrops
  · intro t' g horphans
    rw [(f.nodes g).1]
    by_cases ht : t' = t
    · rw [ht, hself, f.orphans] at horphans
      exact absurd horphans (by simp)
    · rw [hother t' ht] at horphans
      exact h.orphaned t' g horphans
  · intro g hused
    rw [(f.nodes g).1] at hused
    have := h.counted g hused
    have := f.counted g
    obtain ⟨hd, -, hu, -⟩ := owed_update f.moved g
    omega
  · intro g hused
    rw [(f.nodes g).1] at hused
    rw [hoffspring]
    have := h.adopted g hused
    have := f.adopted g
    obtain ⟨-, ho, -, hu⟩ := owed_update f.moved g
    omega
  · intro t' parent child howned
    by_cases ht : t' = t
    · rw [ht, hself] at howned
      obtain ⟨hold, hrefs, hchildren⟩ := f.owned parent child howned
      have hown := h.own t parent child hold
      rw [ht]
      refine ⟨?_, hown.ne, ?_, ?_, ?_⟩
      · rw [(f.nodes _).2.2]
        exact hown.link
      · have := hown.refs
        omega
      · have := hown.children
        omega
      · intro t'' ht'' cap hcap
        rw [hother t'' ht''] at hcap
        exact hown.alone t'' ht'' cap hcap
    · rw [hother t' ht] at howned
      have hown := h.own t' parent child howned
      have hstays := f.grows child.grant
      refine ⟨?_, hown.ne, ?_, ?_, ?_⟩
      · rw [(f.nodes _).2.2]
        exact hown.link
      · by_contra hne
        have := hown.refs
        obtain ⟨cap, hcap, hgrant⟩ := hstays (.inl (by omega))
        exact hown.alone t (Ne.symm ht) cap hcap hgrant
      · by_contra hne
        have := hown.children
        obtain ⟨cap, hcap, hgrant⟩ := hstays (.inr (by omega))
        exact hown.alone t (Ne.symm ht) cap hcap hgrant
      · intro t'' ht'' cap hcap
        by_cases hthis : t'' = t
        · rw [hthis, hself] at hcap
          rcases f.relies cap hcap with hold | hnew
          · exact hown.alone t (Ne.symm ht) cap hold
          · intro hgrant
            rw [hgrant] at hnew
            exact h.not_private_of_entry howned hnew
        · rw [hother t'' hthis] at hcap
          exact hown.alone t'' ht'' cap hcap

theorem Sound.tables (h : Sound s)
    (hsame : s'.nodes = s.nodes ∧ s'.origin = s.origin ∧ s'.pc = s.pc)
    (hentries : ∀ g i, Entry s' g i →
      Entry s g i ∨ ∃ cap ∈ (s.pc t).relies, cap.grant = g ∧ cap.identity = i)
    (hrelies : ∀ cap ∈ pc.relies, cap ∈ (s.pc t).relies ∨ Entry s cap.grant cap.identity)
    (hdrops : ∀ g, pc.drops = some g → ∃ i, Entry s g i)
    (horphans : (s.pc t).orphans = none ∧ pc.orphans = none)
    (hcounted : ∀ g, s'.named g + one g pc.drops + one g (s.pc t).uncounted ≤
      s.named g + one g (s.pc t).drops + one g pc.uncounted)
    (hadopted : ∀ g, one g (s.pc t).unadopted ≤ one g pc.unadopted)
    (howned : ∀ parent child, pc.owned = some (parent, child) →
      (s.pc t).owned = some (parent, child)) : Sound (s'.at t pc) := by
  obtain ⟨hnodes, horigin, hpc⟩ := hsame
  have hat : (s'.at t pc).nodes = s.nodes := hnodes
  refine h.frame ⟨?_, ?_, horigin, hentries, hrelies, hdrops, horphans.2, ?_, ?_, ?_, ?_⟩
  · rw [← hpc]
    rfl
  · intro g
    rw [hat]
    exact ⟨rfl, rfl, rfl⟩
  · intro g
    have : s'.named g + _ + _ ≤ _ := hcounted g
    rw [hat]
    change s'.named g + _ + _ ≤ _
    omega
  · intro g
    have := hadopted g
    rw [hat, horphans.1, horphans.2]
    omega
  · intro g hg
    rw [hat] at hg
    omega
  · intro parent child hchild
    rw [hat]
    exact ⟨howned parent child hchild, Nat.le_refl _, Nat.le_refl _⟩

/-! ### A node is claimed -/

omit [DecidableEq T] in
theorem Sound.unknown (h : Sound s) (hfree : (s.nodes g).used = false) :
    s.named g = 0 ∧ s.drops g = 0 ∧ s.offspring g = 0 ∧ s.orphans g = 0 := by
  have hpoints : ∀ i, ¬ Points s g i := by
    intro i hi
    have := (h.alive g i hi).1
    simp [hfree] at this
  refine ⟨?_, ?_, ?_, ?_⟩
  · refine tally_eq_zero fun at' => ?_
    unfold names
    split
    · rename_i hnames
      exact absurd (Points.entry hnames.1 hnames.2) (hpoints _)
    · rfl
  · refine tally_eq_zero fun t => ?_
    unfold one
    split
    · rename_i hdrops
      have := h.dropped t g hdrops
      simp [hfree] at this
    · rfl
  · refine tally_eq_zero fun n => ?_
    unfold below
    split
    · rename_i hbelow
      exact absurd (Points.parent hbelow.1 hbelow.2) (hpoints _)
    · rfl
  · refine tally_eq_zero fun t => ?_
    unfold one
    split
    · rename_i horphans
      have := h.orphaned t g horphans
      simp [hfree] at this
    · rfl

theorem Sound.claim (h : Sound s) {parent : Option Cap}
    (object : ObjRef) (hfree : (s.nodes g).used = false)
    (hparent : ∀ cap, parent = some cap → cap ∈ (s.pc t).relies)
    (hrelies : ∀ cap ∈ pc.relies, cap ∈ (s.pc t).relies ∨
      cap.grant = g ∧ cap.identity = s.nextId + 1)
    (hold : (s.pc t).drops = none ∧ (s.pc t).orphans = none ∧ (s.pc t).uncounted = none ∧
      (s.pc t).unadopted = none) (hnew : pc.drops = none ∧ pc.orphans = none ∧ pc.uncounted = none ∧
      pc.unadopted = parent.map Cap.grant)
    (howned : ∀ p child, pc.owned = some (p, child) → parent = some p ∧ child.grant = g) :
    Sound ((s.claim g parent object).at t pc) := by
  set s' := (s.claim g parent object).at t pc with hs'
  have hpc : s'.pc = update s.pc t pc := rfl
  have hself : s'.pc t = pc := by rw [hpc, update_self]
  have hother : ∀ t', t' ≠ t → s'.pc t' = s.pc t' := by
    intro t' ht
    rw [hpc, update_of_ne ht]
  have hnode : s'.nodes g = ⟨true, s.nextId + 1, parent.map Cap.grant, object, 0, 0⟩ := by
    simp [hs', State.at, State.claim]
  have hnodes : ∀ n, n ≠ g → s'.nodes n = s.nodes n := by
    intro n hn
    simp [hs', State.at, State.claim, update_of_ne hn]
  have hne : ∀ {n}, (s.nodes n).used = true → n ≠ g := by
    rintro n hused rfl
    simp [hfree] at hused
  have hused : ∀ n, (s.nodes n).used = true → (s'.nodes n).used = true := by
    intro n hn
    rw [hnodes n (hne hn)]
    exact hn
  have hstays : ∀ n i, Points s n i → (s'.nodes n).used = true ∧ (s'.nodes n).id = i := by
    intro n i hpoints
    have halive := h.alive n i hpoints
    rw [hnodes n (hne halive.1)]
    exact halive
  obtain ⟨hnamed, hdrops, hoffspring, horphans⟩ := h.unknown hfree
  have hbelow : ∀ n, s'.offspring n = s.offspring n + one n (parent.map Cap.grant) := by
    intro n
    have htrade := tally_update (fun _ node => below n node) s.nodes g (s'.nodes g)
    have hzero : below n (s.nodes g) = 0 := by simp [below, hfree]
    have hone : below n (s'.nodes g) = one n (parent.map Cap.grant) := by
      rw [hnode]
      simp [below, one]
    have hupdate : s'.nodes = update s.nodes g (s'.nodes g) := by
      rw [hnode]
      rfl
    unfold State.offspring
    rw [hupdate]
    omega
  have howed : ∀ n, s'.drops n = s.drops n ∧ s'.orphans n = s.orphans n ∧
      s'.uncounted n = s.uncounted n ∧
      s'.unadopted n = s.unadopted n + one n (parent.map Cap.grant) := by
    intro n
    have := owed_update hpc n
    simp only [hold, hnew, one_none] at this
    omega
  refine ⟨?_, ?_, ?_, ?_, ?_, ?_⟩
  · intro n i hpoints
    cases hpoints with
    | entry hlive hgrant => exact hstays n _ (.entry hlive hgrant)
    | @parent m _ hm hlink =>
      by_cases hmg : m = g
      · subst hmg
        rw [hnode] at hlink
        obtain ⟨cap, hcap, rfl⟩ := Option.map_eq_some_iff.mp hlink
        have horigin : s'.origin m = cap.identity := by
          simp [hs', State.at, State.claim, hcap]
        rw [horigin]
        exact hstays _ _ (.relied (hparent cap hcap))
      · rw [hnodes m hmg] at hm hlink
        have horigin : s'.origin m = s.origin m := by
          simp [hs', State.at, State.claim, update_of_ne hmg]
        rw [horigin]
        exact hstays _ _ (.parent hm hlink)
    | @relied t' cap hcap =>
      by_cases ht : t' = t
      · rw [ht, hself] at hcap
        rcases hrelies cap hcap with hold' | ⟨hg, hi⟩
        · exact hstays _ _ (.relied hold')
        · rw [hg, hnode]
          exact ⟨rfl, hi.symm⟩
      · rw [hother t' ht] at hcap
        exact hstays _ _ (.relied hcap)
  · intro t' n hn
    by_cases ht : t' = t
    · rw [ht, hself, hnew.1] at hn
      exact absurd hn (by simp)
    · rw [hother t' ht] at hn
      exact hused n (h.dropped t' n hn)
  · intro t' n hn
    by_cases ht : t' = t
    · rw [ht, hself, hnew.2.1] at hn
      exact absurd hn (by simp)
    · rw [hother t' ht] at hn
      exact hused n (h.orphaned t' n hn)
  · intro n hn
    obtain ⟨hd, -, hu, -⟩ := howed n
    have hsame : s'.named n = s.named n := rfl
    by_cases hng : n = g
    · subst hng
      omega
    · rw [hnodes n hng] at hn ⊢
      have := h.counted n hn
      omega
  · intro n hn
    obtain ⟨-, ho, -, hu⟩ := howed n
    have := hbelow n
    by_cases hng : n = g
    · subst hng
      omega
    · rw [hnodes n hng] at hn ⊢
      have := h.adopted n hn
      omega
  · intro t' p child hpc'
    by_cases ht : t' = t
    · rw [ht, hself] at hpc'
      obtain ⟨hp, hchild⟩ := howned p child hpc'
      have hrelied := h.used_of_relied (hparent p hp)
      rw [ht]
      refine ⟨?_, ?_, ?_, ?_, ?_⟩
      · rw [hchild, hnode, hp]
        rfl
      · rw [hchild]
        exact hne hrelied
      · rw [hchild, hnode]
      · rw [hchild, hnode]
      · intro t'' ht'' cap hcap
        rw [hother t'' ht''] at hcap
        rw [hchild]
        exact hne (h.used_of_relied hcap)
    · rw [hother t' ht] at hpc'
      have hown := h.own t' p child hpc'
      have hchild : child.grant ≠ g := hne (h.used_of_relied (Pc.relies_of_owned hpc'))
      refine ⟨?_, hown.ne, ?_, ?_, ?_⟩
      · rw [hnodes _ hchild]
        exact hown.link
      · rw [hnodes _ hchild]
        exact hown.refs
      · rw [hnodes _ hchild]
        exact hown.children
      · intro t'' ht'' cap hcap
        by_cases hthis : t'' = t
        · rw [hthis, hself] at hcap
          rcases hrelies cap hcap with hold' | ⟨hg, -⟩
          · exact hown.alone t (Ne.symm ht) cap hold'
          · rw [hg]
            exact Ne.symm hchild
        · rw [hother t'' hthis] at hcap
          exact hown.alone t'' ht'' cap hcap

/-! ### A node is emptied -/

theorem Sound.free (h : Sound s) (hused : (s.nodes g).used = true)
    (hgone : s.named g = 0 ∧ s.drops g = 0 ∧ s.offspring g = 0 ∧ s.orphans g = 0)
    (hfree : ∀ cap ∈ pc.relies, cap ∈ (s.pc t).relies ∧ cap.grant ≠ g)
    (hothers : ∀ t', t' ≠ t → ∀ cap ∈ (s.pc t').relies, cap.grant ≠ g)
    (hold : (s.pc t).drops = none ∧ (s.pc t).orphans = none ∧ (s.pc t).uncounted = none)
    (hnew : pc.drops = none ∧ pc.uncounted = none ∧ pc.unadopted = none ∧ pc.owned = none)
    (horphans : ∀ parent, pc.orphans = some parent → (s.nodes g).parent = some parent)
    (hadopted : ∀ n, one n pc.orphans + one n (s.pc t).unadopted ≤ one n (s.nodes g).parent) :
    Sound ((s.setNode g fun _ => .empty).at t pc) := by
  set s' := (s.setNode g fun _ => .empty).at t pc with hs'
  have hpc : s'.pc = update s.pc t pc := rfl
  have hself : s'.pc t = pc := by rw [hpc, update_self]
  have hother : ∀ t', t' ≠ t → s'.pc t' = s.pc t' := by
    intro t' ht
    rw [hpc, update_of_ne ht]
  have hnode : s'.nodes g = .empty := by simp [hs', State.at, State.setNode]
  have hnodes : ∀ n, n ≠ g → s'.nodes n = s.nodes n := by
    intro n hn
    simp [hs', State.at, State.setNode, update_of_ne hn]
  obtain ⟨hnamed, hdrops, hoffspring, horphaned⟩ := hgone
  have hlink : ∀ {m n}, (s.nodes m).used = true → (s.nodes m).parent = some n → n ≠ g := by
    rintro m n hm hlink rfl
    have := offspring_pos hm hlink
    omega
  have hbelow : ∀ n, s'.offspring n + one n (s.nodes g).parent = s.offspring n := by
    intro n
    have htrade := tally_update (fun _ node => below n node) s.nodes g .empty
    have hzero : below n Node.empty = 0 := by simp [below, Node.empty]
    have hone : below n (s.nodes g) = one n (s.nodes g).parent := by
      simp [below, one, hused]
    have hupdate : s'.offspring n = tally (fun _ node => below n node)
        (update s.nodes g .empty) := rfl
    unfold State.offspring at *
    omega
  have howed : ∀ n, s'.drops n = s.drops n ∧ s'.uncounted n = s.uncounted n ∧
      s'.orphans n = s.orphans n + one n pc.orphans ∧
      s'.unadopted n + one n (s.pc t).unadopted = s.unadopted n := by
    intro n
    have := owed_update hpc n
    simp only [hold, hnew, one_none] at this
    omega
  have hrelied : ∀ t', ∀ cap ∈ (s'.pc t').relies, (∃ t'', cap ∈ (s.pc t'').relies) ∧ cap.grant ≠ g := by
    intro t' cap hcap
    by_cases ht : t' = t
    · rw [ht, hself] at hcap
      exact ⟨⟨t, (hfree cap hcap).1⟩, (hfree cap hcap).2⟩
    · rw [hother t' ht] at hcap
      exact ⟨⟨t', hcap⟩, hothers t' ht cap hcap⟩
  refine ⟨?_, ?_, ?_, ?_, ?_, ?_⟩
  · intro n i hpoints
    have hold' : n ≠ g ∧ Points s n i := by
      cases hpoints with
      | @entry domain slot _ hlive hgrant =>
        refine ⟨?_, .entry hlive hgrant⟩
        rintro rfl
        have : 0 < s.named n := named_pos hlive hgrant
        omega
      | @parent m _ hm hm' =>
        have hmg : m ≠ g := by
          rintro rfl
          rw [hnode] at hm
          simp [Node.empty] at hm
        rw [hnodes m hmg] at hm hm'
        exact ⟨hlink hm hm', .parent hm hm'⟩
      | @relied t' cap hcap =>
        obtain ⟨⟨t'', hcap''⟩, hne⟩ := hrelied t' cap hcap
        exact ⟨hne, .relied hcap''⟩
    rw [hnodes n hold'.1]
    exact h.alive n i hold'.2
  · intro t' n hn
    by_cases ht : t' = t
    · rw [ht, hself, hnew.1] at hn
      exact absurd hn (by simp)
    · rw [hother t' ht] at hn
      have hng : n ≠ g := by
        rintro rfl
        have := drops_pos hn
        omega
      rw [hnodes n hng]
      exact h.dropped t' n hn
  · intro t' n hn
    by_cases ht : t' = t
    · rw [ht, hself] at hn
      have hparent := horphans n hn
      rw [hnodes n (hlink hused hparent)]
      exact (h.alive n _ (.parent hused hparent)).1
    · rw [hother t' ht] at hn
      have hng : n ≠ g := by
        rintro rfl
        have := orphans_pos hn
        omega
      rw [hnodes n hng]
      exact h.orphaned t' n hn
  · intro n hn
    have hng : n ≠ g := by
      rintro rfl
      rw [hnode] at hn
      simp [Node.empty] at hn
    rw [hnodes n hng] at hn ⊢
    obtain ⟨hd, hu, -, -⟩ := howed n
    have := h.counted n hn
    have hsame : s'.named n = s.named n := rfl
    omega
  · intro n hn
    have hng : n ≠ g := by
      rintro rfl
      rw [hnode] at hn
      simp [Node.empty] at hn
    rw [hnodes n hng] at hn ⊢
    obtain ⟨-, -, ho, hu⟩ := howed n
    have := h.adopted n hn
    have := hbelow n
    have := hadopted n
    omega
  · intro t' parent child hpc'
    by_cases ht : t' = t
    · rw [ht, hself, hnew.2.2.2] at hpc'
      exact absurd hpc' (by simp)
    · rw [hother t' ht] at hpc'
      have hown := h.own t' parent child hpc'
      have hchild : child.grant ≠ g := hothers t' ht child (Pc.relies_of_owned hpc')
      refine ⟨?_, hown.ne, ?_, ?_, ?_⟩
      · rw [hnodes _ hchild]
        exact hown.link
      · rw [hnodes _ hchild]
        exact hown.refs
      · rw [hnodes _ hchild]
        exact hown.children
      · intro t'' ht'' cap hcap
        by_cases hthis : t'' = t
        · rw [hthis, hself] at hcap
          exact hown.alone t (Ne.symm ht) cap (hfree cap hcap).1
        · rw [hother t'' hthis] at hcap
          exact hown.alone t'' ht'' cap hcap

end Thalyx.Kernel.Sharing
