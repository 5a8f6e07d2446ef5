/-
Every step of the machine is a path of moves.

What a step has to meet for that is `Fit`: for each thing a run is known to take care of, the
condition on the step and the state it is taken in.  Two facts about the states themselves
are needed on the way, that no processor is ahead of the published generations and that what
can be mapped into has a space; every move keeps them.
-/
import ThalyxKernel.Kernel.Memory.Raise

namespace Thalyx.Kernel.Memory

open AddressSpace (pageSize)
open Allocator (Same inRun Drains)

variable {care : Care} {s s' : State} {x y : Midway} {t u : Tables}

/-! ### What a processor does on its own -/

/-- The processors in each space once one has left the space it was in. -/
def State.leave (s : State) (c : Cpu) : DomainId → Cpu → Bool :=
  match (s.cpus c).loaded with
  | none => s.live
  | some d => Function.update s.live d (Function.update (s.live d) c false)

/-- The steps of one processor, each with what it finds. -/
inductive State.Does (s : State) : State.Alone → State → Prop where
  | still (a : State.Alone) : Does s a s
  | note {c : Cpu} {d : DomainId} (hf : s.free c = true)
      (hd : (s.tables.domains d).state = .runnable)
      (hs : (s.tables.domains d).space.isSome = true) :
      Does s (.note c d)
        (({ s with
            live := Function.update s.live d (Function.update (s.live d) c true) }).setCpu c
          fun p => { p with next := some (some d) })
  | rest {c : Cpu} (hf : s.free c = true) :
      Does s (.rest c) (s.setCpu c fun p => { p with next := some none })
  | stay {c : Cpu} (hon : (s.cpus c).online = true) (hn : (s.cpus c).next = some (s.cpus c).loaded) :
      Does s (.switch c) (s.setCpu c fun p => { p with next := none })
  | move {c : Cpu} {target : Option DomainId} (hon : (s.cpus c).online = true)
      (hn : (s.cpus c).next = some target) (hl : (s.cpus c).loaded ≠ target) :
      Does s (.switch c) (({ s with live := s.leave c }).setCpu c
        fun p => { p with loaded := target, next := none, cache := [] })
  | refresh {c : Cpu} (hon : (s.cpus c).online = true) (hg : (s.cpus c).seen < s.generation) :
      Does s (.refresh c) (s.setCpu c fun p =>
        { p with
          cache := []
          kernelCache := if p.seenKernel < s.kernelGeneration then [] else p.kernelCache
          seenKernel := s.kernelGeneration
          seen := s.generation })
  | walk {c : Cpu} {page f : Nat} {rights : PageRights} (hon : (s.cpus c).online = true)
      (ht : s.translates c page = some (f, rights)) :
      Does s (.walk c page) (s.setCpu c fun p => { p with cache := (page, f, rights) :: p.cache })
  | walkKernel {c : Cpu} {page f : Nat} {rights : PageRights} (hon : (s.cpus c).online = true)
      (ht : s.tables.kernel.leaves.lookup page = some (f, rights)) :
      Does s (.walkKernel c page)
        (s.setCpu c fun p => { p with kernelCache := (page, f, rights) :: p.kernelCache })

/-- **One step of one processor, told apart by what it finds.** -/
theorem alone_does (s : State) (a : State.Alone) : s.Does a (s.alone a) := by
  cases a with
  | note c d =>
    rw [State.alone]
    split
    · rename_i h
      exact .note h.1 h.2.1 h.2.2
    · exact .still _
  | rest c =>
    rw [State.alone]
    split
    · rename_i h
      exact .rest h
    · exact .still _
  | switch c =>
    rw [State.alone]
    split
    · rename_i hon
      unfold State.switch
      split
      · exact .still _
      rename_i target hn
      split
      · rename_i hl
        exact .stay hon (hl ▸ hn)
      · rename_i hl
        have hmove : s.Does (.switch c) _ := .move hon hn hl
        unfold State.leave at hmove
        simp only
        cases hloaded : (s.cpus c).loaded with
        | none =>
          simp only [hloaded] at hmove
          exact hmove
        | some d =>
          simp only [hloaded] at hmove
          exact hmove
    · exact .still _
  | refresh c =>
    rw [State.alone]
    split
    · rename_i hon
      unfold State.refresh
      split
      · exact .still _
      · rename_i hg
        exact .refresh hon (Nat.not_le.mp hg)
    · exact .still _
  | walk c page =>
    rw [State.alone]
    split
    · rename_i f rights ht
      split
      · rename_i hon
        exact .walk hon ht
      · exact .still _
    · exact .still _
  | walkKernel c page =>
    rw [State.alone]
    split
    · rename_i f rights ht
      split
      · rename_i hon
        exact .walkKernel hon ht
      · exact .still _
    · exact .still _

variable {a : State.Alone}

theorem State.Does.tables (h : s.Does a s') : s'.tables = s.tables := by
  cases h <;> rfl

theorem alone_tables (s : State) (a : State.Alone) : (s.alone a).tables = s.tables :=
  (alone_does s a).tables

/-! ### Clocks -/

variable {f : Processor → Processor}

theorem State.Clocked.setCpu (hs : s.Clocked) (c : Cpu)
    (h : (f (s.cpus c)).online = true → (f (s.cpus c)).seen ≤ s.generation ∧
      (f (s.cpus c)).seenKernel ≤ s.kernelGeneration) : (s.setCpu c f).Clocked := by
  intro c' hon
  by_cases hc : c' = c
  · subst hc
    simp only [State.setCpu, Function.update_self] at hon ⊢
    exact h hon
  · simp only [State.setCpu, Function.update_of_ne hc] at hon ⊢
    exact hs c' hon

theorem State.Clocked.keep (hs : s.Clocked) (c : Cpu)
    (h : ∀ p, (f p).online = p.online ∧ (f p).seen = p.seen ∧ (f p).seenKernel = p.seenKernel) :
    (s.setCpu c f).Clocked := by
  obtain ⟨hon, hseen, hkernel⟩ := h (s.cpus c)
  refine hs.setCpu c fun h => ?_
  rw [hseen, hkernel]
  exact hs c (hon ▸ h)

theorem State.Clocked.publish (hs : s.Clocked) : s.publish.Clocked := fun c hon =>
  ⟨le_trans (hs c hon).1 (Nat.le_succ _), (hs c hon).2⟩

theorem State.Clocked.does (hs : s.Clocked) (h : s.Does a s') : s'.Clocked := by
  cases h with
  | still a => exact hs
  | note _ _ _ =>
    refine State.Clocked.keep ?_ _ fun _ => ⟨rfl, rfl, rfl⟩
    exact hs
  | rest _ => exact hs.keep _ fun _ => ⟨rfl, rfl, rfl⟩
  | stay _ _ => exact hs.keep _ fun _ => ⟨rfl, rfl, rfl⟩
  | move _ _ _ =>
    refine State.Clocked.keep ?_ _ fun _ => ⟨rfl, rfl, rfl⟩
    exact hs
  | refresh _ _ => exact hs.setCpu _ fun _ => ⟨le_refl _, le_refl _⟩
  | walk _ _ => exact hs.keep _ fun _ => ⟨rfl, rfl, rfl⟩
  | walkKernel _ _ => exact hs.keep _ fun _ => ⟨rfl, rfl, rfl⟩

theorem withdrawDeferring_clocked (hs : s.Clocked) (me : Cpu) (m : MapId) :
    (s.withdrawDeferring me m).1.Clocked := by
  unfold State.withdrawDeferring
  simp only
  split
  · have hinvalidated : ∀ d vaddr count, (s.invalidate me d vaddr count).Clocked := by
      intro d vaddr count
      unfold State.invalidate
      split
      · exact hs.keep me fun _ => ⟨rfl, rfl, rfl⟩
      · exact hs
    split
    · exact (hinvalidated _ _ _).publish
    · exact hinvalidated _ _ _
  · exact hs

/-- **No move puts a processor ahead of what has been published.** -/
theorem Move.clocked (h : Move care (s, x) (s', y)) (hs : s.Clocked) : s'.Clocked := by
  cases h with
  | alone a => exact hs.does (alone_does s a)
  | withdraw me _ => exact withdrawDeferring_clocked hs me _
  | collectLater _ => exact hs.publish
  | publish => exact hs.publish
  | publishKernel =>
    exact fun c hon => ⟨le_trans (hs c hon).1 (Nat.le_succ _), le_trans (hs c hon).2 (Nat.le_succ _)⟩
  | abandon _ => exact hs.publish.publish
  | destroy _ _ _ _ => exact hs.publish.publish
  | ghost _ _ _ _ _ _ _ => exact hs.keep _ fun _ => ⟨rfl, rfl, rfl⟩
  | evict c _ _ => exact hs.keep _ fun _ => ⟨rfl, rfl, rfl⟩
  | online _ => exact hs.setCpu _ fun _ => ⟨le_refl _, le_refl _⟩
  | offline _ _ => exact hs.setCpu _ fun hon => by cases hon
  | settle me => exact hs.keep _ fun _ => ⟨rfl, rfl, rfl⟩
  | startUnmap _ _ _ => exact hs.keep _ fun _ => ⟨rfl, rfl, rfl⟩
  | startSeal _ => exact hs.keep _ fun _ => ⟨rfl, rfl, rfl⟩
  | startReset _ _ => exact hs.keep _ fun _ => ⟨rfl, rfl, rfl⟩
  | announce me =>
    simp only [State.announce]
    split
    · exact hs.publish.keep _ fun _ => ⟨rfl, rfl, rfl⟩
    · exact hs.publish.keep _ fun _ => ⟨rfl, rfl, rfl⟩
    · exact hs
  | look me =>
    simp only [State.look]
    split
    · exact hs.keep _ fun _ => ⟨rfl, rfl, rfl⟩
    · exact hs.keep _ fun _ => ⟨rfl, rfl, rfl⟩
    · exact hs
  | _ => exact hs

theorem Path.clocked {p q : Point} (h : Path care p q) (hs : p.1.Clocked) : q.1.Clocked := by
  induction h with
  | refl => exact hs
  | tail _ hm ih => exact hm.clocked ih

/-! ### Spaces -/

/-- A domain that can be mapped into has a space, but for the one that is being built. -/
def State.Housed (s : State) (x : Midway) : Prop :=
  ∀ d, (s.tables.domains d).state = .building ∨ (s.tables.domains d).state = .runnable →
    x.raising = some d ∨ (s.tables.domains d).space.isSome = true

variable {d : DomainId} {domain : Domain} {v : Tables}

theorem State.Housed.write (hs : s.Housed x)
    (hv : v.domains = Function.update s.tables.domains d domain)
    (hx : ∀ e, e ≠ d → x.raising = some e → y.raising = some e)
    (h : domain.state = .building ∨ domain.state = .runnable →
      y.raising = some d ∨ domain.space.isSome = true) : (s.withTables v).Housed y := by
  intro e he
  simp only [State.withTables, hv] at he ⊢
  by_cases hed : e = d
  · subst hed
    simp only [Function.update_self] at he ⊢
    exact h he
  · simp only [Function.update_of_ne hed] at he ⊢
    exact (hs e he).imp_left (hx e hed)

theorem State.Housed.setSpace (hs : s.Housed x)
    (hv : v.domains = Function.update s.tables.domains d domain)
    (h : domain.space.isSome = true) : (s.withTables v).Housed x :=
  hs.write hv (fun _ _ h => h) fun _ => .inr h

theorem withdraw_domains (t : Tables) (m : MapId) (published : Nat) (cpus : Cpu → Bool) :
    (t.withdraw m published cpus).domains =
      (t.removeRun (t.maps m).domain (t.maps m).vaddr (t.maps m).pages).domains := by
  unfold Tables.withdraw Tables.uncountMap
  simp only
  split <;> rfl

theorem withdrawDeferring_tables (s : State) (me : Cpu) (m : MapId)
    (h : (s.tables.maps m).used = true) :
    (s.withdrawDeferring me m).1.tables =
      s.tables.withdraw m
        (if s.tables.mappedPages (s.tables.maps m) ≠ 0 then s.generation + 1 else s.generation)
        (s.holders me (s.tables.maps m).domain) := by
  unfold State.withdrawDeferring
  simp only [h, if_true]
  have hinv : ∀ d vaddr count, (s.invalidate me d vaddr count).tables = s.tables ∧
      (s.invalidate me d vaddr count).generation = s.generation := by
    intro d vaddr count
    unfold State.invalidate
    split <;> exact ⟨rfl, rfl⟩
  split
  · rename_i hne
    show (s.invalidate me _ _ _).tables.withdraw m ((s.invalidate me _ _ _).generation + 1) _ = _
    rw [(hinv _ _ _).1, (hinv _ _ _).2]
  · rename_i hne
    show (s.invalidate me _ _ _).tables.withdraw m (s.invalidate me _ _ _).generation _ = _
    rw [(hinv _ _ _).1, (hinv _ _ _).2]

theorem State.Housed.removeRun (hs : s.Housed x) (d : DomainId) (vaddr count : Nat)
    (hv : v.domains = (s.tables.removeRun d vaddr count).domains) : (s.withTables v).Housed x :=
  hs.write hv (fun _ _ h => h) fun h => (hs d h).imp_right fun hsome => by simpa using hsome

theorem State.Housed.destroySpace (hs : s.Housed x) (stamp : Nat)
    (h : (s.tables.domains d).state = .building ∨ (s.tables.domains d).state = .runnable →
      x.raising = some d) : (s.withTables (s.tables.destroySpace d stamp)).Housed x := by
  unfold Tables.destroySpace
  split
  · exact hs
  · exact hs.write rfl (fun _ _ h => h) fun he => .inl (h he)

theorem withdrawDevice_domains (t : Tables) (m : DeviceMapId) :
    (t.withdrawDevice m).domains = t.domains ∨ (t.withdrawDevice m).domains =
      (t.removeRun (t.deviceMaps m).domain (t.deviceMaps m).vaddr (t.deviceMaps m).pages).domains := by
  unfold Tables.withdrawDevice
  simp only
  split
  · refine .inr ?_
    split <;> rfl
  · refine .inl ?_
    split <;> rfl

/-- **No move leaves a domain that can be mapped into without a space.** -/
theorem Move.housed (h : Move care (s, x) (s', y)) (hs : s.Housed x) : s'.Housed y := by
  cases h with
  | quiet h =>
    intro d hd
    obtain ⟨hstate, -, hspace⟩ := h.domains d
    simp only [State.withTables, hstate, hspace] at hd ⊢
    exact hs d hd
  | table hs' _ _ => exact hs.setSpace rfl rfl
  | root hx _ _ => exact hs.setSpace rfl rfl
  | leaf _ _ _ _ _ => exact hs.setSpace rfl rfl
  | map _ _ => exact hs.setSpace rfl rfl
  | withdraw me hu =>
    intro d hd
    rw [withdrawDeferring_tables s me _ hu] at hd ⊢
    exact hs.removeRun _ _ _ (withdraw_domains s.tables _ _ _) d hd
  | region _ _ _ => exact hs.setSpace rfl rfl
  | dropRegion _ =>
    rcases withdrawDevice_domains s.tables _ with hv | hv
    · intro d hd
      simp only [State.withTables] at hd ⊢
      rw [hv] at hd ⊢
      exact hs d hd
    · exact hs.removeRun _ _ _ hv
  | openDomain owner reserved hx _ =>
    refine hs.write rfl (fun e _ h => ?_) fun _ => .inl rfl
    rw [hx] at h
    cases h
  | raised hx h =>
    intro d hd
    rcases hs d hd with hr | hsome
    · rw [hx] at hr
      obtain rfl := Option.some.inj hr
      exact .inr h
    · exact .inr hsome
  | abandon hx => exact hs.destroySpace _ fun _ => hx
  | emptyDomain h hx hd =>
    refine hs.write rfl (fun e he hr => ?_) fun h => by simp [Domain.empty] at h
    rcases hd with hd | ⟨hd, -⟩
    · rw [hd] at hr
      exact absurd (Option.some.inj hr).symm he
    · rw [hd] at hr
      cases hr
  | activate hx hd =>
    exact hs.write rfl (fun _ _ h => h) fun _ => hs _ (.inl hd)
  | stop hx _ hstate =>
    refine hs.write rfl (fun _ _ h => h) fun h => ?_
    rcases hstate with rfl | rfl <;> simp at h
  | destroy _ hd _ _ =>
    refine hs.destroySpace _ fun h => ?_
    rcases hd with hd | hd <;> simp [hd] at h
  | bury _ _ _ => exact hs.write rfl (fun _ _ h => h) fun h => by simp at h
  | alone a =>
    intro d hd
    rw [alone_tables] at hd ⊢
    exact hs d hd
  | announce me =>
    simp only [State.announce]
    split <;> exact hs
  | look me =>
    simp only [State.look]
    split <;> exact hs
  | revoke _ =>
    simp only [Tables.revokeGrant]
    split <;> exact hs
  | take _ _ _ => exact hs
  | leak => exact hs
  | kernelLeaf _ _ _ => exact hs
  | beginSeal _ _ => exact hs
  | shut _ _ => exact hs
  | stopped _ _ => exact hs
  | _ => exact hs

theorem Path.housed {p q : Point} (h : Path care p q) (hs : p.1.Housed p.2) : q.1.Housed q.2 := by
  induction h with
  | refl => exact hs
  | tail _ hm ih => exact hm.housed ih

theorem State.Housed.tables (hs : s.Housed .idle) : s.tables.Housed := by
  intro d hd
  rcases hs d hd with hr | hsome
  · cases hr
  · exact Option.isSome_iff_exists.mp hsome

/-! ### Withdrawal and collection -/

theorem path_collectMemory (i : MemoryId) : Path care (s, x) (s.collectMemory i false, x) := by
  unfold State.collectMemory
  split
  · rename_i hc
    split
    · rename_i hi
      exact Relation.ReflTransGen.head (.collect hc hi) (Goes.credited i true 0)
    · exact Relation.ReflTransGen.head (.collectLater hc)
        (Goes.credited (s := s.publish) i false (s.generation + 1))
  · exact .refl

theorem path_withdrawMap (me : Cpu) {m : MapId} (h : (s.tables.maps m).used = true) :
    Path care (s, x) (s.withdrawMap me m, x) := by
  unfold State.withdrawMap
  have hmove : Move care (s, x) ((s.withdrawDeferring me m).1, x) := .withdraw me h
  split
  · rename_i u i heq
    rw [heq] at hmove
    exact Relation.ReflTransGen.head hmove (path_collectMemory i)
  · rename_i u heq
    rw [heq] at hmove
    exact .single hmove

theorem path_foldl {ι : Type} {f : State → ι → State} (l : List ι)
    (h : ∀ s i, Path care (s, x) (f s i, x)) : Path care (s, x) (l.foldl f s, x) := by
  induction l generalizing s with
  | nil => exact .refl
  | cons i rest ih => exact (h s i).trans ih

theorem path_drainPending : Path care (s, x) (s.drainPending, x) := by
  unfold State.drainPending
  have hquiet : Goes care s x s.tables { s.tables with pending := fun _ => false } :=
    .quiet { Tables.Quiet.refl s.tables with maps := rfl }
  refine Relation.ReflTransGen.trans hquiet (path_foldl _ fun u i => ?_)
  split
  · exact path_collectMemory i
  · exact .refl

/-! ### What a withdrawal does to the records -/

theorem collectMemory_maps (s : State) (i : MemoryId) (acknowledged : Bool) :
    (s.collectMemory i acknowledged).tables.maps = s.tables.maps ∧
      ∀ j, ((s.collectMemory i acknowledged).tables.objects j).generation =
        (s.tables.objects j).generation := by
  have hcollect : ∀ (t : Tables) (b : Bool) (n : Nat), (t.collect i b n).maps = t.maps ∧
      ∀ j, ((t.collect i b n).objects j).generation = (t.objects j).generation := by
    intro t b n
    refine ⟨rfl, fun j => ?_⟩
    by_cases hj : j = i
    · subst hj
      simp [Tables.collect, Tables.emptyObject, Tables.setObject, Tables.release, Object.empty]
    · simp [Tables.collect, Tables.emptyObject, Tables.setObject, Tables.release, hj]
  unfold State.collectMemory
  split
  · split
    · exact hcollect _ _ _
    · exact hcollect _ _ _
  · exact ⟨rfl, fun _ => rfl⟩

theorem withdraw_maps (t : Tables) (m : MapId) (published : Nat) (cpus : Cpu → Bool) :
    (t.withdraw m published cpus).maps = Function.update t.maps m .empty ∧
      ∀ j, ((t.withdraw m published cpus).objects j).generation = (t.objects j).generation := by
  unfold Tables.withdraw Tables.uncountMap
  simp only
  split
  · refine ⟨rfl, fun j => ?_⟩
    by_cases hj : j = (t.maps m).memory
    · rw [hj]
      simp [Tables.setMap, Tables.release, Tables.removeRun, Tables.setDomain, Tables.setObject]
    · simp [Tables.setMap, Tables.release, Tables.removeRun, Tables.setDomain, Tables.setObject, hj]
  · exact ⟨rfl, fun _ => rfl⟩

theorem withdrawMap_maps (s : State) (me : Cpu) {m : MapId} (h : (s.tables.maps m).used = true) :
    (s.withdrawMap me m).tables.maps = Function.update s.tables.maps m .empty ∧
      ∀ j, ((s.withdrawMap me m).tables.objects j).generation =
        (s.tables.objects j).generation := by
  have hmaps := withdraw_maps s.tables m
    (if s.tables.mappedPages (s.tables.maps m) ≠ 0 then s.generation + 1 else s.generation)
    (s.holders me (s.tables.maps m).domain)
  rw [← withdrawDeferring_tables s me m h] at hmaps
  unfold State.withdrawMap
  split
  · rename_i u i heq
    rw [heq] at hmaps
    obtain ⟨hcm, hcg⟩ := collectMemory_maps u i false
    exact ⟨hcm.trans hmaps.1, fun j => (hcg j).trans (hmaps.2 j)⟩
  · rename_i u heq
    rw [heq] at hmaps
    exact hmaps

theorem withdrawDeferring_cpus (s : State) (me : Cpu) (m : MapId) :
    (s.withdrawDeferring me m).1.live = s.live ∧ ∀ c, ∃ cache,
      (s.withdrawDeferring me m).1.cpus c = { s.cpus c with cache } := by
  unfold State.withdrawDeferring
  simp only
  have hinv : ∀ d vaddr count, (s.invalidate me d vaddr count).live = s.live ∧ ∀ c, ∃ cache,
      (s.invalidate me d vaddr count).cpus c = { s.cpus c with cache } := by
    intro d vaddr count
    unfold State.invalidate
    split
    · refine ⟨rfl, fun c => ?_⟩
      by_cases hc : c = me
      · subst hc
        exact ⟨_, Function.update_self _ _ _⟩
      · exact ⟨(s.cpus c).cache, by simp [State.setCpu, hc]⟩
    · exact ⟨rfl, fun c => ⟨_, rfl⟩⟩
  split
  · split
    · exact hinv _ _ _
    · exact hinv _ _ _
  · exact ⟨rfl, fun c => ⟨_, rfl⟩⟩

theorem collectMemory_cpus (s : State) (i : MemoryId) (acknowledged : Bool) :
    (s.collectMemory i acknowledged).cpus = s.cpus ∧
      (s.collectMemory i acknowledged).live = s.live := by
  unfold State.collectMemory
  split
  · split <;> exact ⟨rfl, rfl⟩
  · exact ⟨rfl, rfl⟩

theorem withdrawMap_free (s : State) (me : Cpu) (m : MapId) (c : Cpu) :
    (s.withdrawMap me m).free c = s.free c := by
  have hone : (s.withdrawDeferring me m).1.free c = s.free c := by
    obtain ⟨cache, hc⟩ := (withdrawDeferring_cpus s me m).2 c
    simp only [State.free, hc]
  unfold State.withdrawMap
  split
  · rename_i u i heq
    rw [heq] at hone
    rw [← hone]
    simp only [State.free, (collectMemory_cpus u i false).1]
  · rename_i u heq
    rw [heq] at hone
    exact hone

/-- **A loop that withdraws every record of a kind leaves none of it.** -/
theorem withdrawAll (care : Care) (x : Midway) (me : Cpu) (kind : MapRecord → Prop) [DecidablePred kind]
    (hkind : ∀ record, kind record → record.used = true) (l : List MapId) (s : State) :
    let u := l.foldl (fun s m => if kind (s.tables.maps m) then s.withdrawMap me m else s) s
    Path care (s, x) (u, x) ∧ (∀ m, kind (u.tables.maps m) → kind (s.tables.maps m)) ∧
      (∀ m ∈ l, ¬ kind (u.tables.maps m)) ∧ (∀ c, u.free c = s.free c) ∧
      ∀ j, (u.tables.objects j).generation = (s.tables.objects j).generation := by
  induction l generalizing s with
  | nil => exact ⟨.refl, fun _ h => h, by simp, fun _ => rfl, fun _ => rfl⟩
  | cons m rest ih =>
    rw [List.foldl_cons]
    split
    · rename_i hm
      obtain ⟨hpath, hback, hnone, hfree, hgen⟩ := ih (s.withdrawMap me m)
      obtain ⟨hmaps, hobjects⟩ := withdrawMap_maps s me (hkind _ hm)
      have hempty : ¬ kind MapRecord.empty := fun h => by simpa [MapRecord.empty] using hkind _ h
      have hgone : ¬ kind ((s.withdrawMap me m).tables.maps m) := by
        rw [hmaps, Function.update_self]
        exact hempty
      have hkept : ∀ k, kind ((s.withdrawMap me m).tables.maps k) → kind (s.tables.maps k) := by
        intro k hk
        by_cases hkm : k = m
        · exact absurd (hkm ▸ hk) hgone
        · rwa [hmaps, Function.update_of_ne hkm] at hk
      refine ⟨(path_withdrawMap me (hkind _ hm)).trans hpath, fun k hk => hkept k (hback k hk),
        fun k hk => ?_, fun c => (hfree c).trans (withdrawMap_free s me m c),
        fun j => (hgen j).trans (hobjects j)⟩
      rcases List.mem_cons.mp hk with rfl | hk
      · exact fun h => hgone (hback _ h)
      · exact hnone k hk
    · rename_i hm
      obtain ⟨hpath, hback, hnone, hfree, hgen⟩ := ih s
      refine ⟨hpath, hback, fun k hk => ?_, hfree, hgen⟩
      rcases List.mem_cons.mp hk with rfl | hk
      · exact fun h => hm (hback _ h)
      · exact hnone k hk

end Thalyx.Kernel.Memory
