/-
Every step is a path of moves.
-/
import ThalyxKernel.Kernel.Memory.Operation

namespace Thalyx.Kernel.Memory

open AddressSpace (pageSize)
open Allocator (Same inRun Drains)

variable {care : Care} {s s' : State} {x : Midway} {t u : Tables}

theorem Goes.imageObject (hx : x.held = none) (hb : s.booting = true)
    (hc : care.generations → t.Renewable) (sponsor : ScopeId) (pages : Nat)
    (bytes : Nat → Nat → UInt8) :
    Goes care s x t (t.imageObject s.safeGeneration sponsor pages bytes) := by
  unfold Tables.imageObject
  split
  · exact .refl _
  rename_i i hi
  have hempty : (t.objects i).state = .empty := by simpa using List.find?_some hi
  split
  · rename_i u hu
    exact takePages_none hx hu
  rename_i u base hu
  simp only
  generalize hr : Right.memoryRead ||| Right.memoryExecute ||| Right.memoryMap = rights
  have hopen : Goes care s x t (u.openObject i .writable base pages rights sponsor 1) :=
    .openObject rights 1 hempty (fun h => hc h i hempty) hu
  refine hopen.trans ?_
  generalize hv : u.openObject i .writable base pages rights sponsor 1 = v
  have hobject : (v.objects i).state = .writable ∧ (v.objects i).mapCount = 0 ∧
      (v.objects i).dmaGrants = 0 ∧ (v.objects i).base = base ∧ (v.objects i).pages = pages := by
    rw [← hv]
    simp [Tables.openObject, Tables.setObject, Tables.spendId, Object.empty]
  obtain ⟨hstate, hmaps, hgrants, rfl, rfl⟩ := hobject
  have hfill : Move care (s.withTables v, x) _ := .fill bytes hstate
  exact .trans (.move hfill) (.move (.bootSeal hb hstate hmaps hgrants))

theorem Goes.kernelAlloc (hx : x.held = none) :
    Goes care s x t { t with allocator := (t.allocator.alloc s.safeGeneration .kernel).1 } := by
  cases ha : t.allocator.alloc s.safeGeneration .kernel with
  | mk a found =>
    cases found with
    | none => exact .drains (Allocator.alloc_none ha)
    | some f =>
      have hhold : Path care (s.withTables t, x) _ := path_hold hx ha (a.content f)
      have hkeep : { a with content := Function.update a.content f (a.content f) } = a := by
        rw [Function.update_eq_self]
      have hback : { { x with held := some f } with held := none } = x := by
        rw [← hx]
      have hleak := hhold.tail .leak
      rw [hkeep, hback] at hleak
      exact hleak

/-- What a step has to meet for what a run takes care of. -/
def Step.Fit (care : Care) (s : State) : Step → Prop
  | .create _ _ _ _ | .module _ _ _ => care.generations → s.tables.Renewable
  | .map _ _ _ _ request between => care.translations → State.Unwalked request between
  | .finish me timedOut => care.translations → s.Flushed me timedOut
  | .mapRegion _ _ _ _ _ => ¬ care.noWindows
  | .reap _ d between =>
    s.tables.Windowless d ∧ (care.translations → ∀ slot, State.Unkept slot (between slot))
  | .retire root =>
    (care.devices → s.tables.Ungranted root) ∧ (care.translations → s.Settled root)
  | _ => True

/-- **A step that is fit is a path of moves.** -/
theorem step_path {a : Step} (hfit : a.Fit care s) (hc : care.translations → s.Clocked)
    (hh : s.tables.Housed) (h : s.step a = some s') : Path care (s, .idle) (s', .idle) := by
  cases a with
  | create sponsor pages maxRights installed =>
    obtain rfl := Option.some.inj h
    exact Goes.create (t := s.tables) rfl hfit sponsor pages maxRights installed
  | module sponsor pages bytes =>
    obtain ⟨hb, ⟨⟩⟩ := Option.ite_none_right_eq_some.mp h
    exact Goes.imageObject (t := s.tables) rfl hb hfit sponsor pages bytes
  | name i =>
    obtain ⟨-, ⟨⟩⟩ := Option.ite_none_right_eq_some.mp h
    exact Goes.refs (t := s.tables) i _
  | close i =>
    obtain ⟨-, ⟨⟩⟩ := Option.ite_none_right_eq_some.mp h
    exact Goes.trans (t := s.tables) (.refs i _)
      (.quiet { Tables.Quiet.refl _ with maps := rfl })
  | drainPending =>
    obtain rfl := Option.some.inj h
    exact path_drainPending
  | map me target i capRights request between =>
    obtain ⟨hok, ⟨⟩⟩ := Option.ite_none_right_eq_some.mp h
    have hi : (s.tables.objects i).state ≠ .empty := by
      have := hok.2
      simp only [State.named, Bool.and_eq_true, bne_iff_ne] at this
      exact this.1
    exact path_map hh hi me target capRights request between hfit
  | unmap me target vaddr pages =>
    obtain ⟨hf, ⟨⟩⟩ := Option.ite_none_right_eq_some.mp h
    exact path_unmap hf target vaddr pages
  | beginSeal me i =>
    obtain ⟨hok, ⟨⟩⟩ := Option.ite_none_right_eq_some.mp h
    exact path_beginSeal hok.1 i
  | announce me =>
    obtain rfl := Option.some.inj h
    exact .single (.announce me)
  | look me =>
    obtain rfl := Option.some.inj h
    exact .single (.look me)
  | finish me timedOut => exact path_finish hfit h
  | write i offset bytes =>
    obtain ⟨-, ⟨⟩⟩ := Option.ite_none_right_eq_some.mp h
    exact Goes.write (t := s.tables) i offset bytes
  | copy i source sourceOffset destOffset length =>
    obtain ⟨-, ⟨⟩⟩ := Option.ite_none_right_eq_some.mp h
    exact Goes.copy (t := s.tables) i source sourceOffset destOffset length
  | mapRegion i session slot target vaddr =>
    obtain rfl := Option.some.inj h
    exact Goes.mapRegion (t := s.tables) rfl hfit hh i session slot target vaddr
  | unmapRegion i session vaddr =>
    simp only [State.step] at h
    have hgoes : ∀ u : State, Goes care u .idle s.tables (s.tables.unmapRegion i session vaddr).1 :=
      fun u => Goes.unmapRegion (t := s.tables) i session vaddr
    split at h
    · rename_i t n ht
      obtain rfl := Option.some.inj h
      rw [ht] at hgoes
      exact Relation.ReflTransGen.head .publish (hgoes s.publish)
    · rename_i t n ht
      obtain rfl := Option.some.inj h
      rw [ht] at hgoes
      exact hgoes s
  | dmaMap caller i memory capRights request sustained =>
    obtain ⟨hn, ⟨⟩⟩ := Option.ite_none_right_eq_some.mp h
    simp only [State.named, Bool.and_eq_true, bne_iff_ne] at hn
    exact Goes.dmaMap (t := s.tables) rfl caller i hn.1 capRights request sustained
  | dmaUnmap i session iova =>
    obtain rfl := Option.some.inj h
    exact Goes.dmaUnmap (t := s.tables) i session iova
  | setMaster i enable =>
    obtain rfl := Option.some.inj h
    exact Goes.device (t := s.tables) i rfl
  | beginReset me i =>
    obtain ⟨hf, ⟨⟩⟩ := Option.ite_none_right_eq_some.mp h
    exact .single (.startReset i hf)
  | finishReset me confirmed =>
    simp only [State.step] at h
    split at h
    · rename_i i hp
      obtain rfl := Option.some.inj h
      have hsettle : Path care (s, .idle) (s.setCpu me fun p => { p with pending := .none }, .idle) :=
        .single (.settle me)
      cases confirmed with
      | false => exact hsettle
      | true =>
        refine (hsettle.tail .publish).trans ?_
        rw [if_pos rfl]
        have hreset : Goes care
            (s.setCpu me fun p => { p with pending := .none }).publish .idle s.tables
            (s.tables.finishReset i) := .finishReset i
        exact hreset
    · cases h
  | deviceWrite g page offset byte =>
    obtain ⟨hok, ⟨⟩⟩ := Option.ite_none_right_eq_some.mp h
    exact .single (.deviceWrite offset byte hok.1 hok.2.1 hok.2.2.2)
  | createDomain owner image bytes thread unnamed =>
    obtain rfl := Option.some.inj h
    exact path_createDomain hc owner image bytes thread unnamed
  | addThread d =>
    obtain rfl := Option.some.inj h
    exact path_addThread hc d
  | activate d =>
    obtain ⟨hd, ⟨⟩⟩ := Option.ite_none_right_eq_some.mp h
    exact .single (.activate rfl hd)
  | terminate me d faulted =>
    simp only [State.step] at h
    split at h
    · rename_i hok
      obtain rfl := Option.some.inj h
      exact path_terminate hok.2 me faulted
    · cases h
  | reap me d between =>
    obtain ⟨hok, ⟨⟩⟩ := Option.ite_none_right_eq_some.mp h
    exact path_reap hok.2 between hfit.1 hc hfit.2
  | createChild parent limits unnamed =>
    obtain rfl := Option.some.inj h
    exact Goes.createChild (t := s.tables) parent limits unnamed
  | fence root =>
    obtain rfl := Option.some.inj h
    exact .single (.fence root)
  | advance =>
    obtain rfl := Option.some.inj h
    exact Goes.advance (t := s.tables)
  | retire root =>
    obtain ⟨hq, ⟨⟩⟩ := Option.ite_none_right_eq_some.mp h
    exact Goes.retire (t := s.tables) hq hfit.1 hfit.2
  | accounts used limits threads invocations effects =>
    obtain rfl := Option.some.inj h
    exact Goes.scopes (t := s.tables) fun _ => ⟨rfl, rfl, rfl⟩
  | spendId =>
    obtain rfl := Option.some.inj h
    exact Goes.spendId s.tables
  | drainQuarantine =>
    obtain rfl := Option.some.inj h
    exact .single .drain
  | kernelAlloc =>
    obtain rfl := Option.some.inj h
    exact Goes.kernelAlloc (t := s.tables) rfl
  | reclaim region =>
    obtain ⟨hok, ⟨⟩⟩ := Option.ite_none_right_eq_some.mp h
    refine .single (.reclaim hok.1 hok.2.1 fun f hf => ?_)
    simp only [Region.has, Bool.and_eq_true, decide_eq_true_eq] at hf
    have hnew := List.all_eq_true.mp hok.2.2 (f - region.base)
      (List.mem_range.mpr (by omega))
    rw [Nat.add_sub_cancel' hf.1] at hnew
    simpa using hnew
  | publish =>
    obtain rfl := Option.some.inj h
    exact .single .publish
  | alone a =>
    obtain rfl := Option.some.inj h
    exact .single (.alone a)
  | store c page offset byte =>
    simp only [State.step] at h
    split at h
    · rename_i page' f rights hfind
      obtain ⟨hok, ⟨⟩⟩ := Option.ite_none_right_eq_some.mp h
      have hwrite := List.find?_some hfind
      simp only [Bool.and_eq_true] at hwrite
      exact .single (.store offset byte hok.1 (List.mem_of_find?_eq_some hfind) hwrite.2)
    · cases h
  | online c =>
    obtain ⟨hoff, ⟨⟩⟩ := Option.ite_none_left_eq_some.mp h
    exact .single (.online (by simpa using hoff))
  | offline c =>
    obtain ⟨hok, ⟨⟩⟩ := Option.ite_none_right_eq_some.mp h
    refine .single (.offline hok.2 ?_)
    have := hok.1
    simp only [State.free, Bool.and_eq_true, Option.isNone_iff_eq_none] at this
    exact this.1.2

/-! ### Invariants of runs -/

/-- **What holds at boot and is kept by every move holds between the steps of every run whose
steps are fit.** -/
theorem reachable_invariant {hw : Hardware} {care : Care} {ok : State → Step → Prop}
    {Inv : State → Midway → Prop} (hinit : ∀ s, hw.boot = some s → Inv s .idle)
    (hmove : ∀ {s s' x y}, Move care (s, x) (s', y) → Inv s x → Inv s' y)
    (hfit : ∀ s a, Inv s .idle → ok s a → a.Fit care s)
    (h : ((memory hw).within ok).Reachable s) : Inv s .idle := by
  have hpath : ∀ {p q : Point}, Path care p q → Inv p.1 p.2 → Inv q.1 q.2 := by
    intro p q hp hi
    induction hp with
    | refl => exact hi
    | tail _ hm ih => exact hmove hm ih
  have hall : s.Clocked ∧ s.Housed .idle ∧ Inv s .idle := by
    refine h.invariant (I := fun s => s.Clocked ∧ s.Housed .idle ∧ Inv s .idle) ?_ ?_
    · intro s hs
      obtain ⟨allocator, -, rfl⟩ := Option.map_eq_some_iff.mp hs
      refine ⟨fun c _ => ⟨le_refl _, le_refl _⟩, fun d hd => ?_, hinit _ hs⟩
      simp [Hardware.tables, Domain.empty] at hd
    · rintro s a s' ⟨hc, hh, hi⟩ ⟨hok, hstep⟩
      have hp := step_path (hfit s a hi hok) (fun _ => hc) hh.tables hstep
      exact ⟨hp.clocked hc, hp.housed hh, hpath hp hi⟩
  exact hall.2.2

end Thalyx.Kernel.Memory
