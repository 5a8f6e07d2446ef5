/-
Invariants over whole runs of the store.

A property of runs is proved by an account: what the run lets be prepared and committed,
what the log's tables say at every moment, and how the memory agrees with the log.  An
account names the calls it allows; that every allowed call keeps it, and that it holds when
a recovery ends, are its obligations.  That it then holds in every state of every run of
allowed steps, whatever writes and flushes fail and wherever the power is lost, is proved
here once.
-/
import ThalyxKernel.Store.Serving

namespace Thalyx.K4

open Fallible Option

variable {D C : Type} {fmt : Format D C} [DecidableEq D]

/-- An account of the store from some moment on: rules for the log, a property of its tables,
and how the memory agrees with the settled part of the log and with all of it. -/
structure Keeping (fmt : Format D C) where
  rules : Rules D
  P : Ledger D → Prop
  /-- The memory's tables, the settled part of the log, the log. -/
  M : Ledger D → List (Record D C) → List (Record D C) → Prop
  /-- The calls the account allows a store. -/
  allows : Store D C → Call D C → Prop
  stable : Stable fmt rules P
  resumed : ∀ h, Chain fmt rules h → P (ledger fmt h) → (ledger fmt h).pending = none →
    M (ledger fmt h) h h
  cleared : ∀ s hf h call, call.principal ≠ 0 → s.Sized → Holding fmt rules P s hf h →
    M s.ledger hf h → allows s call → Cleared fmt rules P s h call
  does : ∀ s hf h call reply t hf' h', call.principal ≠ 0 → s.Sized →
    Holding fmt rules P s hf h → M s.ledger hf h → allows s call →
    Does fmt s hf h call reply t hf' h' → M t.ledger hf' h'

/-- An account of whole runs: it holds of a store that is empty, too. -/
structure Account (fmt : Format D C) extends Keeping fmt where
  empty : P (Ledger.empty fmt)

namespace Keeping

variable (a : Keeping fmt)

/-- The account holds of a store that is up and ready. -/
def Upheld (s : Store D C) : Prop :=
  s.Sized ∧ ∃ hf h, Holding fmt a.rules a.P s hf h ∧ a.M s.ledger hf h

/-- The account holds of the store, whether it is up or not. -/
def Holds : Phase D C → Prop
  | .up service =>
    service.store.disk.down = false ∧
      (service.store.ready = true → a.Upheld service.store) ∧
      Medium fmt a.rules a.P service.store.disk.device
  | .down device => Medium fmt a.rules a.P device ∧ Quiescent device

/-- An event the account allows: the calls that are dispatched are allowed, a recovery reads
what it asks for, and, where the log is kept tidy, no write or flush is refused. -/
structure Admits (phase : Phase D C) (event : Event D C) : Prop where
  call : ∀ call service, event.call = some call → phase = .up service →
    service.dispatches call = true → a.allows (service.posed fmt call).store call
  calm : ∀ call, event.call = some call → a.rules.tidy →
    ∀ outcome ∈ call.outcomes, outcome = .ok ∨ outcome = .stop
  reads : ∀ b, event.recovery = some b → b.fails = fun _ _ => false
  sure : ∀ b, event.recovery = some b → a.rules.tidy →
    ∀ outcome ∈ b.outcomes, outcome = .ok ∨ outcome = .stop

end Keeping

variable {rules : Rules D} {P : Ledger D → Prop} {s t : Store D C}
  {hf h hf' h' : List (Record D C)} {call : Call D C} {reply : Reply D C}

variable {service : Service D C}

theorem Holding.meet (hh : Holding fmt rules P service.store hf h)
    (hsure : rules.tidy → ∀ outcome ∈ call.outcomes, outcome = .ok ∨ outcome = .stop) :
    Holding fmt rules P (service.meet call).store hf h := by
  have hsame : SameLog service.store (service.meet call).store :=
    ⟨rfl, rfl, rfl, rfl, rfl, rfl, rfl, rfl, rfl, rfl, rfl⟩
  rcases hh with hl | ha
  · exact Or.inl ⟨hl.standing.of_same hsame, hl.indexes, ⟨hsure, hl.neat.loose⟩,
      fun he => (hl.atEnd he).of_same hsame⟩
  · exact Or.inr ⟨ha.medium, ha.astray, ha.still⟩

omit [DecidableEq D] in
theorem Indexes.unpin {start : Nat} (hi : Indexes fmt start s.objects h) :
    Indexes fmt start s.unpin.objects h := by
  have hmem : ∀ entry ∈ s.unpin.objects, ∃ old ∈ s.objects, entry = { old with pinned := false } := by
    intro entry he
    obtain ⟨old, hold, rfl⟩ := List.mem_map.mp he
    exact ⟨old, hold, rfl⟩
  have hmap : s.unpin.objects.map ObjectEntry.digest = s.objects.map ObjectEntry.digest := by
    unfold Store.unpin
    rw [List.map_map]
    rfl
  refine ⟨fun entry he => ?_, hmap ▸ hi.nodup, ?_, fun entry he => ?_, fun digest => ?_,
    fun entry he hdurable => ?_⟩
  · obtain ⟨old, hold, rfl⟩ := hmem entry he
    exact hi.wellFormed old hold
  · unfold Store.unpin
    rw [List.length_map]
    exact hi.room
  · obtain ⟨old, hold, rfl⟩ := hmem entry he
    exact hi.small old hold
  · rw [← hi.durable digest]
    constructor
    · rintro ⟨entry, he, hd, hdurable⟩
      obtain ⟨old, hold, rfl⟩ := hmem entry he
      exact ⟨old, hold, hd, hdurable⟩
    · rintro ⟨old, hold, hd, hdurable⟩
      exact ⟨_, List.mem_map.mpr ⟨old, hold, rfl⟩, hd, hdurable⟩
  · obtain ⟨old, hold, rfl⟩ := hmem entry he
    exact hi.housed old hold hdurable

theorem Service.protect_quiet (service : Service D C) :
    Quiet fmt service.store (service.protect fmt).store ∧
      Kept service.store (service.protect fmt).store :=
  ⟨⟨⟨rfl, rfl, rfl, rfl, rfl, rfl, rfl, rfl, rfl, rfl, rfl⟩, rfl, fun _ _ hi => hi.unpin, id, rfl⟩,
    ⟨rfl, rfl, rfl⟩⟩

/-! ### One step -/

theorem Service.serve_dispatches (h : service.dispatches call = true) :
    service.serve fmt call = (service.posed fmt call).dispatch fmt call := by
  unfold Service.dispatches at h
  simp only [Bool.and_eq_true, Bool.not_eq_true'] at h
  obtain ⟨⟨hpermitted, hintegrity⟩, hready⟩ := h
  unfold Service.serve
  have hintegrity' : (service.meet call).store.integrityFailed = false := hintegrity
  have hready' : (service.meet call).store.ready = true := hready
  simp only [hpermitted, hintegrity', hready', Bool.not_true, Bool.false_eq_true, if_false]
  rfl

theorem Service.serve_refuses (h : service.dispatches call = false) :
    (service.serve fmt call).2 = service.meet call ∧
      (service.serve fmt call).1.outcome = .neverSeen := by
  unfold Service.serve
  dsimp only
  split
  · exact ⟨rfl, rfl⟩
  · rename_i hpermitted
    split
    · exact ⟨rfl, rfl⟩
    · rename_i hintegrity
      split
      · exact ⟨rfl, rfl⟩
      · rename_i hready
        have hintegrity' : service.store.integrityFailed = false := by
          simpa [Service.meet] using hintegrity
        have hready' : service.store.ready = true := by simpa [Service.meet] using hready
        have hpermitted' : permitted call.principal call.request = true := by
          simpa using hpermitted
        unfold Service.dispatches at h
        rw [hpermitted', hintegrity', hready'] at h
        cases h

namespace Keeping

variable {a : Keeping fmt} {service : Service D C}

theorem Upheld.posed (hu : a.Upheld service.store)
    (hcalm : a.rules.tidy → ∀ outcome ∈ call.outcomes, outcome = .ok ∨ outcome = .stop) :
    a.Upheld (service.posed fmt call).store := by
  obtain ⟨hsized, hf, h, hholding, hM⟩ := hu
  obtain ⟨hquiet, hkept⟩ := @Service.protect_quiet _ _ fmt _ (service.meet call)
  refine ⟨(hsized.of_tables (t := (service.meet call).store) rfl rfl).of_tables hkept.ledger
    hkept.retained, hf, h, (hholding.meet hcalm).quiet hquiet, ?_⟩
  have hsame : (service.posed fmt call).store.ledger = service.store.ledger := hkept.ledger
  rw [hsame]
  exact hM

/-- **What a call that is dispatched does under an account.** -/
theorem serve_does (hu : a.Upheld service.store) (hd : service.dispatches call = true)
    (hallows : a.allows (service.posed fmt call).store call)
    (hcalm : a.rules.tidy → ∀ outcome ∈ call.outcomes, outcome = .ok ∨ outcome = .stop) :
    ∃ hf h hf' h', Holding fmt a.rules a.P (service.posed fmt call).store hf h ∧
      a.M (service.posed fmt call).store.ledger hf h ∧
      Does fmt (service.posed fmt call).store hf h call (service.serve fmt call).1
        (service.serve fmt call).2.store hf' h' ∧
      Holding fmt a.rules a.P (service.serve fmt call).2.store hf' h' ∧
      a.M (service.serve fmt call).2.store.ledger hf' h' ∧
      (service.serve fmt call).2.store.Sized := by
  obtain ⟨hsized', hf, h, hposed, hM'⟩ := hu.posed hcalm
  have hpermitted : permitted call.principal call.request = true := by
    unfold Service.dispatches at hd
    simp only [Bool.and_eq_true] at hd
    exact hd.1.1
  obtain ⟨hf', h', hdoes, hholding', hsized''⟩ :=
    Service.dispatch_leaves a.stable hposed hsized' hpermitted
      (a.cleared _ hf h call (permitted_ne_zero hpermitted) hsized' hposed hM' hallows)
  rw [Service.serve_dispatches hd]
  exact ⟨hf, h, hf', h', hposed, hM', hdoes, hholding',
    a.does _ _ _ _ _ _ _ _ (permitted_ne_zero hpermitted) hsized' hposed hM' hallows hdoes,
    hsized''⟩

theorem serve_holds (hready : service.store.ready = true → a.Upheld service.store)
    (hm : Medium fmt a.rules a.P service.store.disk.device)
    (hallows : service.dispatches call = true → a.allows (service.posed fmt call).store call)
    (hcalm : a.rules.tidy → ∀ outcome ∈ call.outcomes, outcome = .ok ∨ outcome = .stop) :
    ((service.serve fmt call).2.store.ready = true → a.Upheld (service.serve fmt call).2.store) ∧
      Medium fmt a.rules a.P (service.serve fmt call).2.store.disk.device := by
  by_cases hd : service.dispatches call = true
  · have hup : service.store.ready = true := by
      unfold Service.dispatches at hd
      simp only [Bool.and_eq_true] at hd
      exact hd.2
    obtain ⟨-, -, hf', h', -, -, -, hholding, hM, hsized⟩ :=
      serve_does (hready hup) hd (hallows hd) hcalm
    exact ⟨fun _ => ⟨hsized, hf', h', hholding, hM⟩, hholding.medium⟩
  · obtain ⟨hsame, -⟩ := @Service.serve_refuses _ _ fmt _ _ _ (Bool.not_eq_true _ ▸ hd)
    rw [hsame]
    refine ⟨fun hup => ?_, hm⟩
    obtain ⟨hsized, hf, h, hholding, hM⟩ := hready hup
    exact ⟨hsized.of_tables rfl rfl, hf, h, hholding.meet hcalm, hM⟩

variable {device : Device (Block D C)}

theorem boot_ends {b : Boot} (hm : Medium fmt a.rules a.P device) (hq : Quiescent device)
    (hreads : b.fails = fun _ _ => false)
    (hsure : a.rules.tidy → ∀ outcome ∈ b.outcomes, outcome = .ok ∨ outcome = .stop) :
    Ends (recover fmt b.seed)
      (fun _ t => ∃ h, Resumed fmt a.rules a.P t h ∧ t.ready = true)
      (fun t => Medium fmt a.rules a.P t.disk.device ∧ t.ready = false)
      (.new fmt (.new device b.fails b.outcomes) b.clock b.room) :=
  recover_ends a.stable b.seed hm hq ⟨hreads, rfl⟩ hsure

theorem Upheld.of_resumed {s : Store D C} {h : List (Record D C)}
    (hr : Resumed fmt a.rules a.P s h) : a.Upheld s := by
  have hchain := hr.live.ready.standing.chain
  have hidle : (ledger fmt h).pending = none := by
    rw [← hr.ledger]
    exact hr.idle
  refine ⟨.of_ledger hchain.ledger_sized hr.ledger hr.retained, h, h, Or.inl hr.live.lodged, ?_⟩
  rw [hr.ledger]
  exact a.resumed h hchain hr.live.ready.standing.holds hidle

theorem boot_holds {b : Boot} (hm : Medium fmt a.rules a.P device) (hq : Quiescent device)
    (hreads : b.fails = fun _ _ => false)
    (hsure : a.rules.tidy → ∀ outcome ∈ b.outcomes, outcome = .ok ∨ outcome = .stop) :
    ((final (b.run fmt device)).ready = true → a.Upheld (final (b.run fmt device))) ∧
      Medium fmt a.rules a.P (final (b.run fmt device)).disk.device := by
  have hends := boot_ends hm hq hreads hsure
  unfold Boot.run
  cases hrun : recover fmt b.seed (.new fmt (.new device b.fails b.outcomes) b.clock b.room) with
  | ok _ t =>
    obtain ⟨h, hresumed, -⟩ := hends.of_ok hrun
    exact ⟨fun _ => .of_resumed hresumed, hresumed.live.ready.standing.medium⟩
  | error e t =>
    obtain ⟨hmedium, hready⟩ := hends.of_error hrun
    refine ⟨fun h => ?_, hmedium⟩
    rw [final_error, hready] at h
    cases h

/-- **A step an account allows keeps it.** -/
theorem step_holds {host host' : Host D C} {event : Event D C} (hh : a.Holds host.phase)
    (hok : a.Admits host.phase event) (hstep : host.step fmt event = some host') :
    a.Holds host'.phase := by
  cases event with
  | serve call =>
    unfold Host.step at hstep
    dsimp only at hstep
    split at hstep
    · rename_i service hup
      obtain ⟨hdown, ⟨⟩⟩ := ite_none_left_eq_some.mp hstep
      rw [hup] at hh
      obtain ⟨hready, hmedium⟩ := serve_holds hh.2.1 hh.2.2
        (fun hd => hok.call call service rfl hup hd) (hok.calm call rfl)
      exact ⟨by simpa using hdown, hready, hmedium⟩
    · cases hstep
  | cut call pick =>
    unfold Host.step at hstep
    dsimp only at hstep
    split at hstep
    · rename_i service hup
      obtain rfl := some.inj hstep
      rw [hup] at hh
      obtain ⟨-, hmedium⟩ := serve_holds hh.2.1 hh.2.2
        (fun hd => hok.call call service rfl hup hd) (hok.calm call rfl)
      exact ⟨hmedium.crash pick, quiescent_crash pick⟩
    · cases hstep
  | boot b =>
    unfold Host.step at hstep
    dsimp only at hstep
    split at hstep
    · cases hstep
    · rename_i device hdevice
      obtain ⟨hdown, ⟨⟩⟩ := ite_none_left_eq_some.mp hstep
      rw [hdevice] at hh
      obtain ⟨hready, hmedium⟩ := boot_holds hh.1 hh.2 (hok.reads b rfl) (hok.sure b rfl)
      have hup : (final (b.run fmt device)).disk.down = false := by simpa using hdown
      exact ⟨hup, hready, hmedium⟩
  | bootCut b pick =>
    unfold Host.step at hstep
    dsimp only at hstep
    split at hstep
    · cases hstep
    · rename_i device hdevice
      obtain rfl := some.inj hstep
      rw [hdevice] at hh
      obtain ⟨-, hmedium⟩ := boot_holds hh.1 hh.2 (hok.reads b rfl) (hok.sure b rfl)
      exact ⟨hmedium.crash pick, quiescent_crash pick⟩

section Loose

variable {ok : Service D C → Call D C → Bool} (hloose : ¬ a.rules.tidy) {host : Host D C}

include hloose

theorem admits_of_minds {event : Event D C}
    (hallows : ∀ {service : Service D C} {call : Call D C}, service.dispatches call = true →
      ok service call = true → a.allows (service.posed fmt call).store call)
    (hminds : Minds ok host event) : a.Admits host.phase event :=
  ⟨fun call service hcall hup hd => hallows hd (hminds.1 call service hcall hup),
    fun _ _ ht => absurd ht hloose, hminds.2, fun _ _ ht => absurd ht hloose⟩

theorem recovers (hh : a.Holds host.phase) {b : Boot} (hreads : b.fails = fun _ _ => false)
    {s : Store D C} (hrun : host.recovered fmt b = some s) :
    ∃ h, Resumed fmt a.rules a.P s h := by
  obtain ⟨device, hdown, hrun⟩ := Host.recovered_eq_some hrun
  rw [hdown] at hh
  obtain ⟨h, hresumed, -⟩ :=
    (boot_ends hh.1 hh.2 hreads fun ht => absurd ht hloose).of_ok hrun
  exact ⟨h, hresumed⟩

end Loose

end Keeping

namespace Account

variable {a : Account fmt}

theorem blank_holds : a.Holds (Host.blank : Host D C).phase := by
  have hother : ∀ x : Block D C, x ∈ (Cell.settled (.other : Block D C)).possible →
      x = .other := by
    intro x hx
    simpa [Cell.possible, Cell.settled] using hx
  have hvacant : Vacant fmt a.rules (fun _ => .settled .other : Device (Block D C)) := by
    refine ⟨fun b r hr => ?_, fun b sb hsb => ?_, fun b r hr => ?_, fun slot _ sb hsb => ?_⟩
    · cases hother _ hr
    · cases hother _ hsb
    · cases hother _ hr
    · cases hother _ hsb
  exact ⟨hvacant.medium a.empty, fun _ => rfl⟩

/-- **An account holds in every state of every run of steps it allows.** -/
theorem reachable_holds {ok : Host D C → Event D C → Prop}
    (hok : ∀ host event, ok host event → a.Admits host.phase event) {host : Host D C}
    (hr : ((machine fmt).within ok).Reachable host) : a.Holds host.phase := by
  refine System.Reachable.invariant (I := fun host => a.Holds host.phase) (fun host hinit => ?_)
    (fun s event s' hs hstep => ?_) hr
  · obtain rfl : host = .blank := hinit
    exact blank_holds
  · exact Keeping.step_holds hs (hok s event hstep.1) hstep.2

section Loose

variable {ok : Service D C → Call D C → Bool} (hloose : ¬ a.rules.tidy)
  (hallows : ∀ {service : Service D C} {call : Call D C}, service.dispatches call = true →
    ok service call = true → a.allows (service.posed fmt call).store call)

include hloose hallows

variable {host : Host D C}

theorem holds_of_minds (hr : ((machine fmt).within (Minds ok)).Reachable host) :
    a.Holds host.phase :=
  reachable_holds (fun _ _ => Keeping.admits_of_minds hloose hallows) hr

/-- **What a recovery ends with after a run an account allows.** -/
theorem recovered (hr : ((machine fmt).within (Minds ok)).Reachable host)
    {b : Boot} (hreads : b.fails = fun _ _ => false) {s : Store D C}
    (hrun : host.recovered fmt b = some s) : ∃ h, Resumed fmt a.rules a.P s h :=
  Keeping.recovers hloose (holds_of_minds hloose hallows hr) hreads hrun

end Loose

end Account

end Thalyx.K4
