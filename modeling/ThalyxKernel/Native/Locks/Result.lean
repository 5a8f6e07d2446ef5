/-
The native locks exclude, and lose no wake.

`Inv` puts together what `Exclusion` and `Wakes` say of a state; a step of a thread keeps all
of it as long as the counters have room.  Without room they wrap: a recursive mutex that its
thread has locked 2^32 times counts 0, and the first unlock lets another thread in.
-/
import ThalyxKernel.Native.Locks.Wakes

namespace Thalyx.Native

namespace Locks

namespace State

variable {kinds : Nat → Kind} {s : State} {t : Tid} {late : Bool} {pc' : Pc} {act : Act}

structure Inv (kinds : Nat → Kind) (s : State) : Prop where
  placed : s.Placed
  owned : ∀ m, s.OwnedAt kinds m
  shared : ∀ l, s.RwAt l
  enrolled : s.Enrolled
  woken : s.Woken
  noticed : s.Noticed

namespace Inv

theorem safe (h : s.Inv kinds) : s.Safe where
  mutex := (h.owned _).one
  rwlock := fun ht u => ⟨fun hu => (h.shared _).one hu ht, (h.shared _).apart ht u⟩
  returns := fun hpc => h.placed.held _ _ (by rw [hpc]; rfl)
  sleepers := h.woken _ _ _ _ _
  watchers := h.noticed _ _ _

theorem init (h : s.Initial) : s.Inv kinds where
  placed := by constructor <;> simp [h.pcs, Pc.Wf, Pc.held, Pc.unlocks]
  owned := fun m => by constructor <;> simp [h.mutexes, h.depth]
  shared := fun l => by constructor <;> simp [h.rwlocks, h.shared, h.alone]
  enrolled := fun t o ho => by simp [h.pcs, Pc.enrolled] at ho
  woken := fun u m mode spin k hpc => by simp [h.pcs] at hpc
  noticed := fun u a seen hpc => by simp [h.pcs] at hpc

theorem moves (h : s.Inv kinds) (hgo : (s.pcs t).go kinds s t late = some (act, pc')) :
    s.Moves t act pc' :=
  .of_go hgo (h.placed.wf t) (h.placed.held t) (fun m howner => ((h.owned m).counted howner).1)
    (h.placed.unlocks t)

theorem step_of (h : s.Inv kinds) (hmoves : s.Moves t act pc')
    (howned : ∀ m, act.on = some m → ((s.perform t act).move t pc').OwnedAt kinds m)
    (hshared : ∀ l, act.onRw = some l → ((s.perform t act).move t pc').RwAt l) :
    ((s.perform t act).move t pc').Inv kinds where
  placed := h.placed.step hmoves (h.owned _).one
  owned := by
    intro m
    by_cases hon : act.on = some m
    · exact howned m hon
    · exact (h.owned m).frame hon (hmoves.hands m hon)
  shared := by
    intro l
    by_cases hon : act.onRw = some l
    · exact hshared l hon
    · exact (h.shared l).frame hon
  enrolled := h.enrolled.step hmoves
  woken := h.woken.step h.enrolled hmoves
  noticed := h.noticed.step h.enrolled hmoves

theorem owned_go {m : MutexId} (h : s.Inv kinds)
    (hgo : (s.pcs t).go kinds s t late = some (act, pc')) (hroom : (s.pcs t).HasRoom kinds s t)
    (hon : act.on = some m) : ((s.perform t act).move t pc').OwnedAt kinds m := by
  have hm := h.owned m
  have hheld := h.placed.held t m
  cases act with
  | lock m' =>
    obtain rfl : m' = m := by simpa [Act.on] using hon
    obtain ⟨hlock, hhands⟩ := Pc.go_lock hgo
    exact hm.lock hlock hhands
  | own m' =>
    obtain rfl : m' = m := by simpa [Act.on] using hon
    obtain ⟨hhands, hhands'⟩ := Pc.go_own hgo
    exact hm.own (hheld (Pc.hands_held hhands)) hhands hhands'
  | nest m' =>
    obtain rfl : m' = m := by simpa [Act.on] using hon
    obtain ⟨⟨mode, k, hpc⟩, howner, hkind, hhands'⟩ := Pc.go_nest hgo
    rw [hpc] at hroom
    exact hm.nest howner hkind (hroom howner hkind) hhands'
  | unnest m' =>
    obtain rfl : m' = m := by simpa [Act.on] using hon
    obtain ⟨hplace, hhands, hcount, hkind, hhands'⟩ := Pc.go_unnest hgo
    exact hm.unnest (hheld hplace) hcount hkind hhands hhands'
  | disown m' =>
    obtain rfl : m' = m := by simpa [Act.on] using hon
    obtain ⟨hplace, -, hlast, hhands'⟩ := Pc.go_disown hgo
    exact hm.disown (hheld hplace) hlast hhands'
  | unlock m' =>
    obtain rfl : m' = m := by simpa [Act.on] using hon
    obtain ⟨hhands, -, -⟩ := Pc.go_unlock hgo
    exact hm.unlock (hheld (Pc.hands_held hhands)) hhands
  | _ => simp [Act.on] at hon

theorem shared_go {l : Nat} (h : s.Inv kinds)
    (hgo : (s.pcs t).go kinds s t late = some (act, pc')) (hroom : (s.pcs t).HasRoom kinds s t)
    (hon : act.onRw = some l) : ((s.perform t act).move t pc').RwAt l := by
  have hl := h.shared l
  cases act with
  | take l' exclusive readers =>
    obtain rfl : l' = l := by simpa [Act.onRw] using hon
    have hpc := Pc.go_take hgo
    obtain ⟨hwriter, hnone, hreaders⟩ := h.placed.taking hpc
    rw [hpc] at hroom
    cases exclusive with
    | true => exact hl.takeAlone hwriter (hreaders ▸ hnone rfl)
    | false => exact hl.takeShared hwriter hreaders hroom
  | give l' writer readers =>
    obtain rfl : l' = l := by simpa [Act.onRw] using hon
    have hpc := Pc.go_give hgo
    obtain ⟨hwriter, hreaders⟩ := h.placed.giving hpc
    have hholds := h.placed.unlocks t l' (by rw [hpc]; rfl)
    by_cases hw : writer = 0
    · subst hw
      exact hl.giveShared hwriter.symm hreaders hholds
    · exact hl.giveAlone hw hwriter hholds
  | _ => simp [Act.onRw] at hon

theorem step {event : Event} {s' : State} (h : s.Inv kinds) (hok : s.Permitted event)
    (hroom : s.Room kinds event) (hstep : s.step kinds event = some s') : s'.Inv kinds := by
  cases event with
  | call t call =>
    rw [State.step] at hstep
    split at hstep
    · next hidle =>
        cases hstep
        exact h.step_of (.of_call hidle hok) nofun nofun
    · cases hstep
  | go t late =>
    rw [State.step] at hstep
    obtain ⟨⟨act, pc'⟩, hgo, rfl⟩ := Option.map_eq_some_iff.mp hstep
    exact h.step_of (h.moves hgo) (fun _ => h.owned_go hgo hroom) (fun _ => h.shared_go hgo hroom)

end Inv

/-- **Every order of the threads' steps leaves the locks safe**, as long as the counters have
room. -/
theorem locks_safe (h : (roomy kinds).Reachable s) : s.Safe := by
  have hinv : s.Inv kinds := by
    refine h.invariant ?_ ?_
    · intro s hinit
      exact .init hinit
    · intro s event s' hs ⟨⟨hok, hroom⟩, hstep⟩
      exact hs.step hok hroom hstep
  exact hinv.safe

/-! ### A run -/

theorem zeroed_initial : zeroed.Initial :=
  ⟨fun _ => rfl, fun _ => rfl, fun _ _ => rfl, fun _ => rfl, fun _ => rfl, fun _ _ => rfl,
    fun _ _ => rfl, fun _ _ => rfl⟩

/-- A thread waits for a condition, and another has just counted its sequence up. -/
def signalledUnderSleeper : List Event :=
  .call 0 (.lock 0 .plain) :: List.replicate 3 (.go 0 false) ++
    .call 0 (.condWait 0 0 false) :: List.replicate 7 (.go 0 false) ++
    [.call 1 (.signal 0), .go 1 false]

/-- The sleeper's bit is not raised yet; the other is about to read the mask. -/
theorem locks_safe_sample :
    ∃ s, (roomy fun _ => .normal).Reachable s ∧ s.pcs 0 = .dozing (.cond 0 (.user 0) false) 0 ∧
      s.sequence (.cond 0) = 1 ∧ s.raised 0 = false ∧ s.pcs 1 = .signalled (.cond 0) ∧
      s.Safe := by
  have hrun : (System.exec (System.guarded
      (fun s event => s.Permitted event ∧ s.Room (fun _ => .normal) event)
      (step fun _ => .normal)) signalledUnderSleeper zeroed).any (fun s =>
        s.pcs 0 = .dozing (.cond 0 (.user 0) false) 0 ∧ s.sequence (.cond 0) = 1 ∧
          s.raised 0 = false ∧ s.pcs 1 = .signalled (.cond 0)) = true := by decide
  obtain ⟨s, hs, hfacts⟩ := (Option.any_eq_true _ _).mp hrun
  obtain ⟨hdozing, hmoved, hraised, hsignalled⟩ := of_decide_eq_true hfacts
  have hreach : (roomy fun _ => .normal).Reachable s :=
    System.reachable_within_of_guarded (.init zeroed_initial) hs
  exact ⟨s, hreach, hdozing, hmoved, hraised, hsignalled, locks_safe hreach⟩

/-! ### Without room -/

section

variable {kinds : Nat → Kind} {s : State} {t : Tid}

theorem reachable_call {call : Call} (h : (locks kinds).Reachable s) (hidle : s.pcs t = .idle)
    (hok : s.Permitted (.call t call)) : (locks kinds).Reachable (s.move t call.start) :=
  h.step (a := .call t call) ⟨hok, if_pos hidle⟩

theorem reachable_go {act : Act} {pc pc' : Pc} (h : (locks kinds).Reachable s) (hpc : s.pcs t = pc)
    (hgo : pc.go kinds s t false = some (act, pc')) :
    (locks kinds).Reachable ((s.perform t act).move t pc') := by
  refine h.step (a := .go t false) ⟨trivial, ?_⟩
  show ((s.pcs t).go kinds s t false).map _ = _
  rw [hpc, hgo]
  rfl

end

/-- One thread has locked a recursive mutex so often, and another is there. -/
structure Nested (n : Nat) (s : State) : Prop where
  reachable : (locks fun _ => .recursive).Reachable s
  mutex : s.mutexes (.user 0) = ⟨1, n % uintRange, 1⟩
  depth : s.depth 0 (.user 0) = n
  others : s.depth 1 (.user 0) = 0
  idle : s.pcs 0 = .idle
  ready : s.pcs 1 = .idle

theorem Nested.first : ∃ s, Nested 1 s := by
  have hrun : (System.exec (System.guarded Permitted (step fun _ => .recursive))
      (.call 0 (.lock 0 .plain) :: List.replicate 3 (.go 0 false)) zeroed).any (fun s =>
        s.mutexes (.user 0) = ⟨1, 1, 1⟩ ∧ s.depth 0 (.user 0) = 1 ∧ s.depth 1 (.user 0) = 0 ∧
          s.pcs 0 = .idle ∧ s.pcs 1 = .idle) = true := by decide
  obtain ⟨s, hs, hfacts⟩ := (Option.any_eq_true _ _).mp hrun
  obtain ⟨hmutex, hdepth, hothers, hidle, hready⟩ := of_decide_eq_true hfacts
  exact ⟨s, System.reachable_within_of_guarded (.init zeroed_initial) hs, hmutex, hdepth, hothers,
    hidle, hready⟩

theorem Nested.more {n : Nat} (h : Nested n s) : ∃ s', Nested (n + 1) s' := by
  have hok : s.Permitted (.call 0 (.lock 0 .plain)) := trivial
  have hcall := reachable_call h.reachable h.idle hok
  have hnest : (Call.lock 0 .plain).start.go (fun _ => .recursive)
      (s.move 0 (Call.lock 0 .plain).start) 0 false = some (.nest (.user 0), .idle) := by
    simp [Call.start, Pc.go, h.mutex, kindOf, Cont.resume]
  refine ⟨_, reachable_go hcall (by simp) hnest, ?_, ?_, ?_, ?_, ?_⟩
  · simp [perform, h.mutex]
  · simp [perform, h.depth]
  · simpa [perform] using h.others
  · simp [perform]
  · simpa [perform] using h.ready

theorem nested (n : Nat) : ∃ s, Nested (n + 1) s := by
  induction n with
  | zero => exact Nested.first
  | succ n ih =>
    obtain ⟨s, hs⟩ := ih
    exact hs.more

theorem Nested.unlocked {n : Nat} (h : Nested n s) (hn : 0 < n) (hwrap : n % uintRange = 0) :
    ∃ s', (locks fun _ => .recursive).Reachable s' ∧ s'.mutexes (.user 0) = ⟨0, 0, 0⟩ ∧
      s'.depth 0 (.user 0) = n - 1 ∧ s'.pcs 1 = .idle := by
  have hok : s.Permitted (.call 0 (.unlock 0)) := by simpa [Permitted, h.depth] using hn
  have hcall := reachable_call h.reachable h.idle hok
  have hdisown : (Call.unlock 0).start.go (fun _ => .recursive) (s.move 0 (Call.unlock 0).start) 0
      false = some (.disown (.user 0), .releasing (.user 0) .ret) := by
    simp [Call.start, Pc.go, h.mutex, hwrap, kindOf]
  have hgo := reachable_go hcall (by simp) hdisown
  have hat : (((s.move 0 (Call.unlock 0).start).perform 0 (.disown (.user 0))).move 0
      (.releasing (.user 0) .ret)).pcs 0 = .releasing (.user 0) .ret := by simp
  have hunlock := reachable_go hgo hat rfl
  refine ⟨_, hunlock, ?_, ?_, ?_⟩
  · simp [perform]
  · simp [perform, h.depth]
  · simpa [perform] using h.ready

theorem locked (h : (locks fun _ => .recursive).Reachable s)
    (hmutex : s.mutexes (.user 0) = ⟨0, 0, 0⟩) (hidle : s.pcs 1 = .idle) :
    ∃ s', (locks fun _ => .recursive).Reachable s' ∧ s'.depth 1 (.user 0) = 1 ∧
      s'.depth 0 (.user 0) = s.depth 0 (.user 0) := by
  have hok : s.Permitted (.call 1 (.lock 0 .plain)) := trivial
  have hcall := reachable_call h hidle hok
  have hlook : (Call.lock 0 .plain).start.go (fun _ => .recursive)
      (s.move 1 (Call.lock 0 .plain).start) 1 false =
        some (.look, .spinning (.user 0) .plain 0 .ret) := by
    simp [Call.start, Pc.go, hmutex]
  have hgo := reachable_go hcall (by simp) hlook
  have hlock : (Pc.spinning (.user 0) .plain 0 .ret).go (fun _ => .recursive)
      (((s.move 1 (Call.lock 0 .plain).start).perform 1 .look).move 1
        (.spinning (.user 0) .plain 0 .ret)) 1 false =
        some (.lock (.user 0), .acquired (.user 0) .ret) := by
    simp [Pc.go, perform, hmutex]
  refine ⟨_, reachable_go hgo (by simp) hlock, ?_, ?_⟩
  · simp [perform]
  · simp [perform]

/-- **2^32 nested locks wrap the counter.**  After the first of as many unlocks another thread has
the mutex as well. -/
theorem nested_lock_shared :
    ∃ s, (locks fun _ => .recursive).Reachable s ∧ s.depth 0 (.user 0) = 0xffffffff ∧
      s.depth 1 (.user 0) = 1 ∧ ¬ s.Safe := by
  obtain ⟨s, hs⟩ := nested 0xffffffff
  obtain ⟨s, hreach, hmutex, hdepth, hidle⟩ := hs.unlocked (by decide) (by decide)
  obtain ⟨s', hreach', hlocked, hsame⟩ := locked hreach hmutex hidle
  have hheld : s'.depth 0 (.user 0) = 0xffffffff := by rw [hsame, hdepth]
  refine ⟨s', hreach', hheld, hlocked, fun hsafe => ?_⟩
  have hone := hsafe.mutex (t := 0) (u := 1) (m := .user 0) (by omega) (by omega)
  exact absurd hone (by decide)

end State

end Locks

end Thalyx.Native
