/-
The big-reader lock (`BrLock` of `kernel/src/sync.rs`): who holds it, over every run.

A step is one access of one processor to what they share, all in one order.  `Pc` is where a
processor is in `read`, in `write`, or in the drop of a guard.  A read guard is held at
`reading`, a write guard at `writing`; from the store that ends `excluding` on, nothing is
protected any more.  The statistics and the address-space work that is done while spinning
touch nothing of the lock and are left out.
-/
import Mathlib.Data.List.FinRange
import Mathlib.Data.List.Perm.Subperm
import Mathlib.Tactic.Common
import ThalyxKernel.Kernel.Object
import ThalyxKernel.Lib.Run

namespace Thalyx.Kernel.BrLock

open Function List

/-- Where a processor is: outside, or before the access that is named. -/
inductive Pc where
  | idle
  /-- `read`: the flag is to be set. -/
  | announce
  /-- The flag is set, and `excluding` is to be read. -/
  | check
  /-- A writer is in: the flag is to be cleared. -/
  | withdraw
  /-- The inner loop: until `excluding` is clear. -/
  | spin
  | reading
  /-- `write`: until `serving` is the ticket. -/
  | wait (ticket : BitVec 32)
  /-- `excluding` is to be set. -/
  | exclude
  /-- Until `readers[i]` is clear. -/
  | drain (i : Nat)
  | writing
  /-- `excluding` is clear again, and the next ticket is to be served. -/
  | release
deriving DecidableEq

namespace Pc

/-- In `read`, or with what it returned. -/
@[simp] def shared : Pc → Bool
  | announce | check | withdraw | spin | reading => true
  | _ => false

/-- In `write`, with its ticket still to be served. -/
@[simp] def waits : Pc → Bool
  | wait _ => true
  | _ => false

/-- Past the ticket, and not yet past handing it on. -/
@[simp] def inside : Pc → Bool
  | exclude | drain _ | writing | release => true
  | _ => false

/-- Between setting `excluding` and clearing it. -/
@[simp] def excludes : Pc → Bool
  | drain _ | writing => true
  | _ => false

/-- With its own flag set. -/
@[simp] def flagged : Pc → Bool
  | check | withdraw | reading => true
  | _ => false

/-- Has been given the guard by the ticket that is being served. -/
@[simp] def entered : Pc → Bool
  | writing | release => true
  | _ => false

theorem inside_of_entered {pc : Pc} (h : pc.entered) : pc.inside := by
  cases pc <;> simp_all

theorem update_same {n : Nat} (f : Pc → Bool) {pcs : Fin n → Pc} {p : Fin n} {pc : Pc}
    (h : f pc = f (pcs p)) (q : Fin n) : f (update pcs p pc q) = f (pcs q) := by
  by_cases hq : q = p
  · rw [hq, update_self, h]
  · rw [update_of_ne hq]

end Pc

/-- What a processor that is outside asks for. -/
inductive Ask where
  | read | write

/-- `BrLock` with a flag for each of `n` processors, and where they are.  `drawn` and
`granted` are kept for the record: who has taken a ticket, and who was given a write guard,
both in order. -/
structure State (n : Nat) where
  next : BitVec 32
  serving : BitVec 32
  excluding : Bool
  readers : Fin n → Bool
  pcs : Fin n → Pc
  drawn : List (Fin n)
  granted : List (Fin n)

variable {n : Nat}

namespace State

/-- `BrLock::new`, with no one at it. -/
def new (n : Nat) : State n := ⟨0, 0, false, fun _ => false, fun _ => .idle, [], []⟩

def move (s : State n) (p : Fin n) (pc : Pc) : State n := { s with pcs := update s.pcs p pc }

/-- The next access of a processor. -/
def step (s : State n) (p : Fin n) (ask : Ask) : State n :=
  match s.pcs p, ask with
  | .idle, .read => s.move p .announce
  | .idle, .write =>
    { s.move p (.wait s.next) with next := s.next + 1, drawn := s.drawn ++ [p] }
  | .announce, _ => { s.move p .check with readers := update s.readers p true }
  | .check, _ => s.move p (if s.excluding then .withdraw else .reading)
  | .withdraw, _ => { s.move p .spin with readers := update s.readers p false }
  | .spin, _ => if s.excluding then s else s.move p .announce
  | .reading, _ => { s.move p .idle with readers := update s.readers p false }
  | .wait ticket, _ => if s.serving = ticket then s.move p .exclude else s
  | .exclude, _ => { s.move p (.drain 0) with excluding := true }
  | .drain i, _ =>
    if h : i < n then
      if s.readers ⟨i, h⟩ then s else s.move p (.drain (i + 1))
    else
      { s.move p .writing with granted := s.granted ++ [p] }
  | .writing, _ => { s.move p .release with excluding := false }
  | .release, _ => { s.move p .idle with serving := s.serving + 1 }

/-- How many writers wait for their ticket to be served. -/
def waiting (s : State n) : Nat := ((List.finRange n).filter fun p => (s.pcs p).waits).length

end State

/-- The lock and its processors. -/
def lock (n : Nat) : System (State n) (Fin n × Ask) where
  init s := s = .new n
  step s a s' := s' = s.step a.1 a.2

/-- The tickets before `turn` have been served; each one from there on is held by the
processor that drew it, and only the first of these can be past it. -/
structure Queued (s : State n) (turn : Nat) : Prop where
  next : s.next = BitVec.ofNat 32 s.drawn.length
  serving : s.serving = BitVec.ofNat 32 turn
  served : turn ≤ s.drawn.length
  once : ∀ j k p, turn ≤ j → turn ≤ k → s.drawn[j]? = some p → s.drawn[k]? = some p → j = k
  inside : ∀ p, (s.pcs p).inside → s.drawn[turn]? = some p
  held : ∀ k p, turn ≤ k → s.drawn[k]? = some p →
    s.pcs p = .wait (BitVec.ofNat 32 k) ∨ k = turn ∧ (s.pcs p).inside
  waits : ∀ p, (s.pcs p).waits → ∃ k, turn ≤ k ∧ s.drawn[k]? = some p
  granted : ∀ p, (s.pcs p).entered → s.granted = s.drawn.take (turn + 1)
  ungranted : (∀ p, ¬ (s.pcs p).entered) → s.granted = s.drawn.take turn

namespace Queued

variable {s s' : State n} {turn : Nat} {p : Fin n} {pc : Pc}

theorem alone (h : Queued s turn) {q : Fin n} (hp : (s.pcs p).inside) (hq : (s.pcs q).inside) :
    p = q :=
  Option.some.inj ((h.inside p hp).symm.trans (h.inside q hq))

theorem frame (h : Queued s turn) (hnext : s'.next = s.next) (hserving : s'.serving = s.serving)
    (hdrawn : s'.drawn = s.drawn) (hgranted : s'.granted = s.granted)
    (hpcs : s'.pcs = update s.pcs p pc) (hfrom : (s.pcs p).waits = false) (hto : pc.waits = false)
    (hinside : pc.inside = (s.pcs p).inside) (hentered : pc.entered = (s.pcs p).entered) :
    Queued s' turn := by
  obtain ⟨hn, hs, hle, honce, hin, hheld, hwaits, hg, hu⟩ := h
  have hsame : ∀ q, (s'.pcs q).inside = (s.pcs q).inside ∧ (s'.pcs q).entered = (s.pcs q).entered := by
    intro q
    rw [hpcs]
    exact ⟨Pc.update_same Pc.inside hinside q, Pc.update_same Pc.entered hentered q⟩
  refine ⟨by rw [hnext, hdrawn, hn], by rw [hserving, hs], hdrawn ▸ hle, hdrawn ▸ honce,
    ?_, ?_, ?_, ?_, ?_⟩
  · intro q hq
    rw [hdrawn]
    exact hin q ((hsame q).1 ▸ hq)
  · intro k q hk hget
    rw [(hsame q).1]
    refine (hheld k q hk (hdrawn ▸ hget)).imp_left fun hwait => ?_
    by_cases hq : q = p
    · subst hq
      simp [hwait] at hfrom
    · simpa [hpcs, hq] using hwait
  · intro q hq
    rw [hdrawn]
    refine hwaits q ?_
    by_cases hqp : q = p
    · subst hqp
      rw [hpcs, update_self, hto] at hq
      cases hq
    · simpa [hpcs, hqp] using hq
  · intro q hq
    rw [hgranted, hdrawn]
    exact hg q ((hsame q).2 ▸ hq)
  · intro hnone
    rw [hgranted, hdrawn]
    exact hu fun q => (hsame q).2 ▸ hnone q

theorem draw (h : Queued s turn) (hidle : s.pcs p = .idle) :
    Queued { s.move p (.wait s.next) with next := s.next + 1, drawn := s.drawn ++ [p] } turn := by
  obtain ⟨hn, hs, hle, honce, hin, hheld, hwaits, hg, hu⟩ := h
  have hout : ∀ k : Nat, turn ≤ k → s.drawn[k]? ≠ some p := by
    intro k hk hget
    have := hheld k p hk hget
    simp [hidle] at this
  constructor <;> simp only [State.move]
  · simp [hn, BitVec.ofNat_add]
  · exact hs
  · simp only [length_append]
    omega
  · grind
  · grind [Pc.inside]
  · grind [Pc.inside]
  · intro q hq
    by_cases hqp : q = p
    · exact ⟨s.drawn.length, hle, by simp [hqp]⟩
    · obtain ⟨k, hk, hget⟩ := hwaits q (by simpa [hqp] using hq)
      exact ⟨k, hk, by rw [getElem?_append_left (by grind), hget]⟩
  · intro q hq
    have hqp : q ≠ p := fun heq => by simp [heq] at hq
    rw [update_of_ne hqp] at hq
    have hturn := (List.getElem?_eq_some_iff.mp (hin q (Pc.inside_of_entered hq))).1
    rw [hg q hq, List.take_append_of_le_length hturn]
  · intro hnone
    rw [List.take_append_of_le_length hle]
    have hsame : ∀ q, (update s.pcs p (.wait s.next) q).entered = (s.pcs q).entered :=
      Pc.update_same Pc.entered (by simp [hidle])
    exact hu fun q => hsame q ▸ hnone q

theorem width (h : Queued s turn) (hfew : s.waiting < 2 ^ 32) : s.drawn.length ≤ turn + 2 ^ 32 := by
  have hnodup : (s.drawn.drop (turn + 1)).Nodup := by
    rw [nodup_iff_injective_getElem]
    intro j k hjk
    have := h.once (turn + 1 + j) (turn + 1 + k) (s.drawn.drop (turn + 1))[j] (by omega) (by omega)
    grind
  have hsub : s.drawn.drop (turn + 1) ⊆ (List.finRange n).filter fun p => (s.pcs p).waits := by
    intro p hp
    obtain ⟨k, hk⟩ := mem_iff_getElem?.mp hp
    rw [getElem?_drop] at hk
    obtain hwait | ⟨heq, -⟩ := h.held _ p (by omega) hk
    · simp [hwait]
    · omega
  have hlength := (hnodup.subperm hsub).length_le
  rw [length_drop] at hlength
  unfold State.waiting at hfew
  omega

theorem enter (h : Queued s turn) {ticket : BitVec 32} (hwait : s.pcs p = .wait ticket)
    (hserved : s.serving = ticket) (hfew : s.waiting < 2 ^ 32) :
    Queued (s.move p .exclude) turn := by
  have hwidth := h.width hfew
  obtain ⟨hn, hs, hle, honce, hin, hheld, hwaits, hg, hu⟩ := h
  obtain ⟨k, hk, hget⟩ := hwaits p (by simp [hwait])
  have hticket : ticket = BitVec.ofNat 32 k := by
    obtain hsame | ⟨-, hinside⟩ := hheld k p hk hget
    · simpa [hwait] using hsame
    · simp [hwait] at hinside
  have hturn : k = turn := by
    have hmod : turn % 2 ^ 32 = k % 2 ^ 32 := by
      have := congrArg BitVec.toNat (hs.symm.trans (hserved.trans hticket))
      simpa using this
    have := (List.getElem?_eq_some_iff.mp hget).1
    omega
  subst hturn
  have hsame : ∀ q, (update s.pcs p .exclude q).entered = (s.pcs q).entered :=
    Pc.update_same Pc.entered (by simp [hwait])
  constructor <;> simp only [State.move]
  · exact hn
  · exact hs
  · exact hle
  · exact honce
  · grind [Pc.inside]
  · grind [Pc.inside]
  · grind [Pc.waits]
  · grind [Pc.entered]
  · grind [Pc.entered]

theorem grant (h : Queued s turn) {i : Nat} (hdrain : s.pcs p = .drain i) :
    Queued { s.move p .writing with granted := s.granted ++ [p] } turn := by
  have hturn := h.inside p (by simp [hdrain])
  have hnone : ∀ q, ¬ (s.pcs q).entered := by
    intro q hq
    have := h.alone (p := p) (by simp [hdrain]) (Pc.inside_of_entered hq)
    simp [← this, hdrain, Pc.entered] at hq
  obtain ⟨hn, hs, hle, honce, hin, hheld, hwaits, hg, hu⟩ := h
  constructor <;> simp only [State.move]
  · exact hn
  · exact hs
  · exact hle
  · exact honce
  · grind [Pc.inside]
  · grind [Pc.inside]
  · grind [Pc.waits]
  · intro _ _
    rw [hu hnone, take_add_one, hturn]
    rfl
  · intro hout
    simpa [Pc.entered] using hout p

theorem hand (h : Queued s turn) (hrelease : s.pcs p = .release) :
    Queued { s.move p .idle with serving := s.serving + 1 } (turn + 1) := by
  have hturn := h.inside p (by simp [hrelease])
  have hout : ∀ q, q ≠ p → ¬ (s.pcs q).inside := fun q hq hin =>
    hq (h.alone hin (by simp [hrelease]))
  obtain ⟨hn, hs, hle, honce, hin, hheld, hwaits, hg, hu⟩ := h
  constructor <;> simp only [State.move]
  · exact hn
  · simp [hs, BitVec.ofNat_add]
  · exact (List.getElem?_eq_some_iff.mp hturn).1
  · grind
  · grind [Pc.inside]
  · grind [Pc.inside]
  · grind [Pc.waits]
  · intro q hq
    have hqp : q ≠ p := fun heq => by simp [heq] at hq
    rw [update_of_ne hqp] at hq
    exact absurd (Pc.inside_of_entered hq) (hout q hqp)
  · exact fun _ => hg p (by simp [hrelease])

end Queued

/-- Who sets `excluding` finds every flag it has looked at clear, and keeps it so. -/
structure Drained (s : State n) : Prop where
  flags : ∀ p, s.readers p = (s.pcs p).flagged
  excluding : ∀ p, (s.pcs p).excludes → s.excluding = true
  drain : ∀ p i, s.pcs p = .drain i → ∀ q, q.val < i → s.pcs q ≠ .reading
  writing : ∀ p, s.pcs p = .writing → ∀ q, s.pcs q ≠ .reading

namespace Drained

variable {s s' : State n} {p : Fin n} {pc : Pc}

theorem frame (h : Drained s) (hpcs : s'.pcs = update s.pcs p pc)
    (hreaders : s'.readers = update s.readers p pc.flagged) (hout : ¬ pc.excludes)
    (hexcluding : s'.excluding = s.excluding ∨ ∀ q, q ≠ p → ¬ (s.pcs q).excludes)
    (hreading : pc = .reading → s.excluding = false) : Drained s' := by
  obtain ⟨hflags, hex, hdrain, hwriting⟩ := h
  have hpc : ∀ q, s'.pcs q = if q = p then pc else s.pcs q := by simp [hpcs, update_apply]
  have hflag : ∀ q, s'.readers q = if q = p then pc.flagged else s.readers q := by
    simp [hreaders, update_apply]
  constructor
  · grind
  · grind
  · grind [Pc.excludes]
  · grind [Pc.excludes]

theorem advance (h : Drained s) (hpcs : s'.pcs = update s.pcs p pc)
    (hreaders : s'.readers = s.readers) (hset : s'.excluding = true)
    (hfrom : (s.pcs p).flagged = false) (hto : pc.excludes)
    (hdrain : ∀ i, pc = .drain i → ∀ q, q.val < i → s.pcs q ≠ .reading)
    (hwriting : pc = .writing → ∀ q, s.pcs q ≠ .reading) : Drained s' := by
  obtain ⟨hflags, hex, hdrained, hwrote⟩ := h
  have hpc : ∀ q, s'.pcs q = if q = p then pc else s.pcs q := by simp [hpcs, update_apply]
  have hflag : pc.flagged = false := by cases pc <;> simp_all
  constructor
  · grind
  · grind
  · grind [Pc.excludes]
  · grind [Pc.excludes]

end Drained

/-- What holds between any two steps. -/
def Inv (s : State n) : Prop := (∃ turn, Queued s turn) ∧ Drained s

theorem Inv.shared {s s' : State n} {p : Fin n} {pc : Pc} (h : Inv s)
    (hsame : s' = { s.move p pc with readers := update s.readers p pc.flagged })
    (hfrom : (s.pcs p).inside = false ∧ (s.pcs p).waits = false)
    (hto : pc.inside = false ∧ pc.waits = false) (hreading : pc = .reading → s.excluding = false) :
    Inv s' := by
  obtain ⟨⟨turn, hq⟩, hd⟩ := h
  subst hsame
  refine ⟨⟨turn, hq.frame rfl rfl rfl rfl rfl hfrom.2 hto.2 (hto.1.trans hfrom.1.symm) ?_⟩,
    hd.frame rfl rfl ?_ (.inl rfl) hreading⟩
  · have := @Pc.inside_of_entered pc
    have := @Pc.inside_of_entered (s.pcs p)
    grind
  · cases pc <;> simp_all

/-- **One step keeps the invariant.** -/
theorem Inv.step {s : State n} (h : Inv s) (p : Fin n) (ask : Ask) (hfew : s.waiting < 2 ^ 32) :
    Inv (s.step p ask) := by
  have hinv := h
  obtain ⟨⟨turn, hq⟩, hd⟩ := h
  have hkeep : ∀ pc : Pc, pc.flagged = (s.pcs p).flagged →
      s.readers = update s.readers p pc.flagged := by
    intro pc hpc
    rw [hpc, ← hd.flags, update_eq_self]
  have hmove : ∀ pc : Pc, pc.flagged = (s.pcs p).flagged →
      s.move p pc = { s.move p pc with readers := update s.readers p pc.flagged } := by
    intro pc hpc
    rw [← hkeep pc hpc]
    rfl
  unfold State.step
  cases hpc : s.pcs p with simp only [hpc] at hkeep hmove
  | idle =>
    cases ask with
    | read => exact hinv.shared (hmove _ rfl) (by simp [hpc]) ⟨rfl, rfl⟩ nofun
    | write => exact ⟨⟨turn, hq.draw hpc⟩, hd.frame rfl (hkeep _ rfl) nofun (.inl rfl) nofun⟩
  | announce => exact hinv.shared rfl (by simp [hpc]) ⟨rfl, rfl⟩ nofun
  | check =>
    cases hset : s.excluding with
    | true => exact hinv.shared (hmove _ rfl) (by simp [hpc]) ⟨rfl, rfl⟩ nofun
    | false => exact hinv.shared (hmove _ rfl) (by simp [hpc]) ⟨rfl, rfl⟩ fun _ => hset
  | withdraw => exact hinv.shared rfl (by simp [hpc]) ⟨rfl, rfl⟩ nofun
  | spin =>
    dsimp only
    split
    · exact hinv
    · exact hinv.shared (hmove _ rfl) (by simp [hpc]) ⟨rfl, rfl⟩ nofun
  | reading => exact hinv.shared rfl (by simp [hpc]) ⟨rfl, rfl⟩ nofun
  | wait ticket =>
    dsimp only
    split
    · rename_i hserved
      exact ⟨⟨turn, hq.enter hpc hserved hfew⟩, hd.frame rfl (hkeep _ rfl) nofun (.inl rfl) nofun⟩
    · exact hinv
  | exclude =>
    exact ⟨⟨turn, hq.frame rfl rfl rfl rfl rfl (by simp [hpc]) rfl (by simp [hpc])
      (by simp [hpc])⟩,
      hd.advance rfl rfl rfl (by simp [hpc]) rfl (by simp) nofun⟩
  | drain i =>
    have hset := hd.excluding p (by simp [hpc])
    dsimp only
    split
    · rename_i hi
      split
      · exact hinv
      · rename_i hclear
        refine ⟨⟨turn, hq.frame rfl rfl rfl rfl rfl (by simp [hpc]) rfl (by simp [hpc])
          (by simp [hpc])⟩, hd.advance rfl rfl hset (by simp [hpc]) rfl ?_ nofun⟩
        intro j hj q hlt hread
        obtain rfl : i + 1 = j := by simpa using hj
        obtain hlt | heq := Nat.lt_succ_iff_lt_or_eq.mp hlt
        · exact hd.drain p i hpc q hlt hread
        · obtain rfl : q = ⟨i, hi⟩ := Fin.ext heq
          simp [hd.flags, hread] at hclear
    · rename_i hi
      exact ⟨⟨turn, hq.grant hpc⟩, hd.advance rfl rfl hset (by simp [hpc]) rfl nofun
        fun _ q => hd.drain p i hpc q (by omega)⟩
  | writing =>
    refine ⟨⟨turn, hq.frame rfl rfl rfl rfl rfl (by simp [hpc]) rfl (by simp [hpc])
      (by simp [hpc])⟩, hd.frame rfl (hkeep _ rfl) nofun (.inr fun q hne hex => hne ?_) nofun⟩
    refine hq.alone ?_ (by simp [hpc])
    cases hpc : s.pcs q <;> simp_all
  | release =>
    exact ⟨⟨turn + 1, hq.hand hpc⟩, hd.frame rfl (hkeep _ rfl) nofun (.inl rfl) nofun⟩

theorem inv_of_reachable {s : State n}
    (h : ((lock n).within fun s _ => s.waiting < 2 ^ 32).Reachable s) : Inv s := by
  refine h.invariant ?_ ?_
  · rintro s rfl
    refine ⟨⟨0, ?_⟩, ?_⟩ <;> constructor <;> simp [State.new]
  · rintro s ⟨p, ask⟩ s' hs ⟨hfew, rfl⟩
    exact hs.step p ask hfew

/-- **In every run with fewer than `2 ^ 32` writers waiting, a write guard is held alone, write
guards are given in the order of the tickets, and the flag of a processor is set only while it
has, or is after, a shared hold.** -/
theorem excludes {s : State n} (h : ((lock n).within fun s _ => s.waiting < 2 ^ 32).Reachable s) :
    (∀ p q, s.pcs p = .writing → s.pcs q ≠ .reading ∧ (s.pcs q = .writing → p = q)) ∧
      s.granted <+: s.drawn ∧ ∀ p, s.readers p = true → (s.pcs p).shared := by
  obtain ⟨⟨turn, hq⟩, hd⟩ := inv_of_reachable h
  refine ⟨?_, ?_, ?_⟩
  · intro p q hp
    refine ⟨hd.writing p hp q, fun hw => hq.alone ?_ ?_⟩
    · simp [hp]
    · simp [hw]
  · by_cases hany : ∃ p, (s.pcs p).entered
    · obtain ⟨p, hp⟩ := hany
      exact hq.granted p hp ▸ take_prefix _ _
    · exact hq.ungranted (not_exists.mp hany) ▸ take_prefix _ _
  · intro p hp
    rw [hd.flags p] at hp
    cases hpc : s.pcs p <;> simp_all

/-- One processor waits to write, and another has begun to read. -/
theorem excludes_two : (((State.new 2).step 0 .write).step 1 .read).granted <+:
    (((State.new 2).step 0 .write).step 1 .read).drawn :=
  (excludes (.step (a := (1, .read)) (.step (a := (0, .write)) (.init rfl) ⟨by decide, rfl⟩)
    ⟨by decide, rfl⟩)).2.1

/-! ### Progress -/

/-- **`excluding` is set by a writer that is still there.** -/
theorem step_excluding {s : State n} (h : s.excluding = true → ∃ q, (s.pcs q).excludes)
    (p : Fin n) (ask : Ask) :
    (s.step p ask).excluding = true → ∃ q, ((s.step p ask).pcs q).excludes := by
  have hkeep : ∀ s' : State n, s'.excluding = s.excluding → (∀ q, q ≠ p → s'.pcs q = s.pcs q) →
      (s.pcs p).excludes = false → s'.excluding = true → ∃ q, (s'.pcs q).excludes := by
    intro s' hsame hpcs hout hset
    obtain ⟨q, hq⟩ := h (hsame ▸ hset)
    refine ⟨q, ?_⟩
    rw [hpcs q fun heq => by rw [heq, hout] at hq; cases hq]
    exact hq
  have hmove : ∀ (pc : Pc) (q : Fin n), q ≠ p → update s.pcs p pc q = s.pcs q :=
    fun pc q hq => update_of_ne hq _ _
  unfold State.step
  cases hpc : s.pcs p with
  | idle => cases ask <;> exact hkeep _ rfl (hmove _) (by simp [hpc])
  | announce | check | withdraw | reading | release => exact hkeep _ rfl (hmove _) (by simp [hpc])
  | spin | wait =>
    dsimp only
    split <;> exact hkeep _ rfl (by first | exact fun _ _ => rfl | exact hmove _) (by simp [hpc])
  | exclude => exact fun _ => ⟨p, by simp [State.move]⟩
  | drain i =>
    dsimp only
    split
    · split
      · exact fun _ => ⟨p, by simp [hpc]⟩
      · exact fun _ => ⟨p, by simp [State.move]⟩
    · exact fun _ => ⟨p, by simp [State.move]⟩
  | writing => nofun

theorem stuck_cases {s : State n} {p : Fin n} {ask : Ask} (h : s.step p ask = s) :
    s.pcs p = .spin ∧ s.excluding = true ∨ (∃ ticket, s.pcs p = .wait ticket ∧ s.serving ≠ ticket) ∨
      ∃ i, s.pcs p = .drain i.val ∧ s.readers i = true := by
  have hmoved : ∀ {s' : State n} {pc : Pc}, s'.pcs = update s.pcs p pc → pc ≠ s.pcs p → s' ≠ s := by
    rintro s' pc hpcs hne rfl
    exact hne ((congrFun hpcs p).trans (update_self _ _ _)).symm
  unfold State.step at h
  cases hpc : s.pcs p with simp only [hpc] at h
  | idle => cases ask <;> exact absurd h (hmoved rfl (by simp [hpc]))
  | spin =>
    split at h
    · rename_i hset
      exact .inl ⟨rfl, hset⟩
    · exact absurd h (hmoved rfl (by simp [hpc]))
  | wait ticket =>
    split at h
    · exact absurd h (hmoved rfl (by simp [hpc]))
    · rename_i hserved
      exact .inr (.inl ⟨ticket, rfl, hserved⟩)
  | drain i =>
    split at h
    · rename_i hi
      split at h
      · rename_i hset
        exact .inr (.inr ⟨⟨i, hi⟩, rfl, hset⟩)
      · exact absurd h (hmoved rfl (by simp [hpc]))
    · exact absurd h (hmoved rfl (by simp [hpc]))
  | check => exact absurd h (hmoved rfl (by split <;> simp [hpc]))
  | _ => exact absurd h (hmoved rfl (by simp [hpc]))

/-- **The lock is never stuck**: in every run with fewer than `2 ^ 32` writers waiting, while some
processor is in `read` or in `write` or holds a guard, there is one of them whose next access
takes it on. -/
theorem never_stuck {s : State n} (h : ((lock n).within fun s _ => s.waiting < 2 ^ 32).Reachable s)
    (hbusy : ∃ p, s.pcs p ≠ .idle) : ∃ p, s.pcs p ≠ .idle ∧ ∀ ask, s.step p ask ≠ s := by
  obtain ⟨⟨turn, hq⟩, hd⟩ := inv_of_reachable h
  have hwriter : s.excluding = true → ∃ q, (s.pcs q).excludes :=
    h.invariant (I := fun s => s.excluding = true → ∃ q, (s.pcs q).excludes)
      (by rintro s rfl; nofun)
      (by rintro s ⟨p, ask⟩ s' hs ⟨-, rfl⟩; exact step_excluding hs p ask)
  by_contra hnone
  simp only [not_exists, not_and, not_forall, not_not] at hnone
  have hdrain : ∀ p i, s.pcs p = .drain i.val → s.readers i = false := by
    intro p i _
    by_contra hset
    have hflag : (s.pcs i).flagged = true := (hd.flags i).symm.trans (by simpa using hset)
    obtain ⟨ask, hsame⟩ := hnone i fun hidle => by simp [hidle] at hflag
    rcases stuck_cases hsame with ⟨hpc, -⟩ | ⟨_, hpc, -⟩ | ⟨_, hpc, -⟩ <;> simp [hpc] at hflag
  have hclear : s.excluding = false := by
    by_contra hset
    obtain ⟨q, hex⟩ := hwriter (by simpa using hset)
    obtain ⟨ask, hsame⟩ := hnone q fun hidle => by simp [hidle] at hex
    rcases stuck_cases hsame with ⟨hpc, -⟩ | ⟨_, hpc, -⟩ | ⟨i, hpc, hi⟩
    · simp [hpc] at hex
    · simp [hpc] at hex
    · simp [hdrain q i hpc] at hi
  have hwaits : ∀ p, s.pcs p ≠ .idle → ∃ ticket, s.pcs p = .wait ticket ∧ s.serving ≠ ticket := by
    intro p hp
    obtain ⟨ask, hsame⟩ := hnone p hp
    rcases stuck_cases hsame with ⟨-, hset⟩ | hwait | ⟨i, hpc, hi⟩
    · simp [hclear] at hset
    · exact hwait
    · simp [hdrain p i hpc] at hi
  -- The processor whose turn it is waits for the ticket that is served.
  obtain ⟨p, hp⟩ := hbusy
  obtain ⟨ticket, hwait, -⟩ := hwaits p hp
  obtain ⟨k, hk, hdrawn⟩ := hq.waits p (by simp [hwait])
  have hlt : turn < s.drawn.length := hk.trans_lt (List.getElem?_eq_some_iff.mp hdrawn).1
  obtain ⟨q, hnext⟩ : ∃ q, s.drawn[turn]? = some q := ⟨_, List.getElem?_eq_getElem hlt⟩
  rcases hq.held turn q le_rfl hnext with hturn | ⟨-, hinside⟩
  · obtain ⟨ticket', hwait', hserved⟩ := hwaits q fun hidle => by simp [hturn] at hidle
    exact hserved (hq.serving.trans (Pc.wait.inj (hturn.symm.trans hwait')))
  · obtain ⟨ticket', hwait', -⟩ := hwaits q fun hidle => by simp [hidle] at hinside
    simp [hwait'] at hinside

theorem never_stuck_two : ∃ p, ∀ ask,
    (((State.new 2).step 0 .write).step 1 .read).step p ask ≠
      ((State.new 2).step 0 .write).step 1 .read := by
  obtain ⟨p, -, hp⟩ := never_stuck (s := ((State.new 2).step 0 .write).step 1 .read)
    (.step (a := (1, .read)) (.step (a := (0, .write)) (.init rfl) ⟨by decide, rfl⟩)
      ⟨by decide, rfl⟩) ⟨0, by decide⟩
  exact ⟨p, hp⟩

end Thalyx.Kernel.BrLock
