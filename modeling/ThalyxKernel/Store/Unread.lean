/-
Recovery over a medium that cannot be read everywhere.

Every read recovery makes may be refused, and recovery folds a refusal into something
else: a superblock that could not be read is no superblock, a block the forward scan could
not read is the end of the log, and an object a closure could not load is an object that is
missing.  What follows from it is a different history, or a new store over the old one.

Here is which refused reads are harmless, and that a recovery all of whose refused reads
are harmless is refused or ends in the very state it would end in with every read answered.
A read is harmless if its block does not hold what is looked for, or if what it is folded
into is caught by the bound the superblock recorded.
-/
import ThalyxKernel.Store.Recovery

namespace Thalyx.K4

open Fallible Disk

variable {D C : Type} {fmt : Format D C}

/-! ### The same medium with every read answered -/

def Disk.readable (d : Disk D C) : Disk D C := { d with fails := fun _ _ => false }

def Store.readable (s : Store D C) : Store D C := { s with disk := s.disk.readable }

/-- What a block holds, whether or not it can be read. -/
def Store.blockAt (s : Store D C) (block : Nat) : Block D C := s.disk.device.read block

/-- A result with its state changed. -/
def mapState {ε σ α : Type} (f : σ → σ) : EStateM.Result ε σ α → EStateM.Result ε σ α
  | .ok a s => .ok a (f s)
  | .error e s => .error e (f s)

theorem Disk.read_eq_some {d : Disk D C} {m : Moment} {b : Nat} {x : Block D C}
    (h : d.read m b = some x) : x = d.device.read b ∧ d.readable.read m b = some x := by
  unfold Disk.read at h ⊢
  split at h
  · cases h
  · rename_i hreads
    have hdown : d.down = false := by
      cases hd : d.down with
      | false => rfl
      | true => simp [hd] at hreads
    refine ⟨(Option.some.inj h).symm, ?_⟩
    simpa [Disk.readable, hdown] using h

@[simp] theorem Disk.next_readable (d : Disk D C) :
    d.readable.next = (d.next.1, d.next.2.readable) := by
  unfold Disk.next Disk.readable
  dsimp only
  split
  · rfl
  · split <;> rfl

@[simp] theorem Disk.write_readable (d : Disk D C) (b : Nat) (x : Block D C) :
    d.readable.write b x = ((d.write b x).1, (d.write b x).2.readable) := by
  unfold Disk.write
  rw [next_readable]
  rcases d.next with ⟨outcome, d'⟩
  cases outcome <;> rfl

@[simp] theorem Disk.flush_readable (d : Disk D C) :
    d.readable.flush = (d.flush.1, d.flush.2.readable) := by
  unfold Disk.flush
  rw [next_readable]
  rcases d.next with ⟨outcome, d'⟩
  cases outcome <;> rfl

/-! ### Steps that do not read

Such a step does the same over the readable medium. -/

/-- A computation that makes no read. -/
def Blind {α : Type} (m : Engine D C α) : Prop := ∀ s, m s.readable = mapState Store.readable (m s)

namespace Blind

variable {α β : Type}

theorem pure (a : α) : Blind (pure a : Engine D C α) := fun _ => rfl

theorem throw (e : StoreStatus) : Blind (throw e : Engine D C α) := fun _ => rfl

theorem bind {x : Engine D C α} {f : α → Engine D C β} (hx : Blind x) (hf : ∀ a, Blind (f a)) :
    Blind (x >>= f) := by
  intro s
  have hxs := hx s
  cases h : x s with
  | ok a t =>
    rw [h] at hxs
    rw [bind_of_ok h, bind_of_ok hxs]
    exact hf a t
  | error e t =>
    rw [h] at hxs
    rw [bind_of_error h, bind_of_error hxs]
    rfl

theorem modify {f : Store D C → Store D C} (hf : ∀ s : Store D C, f s.readable = (f s).readable) :
    Blind (modify f : Engine D C PUnit) := by
  intro s
  rw [modify_run, modify_run, hf]
  rfl

theorem get {f : Store D C → Engine D C β} (hf : ∀ s, f s.readable = f s)
    (hb : ∀ s, Blind (f s)) : Blind (get >>= f) := by
  intro s
  rw [bind_of_ok (get_run s.readable), bind_of_ok (get_run s), hf]
  exact hb s s

protected theorem now : Blind (now : Engine D C Nat) := fun _ => rfl

protected theorem flush : Blind (flush : Engine D C Bool) := by
  intro s
  unfold K4.flush Store.readable
  rw [flush_readable]
  rfl

protected theorem append (payload : Payload D C) : Blind (append fmt payload) := by
  intro s
  unfold K4.append
  by_cases hfull : s.arenaStart + s.arenaBlocks ≤ s.nextBlock
  · rw [if_pos hfull, if_pos (by exact hfull)]
    rfl
  · rw [if_neg hfull, if_neg (by exact hfull)]
    have hw := s.disk.write_readable s.nextBlock (.record (s.frame payload))
    cases h : s.disk.write s.nextBlock (.record (s.frame payload)) with
    | mk landed disk =>
      rw [h] at hw
      cases landed with
      | false =>
        rw [show s.readable.disk.write s.readable.nextBlock
          (.record (s.readable.frame payload)) = (false, disk.readable) from hw]
        rfl
      | true =>
        rw [show s.readable.disk.write s.readable.nextBlock
          (.record (s.readable.frame payload)) = (true, disk.readable) from hw]
        rfl

protected theorem writeSuperblock (slot generation : Nat) :
    Blind (writeSuperblock slot generation : Engine D C Bool) := by
  intro s
  unfold K4.writeSuperblock
  have hw := s.disk.write_readable (absolute slot) (.superblock (s.superblock generation))
  cases h : s.disk.write (absolute slot) (.superblock (s.superblock generation)) with
  | mk landed disk =>
    rw [h] at hw
    rw [show s.readable.disk.write (absolute slot)
      (.superblock (s.readable.superblock generation)) = (landed, disk.readable) from hw]
    cases landed <;> rfl

protected theorem ensure (p : Prop) [Decidable p] (status : StoreStatus) :
    Blind (ensure p status : Engine D C Unit) := by
  unfold K4.ensure
  split
  · exact Blind.pure _
  · exact Blind.throw _

protected theorem orRefuse {step : Engine D C Bool} (h : Blind step) : Blind (orRefuse step) :=
  h.bind fun _ => Blind.ensure _ _

protected theorem writeCheckpoint (sourceArena : Nat) :
    Blind (writeCheckpoint fmt sourceArena) := by
  refine Blind.now.bind fun createdNs => Blind.get (fun _ => rfl) fun s => ?_
  split
  · exact Blind.pure false
  · refine Blind.bind (Blind.modify ?_) fun _ => (Blind.append _).bind fun digest => ?_
    · intro t
      rfl
    · cases digest with
      | none => exact Blind.pure false
      | some digest =>
        refine Blind.bind (Blind.modify ?_) fun _ => Blind.pure true
        intro t
        rfl

protected theorem format (seed : Nat) : Blind (format fmt seed) := by
  refine Blind.bind (Blind.modify ?_) fun _ =>
    Blind.bind (Blind.orRefuse (Blind.writeCheckpoint _)) fun _ =>
    Blind.bind (Blind.orRefuse Blind.flush) fun _ =>
    Blind.bind (Blind.modify ?_) fun _ =>
    Blind.bind (Blind.orRefuse (Blind.writeSuperblock _ _)) fun _ =>
    Blind.orRefuse Blind.flush
  · intro s
    rfl
  · intro s
    rfl

protected theorem loadCheckpoint (head : CheckpointRecord D) :
    Blind (loadCheckpoint head : Engine D C Unit) := by
  refine Blind.bind (Blind.modify ?_) fun _ => Blind.bind (Blind.ensure _ _) fun _ =>
    Blind.modify ?_
  · intro s
    rfl
  · intro s
    rfl

protected theorem resolvePending : Blind (resolvePending fmt) := by
  refine Blind.get (fun _ => rfl) fun s => ?_
  cases s.pending with
  | none => exact Blind.pure _
  | some pending =>
    refine Blind.bind Blind.now fun abortedNs => Blind.bind (Blind.append _) fun digest =>
      Blind.bind (Blind.ensure _ _) fun _ => Blind.bind (Blind.orRefuse Blind.flush) fun _ =>
      Blind.modify ?_
    intro t
    rfl

end Blind

/-! ### Harmless refusals -/

section Harmless

variable [DecidableEq D]

/-- The refused reads of superblocks do not change which superblock is gone on with, and a
medium taken for an unformatted one has been read. -/
def SuperblocksHarmless (s : Store D C) : Prop :=
  s.chosen = chooseSuperblock (s.blockAt (absolute superblockA)).parseSuperblock
      (s.blockAt (absolute superblockB)).parseSuperblock ∧
    (s.chosen = none → ∀ slot ∈ [superblockA, superblockB],
      (s.disk.read [s.scanned] (absolute slot)).isSome)

variable (fmt)

/-- The refused reads of a commit's closure do not change whether its objects are here. -/
def CommitHarmless (payload : Payload D C) (s : Store D C) : Prop :=
  ∀ record, payload = .commit record →
    s.dependable fmt [s.scanned] record.rootDigest
      = s.readable.dependable fmt [s.scanned] record.rootDigest

/-- The refused reads of a forward scan: each is of a block that does not hold the record
that comes next, or comes before the superblock's bound on what was durable. -/
def ScanHarmless (durableThrough : Nat) : Nat → Store D C → Prop
  | 0, _ => True
  | blocks + 1, s =>
    ∀ r, s.blockAt s.nextBlock = .record r → s.expects r = true →
      if s.disk.read [s.scanned] s.nextBlock = none then s.nextSequence - 1 < durableThrough
      else CommitHarmless fmt r.payload (s.pass fmt r) ∧
        ∀ t, replayRecord fmt r.payload s.nextBlock (s.pass fmt r) = .ok () t →
          ScanHarmless durableThrough blocks t

/-- The refused reads of a recovery that begins in `s`.  A refused read of the checkpoint
is always harmless: recovery is refused with it. -/
def RecoveryHarmless (s : Store D C) : Prop :=
  SuperblocksHarmless s ∧
    ∀ sb slot t, s.chosen = some (sb, slot) →
      openLog fmt sb (s.fromSuperblock sb slot) = .ok () t →
      ScanHarmless fmt sb.durableThrough (t.arenaBlocks - 1) t

/-! ### Scans none of whose reads is refused -/

variable {fmt}

theorem load_readable {s : Store D C} {m : Moment} (h : ∀ b, s.disk.fails m b = false)
    (entry : ObjectEntry D C) : s.readable.load fmt m entry = s.load fmt m entry := by
  have hread : s.readable.disk.read m = s.disk.read m := by
    funext b
    simp [Disk.read, Store.readable, Disk.readable, h b]
  unfold Store.load
  rw [hread]

theorem dependable_readable {s : Store D C} {m : Moment} (h : ∀ b, s.disk.fails m b = false)
    (root : D) : s.readable.dependable fmt m root = s.dependable fmt m root := by
  have hchildren : s.readable.children fmt m = s.children fmt m := by
    funext d
    unfold Store.children Store.named
    simp only [load_readable h]
    rfl
  unfold Store.dependable Store.closure
  rw [hchildren]
  rfl

variable {sb : Superblock D}

omit [DecidableEq D] in
theorem openLog_frame {s t : Store D C} (h : openLog fmt sb s = .ok () t) :
    t.disk = s.disk ∧ t.scanned = 1 := by
  obtain ⟨s0, s1, hget, h⟩ := bind_ok_iff.mp h
  obtain ⟨rfl, rfl⟩ := EStateM.Result.ok.inj hget
  cases hp : (s.disk.read [s.scanned] s.arenaStart).bind Block.parseRecord with
  | none =>
    simp only [hp] at h
    cases h
  | some r =>
    simp only [hp] at h
    cases hk : r.payload with
    | checkpoint head =>
      simp only [hk] at h
      obtain ⟨_, u, hensure, h⟩ := bind_ok_iff.mp h
      obtain ⟨-, rfl⟩ := ensure_ok hensure
      obtain ⟨_, v, hload, h⟩ := bind_ok_iff.mp h
      obtain ⟨-, rfl⟩ := EStateM.Result.ok.inj h
      obtain ⟨_, w, hset, hload⟩ := bind_ok_iff.mp hload
      obtain ⟨-, rfl⟩ := EStateM.Result.ok.inj hset
      obtain ⟨_, x, hensure, hload⟩ := bind_ok_iff.mp hload
      obtain ⟨-, rfl⟩ := ensure_ok hensure
      obtain ⟨-, rfl⟩ := EStateM.Result.ok.inj hload
      exact ⟨rfl, rfl⟩
    | object _ _ _ => simp only [hk] at h; cases h
    | prepare _ => simp only [hk] at h; cases h
    | commit _ => simp only [hk] at h; cases h
    | abort _ => simp only [hk] at h; cases h
    | outbox _ => simp only [hk] at h; cases h
    | malformed _ _ => simp only [hk] at h; cases h

variable {durableThrough : Nat}

theorem scanHarmless_of_reads : ∀ {blocks : Nat} {s : Store D C},
    s.disk.down = false → (∀ n b, 0 < n → s.disk.fails [n] b = false) → 0 < s.scanned →
    ScanHarmless fmt durableThrough blocks s := by
  intro blocks
  induction blocks with
  | zero =>
    intro s _ _ _
    exact trivial
  | succ blocks ih =>
    intro s hdown hreads hscanned r _ _
    have hread : s.disk.read [s.scanned] s.nextBlock ≠ none := by
      simp [Disk.read, hdown, hreads _ s.nextBlock hscanned]
    rw [if_neg hread]
    refine ⟨fun record _ => ?_, fun t ht => ?_⟩
    · exact (dependable_readable (fun b => hreads _ b (Nat.succ_pos _)) _).symm
    · obtain ⟨hdisk, hcount, -⟩ := replayRecord_frame fmt ht
      refine ih ?_ ?_ ?_
      · rw [hdisk]
        exact hdown
      · rw [hdisk]
        exact hreads
      · rw [hcount]
        exact Nat.succ_pos _

/-! ### What harmless refusals lead to -/

theorem adopt_readable (s : Store D C) (digest : D) (objectType length block : Nat) :
    s.readable.adopt digest objectType length block
      = (s.adopt digest objectType length block).readable := by
  unfold Store.adopt
  rw [apply_ite Store.readable, apply_ite Store.readable]
  rfl

theorem replayRecord_readable {payload : Payload D C} {block : Nat} {s : Store D C}
    (h : CommitHarmless fmt payload s) :
    replayRecord fmt payload block s.readable
      = mapState Store.readable (replayRecord fmt payload block s) := by
  cases payload with
  | object objectType contentDigest content =>
    unfold replayRecord
    dsimp only
    split
    · rfl
    · rw [adopt_readable]
      rfl
  | prepare record => rfl
  | commit record =>
    have hsame := h record rfl
    unfold replayRecord
    dsimp only
    cases hpending : s.pending with
    | none =>
      rw [show s.readable.pending = none from hpending]
      rfl
    | some pending =>
      rw [show s.readable.pending = some pending from hpending]
      dsimp only
      split
      · rfl
      · split
        · rfl
        · rw [show s.readable.scanned = s.scanned from rfl, ← hsame]
          split <;> rfl
  | abort record => rfl
  | outbox record => rfl
  | checkpoint head => rfl
  | malformed kind bytes => rfl

/-- **A scan whose refused reads are harmless ends where the superblock's bound catches it,
or does what it does over the readable medium.** -/
theorem scan_readable : ∀ {blocks : Nat} {s : Store D C},
    ScanHarmless fmt durableThrough blocks s →
    (∃ t, scan fmt blocks s = .ok () t ∧ t.nextSequence - 1 < durableThrough) ∨
      scan fmt blocks s.readable = mapState Store.readable (scan fmt blocks s) := by
  intro blocks
  induction blocks with
  | zero =>
    intro s _
    exact .inr rfl
  | succ blocks ih =>
    intro s h
    by_cases hnext : ∃ r, s.blockAt s.nextBlock = .record r ∧ s.expects r = true
    · obtain ⟨r, hblock, hexpects⟩ := hnext
      have hharmless := h r hblock hexpects
      cases hread : s.disk.read [s.scanned] s.nextBlock with
      | none =>
        rw [if_pos hread] at hharmless
        refine .inl ⟨s, scan_stop fmt ?_, hharmless⟩
        intro r' hr'
        rw [hread] at hr'
        cases hr'
      | some x =>
        rw [if_neg (by rw [hread]; simp)] at hharmless
        obtain ⟨hx, hread'⟩ := read_eq_some hread
        obtain rfl : x = .record r := hx.trans hblock
        obtain ⟨hcommit, hrest⟩ := hharmless
        have hrecord := @replayRecord_readable _ _ _ _ _ s.nextBlock _ hcommit
        rw [scan_record fmt hread hexpects,
          scan_record fmt (s := s.readable) hread' hexpects]
        rw [show replayRecord fmt r.payload s.readable.nextBlock (s.readable.pass fmt r) = _
          from hrecord]
        cases hr : replayRecord fmt r.payload s.nextBlock (s.pass fmt r) with
        | error e t => exact .inr rfl
        | ok u t => exact ih (hrest t hr)
    · -- the block does not hold the next record, so whether it can be read does not matter
      have hstop : ∀ r, s.blockAt s.nextBlock = .record r → s.expects r = false := by
        intro r hr
        cases he : s.expects r with
        | false => rfl
        | true => exact absurd ⟨r, hr, he⟩ hnext
      have hs : scan fmt (blocks + 1) s = .ok () s := by
        refine scan_stop fmt fun r hr => ?_
        obtain ⟨x, hread, hx⟩ := Option.bind_eq_some_iff.mp hr
        rw [(read_eq_some hread).1] at hx
        exact hstop r (Block.parseRecord_eq_some.mp hx)
      have hs' : scan fmt (blocks + 1) s.readable = .ok () s.readable := by
        refine scan_stop fmt fun r hr => ?_
        obtain ⟨x, hread, hx⟩ := Option.bind_eq_some_iff.mp hr
        rw [(read_eq_some hread).1] at hx
        exact hstop r (Block.parseRecord_eq_some.mp hx)
      rw [hs, hs']
      exact .inr rfl

omit [DecidableEq D] in
theorem openLog_readable {s t : Store D C}
    (h : openLog fmt sb s = .ok () t) : openLog fmt sb s.readable = .ok () t.readable := by
  obtain ⟨s0, s1, hget, h⟩ := bind_ok_iff.mp h
  obtain ⟨rfl, rfl⟩ := EStateM.Result.ok.inj hget
  unfold openLog
  rw [bind_of_ok (get_run s.readable)]
  cases hread : s.disk.read [s.scanned] s.arenaStart with
  | none =>
    rw [hread] at h
    cases h
  | some x =>
    obtain ⟨-, hread'⟩ := read_eq_some hread
    have hread'' : s.readable.disk.read [s.readable.scanned] s.readable.arenaStart = some x :=
      hread'
    rw [hread] at h
    rw [hread'']
    cases hp : (some x).bind Block.parseRecord with
    | none =>
      simp only [hp] at h
      cases h
    | some r =>
      simp only [hp] at h ⊢
      cases hk : r.payload with
      | checkpoint head =>
        simp only [hk] at h ⊢
        -- what is left of the function makes no read
        have hblind : Blind (do
            ensure (r.opens sb = true) .integrityFailed
            loadCheckpoint head
            modify fun s => { s with
              nextSequence := r.sequence + 1
              nextBlock := s.arenaStart + 1
              prevDigest := fmt.recordDigest r
              scanned := 1 } : Engine D C Unit) := by
          refine Blind.bind (Blind.ensure _ _) fun _ =>
            Blind.bind (Blind.loadCheckpoint head) fun _ => Blind.modify ?_
          intro t
          rfl
        have hb := hblind s
        rw [h] at hb
        exact hb
      | object _ _ _ => simp only [hk] at h; cases h
      | prepare _ => simp only [hk] at h; cases h
      | commit _ => simp only [hk] at h; cases h
      | abort _ => simp only [hk] at h; cases h
      | outbox _ => simp only [hk] at h; cases h
      | malformed _ _ => simp only [hk] at h; cases h

theorem replay_readable {s t : Store D C} (hharmless : ∀ u, openLog fmt sb s = .ok () u →
      ScanHarmless fmt sb.durableThrough (u.arenaBlocks - 1) u)
    (h : replay fmt sb s = .ok () t) : replay fmt sb s.readable = .ok () t.readable := by
  obtain ⟨_, u, hopen, h⟩ := bind_ok_iff.mp h
  obtain ⟨_, _, hget, h⟩ := bind_ok_iff.mp h
  obtain ⟨rfl, rfl⟩ := EStateM.Result.ok.inj hget
  obtain ⟨_, v, hscan, h⟩ := bind_ok_iff.mp h
  obtain ⟨_, _, hget, h⟩ := bind_ok_iff.mp h
  obtain ⟨rfl, rfl⟩ := EStateM.Result.ok.inj hget
  obtain ⟨hbound, rfl⟩ := ensure_ok h
  unfold replay
  rw [bind_of_ok (openLog_readable hopen), bind_of_ok (get_run u.readable)]
  rcases scan_readable (hharmless u hopen) with ⟨w, hw, hshort⟩ | hsame
  · rw [hscan] at hw
    obtain ⟨-, rfl⟩ := EStateM.Result.ok.inj hw
    exact absurd hbound (Nat.not_le.mpr hshort)
  · rw [hscan] at hsame
    rw [show u.readable.arenaBlocks = u.arenaBlocks from rfl, bind_of_ok hsame,
      bind_of_ok (get_run v.readable), ensure, if_pos (by exact hbound)]
    rfl

/-! ### Recovery -/

/-- What a recovery ends with: the published version and the high-water marks. -/
def Store.standing (s : Store D C) : Nat × D × D × D × List (Nat × Nat) :=
  (s.publishedGeneration, s.publishedRoot, s.publishedPolicy, s.publishedReceipt,
    s.principals.map fun entry => (entry.principal, entry.highWater))

/-- A recovery from `s` formats the medium: it found no superblock to go on with. -/
def Store.formats (s : Store D C) : Prop := s.chosen = none

variable (fmt)

/-- Recovery does not take an unreadable block for the end of history: unless it is refused
it ends where it would with every read answered, and it formats only a medium whose two
superblock blocks it has read and found to hold none. -/
def UnreadIsNotEnd (s : Store D C) (seed : Nat) : Prop :=
  (∀ t, recover fmt seed s = .ok () t →
    (final (recover fmt seed s.readable)).standing = t.standing) ∧
  (s.formats → ∀ slot ∈ [superblockA, superblockB],
    (s.disk.read [s.scanned] (absolute slot)).isSome ∧
      (s.blockAt (absolute slot)).parseSuperblock = none)

variable {fmt}

omit [DecidableEq D] in
theorem readSuperblock_readable {s : Store D C} (hdown : s.disk.down = false) (slot : Nat) :
    s.readable.readSuperblock slot = (s.blockAt (absolute slot)).parseSuperblock := by
  unfold Store.readSuperblock Store.readable Store.blockAt Disk.read Disk.readable
  simp [hdown]

theorem bringUp_readable {slot seed : Nat} {s t : Store D C}
    (hharmless : ∀ u, openLog fmt sb (s.fromSuperblock sb slot) = .ok () u →
      ScanHarmless fmt sb.durableThrough (u.arenaBlocks - 1) u)
    (h : bringUp fmt seed (some (sb, slot)) s = .ok () t) :
    bringUp fmt seed (some (sb, slot)) s.readable = .ok () t.readable := by
  obtain ⟨_, u, hset, h⟩ := bind_ok_iff.mp h
  obtain ⟨-, rfl⟩ := EStateM.Result.ok.inj hset
  obtain ⟨_, v, hreplay, h⟩ := bind_ok_iff.mp h
  have hreplayed : replay fmt sb (s.fromSuperblock sb slot) = .ok () v := by
    unfold replayOrRefuse at hreplay
    split at hreplay
    · rename_i w hw
      obtain ⟨-, rfl⟩ := EStateM.Result.ok.inj hreplay
      exact hw
    · cases hreplay
  have hreplay' : replayOrRefuse fmt sb (s.readable.fromSuperblock sb slot)
      = .ok () v.readable := by
    have hr := replay_readable hharmless hreplayed
    unfold replayOrRefuse
    rw [show s.readable.fromSuperblock sb slot = (s.fromSuperblock sb slot).readable from rfl, hr]
  have hb := @Blind.resolvePending _ _ fmt v
  rw [h] at hb
  unfold bringUp
  dsimp only
  rw [bind_of_ok (modify_run _ _)]
  exact (bind_of_ok hreplay').trans hb

/-- **Recovery whose refused reads are all harmless does not take an unreadable block for the
end of history.** -/
theorem unread_is_not_end {device : Device (Block D C)} {fails : Moment → Nat → Bool}
    {outcomes : List IoOutcome} {clock : List Nat} {room seed : Nat}
    (h : RecoveryHarmless fmt (Store.new fmt (Disk.new device fails outcomes) clock room)) :
    UnreadIsNotEnd fmt (Store.new fmt (Disk.new device fails outcomes) clock room) seed := by
  generalize hs : Store.new fmt (Disk.new device fails outcomes) clock room = s at h ⊢
  have hdown : s.disk.down = false := by
    rw [← hs]
    rfl
  obtain ⟨⟨hchoice, hread⟩, hlog⟩ := h
  have hchosen : s.readable.chosen = s.chosen := by
    unfold Store.chosen
    rw [readSuperblock_readable hdown, readSuperblock_readable hdown]
    exact hchoice.symm
  refine ⟨fun t ht => ?_, fun hformats slot hslot => ⟨hread hformats slot hslot, ?_⟩⟩
  · obtain ⟨_, _, hget, ht⟩ := bind_ok_iff.mp ht
    obtain ⟨rfl, rfl⟩ := EStateM.Result.ok.inj hget
    obtain ⟨_, u, hup, ht⟩ := bind_ok_iff.mp ht
    obtain ⟨-, rfl⟩ := EStateM.Result.ok.inj ht
    have hsame : bringUp fmt seed s.chosen s.readable = .ok () u.readable := by
      cases hc : s.chosen with
      | none =>
        rw [hc] at hup
        have hb := @Blind.format _ _ fmt seed s
        rw [show format fmt seed s = .ok () u from hup] at hb
        exact hb
      | some chosen =>
        rw [hc] at hup
        exact bringUp_readable (fun v hv => hlog _ _ v hc hv) hup
    unfold recover
    rw [bind_of_ok (get_run s.readable), hchosen, bind_of_ok hsame]
    rfl
  · rw [Store.formats, hchoice] at hformats
    obtain ⟨ha, hb⟩ := chooseSuperblock_eq_none.mp hformats
    rcases List.mem_cons.mp hslot with rfl | hslot
    · exact ha
    · rw [List.mem_singleton.mp hslot]
      exact hb

end Harmless

/-! ### A log cut short by one unreadable block

A store whose log is its checkpoint and one request prepared and aborted, the superblock's
bound being the checkpoint.  The block of the preparation cannot be read. -/

section CutShort

/-- The superblock of a store that has never been compacted. -/
def firstSuperblock : Superblock Symbol where
  storeUuid := (0, 1)
  storeEpoch := 1
  superblockGeneration := 1
  activeArena := 0
  arena0Start := arena0StartBlock
  arena0Count := arenaBlockCount
  arena1Start := arena1StartBlock
  arena1Count := arenaBlockCount
  checkpointSequence := 1
  durableThrough := 1
  publishedGeneration := 0
  publishedRoot := .atom 0

/-- Its checkpoint. -/
def firstCheckpoint : Record Symbol (Content Symbol) where
  sequence := 1
  storeEpoch := 1
  arena := 0
  prevDigest := .atom 0
  payload := .checkpoint {
    publishedGeneration := 0
    publishedRoot := .atom 0
    publishedPolicy := .atom 0
    publishedReceipt := .atom 0
    createdNs := 0
    sourceArena := 0
    compactionGeneration := 0
    principals := []
    results := []
    retained := [] }

/-- The first request of principal one, prepared. -/
def firstPrepare : Record Symbol (Content Symbol) where
  sequence := 2
  storeEpoch := 1
  arena := 0
  prevDigest := symbolicFormat.recordDigest firstCheckpoint
  payload := .prepare {
    principal := 1
    requestSequence := 1
    requestDigest := .atom 0
    expectedGeneration := 0
    candidateRoot := .atom 0
    policyDigest := .atom 0
    validationDigest := .atom 0
    outboxTarget := 0
    outboxPayload := .atom 0
    admittedNs := 0
    invocationId := 0 }

/-- The same request, aborted by a recovery. -/
def firstAbort : Record Symbol (Content Symbol) where
  sequence := 3
  storeEpoch := 1
  arena := 0
  prevDigest := symbolicFormat.recordDigest firstPrepare
  payload := .abort {
    prepareSequence := 2
    prepareDigest := symbolicFormat.recordDigest firstPrepare
    reason := .recoveredUnresolved
    principal := 1
    requestSequence := 1
    abortedNs := 0 }

def cutShortDevice : Device (Block Symbol (Content Symbol)) := fun block =>
  .settled (
    if block = 64 then .superblock firstSuperblock
    else if block = 66 then .record firstCheckpoint
    else if block = 67 then .record firstPrepare
    else if block = 68 then .record firstAbort
    else .other)

def cutShort : Store Symbol (Content Symbol) :=
  .new symbolicFormat (.new cutShortDevice (fun _ block => block == 67) []) [] 16

/-- The high-water marks a recovery ends with. -/
def marksAfter (s : Store Symbol (Content Symbol)) : List (Nat × Nat) :=
  (final (recover symbolicFormat 0 s)).standing.2.2.2.2

/-- With the block of the preparation unreadable, recovery takes the log to end at the
checkpoint and forgets that the request was ever resolved. -/
theorem unread_preparation_forgotten : ¬ UnreadIsNotEnd symbolicFormat cutShort 0 := by
  rintro ⟨hsame, -⟩
  have hmarks : marksAfter cutShort.readable = marksAfter cutShort := by
    unfold marksAfter
    rw [hsame _ rfl]
    rfl
  have hdiffer : marksAfter cutShort.readable ≠ marksAfter cutShort := by decide
  exact hdiffer hmarks

/-- A second superblock block that cannot be read is harmless where it holds none. -/
theorem unread_empty_superblock : UnreadIsNotEnd symbolicFormat (.new symbolicFormat
      (.new cutShortDevice (fun m block => decide (m = [0]) && block == 65) []) [] 16) 0 := by
  refine unread_is_not_end ⟨⟨by decide, fun h => absurd h (by decide)⟩, ?_⟩
  intro sb slot t _ hopen
  obtain ⟨hdisk, hscanned⟩ := openLog_frame hopen
  refine scanHarmless_of_reads ?_ ?_ ?_
  · rw [hdisk]
    rfl
  · intro n b hn
    rw [hdisk]
    simp [Store.fromSuperblock, Store.new, Disk.new, Nat.ne_of_gt hn]
  · rw [hscanned]
    exact Nat.one_pos

end CutShort

end Thalyx.K4
