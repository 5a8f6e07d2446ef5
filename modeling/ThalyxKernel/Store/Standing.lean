/-
A store that stands on its log.

The memory of a running store says where its log is, and which superblock names it.  Here
is what holds of the two together between the steps of an operation: the log lies in the
arena the store is in, its older part is settled, the newest superblock names it, and the
index holds for durable exactly the objects the log holds.  A record the rules allow may be
added at the end of it, and a flush settles all of it.
-/
import ThalyxKernel.Store.Replay
import ThalyxKernel.Store.Index
import ThalyxKernel.Store.Tables

namespace Thalyx.K4

open Fallible List Device

variable {D C : Type} {fmt : Format D C} [DecidableEq D]

/-! ### The log in memory -/

omit [DecidableEq D] in
/-- A ledger whose tables are the store's. -/
structure Ledger.Sized (l : Ledger D) : Prop where
  principals : Orderly l.principals
  results : l.results.length ≤ maxResults
  pending : ∀ pending, l.pending = some pending → pending.principal ≠ 0

omit [DecidableEq D] in
/-- The tables are no longer than the store has room for. -/
structure Store.Sized (s : Store D C) : Prop where
  ledger : s.ledger.Sized
  retained : s.retained.length ≤ maxRetained

/-- The index holds for durable exactly the objects of a history, each in a block of the
arena that starts there. -/
structure Indexes (fmt : Format D C) (start : Nat) (objects : List (ObjectEntry D C))
    (h : List (Record D C)) : Prop where
  wellFormed : ∀ entry ∈ objects, entry.WellFormed fmt
  nodup : (objects.map ObjectEntry.digest).Nodup
  room : objects.length ≤ maxObjects
  small : ∀ entry ∈ objects, entry.length ≤ objectMax
  durable : ∀ digest, (∃ entry ∈ objects, entry.digest = digest ∧ entry.durable = true) ↔
    digest ∈ objectDigests h
  housed : ∀ entry ∈ objects, entry.durable = true →
    start ≤ entry.block ∧ entry.block < start + arenaBlockCount

/-- The newest superblock is the one the memory says, and names a history. -/
structure Anchored (s : Store D C) (h : List (Record D C)) (sb : Superblock D) : Prop where
  held : s.disk.device.Holds (absolute s.superblockSlot) (.superblock sb)
  generation : sb.superblockGeneration = s.superblockGeneration
  arena : sb.activeArena = s.arena
  checkpointSequence : sb.checkpointSequence = s.checkpointSequence
  storeEpoch : sb.storeEpoch = s.storeEpoch
  opens : Opens sb h
  newest : ∀ sb',
    .superblock sb' ∈ (s.disk.device (absolute (otherSlot s.superblockSlot))).possible →
      sb'.superblockGeneration < sb.superblockGeneration

/-- **The memory and the medium of a running store**: `hf` is the part of its log that is
settled, and `h` is all of it. -/
structure Standing (fmt : Format D C) (rules : Rules D) (P : Ledger D → Prop) (s : Store D C)
    (hf h : List (Record D C)) : Prop where
  sound : Sound fmt rules s.disk.device
  labelled : Labelled s.disk.device
  either : s.superblockSlot = superblockA ∨ s.superblockSlot = superblockB
  anchor : ∃ sb, Anchored s hf sb
  arenaStart : s.arenaStart = arenaBase s.arena
  arenaBlocks : s.arenaBlocks = arenaBlockCount
  settled : Settled s.disk.device s.arenaStart hf
  tidy : rules.tidy → Tidy fmt s.disk.device hf
  holds : P (ledger fmt hf)
  chain : Chain fmt rules h
  suffix : hf <:+ h
  placed : Placed s.disk.device s.arenaStart h
  bounded : h.length ≤ arenaBlockCount
  last : ∀ r ∈ h.head?, s.nextSequence = r.sequence + 1 ∧ s.storeEpoch = r.storeEpoch ∧
    s.arena = r.arena

/-- The store appends at the end of its log. -/
structure AtEnd (fmt : Format D C) (s : Store D C) (h : List (Record D C)) : Prop where
  nextBlock : s.nextBlock = s.arenaStart + h.length
  prevDigest : s.nextBlock < s.arenaStart + s.arenaBlocks →
    ∀ r ∈ h.head?, s.prevDigest = fmt.recordDigest r

/-- Two states of one log. -/
structure SameLog (s t : Store D C) : Prop where
  device : t.disk.device = s.disk.device
  storeEpoch : t.storeEpoch = s.storeEpoch
  superblockGeneration : t.superblockGeneration = s.superblockGeneration
  superblockSlot : t.superblockSlot = s.superblockSlot
  arena : t.arena = s.arena
  arenaStart : t.arenaStart = s.arenaStart
  arenaBlocks : t.arenaBlocks = s.arenaBlocks
  nextBlock : t.nextBlock = s.nextBlock
  nextSequence : t.nextSequence = s.nextSequence
  prevDigest : t.prevDigest = s.prevDigest
  checkpointSequence : t.checkpointSequence = s.checkpointSequence

variable {rules : Rules D} {P : Ledger D → Prop} {s t : Store D C} {hf h : List (Record D C)}

omit [DecidableEq D] in
theorem SameLog.refl (s : Store D C) : SameLog s s :=
  ⟨rfl, rfl, rfl, rfl, rfl, rfl, rfl, rfl, rfl, rfl, rfl⟩

theorem Standing.ne_nil (hs : Standing fmt rules P s hf h) : hf ≠ [] := by
  obtain ⟨sb, hsb⟩ := hs.anchor
  exact hsb.opens.ne_nil

theorem Standing.of_same (hs : Standing fmt rules P s hf h) (hl : SameLog s t) :
    Standing fmt rules P t hf h := by
  obtain ⟨sb, hsb⟩ := hs.anchor
  obtain ⟨hdevice, hepoch, hgeneration, hslot, harena, hstart, hblocks, -, hsequence, -,
    hcheckpoint⟩ := hl
  refine ⟨hdevice ▸ hs.sound, hdevice ▸ hs.labelled, hslot ▸ hs.either, ⟨sb, ?_⟩, ?_,
    hblocks.trans hs.arenaBlocks, hdevice ▸ hstart ▸ hs.settled, hdevice ▸ hs.tidy, hs.holds,
    hs.chain, hs.suffix, hdevice ▸ hstart ▸ hs.placed, hs.bounded, ?_⟩
  · exact ⟨hdevice ▸ hslot ▸ hsb.held, hsb.generation.trans hgeneration.symm,
      hsb.arena.trans harena.symm, hsb.checkpointSequence.trans hcheckpoint.symm,
      hsb.storeEpoch.trans hepoch.symm, hsb.opens, hdevice ▸ hslot ▸ hsb.newest⟩
  · rw [hstart, harena]
    exact hs.arenaStart
  · rw [hsequence, hepoch, harena]
    exact hs.last

omit [DecidableEq D] in
theorem AtEnd.of_same (he : AtEnd fmt s h) (hl : SameLog s t) : AtEnd fmt t h := by
  refine ⟨?_, ?_⟩
  · rw [hl.nextBlock, hl.arenaStart]
    exact he.nextBlock
  · rw [hl.nextBlock, hl.arenaStart, hl.arenaBlocks, hl.prevDigest]
    exact he.prevDigest

/-! ### What recovery would find -/

/-- A property of ledgers that a chain keeps as it grows. -/
def Stable (fmt : Format D C) (rules : Rules D) (P : Ledger D → Prop) : Prop :=
  ∀ r h, h ≠ [] → Chain fmt rules (r :: h) → P (ledger fmt h) → P (ledger fmt (r :: h))

theorem Stable.extend (hp : Stable fmt rules P) (hc : Chain fmt rules h) (hs : hf <:+ h)
    (hne : hf ≠ []) (h0 : P (ledger fmt hf)) : P (ledger fmt h) := by
  obtain ⟨more, rfl⟩ := hs
  induction more with
  | nil => exact h0
  | cons r more ih =>
    have hrest : more ++ hf ≠ [] := by simp [hne]
    obtain ⟨p, below, heq⟩ := exists_cons_of_ne_nil hrest
    rw [cons_append, heq] at hc ⊢
    exact hp r _ (by simp) hc (heq ▸ ih (heq ▸ hc.tail))

theorem Chain.suffix (hc : Chain fmt rules h) (hs : hf <:+ h) (hne : hf ≠ []) :
    Chain fmt rules hf := by
  obtain ⟨more, rfl⟩ := hs
  induction more with
  | nil => exact hc
  | cons r more ih =>
    have hrest : more ++ hf ≠ [] := by simp [hne]
    obtain ⟨p, below, heq⟩ := exists_cons_of_ne_nil hrest
    rw [cons_append, heq] at hc
    exact ih (heq ▸ hc.tail)

/-- **The medium of a running store is one recovery can go on from.** -/
theorem Standing.medium (hs : Standing fmt rules P s hf h) : Medium fmt rules P s.disk.device := by
  obtain ⟨sb, hsb⟩ := hs.anchor
  have hstandard : sb.Standard := hs.labelled _ _ (hsb.held.read_eq ▸ read_mem_possible)
  refine ⟨hs.sound, hs.labelled, .inl ⟨s.superblockSlot, sb, hf, hs.either, hsb.held, ?_,
    fun sb' hsb' => .inl (hsb.newest sb' hsb')⟩⟩
  refine ⟨?_, hsb.opens, hs.chain.suffix hs.suffix hs.ne_nil,
    Nat.le_trans hs.suffix.length_le hs.bounded, hs.tidy, hs.holds⟩
  rw [hstandard.start_eq, hsb.arena, ← hs.arenaStart]
  exact hs.settled

/-! ### Writes and flushes -/

omit [DecidableEq D] in
theorem Disk.write_cases (d : Disk D C) (block : Nat) (x : Block D C) :
    ((d.write block x).2.device = d.device ∧ (d.write block x).1 = false) ∨
      (d.down = false ∧
        (((d.write block x).2.device = d.device.write .other block .other ∧
            (d.write block x).1 = false) ∨
          (d.write block x).2.device = d.device.write .other block x)) := by
  unfold Disk.write Disk.next
  by_cases hd : d.down
  · simp [hd]
  · cases ho : d.outcomes with
    | nil => simp [hd]
    | cons outcome rest =>
      cases outcome with
      | ok => simp [hd]
      | stop => simp [hd]
      | failed landed unreachable => cases landed <;> simp [hd]

omit [DecidableEq D] in
theorem Disk.flush_cases (d : Disk D C) :
    (d.flush.1 = true ∧ d.flush.2.device = d.device.flush) ∨
      (d.flush.1 = false ∧ d.flush.2.device = d.device) := by
  unfold Disk.flush Disk.next
  by_cases hd : d.down
  · simp [hd]
  · cases ho : d.outcomes with
    | nil => simp [hd]
    | cons outcome rest =>
      cases outcome with
      | ok => simp [hd]
      | stop => simp [hd]
      | failed landed unreachable => simp [hd]

theorem arenaBase_ge (arena : Nat) : absolute superblockB < arenaBase arena := by
  unfold arenaBase absolute arena0StartBlock arena1StartBlock superblockB storeBaseBlock
  split <;> omega

theorem absolute_slot_le {slot : Nat} (h : slot = superblockA ∨ slot = superblockB) :
    absolute slot ≤ absolute superblockB := by
  rcases h with rfl | rfl
  · decide
  · exact Nat.le_refl _

theorem otherSlot_either (slot : Nat) :
    otherSlot slot = superblockA ∨ otherSlot slot = superblockB := by
  unfold otherSlot
  split
  · exact .inr rfl
  · exact .inl rfl

variable {block : Nat} {d disk : Disk D C}

theorem Standing.write {x : Block D C} (hs : Standing fmt rules P s hf h)
    (hblock : block < s.arenaStart ∨ s.arenaStart + h.length ≤ block)
    (hslots : absolute superblockB < block)
    (hx : ∀ r, x = .record r → r.Proper fmt rules) (hsb : ∀ sb, x ≠ .superblock sb)
    (htidy : rules.tidy → Tidy fmt (s.disk.device.write .other block x) hf)
    (hdisk : disk.device = s.disk.device.write .other block x) :
    Standing fmt rules P { s with disk } hf h := by
  obtain ⟨sb, ha⟩ := hs.anchor
  have hlen := hs.suffix.length_le
  have hslot := absolute_slot_le hs.either
  have hother := absolute_slot_le (otherSlot_either s.superblockSlot)
  refine ⟨?_, ?_, hs.either, ⟨sb, ?_⟩, hs.arenaStart, hs.arenaBlocks, ?_, ?_, hs.holds, hs.chain,
    hs.suffix, ?_, hs.bounded, hs.last⟩
  · rw [hdisk]
    exact hs.sound.write hx
  · rw [hdisk]
    exact hs.labelled.write fun sb' h' => absurd h' (hsb sb')
  · refine { ha with held := ?_, newest := ?_ }
    · dsimp only
      rw [hdisk]
      exact ha.held.write_of_ne (by omega)
    · dsimp only
      rw [hdisk, write_of_ne (by omega)]
      exact ha.newest
  · rw [hdisk]
    exact hs.settled.write (by omega)
  · rw [hdisk]
    exact htidy
  · rw [hdisk]
    exact hs.placed.write hblock

/-! ### A record at the end of the log -/

/-- The state past a record that was written. -/
def Store.appended (fmt : Format D C) (s : Store D C) (payload : Payload D C) : Store D C :=
  { s with
    disk := (s.disk.write s.nextBlock (.record (s.frame payload))).2
    nextBlock := s.nextBlock + 1
    nextSequence := s.nextSequence + 1
    prevDigest := fmt.recordDigest (s.frame payload) }

/-- The state after a write that was refused. -/
def Store.refusedWrite (s : Store D C) (payload : Payload D C) : Store D C :=
  { s with disk := (s.disk.write s.nextBlock (.record (s.frame payload))).2 }

omit [DecidableEq D] in
theorem append_run (payload : Payload D C) (s : Store D C) :
    (s.arenaStart + s.arenaBlocks ≤ s.nextBlock ∧ append fmt payload s = .ok none s) ∨
      (s.nextBlock < s.arenaStart + s.arenaBlocks ∧
        (s.disk.write s.nextBlock (.record (s.frame payload))).1 = false ∧
        append fmt payload s = .ok none (s.refusedWrite payload)) ∨
      (s.nextBlock < s.arenaStart + s.arenaBlocks ∧
        (s.disk.write s.nextBlock (.record (s.frame payload))).1 = true ∧
        append fmt payload s
          = .ok (some (fmt.recordDigest (s.frame payload))) (s.appended fmt payload)) := by
  unfold append Store.refusedWrite Store.appended
  by_cases hfull : s.arenaStart + s.arenaBlocks ≤ s.nextBlock
  · exact .inl ⟨hfull, if_pos hfull⟩
  · rw [if_neg hfull]
    rcases hw : s.disk.write s.nextBlock (.record (s.frame payload)) with ⟨landed, disk⟩
    cases landed with
    | false => exact .inr (.inl ⟨Nat.not_le.mp hfull, rfl, rfl⟩)
    | true => exact .inr (.inr ⟨Nat.not_le.mp hfull, rfl, rfl⟩)

omit [DecidableEq D] in
/-- No write or flush of this disk fails, short of a power loss. -/
def Disk.Sure (d : Disk D C) : Prop := ∀ outcome ∈ d.outcomes, outcome = .ok ∨ outcome = .stop

omit [DecidableEq D] in
theorem Disk.Sure.next (hs : d.Sure) :
    d.next.2.Sure ∧ (d.next.1 = .ok ∨ (d.next.1 = .stop ∧ d.next.2.down = true)) := by
  unfold Disk.next
  by_cases hd : d.down
  · simp only [hd, if_true]
    exact ⟨hs, .inr ⟨trivial, trivial⟩⟩
  · simp only [hd]
    cases ho : d.outcomes with
    | nil => exact ⟨hs, .inl rfl⟩
    | cons outcome rest =>
      have hrest : ∀ o ∈ rest, o = .ok ∨ o = .stop := fun o hmem =>
        hs o (ho ▸ mem_cons_of_mem _ hmem)
      rcases hs outcome (ho ▸ mem_cons_self) with rfl | rfl
      · exact ⟨hrest, .inl rfl⟩
      · exact ⟨hrest, .inr ⟨rfl, rfl⟩⟩

omit [DecidableEq D] in
theorem Disk.Sure.write (hs : d.Sure) (block : Nat) (x : Block D C) :
    (d.write block x).2.Sure ∧ ((d.write block x).1 = false → (d.write block x).2.down = true) := by
  have hn := hs.next
  unfold Disk.write
  rcases hnext : d.next with ⟨outcome, d'⟩
  rw [hnext] at hn
  rcases hn with ⟨hsure, rfl | ⟨rfl, hdown⟩⟩
  · exact ⟨hsure, fun h => by cases h⟩
  · exact ⟨hsure, fun _ => hdown⟩

omit [DecidableEq D] in
theorem Disk.Sure.flush (hs : d.Sure) :
    d.flush.2.Sure ∧ (d.flush.1 = false → d.flush.2.down = true) := by
  have hn := hs.next
  unfold Disk.flush
  rcases hnext : d.next with ⟨outcome, d'⟩
  rw [hnext] at hn
  rcases hn with ⟨hsure, rfl | ⟨rfl, hdown⟩⟩
  · exact ⟨hsure, fun h => by cases h⟩
  · exact ⟨hsure, fun _ => hdown⟩

/-- Where the rules keep the log tidy, no write fails and nothing but objects is left
unflushed, unless the power is gone. -/
structure Neat (rules : Rules D) (s : Store D C) (hf h : List (Record D C)) : Prop where
  sure : rules.tidy → s.disk.Sure
  loose : rules.tidy → s.disk.down = false → ∀ top, h = top ++ hf → ∀ x ∈ top, x.IsObject

/-- A store that stands at the end of its log. -/
structure Ready (fmt : Format D C) (rules : Rules D) (P : Ledger D → Prop) (s : Store D C)
    (hf h : List (Record D C)) : Prop where
  standing : Standing fmt rules P s hf h
  atEnd : AtEnd fmt s h
  neat : Neat rules s hf h

theorem Standing.past_slots (hs : Standing fmt rules P s hf h) (he : AtEnd fmt s h) :
    absolute superblockB < s.nextBlock := by
  have := arenaBase_ge s.arena
  rw [he.nextBlock, hs.arenaStart]
  omega

variable {payload : Payload D C}

theorem Standing.frame_follows {p : Record D C}
    (hs : Standing fmt rules P s hf (p :: h)) (he : AtEnd fmt s (p :: h))
    (hroom : s.nextBlock < s.arenaStart + s.arenaBlocks)
    (hinner : ∀ head, payload ≠ .checkpoint head) : Follows fmt (s.frame payload) p :=
  ⟨he.prevDigest hroom p rfl, (hs.last p rfl).1, (hs.last p rfl).2.1, (hs.last p rfl).2.2, hinner⟩

variable {r : Record D C}

theorem Admissible.inner (ha : Admissible fmt rules h r)
    (head : CheckpointRecord D) : r.payload ≠ .checkpoint head := by
  intro hp
  unfold Admissible at ha
  rw [hp] at ha
  exact ha

theorem Standing.frame_chain (hs : Standing fmt rules P s hf h)
    (he : AtEnd fmt s h) (hroom : s.nextBlock < s.arenaStart + s.arenaBlocks)
    (hadm : Admissible fmt rules h (s.frame payload)) : Chain fmt rules (s.frame payload :: h) := by
  obtain ⟨p, below, rfl⟩ : ∃ p below, h = p :: below :=
    exists_cons_of_ne_nil hs.chain.ne_nil
  exact .next hs.chain (hs.frame_follows he hroom hadm.inner) hadm

theorem Chain.proper (hc : Chain fmt rules (r :: h))
    (hinner : ∀ head, r.payload ≠ .checkpoint head) : r.Proper fmt rules :=
  ⟨fun _ hh => hh.unique hc.history ▸ hc, fun head hp => absurd hp (hinner head)⟩

theorem Tidy.append {d : Device (Block D C)}
    (ht : Tidy fmt d hf) (hc : Chain fmt rules (r :: h)) (hs : hf <:+ h) (hne : hf ≠ [])
    (hloose : ∀ top, h = top ++ hf → ∀ x ∈ top, x.IsObject) :
    Tidy fmt (d.write .other block (.record r)) hf := by
  refine ⟨fun b r' top hr hh => ?_, fun b r' below first opening hr hh hfirst hopening => ?_⟩
  · rcases mem_possible_write hr with ⟨-, heq⟩ | hother | hold
    · cases heq
      exact hloose top (hh.unique hc.history).symm
    · cases hother
    · exact ht.beyond b r' top hold hh
  · rcases mem_possible_write hr with ⟨-, heq⟩ | hother | hold
    · cases heq
      refine .inl ?_
      rw [hh.unique hc.history] at hfirst
      obtain ⟨more, rfl⟩ := hs
      rw [← cons_append, getLast?_append_of_ne_nil _ hne, hopening] at hfirst
      exact (Option.some.inj hfirst).symm
    · cases hother
    · exact ht.elsewhere b r' below first opening hold hh hfirst hopening

omit [DecidableEq D] in
theorem Tidy.torn {d : Device (Block D C)} (ht : Tidy fmt d hf) :
    Tidy fmt (d.write .other block .other) hf := by
  refine ht.of_possible fun b r hr => ?_
  rcases mem_possible_write hr with ⟨-, heq⟩ | hother | hold
  · cases heq
  · cases hother
  · exact hold

theorem Ready.written (hr : Ready fmt rules P s hf h)
    (hroom : s.nextBlock < s.arenaStart + s.arenaBlocks)
    (hadm : Admissible fmt rules h (s.frame payload)) (hup : s.disk.down = false)
    (hdisk : disk.device
      = s.disk.device.write .other s.nextBlock (.record (s.frame payload))) :
    Standing fmt rules P { s with disk } hf h := by
  obtain ⟨hs, he, hneat⟩ := hr
  have hchain := hs.frame_chain he hroom hadm
  refine hs.write (.inr (Nat.le_of_eq he.nextBlock.symm)) (hs.past_slots he) ?_
    (fun sb h => by cases h) ?_ hdisk
  · intro r hr
    cases hr
    exact hchain.proper hadm.inner
  · intro ht
    exact (hs.tidy ht).append hchain hs.suffix hs.ne_nil (hneat.loose ht hup)

theorem Ready.after_write (hr : Ready fmt rules P s hf h)
    (hroom : s.nextBlock < s.arenaStart + s.arenaBlocks)
    (hadm : Admissible fmt rules h (s.frame payload)) :
    Standing fmt rules P
      { s with disk := (s.disk.write s.nextBlock (.record (s.frame payload))).2 } hf h := by
  rcases s.disk.write_cases s.nextBlock (.record (s.frame payload)) with
    ⟨hsame, -⟩ | ⟨hup, ⟨htorn, -⟩ | hwhole⟩
  · exact hr.standing.of_same ⟨hsame, rfl, rfl, rfl, rfl, rfl, rfl, rfl, rfl, rfl, rfl⟩
  · refine hr.standing.write (.inr (Nat.le_of_eq hr.atEnd.nextBlock.symm))
      (hr.standing.past_slots hr.atEnd) (fun r h => by cases h) (fun sb h => by cases h)
      (fun ht => (hr.standing.tidy ht).torn) htorn
  · exact hr.written hroom hadm hup hwhole

/-- **What `append` does to a store that is ready**: it leaves it ready, or makes its log one
record longer. -/
theorem Ready.append (hr : Ready fmt rules P s hf h) (payload : Payload D C)
    (hadm : Admissible fmt rules h (s.frame payload)) :
    (∃ disk, append fmt payload s = .ok none { s with disk } ∧
        Ready fmt rules P { s with disk } hf h) ∨
      (append fmt payload s
          = .ok (some (fmt.recordDigest (s.frame payload))) (s.appended fmt payload) ∧
        Standing fmt rules P (s.appended fmt payload) hf (s.frame payload :: h) ∧
        AtEnd fmt (s.appended fmt payload) (s.frame payload :: h) ∧
        (rules.tidy → (s.appended fmt payload).disk.Sure)) := by
  obtain ⟨hs, he, hneat⟩ := hr
  rcases append_run payload s with ⟨-, hrun⟩ | ⟨hroom, hrefused, hrun⟩ | ⟨hroom, hwritten, hrun⟩
  · exact .inl ⟨s.disk, hrun, hs, he, hneat⟩
  · refine .inl ⟨_, hrun, Ready.after_write ⟨hs, he, hneat⟩ hroom hadm,
      ⟨he.nextBlock, he.prevDigest⟩, fun ht => ((hneat.sure ht).write _ _).1, fun ht hup => ?_⟩
    have hdown := ((hneat.sure ht).write s.nextBlock (.record (s.frame payload))).2 hrefused
    rw [hdown] at hup
    cases hup
  · have hchain := hs.frame_chain he hroom hadm
    have hdevice : (s.disk.write s.nextBlock (.record (s.frame payload))).2.device
        = s.disk.device.write .other s.nextBlock (.record (s.frame payload)) := by
      rcases s.disk.write_cases s.nextBlock (.record (s.frame payload)) with
        ⟨-, hfalse⟩ | ⟨-, ⟨-, hfalse⟩ | hwhole⟩
      · rw [hwritten] at hfalse
        cases hfalse
      · rw [hwritten] at hfalse
        cases hfalse
      · exact hwhole
    have hstands := Ready.after_write ⟨hs, he, hneat⟩ hroom hadm
    refine .inr ⟨hrun, ?_, ?_, fun ht => ((hneat.sure ht).write _ _).1⟩
    · refine { hstands with
        chain := hchain
        suffix := hs.suffix.trans (suffix_cons _ _)
        placed := ?_
        bounded := ?_
        last := ?_
        anchor := ?_ }
      · obtain ⟨sb, hsb⟩ := hstands.anchor
        exact ⟨sb, hsb.held, hsb.generation, hsb.arena, hsb.checkpointSequence, hsb.storeEpoch,
          hsb.opens, hsb.newest⟩
      · show Placed _ s.arenaStart _
        unfold Store.appended
        dsimp only
        rw [hdevice, he.nextBlock]
        exact hs.placed.append
      · rw [he.nextBlock, hs.arenaBlocks] at hroom
        simp only [length_cons]
        omega
      · intro r' hr'
        obtain rfl : s.frame payload = r' := Option.some.inj hr'
        exact ⟨rfl, rfl, rfl⟩
    · refine ⟨?_, fun _ r' hr' => ?_⟩
      · show s.nextBlock + 1 = s.arenaStart + _
        rw [he.nextBlock, length_cons, Nat.add_assoc]
      · obtain rfl : s.frame payload = r' := Option.some.inj hr'
        rfl

/-! ### Flushes -/

/-- **What a flush does to a store at the end of its log**: it settles all of it, or leaves
it as it is. -/
theorem Standing.flush (hp : Stable fmt rules P) (hs : Standing fmt rules P s hf h)
    (he : AtEnd fmt s h) (hsure : rules.tidy → s.disk.Sure) :
    (flush s = .ok true { s with disk := s.disk.flush.2 } ∧
        Ready fmt rules P { s with disk := s.disk.flush.2 } h h) ∨
      (flush s = .ok false { s with disk := s.disk.flush.2 } ∧
        Ready fmt rules P { s with disk := s.disk.flush.2 } hf h) := by
  have hsure' : rules.tidy → s.disk.flush.2.Sure := fun ht => ((hsure ht).flush).1
  have hatEnd : AtEnd fmt { s with disk := s.disk.flush.2 } h := ⟨he.nextBlock, he.prevDigest⟩
  rcases s.disk.flush_cases with ⟨hok, hdevice⟩ | ⟨hno, hdevice⟩
  · refine .inl ⟨by unfold K4.flush; rw [hok], ?_, hatEnd, hsure', ?_⟩
    · obtain ⟨sb, ha⟩ := hs.anchor
      refine ⟨?_, ?_, hs.either, ⟨sb, ?_⟩, hs.arenaStart, hs.arenaBlocks, ?_, ?_,
        hp.extend hs.chain hs.suffix hs.ne_nil hs.holds, hs.chain, suffix_refl _, ?_,
        hs.bounded, hs.last⟩
      · rw [hdevice]
        exact hs.sound.flush
      · rw [hdevice]
        exact hs.labelled.flush
      · refine { ha with held := ?_, newest := ?_, opens := ha.opens.extend hs.suffix }
        · show Device.Holds s.disk.flush.2.device _ _
          rw [hdevice]
          exact ha.held.flush
        · intro sb' hsb'
          refine ha.newest sb' ?_
          have hsb'' : Block.superblock sb'
              ∈ (s.disk.device.flush (absolute (otherSlot s.superblockSlot))).possible :=
            hdevice ▸ hsb'
          exact mem_possible_flush hsb'' ▸ read_mem_possible
      · rw [hdevice]
        exact hs.placed.flush
      · intro ht
        rw [hdevice]
        exact ((hs.tidy ht).extend hs.ne_nil hs.suffix).of_possible fun b r hr =>
          mem_possible_flush hr ▸ read_mem_possible
      · rw [hdevice]
        exact hs.placed.flush.placed
    · intro _ _ top htop x hx
      have : top = [] := by simpa using htop
      rw [this] at hx
      cases hx
  · refine .inr ⟨by unfold K4.flush; rw [hno],
      hs.of_same ⟨hdevice, rfl, rfl, rfl, rfl, rfl, rfl, rfl, rfl, rfl, rfl⟩, hatEnd, hsure',
      fun ht hup => ?_⟩
    rw [((hsure ht).flush).2 hno] at hup
    cases hup

end Thalyx.K4
