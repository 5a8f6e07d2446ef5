/-
What a power loss may leave on the medium, and what recovery will make of it.

The records of a log lie in consecutive blocks of its arena.  A part of the log, the older
one, is settled: it is what those blocks hold whatever happens.  Beyond it a block may hold
what was written last, half of it, or what was there before; but every record that may be
in any block at all has a history that is a chain, if it has one.

A medium is guarded by a property of ledgers if every history recovery may adopt begins with
one that has it: the newest superblock is settled and names a settled log of that kind, and
whatever else the other superblock's block may hold is older, or names one as well.
-/
import ThalyxKernel.Store.History
import ThalyxKernel.Store.Publication

namespace Thalyx.K4

open Device List Option

variable {D C : Type} {fmt : Format D C}

/-! ### Logs in consecutive blocks -/

/-- The records, newest first, are what the blocks from `start` on answer. -/
def Placed (d : Device (Block D C)) (start : Nat) : List (Record D C) → Prop
  | [] => True
  | r :: h => d.read (start + h.length) = .record r ∧ Placed d start h

/-- The records are what the blocks from `start` on hold whatever happens. -/
def Settled (d : Device (Block D C)) (start : Nat) : List (Record D C) → Prop
  | [] => True
  | r :: h => d.Holds (start + h.length) (.record r) ∧ Settled d start h

section Blocks

variable {d : Device (Block D C)} {start block : Nat} {h h' : List (Record D C)}
  {x : Block D C} {r : Record D C}

theorem Settled.placed (hs : Settled d start h) : Placed d start h := by
  induction h with
  | nil => trivial
  | cons r h ih => exact ⟨hs.1.read_eq, ih hs.2⟩

theorem Settled.write (hs : Settled d start h) (hblock : block < start ∨ start + h.length ≤ block) :
    Settled (d.write .other block x) start h := by
  induction h with
  | nil => trivial
  | cons r h ih =>
    simp only [length_cons] at hblock
    exact ⟨hs.1.write_of_ne (by omega), ih hs.2 (by omega)⟩

theorem Placed.write (hp : Placed d start h) (hblock : block < start ∨ start + h.length ≤ block) :
    Placed (d.write .other block x) start h := by
  induction h with
  | nil => trivial
  | cons r h ih =>
    simp only [length_cons] at hblock
    exact ⟨(read_write_of_ne (by omega)).trans hp.1, ih hp.2 (by omega)⟩

theorem Placed.append (hp : Placed d start h) :
    Placed (d.write .other (start + h.length) (.record r)) start (r :: h) :=
  ⟨read_write_self, hp.write (.inr (Nat.le_refl _))⟩

theorem Placed.flush (hp : Placed d start h) : Settled d.flush start h := by
  induction h with
  | nil => trivial
  | cons r h ih => exact ⟨hp.1 ▸ holds_flush, ih hp.2⟩

theorem Settled.crash (hs : Settled d start h) (pick : Nat → Nat) :
    Settled (d.crash pick) start h := by
  induction h with
  | nil => trivial
  | cons r h ih => exact ⟨hs.1.crash pick, ih hs.2⟩

theorem Placed.suffix (hp : Placed d start h) (hsuffix : h' <:+ h) : Placed d start h' := by
  obtain ⟨top, rfl⟩ := hsuffix
  induction top with
  | nil => exact hp
  | cons r top ih => exact ih hp.2

end Blocks

/-! ### What may be in a block -/

/-- A record whose history is a chain, if it has one.  A checkpoint names none before it. -/
structure Record.Proper [DecidableEq D] (fmt : Format D C) (rules : Rules D) (r : Record D C) :
    Prop where
  chain : ∀ h, History fmt (r :: h) → Chain fmt rules (r :: h)
  first : ∀ head, r.payload = .checkpoint head → r.prevDigest = fmt.zero

/-- Every record that may be in a block is a proper one. -/
def Sound [DecidableEq D] (fmt : Format D C) (rules : Rules D) (d : Device (Block D C)) : Prop :=
  ∀ block r, .record r ∈ (d block).possible → r.Proper fmt rules

/-- A superblock of this geometry. -/
structure Superblock.Standard (sb : Superblock D) : Prop where
  arena : sb.activeArena ≤ 1
  arena0Start : sb.arena0Start = arena0StartBlock
  arena0Count : sb.arena0Count = arenaBlockCount
  arena1Start : sb.arena1Start = arena1StartBlock
  arena1Count : sb.arena1Count = arenaBlockCount

/-- Every superblock that may be in a block is of this geometry. -/
def Labelled (d : Device (Block D C)) : Prop :=
  ∀ block sb, .superblock sb ∈ (d block).possible → sb.Standard

/-- Where an arena starts. -/
def arenaBase (arena : Nat) : Nat :=
  absolute (if arena = 0 then arena0StartBlock else arena1StartBlock)

variable {sb : Superblock D}

theorem Superblock.Standard.start_eq (h : sb.Standard) : sb.start = arenaBase sb.activeArena := by
  unfold Superblock.start arenaBase
  rw [h.arena0Start, h.arena1Start]

theorem Superblock.Standard.blocks_eq (h : sb.Standard) : sb.blocks = arenaBlockCount := by
  unfold Superblock.blocks
  rw [h.arena0Count, h.arena1Count]
  exact ite_self _

section Possible

variable [DecidableEq D] {rules : Rules D} {d : Device (Block D C)} {block : Nat}
  {x : Block D C}

theorem Sound.write (hs : Sound fmt rules d) (hx : ∀ r, x = .record r → r.Proper fmt rules) :
    Sound fmt rules (d.write .other block x) := by
  intro b r hr
  rcases mem_possible_write hr with ⟨-, rfl⟩ | hother | hold
  · exact hx r rfl
  · cases hother
  · exact hs b r hold

theorem Sound.flush (hs : Sound fmt rules d) : Sound fmt rules d.flush := fun b r hr =>
  hs b r (mem_possible_flush hr ▸ read_mem_possible)

theorem Sound.crash (hs : Sound fmt rules d) (pick : Nat → Nat) :
    Sound fmt rules (d.crash pick) := fun b r hr =>
  hs b r (mem_possible_crash hr ▸ crash_mem)

theorem Sound.read (hs : Sound fmt rules d) {r : Record D C} (h : d.read block = .record r) :
    r.Proper fmt rules := hs block r (h ▸ read_mem_possible)

omit [DecidableEq D] in
theorem Labelled.write (hl : Labelled d) (hx : ∀ sb, x = .superblock sb → sb.Standard) :
    Labelled (d.write .other block x) := by
  intro b sb hsb
  rcases mem_possible_write hsb with ⟨-, rfl⟩ | hother | hold
  · exact hx sb rfl
  · cases hother
  · exact hl b sb hold

omit [DecidableEq D] in
theorem Labelled.flush (hl : Labelled d) : Labelled d.flush := fun b sb hsb =>
  hl b sb (mem_possible_flush hsb ▸ read_mem_possible)

omit [DecidableEq D] in
theorem Labelled.crash (hl : Labelled d) (pick : Nat → Nat) : Labelled (d.crash pick) :=
  fun b sb hsb => hl b sb (mem_possible_crash hsb ▸ crash_mem)

end Possible

/-! ### What recovery will adopt -/

/-- The oldest record of a history opens the log the superblock names, and the history goes
as far as the superblock says the log is durable. -/
def Opens [DecidableEq D] (sb : Superblock D) (h : List (Record D C)) : Prop :=
  ∃ r, h.getLast? = some r ∧ r.opens sb = true ∧
    sb.durableThrough < sb.checkpointSequence + h.length

/-- What may be in a block beyond a log's end lies there on objects alone, and so does what
may be left of an arena's life that the newest superblock does not come after. -/
structure Tidy (fmt : Format D C) (d : Device (Block D C)) (h : List (Record D C)) : Prop where
  beyond : ∀ block r top, .record r ∈ (d block).possible → History fmt (r :: (top ++ h)) →
    ∀ x ∈ top, x.IsObject
  elsewhere : ∀ block r below first opening, .record r ∈ (d block).possible →
    History fmt (r :: below) → (r :: below).getLast? = some first → h.getLast? = some opening →
    first = opening ∨ first.sequence < opening.sequence ∨
      ∀ x ∈ below, x = first ∨ x.IsObject

theorem Tidy.of_possible {d d' : Device (Block D C)} {h : List (Record D C)} (ht : Tidy fmt d h)
    (hsub : ∀ b r, .record r ∈ (d' b).possible → .record r ∈ (d b).possible) : Tidy fmt d' h :=
  ⟨fun b r top hr => ht.beyond b r top (hsub b r hr),
    fun b r below first opening hr => ht.elsewhere b r below first opening (hsub b r hr)⟩

theorem Tidy.extend {d : Device (Block D C)} {h h' : List (Record D C)} (ht : Tidy fmt d h)
    (hne : h ≠ []) (hs : h <:+ h') : Tidy fmt d h' := by
  obtain ⟨more, rfl⟩ := hs
  refine ⟨fun b r top hr hh x hx => ?_, fun b r below first opening hr hh hfirst hopening => ?_⟩
  · rw [← append_assoc] at hh
    exact ht.beyond b r _ hr hh x (mem_append_left _ hx)
  · rw [getLast?_append_of_ne_nil _ hne] at hopening
    exact ht.elsewhere b r below first opening hr hh hfirst hopening

section Guard

variable [DecidableEq D]
variable {sb : Superblock D}
variable {h : List (Record D C)}

theorem Opens.ne_nil (ho : Opens sb h) : h ≠ [] := by
  obtain ⟨r, hr, -⟩ := ho
  rintro rfl
  cases hr

theorem Opens.extend {h' : List (Record D C)} (ho : Opens sb h) (hs : h <:+ h') : Opens sb h' := by
  have hne := ho.ne_nil
  obtain ⟨r, hr, hopens, hbound⟩ := ho
  refine ⟨r, ?_, hopens, Nat.lt_of_lt_of_le hbound (Nat.add_le_add_left hs.length_le _)⟩
  obtain ⟨top, rfl⟩ := hs
  rw [getLast?_append_of_ne_nil _ hne, hr]

variable (fmt) (rules : Rules D) (P : Ledger D → Prop)

/-- A superblock names a settled log whose ledger has the property. -/
structure Stands (d : Device (Block D C)) (sb : Superblock D) (h : List (Record D C)) :
    Prop where
  settled : Settled d sb.start h
  opens : Opens sb h
  chain : Chain fmt rules h
  bounded : h.length ≤ arenaBlockCount
  tidy : rules.tidy → Tidy fmt d h
  holds : P (ledger fmt h)

/-- The newest superblock is settled and names such a log, and the other one's block holds
nothing newer but what names one, too. -/
def Guarded (d : Device (Block D C)) : Prop :=
  ∃ slot sb h, (slot = superblockA ∨ slot = superblockB) ∧
    d.Holds (absolute slot) (.superblock sb) ∧ Stands fmt rules P d sb h ∧
    ∀ sb', .superblock sb' ∈ (d (absolute (otherSlot slot))).possible →
      sb'.superblockGeneration < sb.superblockGeneration ∨
        (sb.superblockGeneration < sb'.superblockGeneration ∧ ∃ h', Stands fmt rules P d sb' h')

/-- A medium that has not been formatted, or not all the way. -/
structure Unformatted (d : Device (Block D C)) : Prop where
  empty : P (Ledger.empty fmt)
  records : ∀ block r, .record r ∈ (d block).possible → ∃ head, r.payload = .checkpoint head
  slotB : ∀ sb, .superblock sb ∉ (d (absolute superblockB)).possible
  slotA : ∀ sb, .superblock sb ∈ (d (absolute superblockA)).possible →
    ∃ h, Stands fmt rules P d sb h

/-- **What every medium of a run is.** -/
structure Medium (d : Device (Block D C)) : Prop where
  sound : Sound fmt rules d
  labelled : Labelled d
  guarded : Guarded fmt rules P d ∨ Unformatted fmt rules P d

variable {fmt} {rules} {P} {d : Device (Block D C)}

theorem Stands.crash (hs : Stands fmt rules P d sb h)
    (pick : Nat → Nat) : Stands fmt rules P (d.crash pick) sb h :=
  { hs with
    settled := hs.settled.crash pick
    tidy := fun ht => (hs.tidy ht).of_possible fun _ _ hr =>
      mem_possible_crash hr ▸ crash_mem }

/-- **A power loss leaves a medium of the same kind**, whatever it picks. -/
theorem Medium.crash (hm : Medium fmt rules P d) (pick : Nat → Nat) :
    Medium fmt rules P (d.crash pick) := by
  refine ⟨hm.sound.crash pick, hm.labelled.crash pick, ?_⟩
  have hpossible : ∀ b x, x ∈ ((d.crash pick) b).possible → x ∈ (d b).possible := fun b x hx =>
    mem_possible_crash hx ▸ crash_mem
  rcases hm.guarded with ⟨slot, sb, h, hslot, hheld, hstands, hother⟩ | hu
  · refine .inl ⟨slot, sb, h, hslot, hheld.crash pick, hstands.crash pick, fun sb' hsb' => ?_⟩
    rcases hother sb' (hpossible _ _ hsb') with hold | ⟨hnew, h', hstands'⟩
    · exact .inl hold
    · exact .inr ⟨hnew, h', hstands'.crash pick⟩
  · refine .inr ⟨hu.empty, fun b r hr => hu.records b r (hpossible _ _ hr),
      fun sb hsb => hu.slotB sb (hpossible _ _ hsb), fun sb hsb => ?_⟩
    obtain ⟨h, hstands⟩ := hu.slotA sb (hpossible _ _ hsb)
    exact ⟨h, hstands.crash pick⟩

/-- Nothing is left in the write cache. -/
def Quiescent (d : Device (Block D C)) : Prop := ∀ block, d.Holds block (d.read block)

omit [DecidableEq D] in
theorem quiescent_crash (pick : Nat → Nat) : Quiescent (d.crash pick) := fun _ => rfl

/-- What the superblock recovery goes on with is, on a medium with nothing in the cache. -/
structure Chosen (d : Device (Block D C)) (sb : Superblock D) (slot : Nat) : Prop where
  either : slot = superblockA ∨ slot = superblockB
  read : d.read (absolute slot) = .superblock sb
  newest : ∀ sb', d.read (absolute (otherSlot slot)) = .superblock sb' →
    sb'.superblockGeneration < sb.superblockGeneration

omit [DecidableEq D] in
/-- Every read of this store is answered. -/
def Store.Readable (s : Store D C) : Prop := s.disk.fails = (fun _ _ => false) ∧ s.disk.down = false

variable {s : Store D C}

omit [DecidableEq D] in
theorem Store.Readable.read (h : s.Readable) (m : Moment) (block : Nat) :
    s.disk.read m block = some (s.disk.device.read block) := by
  unfold Disk.read
  rw [h.1, h.2]
  rfl

variable {slot : Nat}

omit [DecidableEq D] in
theorem Store.Readable.readSuperblock_eq_some (h : s.Readable)
    : s.readSuperblock slot = some sb ↔ s.disk.device.read (absolute slot) = .superblock sb := by
  unfold Store.readSuperblock
  rw [h.read, bind_some, Block.parseSuperblock_eq_some]

omit [DecidableEq D] in
theorem Store.Readable.chosen (h : s.Readable) (hc : s.chosen = some (sb, slot)) :
    (slot = superblockA ∨ slot = superblockB) ∧
      s.disk.device.read (absolute slot) = .superblock sb ∧
      ∀ sb', s.disk.device.read (absolute (otherSlot slot)) = .superblock sb' →
        sb'.superblockGeneration ≤ sb.superblockGeneration := by
  unfold Store.chosen at hc
  have hother : ∀ {slot' : Nat}, s.readSuperblock slot' = none →
      ∀ sb', s.disk.device.read (absolute slot') = .superblock sb' →
        sb'.superblockGeneration ≤ sb.superblockGeneration := by
    intro slot' hnone sb' hread
    rw [h.readSuperblock_eq_some.mpr hread] at hnone
    cases hnone
  cases ha : s.readSuperblock superblockA with
  | none =>
    cases hb : s.readSuperblock superblockB with
    | none => simp [ha, hb, chooseSuperblock] at hc
    | some two =>
      simp only [ha, hb, chooseSuperblock, some.injEq, Prod.mk.injEq] at hc
      obtain ⟨rfl, rfl⟩ := hc
      exact ⟨.inr rfl, h.readSuperblock_eq_some.mp hb, hother ha⟩
  | some one =>
    cases hb : s.readSuperblock superblockB with
    | none =>
      simp only [ha, hb, chooseSuperblock, some.injEq, Prod.mk.injEq] at hc
      obtain ⟨rfl, rfl⟩ := hc
      exact ⟨.inl rfl, h.readSuperblock_eq_some.mp ha, hother hb⟩
    | some two =>
      simp only [ha, hb, chooseSuperblock] at hc
      split at hc
      · rename_i hle
        obtain ⟨rfl, rfl⟩ := Prod.mk.inj (some.inj hc)
        refine ⟨.inl rfl, h.readSuperblock_eq_some.mp ha, fun sb' hread => ?_⟩
        rw [show two = sb' from some.inj
          (hb.symm.trans (h.readSuperblock_eq_some.mpr hread))] at hle
        exact hle
      · rename_i hlt
        obtain ⟨rfl, rfl⟩ := Prod.mk.inj (some.inj hc)
        refine ⟨.inr rfl, h.readSuperblock_eq_some.mp hb, fun sb' hread => ?_⟩
        rw [show one = sb' from some.inj
          (ha.symm.trans (h.readSuperblock_eq_some.mpr hread))] at hlt
        omega

/-- **Recovery chooses a superblock that names a log of the kind the medium is guarded by.** -/
theorem Medium.chosen (hm : Medium fmt rules P s.disk.device) (hr : s.Readable)
    (hc : s.chosen = some (sb, slot)) :
    Chosen s.disk.device sb slot ∧ ∃ h, Stands fmt rules P s.disk.device sb h := by
  obtain ⟨hslot, hread, hle⟩ := hr.chosen hc
  have hpossible : ∀ {b : Nat} {x : Block D C}, s.disk.device.read b = x →
      x ∈ (s.disk.device b).possible := fun h => h ▸ read_mem_possible
  rcases hm.guarded with ⟨slot', sb', h, hslot', hheld, hstands, hother⟩ | hu
  · by_cases hsame : slot' = slot
    · subst hsame
      have hsb : sb' = sb := by
        have := hheld.read_eq.symm.trans hread
        cases this
        rfl
      subst hsb
      refine ⟨⟨hslot, hread, fun sb'' hread'' => ?_⟩, h, hstands⟩
      rcases hother sb'' (hpossible hread'') with hold | ⟨hnew, -⟩
      · exact hold
      · exact absurd (hle sb'' hread'') (by omega)
    · have hopp : otherSlot slot' = slot ∧ otherSlot slot = slot' := by
        unfold otherSlot superblockA superblockB at *
        rcases hslot with rfl | rfl <;> rcases hslot' with rfl | rfl <;> simp_all
      have hcur := hother sb (hopp.1.symm ▸ hpossible hread)
      have hle' := hle sb' (hopp.2.symm ▸ hheld.read_eq)
      rcases hcur with hold | ⟨hnew, h', hstands'⟩
      · omega
      · refine ⟨⟨hslot, hread, fun sb'' hread'' => ?_⟩, h', hstands'⟩
        rw [hopp.2, hheld.read_eq] at hread''
        cases hread''
        exact hnew
  · rcases hslot with rfl | rfl
    · refine ⟨⟨.inl rfl, hread, fun sb' hread' => ?_⟩, hu.slotA sb (hpossible hread)⟩
      exact absurd (hpossible hread') (hu.slotB sb')
    · exact absurd (hpossible hread) (hu.slotB sb)

end Guard

end Thalyx.K4
