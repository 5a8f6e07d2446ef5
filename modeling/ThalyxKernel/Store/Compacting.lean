/-
What a compaction does, from the checkpoint in the other arena to the superblock that
names it.

Until that superblock is durable the old log stands where it was, and every write goes to
the other arena.  A compaction that stops on the way leaves the old log alone; but the
memory is then in an arena that no superblock names, or appends where its log does not end.
-/
import ThalyxKernel.Store.Carrying

namespace Thalyx.K4

open Fallible List Device

variable {D C : Type} {fmt : Format D C} [DecidableEq D] {rules : Rules D} {P : Ledger D → Prop}
  {s t : Store D C} {hf h : List (Record D C)}

/-! ### The two arenas -/

theorem arenaBase_disjoint {a b block : Nat} (ha : a ≤ 1) (hb : b = 1 - a)
    (hlow : arenaBase b ≤ block) (hhigh : block < arenaBase b + arenaBlockCount) :
    block < arenaBase a ∨ arenaBase a + arenaBlockCount ≤ block := by
  unfold arenaBase absolute arena0StartBlock arena1StartBlock storeBaseBlock arenaBlockCount at *
  rcases Nat.le_one_iff_eq_zero_or_eq_one.mp ha with rfl | rfl
  · subst hb
    simp only [Nat.sub_zero, Nat.one_ne_zero, if_false, if_true] at *
    omega
  · subst hb
    simp only [Nat.sub_self, Nat.one_ne_zero, if_false, if_true] at *
    omega

theorem otherSlot_otherSlot {slot : Nat} (h : slot = superblockA ∨ slot = superblockB) :
    otherSlot (otherSlot slot) = slot := by
  rcases h with rfl | rfl <;> rfl

theorem otherSlot_ne (slot : Nat) : otherSlot slot ≠ slot := by
  unfold otherSlot superblockA superblockB
  split <;> omega

theorem absolute_otherSlot_ne (slot : Nat) : absolute slot ≠ absolute (otherSlot slot) := by
  have := otherSlot_ne slot
  unfold absolute
  omega

/-! ### The order of sequences -/

omit [DecidableEq D] in
theorem History.inner {top : List (Record D C)} {p : Record D C} (hh : History fmt (top ++ p :: h))
    {x : Record D C} (hx : x ∈ top) (head : CheckpointRecord D) : x.payload ≠ .checkpoint head := by
  induction top with
  | nil => cases hx
  | cons y top ih =>
    have htail : ∃ q below, top ++ p :: h = q :: below := by
      cases top with
      | nil => exact ⟨p, h, rfl⟩
      | cons z top => exact ⟨z, top ++ p :: h, rfl⟩
    obtain ⟨q, below, heq⟩ := htail
    rw [cons_append, heq] at hh
    rcases mem_cons.mp hx with rfl | hx
    · cases hh with
      | next _ follows => exact follows.inner head
    · exact ih (heq ▸ hh.tail) hx

theorem Standing.nextSequence_eq (hs : Standing fmt rules P s hf h) :
    s.nextSequence = s.checkpointSequence + h.length := by
  obtain ⟨sb, ha⟩ := hs.anchor
  obtain ⟨first, hfirst, hopens, -⟩ := ha.opens.extend hs.suffix
  obtain ⟨p, below, rfl⟩ : ∃ p below, h = p :: below :=
    exists_cons_of_ne_nil hs.chain.ne_nil
  have hsequence := hs.chain.history.sequence_eq rfl hfirst
  have hcp : first.sequence = sb.checkpointSequence :=
    (of_decide_eq_true (show decide (_ ∧ _ ∧ _) = true from hopens)).1
  rw [(hs.last p rfl).1, hsequence, hcp, ha.checkpointSequence]

/-! ### Records of another life -/

variable {d : Device (Block D C)}

omit [DecidableEq D] in
theorem Tidy.foreign {r first opening : Record D C}
    {below : List (Record D C)} {block : Nat} (ht : Tidy fmt d hf)
    (hh : History fmt (r :: below)) (hfirst : (r :: below).getLast? = some first)
    (hopening : hf.getLast? = some opening) (hlater : opening.sequence < first.sequence)
    (hobjects : ∀ x ∈ below, x = first ∨ x.IsObject) :
    Tidy fmt (d.write .other block (.record r)) hf := by
  have hne : hf ≠ [] := by
    rintro rfl
    cases hopening
  refine ⟨fun b r' top hr hh' => ?_, fun b r' below' first' opening' hr hh' hfirst' hopening' => ?_⟩
  · rcases mem_possible_write hr with ⟨-, heq⟩ | hother | hold
    · cases heq
      rw [hh.unique hh', ← cons_append, getLast?_append_of_ne_nil _ hne, hopening]
        at hfirst
      rw [Option.some.inj hfirst] at hlater
      exact absurd hlater (Nat.lt_irrefl _)
    · cases hother
    · exact ht.beyond b r' top hold hh'
  · rcases mem_possible_write hr with ⟨-, heq⟩ | hother | hold
    · cases heq
      rw [hh'.unique hh] at hfirst' ⊢
      obtain rfl := Option.some.inj (hfirst.symm.trans hfirst')
      exact .inr (.inr hobjects)
    · cases hother
    · exact ht.elsewhere b r' below' first' opening' hold hh' hfirst' hopening'

omit [DecidableEq D] in
theorem Tidy.succeed {cp opening : Record D C} {objs : List (Record D C)}
    {head : CheckpointRecord D} (ht : Tidy fmt d hf) (hcp : cp.payload = .checkpoint head)
    (hopening : hf.getLast? = some opening) (hlater : opening.sequence < cp.sequence) :
    Tidy fmt d (objs ++ [cp]) := by
  refine ⟨fun b r top hr hh x hx => ?_, fun b r below first opening' hr hh hfirst hopening' => ?_⟩
  · have hfirst : (r :: (top ++ (objs ++ [cp]))).getLast? = some cp := by
      rw [← append_assoc, ← cons_append]
      exact getLast?_concat
    rcases ht.elsewhere b r _ cp opening hr hh hfirst hopening with heq | hlt | hobjects
    · rw [heq] at hlater
      exact absurd hlater (Nat.lt_irrefl _)
    · omega
    · rcases hobjects x (mem_append_left _ hx) with rfl | hobject
      · rw [← append_assoc, ← cons_append] at hh
        exact absurd hcp (hh.inner (mem_cons_of_mem _ (mem_append_left _ hx)) head)
      · exact hobject
  · obtain rfl : cp = opening' := by
      rw [getLast?_concat] at hopening'
      exact Option.some.inj hopening'
    rcases ht.elsewhere b r below first opening hr hh hfirst hopening with rfl | hlt | hobjects
    · exact .inr (.inl hlater)
    · exact .inr (.inl (Nat.lt_trans hlt hlater))
    · exact .inr (.inr hobjects)

/-! ### The new log -/

/-- The old log stands, and the memory is in the other arena, at the end of a new one: a
checkpoint of the old tables and some of the objects. -/
structure Copying (fmt : Format D C) (rules : Rules D) (P : Ledger D → Prop) (s : Store D C)
    (hf h : List (Record D C)) (cp : Record D C) (objs : List (Record D C)) (t : Store D C) :
    Prop where
  old : Standing fmt rules P { s with disk := t.disk } hf h
  sure : rules.tidy → t.disk.Sure
  opening : ∃ head, cp.payload = .checkpoint head ∧ P head.ledger ∧ head.Sized
  cpSequence : cp.sequence = s.nextSequence
  cpArena : cp.arena = 1 - s.arena
  cpEpoch : cp.storeEpoch = s.storeEpoch
  objects : ∀ x ∈ objs, x.IsObject
  chain : Chain fmt rules (objs ++ [cp])
  placed : Placed t.disk.device t.arenaStart (objs ++ [cp])
  bounded : (objs ++ [cp]).length ≤ arenaBlockCount
  nextBlock : t.nextBlock = t.arenaStart + (objs ++ [cp]).length
  last : ∀ r ∈ (objs ++ [cp]).head?, t.After fmt r
  arena : t.arena = 1 - s.arena
  arenaStart : t.arenaStart = arenaBase (1 - s.arena)
  arenaBlocks : t.arenaBlocks = arenaBlockCount
  slot : t.superblockSlot = s.superblockSlot
  generation : t.superblockGeneration = s.superblockGeneration
  checkpointSequence : t.checkpointSequence = cp.sequence
  storeEpoch : t.storeEpoch = s.storeEpoch
  kept : Kept s t
  digests : t.objects.map ObjectEntry.digest = s.objects.map ObjectEntry.digest
  wellFormed : ∀ entry ∈ t.objects, entry.WellFormed fmt ∧ entry.length ≤ objectMax
  copied : ∀ entry ∈ t.objects, entry.digest ∈ objectDigests objs →
    entry.durable = true ∧ t.arenaStart ≤ entry.block ∧
      entry.block < t.arenaStart + arenaBlockCount
  uncopied : ∀ entry ∈ t.objects, entry.digest ∉ objectDigests objs → entry ∈ s.objects
  known : ∀ digest ∈ objectDigests objs, ∃ entry ∈ t.objects, entry.digest = digest

/-- What a compaction needs of a store: that it stands on its log, wherever it appends. -/
structure Lodged (fmt : Format D C) (rules : Rules D) (P : Ledger D → Prop) (s : Store D C)
    (hf h : List (Record D C)) : Prop where
  standing : Standing fmt rules P s hf h
  indexes : Indexes fmt s.arenaStart s.objects h
  neat : Neat rules s hf h
  atEnd : s.nextBlock = s.arenaStart + h.length → AtEnd fmt s h

theorem Live.lodged (hl : Live fmt rules P s hf h) : Lodged fmt rules P s hf h :=
  ⟨hl.ready.standing, hl.indexes, hl.ready.neat, fun _ => hl.ready.atEnd⟩

theorem Lodged.live (hl : Lodged fmt rules P s hf h)
    (hend : s.nextBlock = s.arenaStart + h.length) : Live fmt rules P s hf h :=
  ⟨⟨hl.standing, hl.atEnd hend, hl.neat⟩, hl.indexes⟩

theorem Standing.arena_le (hs : Standing fmt rules P s hf h) : s.arena ≤ 1 := by
  obtain ⟨sb, ha⟩ := hs.anchor
  have hstandard : sb.Standard := hs.labelled _ _ (ha.held.read_eq ▸ read_mem_possible)
  rw [← ha.arena]
  exact hstandard.arena

theorem Standing.opening (hs : Standing fmt rules P s hf h) :
    ∃ first, hf.getLast? = some first ∧ first.sequence < s.nextSequence := by
  obtain ⟨sb, ha⟩ := hs.anchor
  obtain ⟨first, hfirst, hopens, -⟩ := ha.opens
  have hcp : first.sequence = sb.checkpointSequence :=
    (of_decide_eq_true (show decide (_ ∧ _ ∧ _) = true from hopens)).1
  refine ⟨first, hfirst, ?_⟩
  have hlen : 0 < h.length := length_pos_iff.mpr hs.chain.ne_nil
  rw [hs.nextSequence_eq, hcp, ha.checkpointSequence]
  omega

theorem Standing.write_foreign {r first : Record D C} {below : List (Record D C)} {block : Nat}
    (hs : Standing fmt rules P s hf h) (hc : Chain fmt rules (r :: below))
    (hfirst : (r :: below).getLast? = some first) (hlater : s.nextSequence ≤ first.sequence)
    (hobjects : ∀ x ∈ below, x = first ∨ x.IsObject) (hproper : r.Proper fmt rules)
    (hlow : arenaBase (1 - s.arena) ≤ block)
    (hhigh : block < arenaBase (1 - s.arena) + arenaBlockCount) {disk : Disk D C}
    (hdisk : disk.device = s.disk.device ∨
      disk.device = s.disk.device.write .other block .other ∨
      disk.device = s.disk.device.write .other block (.record r)) :
    Standing fmt rules P { s with disk } hf h := by
  obtain ⟨opening, hopening, hbefore⟩ := hs.opening
  have hfree : block < s.arenaStart ∨ s.arenaStart + h.length ≤ block := by
    have := arenaBase_disjoint hs.arena_le rfl hlow hhigh
    have hb := hs.bounded
    rw [hs.arenaStart]
    omega
  have hslots : absolute superblockB < block := by
    have := arenaBase_ge (1 - s.arena)
    omega
  rcases hdisk with hsame | htorn | hwhole
  · exact hs.of_same ⟨hsame, rfl, rfl, rfl, rfl, rfl, rfl, rfl, rfl, rfl, rfl⟩
  · exact hs.write hfree hslots (fun r h => by cases h) (fun sb h => by cases h)
      (fun ht => (hs.tidy ht).torn) htorn
  · refine hs.write hfree hslots (fun r' h' => ?_) (fun sb h => by cases h) (fun ht => ?_) hwhole
    · cases h'
      exact hproper
    · exact (hs.tidy ht).foreign hc.history hfirst hopening (by omega) hobjects

omit [DecidableEq D] in
theorem Disk.write_device (d : Disk D C) (block : Nat) (x : Block D C) :
    (d.write block x).2.device = d.device ∨
      (d.write block x).2.device = d.device.write .other block .other ∨
      (d.write block x).2.device = d.device.write .other block x := by
  rcases d.write_cases block x with ⟨h, -⟩ | ⟨-, ⟨h, -⟩ | h⟩
  · exact .inl h
  · exact .inr (.inl h)
  · exact .inr (.inr h)

omit [DecidableEq D] in
theorem Disk.write_device_of_ok {d : Disk D C} {block : Nat} {x : Block D C}
    (hok : (d.write block x).1 = true) :
    (d.write block x).2.device = d.device.write .other block x := by
  rcases d.write_cases block x with ⟨-, h⟩ | ⟨-, ⟨-, h⟩ | h⟩
  · rw [hok] at h
    cases h
  · rw [hok] at h
    cases h
  · exact h

/-! ### The checkpoint -/

/-- The ledger a checkpoint of these tables opens with. -/
def Ledger.reopened (l : Ledger D) : Ledger D :=
  { l with
    principals := (l.principals.filter fun entry => entry.principal != 0) ++
      List.replicate
        (maxPrincipals - (l.principals.filter fun entry => entry.principal != 0).length) .zeroed
    next := 0
    pending := none }

omit [DecidableEq D] in
theorem taken_filter (table : List PrincipalEntry) :
    taken (table.filter fun entry => entry.principal != 0) = taken table := by
  unfold taken
  rw [filter_map, filter_map, filter_filter]
  simp [Function.comp_def]

omit [DecidableEq D] in
theorem Store.Sized.of_tables (hs : s.Sized) (hledger : t.ledger = s.ledger)
    (hretained : t.retained = s.retained) : t.Sized :=
  ⟨hledger ▸ hs.ledger, hretained ▸ hs.retained⟩

omit [DecidableEq D] in
theorem Store.Sized.checkpoint (hs : s.Sized) (ns arena : Nat) : (s.checkpoint ns arena).Sized where
  principals := hs.ledger.principals.length ▸ length_filter_le _ _
  distinct := by
    show (taken (s.principals.filter _)).Nodup
    rw [taken_filter]
    exact hs.ledger.principals.distinct
  named := fun entry he => by simpa using (mem_filter.mp he).2
  results := hs.ledger.results
  retained := hs.retained

/-- The state that appends where its log does not end. -/
def Store.misplaced (s : Store D C) (disk : Disk D C) (clock : List Nat) (prevDigest : D) :
    Store D C :=
  { s with
    disk
    clock
    prevDigest
    compactionGeneration := s.compactionGeneration + 1
    nextBlock := arenaBase (1 - s.arena) }

theorem Lodged.misplaced (hl : Lodged fmt rules P s hf h) {disk : Disk D C} (clock : List Nat)
    (prevDigest : D) (hs : Standing fmt rules P { s with disk } hf h)
    (hsure : rules.tidy → disk.Sure) (hup : disk.down = false → s.disk.down = false) :
    Lodged fmt rules P (s.misplaced disk clock prevDigest) hf h := by
  obtain ⟨sb, ha⟩ := hs.anchor
  refine ⟨⟨hs.sound, hs.labelled, hs.either, ⟨sb, ⟨ha.held, ha.generation, ha.arena,
    ha.checkpointSequence, ha.storeEpoch, ha.opens, ha.newest⟩⟩, hs.arenaStart, hs.arenaBlocks,
    hs.settled, hs.tidy, hs.holds, hs.chain, hs.suffix, hs.placed, hs.bounded, hs.last⟩,
    hl.indexes, ⟨hsure, fun ht hd => hl.neat.loose ht (hup hd)⟩, fun hend => ⟨hend, fun hroom => ?_⟩⟩
  exfalso
  have hbase : s.arenaStart = arenaBase s.arena := hl.standing.arenaStart
  have hblocks : s.arenaBlocks = arenaBlockCount := hl.standing.arenaBlocks
  have hfar := arenaBase_disjoint hl.standing.arena_le (rfl : 1 - s.arena = 1 - s.arena)
    (Nat.le_refl _) (Nat.lt_add_of_pos_right (by decide))
  change arenaBase (1 - s.arena) = s.arenaStart + h.length at hend
  change arenaBase (1 - s.arena) < s.arenaStart + s.arenaBlocks at hroom
  omega

/-- **The checkpoint opens a new log, or is refused** and the old one stands. -/
theorem Lodged.writeCheckpoint (hl : Lodged fmt rules P s hf h) (hsized : s.Sized)
    (hP : P s.ledger.reopened) :
    Ends (writeCheckpoint fmt s.arena)
      (fun opened t =>
        (opened = true → ∃ cp head, cp.payload = .checkpoint head ∧
          head.ledger = s.ledger.reopened ∧ Copying fmt rules P s hf h cp [] t) ∧
        (opened = false → ∃ disk clock prevDigest, t = { s.switched with disk, clock, prevDigest } ∧
          Lodged fmt rules P (s.misplaced disk clock prevDigest) hf h))
      (fun _ => False) s.switched := by
  refine Ends.now (Ends.get ?_)
  have hrefused : ∀ disk clock prevDigest, Standing fmt rules P { s with disk } hf h →
      (rules.tidy → disk.Sure) → (disk.down = false → s.disk.down = false) →
      ∃ disk' clock' prevDigest', ({ s.switched with disk, clock, prevDigest } : Store D C)
          = { s.switched with disk := disk', clock := clock', prevDigest := prevDigest' } ∧
        Lodged fmt rules P (s.misplaced disk' clock' prevDigest') hf h :=
    fun disk clock prevDigest hs hsure hup =>
      ⟨disk, clock, prevDigest, rfl, hl.misplaced clock prevDigest hs hsure hup⟩
  split
  · refine Ends.pure ⟨fun h => (Bool.noConfusion h), fun _ => ?_⟩
    exact hrefused s.disk s.clock.tail s.prevDigest hl.standing hl.neat.sure id
  · refine Ends.modify ?_
    generalize hhead : Store.checkpoint { s.switched with clock := s.switched.clock.tail }
      (s.switched.clock.headD 0) s.arena = head
    have hledger : head.ledger = s.ledger.reopened := by
      rw [← hhead]
      rfl
    have hhsized : head.Sized := by
      have hsized' : Store.Sized { s.switched with clock := s.switched.clock.tail } :=
        hsized.of_tables rfl rfl
      rw [← hhead]
      exact hsized'.checkpoint _ _
    generalize hu : ({ s.switched with clock := s.switched.clock.tail, prevDigest := fmt.zero } :
      Store D C) = u
    have hchain : Chain fmt rules [u.frame (.checkpoint head)] := .opened rfl hhsized
    have hproper : (u.frame (.checkpoint head)).Proper fmt rules := by
      refine ⟨fun h' hh => hchain.history.unique hh ▸ hchain, fun _ _ => ?_⟩
      rw [← hu]
      rfl
    have hstart : u.nextBlock = arenaBase (1 - s.arena) := by
      rw [← hu]
      rfl
    have hroom : u.nextBlock < u.arenaStart + u.arenaBlocks := by
      rw [← hu]
      exact Nat.lt_add_of_pos_right (show 0 < arenaBlockCount by decide)
    have hdisk : u.disk = s.disk := by
      rw [← hu]
      rfl
    have hstands : Standing fmt rules P
        { s with disk := (u.disk.write u.nextBlock (.record (u.frame (.checkpoint head)))).2 }
        hf h := by
      refine @Standing.write_foreign _ _ _ _ _ _ _ _ _ _ _ _ u.nextBlock hl.standing hchain rfl ?_
        (by simp) hproper (Nat.le_of_eq hstart.symm) ?_ _ ?_
      · rw [← hu]
        exact Nat.le_refl _
      · rw [hstart]
        exact Nat.lt_add_of_pos_right (by decide)
      · rw [hdisk]
        exact Disk.write_device _ _ _
    have hsure : rules.tidy →
        (u.disk.write u.nextBlock (.record (u.frame (.checkpoint head)))).2.Sure := fun ht => by
      rw [hdisk]
      exact ((hl.neat.sure ht).write _ _).1
    rcases @append_run _ _ fmt (.checkpoint head) u with
      ⟨hfull, -⟩ | ⟨-, -, hrun⟩ | ⟨-, hok, hrun⟩
    · exact absurd hroom (Nat.not_lt.mpr hfull)
    · refine Ends.after hrun (Ends.pure ⟨fun h => (Bool.noConfusion h), fun _ => ?_⟩)
      have := hrefused _ u.clock u.prevDigest hstands hsure fun h => hdisk ▸ Disk.write_up h
      rw [← hu] at this ⊢
      exact this
    · refine Ends.after hrun (Ends.modify (Ends.pure ⟨fun _ => ?_, fun h => (Bool.noConfusion h)⟩))
      refine ⟨u.frame (.checkpoint head), head, rfl, hledger, ?_⟩
      have hdevice := Disk.write_device_of_ok hok
      subst hu
      exact {
        old := hstands
        sure := hsure
        opening := ⟨head, rfl, hledger ▸ hP, hhsized⟩
        cpSequence := rfl
        cpArena := rfl
        cpEpoch := rfl
        objects := by simp
        chain := hchain
        placed := ⟨by
          show Device.read _ _ = _
          exact (congrArg (fun d => Device.read d _) hdevice).trans read_write_self, trivial⟩
        bounded := show 1 ≤ arenaBlockCount by decide
        nextBlock := rfl
        last := fun r hr => by
          obtain rfl := Option.some.inj hr
          exact ⟨rfl, rfl, rfl, rfl⟩
        arena := rfl
        arenaStart := rfl
        arenaBlocks := rfl
        slot := rfl
        generation := rfl
        checkpointSequence := rfl
        storeEpoch := rfl
        kept := ⟨rfl, rfl, rfl⟩
        digests := rfl
        wellFormed := fun entry he => ⟨hl.indexes.wellFormed entry he, hl.indexes.small entry he⟩
        copied := fun entry _ hd => (not_mem_nil hd).elim
        uncopied := fun entry he _ => he
        known := fun d hd => (not_mem_nil hd).elim }

/-! ### The copies -/

/-- The memory is in an arena its superblock does not name; where the rules keep the log tidy
and the power is there, the old log stands all the same. -/
structure Adrift (fmt : Format D C) (rules : Rules D) (P : Ledger D → Prop) (s : Store D C)
    (hf h : List (Record D C)) (t : Store D C) : Prop where
  medium : Medium fmt rules P t.disk.device
  sure : rules.tidy → t.disk.Sure
  astray : t.superblockSlot = s.superblockSlot ∧ t.arena = 1 - s.arena
  held : ∃ sb, t.disk.device.Holds (absolute t.superblockSlot) (.superblock sb) ∧
    sb.activeArena = s.arena
  still : rules.tidy → t.disk.down = false → Standing fmt rules P { s with disk := t.disk } hf h
  kept : Kept s t

variable {cp : Record D C} {objs : List (Record D C)}

theorem Copying.adrift (hc : Copying fmt rules P s hf h cp objs t) :
    Adrift fmt rules P s hf h t := by
  obtain ⟨sb, ha⟩ := hc.old.anchor
  exact ⟨hc.old.medium, hc.sure, ⟨hc.slot, hc.arena⟩, ⟨sb, hc.slot ▸ ha.held, ha.arena⟩,
    fun _ _ => hc.old, hc.kept⟩

theorem Copying.below (hc : Copying fmt rules P s hf h cp objs t) :
    ∀ x ∈ objs ++ [cp], x = cp ∨ x.IsObject := by
  intro x hx
  rcases mem_append.mp hx with hx | hx
  · exact .inr (hc.objects x hx)
  · exact .inl (mem_singleton.mp hx)

/-- **One object copied**, or the compaction stopped. -/
theorem Copying.copyObject (hl : Lodged fmt rules P s hf h)
    (hc : Copying fmt rules P s hf h cp objs t) (digest : D) :
    Ends (copyObject fmt digest) (fun _ u => ∃ objs', Copying fmt rules P s hf h cp objs' u)
      (Adrift fmt rules P s hf h) t := by
  refine Ends.get ?_
  split
  · rename_i entry hentry
    obtain ⟨hmem, rfl⟩ := Store.find_some hentry
    split
    · rename_i content hload
      obtain ⟨hwell, hsmall⟩ := hc.wellFormed entry hmem
      obtain ⟨hdigest, hsize⟩ := hwell.load hload
      have hnodup : (t.objects.map ObjectEntry.digest).Nodup := hc.digests ▸ hl.indexes.nodup
      have hcount : (t.objects.map ObjectEntry.digest).length ≤ maxObjects := by
        rw [hc.digests, length_map]
        exact hl.indexes.room
      generalize hframe : t.frame (.object entry.objectType entry.digest content) = r
      have hpayload : r.payload = .object entry.objectType entry.digest content := by
        rw [← hframe]
        rfl
      have hcons : ∀ h' : List (Record D C), objectDigests (r :: h')
          = entry.digest :: objectDigests h' := fun h' => objectDigests_cons_object hpayload
      have hall : objectDigests (objs ++ [cp]) = objectDigests objs := by
        obtain ⟨head, hhead, -⟩ := hc.opening
        unfold objectDigests
        rw [filterMap_append]
        simp [Record.objectDigest?, hhead]
      have hadm : Admissible fmt rules (objs ++ [cp]) r := by
        unfold Admissible
        rw [hpayload]
        refine ⟨hsize ▸ hsmall, hdigest, _, hnodup, hcount, ?_⟩
        rw [hcons, hall]
        intro d hd
        rcases mem_cons.mp hd with rfl | hd
        · exact mem_map.mpr ⟨entry, hmem, rfl⟩
        · obtain ⟨e, he, rfl⟩ := hc.known d hd
          exact mem_map.mpr ⟨e, he, rfl⟩
      obtain ⟨p, below, hlog⟩ : ∃ p below, objs ++ [cp] = p :: below :=
        exists_cons_of_ne_nil (by simp)
      have hafter := hc.last p (by rw [hlog]; rfl)
      have hfollows : Follows fmt r p := by
        rw [← hframe]
        exact ⟨hafter.prevDigest, hafter.nextSequence, hafter.storeEpoch, hafter.arena,
          fun _ h => by cases h⟩
      have hchain : Chain fmt rules (r :: (objs ++ [cp])) := by
        have := hc.chain
        rw [hlog] at this hadm ⊢
        exact .next this hfollows hadm
      have hproper : r.Proper fmt rules := hchain.proper hadm.inner
      have hfirst : (r :: (objs ++ [cp])).getLast? = some cp := by
        rw [← cons_append, getLast?_concat]
      have hlow : arenaBase (1 - s.arena) ≤ t.nextBlock := by
        rw [hc.nextBlock, hc.arenaStart]
        omega
      rcases @append_run _ _ fmt (.object entry.objectType entry.digest content) t with
        ⟨-, hrun⟩ | ⟨hroom, -, hrun⟩ | ⟨hroom, hok, hrun⟩
      · exact Ends.after hrun (Ends.ensure (fun h => (Bool.noConfusion h)) fun _ => hc.adrift)
      all_goals
        have hhigh : t.nextBlock < arenaBase (1 - s.arena) + arenaBlockCount := by
          rw [hc.arenaStart, hc.arenaBlocks] at hroom
          exact hroom
        have hstands : Standing fmt rules P
            { s with disk := (t.disk.write t.nextBlock (.record r)).2 } hf h :=
          hc.old.write_foreign hchain hfirst (Nat.le_of_eq hc.cpSequence.symm) hc.below hproper
            hlow hhigh (Disk.write_device _ _ _)
        have hsure : rules.tidy → (t.disk.write t.nextBlock (.record r)).2.Sure := fun ht =>
          ((hc.sure ht).write _ _).1
      · refine Ends.after hrun (Ends.ensure (fun h => (Bool.noConfusion h)) fun _ => ?_)
        obtain ⟨sb, ha⟩ := hstands.anchor
        unfold Store.refusedWrite
        rw [hframe]
        exact ⟨hstands.medium, hsure, ⟨hc.slot, hc.arena⟩, ⟨sb, hc.slot ▸ ha.held, ha.arena⟩,
          fun _ _ => hstands, hc.kept.trans ⟨rfl, rfl, rfl⟩⟩
      · refine Ends.after hrun (Ends.ensure (fun _ => ?_) fun hne => (hne rfl).elim)
        have hdevice := Disk.write_device_of_ok hok
        have hmap : (updateEntry entry.digest
            (fun e => { e with block := t.nextBlock, durable := true }) t.objects).map
              ObjectEntry.digest = t.objects.map ObjectEntry.digest := by
          unfold updateEntry
          rw [map_map]
          refine map_congr_left fun e _ => ?_
          simp only [Function.comp]
          split <;> rfl
        subst hframe
        refine ⟨t.frame (.object entry.objectType entry.digest content) :: objs, {
          old := hstands
          sure := hsure
          opening := hc.opening
          cpSequence := hc.cpSequence
          cpArena := hc.cpArena
          cpEpoch := hc.cpEpoch
          objects := fun x hx => ?_
          chain := hchain
          placed := ?_
          bounded := ?_
          nextBlock := ?_
          last := fun r hr => ?_
          arena := hc.arena
          arenaStart := hc.arenaStart
          arenaBlocks := hc.arenaBlocks
          slot := hc.slot
          generation := hc.generation
          checkpointSequence := hc.checkpointSequence
          storeEpoch := hc.storeEpoch
          kept := hc.kept.trans ⟨rfl, rfl, rfl⟩
          digests := hmap.trans hc.digests
          wellFormed := fun e he => ?_
          copied := fun e he hd => ?_
          uncopied := fun e he hd => ?_
          known := fun d hd => ?_ }⟩
        · rcases mem_cons.mp hx with rfl | hx
          · rfl
          · exact hc.objects x hx
        · show Placed (t.disk.write t.nextBlock _).2.device t.arenaStart _
          rw [hdevice, hc.nextBlock]
          exact hc.placed.append
        · rw [hc.nextBlock, hc.arenaBlocks] at hroom
          rw [cons_append, length_cons]
          omega
        · show t.nextBlock + 1 = t.arenaStart + _
          rw [hc.nextBlock, cons_append, length_cons]
          omega
        · obtain rfl := Option.some.inj hr
          exact ⟨rfl, rfl, rfl, rfl⟩
        · obtain ⟨old, hold, rfl | ⟨-, rfl⟩⟩ := mem_updateEntry he
          · exact hc.wellFormed _ hold
          · exact ⟨(hc.wellFormed old hold).1.moved rfl rfl rfl (.inl rfl),
              (hc.wellFormed old hold).2⟩
        · obtain ⟨old, hold, rfl | ⟨-, rfl⟩⟩ := mem_updateEntry he
          · rcases mem_cons.mp (hcons objs ▸ hd) with heq | hd'
            · obtain ⟨e', he', hmapped⟩ := mem_map.mp he
              rw [if_pos] at hmapped
              · rw [← hmapped]
                exact ⟨rfl, hc.nextBlock ▸ Nat.le_add_right _ _, by
                  show t.nextBlock < t.arenaStart + arenaBlockCount
                  rw [hc.arenaStart]
                  exact hhigh⟩
              · split at hmapped
                · assumption
                · rename_i hne
                  rw [hmapped] at hne
                  exact absurd heq hne
            · exact hc.copied e hold hd'
          · exact ⟨rfl, hc.nextBlock ▸ Nat.le_add_right _ _, by
              show t.nextBlock < t.arenaStart + arenaBlockCount
              rw [hc.arenaStart]
              exact hhigh⟩
        · obtain ⟨old, hold, rfl | ⟨hsame, rfl⟩⟩ := mem_updateEntry he
          · exact hc.uncopied e hold fun hd' => hd (hcons objs ▸ mem_cons_of_mem _ hd')
          · exact absurd (hcons objs ▸ hsame ▸ mem_cons_self) hd
        · have hin : d ∈ t.objects.map ObjectEntry.digest := by
            rcases mem_cons.mp (hcons objs ▸ hd) with rfl | hd'
            · exact mem_map.mpr ⟨entry, hmem, rfl⟩
            · obtain ⟨e, he, rfl⟩ := hc.known d hd'
              exact mem_map.mpr ⟨e, he, rfl⟩
          rw [← hmap] at hin
          exact mem_map.mp hin
    · exact Ends.throw hc.adrift
  · exact Ends.throw hc.adrift

/-! ### The switch -/

omit [DecidableEq D] in
theorem Settled.flush {start : Nat} {h : List (Record D C)}
    (hs : Settled d start h) : Settled d.flush start h := by
  induction h with
  | nil => trivial
  | cons r h ih => exact ⟨hs.1.flush, ih hs.2⟩

omit [DecidableEq D] in
theorem Tidy.flush (ht : Tidy fmt d h) : Tidy fmt d.flush h :=
  ht.of_possible fun _ _ hr => mem_possible_flush hr ▸ read_mem_possible

omit [DecidableEq D] in
theorem Tidy.write_other {block : Nat} {x : Block D C}
    (ht : Tidy fmt d h) (hx : ∀ r, x ≠ .record r) : Tidy fmt (d.write .other block x) h := by
  refine ht.of_possible fun b r hr => ?_
  rcases mem_possible_write hr with ⟨-, heq⟩ | hother | hold
  · exact absurd heq.symm (hx r)
  · cases hother
  · exact hold

variable {sb : Superblock D}

theorem Stands.write_slot {slot : Nat}
    {x : Block D C} (hs : Stands fmt rules P d sb h) (hstandard : sb.Standard)
    (hslot : slot = superblockA ∨ slot = superblockB) (hx : ∀ r, x ≠ .record r) :
    Stands fmt rules P (d.write .other (absolute slot) x) sb h := by
  refine { hs with settled := hs.settled.write (.inl ?_), tidy := fun ht => (hs.tidy ht).write_other hx }
  have := arenaBase_ge sb.activeArena
  have := absolute_slot_le hslot
  rw [hstandard.start_eq]
  omega

theorem Stands.flush (hs : Stands fmt rules P d sb h) : Stands fmt rules P d.flush sb h :=
  { hs with settled := hs.settled.flush, tidy := fun ht => (hs.tidy ht).flush }

theorem Standing.stands (hs : Standing fmt rules P s hf h) :
    ∃ sb, Anchored s hf sb ∧ sb.Standard ∧ Stands fmt rules P s.disk.device sb hf := by
  obtain ⟨sb, ha⟩ := hs.anchor
  have hstandard : sb.Standard := hs.labelled _ _ (ha.held.read_eq ▸ read_mem_possible)
  refine ⟨sb, ha, hstandard, ?_, ha.opens, hs.chain.suffix hs.suffix hs.ne_nil,
    Nat.le_trans hs.suffix.length_le hs.bounded, hs.tidy, hs.holds⟩
  rw [hstandard.start_eq, ha.arena, ← hs.arenaStart]
  exact hs.settled

theorem Standing.flushed (hs : Standing fmt rules P s hf h) {disk : Disk D C}
    (hdisk : disk.device = s.disk.device.flush) : Standing fmt rules P { s with disk } hf h := by
  obtain ⟨sb, ha⟩ := hs.anchor
  refine ⟨?_, ?_, hs.either, ⟨sb, { ha with held := ?_, newest := fun sb' hsb' => ?_ }⟩,
    hs.arenaStart, hs.arenaBlocks, ?_, fun ht => ?_, hs.holds, hs.chain, hs.suffix, ?_, hs.bounded,
    hs.last⟩
  · rw [hdisk]
    exact hs.sound.flush
  · rw [hdisk]
    exact hs.labelled.flush
  · rw [hdisk]
    exact ha.held.flush
  · rw [hdisk] at hsb'
    exact ha.newest sb' (mem_possible_flush hsb' ▸ read_mem_possible)
  · rw [hdisk]
    exact hs.settled.flush
  · rw [hdisk]
    exact (hs.tidy ht).flush
  · rw [hdisk]
    exact hs.placed.flush.placed

theorem Copying.superblock (hc : Copying fmt rules P s hf h cp objs t)
    (hsettled : Settled t.disk.device t.arenaStart (objs ++ [cp])) (generation : Nat) :
    (t.superblock generation).Standard ∧
      Stands fmt rules P t.disk.device (t.superblock generation) (objs ++ [cp]) := by
  have harena : t.arena ≤ 1 := by
    rw [hc.arena]
    exact Nat.sub_le _ _
  have hstandard : (t.superblock generation).Standard := ⟨harena, rfl, rfl, rfl, rfl⟩
  obtain ⟨head, hhead, hP, hsized⟩ := hc.opening
  obtain ⟨opening, hopening, hbefore⟩ := hc.old.opening
  refine ⟨hstandard, ?_, ⟨cp, getLast?_concat, ?_, ?_⟩, hc.chain, hc.bounded, fun ht => ?_,
    ?_⟩
  · rw [hstandard.start_eq, show (t.superblock generation).activeArena = 1 - s.arena from hc.arena,
      ← hc.arenaStart]
    exact hsettled
  · exact decide_eq_true ⟨hc.checkpointSequence.symm, hc.cpEpoch.trans hc.storeEpoch.symm,
      hc.cpArena.trans hc.arena.symm⟩
  · obtain ⟨r, hr⟩ : ∃ r, (objs ++ [cp]).head? = some r :=
      Option.isSome_iff_exists.mp (by simp)
    have hsequence := hc.chain.history.sequence_eq hr getLast?_concat
    show t.nextSequence - 1 < t.checkpointSequence + _
    rw [hc.checkpointSequence, ← hsequence, (hc.last r hr).nextSequence]
    exact Nat.lt_succ_self _
  · exact (hc.old.tidy ht).succeed hhead hopening (by rw [hc.cpSequence]; exact hbefore)
  · rw [ledger_append_objects hc.objects]
    show P ((ledger fmt []).step fmt cp)
    unfold Ledger.step
    rw [hhead]
    exact hP

/-- The medium with the superblock of the new log written and not flushed. -/
def Store.handedOver (s t : Store D C) : Device (Block D C) :=
  t.disk.device.write .other (absolute (otherSlot s.superblockSlot))
    (.superblock (t.superblock (s.superblockGeneration + 1)))

theorem Copying.medium_named (hc : Copying fmt rules P s hf h cp objs t)
    (hsettled : Settled t.disk.device t.arenaStart (objs ++ [cp])) :
    Medium fmt rules P (s.handedOver t) := by
  obtain ⟨hstandard', hstands'⟩ := hc.superblock hsettled (s.superblockGeneration + 1)
  obtain ⟨sb, ha, hstandard, hstands⟩ := hc.old.stands
  have hother := otherSlot_either s.superblockSlot
  have hne := absolute_otherSlot_ne s.superblockSlot
  refine ⟨hc.old.sound.write nofun, hc.old.labelled.write ?_,
    .inl ⟨s.superblockSlot, sb, hf, hc.old.either, ha.held.write_of_ne hne,
      hstands.write_slot hstandard hother nofun, fun sb' hsb' => ?_⟩⟩
  · intro sb' h
    cases h
    exact hstandard'
  · rcases mem_possible_write hsb' with ⟨-, heq⟩ | htorn | hold
    · cases heq
      refine .inr ⟨?_, _, hstands'.write_slot hstandard' hother nofun⟩
      rw [ha.generation]
      exact Nat.lt_succ_self _
    · cases htorn
    · exact .inl (ha.newest sb' hold)

theorem Copying.medium_torn (hc : Copying fmt rules P s hf h cp objs t) :
    Medium fmt rules P
      (t.disk.device.write .other (absolute (otherSlot s.superblockSlot)) .other) := by
  obtain ⟨sb, ha, hstandard, hstands⟩ := hc.old.stands
  have hne := absolute_otherSlot_ne s.superblockSlot
  refine ⟨hc.old.sound.write nofun,
    hc.old.labelled.write nofun,
    .inl ⟨s.superblockSlot, sb, hf, hc.old.either, ha.held.write_of_ne hne,
      hstands.write_slot hstandard (otherSlot_either _) nofun, fun sb' hsb' => ?_⟩⟩
  rcases mem_possible_write hsb' with ⟨-, heq⟩ | htorn | hold
  · cases heq
  · cases htorn
  · exact .inl (ha.newest sb' hold)

theorem Copying.flushed (hc : Copying fmt rules P s hf h cp objs t) {disk : Disk D C}
    (hdisk : disk.device = t.disk.device.flush) (hsure : rules.tidy → disk.Sure) :
    Copying fmt rules P s hf h cp objs { t with disk } ∧
      Settled disk.device t.arenaStart (objs ++ [cp]) := by
  have hsettled : Settled disk.device t.arenaStart (objs ++ [cp]) := by
    rw [hdisk]
    exact hc.placed.flush
  have hold : Standing fmt rules P { s with disk } hf h := hc.old.flushed hdisk
  exact ⟨⟨hold, hsure, hc.opening, hc.cpSequence, hc.cpArena, hc.cpEpoch, hc.objects, hc.chain,
    hsettled.placed, hc.bounded, hc.nextBlock, fun r hr => ⟨(hc.last r hr).1, (hc.last r hr).2,
      (hc.last r hr).3, (hc.last r hr).4⟩, hc.arena, hc.arenaStart, hc.arenaBlocks, hc.slot,
    hc.generation, hc.checkpointSequence, hc.storeEpoch, hc.kept.trans ⟨rfl, rfl, rfl⟩, hc.digests,
    hc.wellFormed, hc.copied, hc.uncopied, hc.known⟩, hsettled⟩

/-- **The new log takes the old one's place** once its superblock is durable. -/
theorem Copying.succeed (hc : Copying fmt rules P s hf h cp objs t)
    (hsettled : Settled t.disk.device t.arenaStart (objs ++ [cp])) {disk : Disk D C}
    (hdisk : disk.device = (s.handedOver t).flush)
    (hsure : rules.tidy → disk.Sure) (durableThrough : Nat) :
    Ready fmt rules P { t with
      disk, durableThrough
      superblockSlot := otherSlot s.superblockSlot
      superblockGeneration := s.superblockGeneration + 1 } (objs ++ [cp]) (objs ++ [cp]) := by
  obtain ⟨hstandard', hstands'⟩ := hc.superblock hsettled (s.superblockGeneration + 1)
  obtain ⟨sb, ha, -, -⟩ := hc.old.stands
  have hmedium := hc.medium_named hsettled
  have hne := absolute_otherSlot_ne s.superblockSlot
  have hnew := (hstands'.write_slot
    (x := .superblock (t.superblock (s.superblockGeneration + 1))) hstandard'
    (otherSlot_either s.superblockSlot) nofun).flush
  have hstart : (t.superblock (s.superblockGeneration + 1)).start = t.arenaStart := by
    rw [hstandard'.start_eq, hc.arenaStart]
    exact congrArg arenaBase hc.arena
  have hnextArena : ∀ r ∈ (objs ++ [cp]).head?, t.After fmt r := hc.last
  refine ⟨⟨?_, ?_, otherSlot_either _, ⟨t.superblock (s.superblockGeneration + 1), ?_⟩, ?_,
    hc.arenaBlocks, ?_, ?_, hnew.holds, hc.chain, suffix_refl _, ?_, hc.bounded, ?_⟩,
    ⟨hc.nextBlock, fun _ r hr => (hnextArena r hr).prevDigest⟩, hsure, ?_⟩
  · rw [hdisk]
    exact hmedium.sound.flush
  · rw [hdisk]
    exact hmedium.labelled.flush
  · refine ⟨?_, rfl, rfl, rfl, rfl, hnew.opens, fun sb' hsb' => ?_⟩
    · have hread := holds_flush (d := s.handedOver t) (b := absolute (otherSlot s.superblockSlot))
      rw [hdisk]
      rwa [Store.handedOver, read_write_self] at hread
    · rw [hdisk, otherSlot_otherSlot hc.old.either] at hsb'
      have hheld : (s.handedOver t).flush.Holds (absolute s.superblockSlot) (.superblock sb) :=
        (ha.held.write_of_ne hne).flush
      have heq := hheld.possible_eq hsb'
      cases heq
      show sb.superblockGeneration < s.superblockGeneration + 1
      rw [ha.generation]
      exact Nat.lt_succ_self _
  · show t.arenaStart = arenaBase t.arena
    rw [hc.arenaStart, hc.arena]
  · rw [hdisk]
    exact hstart ▸ hnew.settled
  · rw [hdisk]
    exact hnew.tidy
  · rw [hdisk]
    exact hstart ▸ hnew.settled.placed
  · intro r hr
    exact ⟨(hnextArena r hr).nextSequence, (hnextArena r hr).storeEpoch, (hnextArena r hr).arena⟩
  · intro _ _ top htop x hx
    have : top = [] := by simpa using htop
    rw [this] at hx
    cases hx

/-- **The switch to the new log**, or the compaction stopped. -/
theorem Copying.switchOver (hc : Copying fmt rules P s hf h cp objs t) :
    Ends (switchOver s.superblockSlot s.superblockGeneration)
      (fun _ u => Ready fmt rules P u (objs ++ [cp]) (objs ++ [cp]) ∧ Kept s u ∧
        u.objects = t.objects ∧ u.arenaStart = t.arenaStart)
      (Adrift fmt rules P s hf h) t := by
  rcases t.disk.flush_cases with ⟨hok, hdevice⟩ | ⟨hno, hdevice⟩
  · have hrun : flush t = .ok true { t with disk := t.disk.flush.2 } := by
      unfold flush
      rw [hok]
    refine Ends.after hrun (Ends.ensure (fun _ => ?_) fun hne => (hne rfl).elim)
    obtain ⟨hc', hsettled⟩ := hc.flushed hdevice fun ht => ((hc.sure ht).flush).1
    generalize hu : ({ t with disk := t.disk.flush.2 } : Store D C) = u at hc' ⊢
    have hsettled' : Settled u.disk.device u.arenaStart (objs ++ [cp]) := by
      rw [← hu]
      exact hsettled
    have hobjects : u.objects = t.objects ∧ u.arenaStart = t.arenaStart := by
      rw [← hu]
      exact ⟨rfl, rfl⟩
    obtain ⟨sb, ha, -, -⟩ := hc'.old.stands
    have hne := absolute_otherSlot_ne s.superblockSlot
    -- whatever comes of the write, the old superblock is there and the medium is sound
    have hafter : ∀ {disk : Disk D C}, (rules.tidy → disk.Sure) →
        (rules.tidy → disk.down = true) →
        disk.device = u.disk.device ∨
          disk.device = u.disk.device.write .other (absolute (otherSlot s.superblockSlot)) .other ∨
          disk.device = s.handedOver u →
        ∀ n, Adrift fmt rules P s hf h { u with disk, durableThrough := n } := by
      intro disk hsure hdown hdev n
      refine ⟨?_, hsure, ⟨hc'.slot, hc'.arena⟩, ⟨sb, ?_, ha.arena⟩, fun ht hup => ?_,
        hc'.kept.trans ⟨rfl, rfl, rfl⟩⟩
      · rcases hdev with h | h | h
        · rw [h]
          exact hc'.old.medium
        · rw [h]
          exact hc'.medium_torn
        · rw [h]
          exact hc'.medium_named hsettled'
      · show Device.Holds disk.device (absolute u.superblockSlot) _
        rw [hc'.slot]
        rcases hdev with h | h | h
        · rw [h]
          exact ha.held
        · rw [h]
          exact ha.held.write_of_ne hne
        · rw [h]
          exact ha.held.write_of_ne hne
      · rw [hdown ht] at hup
        cases hup
    rcases hw : u.disk.write (absolute (otherSlot s.superblockSlot))
      (.superblock (u.superblock (s.superblockGeneration + 1))) with ⟨landed, disk⟩
    have hwrite := u.disk.write_device (absolute (otherSlot s.superblockSlot))
      (.superblock (u.superblock (s.superblockGeneration + 1)))
    have hsure : rules.tidy → disk.Sure ∧ (landed = false → disk.down = true) := fun ht => by
      have := (hc'.sure ht).write (absolute (otherSlot s.superblockSlot))
        (.superblock (u.superblock (s.superblockGeneration + 1)))
      rw [hw] at this
      exact this
    rw [hw] at hwrite
    cases landed with
    | false =>
      have hsb : writeSuperblock (otherSlot s.superblockSlot) (s.superblockGeneration + 1) u
          = .ok false { u with disk } := by
        unfold writeSuperblock
        rw [hw]
      refine Ends.after hsb (Ends.ensure (fun h => (Bool.noConfusion h)) fun _ => ?_)
      exact hafter (fun ht => (hsure ht).1) (fun ht => (hsure ht).2 rfl) hwrite u.durableThrough
    | true =>
      have hsb : writeSuperblock (otherSlot s.superblockSlot) (s.superblockGeneration + 1) u
          = .ok true { u with disk, durableThrough := u.nextSequence - 1 } := by
        unfold writeSuperblock
        rw [hw]
      have hwritten : disk.device = s.handedOver u := by
        have := @Disk.write_device_of_ok _ _ u.disk (absolute (otherSlot s.superblockSlot))
          (.superblock (u.superblock (s.superblockGeneration + 1))) (by rw [hw])
        rw [hw] at this
        exact this
      refine Ends.after hsb (Ends.ensure (fun _ => ?_) fun hne => (hne rfl).elim)
      rcases disk.flush_cases with ⟨hok', hdevice'⟩ | ⟨hno', hdevice'⟩
      · refine Ends.after (b := true)
          (t := { u with disk := disk.flush.2, durableThrough := u.nextSequence - 1 }) ?_
          (Ends.ensure (fun _ => ?_) fun hne => (hne rfl).elim)
        · unfold flush
          rw [← hok']
        · refine ⟨?_, hc'.kept.trans ⟨rfl, rfl, rfl⟩, hobjects.1, hobjects.2⟩
          exact hc'.succeed hsettled' (hdevice'.trans (congrArg Device.flush hwritten))
            (fun ht => ((hsure ht).1.flush).1) _
      · refine Ends.after (b := false)
          (t := { u with disk := disk.flush.2, durableThrough := u.nextSequence - 1 }) ?_
          (Ends.ensure (fun h => (Bool.noConfusion h)) fun _ => ?_)
        · unfold flush
          rw [← hno']
        · exact hafter (fun ht => ((hsure ht).1.flush).1) (fun ht => ((hsure ht).1.flush).2 hno')
            (hdevice' ▸ hwrite) _
  · have hrun : flush t = .ok false { t with disk := t.disk.flush.2 } := by
      unfold flush
      rw [hno]
    refine Ends.after hrun (Ends.ensure (fun h => (Bool.noConfusion h)) fun _ => ?_)
    obtain ⟨sb, ha⟩ := hc.old.anchor
    have hold : Standing fmt rules P { s with disk := t.disk.flush.2 } hf h :=
      hc.old.of_same ⟨hdevice, rfl, rfl, rfl, rfl, rfl, rfl, rfl, rfl, rfl, rfl⟩
    refine ⟨hold.medium, fun ht => ((hc.sure ht).flush).1, ⟨hc.slot, hc.arena⟩, ⟨sb, ?_, ha.arena⟩,
      fun _ _ => hold, hc.kept.trans ⟨rfl, rfl, rfl⟩⟩
    show Device.Holds t.disk.flush.2.device (absolute t.superblockSlot) _
    rw [hdevice, hc.slot]
    exact ha.held

theorem Copying.indexes (hl : Lodged fmt rules P s hf h)
    (hc : Copying fmt rules P s hf h cp objs t) :
    Indexes fmt t.arenaStart
      (t.objects.filter fun entry => !entry.leftIn s.arenaStart s.arenaBlocks)
      (objs ++ [cp]) := by
  have hall : objectDigests (objs ++ [cp]) = objectDigests objs := by
    obtain ⟨head, hhead, -⟩ := hc.opening
    unfold objectDigests
    rw [filterMap_append]
    simp [Record.objectDigest?, hhead]
  -- what stays and is durable was copied, because whatever was not is in the old arena
  have hcopied : ∀ entry ∈ t.objects, entry.leftIn s.arenaStart s.arenaBlocks = false →
      entry.durable = true → entry.digest ∈ objectDigests objs := by
    intro entry he hstays hdurable
    by_contra hnot
    obtain ⟨hlow, hhigh⟩ := hl.indexes.housed entry (hc.uncopied entry he hnot) hdurable
    unfold ObjectEntry.leftIn at hstays
    rw [hl.standing.arenaBlocks, hdurable] at hstays
    simp [hlow, hhigh] at hstays
  refine ⟨fun entry he => (hc.wellFormed entry (mem_filter.mp he).1).1, ?_, ?_,
    fun entry he => (hc.wellFormed entry (mem_filter.mp he).1).2, fun digest => ?_,
    fun entry he hdurable => ?_⟩
  · exact (hc.digests ▸ hl.indexes.nodup).sublist (filter_sublist.map _)
  · refine Nat.le_trans (length_filter_le _ _) ?_
    have := congrArg List.length hc.digests
    rw [length_map, length_map] at this
    rw [this]
    exact hl.indexes.room
  · rw [hall]
    constructor
    · rintro ⟨entry, he, rfl, hdurable⟩
      obtain ⟨hmem, hstays⟩ := mem_filter.mp he
      exact hcopied entry hmem (by simpa using hstays) hdurable
    · intro hd
      obtain ⟨entry, hmem, rfl⟩ := hc.known digest hd
      obtain ⟨hdurable, hlow, hhigh⟩ := hc.copied entry hmem hd
      refine ⟨entry, mem_filter.mpr ⟨hmem, ?_⟩, rfl, hdurable⟩
      rw [hc.arenaStart] at hlow hhigh
      have hfar := arenaBase_disjoint hl.standing.arena_le rfl hlow hhigh
      unfold ObjectEntry.leftIn
      rw [hl.standing.arenaStart, hl.standing.arenaBlocks, hdurable]
      rcases hfar with hfar | hfar
      · simp [Nat.not_le.mpr hfar]
      · simp [Nat.not_lt.mpr hfar]
  · obtain ⟨hmem, hstays⟩ := mem_filter.mp he
    exact (hc.copied entry hmem (hcopied entry hmem (by simpa using hstays) hdurable)).2

/-- **What a compaction does**: it leaves the store live on a new log, which opens with the
tables in memory; or it stops, and leaves the old log alone. -/
theorem Lodged.compact (hl : Lodged fmt rules P s hf h) (hsized : s.Sized)
    (hP : s.pending = none → P s.ledger.reopened) :
    Ends (compact fmt)
      (fun _ t => Kept s t ∧ s.pending = none ∧
        ∃ h', Live fmt rules P t h' h' ∧ ledger fmt h' = s.ledger.reopened)
      (fun t => Kept s t ∧ (Lodged fmt rules P t hf h ∨ Adrift fmt rules P s hf h t)) s := by
  have hstop : Kept s s ∧ (Lodged fmt rules P s hf h ∨ Adrift fmt rules P s hf h s) :=
    ⟨Kept.refl s, .inl hl⟩
  refine Ends.get (Ends.ensure (fun _ => Ends.ensure (fun hidle => ?_) fun _ => hstop) fun _ => hstop)
  have hnone : s.pending = none := by simpa using hidle
  split
  · exact Ends.throw hstop
  · rename_i copied hcopied
    refine Ends.ensure (fun _ => Ends.modify (Ends.bind ?_)) fun _ => hstop
    refine (hl.writeCheckpoint hsized (hP hnone)).mono (fun opened u hu => ?_) fun _ hfalse => hfalse.elim
    cases opened with
    | true =>
      obtain ⟨cp, head, hcp, hledger, hc⟩ := hu.1 rfl
      have hloop : Ends (copied.forM (copyObject fmt))
          (fun _ v => ∃ objs, Copying fmt rules P s hf h cp objs v)
          (Adrift fmt rules P s hf h) u :=
        Ends.forM (I := fun _ v => ∃ objs, Copying fmt rules P s hf h cp objs v) copied ⟨[], hc⟩
          fun _ digest _ v _ hv => hv.elim fun _ hv => hv.copyObject hl digest
      refine Ends.bind (hloop.mono (fun _ v hv => ?_) fun v hv => ⟨hv.kept, .inr hv⟩)
      obtain ⟨objs, hv⟩ := hv
      refine Ends.bind (hv.switchOver.mono (fun _ w hw => ?_) fun w hw => ⟨hw.kept, .inr hw⟩)
      obtain ⟨hready, hkept, hobjects, hstart⟩ := hw
      refine Ends.modify (Ends.pure ⟨hkept.trans ⟨rfl, rfl, rfl⟩, hnone, objs ++ [cp], ?_, ?_⟩)
      · have hsame : SameLog w { w with
            objects := w.objects.filter fun entry =>
              !entry.leftIn s.arenaStart s.arenaBlocks } :=
          ⟨rfl, rfl, rfl, rfl, rfl, rfl, rfl, rfl, rfl, rfl, rfl⟩
        refine ⟨⟨hready.standing.of_same hsame, hready.atEnd.of_same hsame,
          hready.neat.of_disk rfl⟩, ?_⟩
        show Indexes fmt w.arenaStart (w.objects.filter _) _
        rw [hobjects, hstart]
        exact hv.indexes hl
      · rw [ledger_append_objects hv.objects]
        show (ledger fmt []).step fmt cp = _
        unfold Ledger.step
        rw [hcp]
        exact hledger
    | false =>
      obtain ⟨disk, clock, prevDigest, rfl, hmis⟩ := hu.2 rfl
      exact ⟨⟨rfl, rfl, rfl⟩, .inl hmis⟩

end Thalyx.K4
