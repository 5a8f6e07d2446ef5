/-
How the marks in memory agree with those the log tells.

The memory knows every principal the log does, with the same high-water mark; it may know
more, because a principal takes an entry when it first asks and the log hears of it only
when it publishes.  So the log always has room for a principal the memory has an entry for.
-/
import ThalyxKernel.Store.Account

namespace Thalyx.K4

open List

variable {D C : Type} {fmt : Format D C} {l m : Ledger D} {p q : Nat}

/-- The marks of the log are the memory's. -/
structure Marked (l m : Ledger D) : Prop where
  marks : ∀ p, p ≠ 0 → highWaterOf l.principals p = highWaterOf m.principals p
  known : taken m.principals ⊆ taken l.principals

theorem Marked.refl (l : Ledger D) : Marked l l := ⟨fun _ _ => rfl, fun _ => id⟩

theorem Marked.slot (hm : Marked l m) (hl : l.Sized) (hs : m.Sized) (hp : p ∈ taken l.principals) :
    (principalSlot p m.principals).isSome := by
  have hne : p ≠ 0 := (mem_taken.mp hp).1
  rw [principalSlot_isSome hs.principals hne]
  by_cases hin : p ∈ taken m.principals
  · exact .inl hin
  · refine .inr ?_
    have hsub : p :: taken m.principals ⊆ taken l.principals := by
      intro q hq
      rcases List.mem_cons.mp hq with rfl | hq
      · exact hp
      · exact hm.known hq
    have hlen := (List.nodup_cons.mpr ⟨hin, hs.principals.distinct⟩).length_le_of_subset hsub
    have hcount : (taken l.principals).length ≤ maxPrincipals := by
      unfold taken
      refine Nat.le_trans (length_filter_le _ _) ?_
      rw [length_map]
      exact Nat.le_of_eq hl.principals.length
    rw [length_cons] at hlen
    omega

variable {table : List PrincipalEntry}

theorem Marked.allot (hm : Marked l m) (hl : l.Sized) {i : Nat}
    (hslot : principalSlot p l.principals = some (i, table)) :
    Marked { l with principals := table } m := by
  rw [principalSlot_table hslot]
  refine ⟨fun q hq => ?_, fun q hq => ?_⟩
  · rw [← hm.marks q hq]
    exact (marks_withPrincipal_id hl.principals hq).1
  · exact (mem_taken_withPrincipal hl.principals fun _ => rfl).mpr (.inl (hm.known hq))

theorem mem_taken_of_slot (hl : l.Sized) (hp : p ≠ 0) {i : Nat}
    (hslot : principalSlot p l.principals = some (i, table)) : p ∈ taken table := by
  rw [principalSlot_table hslot]
  refine (mem_taken_withPrincipal hl.principals fun _ => rfl).mpr (.inr ⟨hp, rfl, ?_⟩)
  rw [hslot]
  rfl

section Steps

variable {pending pending' : Pending D}

theorem mem_taken_prepare (hl : l.Sized) :
    q ∈ taken (l.prepare pending).principals ↔ q ∈ taken l.principals ∨
      (q ≠ 0 ∧ q = pending.principal ∧ (principalSlot pending.principal l.principals).isSome) :=
  mem_taken_withPrincipal hl.principals fun _ => rfl

theorem mem_taken_settle (hl : l.Sized) {entry : ResultEntry D} :
    q ∈ taken (l.settle entry).principals ↔ q ∈ taken l.principals ∨
      (q ≠ 0 ∧ q = entry.principal ∧ (principalSlot entry.principal l.principals).isSome) :=
  mem_taken_withPrincipal hl.principals fun _ => rfl

theorem Marked.unknown (hm : Marked l m) (hs : m.Sized) (hp : pending.principal ∈ taken l.principals) :
    Marked l (m.prepare pending) := by
  refine ⟨fun q hq => ?_, fun q hq => ?_⟩
  · rw [hm.marks q hq]
    exact (highWaterOf_markPending hs.principals _ hq).symm
  · rcases (mem_taken_prepare hs).mp hq with hq | ⟨-, rfl, -⟩
    · exact hm.known hq
    · exact hp

theorem Marked.prepare (hm : Marked l m) (hl : l.Sized) (hs : m.Sized)
    (hp : pending'.principal ∈ taken l.principals) :
    Marked (l.prepare pending) (m.prepare pending') := by
  have hunknown := hm.unknown hs hp
  refine ⟨fun q hq => ?_, fun q hq => ?_⟩
  · rw [← hunknown.marks q hq]
    exact highWaterOf_markPending hl.principals _ hq
  · exact (mem_taken_prepare hl).mpr (.inl (hunknown.known hq))

theorem Marked.settle (hm : Marked l m) (hl : l.Sized) (hs : m.Sized) {entry entry' : ResultEntry D}
    (hprincipal : entry'.principal = entry.principal)
    (hsequence : entry'.requestSequence = entry.requestSequence)
    (hp : entry.principal ∈ taken l.principals) : Marked (l.settle entry) (m.settle entry') := by
  have hslot' := hm.slot hl hs hp
  have hslot : (principalSlot entry.principal l.principals).isSome :=
    (principalSlot_isSome hl.principals (mem_taken.mp hp).1).mpr (.inl hp)
  refine ⟨fun q hq => ?_, fun q hq => ?_⟩
  · show highWaterOf (markResolved _ _ _) q = highWaterOf (markResolved _ _ _) q
    rw [highWaterOf_markResolved hl.principals _ hslot hq, hprincipal, hsequence,
      highWaterOf_markResolved hs.principals _ hslot' hq]
    split
    · rfl
    · exact hm.marks q hq
  · rcases (mem_taken_settle hs).mp hq with hq | ⟨-, heq, -⟩
    · exact (mem_taken_settle hl).mpr (.inl (hm.known hq))
    · rw [heq, hprincipal]
      exact (mem_taken_settle hl).mpr (.inl hp)

end Steps

/-! ### Checkpoints -/

theorem entryOf_reopened (l : Ledger D) (hq : q ≠ 0) :
    entryOf l.reopened.principals q = entryOf l.principals q := by
  unfold entryOf Ledger.reopened
  dsimp only
  rw [find?_append, find?_filter]
  have hnone : ∀ n, (List.replicate n PrincipalEntry.zeroed).find? (fun e => e.principal == q)
      = none := by
    intro n
    refine List.find?_eq_none.mpr fun e he => ?_
    rw [(List.mem_replicate.mp he).2]
    simpa [PrincipalEntry.zeroed] using Ne.symm hq
  rw [hnone, Option.or_none]
  congr 1
  funext e
  by_cases he : e.principal = q
  · simp [he, hq]
  · simp [he]

theorem Marked.reopened (l : Ledger D) : Marked l l.reopened := by
  refine ⟨fun q hq => ?_, fun q hq => ?_⟩
  · unfold highWaterOf
    rw [entryOf_reopened l hq]
  · obtain ⟨hne, hsome⟩ := mem_taken.mp hq
    rw [entryOf_reopened l hne] at hsome
    exact mem_taken.mpr ⟨hne, hsome⟩

/-! ### Publications -/

section Publications

variable {s t u : Store D C} {hf h hf' h' : List (Record D C)} {q : Publication D} {request : D}
  {r c : Record D C} {g : Nat}

theorem Admitted.marked {m : Ledger D} (ha : Admitted fmt q s request u) (hs : s.Sized)
    (hq : q.principal ≠ 0) (hm : Marked s.ledger m) :
    Marked u.ledger m ∧ u.Sized ∧ q.principal ∈ taken u.ledger.principals ∧
      q.sequence = highWaterOf m.principals q.principal + 1 := by
  obtain ⟨hquiet, hallotted⟩ := ha.allotted
  have husized := hs.allotted hq hquiet hallotted
  obtain ⟨i, table, hslot, rfl, hnext, -⟩ := ha.slot
  refine ⟨hm.allot hs.ledger hslot, husized, mem_taken_of_slot hs.ledger hq hslot, ?_⟩
  rw [← hm.marks _ hq, hnext, principalSlot_entry hs.ledger.principals hslot]
  unfold highWaterOf
  cases entryOf s.ledger.principals q.principal <;> rfl

theorem Marked.prepares (hm : Marked l m) (hl : l.Sized) (hs : m.Sized) (hr : Prepares q request r)
    (hp : q.principal ∈ taken l.principals) :
    Marked (l.step fmt r) (m.step fmt r) ∧ q.principal ∈ taken (l.step fmt r).principals := by
  obtain ⟨pending, hprincipal, -, -, -, -, -, hstep⟩ := @Prepares.step _ _ fmt _ _ _ hr l
  obtain ⟨pending', hprincipal', -, -, -, -, -, hstep'⟩ := @Prepares.step _ _ fmt _ _ _ hr m
  rw [hstep, hstep']
  exact ⟨hm.prepare hl hs (hprincipal' ▸ hp), (mem_taken_prepare hl).mpr (.inl hp)⟩

theorem Marked.commits (hm : Marked l m) (hl : l.Sized) (hs : m.Sized) (hc : Commits fmt q g r c)
    (hp : q.principal ∈ taken l.principals) :
    Marked (l.step fmt c) (m.step fmt c) ∧ (l.step fmt c).generation = g ∧
      (m.step fmt c).generation = g := by
  obtain ⟨record, hpayload, hprincipal, -, hg, -, -, hstep⟩ := hc.step l
  obtain ⟨record', hpayload', -, -, -, -, -, hstep'⟩ := hc.step m
  obtain rfl : record = record' := by
    rw [hpayload] at hpayload'
    exact Payload.commit.inj hpayload'
  rw [hstep, hstep']
  have hm' : Marked (l.publish record) (m.publish record) := ⟨hm.marks, hm.known⟩
  have hl' : (l.publish record).Sized := ⟨hl.principals, hl.results, hl.pending⟩
  have hs' : (m.publish record).Sized := ⟨hs.principals, hs.results, hs.pending⟩
  have hp' : record.principal ∈ taken (l.publish record).principals := hprincipal ▸ hp
  exact ⟨hm'.settle hl' hs' rfl rfl hp', hg, hg⟩

/-- **What a publication does to the version and the marks**, in memory and in the log: they
stay the same in both, or the log has a commit the memory does not know of. -/
theorem Carried.marked {out : Option Nat} (hc : Carried fmt q request u hf h out t hf' h')
    (hu : u.Sized) (hs : (ledger fmt h).Sized) (hq : q.principal ≠ 0)
    (hg : u.publishedGeneration = (ledger fmt h).generation)
    (hm : Marked u.ledger (ledger fmt h)) (hp : q.principal ∈ taken u.ledger.principals) :
    (t.publishedGeneration = (ledger fmt h').generation ∧ Marked t.ledger (ledger fmt h')) ∨
      (out = none ∧ t.ledger.pending.isSome ∧
        ∃ c below record, h' = c :: below ∧ c.payload = .commit record) := by
  have hgeneration : ∀ (r : Record D C) (l : Ledger D), Prepares q request r →
      (l.step fmt r).generation = l.generation := by
    intro r l hr
    obtain ⟨pending, -, -, -, -, -, -, hstep⟩ := @Prepares.step _ _ fmt _ _ _ hr l
    rw [hstep]
    rfl
  have hkept : ∀ {t : Store D C}, Kept u t → t.publishedGeneration = u.publishedGeneration :=
    fun hk => congrArg Ledger.generation hk.ledger
  cases hc with
  | unprepared kept => exact .inl ⟨(hkept kept).trans hg, kept.ledger ▸ hm⟩
  | @unflushed _ r kept prepares =>
    refine .inl ⟨((hkept kept).trans hg).trans (hgeneration r _ prepares).symm, ?_⟩
    obtain ⟨pending, hprincipal, -, -, -, -, -, hstep⟩ := @Prepares.step _ _ fmt _ _ _ prepares (ledger fmt h)
    rw [kept.ledger]
    show Marked _ ((ledger fmt h).step fmt r)
    rw [hstep]
    exact hm.unknown hs (hprincipal ▸ hp)
  | @stopped _ r settled objs prepares objects hledger _ _ =>
    have hlog : ledger fmt (objs ++ (settled ++ r :: h)) = (ledger fmt h).step fmt r := by
      rw [← append_assoc]
      exact ledger_append_objects objects
    refine .inl ⟨?_, ?_⟩
    · have hmemory : t.publishedGeneration = (u.ledger.step fmt r).generation :=
        congrArg Ledger.generation hledger
      rw [hmemory, hlog, hgeneration r _ prepares, hgeneration r _ prepares]
      exact hg
    · rw [hledger, hlog]
      exact (hm.prepares hu.ledger hs prepares hp).1
  | @doubtful _ r c objs prepares objects commits hledger _ _ =>
    refine .inr ⟨rfl, ?_, ?_⟩
    · obtain ⟨pending, -, -, -, -, -, -, hstep⟩ := @Prepares.step _ _ fmt _ _ _ prepares u.ledger
      rw [hledger, hstep]
      rfl
    · obtain ⟨receiptDigest, ns, count, hpayload⟩ := commits
      exact ⟨c, _, _, rfl, hpayload⟩
  | @done _ r c objs prepares objects commits hledger _ _ =>
    have hlog : ledger fmt (c :: (objs ++ r :: h)) = ((ledger fmt h).step fmt r).step fmt c := by
      show (ledger fmt (objs ++ r :: h)).step fmt c = _
      rw [ledger_append_objects objects]
      rfl
    obtain ⟨hm', hp'⟩ := @Marked.prepares _ _ fmt _ _ _ _ _ hm hu.ledger hs prepares hp
    obtain ⟨hm'', hg', hg''⟩ := hm'.commits (hu.ledger.prepares prepares hq)
      (hs.prepares prepares hq) commits hp'
    refine .inl ⟨?_, ?_⟩
    · have hmemory : t.publishedGeneration = ((u.ledger.step fmt r).step fmt c).generation :=
        congrArg Ledger.generation hledger
      rw [hmemory, hlog, hg', hg'']
    · rw [hledger, hlog]
      exact hm''

theorem Reported.marked (hr : Reported fmt s hf h t hf' h') :
    (t.publishedGeneration = s.publishedGeneration ∧ t.principals = s.principals) ∧
      (ledger fmt h').generation = (ledger fmt h).generation ∧
      (ledger fmt h').principals = (ledger fmt h).principals := by
  have hstep : ∀ (r : Record D C) (l : Ledger D), r.IsOutbox →
      (l.step fmt r).generation = l.generation ∧ (l.step fmt r).principals = l.principals := by
    rintro r l ⟨record, hp⟩
    unfold Ledger.step
    rw [hp]
    exact ⟨rfl, rfl⟩
  have hkept : ∀ {t : Store D C}, Kept s t →
      t.publishedGeneration = s.publishedGeneration ∧ t.principals = s.principals := fun hk =>
    ⟨congrArg Ledger.generation hk.ledger, congrArg Ledger.principals hk.ledger⟩
  cases hr with
  | unwritten kept => exact ⟨hkept kept, rfl, rfl⟩
  | @unflushed r outbox kept => exact ⟨hkept kept, hstep r _ outbox⟩
  | @done r outbox hledger _ _ =>
    obtain ⟨hg, hp⟩ := hstep r s.ledger outbox
    rw [← hledger] at hg hp
    exact ⟨⟨hg, hp⟩, hstep r _ outbox⟩

theorem Reported.pending (hr : Reported fmt s hf h t hf' h') :
    t.pending = s.pending ∧ (ledger fmt h').pending = (ledger fmt h).pending := by
  have hstep : ∀ (r : Record D C) (l : Ledger D), r.IsOutbox →
      (l.step fmt r).pending = l.pending := by
    rintro r l ⟨record, hp⟩
    unfold Ledger.step
    rw [hp]
  cases hr with
  | unwritten kept => exact ⟨congrArg Ledger.pending kept.ledger, rfl⟩
  | @unflushed r outbox kept => exact ⟨congrArg Ledger.pending kept.ledger, hstep r _ outbox⟩
  | @done r outbox hledger _ _ =>
    refine ⟨?_, hstep r _ outbox⟩
    have hmemory := hstep r s.ledger outbox
    rw [← hledger] at hmemory
    exact hmemory

end Publications

end Thalyx.K4
