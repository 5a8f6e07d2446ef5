/-
The two tables of the store: the principals with their marks, and the results.

Both are small arrays that are searched from the front.  A principal has the first entry
that names it, and takes the first free one if it has none; so what the table says of one
principal is a function of the principal, and an update changes that function in one place.
The results are a ring: an entry is replaced where there is one for the same request, and
else takes a free place or the oldest one's.
-/
import ThalyxKernel.Store.History

namespace Thalyx.K4

open List

/-! ### The first entry a search finds -/

section First

variable {α : Type} {test : α → Bool} {xs : List α} {i : Nat}

theorem findIdx?_split (h : xs.findIdx? test = some i) :
    ∃ front x back, xs = front ++ x :: back ∧ (∀ y ∈ front, test y = false) ∧ test x = true ∧
      xs[i]? = some x ∧ ∀ f, xs.modify i f = front ++ f x :: back := by
  induction xs generalizing i with
  | nil => cases h
  | cons a xs ih =>
    rw [findIdx?_cons] at h
    by_cases ha : test a = true
    · rw [if_pos ha] at h
      obtain rfl := Option.some.inj h
      exact ⟨[], a, xs, rfl, by simp, ha, rfl, fun f => rfl⟩
    · rw [if_neg ha] at h
      obtain ⟨j, hj, rfl⟩ := Option.map_eq_some_iff.mp h
      obtain ⟨front, x, back, rfl, hfront, hx, hget, hmodify⟩ := ih hj
      refine ⟨a :: front, x, back, rfl, fun y hy => ?_, hx, hget, fun f => ?_⟩
      · rcases mem_cons.mp hy with rfl | hy
        · exact Bool.not_eq_true _ ▸ ha
        · exact hfront y hy
      · rw [modify_succ_cons, hmodify]
        rfl

theorem find?_split {front back : List α} {x : α} (hfront : ∀ y ∈ front, test y = false)
    (hx : test x = true) : (front ++ x :: back).find? test = some x := by
  rw [find?_append, find?_eq_none.mpr fun y hy => by simp [hfront y hy],
    Option.none_or, find?_cons_of_pos hx]

end First

/-! ### What the table says of a principal -/

/-- The entry of a principal. -/
def entryOf (table : List PrincipalEntry) (p : Nat) : Option PrincipalEntry :=
  table.find? fun entry => entry.principal == p

/-- The mark up to which a principal's requests are resolved. -/
def highWaterOf (table : List PrincipalEntry) (p : Nat) : Nat :=
  ((entryOf table p).getD .zeroed).highWater

/-- The request of a principal that is pending. -/
def pendingOf (table : List PrincipalEntry) (p : Nat) : Nat :=
  ((entryOf table p).getD .zeroed).pendingSequence

/-- A table of the store's: no principal has two entries, and what is free says nothing. -/
structure Orderly (table : List PrincipalEntry) : Prop where
  length : table.length = maxPrincipals
  distinct : (taken table).Nodup
  blank : ∀ entry ∈ table, entry.principal = 0 → entry = .zeroed

section Principals

variable {table : List PrincipalEntry} {p q : Nat} {f : PrincipalEntry → PrincipalEntry}
variable {entry : PrincipalEntry}

theorem entryOf_principal (h : entryOf table p = some entry) :
    entry ∈ table ∧ entry.principal = p :=
  ⟨mem_of_find?_eq_some h, by simpa using find?_some h⟩

theorem mem_taken : q ∈ taken table ↔ q ≠ 0 ∧ (entryOf table q).isSome := by
  unfold taken entryOf
  rw [find?_isSome, mem_filter]
  simp only [mem_map, bne_iff_ne, beq_iff_eq]
  exact and_comm

theorem entryOf_of_mem (hd : (taken table).Nodup) (he : entry ∈ table)
    (hne : entry.principal ≠ 0) : entryOf table entry.principal = some entry := by
  induction table with
  | nil => cases he
  | cons a table ih =>
    unfold entryOf
    rw [find?_cons]
    have htaken : taken (a :: table)
        = if a.principal = 0 then taken table else a.principal :: taken table := by
      unfold taken
      rw [map_cons, filter_cons]
      by_cases h0 : a.principal = 0 <;> simp [h0]
    by_cases ha : a.principal = entry.principal
    · simp only [ha, BEq.rfl]
      rcases mem_cons.mp he with rfl | he
      · rfl
      · rw [htaken, if_neg (ha ▸ hne)] at hd
        refine absurd ?_ (nodup_cons.mp hd).1
        exact mem_filter.mpr ⟨mem_map.mpr ⟨entry, he, ha.symm⟩, by simp [ha, hne]⟩
    · rw [show (a.principal == entry.principal) = false by simp [ha]]
      rcases mem_cons.mp he with rfl | he
      · exact absurd rfl ha
      · refine ih ?_ he
        rw [htaken] at hd
        split at hd
        · exact hd
        · exact (nodup_cons.mp hd).2

theorem principalSlot_cases (p : Nat) (table : List PrincipalEntry) :
    (∃ i, principalSlot p table = some (i, table) ∧
        table.findIdx? (fun entry => entry.principal == p) = some i) ∨
      ((∀ entry ∈ table, entry.principal ≠ p) ∧
        ((∃ i, principalSlot p table
              = some (i, table.modify i fun entry => { entry with principal := p }) ∧
            table.findIdx? (fun entry => entry.principal == 0) = some i) ∨
          (principalSlot p table = none ∧ ∀ entry ∈ table, entry.principal ≠ 0))) := by
  unfold principalSlot
  cases hfound : table.findIdx? fun entry => entry.principal == p with
  | some i => exact .inl ⟨i, rfl, rfl⟩
  | none =>
    refine .inr ⟨fun entry he => ?_, ?_⟩
    · simpa using findIdx?_eq_none_iff.mp hfound entry he
    · cases hfree : table.findIdx? fun entry => entry.principal == 0 with
      | some i => exact .inl ⟨i, rfl, rfl⟩
      | none => exact .inr ⟨rfl, fun entry he => by
        simpa using findIdx?_eq_none_iff.mp hfree entry he⟩

theorem principalSlot_isSome (ho : Orderly table) (hp : p ≠ 0) :
    (principalSlot p table).isSome ↔ p ∈ taken table ∨ (taken table).length < maxPrincipals := by
  have hlength : (taken table).length < maxPrincipals ↔ ∃ entry ∈ table, entry.principal = 0 := by
    unfold taken
    rw [← ho.length, ← length_map PrincipalEntry.principal,
      length_filter_lt_length_iff_exists]
    simp
  rw [hlength, mem_taken]
  rcases principalSlot_cases p table with ⟨i, hslot, hfound⟩ | ⟨hnot, ⟨i, hslot, hfree⟩ | ⟨hslot, hfull⟩⟩
  · obtain ⟨front, x, back, rfl, hfront, hx, -, -⟩ := findIdx?_split hfound
    rw [hslot]
    unfold entryOf
    rw [find?_split hfront hx]
    simp [hp]
  · obtain ⟨front, x, back, rfl, -, hx, -, -⟩ := findIdx?_split hfree
    rw [hslot]
    exact iff_of_true rfl (.inr ⟨x, by simp, by simpa using hx⟩)
  · rw [hslot]
    refine iff_of_false (by simp) ?_
    rintro (⟨-, hsome⟩ | ⟨entry, he, h0⟩)
    · obtain ⟨entry, he⟩ := Option.isSome_iff_exists.mp hsome
      exact hnot entry (entryOf_principal he).1 (entryOf_principal he).2
    · exact hfull entry he h0

section Parted

variable {front back : List PrincipalEntry} {x y : PrincipalEntry}

theorem entryOf_parted_of_ne (hx : x.principal ≠ q) (hy : y.principal ≠ q) :
    entryOf (front ++ y :: back) q = entryOf (front ++ x :: back) q := by
  unfold entryOf
  rw [find?_append, find?_append, find?_cons_of_neg (by simpa using hy),
    find?_cons_of_neg (by simpa using hx)]

theorem entryOf_parted_self (hfront : ∀ e ∈ front, e.principal ≠ y.principal) :
    entryOf (front ++ y :: back) y.principal = some y :=
  find?_split (fun e he => by simpa using hfront e he) (by simp)

theorem taken_parted (front back : List PrincipalEntry) (x : PrincipalEntry) :
    taken (front ++ x :: back)
      = taken front ++ (if x.principal = 0 then [] else [x.principal]) ++ taken back := by
  unfold taken
  rw [map_append, filter_append, map_cons, filter_cons]
  by_cases h0 : x.principal = 0 <;> simp [h0]

end Parted

/-- The entry of a fresh principal. -/
def PrincipalEntry.fresh (p : Nat) : PrincipalEntry := { PrincipalEntry.zeroed with principal := p }

section Update

variable (ho : Orderly table) (hf : ∀ entry, (f entry).principal = entry.principal)
include ho hf

/-- **An update of one principal's entry, by what the table says of a principal.** -/
theorem entryOf_withPrincipal (hq : q ≠ 0) :
    entryOf (withPrincipal p f table) q
      = if q = p then
          (if (principalSlot p table).isSome then some (f ((entryOf table p).getD (.fresh p)))
          else none)
        else entryOf table q := by
  unfold withPrincipal
  rcases principalSlot_cases p table with ⟨i, hslot, hfound⟩ | ⟨hnot, ⟨i, hslot, hfree⟩ | ⟨hslot, hfull⟩⟩
  · obtain ⟨front, x, back, rfl, hfront, hx, -, hmodify⟩ := findIdx?_split hfound
    have hxp : x.principal = p := by simpa using hx
    rw [hslot]
    dsimp only
    rw [hmodify, Option.isSome_some, if_pos rfl]
    split
    · subst q
      have hfound' : entryOf (front ++ x :: back) p = some x := find?_split hfront hx
      rw [hfound', Option.getD_some, ← hxp, ← hf x]
      refine entryOf_parted_self fun e he => ?_
      rw [hf, hxp]
      simpa using hfront e he
    · rename_i hne
      exact entryOf_parted_of_ne (by rw [hxp]; exact Ne.symm hne)
        (by rw [hf, hxp]; exact Ne.symm hne)
  · obtain ⟨front, x, back, rfl, hfront, hx, -, hmodify⟩ := findIdx?_split hfree
    have hx0 : x.principal = 0 := by simpa using hx
    obtain rfl : x = .zeroed := ho.blank x (by simp) hx0
    rw [hslot]
    dsimp only
    rw [modify_modify_eq, hmodify, Option.isSome_some, if_pos rfl, Function.comp]
    change entryOf (front ++ f (.fresh p) :: back) q = _
    have hfresh : (f (.fresh p)).principal = p := hf _
    split
    · subst q
      have hnone : entryOf (front ++ .zeroed :: back) p = none :=
        find?_eq_none.mpr fun e he => by simpa using hnot e he
      rw [hnone, Option.getD_none]
      have := @entryOf_parted_self _ back (f (.fresh p)) fun e (he : e ∈ front) => by
        rw [hfresh]
        exact hnot e (by simp [he])
      rwa [hfresh] at this
    · rename_i hne
      exact entryOf_parted_of_ne (Ne.symm hq) (by rw [hfresh]; exact Ne.symm hne)
  · rw [hslot]
    simp only [Option.isSome_none, Bool.false_eq_true, if_false]
    split
    · subst q
      exact find?_eq_none.mpr fun e he => by simpa using hnot e he
    · rfl

theorem Orderly.withPrincipal (hp : p ≠ 0) : Orderly (withPrincipal p f table) := by
  unfold K4.withPrincipal
  rcases principalSlot_cases p table with ⟨i, hslot, hfound⟩ | ⟨hnot, ⟨i, hslot, hfree⟩ | ⟨hslot, hfull⟩⟩
  · obtain ⟨front, x, back, rfl, hfront, hx, -, hmodify⟩ := findIdx?_split hfound
    have hxp : x.principal = p := by simpa using hx
    rw [hslot]
    dsimp only
    rw [hmodify]
    refine ⟨?_, ?_, fun e he h0 => ?_⟩
    · have := ho.length
      simpa using this
    · have := ho.distinct
      rw [taken_parted] at this ⊢
      rwa [hf]
    · rcases mem_append.mp he with he | he
      · exact ho.blank e (by simp [he]) h0
      · rcases mem_cons.mp he with rfl | he
        · rw [hf, hxp] at h0
          exact absurd h0 hp
        · exact ho.blank e (by simp [he]) h0
  · obtain ⟨front, x, back, rfl, hfront, hx, -, hmodify⟩ := findIdx?_split hfree
    have hx0 : x.principal = 0 := by simpa using hx
    rw [hslot]
    dsimp only
    rw [modify_modify_eq, hmodify]
    have hnew : ((f ∘ fun entry => { entry with principal := p }) x).principal = p := hf _
    generalize (f ∘ fun entry => { entry with principal := p }) x = y at hnew
    refine ⟨?_, ?_, fun e he h0 => ?_⟩
    · have := ho.length
      simpa using this
    · have := ho.distinct
      rw [taken_parted, hx0, if_pos rfl, append_nil] at this
      rw [taken_parted, hnew, if_neg hp, append_assoc, singleton_append,
        nodup_middle, nodup_cons]
      refine ⟨fun hmem => ?_, this⟩
      have hin : p ∈ taken (front ++ x :: back) := by
        rw [taken_parted, hx0, if_pos rfl, append_nil]
        exact hmem
      obtain ⟨entry, he⟩ := Option.isSome_iff_exists.mp (mem_taken.mp hin).2
      exact hnot entry (entryOf_principal he).1 (entryOf_principal he).2
    · rcases mem_append.mp he with he | he
      · exact ho.blank e (by simp [he]) h0
      · rcases mem_cons.mp he with rfl | he
        · rw [hnew] at h0
          exact absurd h0 hp
        · exact ho.blank e (by simp [he]) h0
  · rw [hslot]
    exact ho

end Update

variable {table' : List PrincipalEntry}

theorem principalSlot_table {i : Nat}
    (h : principalSlot p table = some (i, table')) : table' = withPrincipal p id table := by
  unfold withPrincipal
  rw [h]
  exact (modify_id i table').symm

theorem principalSlot_entry {i : Nat} (ho : Orderly table)
    (h : principalSlot p table = some (i, table')) :
    table'.getD i .zeroed = (entryOf table p).getD (.fresh p) := by
  rcases principalSlot_cases p table with ⟨j, hslot, hfound⟩ | ⟨hnot, ⟨j, hslot, hfree⟩ | ⟨hslot, -⟩⟩
  · rw [hslot] at h
    obtain ⟨rfl, rfl⟩ := Prod.mk.inj (Option.some.inj h)
    obtain ⟨front, x, back, heq, hfront, hx, hget, -⟩ := findIdx?_split hfound
    have hfound' : entryOf table p = some x := heq ▸ find?_split hfront hx
    rw [getD_eq_getElem?_getD, hget, hfound']
    rfl
  · rw [hslot] at h
    obtain ⟨rfl, rfl⟩ := Prod.mk.inj (Option.some.inj h)
    obtain ⟨front, x, back, heq, hfront, hx, hget, -⟩ := findIdx?_split hfree
    have hx0 : x.principal = 0 := by simpa using hx
    obtain rfl : x = .zeroed := ho.blank x (by simp [heq]) hx0
    have hnone : entryOf table p = none :=
      find?_eq_none.mpr fun e he => by simpa using hnot e he
    rw [getD_eq_getElem?_getD, getElem?_modify_eq, hget, hnone]
    rfl
  · rw [hslot] at h
    cases h

theorem entryOf_of_no_slot (h : ¬ (principalSlot p table).isSome) : entryOf table p = none := by
  rcases principalSlot_cases p table with ⟨i, hs, -⟩ | ⟨hnot, -⟩
  · rw [hs] at h
    exact absurd rfl h
  · exact find?_eq_none.mpr fun e he => by simpa using hnot e he

section Marks

variable (ho : Orderly table) (n : Nat)
include ho

theorem Orderly.markPending (hp : p ≠ 0) : Orderly (markPending p n table) :=
  ho.withPrincipal (fun _ => rfl) hp

theorem Orderly.markResolved (hp : p ≠ 0) : Orderly (markResolved p n table) :=
  ho.withPrincipal (fun _ => rfl) hp

theorem entryOf_markPending (hq : q ≠ 0) :
    entryOf (markPending p n table) q
      = if q = p then
          (if (principalSlot p table).isSome then
            some { (entryOf table p).getD (.fresh p) with pendingSequence := n }
          else none)
        else entryOf table q :=
  entryOf_withPrincipal ho (fun _ => rfl) hq

theorem entryOf_markResolved (hq : q ≠ 0) :
    entryOf (markResolved p n table) q
      = if q = p then
          (if (principalSlot p table).isSome then
            some { (entryOf table p).getD (.fresh p) with highWater := n, pendingSequence := 0 }
          else none)
        else entryOf table q :=
  entryOf_withPrincipal ho (fun _ => rfl) hq

theorem highWaterOf_markPending (hq : q ≠ 0) :
    highWaterOf (markPending p n table) q = highWaterOf table q := by
  unfold highWaterOf
  rw [entryOf_markPending ho n hq]
  split
  · subst q
    split
    · cases entryOf table p <;> rfl
    · rename_i hslot
      rw [entryOf_of_no_slot hslot]
  · rfl

theorem marks_withPrincipal_id (hq : q ≠ 0) :
    highWaterOf (withPrincipal p id table) q = highWaterOf table q ∧
      pendingOf (withPrincipal p id table) q = pendingOf table q := by
  have hentry := entryOf_withPrincipal (p := p) (f := id) ho (fun _ => rfl) hq
  unfold highWaterOf pendingOf
  rw [hentry]
  split
  · subst q
    split
    · cases entryOf table p <;> exact ⟨rfl, rfl⟩
    · rename_i hslot
      rw [entryOf_of_no_slot hslot]
      exact ⟨rfl, rfl⟩
  · exact ⟨rfl, rfl⟩

theorem highWaterOf_markResolved (hslot : (principalSlot p table).isSome) (hq : q ≠ 0) :
    highWaterOf (markResolved p n table) q = if q = p then n else highWaterOf table q := by
  unfold highWaterOf
  rw [entryOf_markResolved ho n hq, if_pos hslot]
  split <;> rfl

theorem pendingOf_markPending (hq : q ≠ 0) (hne : q ≠ p) :
    pendingOf (markPending p n table) q = pendingOf table q := by
  unfold pendingOf
  rw [entryOf_markPending ho n hq, if_neg hne]

theorem pendingOf_markResolved (hq : q ≠ 0) :
    pendingOf (markResolved p n table) q = if q = p then 0 else pendingOf table q := by
  unfold pendingOf
  rw [entryOf_markResolved ho n hq]
  split
  · split <;> rfl
  · rfl

theorem mem_taken_withPrincipal {f : PrincipalEntry → PrincipalEntry}
    (hf : ∀ entry, (f entry).principal = entry.principal) :
    q ∈ taken (withPrincipal p f table) ↔
      q ∈ taken table ∨ (q ≠ 0 ∧ q = p ∧ (principalSlot p table).isSome) := by
  by_cases hq : q = 0
  · simp [mem_taken, hq]
  · rw [mem_taken, mem_taken, entryOf_withPrincipal ho hf hq]
    by_cases hqp : q = p
    · subst hqp
      by_cases hslot : (principalSlot q table).isSome
      · simp [hq, hslot]
      · simp only [hslot, if_true]
        have hnone : entryOf table q = none := by
          rw [← Option.not_isSome_iff_eq_none]
          intro hsome
          exact hslot ((principalSlot_isSome ho hq).mpr (.inl (mem_taken.mpr ⟨hq, hsome⟩)))
        simp [hnone]
    · simp [hq, hqp]

end Marks

end Principals

/-! ### The results -/

section Results

variable {D : Type} {entry e : ResultEntry D} {results : List (ResultEntry D)} {next : Nat}

theorem length_recordResult (h : results.length ≤ maxResults) :
    (recordResult entry results next).1.length ≤ maxResults := by
  unfold recordResult
  split
  · rwa [length_set]
  · split
    · rw [length_append]
      exact Nat.succ_le_of_lt (by assumption)
    · rwa [length_set]

theorem length_setOutbox {p n : Nat} {status : OutboxStatus} :
    (setOutbox p n status results).length = results.length := by
  unfold setOutbox
  split
  · exact length_modify ..
  · rfl

end Results

end Thalyx.K4
