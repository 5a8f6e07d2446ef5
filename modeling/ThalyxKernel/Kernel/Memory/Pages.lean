/-
What the page-table functions do.

A space is two association lists.  Taking a run of pages out is a filter of the leaves.
Writing a run of pages is two things: interior tables are made as they are needed, which
changes the pool and nothing anybody translates by, and the leaves are put in front.  The
two are told apart here, `Grows` for the first and `entries` for the second, because a
mapping that fails undoes the second and keeps the first.
-/
import ThalyxKernel.Kernel.Build
import ThalyxKernel.Kernel.Memory.Pool
import Mathlib.Logic.Relation

namespace Thalyx.Kernel.Memory

open AddressSpace (pageSize canonical)
open Allocator (Same inRun Drains)

/-! ### Association lists -/

section Lists

variable {κ β : Type} [BEq κ] [LawfulBEq κ] {l : List (κ × β)} {k : κ} {v : β}

theorem mem_of_lookup (h : l.lookup k = some v) : (k, v) ∈ l := by
  obtain ⟨before, after, rfl, -⟩ := List.lookup_eq_some_iff.mp h
  simp

theorem not_mem_of_lookup_none (h : l.lookup k = none) : k ∉ l.map Prod.fst := by
  intro hk
  obtain ⟨p, hp, rfl⟩ := List.mem_map.mp hk
  have := List.lookup_eq_none_iff.mp h p hp
  simp at this

theorem lookup_none_of_not_mem (h : k ∉ l.map Prod.fst) : l.lookup k = none := by
  refine List.lookup_eq_none_iff.mpr fun p hp => ?_
  have : k ≠ p.1 := fun hk => h (hk ▸ List.mem_map_of_mem hp)
  simpa [bne_iff_ne] using this

end Lists

/-! ### Runs of pages -/

/-- Whether a page belongs to a run of pages. -/
def inPages (vaddr count page : Nat) : Prop := inRun (vaddr / pageSize) count page

instance (vaddr count page : Nat) : Decidable (inPages vaddr count page) :=
  inferInstanceAs (Decidable (inRun _ _ _))

/-- The entries `map` writes for `count` frames in a row, the last one first. -/
def entries (vaddr frame : Nat) (rights : PageRights) : Nat → List (Nat × Nat × PageRights)
  | 0 => []
  | count + 1 =>
    (vaddr / pageSize + count, frame + count, rights) :: entries vaddr frame rights count

variable {rights : PageRights}

theorem mem_entries {vaddr frame count : Nat} {e : Nat × Nat × PageRights} :
    e ∈ entries vaddr frame rights count ↔
      ∃ k < count, e = (vaddr / pageSize + k, frame + k, rights) := by
  induction count with
  | zero => simp [entries]
  | succ n ih =>
    rw [entries, List.mem_cons, ih]
    constructor
    · rintro (rfl | ⟨k, hk, rfl⟩)
      · exact ⟨n, by omega, rfl⟩
      · exact ⟨k, by omega, rfl⟩
    · rintro ⟨k, hk, rfl⟩
      by_cases hkn : k = n
      · exact .inl (by rw [hkn])
      · exact .inr ⟨k, by omega, rfl⟩

theorem entries_keys {vaddr frame count : Nat} {page : Nat} :
    page ∈ (entries vaddr frame rights count).map Prod.fst ↔ inPages vaddr count page := by
  simp only [List.mem_map, mem_entries, inPages, inRun]
  constructor
  · rintro ⟨e, ⟨k, hk, rfl⟩, rfl⟩
    dsimp only
    omega
  · intro h
    exact ⟨_, ⟨page - vaddr / pageSize, by omega, rfl⟩, by dsimp only; omega⟩

/-! ### Taking pages out -/

theorem canonical_of_lt {v : Nat} (h : v < userMaxAddr) : canonical v = true := by
  have : v / 2 ^ 47 = 0 := Nat.div_eq_of_lt h
  unfold canonical
  rw [this]
  rfl

variable {space space' : AddressSpace}

theorem unmap_eq {v : Nat} (hc : canonical v = true) (ha : v % pageSize = 0) :
    (space.unmap v).1 =
      { space with leaves := space.leaves.filter fun leaf => leaf.1 != v / pageSize } := by
  unfold AddressSpace.unmap
  rw [hc, ha]
  simp only [Bool.not_true, bne_self_eq_false, Bool.or_self, Bool.false_eq_true, if_false]
  split
  · rename_i hnone
    have hall : ∀ leaf ∈ space.leaves, (leaf.1 != v / pageSize) = true := by
      intro leaf hleaf
      have := not_mem_of_lookup_none hnone
      simp only [bne_iff_ne]
      exact fun h => this (h ▸ List.mem_map_of_mem hleaf)
    rw [List.filter_eq_self.mpr hall]
  · rfl

theorem page_of_run {vaddr count k : Nat} (ha : vaddr % pageSize = 0)
    (hb : vaddr + count * pageSize ≤ userMaxAddr) (hk : k < count) :
    canonical (vaddr + k * pageSize) = true ∧ (vaddr + k * pageSize) % pageSize = 0 ∧
      (vaddr + k * pageSize) / pageSize = vaddr / pageSize + k := by
  refine ⟨canonical_of_lt ?_, by simp only [pageSize, AddressSpace.pageSize] at *; omega,
    by simp only [pageSize, AddressSpace.pageSize] at *; omega⟩
  have : k * pageSize < count * pageSize := by simp only [pageSize, AddressSpace.pageSize]; omega
  omega

/-- **Taking a run of pages out leaves the other pages.** -/
theorem unmapRun_eq {vaddr count : Nat} (ha : vaddr % pageSize = 0)
    (hb : vaddr + count * pageSize ≤ userMaxAddr) :
    unmapRun space vaddr count =
      { space with leaves := space.leaves.filter fun leaf => !decide (inPages vaddr count leaf.1) } := by
  unfold unmapRun
  induction count with
  | zero =>
    have hall : ∀ leaf ∈ space.leaves, (!decide (inPages vaddr 0 leaf.1)) = true := by
      intro leaf _
      have : ¬ inPages vaddr 0 leaf.1 := by
        simp only [inPages, inRun]
        omega
      simp [this]
    rw [List.filter_eq_self.mpr hall]
    rfl
  | succ n ih =>
    have hn : vaddr + n * pageSize ≤ userMaxAddr := by
      have : n * pageSize ≤ (n + 1) * pageSize := Nat.mul_le_mul_right _ (Nat.le_succ n)
      exact le_trans (Nat.add_le_add_left this _) hb
    obtain ⟨hc, hm, hd⟩ := page_of_run ha hb (Nat.lt_succ_self n)
    have hiff : ∀ page, inPages vaddr (n + 1) page ↔
        page = vaddr / pageSize + n ∨ inPages vaddr n page := by
      intro page
      simp only [inPages, inRun]
      omega
    rw [List.range_succ, List.foldl_append, ih hn, List.foldl_cons, List.foldl_nil]
    refine (unmap_eq hc hm).trans ?_
    rw [hd]
    simp only [List.filter_filter, hiff, Bool.decide_or, Bool.not_or, bne,
      beq_eq_decide]

/-! ### Making interior tables -/

/-- One piece of what it takes to reach a page: the pool changes, or a table is made. -/
inductive Grow (safe : Nat) : AddressSpace × Allocator → AddressSpace × Allocator → Prop where
  | drain {space : AddressSpace} {a : Allocator} :
      Grow safe (space, a) (space, a.drainQuarantine safe)
  | same {space : AddressSpace} {a b : Allocator} (h : Same a b) : Grow safe (space, a) (space, b)
  | table {space : AddressSpace} {a : Allocator} {key : Nat × Nat} {f : Nat}
      (hk : space.tables.lookup key = none) (hf : f < a.frames) (ht : a.taken f = false) :
      Grow safe (space, a)
        ({ space with tables := (key, f) :: space.tables }, a.grow f fun _ => 0)

/-- What it takes to reach pages. -/
def Grows (safe : Nat) : AddressSpace × Allocator → AddressSpace × Allocator → Prop :=
  Relation.ReflTransGen (Grow safe)

variable {a b : Allocator}

theorem Drains.grows {safe : Nat} (h : Drains safe a b) (space : AddressSpace) :
    Grows safe (space, a) (space, b) := by
  rcases h with rfl | rfl
  · exact .refl
  · exact .single .drain

variable {p q : AddressSpace × Allocator}

theorem Grows.frame {safe : Nat} (h : Grows safe p q) :
    q.1.root = p.1.root ∧ q.1.leaves = p.1.leaves := by
  induction h with
  | refl => exact ⟨rfl, rfl⟩
  | tail _ hstep ih => cases hstep <;> exact ih

theorem Grows.withLeaves {safe : Nat} (h : Grows safe p q)
    (leaves : List (Nat × Nat × PageRights)) :
    Grows safe ({ p.1 with leaves }, p.2) ({ q.1 with leaves }, q.2) := by
  induction h with
  | refl => exact .refl
  | tail _ hstep ih =>
    refine ih.tail ?_
    cases hstep with
    | drain => exact .drain
    | same h => exact .same h
    | table hk hf ht => exact .table hk hf ht

variable {owner : Owner}

theorem alloc_grows {safe : Nat} (h : a.alloc safe owner = (b, none)) (space : AddressSpace) :
    Grows safe (space, a) (space, b) :=
  Drains.grows (Allocator.alloc_none h) space

theorem child_grows {level vaddr : Nat} {safe : Nat} {result : Option AddressSpace}
    (h : child space level vaddr a safe owner = (b, result)) :
    Grows safe (space, a) (result.getD space, b) := by
  unfold child at h
  simp only at h
  split at h
  · obtain ⟨rfl, rfl⟩ := Prod.mk.inj h
    exact .refl
  · rename_i hnone
    split at h
    · rename_i a' f hf
      obtain ⟨rfl, rfl⟩ := Prod.mk.inj h
      obtain ⟨a'', hdrains, hlt, hfree, hsame⟩ := Allocator.alloc_some hf
      refine (Drains.grows hdrains space).trans ?_
      have hk := Option.not_isSome_iff_eq_none.mp hnone
      exact .trans (.single (.table hk hlt hfree)) (.single (.same hsame))
    · rename_i a' hf
      obtain ⟨rfl, rfl⟩ := Prod.mk.inj h
      exact alloc_grows hf space

theorem entryFor_grows {vaddr : Nat} {safe : Nat}
    {ok : Bool} (h : entryFor space vaddr a safe owner = (b, space', ok)) :
    Grows safe (space, a) (space', b) := by
  unfold entryFor at h
  cases h3 : child space 3 vaddr a safe owner with
  | mk a3 r3 =>
    have g3 := child_grows h3
    rw [h3] at h
    cases r3 with
    | none =>
      simp only [Prod.mk.injEq] at h
      obtain ⟨rfl, rfl, -⟩ := h
      exact g3
    | some s3 =>
      cases h2 : child s3 2 vaddr a3 safe owner with
      | mk a2 r2 =>
        have g2 := child_grows h2
        simp only [h2] at h
        cases r2 with
        | none =>
          simp only [Prod.mk.injEq] at h
          obtain ⟨rfl, rfl, -⟩ := h
          exact g3.trans g2
        | some s2 =>
          cases h1 : child s2 1 vaddr a2 safe owner with
          | mk a1 r1 =>
            have g1 := child_grows h1
            simp only [h1] at h
            cases r1 with
            | none =>
              simp only [Prod.mk.injEq] at h
              obtain ⟨rfl, rfl, -⟩ := h
              exact (g3.trans g2).trans g1
            | some s1 =>
              simp only [Prod.mk.injEq] at h
              obtain ⟨rfl, rfl, -⟩ := h
              exact (g3.trans g2).trans g1

/-! ### Writing pages -/

variable {failure : Option MapError}

/-- **`AddressSpace::map` makes tables and then writes one entry, of a page that had none, or
none at all.** -/
theorem mapPage_spec {vaddr frame : Nat} {safe : Nat}
    (h : mapPage space vaddr frame rights a safe owner = (b, space', failure)) :
    ∃ grown, Grows safe (space, a) (grown, b) ∧
      ((failure ≠ none ∧ space' = grown) ∨
        (failure = none ∧ space.leaves.lookup (vaddr / pageSize) = none ∧
          space' = { grown with
            leaves := (vaddr / pageSize, frame, rights) :: space.leaves })) := by
  unfold mapPage at h
  split at h
  · simp only [Prod.mk.injEq] at h
    obtain ⟨rfl, rfl, rfl⟩ := h
    exact ⟨_, .refl, .inl ⟨by simp, rfl⟩⟩
  split at h
  · simp only [Prod.mk.injEq] at h
    obtain ⟨rfl, rfl, rfl⟩ := h
    exact ⟨_, .refl, .inl ⟨by simp, rfl⟩⟩
  cases he : entryFor space vaddr a safe owner with
  | mk a1 r =>
    obtain ⟨s1, ok⟩ := r
    have hg := entryFor_grows he
    have hl := hg.frame.2
    simp only [he] at h
    cases ok with
    | false =>
      simp only [Prod.mk.injEq] at h
      obtain ⟨rfl, rfl, rfl⟩ := h
      exact ⟨_, hg, .inl ⟨by simp, rfl⟩⟩
    | true =>
      simp only at h hl
      split at h
      · simp only [Prod.mk.injEq] at h
        obtain ⟨rfl, rfl, rfl⟩ := h
        exact ⟨_, hg, .inl ⟨by simp, rfl⟩⟩
      · rename_i hnone
        simp only [Prod.mk.injEq] at h
        obtain ⟨rfl, rfl, rfl⟩ := h
        rw [hl] at hnone ⊢
        exact ⟨_, hg, .inr ⟨rfl, Option.not_isSome_iff_eq_none.mp hnone, rfl⟩⟩

/-- **The loop of `map`: the pages it came through are written in order, each of them had
none, and apart from them only tables have been made.** -/
theorem mapRun_spec {vaddr frame : Nat} {safe : Nat} {count : Nat} {n : Nat}
    (h : mapRun space vaddr frame rights a safe owner count = (b, space', n, failure)) :
    n ≤ count ∧ (failure = none → n = count) ∧ (failure ≠ none → n < count) ∧
      space'.leaves = entries vaddr frame rights n ++ space.leaves ∧
      (∀ page, inPages vaddr n page → space.leaves.lookup page = none) ∧
      Grows safe (space, a) ({ space' with leaves := space.leaves }, b) := by
  induction count generalizing b space' n failure with
  | zero =>
    simp only [mapRun, Prod.mk.injEq] at h
    obtain ⟨rfl, rfl, rfl, rfl⟩ := h
    refine ⟨le_refl _, fun _ => rfl, fun h => absurd rfl h, rfl, fun page hp => ?_, .refl⟩
    simp only [inPages, inRun] at hp
    omega
  | succ count ih =>
    rw [mapRun] at h
    cases hrec : mapRun space vaddr frame rights a safe owner count with
    | mk a1 r =>
      obtain ⟨s1, n1, f1⟩ := r
      obtain ⟨hle, hall, hpart, hleaves, hclear, hgrows⟩ := ih hrec
      rw [hrec] at h
      cases f1 with
      | some e =>
        simp only [Prod.mk.injEq] at h
        obtain ⟨rfl, rfl, rfl, rfl⟩ := h
        exact ⟨by omega, by simp, fun _ => by omega, hleaves, hclear, hgrows⟩
      | none =>
        obtain rfl := hall rfl
        cases hp : mapPage s1 (vaddr + n1 * pageSize) (frame + n1) rights a1 safe owner with
        | mk a2 r2 =>
          obtain ⟨s2, f2⟩ := r2
          obtain ⟨grown, hg, hcase⟩ := mapPage_spec hp
          have hbare := hgrows.trans (hg.withLeaves space.leaves)
          have hroot := hg.frame.2
          simp only at hroot
          simp only [hp] at h
          rcases hcase with ⟨hf, rfl⟩ | ⟨rfl, hnone, rfl⟩
          · cases f2 with
            | none => exact absurd rfl hf
            | some e =>
              simp only [Prod.mk.injEq] at h
              obtain ⟨rfl, rfl, rfl, rfl⟩ := h
              exact ⟨by omega, by simp, fun _ => by omega, hroot.trans hleaves, hclear,
                hbare⟩
          · simp only [Prod.mk.injEq] at h
            obtain ⟨rfl, rfl, rfl, rfl⟩ := h
            have hpage : (vaddr + n1 * pageSize) / pageSize = vaddr / pageSize + n1 := by
              simp only [pageSize, AddressSpace.pageSize]
              omega
            rw [hpage, hleaves, List.lookup_append, Option.or_eq_none_iff] at hnone
            refine ⟨le_refl _, fun _ => rfl, fun h => absurd rfl h, ?_, ?_, hbare⟩
            · simp only [hleaves, hpage, entries, List.cons_append]
            · intro page hpg
              by_cases hlast : page = vaddr / pageSize + n1
              · rw [hlast]
                exact hnone.2
              · refine hclear page ?_
                simp only [inPages, inRun] at hpg ⊢
                omega

end Thalyx.Kernel.Memory
