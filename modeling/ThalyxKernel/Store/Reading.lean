/-
What READ gives out.

A service looks below the roots it serves, loads what it found, and answers with the range that
was asked for.  The index is sound in every run, so what is loaded is what the digest is of.
-/
import ThalyxKernel.Store.Lookup
import ThalyxKernel.Store.Upkeep
import ThalyxKernel.Store.Carrying

namespace Thalyx.K4

open List Option

variable {D C : Type} [DecidableEq D] {fmt : Format D C} {host : Host D C}
  {service s : Service D C} {call : Call D C} {digest : D} {offset length : Nat}
  {lent : Option Bool}

namespace Service

theorem reaches_of_served {flag : Bool}
    (h : s.served fmt digest 1 s.servedRoots false = (true, flag)) :
    ∃ root ∈ s.servedRoots, ∃ m, s.store.Reaches fmt m root digest := by
  by_contra hnot
  simp only [not_exists, not_and] at hnot
  have hfalse : s.served fmt digest 1 s.servedRoots false = (false, _) :=
    served_eq_false.mpr ⟨fun walk hwalk => ?_, rfl⟩
  · rw [h] at hfalse
    cases (Prod.mk.inj hfalse).1
  · have hroot := fst_mem_of_mem_zipIdx hwalk
    refine ⟨fun heq => hnot _ hroot [walk.2] (heq ▸ .refl), fun reached hclosure hmem => ?_⟩
    exact hnot _ hroot [walk.2] (((Store.closure_lists hclosure).2 digest).mp hmem)

theorem serve_read (hcall : call.request = .read digest offset length lent)
    (hok : (service.serve fmt call).1.status = .ok) :
    (service.serve fmt call).1 = (service.posed fmt call).read fmt digest offset length lent := by
  unfold serve at hok ⊢
  dsimp only at hok ⊢
  split at hok
  · cases hok
  · split at hok
    · cases hok
    · split at hok
      · cases hok
      · rename_i hpermitted hfailed hready
        rw [if_neg hpermitted, if_neg hfailed, if_neg hready]
        unfold dispatch
        rw [hcall]
        rfl

theorem read_ok (h : (s.read fmt digest offset length lent).status = .ok) :
    (∃ root ∈ s.servedRoots, ∃ m, s.store.Reaches fmt m root digest) ∧
      ∃ kind content, s.store.readObject fmt [0] digest = some (kind, content) ∧
        offset ≤ fmt.size content ∧ (s.read fmt digest offset length lent).detail = kind ∧
        (s.read fmt digest offset length lent).sequence = fmt.size content ∧
        (s.read fmt digest offset length lent).given =
          some (fmt.slice content offset (min length (fmt.size content - offset))) := by
  unfold read at h ⊢
  split at h
  · cases h
  · cases h
  · rename_i hserved
    refine ⟨reaches_of_served hserved, ?_⟩
    split at h
    · cases h
    · rename_i kind content hread
      split at h
      · cases h
      · rename_i hsize
        refine ⟨kind, content, hread, Nat.le_of_not_lt hsize, ?_⟩
        simp only [if_neg hsize] at h ⊢
        split at h
        · cases h
        · cases h
        · exact ⟨rfl, rfl, rfl⟩

end Service

/-- **READ gives out what was asked for, and nothing that is not served**: in every state the
service reaches, whatever reads are refused, an answer OK carries the asked range of the content
the digest is of, with its type and its size, and the digest is a served root or is reached from
one. -/
theorem read_gives_served (h : (machine fmt).Reachable host) (hup : host.phase = .up service)
    (hcall : call.request = .read digest offset length lent)
    (hok : (service.serve fmt call).1.status = .ok) :
    (∃ root ∈ (service.posed fmt call).servedRoots,
        ∃ m, (service.posed fmt call).store.Reaches fmt m root digest) ∧
      ∃ kind content, fmt.objectDigest kind content = digest ∧ offset ≤ fmt.size content ∧
        (service.serve fmt call).1.detail = kind ∧
        (service.serve fmt call).1.sequence = fmt.size content ∧
        (service.serve fmt call).1.given =
          some (fmt.slice content offset (min length (fmt.size content - offset))) := by
  have hserve := Service.serve_read hcall hok
  rw [hserve] at hok ⊢
  obtain ⟨hreaches, kind, content, hread, hsize, hanswer⟩ := Service.read_ok hok
  refine ⟨hreaches, kind, content, ?_, hsize, hanswer⟩
  unfold Store.readObject at hread
  obtain ⟨entry, hfind, hread⟩ := bind_eq_some_iff.mp hread
  obtain ⟨loaded, hload, hread⟩ := bind_eq_some_iff.mp hread
  obtain ⟨rfl, rfl⟩ := Prod.mk.inj (some.inj hread)
  obtain ⟨hmem, hdigest⟩ := Store.find_some hfind
  have hsound := Service.posed_sound (reachable_sound h service hup) call
  exact ((hsound.indexed entry hmem).load hload).1.trans hdigest

/-- The tree of the empty version, read once it is published. -/
def Call.readTree : Call Symbol (Content Symbol) :=
  .plain 2 (.read emptyTreeDigest 0 8 (some true)) []

theorem read_gives_served_tree : ∃ (service : Service Symbol (Content Symbol)) (kind : Nat)
    (content : Content Symbol), symbolicFormat.objectDigest kind content = emptyTreeDigest ∧
      (service.serve symbolicFormat .readTree).1.sequence = symbolicFormat.size content := by
  have hsome : ((serviceAfter (opening ++ [.serve (.publishEmpty 1 1 0 [])])).any fun service =>
      (service.serve symbolicFormat .readTree).1.status == .ok) = true := by decide +kernel
  obtain ⟨service, hservice, hok⟩ := (any_eq_true _ _).mp hsome
  obtain ⟨host, hhost, hup⟩ := reachable_of_serviceAfter hservice
  obtain ⟨-, kind, content, hdigest, -, -, hsize, -⟩ :=
    read_gives_served hhost hup rfl (by simpa using hok)
  exact ⟨service, kind, content, hdigest, hsize⟩

end Thalyx.K4
