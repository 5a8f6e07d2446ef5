/-
What READ says of an object it does not find: `Service::served` and `Service::read`.

`NOT_FOUND` is meant to say that the store has looked, `UNAVAILABLE` that it could not.  The
walks below the served roots set one flag between them, and each begins by clearing it, so
what is left to tell the two apart is how the last walk ended; and a walk that stopped for
another reason than a read does not set it at all.
-/
import ThalyxKernel.Store.Reach
import ThalyxKernel.Store.System

namespace Thalyx.K4

open List

variable {D C : Type} [DecidableEq D]

/-! ### The answer, and what the walks left -/

/-- Everything a root reaches is there and fits the queue: its closure can be walked. -/
def Store.Walkable (fmt : Format D C) (s : Store D C) (m : Moment) (root : D) : Prop :=
  (∀ d, s.Reaches fmt m root d → s.Whole fmt m d) ∧ s.Fits fmt m root

/-- The walk of a root stops at an object it cannot load, which sets `closure_incomplete`. -/
def Store.cutShort (fmt : Format D C) (s : Store D C) (m : Moment) (root : D) : Bool :=
  match s.closure fmt m root with
  | .error .unread => true
  | _ => false

namespace Service

/-- The served roots, each with the moment of its walk. -/
def walks (s : Service D C) : List (D × Nat) := s.servedRoots.zipIdx 1

/-- `Service::read`, where `closure_incomplete` is what an earlier request left it. -/
def readAfter (fmt : Format D C) (s : Service D C) (incomplete : Bool) (digest : D)
    (offset length : Nat) (lent : Option Bool) : Reply D C :=
  match s.served fmt digest 1 s.servedRoots incomplete with
  | (false, true) => refused fmt .unavailable
  | (false, false) => refused fmt .notFound
  | (true, _) =>
    match s.store.readObject fmt [0] digest with
    | none => refused fmt .integrityFailed
    | some (kind, content) =>
      if fmt.size content < offset then refused fmt .invalidRequest
      else
        let want := min length (fmt.size content - offset)
        match lent with
        | none => refused fmt .invalidRequest
        | some false => refused fmt .forbidden
        | some true =>
          { refused fmt .ok with
            detail := kind
            value := want
            generation := s.store.publishedGeneration
            sequence := fmt.size content
            given := some (fmt.slice content offset want) }

/-- The flag as the walks below a list of roots leave it. -/
def lastCutShort (fmt : Format D C) (s : Service D C) (incomplete : Bool) :
    List (D × Nat) → Bool
  | [] => incomplete
  | (root, i) :: rest => s.lastCutShort fmt (s.store.cutShort fmt [i] root) rest

variable {fmt : Format D C} {s : Service D C} {target : D} {incomplete flag : Bool}

theorem served_eq_false {i : Nat} {roots : List D} :
    s.served fmt target i roots incomplete = (false, flag) ↔
      (∀ walk ∈ roots.zipIdx i, walk.1 ≠ target ∧
        ∀ reached, s.store.closure fmt [walk.2] walk.1 = .ok reached → target ∉ reached) ∧
      flag = s.lastCutShort fmt incomplete (roots.zipIdx i) := by
  induction roots generalizing i incomplete with
  | nil => simp [served, lastCutShort, eq_comm]
  | cons root rest ih =>
    rw [zipIdx_cons, forall_mem_cons, lastCutShort]
    unfold served
    by_cases htarget : root = target
    · simp [htarget]
    rw [if_neg htarget]
    cases hclosure : s.store.closure fmt [i] root with
    | error e =>
      have hflag : (e == .unread) = s.store.cutShort fmt [i] root := by
        unfold Store.cutShort
        rw [hclosure]
        cases e with
        | unread => rfl
        | broken => rfl
      dsimp only
      rw [ih, hflag]
      simp [htarget]
    | ok reached =>
      have hflag : s.store.cutShort fmt [i] root = false := by
        unfold Store.cutShort
        rw [hclosure]
      by_cases hmem : target ∈ reached
      · simp [hmem, htarget]
      · simp only [if_neg hmem]
        rw [ih, hflag]
        simp [htarget, hmem]

theorem readAfter_notFound {offset length : Nat} {lent : Option Bool} :
    (s.readAfter fmt incomplete target offset length lent).status = .notFound ↔
      s.served fmt target 1 s.servedRoots incomplete = (false, false) := by
  unfold readAfter
  rcases hserved : s.served fmt target 1 s.servedRoots incomplete with ⟨found, flag⟩
  cases found with
  | false =>
    cases flag with
    | false => simp [refused]
    | true => simp [refused]
  | true =>
    simp only [Prod.mk.injEq, Bool.true_eq_false, false_and, iff_false]
    cases s.store.readObject fmt [0] target with
    | none => simp [refused]
    | some found =>
      dsimp only
      split
      · simp [refused]
      · cases lent with
        | none => simp [refused]
        | some writable => cases writable <;> simp [refused]

theorem lastCutShort_of_getLast {walks : List (D × Nat)} {walk : D × Nat}
    (h : walks.getLast? = some walk) :
    s.lastCutShort fmt incomplete walks = s.store.cutShort fmt [walk.2] walk.1 := by
  induction walks generalizing incomplete with
  | nil => cases h
  | cons first rest ih =>
    cases rest with
    | nil =>
      cases h
      rfl
    | cons second rest =>
      rw [lastCutShort]
      exact ih (by rwa [getLast?_cons_cons] at h)

/-! ### When `NOT_FOUND` says what it is meant to say -/

/-- The object is a served root, or is reached by one that can be walked; or the last walk
stops at an object it cannot load; or every served root can be walked. -/
def LookedThrough (fmt : Format D C) (s : Service D C) (target : D) : Prop :=
  target ∈ s.servedRoots ∨
    (∃ walk ∈ s.walks, s.store.Walkable fmt [walk.2] walk.1 ∧
      s.store.Reaches fmt [walk.2] walk.1 target) ∨
    (∃ walk, s.walks.getLast? = some walk ∧ s.store.cutShort fmt [walk.2] walk.1 = true) ∨
    ∀ walk ∈ s.walks, s.store.Walkable fmt [walk.2] walk.1

/-- **READ answers `NOT_FOUND` only after the closure of every served root was walked and found
without the object, for the objects that are looked through for and for no others**: whatever
reads are refused, and whatever an earlier request left of the flag. -/
theorem readAfter_tells_absent_iff (fmt : Format D C) (s : Service D C) (incomplete : Bool)
    (digest : D) (offset length : Nat) (lent : Option Bool) :
    ((s.readAfter fmt incomplete digest offset length lent).status = .notFound →
        ∀ walk ∈ s.walks, ∃ reached, s.store.closure fmt [walk.2] walk.1 = .ok reached ∧
          digest ∉ reached) ↔
      s.LookedThrough fmt digest := by
  rw [readAfter_notFound, served_eq_false]
  constructor
  · intro h
    by_contra hnot
    unfold LookedThrough at hnot
    simp only [not_or, not_exists, not_and] at hnot
    obtain ⟨hroots, hreached, hlast, hwalkable⟩ := hnot
    refine hwalkable fun walk hwalk => ?_
    have hsearched : ∀ walk ∈ s.walks, walk.1 ≠ digest ∧
        ∀ reached, s.store.closure fmt [walk.2] walk.1 = .ok reached → digest ∉ reached := by
      intro walk hwalk
      refine ⟨fun heq => ?_, fun reached hclosure hmem => ?_⟩
      · exact hroots (heq ▸ fst_mem_of_mem_zipIdx hwalk)
      · exact hreached walk hwalk (Store.closure_ok.mp ⟨reached, hclosure⟩)
          (((Store.closure_lists hclosure).2 digest).mp hmem)
    have hflag : false = s.lastCutShort fmt incomplete s.walks := by
      cases hend : s.walks.getLast? with
      | none =>
        rw [List.getLast?_eq_none_iff.mp hend] at hwalk
        cases hwalk
      | some last =>
        rw [lastCutShort_of_getLast hend]
        exact (Bool.not_eq_true _ ▸ hlast last hend).symm
    obtain ⟨reached, hclosure, -⟩ := h ⟨hsearched, hflag⟩ walk hwalk
    exact Store.closure_ok.mp ⟨reached, hclosure⟩
  · rintro h ⟨hsearched, hflag⟩ walk hwalk
    change false = s.lastCutShort fmt incomplete s.walks at hflag
    rcases h with hroot | ⟨found, hfound, hwalkable, hreaches⟩ | ⟨last, hlast, hcut⟩ | hall
    · obtain ⟨i, hi⟩ := mem_iff_getElem?.mp hroot
      have hin : (digest, 1 + i) ∈ s.walks := mk_add_mem_zipIdx_iff_getElem?.mpr hi
      exact absurd rfl (hsearched _ hin).1
    · obtain ⟨reached, hclosure⟩ := Store.closure_ok.mpr hwalkable
      exact absurd (((Store.closure_lists hclosure).2 digest).mpr hreaches)
        ((hsearched found hfound).2 reached hclosure)
    · rw [lastCutShort_of_getLast hlast, hcut] at hflag
      cases hflag
    · obtain ⟨reached, hclosure⟩ := Store.closure_ok.mpr (hall walk hwalk)
      exact ⟨reached, hclosure, (hsearched walk hwalk).2 reached hclosure⟩

end Service

/-- The empty version is published, and its policy retained as a root of its own. -/
def retainedBeside : List (Event Symbol (Content Symbol)) :=
  opening ++ [
    .serve (.publishEmpty 1 1 0 []),
    .serve (.plain 1 (.retain openPolicyDigest 0) [])]

def emptyTreeDigest : Symbol := symbolicFormat.objectDigest ObjectType.tree.code (.tree [])

/-- READ of the published tree, while no read is answered. -/
def Call.readUnanswered : Call Symbol (Content Symbol) :=
  { Call.plain 2 (.read emptyTreeDigest 0 8 (some true)) [] with fails := fun _ _ => true }

/-- What a call after a run is answered, and which walks below the served roots get there. -/
def walkedAfter (events : List (Event Symbol (Content Symbol)))
    (call : Call Symbol (Content Symbol)) : Option (StoreStatus × List Bool) :=
  (System.exec (Host.step symbolicFormat) events .blank).bind fun host =>
    match host.phase with
    | .down _ => none
    | .up service =>
      let posed := service.posed symbolicFormat call
      some ((service.serve symbolicFormat call).1.status, posed.walks.map fun walk =>
        (posed.store.closure symbolicFormat [walk.2] walk.1).toBool)

/-- No read is answered, the published root cannot be walked, the retained one needs no read;
an object of the published version is answered `NOT_FOUND`. -/
theorem published_object_not_found :
    ¬ ∀ host service, (machine symbolicFormat).Reachable host → host.phase = .up service →
      (service.serve symbolicFormat .readUnanswered).1.status = .notFound →
      ∀ walk ∈ (service.posed symbolicFormat .readUnanswered).walks, ∃ reached,
        (service.posed symbolicFormat .readUnanswered).store.closure symbolicFormat [walk.2] walk.1
          = .ok reached ∧ emptyTreeDigest ∉ reached := by
  intro hall
  have hafter : walkedAfter retainedBeside .readUnanswered = some (.notFound, [false, true]) := by
    decide +kernel
  obtain ⟨host, hhost, hwalked⟩ := Option.bind_eq_some_iff.mp hafter
  split at hwalked
  · cases hwalked
  · rename_i service hup
    obtain ⟨hstatus, hwalks⟩ := Prod.mk.inj (Option.some.inj hwalked)
    have hgets := hall host service (System.reachable_of_exec (.init rfl) hhost) hup hstatus
    have hfalse : false ∈ (service.posed symbolicFormat .readUnanswered).walks.map fun walk =>
        ((service.posed symbolicFormat .readUnanswered).store.closure symbolicFormat [walk.2]
          walk.1).toBool := by
      rw [hwalks]
      exact mem_cons_self
    obtain ⟨walk, hwalk, hstops⟩ := List.mem_map.mp hfalse
    obtain ⟨reached, hreached, -⟩ := hgets walk hwalk
    rw [hreached] at hstops
    cases hstops

end Thalyx.K4
