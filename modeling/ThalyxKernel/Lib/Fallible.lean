/-
Computations that may fail and keep the state they failed in.

`EStateM ε σ` is the shape of a function that changes state as it goes and returns an
error without undoing anything by itself: what a failure leaves behind is whatever the
steps before it did, less what the function undoes by hand.  The lemmas here take a
sequence of such steps apart, once for success and once for failure.
-/
import Mathlib.Logic.Basic

namespace Thalyx.Fallible

variable {ε σ α β : Type}

/-- The state a computation ends in, whether it failed or not. -/
def final : EStateM.Result ε σ α → σ
  | .ok _ s => s
  | .error _ s => s

@[simp] theorem final_ok (a : α) (s : σ) : final (.ok a s : EStateM.Result ε σ α) = s := rfl

@[simp] theorem final_error (e : ε) (s : σ) : final (.error e s : EStateM.Result ε σ α) = s := rfl

variable {x : EStateM ε σ α} {f : α → EStateM ε σ β}
variable {s s' t : σ}

theorem bind_ok_iff {b : β} : (x >>= f) s = .ok b s' ↔ ∃ a t, x s = .ok a t ∧ f a t = .ok b s' := by
  show EStateM.bind x f s = .ok b s' ↔ _
  unfold EStateM.bind
  cases hx : x s with
  | ok a t =>
    constructor
    · intro h
      exact ⟨a, t, rfl, h⟩
    · rintro ⟨a', t', heq, h⟩
      obtain ⟨rfl, rfl⟩ := EStateM.Result.ok.inj heq
      exact h
  | error e t => simp

theorem bind_error_iff {e : ε} :
    (x >>= f) s = .error e s' ↔
      x s = .error e s' ∨ ∃ a t, x s = .ok a t ∧ f a t = .error e s' := by
  show EStateM.bind x f s = .error e s' ↔ _
  unfold EStateM.bind
  cases hx : x s with
  | ok a t =>
    constructor
    · intro h
      exact Or.inr ⟨a, t, rfl, h⟩
    · rintro (heq | ⟨a', t', heq, h⟩)
      · cases heq
      · obtain ⟨rfl, rfl⟩ := EStateM.Result.ok.inj heq
        exact h
  | error e' t => simp

theorem bind_of_ok {a : α} (h : x s = .ok a t) : (x >>= f) s = f a t := by
  show EStateM.bind x f s = f a t
  unfold EStateM.bind
  rw [h]

theorem bind_of_error {e : ε} (h : x s = .error e t) : (x >>= f) s = .error e t := by
  show EStateM.bind x f s = .error e t
  unfold EStateM.bind
  rw [h]

/-! ### Relations a computation stays within -/

/-- `R` holds between the state a computation begins in and the one it ends in, whether it
fails or not. -/
def Within (R : σ → σ → Prop) (m : EStateM ε σ α) : Prop := ∀ s, R s (final (m s))

namespace Within

variable {R : σ → σ → Prop}

theorem bind (ht : ∀ s t u, R s t → R t u → R s u) {x : EStateM ε σ α}
    {f : α → EStateM ε σ β} (hx : Within R x) (hf : ∀ a, Within R (f a)) : Within R (x >>= f) := by
  intro s
  have hxs := hx s
  cases h : x s with
  | ok a t =>
    rw [bind_of_ok h]
    rw [h] at hxs
    exact ht _ _ _ hxs (hf a t)
  | error e t =>
    rw [bind_of_error h]
    rw [h] at hxs
    exact hxs

theorem get {f : σ → EStateM ε σ β} (hf : ∀ s, Within R (f s)) : Within R (get >>= f) :=
  fun s => hf s s

theorem forM (hr : ∀ s, R s s) (ht : ∀ s t u, R s t → R t u → R s u) {xs : List α}
    {f : α → EStateM ε σ PUnit} (hf : ∀ a, Within R (f a)) : Within R (xs.forM f) := by
  induction xs with
  | nil => exact hr
  | cons a rest ih => exact bind ht (hf a) fun _ => ih

end Within

/-- `R` holds between `s` and the state a computation begun there ends in. -/
def Leads (R : σ → σ → Prop) (m : EStateM ε σ α) (s : σ) : Prop := R s (final (m s))

variable {R : σ → σ → Prop}

theorem Leads.bind (ht : ∀ s t u, R s t → R t u → R s u) (hx : Leads R x s)
    (hf : ∀ a t, x s = .ok a t → Leads R (f a) t) : Leads R (x >>= f) s := by
  unfold Leads at hx ⊢
  cases h : x s with
  | ok a t =>
    rw [bind_of_ok h]
    rw [h] at hx
    exact ht _ _ _ hx (hf a t h)
  | error e t =>
    rw [bind_of_error h]
    rw [h] at hx
    exact hx

theorem Leads.of_ok {m : EStateM ε σ α} {a : α} (h : Leads R m s) (hm : m s = .ok a t) : R s t := by
  unfold Leads at h
  rw [hm] at h
  exact h

/-! ### What a computation ends in -/

/-- A computation begun in `s` ends in `Q` if it succeeds and in `X` if it fails. -/
def Ends (m : EStateM ε σ α) (Q : α → σ → Prop) (X : σ → Prop) (s : σ) : Prop :=
  match m s with
  | .ok a t => Q a t
  | .error _ t => X t

namespace Ends

variable {Q Q' : α → σ → Prop} {X X' : σ → Prop} {s t : σ}
variable {m : EStateM ε σ α}

theorem of_ok {a : α} (h : Ends m Q X s) (hm : m s = .ok a t) : Q a t := by
  unfold Ends at h
  rw [hm] at h
  exact h

theorem of_error {e : ε} (h : Ends m Q X s) (hm : m s = .error e t) : X t := by
  unfold Ends at h
  rw [hm] at h
  exact h

theorem mono (h : Ends m Q X s) (hq : ∀ a t, Q a t → Q' a t)
    (hx : ∀ t, X t → X' t) : Ends m Q' X' s := by
  unfold Ends at h ⊢
  split at h
  · exact hq _ _ h
  · exact hx _ h

theorem bind {x : EStateM ε σ α} {f : α → EStateM ε σ β} {Q : β → σ → Prop}
    (h : Ends x (fun a t => Ends (f a) Q X t) X s) : Ends (x >>= f) Q X s := by
  unfold Ends at h
  split at h
  · rename_i a t hx
    unfold Ends
    rw [bind_of_ok hx]
    exact h
  · rename_i e t hx
    unfold Ends
    rw [bind_of_error hx]
    exact h

theorem pure {a : α} (h : Q a s) : Ends (pure a : EStateM ε σ α) Q X s := h

theorem throw {e : ε} (h : X s) : Ends (throw e : EStateM ε σ α) Q X s := h

theorem get {f : σ → EStateM ε σ α} (h : Ends (f s) Q X s) : Ends (get >>= f) Q X s := h

theorem modify {g : σ → σ} {f : PUnit → EStateM ε σ α} (h : Ends (f ⟨⟩) Q X (g s)) :
    Ends (modify g >>= f) Q X s := h

theorem forM {I : List α → σ → Prop} {f : α → EStateM ε σ PUnit} (xs : List α) (hstart : I [] s)
    (hturn : ∀ done a rest s, xs = done ++ a :: rest → I done s →
      Ends (f a) (fun _ t => I (done ++ [a]) t) X s) :
    Ends (xs.forM f) (fun _ t => I xs t) X s := by
  suffices h : ∀ done rest s, xs = done ++ rest → I done s →
      Ends (rest.forM f) (fun _ t => I xs t) X s from h [] xs s rfl hstart
  intro done rest
  induction rest generalizing done with
  | nil =>
    intro s hxs hI
    rw [List.append_nil] at hxs
    exact pure (hxs ▸ hI)
  | cons a rest ih =>
    intro s hxs hI
    refine bind ((hturn done a rest s hxs hI).mono (fun _ t ht => ?_) fun _ => id)
    exact ih (done ++ [a]) t (by rw [hxs, List.append_assoc]; rfl) ht

end Ends

@[simp] theorem pure_run (a : α) (s : σ) : (pure a : EStateM ε σ α) s = .ok a s := rfl

@[simp] theorem throw_run (e : ε) (s : σ) : (throw e : EStateM ε σ α) s = .error e s := rfl

@[simp] theorem get_run (s : σ) : (get : EStateM ε σ σ) s = .ok s s := rfl

@[simp] theorem modify_run (f : σ → σ) (s : σ) :
    (modify f : EStateM ε σ PUnit) s = .ok ⟨⟩ (f s) := rfl

end Thalyx.Fallible
