/-
Code that refuses its input with a reason, and may stop instead.

Such code is a computation in `ExceptT ε Option`: an answer, a reason for refusing, or
`none` where the program would stop.  `Meets x P Q S` says what holds in each of the three
cases: of the answer `P`, of the reason `Q`, and `S` when it stops.  Code that never stops
meets `False` there; a check that is exact in both directions meets what it accepts with
`P`, and with `Q` that there was something to refuse.

There is one rule for each way of putting such code together; the rule for a counted loop
asks for what one turn keeps.
-/
import ThalyxKernel.Lib.Checked
import ThalyxKernel.Lib.Layout

namespace Thalyx

/-- Code that answers, refuses or stops. -/
abbrev Refusing (ε α : Type) : Type := ExceptT ε Option α

namespace Refusing

variable {ε α β σ : Type}

/-- What holds of the answer, of the reason for refusing, and when the code stops. -/
def Meets (x : Refusing ε α) (P : α → Prop) (Q : ε → Prop) (S : Prop) : Prop :=
  match x.run with
  | some (.ok a) => P a
  | some (.error e) => Q e
  | none => S

/-- Arithmetic that stops when it does not fit, and slices that stop outside their buffer. -/
def checked (x : Option α) : Refusing ε α := ExceptT.lift x

/-- `x.ok_or(e)?` -/
def orRefuse (x : Option α) (e : ε) : Refusing ε α :=
  match x with
  | some a => pure a
  | none => throw e

/-- `if c { return Err(e) }` -/
def refuseIf (c : Prop) [Decidable c] (e : ε) : Refusing ε Unit :=
  if c then throw e else pure ()

section Rules

variable {P : α → Prop} {Q : ε → Prop} {S : Prop}

theorem meets_pure {a : α} (h : P a) : Meets (pure a : Refusing ε α) P Q S := h

variable {x : Refusing ε α}

theorem Meets.bind {f : α → Refusing ε β} {R : β → Prop}
    (hx : Meets x P Q S) (hf : ∀ a, P a → Meets (f a) R Q S) : Meets (x >>= f) R Q S := by
  have hbind : (x >>= f).run = x.run >>= ExceptT.bindCont f := rfl
  unfold Meets at hx ⊢
  rw [hbind]
  cases hrun : x.run with
  | none =>
    rw [hrun] at hx
    exact hx
  | some answer =>
    rw [hrun] at hx
    cases answer with
    | ok a => exact hf a hx
    | error e => exact hx

theorem Meets.imp {P' : α → Prop} {Q' : ε → Prop} (h : Meets x P Q S)
    (hP : ∀ a, P a → P' a) (hQ : ∀ e, Q e → Q' e) : Meets x P' Q' S := by
  unfold Meets at h ⊢
  match x.run, h with
  | some (.ok a), ha => exact hP a ha
  | some (.error e), he => exact hQ e he
  | none, hstop => exact hstop

variable {f : β → Refusing ε α}

theorem meets_step {x : Option β} {b : β} (hx : x = some b)
    (h : Meets (f b) P Q S) : Meets (checked x >>= f) P Q S := by
  subst hx
  exact h

theorem meets_checked {x : Option α} {a : α} (hx : x = some a) (h : P a) :
    Meets (checked x : Refusing ε α) P Q S := by
  subst hx
  exact h

theorem meets_orRefuse_bind {x : Option β} {e : ε}
    (hsome : ∀ b, x = some b → Meets (f b) P Q S) (hnone : x = none → Q e) :
    Meets (orRefuse x e >>= f) P Q S := by
  cases x with
  | some b => exact hsome b rfl
  | none => exact hnone rfl

theorem meets_refuseIf {c : Prop} [Decidable c] {e : ε} {P : Unit → Prop} (hpass : ¬ c → P ())
    (hrefuse : c → Q e) : Meets (refuseIf c e) P Q S := by
  unfold refuseIf
  split
  · next h => exact hrefuse h
  · next h => exact hpass h

theorem meets_refuseIf_bind {c : Prop} [Decidable c] {e : ε} {f : Unit → Refusing ε α}
    (hrefuse : c → Q e) (hpass : ¬ c → Meets (f ()) P Q S) : Meets (refuseIf c e >>= f) P Q S :=
  (meets_refuseIf (P := fun _ => ¬ c) id hrefuse).bind fun _ h => hpass h

theorem meets_loop {f : σ → Nat → Refusing ε σ} (I : Nat → σ → Prop) {start count : Nat} {s : σ}
    (hstart : I start s)
    (hturn : ∀ i, start ≤ i → i < start + count → ∀ s, I i s → Meets (f s i) (I (i + 1)) Q S) :
    Meets ((List.range' start count).foldlM f s) (I (start + count)) Q S := by
  induction count generalizing start s with
  | zero => exact meets_pure hstart
  | succ count ih =>
    rw [List.range'_succ, List.foldlM_cons]
    refine (hturn start (Nat.le_refl _) (by omega) s hstart).bind fun t ht => ?_
    have hrest := ih ht fun i hle hlt => hturn i (by omega) (by omega)
    rwa [Nat.add_right_comm] at hrest

theorem meets_forM {f : α → Refusing ε Unit} {xs : List α}
    (hturn : ∀ x ∈ xs, Meets (f x) (fun _ => P x) Q S) :
    Meets (xs.forM f) (fun _ => ∀ x ∈ xs, P x) Q S := by
  induction xs with
  | nil => exact meets_pure (by simp)
  | cons x rest ih =>
    show Meets (f x >>= fun _ => rest.forM f) _ _ _
    refine (hturn x (by simp)).bind fun _ hx => ?_
    refine (ih fun y hy => hturn y (by simp [hy])).imp (fun _ hrest => ?_) fun _ hQ => hQ
    intro y hy
    rcases List.mem_cons.mp hy with rfl | hy
    · exact hx
    · exact hrest y hy

theorem Meets.of_ok {a : α} (h : Meets x P Q S) (hrun : x.run = some (.ok a)) : P a := by
  rw [Meets, hrun] at h
  exact h

theorem Meets.answers (h : Meets x P Q False) : ∃ answer, x.run = some answer := by
  unfold Meets at h
  match x.run, h with
  | some answer, _ => exact ⟨answer, rfl⟩

end Rules

end Refusing

/-! ### Numbers in a byte string -/

/-- The little-endian number of so many bytes at an offset. -/
def numberAt (bytes : List UInt8) (offset width : Nat) : Nat :=
  fromLittleEndian ((bytes.drop offset).take width)

theorem numberAt_lt (bytes : List UInt8) (offset width : Nat) :
    numberAt bytes offset width < 256 ^ width := by
  refine (fromLittleEndian_lt _).trans_le (Nat.pow_le_pow_right (by decide) ?_)
  exact List.length_take_le ..

namespace Checked

variable {a b c : Nat}

theorem add_eq_some_iff : add a b = some c ↔ a + b = c ∧ c < usizeValues := by
  unfold add
  split
  · next h =>
      rw [Option.some_inj]
      constructor
      · rintro rfl
        exact ⟨rfl, h⟩
      · exact fun h => h.1
  · next h =>
      simp only [reduceCtorEq, false_iff, not_and]
      rintro rfl
      exact h

theorem add_eq_none_iff : add a b = none ↔ usizeValues ≤ a + b := by
  unfold add
  split <;> simp <;> omega

theorem mul_eq_some_iff : mul a b = some c ↔ a * b = c ∧ c < usizeValues := by
  unfold mul
  split
  · next h =>
      rw [Option.some_inj]
      constructor
      · rintro rfl
        exact ⟨rfl, h⟩
      · exact fun h => h.1
  · next h =>
      simp only [reduceCtorEq, false_iff, not_and]
      rintro rfl
      exact h

/-- `bytes.get(offset..offset + width)`, as a number; the sum is checked. -/
def read (width : Nat) (bytes : List UInt8) (offset : Nat) : Option (Option Nat) := do
  let stop ← add offset width
  return if stop ≤ bytes.length then some (numberAt bytes offset width) else none

theorem read_eq {width offset : Nat} {bytes : List UInt8} (hfits : offset + width < usizeValues)
    (h : offset + width ≤ bytes.length) :
    read width bytes offset = some (some (numberAt bytes offset width)) := by
  rw [read, add_eq hfits]
  exact congrArg some (if_pos h)

end Checked

namespace Refusing

variable {ε : Type}

/-- `read(bytes, offset).ok_or(e)?` -/
def readOr (width : Nat) (bytes : List UInt8) (offset : Nat) (e : ε) : Refusing ε Nat := do
  orRefuse (← checked (Checked.read width bytes offset)) e

theorem meets_readOr_bind {width offset : Nat} {bytes : List UInt8} {e : ε} {α : Type}
    {f : Nat → Refusing ε α} {P : α → Prop} {Q : ε → Prop} {S : Prop}
    (hfits : offset + width < Checked.usizeValues) (h : offset + width ≤ bytes.length)
    (hf : Meets (f (numberAt bytes offset width)) P Q S) :
    Meets (readOr width bytes offset e >>= f) P Q S := by
  unfold readOr
  rw [bind_assoc]
  refine meets_step (Checked.read_eq hfits h) (meets_orRefuse_bind ?_ ?_)
  · rintro _ ⟨⟩
    exact hf
  · intro hnone
    simp at hnone

end Refusing

end Thalyx
