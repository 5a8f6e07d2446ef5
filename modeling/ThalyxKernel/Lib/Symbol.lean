/-
Symbolic digests.

A hash without collisions is modelled by a function that keeps its whole argument:
the digest of a value is the value written as a term.  `Symbol` is the type of such
terms and `Encode` the class of types that can be written into it without two values
sharing a term.  Both are computable, so a run over symbolic digests can be evaluated.

A structure is encoded through the tuple of its fields; the instances for products and
lists do the rest, and `Encode.ofInjective` is the only rule a client needs.
-/
import Mathlib.Logic.Function.Basic

namespace Thalyx

/-- A term: a number, or two terms side by side. -/
inductive Symbol where
  | atom (n : Nat)
  | pair (a b : Symbol)
  deriving DecidableEq, Repr

/-- Types whose values can be written as terms, no two alike. -/
class Encode (α : Type) where
  encode : α → Symbol
  injective : Function.Injective encode

namespace Encode

instance : Encode Symbol := ⟨id, Function.injective_id⟩

instance : Encode Nat := ⟨Symbol.atom, fun _ _ h => Symbol.atom.inj h⟩

/-- A type that maps injectively into an encodable one is encodable. -/
@[reducible] def ofInjective {α β : Type} [Encode β] (f : α → β) (hf : Function.Injective f) :
    Encode α :=
  ⟨fun a => encode (f a), fun _ _ h => hf (injective h)⟩

instance {α β : Type} [Encode α] [Encode β] : Encode (α × β) where
  encode p := .pair (encode p.1) (encode p.2)
  injective := by
    intro p q h
    obtain ⟨h1, h2⟩ := Symbol.pair.inj h
    exact Prod.ext (injective h1) (injective h2)

/-- The cells of a list, closed by an atom. -/
def list {α : Type} [Encode α] : List α → Symbol
  | [] => .atom 0
  | a :: rest => .pair (encode a) (list rest)

instance {α : Type} [Encode α] : Encode (List α) where
  encode := list
  injective := by
    intro xs
    induction xs with
    | nil =>
      intro ys h
      cases ys with
      | nil => rfl
      | cons y ys => cases h
    | cons x xs ih =>
      intro ys h
      cases ys with
      | nil => cases h
      | cons y ys =>
        obtain ⟨h1, h2⟩ := Symbol.pair.inj h
        rw [injective h1, ih h2]

instance : Encode UInt8 := ofInjective UInt8.toNat fun _ _ h => UInt8.toNat_inj.mp h

instance : Encode Bool := ofInjective Bool.toNat fun a b h => by
  cases a <;> cases b <;> first | rfl | cases h

end Encode

end Thalyx
