/-
The objects of the durable store, as the guest sees them.

`user/k4fmt` describes objects as bytes and names each one by the SHA-256 of its
bytes under a domain prefix.  Nothing above the format ever looks at the bytes of a
tree, a manifest, a policy, a validation or a receipt except through its decoder, so
an object is modelled here by what its bytes decode to, and bytes that decode to
nothing stay bytes.

The digest is a type of its own.  A function from all contents into thirty-two bytes
cannot be injective, so "SHA-256 has no collision" would be a false hypothesis about
`Fin 256`-vectors; over an arbitrary digest type it is the satisfiable statement
`Sha`, which carries the function together with the proof that it separates contents.
`symbolicSha` is one such function, and a computable one.
-/
import Mathlib.Algebra.Order.Ring.Nat
import ThalyxKernel.Lib.Symbol

namespace Thalyx

/-- A byte string: a name, a text, the content of an opaque object. -/
abbrev Bytes := List UInt8

/-- `object_type` of the schema. -/
inductive ObjectType where
  | bytes | tree | manifest | policy | validation | receipt
  deriving DecidableEq, Repr

/-- The value that crosses the boundary as an integer. -/
def ObjectType.code : ObjectType → Nat
  | .bytes => 1
  | .tree => 2
  | .manifest => 3
  | .policy => 4
  | .validation => 5
  | .receipt => 6

/-- `FormatError`. -/
inductive FormatError where
  | tooSmall | outOfRange | badName | notCanonical
  deriving DecidableEq, Repr

/-- `geometry::MAX_TREE_ENTRIES`. -/
def maxTreeEntries : Nat := 12

/-- `TreeHeader::SIZE` and `TreeEntry::SIZE`. -/
def treeHeaderSize : Nat := 8
def treeEntrySize : Nat := 88

/-- Whether a name may appear in a tree: non-empty, at most 32 bytes, neither of the
two dotted components, no NUL and no separator. -/
def legalName (name : Bytes) : Bool :=
  if name.isEmpty || name.length > 32 then false
  else if name = [46] ∨ name = [46, 46] then false
  else !name.any fun byte => byte == 0 || byte == 47

/-! ### The structures an object's bytes decode to -/

/-- One binding of a tree. -/
structure Binding (D : Type) where
  name : Bytes
  childType : Nat
  flags : Nat
  length : Nat
  digest : D
  deriving DecidableEq, Repr

/-- `Binding::new`: a binding of `name`, refusing a name the format does not admit. -/
def Binding.new {D : Type} (name : Bytes) (childType flags length : Nat) (digest : D) :
    Except FormatError (Binding D) :=
  if !legalName name then .error .badName
  else .ok { name, childType, flags, length, digest }

/-- A root: the content, the policy it was published under, the evidence for it. -/
structure Manifest (D : Type) where
  format : Nat
  treeDigest : D
  policyDigest : D
  validationDigest : D
  entryCount : Nat
  totalBytes : Nat
  deriving DecidableEq, Repr

/-- Who may publish, and what evidence a publication must carry. -/
structure Policy (D : Type) where
  format : Nat
  requiresValidation : Nat
  publishPrincipals : Nat
  validationToolId : Nat
  minCoveragePpm : Nat
  toolConfigDigest : D
  deriving DecidableEq, Repr

/-- A limited claim: this tool, this configuration, these inputs, that version. -/
structure Validation (D : Type) where
  format : Nat
  result : Nat
  inputTreeDigest : D
  baseGeneration : Nat
  toolId : Nat
  toolConfigDigest : D
  coveragePpm : Nat
  producedNs : Nat
  deriving DecidableEq, Repr

/-- What a publication was. -/
structure Receipt (D : Type) where
  format : Nat
  principal : Nat
  requestSequence : Nat
  requestDigest : D
  expectedGeneration : Nat
  newGeneration : Nat
  rootDigest : D
  policyDigest : D
  validationDigest : D
  committedNs : Nat
  outboxTarget : Nat
  deriving DecidableEq, Repr

/-- An object's content, by what its canonical bytes decode to.  `raw` is content that
is not one of the structures: opaque bytes, or bytes filed under a structured type
that its decoder refuses. -/
inductive Content (D : Type) where
  | raw (bytes : Bytes)
  | tree (entries : List (Binding D))
  | manifest (m : Manifest D)
  | policy (p : Policy D)
  | validation (v : Validation D)
  | receipt (r : Receipt D)
  deriving DecidableEq, Repr

/-- Bytes of the canonical encoding. -/
def Content.length {D : Type} : Content D → Nat
  | .raw bytes => bytes.length
  | .tree entries => treeHeaderSize + entries.length * treeEntrySize
  | .manifest _ => 120
  | .policy _ => 64
  | .validation _ => 104
  | .receipt _ => 184

/-- `store_status`: what the service answers a request with. -/
inductive StoreStatus where
  | ok | invalidRequest | forbidden | notFound | generationStale | validationMismatch
  | policyRefused | conflict | sequenceGap | resultExpired | exhausted | unavailable
  | effectRefused | integrityFailed | retained | tooLarge
  deriving DecidableEq, Repr

/-! ### Canonical trees -/

/-- The names of a list of bindings are strictly ascending, checked pair by pair as
`windows(2)` does. -/
def ascending {D : Type} : List (Binding D) → Bool
  | [] => true
  | [_] => true
  | a :: b :: rest => decide (a.name < b.name) && ascending (b :: rest)

/-- `encode_tree`: the canonical content of a list of bindings, or why it has none.
`room` is the length of the output buffer.  Order and uniqueness are checked rather
than imposed. -/
def encodeTree {D : Type} (room : Nat) (entries : List (Binding D)) :
    Except FormatError (Content D) :=
  if entries.length > maxTreeEntries then .error .outOfRange
  else if !ascending entries then .error .notCanonical
  else if entries.any fun entry => !legalName entry.name then .error .badName
  else if treeHeaderSize + entries.length * treeEntrySize > room then .error .tooSmall
  else .ok (.tree entries)

theorem encodeTree_ok {D : Type} {room : Nat} {entries : List (Binding D)} {c : Content D}
    (h : encodeTree room entries = .ok c) : c = .tree entries := by
  unfold encodeTree at h
  split at h
  · cases h
  · split at h
    · cases h
    · split at h
      · cases h
      · split at h
        · cases h
        · exact (Except.ok.inj h).symm

/-! ### Digests -/

/-- A content digest that separates contents: `object_digest` under the assumption that
SHA-256 has no collision.  The type is inside the preimage. -/
structure Sha (D : Type) where
  /-- `object_digest`. -/
  objectDigest : ObjectType → Content D → D
  /-- The digest written where there is none. -/
  zero : D
  objectDigest_inj : ∀ {t t' : ObjectType} {c c' : Content D},
    objectDigest t c = objectDigest t' c' → t = t' ∧ c = c'
  objectDigest_ne_zero : ∀ (t : ObjectType) (c : Content D), objectDigest t c ≠ zero

/-! ### A digest function of that kind

The symbolic one: an object's digest is its type and its content, written out. -/

instance : Encode ObjectType :=
  Encode.ofInjective ObjectType.code fun a b h => by
    cases a <;> cases b <;> first | rfl | cases h

instance {D : Type} [Encode D] : Encode (Binding D) :=
  Encode.ofInjective (fun b => (b.name, b.childType, b.flags, b.length, b.digest)) fun a b h => by
    cases a; cases b; simpa using h

instance {D : Type} [Encode D] : Encode (Manifest D) :=
  Encode.ofInjective (fun m => (m.format, m.treeDigest, m.policyDigest, m.validationDigest,
    m.entryCount, m.totalBytes)) fun a b h => by
    cases a; cases b; simpa using h

instance {D : Type} [Encode D] : Encode (Policy D) :=
  Encode.ofInjective (fun p => (p.format, p.requiresValidation, p.publishPrincipals,
    p.validationToolId, p.minCoveragePpm, p.toolConfigDigest)) fun a b h => by
    cases a; cases b; simpa using h

instance {D : Type} [Encode D] : Encode (Validation D) :=
  Encode.ofInjective (fun v => (v.format, v.result, v.inputTreeDigest, v.baseGeneration, v.toolId,
    v.toolConfigDigest, v.coveragePpm, v.producedNs)) fun a b h => by
    cases a; cases b; simpa using h

instance {D : Type} [Encode D] : Encode (Receipt D) :=
  Encode.ofInjective (fun r => (r.format, r.principal, r.requestSequence, r.requestDigest,
    r.expectedGeneration, r.newGeneration, r.rootDigest, r.policyDigest, r.validationDigest,
    r.committedNs, r.outboxTarget)) fun a b h => by
    cases a; cases b; simpa using h

/-- Which structure a content is, and its fields. -/
def Content.symbol {D : Type} [Encode D] : Content D → Nat × Symbol
  | .raw bytes => (0, Encode.encode bytes)
  | .tree entries => (1, Encode.encode entries)
  | .manifest m => (2, Encode.encode m)
  | .policy p => (3, Encode.encode p)
  | .validation v => (4, Encode.encode v)
  | .receipt r => (5, Encode.encode r)

theorem Content.symbol_injective {D : Type} [Encode D] :
    Function.Injective (Content.symbol (D := D)) := by
  intro a b h
  cases a <;> cases b <;> first
    | rw [Encode.injective (congrArg Prod.snd h)]
    | exact absurd (congrArg Prod.fst h) (by simp [Content.symbol])

instance {D : Type} [Encode D] : Encode (Content D) :=
  Encode.ofInjective Content.symbol Content.symbol_injective

/-- Object digests over terms. -/
def symbolicSha : Sha Symbol where
  objectDigest t c := .pair (Encode.encode t) (Encode.encode c)
  zero := .atom 0
  objectDigest_inj := by
    intro t t' c c' h
    obtain ⟨ht, hc⟩ := Symbol.pair.inj h
    exact ⟨Encode.injective ht, Encode.injective hc⟩
  objectDigest_ne_zero := by
    intro t c h
    cases h

end Thalyx
