/-
The canonical bytes of a tree.

`user/k4fmt` gives a tree one encoding: a header with the number of entries, then the
entries in strictly ascending order of their names, each name padded with zeros to its
thirty-two bytes and every reserved field zero.  `encode_tree` checks these rules before
it writes and `decode_tree` checks them again on the bytes it is handed.

Content addressing rests on the two agreeing.  A tree is named by the digest of its
bytes, so a byte string that decodes to a tree and is not the encoding of it would be a
second identity of that tree.

The functions are the source's, over whole buffers.  A buffer that `encode_tree` refuses
is left as it was, so its new content is only returned with a result.
-/
import ThalyxKernel.Format.Pod

namespace Thalyx.Wire

/-! ### The structures -/

structure TreeHeader where
  entryCount : UInt32
  reserved0 : UInt32
  deriving DecidableEq

def TreeHeader.layout : Layout TreeHeader :=
  (Layout.u32.pair Layout.u32).via
    ⟨fun h => (h.entryCount, h.reserved0), fun p => ⟨p.1, p.2⟩, fun _ => rfl, fun _ => rfl⟩

/-- One binding, as it lies in a tree. -/
structure TreeEntry where
  childType : UInt32
  flags : UInt32
  length : UInt64
  digest : Digest
  nameLen : UInt32
  reserved0 : UInt32
  name : Vector UInt8 32
  deriving DecidableEq

def TreeEntry.layout : Layout TreeEntry :=
  (Layout.u32.pair <| Layout.u32.pair <| Layout.u64.pair <| (Layout.array 32).pair <|
    Layout.u32.pair <| Layout.u32.pair <| Layout.array 32).via
    ⟨fun e => (e.childType, e.flags, e.length, e.digest, e.nameLen, e.reserved0, e.name),
      fun (c, f, l, d, n, r, s) => ⟨c, f, l, d, n, r, s⟩, fun _ => rfl, fun _ => rfl⟩

theorem TreeHeader.size_layout : TreeHeader.layout.size = treeHeaderSize := rfl

theorem TreeEntry.size_layout : TreeEntry.layout.size = treeEntrySize := rfl

/-- One binding, as a caller states it before it becomes canonical bytes.  `stored` is the
array and `nameLen` how much of it is the name; neither of the two functions that make
a binding makes one whose name would not fit. -/
structure Binding where
  stored : Vector UInt8 32
  nameLen : Nat
  childType : UInt32
  flags : UInt32
  length : UInt64
  digest : Digest
  nameLen_le : nameLen ≤ 32
  deriving DecidableEq

/-- `Binding::name`: the name's bytes. -/
def Binding.name (b : Binding) : Bytes := b.stored.toList.take b.nameLen

theorem length_le_of_legalName {name : Bytes} (h : legalName name = true) : name.length ≤ 32 := by
  unfold legalName at h
  split at h
  · cases h
  · rename_i hlen
    simp only [Bool.or_eq_true, decide_eq_true_eq, not_or] at hlen
    omega

/-- `Binding::new`: a binding of `name`, refusing a name the format does not admit. -/
def Binding.new (name : Bytes) (childType flags : UInt32) (length : UInt64) (digest : Digest) :
    Except FormatError Binding :=
  if h : legalName name = true then
    .ok {
      stored := Vector.ofFn fun i => name.getD i 0
      nameLen := name.length
      childType, flags, length, digest
      nameLen_le := length_le_of_legalName h }
  else .error .badName

/-- What `encode_tree` writes for a binding. -/
def Binding.raw (b : Binding) : TreeEntry where
  childType := b.childType
  flags := b.flags
  length := b.length
  digest := b.digest
  nameLen := UInt32.ofNat b.nameLen
  reserved0 := 0
  name := b.stored

/-! ### Encoding -/

/-- Every pair of neighbours is in order, as `windows(2)` goes through them. -/
def ordered (entries : List Binding) : Bool :=
  (entries.zip entries.tail).all fun window => decide (window.1.name < window.2.name)

/-- The loop that writes the entries, from entry `index` on. -/
def writeEntries (out : Bytes) (index : Nat) : List Binding → Except FormatError Bytes
  | [] => .ok out
  | entry :: rest => do
    let out ← writeTo TreeEntry.layout entry.raw out (treeHeaderSize + index * treeEntrySize)
    writeEntries out (index + 1) rest

/-- `encode_tree`: the buffer with the tree's canonical bytes at its front, and how many
they are. -/
def encodeTree (out : Bytes) (entries : List Binding) : Except FormatError (Bytes × Nat) :=
  if entries.length > maxTreeEntries then .error .outOfRange
  else if !ordered entries then .error .notCanonical
  else if entries.any fun entry => !legalName entry.name then .error .badName
  else
    let header : TreeHeader := ⟨UInt32.ofNat entries.length, 0⟩
    let total := treeHeaderSize + entries.length * treeEntrySize
    if total > out.length then .error .tooSmall
    else do
      let out ← writeTo TreeHeader.layout header out 0
      let out ← writeEntries out 0 entries
      return (out, total)

/-! ### Decoding -/

/-- The checks one entry goes through on its own. -/
def decodeEntry (raw : TreeEntry) : Except FormatError Binding :=
  if h : raw.nameLen.toNat > 32 ∨ raw.reserved0 ≠ 0 then .error .outOfRange
  else if (raw.name.toList.drop raw.nameLen.toNat).any fun byte => byte != 0 then .error .badName
  else if !legalName (raw.name.toList.take raw.nameLen.toNat) then .error .badName
  else .ok {
    stored := raw.name
    nameLen := raw.nameLen.toNat
    childType := raw.childType
    flags := raw.flags
    length := raw.length
    digest := raw.digest
    nameLen_le := Nat.le_of_not_lt fun hc => h (Or.inl hc) }

/-- The loop of `decode_tree`, with `left` entries to go from entry `index` on. -/
def decodeEntries (bytes : Bytes) : Nat → Nat → List Binding → Except FormatError (List Binding)
  | 0, _, out => .ok out
  | left + 1, index, out =>
    match TreeEntry.layout.readFrom bytes (treeHeaderSize + index * treeEntrySize) with
    | none => .error .tooSmall
    | some raw => do
      let binding ← decodeEntry raw
      -- The neighbour in front is compared only from the second entry on.
      if index > 0 && (out[index - 1]?).any fun before => !decide (before.name < binding.name) then
        .error .notCanonical
      else decodeEntries bytes left (index + 1) (out.set index binding)

/-- `decode_tree`: the caller's array with the tree's bindings at its front, and how many
they are. -/
def decodeTree (bytes : Bytes) (out : List Binding) : Except FormatError (List Binding × Nat) :=
  match TreeHeader.layout.readFrom bytes 0 with
  | none => .error .tooSmall
  | some header =>
    let count := header.entryCount.toNat
    if header.reserved0 ≠ 0 ∨ count > maxTreeEntries ∨ count > out.length then .error .outOfRange
    else if bytes.length ≠ treeHeaderSize + count * treeEntrySize then .error .outOfRange
    else do
      let out ← decodeEntries bytes count 0 out
      return (out, count)

/-! ### Bindings a caller can state -/

/-- A binding that `Binding::new` made. -/
def Binding.Built (b : Binding) : Prop :=
  ∃ name childType flags length digest, Binding.new name childType flags length digest = .ok b

/-- The array holds nothing past the name. -/
def Binding.Padded (b : Binding) : Prop := ∀ byte ∈ b.stored.toList.drop b.nameLen, byte = 0

/-- What a name has to be to stand in a tree, on the array that holds it. -/
structure Binding.Admitted (b : Binding) : Prop where
  legal : legalName b.name = true
  padded : b.Padded

theorem Binding.Built.admitted {b : Binding} (h : b.Built) : b.Admitted := by
  obtain ⟨name, childType, flags, length, digest, h⟩ := h
  unfold Binding.new at h
  split at h
  · rename_i hlegal
    have hlen : name.length ≤ 32 := length_le_of_legalName hlegal
    obtain rfl := Except.ok.inj h
    have hname : (Vector.ofFn fun i : Fin 32 => name.getD i 0).toList =
        name ++ List.replicate (32 - name.length) 0 := by
      apply List.ext_getElem
      · rw [Vector.length_toList, List.length_append, List.length_replicate]
        omega
      · intro i hi hi'
        rw [Vector.getElem_toList, Vector.getElem_ofFn]
        by_cases hin : i < name.length
        · rw [List.getD_eq_getElem _ _ hin, List.getElem_append_left hin]
        · rw [List.getD_eq_default _ _ (Nat.le_of_not_lt hin),
            List.getElem_append_right (Nat.le_of_not_lt hin), List.getElem_replicate]
    refine ⟨?_, fun byte hbyte => ?_⟩
    · unfold Binding.name
      rw [hname, List.take_left]
      exact hlegal
    · dsimp only at hbyte
      rw [hname, List.drop_left] at hbyte
      exact List.eq_of_mem_replicate hbyte
  · cases h

/-! ### What is written -/

/-- The entries' bytes, one after the other. -/
def entriesBytes (entries : List Binding) : Bytes :=
  entries.flatMap fun entry => TreeEntry.layout.encode entry.raw

/-- The canonical bytes of a tree. -/
def treeBytes (entries : List Binding) : Bytes :=
  TreeHeader.layout.encode ⟨UInt32.ofNat entries.length, 0⟩ ++ entriesBytes entries

@[simp] theorem entriesBytes_nil : entriesBytes [] = [] := rfl

theorem entriesBytes_cons (entry : Binding) (rest : List Binding) :
    entriesBytes (entry :: rest) = TreeEntry.layout.encode entry.raw ++ entriesBytes rest := rfl

theorem entriesBytes_append (front back : List Binding) :
    entriesBytes (front ++ back) = entriesBytes front ++ entriesBytes back :=
  List.flatMap_append

theorem length_entriesBytes (entries : List Binding) :
    (entriesBytes entries).length = entries.length * treeEntrySize := by
  induction entries with
  | nil => rfl
  | cons entry rest ih =>
    rw [entriesBytes_cons, List.length_append, TreeEntry.layout.length_encode, ih,
      TreeEntry.size_layout, List.length_cons, Nat.add_mul]
    omega

theorem length_treeBytes (entries : List Binding) :
    (treeBytes entries).length = treeHeaderSize + entries.length * treeEntrySize := by
  unfold treeBytes
  rw [List.length_append, TreeHeader.layout.length_encode, length_entriesBytes]
  rfl

theorem writeEntries_spec (entries : List Binding) (out : Bytes) (index : Nat)
    (hroom : treeHeaderSize + (index + entries.length) * treeEntrySize ≤ out.length) :
    ∃ out', writeEntries out index entries = .ok out' ∧
      out'.take (treeHeaderSize + (index + entries.length) * treeEntrySize) =
        out.take (treeHeaderSize + index * treeEntrySize) ++ entriesBytes entries := by
  induction entries generalizing out index with
  | nil =>
    refine ⟨out, rfl, ?_⟩
    rw [List.length_nil, Nat.add_zero, entriesBytes_nil, List.append_nil]
  | cons entry rest ih =>
    have hcount : index + (entry :: rest).length = index + 1 + rest.length := by
      rw [List.length_cons]
      omega
    have hnext : treeHeaderSize + index * treeEntrySize + TreeEntry.layout.size =
        treeHeaderSize + (index + 1) * treeEntrySize := by
      rw [TreeEntry.size_layout, Nat.add_mul]
      omega
    have hfits : treeHeaderSize + index * treeEntrySize + TreeEntry.layout.size ≤ out.length := by
      rw [hnext]
      refine Nat.le_trans (Nat.add_le_add_left (Nat.mul_le_mul_right _ ?_) _) hroom
      omega
    have hsize : (TreeEntry.layout.encode entry.raw).length = TreeEntry.layout.size :=
      TreeEntry.layout.length_encode _
    obtain ⟨out', hout', htake⟩ := ih
      (splice out (treeHeaderSize + index * treeEntrySize) (TreeEntry.layout.encode entry.raw))
      (index + 1) (by rw [length_splice (by rw [hsize]; exact hfits), ← hcount]; exact hroom)
    refine ⟨out', ?_, ?_⟩
    · unfold writeEntries
      rw [writeTo_of_room hfits]
      exact hout'
    · rw [hcount, htake, ← hnext, ← hsize, take_splice (by omega), entriesBytes_cons,
        List.append_assoc]

/-- What `encode_tree` demands of a list of bindings. -/
structure Canonical (entries : List Binding) : Prop where
  few : entries.length ≤ maxTreeEntries
  ordered : ordered entries = true
  legal : ∀ entry ∈ entries, legalName entry.name = true

theorem Canonical.no_bad_name {entries : List Binding} (h : Canonical entries) :
    (entries.any fun entry => !legalName entry.name) = false := by
  rw [List.any_eq_false]
  intro entry he
  rw [h.legal entry he]
  exact Bool.false_ne_true

theorem encodeTree_of_canonical {entries : List Binding} (h : Canonical entries) {out : Bytes}
    (hroom : (treeBytes entries).length ≤ out.length) :
    ∃ out', encodeTree out entries = .ok (out', (treeBytes entries).length) ∧
      out'.take (treeBytes entries).length = treeBytes entries := by
  rw [length_treeBytes] at hroom ⊢
  have hheader : 0 + TreeHeader.layout.size ≤ out.length := by
    rw [TreeHeader.size_layout]
    omega
  have hsize : (TreeHeader.layout.encode ⟨UInt32.ofNat entries.length, 0⟩).length =
      treeHeaderSize := TreeHeader.layout.length_encode _
  obtain ⟨out', hout', htake⟩ := writeEntries_spec entries
    (splice out 0 (TreeHeader.layout.encode ⟨UInt32.ofNat entries.length, 0⟩)) 0
    (by rw [length_splice (by rw [hsize]; omega), Nat.zero_add]; exact hroom)
  refine ⟨out', ?_, ?_⟩
  · unfold encodeTree
    rw [if_neg (Nat.not_lt.mpr h.few), h.ordered, h.no_bad_name]
    dsimp only
    rw [if_neg (by decide), if_neg (by decide), if_neg (Nat.not_lt.mpr hroom),
      writeTo_of_room hheader]
    show (writeEntries _ 0 entries >>= fun out => pure (out, _)) = _
    rw [hout']
    rfl
  · have hfront := @take_splice (TreeHeader.layout.encode ⟨UInt32.ofNat entries.length, 0⟩) out 0
      (Nat.zero_le _)
    rw [hsize, Nat.zero_add, List.take_zero, List.nil_append] at hfront
    rw [Nat.zero_add, Nat.zero_mul, Nat.add_zero, hfront] at htake
    exact htake

theorem canonical_of_encodeTree {entries : List Binding} {out : Bytes} {r : Bytes × Nat}
    (h : encodeTree out entries = .ok r) :
    Canonical entries ∧ (treeBytes entries).length ≤ out.length := by
  unfold encodeTree at h
  split at h
  · cases h
  split at h
  · cases h
  split at h
  · cases h
  rename_i hfew hordered hlegal
  dsimp only at h
  split at h
  · cases h
  rename_i hroom
  refine ⟨⟨Nat.le_of_not_lt hfew, ?_, fun entry he => ?_⟩, ?_⟩
  · simpa using hordered
  · by_contra hbad
    exact hlegal (List.any_eq_true.mpr ⟨entry, he, by simpa using hbad⟩)
  · rw [length_treeBytes]
    exact Nat.le_of_not_lt hroom

theorem encodeTree_ok {entries : List Binding} {out out' : Bytes} {n : Nat}
    (h : encodeTree out entries = .ok (out', n)) :
    Canonical entries ∧ n = (treeBytes entries).length ∧ out'.take n = treeBytes entries := by
  obtain ⟨hcanonical, hroom⟩ := canonical_of_encodeTree h
  obtain ⟨out'', hout, htake⟩ := encodeTree_of_canonical hcanonical hroom
  obtain ⟨rfl, rfl⟩ := Prod.mk.inj (Except.ok.inj (h.symm.trans hout))
  exact ⟨hcanonical, rfl, htake⟩

/-! ### What is read -/

theorem ordered_concat (front : List Binding) (b : Binding) :
    ordered (front ++ [b]) = true ↔
      ordered front = true ∧ ∀ a ∈ front.getLast?, a.name < b.name := by
  induction front with
  | nil => simp [ordered]
  | cons a rest ih =>
    cases rest with
    | nil => simp [ordered]
    | cons c rest =>
      have hstep : ∀ l : List Binding, ordered (a :: c :: l) =
          (decide (a.name < c.name) && ordered (c :: l)) := fun _ => rfl
      rw [List.cons_append, List.cons_append, hstep, hstep, Bool.and_eq_true,
        Bool.and_eq_true, ← List.cons_append, ih, List.getLast?_cons_cons, and_assoc]

theorem ordered_of_append {front back : List Binding} (h : ordered (front ++ back) = true) :
    ordered front = true := by
  induction back generalizing front with
  | nil => rwa [List.append_nil] at h
  | cons b rest ih =>
    rw [← List.singleton_append, ← List.append_assoc] at h
    exact ((ordered_concat front b).mp (ih h)).1

theorem decodeEntry_raw {b : Binding} (h : b.Admitted) : decodeEntry b.raw = .ok b := by
  have hlen : (UInt32.ofNat b.nameLen).toNat = b.nameLen := by
    have := b.nameLen_le
    rw [UInt32.toNat_ofNat']
    omega
  have hpad : (b.stored.toList.drop b.nameLen).any (fun byte => byte != 0) = false := by
    rw [List.any_eq_false]
    intro byte hbyte
    rw [h.padded byte hbyte]
    decide
  have hlegal : legalName (b.stored.toList.take b.nameLen) = true := h.legal
  unfold decodeEntry Binding.raw
  dsimp only
  rw [dif_neg (by rw [hlen]; exact fun hc => hc.elim (Nat.not_lt.mpr b.nameLen_le) fun h => h rfl)]
  simp only [hlen, hpad, hlegal]
  rfl

theorem decodeEntry_ok {raw : TreeEntry} {b : Binding} (h : decodeEntry raw = .ok b) :
    b.raw = raw ∧ b.Admitted := by
  unfold decodeEntry at h
  split at h
  · cases h
  rename_i hfields
  split at h
  · cases h
  split at h
  · cases h
  rename_i hpad hlegal
  obtain rfl := Except.ok.inj h
  obtain ⟨-, hreserved⟩ := not_or.mp hfields
  refine ⟨?_, ?_, fun byte hbyte => ?_⟩
  · unfold Binding.raw
    dsimp only
    rw [UInt32.ofNat_toNat, ← not_ne_iff.mp hreserved]
  · have hname : legalName (raw.name.toList.take raw.nameLen.toNat) = true := by simpa using hlegal
    exact hname
  · by_contra hne
    exact hpad (List.any_eq_true.mpr ⟨byte, hbyte, by simpa using hne⟩)

variable {bytes header : Bytes}

theorem readFrom_entry {after : Bytes} {done : List Binding} {b : Binding}
    (hheader : header.length = treeHeaderSize)
    (hbytes : bytes = header ++ entriesBytes done ++ (TreeEntry.layout.encode b.raw ++ after)) :
    TreeEntry.layout.readFrom bytes (treeHeaderSize + done.length * treeEntrySize) =
      some b.raw := by
  have hlen : (header ++ entriesBytes done).length =
      treeHeaderSize + done.length * treeEntrySize := by
    rw [List.length_append, hheader, length_entriesBytes]
  rw [hbytes, ← hlen]
  exact TreeEntry.layout.readFrom_append _ _ _

theorem take_getLast? {out done : List Binding} (h : out.take done.length = done)
    (hpos : 0 < done.length) : out[done.length - 1]? = done.getLast? := by
  have hat := congrArg (fun l : List Binding => l[done.length - 1]?) h
  rw [List.getElem?_take_of_lt (by omega)] at hat
  rw [List.getLast?_eq_getElem?, hat]

theorem take_set {out done : List Binding} {b : Binding} (h : out.take done.length = done)
    (hlt : done.length < out.length) : (out.set done.length b).take (done ++ [b]).length =
      done ++ [b] := by
  rw [List.length_append, List.length_singleton, List.take_add_one, List.take_set_of_le (by omega),
    h, List.getElem?_set_self hlt]
  rfl

theorem inOrder_iff {out done : List Binding} {b : Binding} (h : out.take done.length = done)
    (hord : ordered done = true) :
    (done.length > 0 && (out[done.length - 1]?).any fun before => !decide (before.name < b.name)) =
      false ↔ ordered (done ++ [b]) = true := by
  rw [ordered_concat]
  rcases done.eq_nil_or_concat with rfl | ⟨front, last, rfl⟩
  · simp [ordered]
  · rw [List.concat_eq_append] at h hord ⊢
    rw [take_getLast? h (by simp), List.getLast?_concat]
    simp [hord]

theorem decodeEntries_of_bytes (hheader : header.length = treeHeaderSize)
    (rest : List Binding) (done out : List Binding)
    (hbytes : bytes = header ++ entriesBytes (done ++ rest))
    (hord : ordered (done ++ rest) = true) (hadmitted : ∀ b ∈ rest, b.Admitted)
    (hout : out.take done.length = done) (hroom : done.length + rest.length ≤ out.length) :
    ∃ out', decodeEntries bytes rest.length done.length out = .ok out' ∧
      out'.take (done ++ rest).length = done ++ rest := by
  induction rest generalizing done out with
  | nil =>
    rw [List.append_nil] at hord ⊢
    exact ⟨out, rfl, hout⟩
  | cons b rest ih =>
    have hsplit : done ++ b :: rest = done ++ [b] ++ rest := by
      rw [List.append_assoc, List.singleton_append]
    rw [hsplit] at hbytes hord ⊢
    have hread := @readFrom_entry bytes header (entriesBytes rest) done b hheader (by
      rw [hbytes, entriesBytes_append, entriesBytes_append, entriesBytes_cons, entriesBytes_nil,
        List.append_nil, List.append_assoc, List.append_assoc])
    rw [List.length_cons] at hroom
    have hlt : done.length < out.length := by omega
    have hordb : ordered (done ++ [b]) = true := ordered_of_append hord
    have hord0 : ordered done = true := ((ordered_concat done b).mp hordb).1
    obtain ⟨out', hout', htake⟩ := ih (done ++ [b]) (out.set done.length b) hbytes hord
      (fun c hc => hadmitted c (List.mem_cons_of_mem _ hc)) (take_set hout hlt) (by
        rw [List.length_append, List.length_singleton, List.length_set]
        omega)
    refine ⟨out', ?_, htake⟩
    rw [List.length_cons, decodeEntries, hread]
    dsimp only
    rw [decodeEntry_raw (hadmitted b List.mem_cons_self)]
    show (if _ then _ else _) = _
    rw [(inOrder_iff hout hord0).mpr hordb, if_neg Bool.false_ne_true]
    rw [List.length_append, List.length_singleton] at hout'
    exact hout'

theorem decodeEntries_ok (left : Nat) (done out out' : List Binding)
    (h : decodeEntries bytes left done.length out = .ok out')
    (hout : out.take done.length = done) (hroom : done.length + left ≤ out.length)
    (hord : ordered done = true) :
    ∃ rest : List Binding, rest.length = left ∧ out'.take (done.length + left) = done ++ rest ∧
      bytes.take (treeHeaderSize + (done.length + left) * treeEntrySize) =
        bytes.take (treeHeaderSize + done.length * treeEntrySize) ++ entriesBytes rest ∧
      ordered (done ++ rest) = true ∧ ∀ b ∈ rest, b.Admitted := by
  induction left generalizing done out with
  | zero =>
    obtain rfl := Except.ok.inj h
    refine ⟨[], rfl, ?_, ?_, ?_, fun b hb => (List.not_mem_nil hb).elim⟩
    · rw [Nat.add_zero, List.append_nil]
      exact hout
    · rw [Nat.add_zero, entriesBytes_nil, List.append_nil]
    · rw [List.append_nil]
      exact hord
  | succ left ih =>
    unfold decodeEntries at h
    split at h
    · cases h
    rename_i raw hread
    cases hb : decodeEntry raw with
    | error e => rw [hb] at h; cases h
    | ok b =>
      rw [hb] at h
      replace h : (if _ then _ else _) = _ := h
      split at h
      · cases h
      rename_i hcheck
      obtain ⟨rfl, hadmitted⟩ := decodeEntry_ok hb
      have hlt : done.length < out.length := by omega
      have hordb : ordered (done ++ [b]) = true :=
        (inOrder_iff hout hord).mp (Bool.not_eq_true _ ▸ hcheck)
      have hlen : (done ++ [b]).length = done.length + 1 := by
        rw [List.length_append, List.length_singleton]
      rw [← hlen] at h
      obtain ⟨rest, hrest, htake, hbytes, hordall, hall⟩ := ih (done ++ [b])
        (out.set done.length b) h (take_set hout hlt)
        (by rw [hlen, List.length_set]; omega) hordb
      have hcount : done.length + (left + 1) = done.length + 1 + left := by omega
      have hnext : treeHeaderSize + (done.length + 1) * treeEntrySize =
          treeHeaderSize + done.length * treeEntrySize + TreeEntry.layout.size := by
        rw [TreeEntry.size_layout, Nat.add_mul]
        omega
      rw [hlen] at htake hbytes
      refine ⟨b :: rest, by rw [List.length_cons, hrest], ?_, ?_, ?_, ?_⟩
      · rw [hcount, htake, List.append_assoc, List.singleton_append]
      · rw [hcount, hbytes, hnext, Layout.take_of_readFrom hread, entriesBytes_cons,
          List.append_assoc]
      · rw [← List.singleton_append, ← List.append_assoc]
        exact hordall
      · intro c hc
        rcases List.mem_cons.mp hc with rfl | hc
        · exact hadmitted
        · exact hall c hc

theorem decodeTree_of_canonical {entries out : List Binding} (h : Canonical entries)
    (hpadded : ∀ b ∈ entries, b.Padded) (hroom : entries.length ≤ out.length) :
    ∃ out', decodeTree (treeBytes entries) out = .ok (out', entries.length) ∧
      out'.take entries.length = entries := by
  have hcount : (UInt32.ofNat entries.length).toNat = entries.length := by
    have hfew : entries.length ≤ 12 := h.few
    rw [UInt32.toNat_ofNat']
    omega
  obtain ⟨out', hout', htake⟩ := decodeEntries_of_bytes
    (TreeHeader.layout.length_encode ⟨UInt32.ofNat entries.length, 0⟩) entries [] out rfl h.ordered
    (fun b hb => ⟨h.legal b hb, hpadded b hb⟩) rfl (by rw [List.length_nil]; omega)
  refine ⟨out', ?_, htake⟩
  have hread : TreeHeader.layout.readFrom (treeBytes entries) 0 =
      some ⟨UInt32.ofNat entries.length, 0⟩ := TreeHeader.layout.readFrom_front _ _
  unfold decodeTree
  rw [hread]
  dsimp only
  rw [hcount, if_neg (by
      rintro (hc | hc | hc)
      · exact hc rfl
      · exact Nat.not_lt.mpr h.few hc
      · exact Nat.not_lt.mpr hroom hc),
    if_neg (not_not.mpr (length_treeBytes entries))]
  show (decodeEntries _ entries.length 0 out >>= fun out => pure (out, _)) = _
  rw [List.length_nil, List.nil_append] at hout'
  unfold treeBytes
  rw [hout']
  rfl

theorem decodeTree_ok {out out' : List Binding} {n : Nat}
    (h : decodeTree bytes out = .ok (out', n)) :
    Canonical (out'.take n) ∧ bytes = treeBytes (out'.take n) ∧
      ∀ b ∈ out'.take n, b.Admitted := by
  unfold decodeTree at h
  split at h
  · cases h
  rename_i header hread
  dsimp only at h
  split at h
  · cases h
  rename_i hfields
  split at h
  · cases h
  rename_i hlen
  rw [not_or, not_or] at hfields
  obtain ⟨hreserved, hfew, hroom⟩ := hfields
  rw [not_not] at hlen
  cases hloop : decodeEntries bytes header.entryCount.toNat 0 out with
  | error e => rw [hloop] at h; cases h
  | ok found =>
    rw [hloop] at h
    obtain ⟨rfl, rfl⟩ := Prod.mk.inj (Except.ok.inj h)
    obtain ⟨rest, hrest, htake, hbytes, hord, hall⟩ := decodeEntries_ok _ [] _ _ hloop rfl
      (by rw [List.length_nil, Nat.zero_add]; exact Nat.le_of_not_lt hroom) rfl
    rw [List.length_nil, Nat.zero_add, List.nil_append] at htake
    rw [List.length_nil, Nat.zero_add, Nat.zero_mul, Nat.add_zero, ← hlen, List.take_length] at hbytes
    have hheader : bytes.take treeHeaderSize =
        TreeHeader.layout.encode ⟨UInt32.ofNat rest.length, 0⟩ := by
      have := Layout.take_of_readFrom hread
      rw [TreeHeader.size_layout, Nat.zero_add, List.take_zero, List.nil_append] at this
      rw [this, hrest, UInt32.ofNat_toNat, ← not_ne_iff.mp hreserved]
    rw [htake]
    refine ⟨⟨?_, hord, fun b hb => (hall b hb).legal⟩, ?_, hall⟩
    · rw [hrest]
      exact Nat.le_of_not_lt hfew
    · rw [hbytes, hheader]
      rfl

/-! ### The format is canonical -/

/-- **A tree has one byte string and a byte string has one tree.**  Decoding what was
encoded gives the bindings back; encoding what was decoded gives the bytes back, so no
two byte strings decode to one tree. -/
theorem tree_canonical :
    (∀ (entries : List Binding) (out out' : Bytes) (n : Nat), (∀ b ∈ entries, b.Built) →
      encodeTree out entries = .ok (out', n) →
      ∀ room : List Binding, entries.length ≤ room.length →
        ∃ found, decodeTree (out'.take n) room = .ok (found, entries.length) ∧
          found.take entries.length = entries) ∧
    (∀ (bytes : Bytes) (room found : List Binding) (n : Nat),
      decodeTree bytes room = .ok (found, n) →
      ∀ out : Bytes, bytes.length ≤ out.length →
        ∃ out', encodeTree out (found.take n) = .ok (out', bytes.length) ∧
          out'.take bytes.length = bytes) ∧
    (∀ (bytes bytes' : Bytes) (room room' found found' : List Binding) (n n' : Nat),
      decodeTree bytes room = .ok (found, n) → decodeTree bytes' room' = .ok (found', n') →
      found.take n = found'.take n' → bytes = bytes') := by
  refine ⟨?_, ?_, ?_⟩
  · intro entries out out' n hbuilt h room hroom
    obtain ⟨hcanonical, -, htake⟩ := encodeTree_ok h
    rw [htake]
    exact decodeTree_of_canonical hcanonical (fun b hb => (hbuilt b hb).admitted.padded) hroom
  · intro bytes room found n h out hroom
    obtain ⟨hcanonical, hbytes, -⟩ := decodeTree_ok h
    rw [hbytes] at hroom ⊢
    exact encodeTree_of_canonical hcanonical hroom
  · intro bytes bytes' room room' found found' n n' h h' hsame
    rw [(decodeTree_ok h).2.1, (decodeTree_ok h').2.1, hsame]

/-- A binding of the name `a` to nothing. -/
def sampleBinding : Binding where
  stored := Vector.ofFn fun i => [97].getD i 0
  nameLen := 1
  childType := 1
  flags := 0
  length := 0
  digest := Vector.replicate 32 0
  nameLen_le := by decide

theorem tree_canonical_sample :
    ∃ found, decodeTree (treeBytes [sampleBinding]) [sampleBinding] = .ok (found, 1) ∧
      found.take 1 = [sampleBinding] := by
  have hbuilt : sampleBinding.Built := ⟨[97], 1, 0, 0, Vector.replicate 32 0, rfl⟩
  have hcanonical : Canonical [sampleBinding] := by
    refine ⟨by decide, rfl, fun entry he => ?_⟩
    rw [List.mem_singleton.mp he]
    exact hbuilt.admitted.legal
  obtain ⟨out, hout, htake⟩ := encodeTree_of_canonical hcanonical (Nat.le_refl _)
  have h := tree_canonical.1 [sampleBinding] _ out _ (fun b hb => by
    rw [List.mem_singleton.mp hb]
    exact hbuilt) hout [sampleBinding] (Nat.le_refl _)
  rwa [htake] at h

/-! ### The objects above the format -/

end Thalyx.Wire
