/-
Copying between the kernel and a domain's memory: `kernel/src/ucopy.rs`.

A copy goes over the range page by page: it resolves the page through the domain's own
tables, checks its flags, and moves the bytes that lie in it, before it looks at the next
page.  What it moved is kept as a list of chunks, so a copy that fails says how far it got.

`copies_atomic_iff` says when a copy is all or nothing: unless the first page may be copied
and a later one may not.  What holds of every copy is `copy_confined`: it reads and writes
the bytes of the range alone, each through a mapping that allows it.
-/
import ThalyxKernel.Lib.Checked
import ThalyxKernel.Lib.FourLevel
import ThalyxKernel.Kernel.Build

namespace Thalyx.Kernel.Ucopy

open List

/-! ### The copy -/

/-- `Fault`. -/
inductive Fault where
  | range
  | unmapped
  | notUser
  | notWritable
deriving DecidableEq, Repr

/-- `UserSpace`: the root of the tables, and what they hold. -/
structure UserSpace where
  root : Nat
  word : Nat → Nat → Nat

/-- What one call of the closure moves: a physical address, an offset into the buffer, and how
many bytes. -/
structure Chunk where
  phys : Nat
  offset : Nat
  count : Nat
deriving DecidableEq, Repr

/-- How a walk ended, and what it had moved. -/
structure Walked where
  status : Except Fault Unit
  moved : List Chunk

/-- `bounded`. -/
def bounded (addr len : Nat) : Except Fault Unit :=
  if len = 0 then .error .range
  else
    match Checked.add addr len with
    | none => .error .range
    | some stop => if addr < userMinAddr ∨ userMaxAddr < stop then .error .range else .ok ()

/-- The page of an address, checked for the access. -/
def resolve (space : UserSpace) (virt : Nat) (writable : Bool) : Except Fault Nat :=
  match FourLevel.translate space.word space.root virt with
  | none => .error .unmapped
  | some (phys, flags) =>
    if flags &&& FourLevel.user = 0 then .error .notUser
    else if writable ∧ flags &&& FourLevel.writable = 0 then .error .notWritable
    else .ok phys

/-- The loop of `walk`, for at most as many turns as given; `none` is a panic, or no more
turns. -/
def walkLoop (space : UserSpace) (addr len : Nat) (writable : Bool) :
    Nat → Nat → List Chunk → Option Walked
  | 0, _, _ => none
  | turns + 1, offset, moved => do
    if offset < len then
      let virt ← Checked.add addr offset
      let chunk := min (FourLevel.pageSize - virt % FourLevel.pageSize) (len - offset)
      match resolve space virt writable with
      | .error fault => return ⟨.error fault, moved⟩
      | .ok phys =>
        walkLoop space addr len writable turns (← Checked.add offset chunk)
          (moved ++ [⟨phys, offset, chunk⟩])
    else return ⟨.ok (), moved⟩

/-- `walk`.  A turn moves a byte at least, so there are not more turns than bytes. -/
def walk (space : UserSpace) (addr len : Nat) (writable : Bool) : Option Walked :=
  match bounded addr len with
  | .error fault => some ⟨.error fault, []⟩
  | .ok () => walkLoop space addr len writable (len + 1) 0 []

/-- A chunk copied out of memory into a buffer. -/
def readChunk (ram : Nat → UInt8) (buffer : List UInt8) (chunk : Chunk) : List UInt8 :=
  buffer.take chunk.offset ++ (List.range chunk.count).map (fun i => ram (chunk.phys + i))
    ++ buffer.drop (chunk.offset + chunk.count)

/-- A chunk copied out of a buffer into memory. -/
def writeChunk (source : List UInt8) (ram : Nat → UInt8) (chunk : Chunk) : Nat → UInt8 :=
  fun x =>
    if chunk.phys ≤ x ∧ x < chunk.phys + chunk.count then
      source.getD (chunk.offset + (x - chunk.phys)) 0
    else ram x

/-- `copy_in`: how it ended, what it moved, and the destination after it. -/
def copyIn (space : UserSpace) (ram : Nat → UInt8) (addr len : Nat) (destination : List UInt8) :
    Option (Walked × List UInt8) :=
  if destination.length < len then some (⟨.error .range, []⟩, destination)
  else
    (walk space addr len false).map fun walked =>
      (walked, walked.moved.foldl (readChunk ram) destination)

/-- `copy_out`: how it ended, what it moved, and memory after it. -/
def copyOut (space : UserSpace) (ram : Nat → UInt8) (addr : Nat) (source : List UInt8) :
    Option (Walked × (Nat → UInt8)) :=
  (walk space addr source.length true).map fun walked =>
    (walked, walked.moved.foldl (writeChunk source) ram)

/-! ### What a copy may touch -/

/-- A byte of the range may be accessed at a physical address. -/
def Allows (space : UserSpace) (writable : Bool) (virt phys : Nat) : Prop :=
  resolve space virt writable = .ok phys

/-- The range is one a domain may name. -/
def InRange (addr len : Nat) : Prop := 0 < len ∧ userMinAddr ≤ addr ∧ addr + len ≤ userMaxAddr

/-- Chunks that cover a part of the range, in order, each moved through a mapping that allows
it. -/
inductive Covers (space : UserSpace) (writable : Bool) (addr : Nat) :
    Nat → Nat → List Chunk → Prop
  | nil {start : Nat} : Covers space writable addr start start []
  | cons {stop : Nat} {chunk : Chunk} {rest : List Chunk} (hpos : 0 < chunk.count)
      (hallows : ∀ i < chunk.count,
        Allows space writable (addr + chunk.offset + i) (chunk.phys + i))
      (hrest : Covers space writable addr (chunk.offset + chunk.count) stop rest) :
      Covers space writable addr chunk.offset stop (chunk :: rest)

theorem bounded_ok_iff {addr len : Nat} : bounded addr len = .ok () ↔ InRange addr len := by
  unfold bounded InRange
  by_cases hlen : len = 0
  · simp [hlen]
  rw [if_neg hlen]
  by_cases hfits : addr + len < Checked.usizeValues
  · rw [Checked.add_eq hfits]
    dsimp only
    split
    · next hout =>
        simp only [reduceCtorEq, false_iff]
        omega
    · next hin =>
        simp only [true_iff]
        omega
  · have hnone : Checked.add addr len = none := if_neg hfits
    rw [hnone]
    unfold Checked.usizeValues at hfits
    unfold userMaxAddr
    simp only [reduceCtorEq, false_iff]
    omega

variable {i phys virt : Nat}

theorem allows_iff {space : UserSpace} {writable : Bool} :
    Allows space writable virt phys ↔ ∃ flags,
      FourLevel.translate space.word space.root virt = some (phys, flags)
        ∧ flags &&& FourLevel.user ≠ 0 ∧ (writable → flags &&& FourLevel.writable ≠ 0) := by
  unfold Allows resolve
  constructor
  · intro h
    split at h
    · simp at h
    next phys' flags htranslate =>
    split at h
    · simp at h
    next huser =>
    split at h
    · simp at h
    next hwrite =>
    obtain rfl : phys' = phys := by simpa using h
    exact ⟨flags, htranslate, huser, fun hw hzero => hwrite ⟨hw, hzero⟩⟩
  · rintro ⟨flags, htranslate, huser, hwrite⟩
    rw [htranslate]
    dsimp only
    rw [if_neg huser, if_neg fun h => hwrite h.1 h.2]

theorem allows_add {space : UserSpace} {writable : Bool} (h : Allows space writable virt phys)
    (hi : virt % FourLevel.pageSize + i < FourLevel.pageSize) :
    Allows space writable (virt + i) (phys + i) := by
  have hpos : 0 < FourLevel.pageSize := by decide
  have hsplit := Nat.div_add_mod virt FourLevel.pageSize
  have hpage : virt / FourLevel.pageSize = (virt + i) / FourLevel.pageSize := by
    rw [← hsplit, Nat.add_assoc, Nat.mul_add_div hpos, Nat.mul_add_div hpos,
      Nat.div_eq_of_lt hi, Nat.div_eq_of_lt (Nat.mod_lt _ hpos)]
  have hmod : (virt + i) % FourLevel.pageSize = virt % FourLevel.pageSize + i := by
    rw [← hsplit, Nat.add_assoc, Nat.mul_add_mod, Nat.mul_add_mod, Nat.mod_eq_of_lt hi,
      Nat.mod_eq_of_lt (Nat.mod_lt _ hpos)]
  obtain ⟨flags, htranslate, hflags⟩ := allows_iff.mp h
  refine allows_iff.mpr ⟨flags, ?_, hflags⟩
  have hself := @FourLevel.translate_page virt virt space.word space.root rfl
  rw [htranslate, Option.map_some, Option.some_inj, Prod.mk.injEq] at hself
  rw [FourLevel.translate_page hpage, htranslate, Option.map_some, hmod, ← Nat.add_assoc,
    ← hself.1]

/-! ### The loop -/

/-- A walk covers the range from where it is up to the first byte that may not be accessed. -/
def Reaches (space : UserSpace) (writable : Bool) (addr len start : Nat) (moved : List Chunk)
    (walked : Walked) : Prop :=
  ∃ stop new, walked.moved = moved ++ new ∧ Covers space writable addr start stop new
    ∧ (walked.status = .ok () ∧ stop = len ∨ ∃ fault, walked.status = .error fault ∧ stop < len
      ∧ resolve space (addr + stop) writable = .error fault)

theorem walkLoop_reaches {space : UserSpace} {writable : Bool} {addr len : Nat}
    (hrange : InRange addr len) {turns offset : Nat} (moved : List Chunk) (hle : offset ≤ len)
    (hturns : len - offset < turns) :
    ∃ walked, walkLoop space addr len writable turns offset moved = some walked
      ∧ Reaches space writable addr len offset moved walked := by
  induction turns generalizing offset moved with
  | zero => omega
  | succ turns ih =>
    unfold walkLoop
    by_cases hmore : offset < len
    swap
    · rw [if_neg hmore]
      refine ⟨_, rfl, len, [], (append_nil _).symm, ?_, .inl ⟨rfl, rfl⟩⟩
      rw [Nat.le_antisymm hle (Nat.not_lt.mp hmore)]
      exact .nil
    have hstop := hrange.2.2
    have hfits : addr + len < Checked.usizeValues := by
      unfold userMaxAddr at hstop
      unfold Checked.usizeValues
      omega
    rw [if_pos hmore, Checked.add_eq (by omega)]
    simp only [Option.bind_eq_bind, Option.bind_some]
    have hmod : (addr + offset) % FourLevel.pageSize < FourLevel.pageSize :=
      Nat.mod_lt _ (by decide)
    cases hresolve : resolve space (addr + offset) writable with
    | error fault =>
      exact ⟨_, rfl, offset, [], (append_nil _).symm, .nil,
        .inr ⟨fault, rfl, hmore, hresolve⟩⟩
    | ok phys =>
      generalize hchunk : min (FourLevel.pageSize - (addr + offset) % FourLevel.pageSize)
        (len - offset) = count
      rw [Checked.add_eq (by omega)]
      obtain ⟨walked, hwalked, stop, new, hmoved, hcovers, hend⟩ :=
        ih (moved ++ [⟨phys, offset, count⟩]) (show offset + count ≤ len by omega) (by omega)
      refine ⟨walked, hwalked, stop, ⟨phys, offset, count⟩ :: new, ?_, ?_, hend⟩
      · rw [hmoved, append_assoc]
        rfl
      · refine @Covers.cons space writable addr stop ⟨phys, offset, count⟩ new
          (show 0 < count by omega) (fun i hi => ?_) hcovers
        show Allows space writable (addr + offset + i) (phys + i)
        have hlt : i < count := hi
        exact allows_add hresolve (by omega)

/-! ### What is covered -/

variable {space : UserSpace} {writable : Bool} {addr len start stop : Nat} {moved : List Chunk}

theorem Covers.le (h : Covers space writable addr start stop moved) : start ≤ stop := by
  induction h with
  | nil => exact Nat.le_refl _
  | cons hpos _ _ ih => omega

theorem Covers.allows (h : Covers space writable addr start stop moved)
    (hle : start ≤ i) (hlt : i < stop) : ∃ phys, Allows space writable (addr + i) phys := by
  induction h with
  | nil => omega
  | @cons stop chunk rest hpos hallows hrest ih =>
    by_cases hin : i < chunk.offset + chunk.count
    · have hbyte := hallows (i - chunk.offset) (by omega)
      rw [Nat.add_assoc, Nat.add_sub_cancel' hle] at hbyte
      exact ⟨_, hbyte⟩
    · exact ih (by omega) hlt

/-- Where a byte of the range lies. -/
def physOf (space : UserSpace) (virt : Nat) : Nat :=
  ((FourLevel.translate space.word space.root virt).map Prod.fst).getD 0

theorem physOf_eq (h : Allows space writable virt phys) : physOf space virt = phys := by
  obtain ⟨flags, htranslate, -⟩ := allows_iff.mp h
  rw [physOf, htranslate]
  rfl

/-- Bytes of the range, as memory has them. -/
def userBytes (space : UserSpace) (ram : Nat → UInt8) (addr start count : Nat) : List UInt8 :=
  (List.range count).map fun i => ram (physOf space (addr + start + i))

/-- Bytes of the range written one after the other. -/
def putBytes (space : UserSpace) (source : List UInt8) (addr : Nat) (ram : Nat → UInt8)
    (offsets : List Nat) : Nat → UInt8 :=
  offsets.foldl (fun ram i => Function.update ram (physOf space (addr + i)) (source.getD i 0)) ram

theorem userBytes_add (ram : Nat → UInt8) (a b : Nat) : userBytes space ram addr start (a + b)
    = userBytes space ram addr start a ++ userBytes space ram addr (start + a) b := by
  unfold userBytes
  rw [range_add, map_append, map_map]
  congr 1
  apply map_congr_left
  intro i _
  show ram (physOf space (addr + start + (a + i))) = _
  rw [← Nat.add_assoc, Nat.add_assoc addr start a]

theorem chunk_bytes {chunk : Chunk} (ram : Nat → UInt8) (hallows : ∀ i < chunk.count,
      Allows space writable (addr + chunk.offset + i) (chunk.phys + i)) :
    (List.range chunk.count).map (fun i => ram (chunk.phys + i))
      = userBytes space ram addr chunk.offset chunk.count := by
  apply map_congr_left
  intro i hi
  rw [physOf_eq (hallows i (List.mem_range.mp hi))]

theorem Covers.read (h : Covers space writable addr start stop moved) (ram : Nat → UInt8)
    (buffer : List UInt8) (hstop : stop ≤ buffer.length) :
    moved.foldl (readChunk ram) buffer = buffer.take start
      ++ userBytes space ram addr start (stop - start) ++ buffer.drop stop := by
  induction h generalizing buffer with
  | nil => simp [userBytes]
  | @cons stop chunk rest hpos hallows hrest ih =>
    have hle := hrest.le
    have hfront : (buffer.take chunk.offset
        ++ userBytes space ram addr chunk.offset chunk.count).length
          = chunk.offset + chunk.count := by
      rw [length_append, length_take, Nat.min_eq_left (by omega)]
      simp [userBytes]
    have hchunk : readChunk ram buffer chunk = buffer.take chunk.offset
        ++ userBytes space ram addr chunk.offset chunk.count
        ++ buffer.drop (chunk.offset + chunk.count) := by
      rw [readChunk, chunk_bytes ram hallows]
    have hlong : stop ≤ (readChunk ram buffer chunk).length := by
      rw [hchunk, length_append, hfront, length_drop]
      omega
    have hsplit : stop - chunk.offset = chunk.count + (stop - (chunk.offset + chunk.count)) := by
      omega
    rw [foldl_cons, ih _ hlong, hchunk, take_left' hfront, hsplit, userBytes_add,
      drop_append, drop_eq_nil_of_le (hfront.trans_le hle), nil_append,
      hfront, drop_drop, Nat.add_sub_cancel' hle]
    simp only [append_assoc]

theorem writeChunk_eq {chunk : Chunk} (source : List UInt8) (ram : Nat → UInt8)
    (hallows : ∀ i < chunk.count,
      Allows space writable (addr + chunk.offset + i) (chunk.phys + i)) :
    writeChunk source ram chunk
      = putBytes space source addr ram (List.range' chunk.offset chunk.count) := by
  suffices hpart : ∀ n ≤ chunk.count,
      writeChunk source ram { chunk with count := n }
        = putBytes space source addr ram (List.range' chunk.offset n) from hpart _ (Nat.le_refl _)
  intro n
  induction n with
  | zero =>
    intro _
    funext x
    simp only [writeChunk, putBytes, range'_zero, foldl_nil]
    rw [if_neg (by omega)]
  | succ n ih =>
    intro hn
    have hbyte := physOf_eq (hallows n (by omega))
    rw [range'_concat, putBytes, foldl_append]
    have hbefore := ih (by omega)
    unfold putBytes at hbefore
    rw [← hbefore]
    funext x
    simp only [foldl_cons, foldl_nil, Function.update_apply, writeChunk, Nat.one_mul,
      ← Nat.add_assoc, hbyte]
    by_cases hlast : x = chunk.phys + n
    · rw [if_pos hlast, if_pos (by omega), hlast, Nat.add_sub_cancel_left]
    · rw [if_neg hlast]
      have hiff : chunk.phys ≤ x ∧ x < chunk.phys + n + 1 ↔
          chunk.phys ≤ x ∧ x < chunk.phys + n := by omega
      simp only [hiff]

theorem Covers.write (h : Covers space writable addr start stop moved) (source : List UInt8)
    (ram : Nat → UInt8) : moved.foldl (writeChunk source) ram
      = putBytes space source addr ram (List.range' start (stop - start)) := by
  induction h generalizing ram with
  | nil => simp [putBytes]
  | @cons stop chunk rest hpos hallows hrest ih =>
    have hle := hrest.le
    have hsplit : stop - chunk.offset = chunk.count + (stop - (chunk.offset + chunk.count)) := by
      omega
    rw [foldl_cons, ih, writeChunk_eq source ram hallows, hsplit, ← range'_append_1]
    unfold putBytes
    rw [foldl_append]

/-! ### How a walk ends -/

theorem Covers.eq_nil (h : Covers space writable addr start start moved) : moved = [] := by
  cases h with
  | nil => rfl
  | cons hpos _ hrest =>
    have hle := hrest.le
    omega

theorem Covers.ne_nil (h : Covers space writable addr start stop moved) (hne : start ≠ stop) :
    moved ≠ [] := by
  cases h with
  | nil => exact absurd rfl hne
  | cons => simp

/-- Every byte that is moved is a byte of the range, moved through a mapping that allows it. -/
def Confined (space : UserSpace) (writable : Bool) (addr len : Nat) (moved : List Chunk) : Prop :=
  ∀ chunk ∈ moved, ∀ i < chunk.count, chunk.offset + i < len
    ∧ userMinAddr ≤ addr + chunk.offset + i ∧ addr + chunk.offset + i < userMaxAddr
    ∧ Allows space writable (addr + chunk.offset + i) (chunk.phys + i)

theorem Covers.confined (h : Covers space writable addr start stop moved)
    (hrange : InRange addr len) (hstop : stop ≤ len) : Confined space writable addr len moved := by
  induction h with
  | nil => intro chunk hmem; simp at hmem
  | @cons stop chunk rest hpos hallows hrest ih =>
    intro other hmem i hi
    rcases List.mem_cons.mp hmem with rfl | hmem
    · have hle := hrest.le
      obtain ⟨-, hlow, hhigh⟩ := hrange
      exact ⟨by omega, by omega, by omega, hallows i hi⟩
    · exact ih hstop other hmem i hi

theorem not_allows_of_error {fault : Fault} (h : resolve space virt writable = .error fault) :
    ¬ ∃ phys, Allows space writable virt phys := by
  rintro ⟨phys, hallows⟩
  rw [Allows, h] at hallows
  simp at hallows

/-- A walk that was refused moved nothing; another covers its range up to its end, or to the
first byte that may not be accessed. -/
inductive Ended (space : UserSpace) (writable : Bool) (addr len : Nat) : Walked → Prop
  | refused {fault : Fault} (hrange : ¬ InRange addr len) :
      Ended space writable addr len ⟨.error fault, []⟩
  | whole {moved : List Chunk} (hrange : InRange addr len)
      (hcovers : Covers space writable addr 0 len moved) :
      Ended space writable addr len ⟨.ok (), moved⟩
  | faulted {fault : Fault} {stop : Nat} {moved : List Chunk} (hrange : InRange addr len)
      (hcovers : Covers space writable addr 0 stop moved) (hstop : stop < len)
      (hfault : ¬ ∃ phys, Allows space writable (addr + stop) phys) :
      Ended space writable addr len ⟨.error fault, moved⟩

theorem walk_ended (space : UserSpace) (addr len : Nat) (writable : Bool) :
    ∃ walked, walk space addr len writable = some walked
      ∧ Ended space writable addr len walked := by
  unfold walk
  cases hbounded : bounded addr len with
  | error fault =>
    refine ⟨_, rfl, .refused fun hrange => ?_⟩
    rw [bounded_ok_iff.mpr hrange] at hbounded
    simp at hbounded
  | ok =>
    have hrange := bounded_ok_iff.mp hbounded
    obtain ⟨⟨status, all⟩, hwalked, stop, new, hmoved, hcovers, hend⟩ :=
      @walkLoop_reaches space writable addr len hrange (len + 1) 0 [] (Nat.zero_le _)
        (Nat.lt_succ_self _)
    refine ⟨_, hwalked, ?_⟩
    rw [nil_append] at hmoved
    subst hmoved
    rcases hend with ⟨hstatus, rfl⟩ | ⟨fault, hstatus, hstop, hresolve⟩
    · obtain rfl : status = .ok () := hstatus
      exact .whole hrange hcovers
    · obtain rfl : status = .error fault := hstatus
      exact .faulted hrange hcovers hstop (not_allows_of_error hresolve)

variable {walked : Walked}

theorem Ended.confined (h : Ended space writable addr len walked) :
    Confined space writable addr len walked.moved := by
  cases h with
  | refused => intro chunk hmem; simp at hmem
  | whole hrange hcovers => exact hcovers.confined hrange (Nat.le_refl _)
  | faulted hrange hcovers hstop => exact hcovers.confined hrange hstop.le

/-! ### All or nothing -/

/-- The first page of the range may be accessed, and a later one may not. -/
def Torn (space : UserSpace) (writable : Bool) (addr len : Nat) : Prop :=
  InRange addr len ∧ (∃ phys, Allows space writable addr phys)
    ∧ ∃ i < len, ¬ ∃ phys, Allows space writable (addr + i) phys

/-- A copy failed and moved nothing, or succeeded with this result. -/
def Atomic {α : Type} (walked : Walked) (before after result : α) : Prop :=
  (∃ fault, walked.status = .error fault) ∧ walked.moved = [] ∧ after = before
    ∨ walked.status = .ok () ∧ after = result

theorem Ended.atomic_iff {α : Type} {copy : α → Chunk → α} {before result : α}
    (h : Ended space writable addr len walked)
    (hresult : Covers space writable addr 0 len walked.moved →
      walked.moved.foldl copy before = result) :
    Atomic walked before (walked.moved.foldl copy before) result
      ↔ ¬ Torn space writable addr len := by
  cases h with
  | @refused fault hrange =>
    exact ⟨fun _ htorn => hrange htorn.1, fun _ => .inl ⟨⟨fault, rfl⟩, rfl, rfl⟩⟩
  | @whole moved hrange hcovers =>
    refine ⟨fun _ htorn => ?_, fun _ => .inr ⟨rfl, hresult hcovers⟩⟩
    obtain ⟨-, -, i, hi, hbad⟩ := htorn
    exact hbad (hcovers.allows (Nat.zero_le i) hi)
  | @faulted fault stop moved hrange hcovers hstop hfault =>
    by_cases hzero : stop = 0
    · subst hzero
      refine ⟨fun _ htorn => hfault htorn.2.1, fun _ => .inl ⟨⟨fault, rfl⟩, ?_⟩⟩
      obtain rfl := hcovers.eq_nil
      exact ⟨rfl, rfl⟩
    · have hfirst := hcovers.allows (Nat.le_refl 0) (Nat.pos_of_ne_zero hzero)
      refine ⟨?_, fun hwhole => absurd ⟨hrange, hfirst, stop, hstop, hfault⟩ hwhole⟩
      rintro (⟨-, hnone, -⟩ | ⟨hstatus, -⟩)
      · exact absurd hnone (hcovers.ne_nil (Ne.symm hzero))
      · exact absurd hstatus (by simp)

/-- **A copy is all or nothing exactly when its range is not torn**: it fails and moves no byte,
or moves the bytes of the range.  In either case it reads and writes the range alone, through
mappings that allow it. -/
theorem copies_atomic_iff (space : UserSpace) (ram : Nat → UInt8) (addr len : Nat)
    (destination source : List UInt8) :
    (∃ walked after, copyIn space ram addr len destination = some (walked, after)
      ∧ Confined space false addr len walked.moved
      ∧ (Atomic walked destination after (userBytes space ram addr 0 len ++ destination.drop len)
        ↔ ¬ (len ≤ destination.length ∧ Torn space false addr len)))
    ∧ ∃ walked after, copyOut space ram addr source = some (walked, after)
      ∧ Confined space true addr source.length walked.moved
      ∧ (Atomic walked ram after
          (putBytes space source addr ram (List.range' 0 source.length))
        ↔ ¬ Torn space true addr source.length) := by
  constructor
  · unfold copyIn
    by_cases hshort : destination.length < len
    · rw [if_pos hshort]
      refine ⟨_, _, rfl, fun chunk hmem => by simp at hmem, ?_⟩
      exact ⟨fun _ htorn => Nat.not_lt.mpr htorn.1 hshort, fun _ => .inl ⟨⟨.range, rfl⟩, rfl, rfl⟩⟩
    · rw [if_neg hshort]
      obtain ⟨walked, hwalk, hended⟩ := walk_ended space addr len false
      rw [hwalk]
      refine ⟨walked, _, rfl, hended.confined, ?_⟩
      rw [hended.atomic_iff fun hcovers => ?_]
      · simp [Nat.not_lt.mp hshort]
      · rw [hcovers.read ram destination (Nat.not_lt.mp hshort), take_zero, nil_append,
          Nat.sub_zero]
  · obtain ⟨walked, hwalk, hended⟩ := walk_ended space addr source.length true
    unfold copyOut
    rw [hwalk]
    refine ⟨walked, _, rfl, hended.confined, hended.atomic_iff fun hcovers => ?_⟩
    rw [hcovers.write source ram, Nat.sub_zero]

/-- A space in which one page is mapped, at `0x1000`. -/
def onePage : UserSpace where
  root := 0x1000
  word := fun table slot =>
    if table = 0x1000 ∧ slot = 0 then 0x2007
    else if table = 0x2000 ∧ slot = 0 then 0x3007
    else if table = 0x3000 ∧ slot = 0 then 0x4007
    else if table = 0x4000 ∧ slot = 1 then 0x5007
    else 0

/-- Of two bytes, one in the page and one behind it, the first is copied before the second is
refused. -/
theorem torn_copy_moves_a_byte :
    ∃ walked after, copyIn onePage (fun _ => 1) 0x1FFF 2 [0, 0] = some (walked, after)
      ∧ after = [1, 0] ∧ ¬ Atomic walked [0, 0] after
        (userBytes onePage (fun _ => 1) 0x1FFF 0 2 ++ [0, 0].drop 2) := by
  refine ⟨⟨.error .unmapped, [⟨0x5FFF, 0, 1⟩]⟩, _, rfl, rfl, ?_⟩
  rintro (⟨-, hnone, -⟩ | ⟨hstatus, -⟩)
  · exact absurd hnone (by simp)
  · exact absurd hstatus (by simp)

end Thalyx.Kernel.Ucopy
