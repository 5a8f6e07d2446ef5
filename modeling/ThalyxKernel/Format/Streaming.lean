/-
The digest of a byte string, whichever way it is cut into updates, is the standard's.

The program's words, its schedule and its rounds are the standard's one by one.  What a
computation in progress stands for is an absorber: the standard's hash value after the whole
blocks, and the bytes pending in the buffer.  Every entry of the program then does what the
absorber does with the same bytes, and never stops.
-/
import ThalyxKernel.Format.Sha256
import Mathlib.Tactic.IntervalCases

namespace Thalyx.Wire

open Checked Absorber Option

/-! ### Constants -/

theorem firstPrimes_eq : Fips.firstPrimes =
    [2, 3, 5, 7, 11, 13, 17, 19, 23, 29, 31, 37, 41, 43, 47, 53, 59, 61, 67, 71, 73, 79, 83, 89,
      97, 101, 103, 107, 109, 113, 127, 131, 137, 139, 149, 151, 157, 163, 167, 173, 179, 181,
      191, 193, 197, 199, 211, 223, 227, 229, 233, 239, 241, 251, 257, 263, 269, 271, 277, 281,
      283, 293, 307, 311] := by decide +kernel

/-- The word is the fraction of the `k`-th root of `p`, with the integer part found by search. -/
def isRootFraction (k p : Nat) (word : U32) : Prop :=
  ∃ whole ∈ List.range 32, whole * 2 ^ 32 + word.toNat ≤ p * 2 ^ 32
    ∧ (whole * 2 ^ 32 + word.toNat) ^ k ≤ p * (2 ^ 32) ^ k
    ∧ p * (2 ^ 32) ^ k < (whole * 2 ^ 32 + word.toNat + 1) ^ k

instance (k p : Nat) (word : U32) : Decidable (isRootFraction k p word) :=
  inferInstanceAs (Decidable (∃ whole ∈ List.range 32, _))

theorem eq_of_isRootFraction {k p : Nat} {word : U32} (h : isRootFraction k p word) :
    word = BitVec.ofNat 32 (Fips.rootFraction k p) := by
  obtain ⟨whole, -, hbound, hlow, hhigh⟩ := h
  rw [Fips.rootFraction_eq word.isLt hbound hlow hhigh, BitVec.ofNat_toNat, BitVec.setWidth_eq]

theorem K_eq {t : Nat} (h : t < 64) : K[t]? = some (Fips.roundConstant t) := by
  have htable : ∀ t (h : t < 64), isRootFraction 3 (Fips.firstPrimes.getD t 0) K[t] := by
    rw [firstPrimes_eq]
    decide +kernel
  rw [Vector.getElem?_eq_getElem h, eq_of_isRootFraction (htable t h), Fips.roundConstant]

theorem H0_eq {i : Nat} (h : i < 8) : H0[i] = Fips.initialWord i := by
  have htable : ∀ i (h : i < 8), isRootFraction 2 (Fips.firstPrimes.getD i 0) H0[i] := by
    rw [firstPrimes_eq]
    decide +kernel
  rw [eq_of_isRootFraction (htable i h), Fips.initialWord]

/-! ### One compression -/

namespace Sha256

theorem rotateRight_eq {n : Nat} (x : U32) (h : n < 32) : x.rotateRight n = Fips.rotr n x := by
  rw [BitVec.rotateRight_def, Nat.mod_eq_of_lt h, Fips.rotr]

variable {index : Nat}

theorem wordAt_eq (block : Vector UInt8 64) (h : index < 16) :
    wordAt block index = some (Fips.blockWord (bitString block.toList) index) := by
  have hadd : ∀ k < 4, add (index * 4) k = some (index * 4 + k) := fun k hk =>
    add_eq (Nat.lt_trans (m := 100) (by omega) (by decide))
  have hbytes : (block.toList.drop (4 * index)).take 4
      = [block[index * 4], block[index * 4 + 1], block[index * 4 + 2], block[index * 4 + 3]] := by
    have hlen : block.toList.length = 64 := block.length_toList
    rw [Nat.mul_comm 4, List.drop_eq_getElem_cons (by omega),
      List.drop_eq_getElem_cons (by omega), List.drop_eq_getElem_cons (by omega),
      List.drop_eq_getElem_cons (by omega)]
    simp
  have hbits : ((bitString block.toList).drop (32 * index)).take 32
      = bitString ((block.toList.drop (4 * index)).take 4) := by
    rw [show 32 * index = 8 * (4 * index) by omega, drop_bitString, ← take_bitString]
  rw [Fips.blockWord, hbits, ofBits_bitString, hbytes, wordAt,
    mul_eq (Nat.lt_trans (m := 100) (by omega) (by decide))]
  simp [hadd, show index * 4 + 3 < 64 by omega,
    show index * 4 + 2 < 64 by omega, show index * 4 + 1 < 64 by omega,
    show index * 4 < 64 by omega]

/-- The first `upTo` words of the schedule are in place. -/
def Scheduled (m : Nat → Fips.Word) (upTo : Nat) (w : Vector U32 64) : Prop :=
  ∀ t, t < upTo → w[t]? = some (Fips.schedule m t)

variable {m : Nat → Fips.Word} {w : Vector U32 64}

theorem Scheduled.store (h : Scheduled m index w) (hindex : index < 64) {word : U32}
    (hword : word = Fips.schedule m index) :
    ∃ w', Checked.store w index word = some w' ∧ Scheduled m (index + 1) w' := by
  refine ⟨_, store_eq hindex, ?_⟩
  intro t ht
  rw [Vector.getElem?_set]
  by_cases hat : index = t
  · subst hat
    rw [if_pos rfl, hword]
  · rw [if_neg hat, h t (by omega)]

theorem Scheduled.earlier
    (h : Scheduled m index w) {back : Nat} (hpos : 0 < back) (hback : back ≤ index) :
    earlier w index back = some (Fips.schedule m (index - back)) := by
  rw [Sha256.earlier, sub_eq hback]
  exact h _ (by omega)

theorem expandWord_eq (h : Scheduled m index w) (hlow : 16 ≤ index) (hhigh : index < 64) :
    ∃ w', expandWord w index = some w' ∧ Scheduled m (index + 1) w' := by
  rw [expandWord, h.earlier (by omega) (by omega), h.earlier (by omega) (by omega),
    h.earlier (by omega) hlow, h.earlier (by omega) (by omega)]
  refine h.store hhigh ?_
  -- the standard adds the same four terms in another order
  rw [Fips.schedule_recurrence hlow]
  simp only [rotateRight_eq _ (by decide : 7 < 32), rotateRight_eq _ (by decide : 18 < 32),
    rotateRight_eq _ (by decide : 17 < 32), rotateRight_eq _ (by decide : 19 < 32),
    Fips.smallSigma0, Fips.smallSigma1, Fips.shr]
  ac_rfl

theorem messageSchedule_eq (block : Vector UInt8 64) :
    ∃ w, messageSchedule block = some w
      ∧ Scheduled (Fips.blockWord (bitString block.toList)) 64 w := by
  have hload : ∃ w, (List.range' 0 16).foldlM (loadWord block) (Vector.replicate 64 0) = some w
      ∧ Scheduled (Fips.blockWord (bitString block.toList)) (0 + 16) w := by
    apply Checked.loop (Scheduled (Fips.blockWord (bitString block.toList)))
    · intro t ht
      exact absurd ht (Nat.not_lt_zero t)
    · intro i _ hi w hw
      rw [loadWord, wordAt_eq block (by omega)]
      refine hw.store (by omega) ?_
      rw [Fips.schedule_word (by omega)]
  obtain ⟨loaded, hload, hw⟩ := hload
  have hexpand : ∃ w, (List.range' 16 48).foldlM expandWord loaded = some w
      ∧ Scheduled (Fips.blockWord (bitString block.toList)) (16 + 48) w := by
    apply Checked.loop (Scheduled (Fips.blockWord (bitString block.toList))) hw
    intro i hlow hi w hw
    exact expandWord_eq hw hlow (by omega)
  obtain ⟨w, hexpand, hw⟩ := hexpand
  refine ⟨w, ?_, hw⟩
  rw [messageSchedule, hload, bind_eq_bind, bind_some, hexpand]

def Variables.words (v : Variables) : Fips.Words := ⟨v.a, v.b, v.c, v.d, v.e, v.f, v.g, v.h⟩

theorem turn_eq (hw : Scheduled m 64 w) (h : index < 64) (v : Variables) :
    ∃ v', turn w v index = some v' ∧ v'.words = Fips.round (Fips.schedule m) v.words index := by
  rw [turn, K_eq h, hw index h]
  refine ⟨_, rfl, ?_⟩
  simp only [Variables.words, Fips.round, Fips.bigSigma0, Fips.bigSigma1, Fips.ch, Fips.maj,
    rotateRight_eq _ (by decide : 6 < 32), rotateRight_eq _ (by decide : 11 < 32),
    rotateRight_eq _ (by decide : 25 < 32), rotateRight_eq _ (by decide : 2 < 32),
    rotateRight_eq _ (by decide : 13 < 32), rotateRight_eq _ (by decide : 22 < 32)]

theorem compress_eq (hasher : Sha256) (block : Vector UInt8 64) :
    ∃ state, hasher.compress block = some { hasher with state := state }
      ∧ wordsOf state = Fips.compress (wordsOf hasher.state) (bitString block.toList) := by
  obtain ⟨w, hschedule, hw⟩ := messageSchedule_eq block
  obtain ⟨start, hstart⟩ : ∃ start : Variables, start = ⟨hasher.state[0], hasher.state[1],
      hasher.state[2], hasher.state[3], hasher.state[4], hasher.state[5], hasher.state[6],
      hasher.state[7]⟩ := ⟨_, rfl⟩
  have hrounds : ∃ v, (List.range' 0 64).foldlM (turn w) start = some v
      ∧ v.words = (List.range (0 + 64)).foldl
        (Fips.round (Fips.schedule (Fips.blockWord (bitString block.toList))))
        (wordsOf hasher.state) := by
    apply Checked.loop (σ := Variables) fun i v => v.words = (List.range i).foldl
      (Fips.round (Fips.schedule (Fips.blockWord (bitString block.toList))))
      (wordsOf hasher.state)
    · rw [hstart]
      rfl
    · intro i _ hi v hv
      obtain ⟨v', hturn, hv'⟩ := turn_eq hw (by omega) v
      refine ⟨v', hturn, ?_⟩
      rw [hv', hv, List.range_succ, List.foldl_append, List.foldl_cons, List.foldl_nil]
  obtain ⟨v, hloop, hv⟩ := hrounds
  subst hstart
  rw [compress, hschedule]
  dsimp only [bind_eq_bind, bind_some]
  rw [hloop]
  refine ⟨_, rfl, ?_⟩
  have hsum : wordsOf (hasher.state.zipWith (· + ·) #v[v.a, v.b, v.c, v.d, v.e, v.f, v.g, v.h])
      = v.words.add (wordsOf hasher.state) := by
    simp [wordsOf, Variables.words, Fips.Words.add, BitVec.add_comm]
  rw [hsum, hv]
  rfl

/-! ### A computation in progress -/

/-- One block of bytes into the hash value. -/
def absorbBlock (hash : Fips.Words) (block : List UInt8) : Fips.Words :=
  Fips.compress hash (bitString block)

abbrev absorbed (a : Absorber UInt8 Fips.Words) (data : List UInt8) :
    Absorber UInt8 Fips.Words := Absorber.absorb 64 absorbBlock a data

/-- What the computation has hashed, and what stands in its buffer. -/
structure Buffers (hasher : Sha256) (hash : Fips.Words) (pending : List UInt8) : Prop where
  state : wordsOf hasher.state = hash
  filled : hasher.filled = pending.length
  block : hasher.block.toList.take hasher.filled = pending

/-- The computation stands for the absorber. -/
structure Absorbs (hasher : Sha256) (a : Absorber UInt8 Fips.Words) : Prop where
  buffers : Buffers hasher a.state a.pending
  room : a.pending.length < 64

theorem absorbs_new : Absorbs new ⟨Fips.initialHash, []⟩ := by
  refine ⟨⟨?_, rfl, rfl⟩, by decide⟩
  simp only [new, wordsOf, Fips.initialHash, H0_eq]

variable {hasher : Sha256}

theorem compressFull_eq {hash : Fips.Words} {pending : List UInt8}
    (h : Buffers hasher hash pending) (hroom : pending.length ≤ 64) :
    ∃ hasher', hasher.compressFull = some hasher' ∧ hasher'.length = hasher.length
      ∧ Absorbs hasher' (if pending.length = 64 then ⟨absorbBlock hash pending, []⟩
          else ⟨hash, pending⟩) := by
  unfold compressFull
  rw [h.filled]
  by_cases hfull : pending.length = 64
  · have hblock : hasher.block.toList = pending := by
      have hlen : hasher.block.toList.length = 64 := hasher.block.length_toList
      rw [← h.block, List.take_of_length_le (by rw [h.filled]; omega)]
    obtain ⟨state, hcompress, hstate⟩ := hasher.compress_eq hasher.block
    rw [if_pos hfull, if_pos hfull, hcompress]
    refine ⟨_, rfl, rfl, ⟨?_, rfl, rfl⟩, Nat.zero_lt_succ 63⟩
    rw [hstate, h.state, hblock, absorbBlock]
  · rw [if_neg hfull, if_neg hfull]
    exact ⟨hasher, rfl, rfl, h, Nat.lt_of_le_of_ne hroom hfull⟩

variable {a : Absorber UInt8 Fips.Words}

theorem updateRaw_eq (h : Absorbs hasher a) (data : List UInt8) :
    ∃ hasher', hasher.updateRaw data = some hasher' ∧ hasher'.length = hasher.length
      ∧ Absorbs hasher' (absorbed a data) := by
  induction data generalizing hasher a with
  | nil => exact ⟨hasher, rfl, rfl, h⟩
  | cons byte data ih =>
    have hroom := h.room
    have hfilled := h.buffers.filled
    have hstore : store hasher.block hasher.filled byte = some _ := store_eq (by omega)
    have hnext := add_eq (a := hasher.filled) (b := 1)
      (Nat.lt_trans (m := 100) (by omega) (by decide))
    -- the buffer with one more byte in it
    have hmore : Buffers { hasher with
        block := hasher.block.set hasher.filled byte (by omega), filled := hasher.filled + 1 }
        a.state (a.pending ++ [byte]) := by
      refine ⟨h.buffers.state, by simp [hfilled], ?_⟩
      rw [take_set, h.buffers.block]
    obtain ⟨next, hfull, hlength, hnow⟩ := compressFull_eq hmore (by simp; omega)
    have hpush : Absorbs next (Absorber.push 64 absorbBlock a byte) := by
      simpa [Absorber.push] using hnow
    obtain ⟨hasher', hrest, hlength', hdone⟩ := ih hpush
    refine ⟨hasher', ?_, hlength'.trans hlength, hdone⟩
    rw [updateRaw] at hrest ⊢
    rw [List.foldlM_cons, hstore, hnext]
    dsimp only [bind_eq_bind, bind_some]
    rw [hfull]
    exact hrest

/-! ### An update -/

theorem topUp_eq (h : Absorbs hasher a) (data : List UInt8) :
    ∃ hasher' front rest, hasher.topUp data = some (hasher', rest) ∧ data = front ++ rest
      ∧ hasher'.length = hasher.length ∧ Absorbs hasher' (absorbed a front)
      ∧ (hasher'.filled = 0 ∨ rest = []) := by
  have hroom := h.room
  have hfilled := h.buffers.filled
  unfold topUp
  by_cases hempty : hasher.filled > 0
  · rw [if_pos hempty, sub_eq (by omega)]
    dsimp only [bind_eq_bind, bind_some]
    -- the bytes taken are as many as fit and as many as there are
    obtain ⟨take, htake⟩ : ∃ take, take
        = if data.length < 64 - hasher.filled then data.length else 64 - hasher.filled := ⟨_, rfl⟩
    have hbounds : take ≤ data.length ∧ hasher.filled + take ≤ 64
        ∧ (hasher.filled + take = 64 ∨ take = data.length) := by
      rw [htake]
      split <;> omega
    obtain ⟨hle, hfit, hcase⟩ := hbounds
    have hfront : (data.take take).length = take := by
      rw [List.length_take, Nat.min_eq_left hle]
    obtain ⟨block, hcopy, hblock⟩ := copyInto_eq hasher.block
      (show hasher.filled ≤ hasher.filled + take by omega) hfit
      (show (data.take take).length = hasher.filled + take - hasher.filled by omega)
    rw [← htake, add_eq (Nat.lt_trans (m := 100) (by omega) (by decide)),
      slice_eq (Nat.zero_le _) hle, slice_eq hle (Nat.le_refl _)]
    dsimp only [bind_some]
    rw [List.drop_zero, List.take_length, hcopy]
    have hmore : Buffers { hasher with block := block, filled := hasher.filled + take }
        a.state (a.pending ++ data.take take) := by
      refine ⟨h.buffers.state, by simp [hfilled, hfront], ?_⟩
      rw [hblock, h.buffers.block]
    obtain ⟨next, hfull, hlength, hnow⟩ := compressFull_eq hmore
      (by rw [List.length_append, hfront]; omega)
    dsimp only [bind_some]
    rw [hfull]
    refine ⟨next, data.take take, data.drop take, rfl, (List.take_append_drop _ _).symm, hlength,
      ?_, ?_⟩
    · have hwhole : (a.pending ++ data.take take).length = a.pending.length + take := by
        rw [List.length_append, hfront]
      rw [hwhole] at hnow
      by_cases hat : a.pending.length + take = 64
      · have hne : data.take take ≠ [] := by
          intro hnil
          rw [hnil, List.length_nil] at hfront
          omega
        rw [if_pos hat] at hnow
        rw [absorbed, absorb_fill (by rw [hfront]; exact hat) hne]
        exact hnow
      · rw [if_neg hat] at hnow
        rw [absorbed, absorb_short (by rw [hfront]; omega)]
        exact hnow
    · rcases hcase with hat | hall
      · left
        have hpending : hasher.filled + take = 64 := hat
        rw [if_pos (by rw [List.length_append, hfront]; omega)] at hnow
        exact hnow.buffers.filled
      · right
        rw [hall, List.drop_length]
  · rw [if_neg hempty]
    exact ⟨hasher, [], data, rfl, rfl, rfl, h, Or.inl (by omega)⟩

theorem wholeBlocks_eq {hash : Fips.Words} (h : Absorbs hasher ⟨hash, []⟩) (data : List UInt8) :
    ∃ hasher' hash' front rest, hasher.wholeBlocks data = some (hasher', rest)
      ∧ data = front ++ rest ∧ rest.length < 64 ∧ hasher'.length = hasher.length
      ∧ absorbed ⟨hash, []⟩ front = ⟨hash', []⟩ ∧ Absorbs hasher' ⟨hash', []⟩ := by
  induction hlen : data.length using Nat.strong_induction_on generalizing data hasher hash with
  | _ length ih =>
    subst hlen
    unfold wholeBlocks
    by_cases hmore : data.length ≥ 64
    · rw [dif_pos hmore]
      have htake : (data.take 64).length = 64 := by
        rw [List.length_take]
        omega
      have hne : data.take 64 ≠ [] := by
        intro hnil
        rw [hnil, List.length_nil] at htake
        omega
      obtain ⟨block, hcopy, hblock⟩ := copyInto_eq (Vector.replicate 64 (0 : UInt8))
        (Nat.zero_le 64) (Nat.le_refl _) (show (data.take 64).length = 64 - 0 from htake)
      have hbytes : block.toList = data.take 64 := by
        rw [List.take_zero, List.nil_append] at hblock
        rw [← hblock, List.take_of_length_le (by rw [Vector.length_toList])]
      obtain ⟨state, hcompress, hstate⟩ := hasher.compress_eq block
      have hnext : Absorbs { hasher with state := state } ⟨absorbBlock hash (data.take 64), []⟩ := by
        refine ⟨⟨?_, h.buffers.filled, h.buffers.block⟩, h.room⟩
        rw [hstate, h.buffers.state, hbytes, absorbBlock]
      obtain ⟨hasher', hash', front, rest, hloop, hsplit, hshort, hlength, hfront, hdone⟩ :=
        ih (data.drop 64).length (by rw [List.length_drop]; omega) hnext (data.drop 64) rfl
      refine ⟨hasher', hash', data.take 64 ++ front, rest, ?_, ?_, hshort, hlength, ?_, hdone⟩
      · rw [hcopy]
        dsimp only [bind_eq_bind, bind_some]
        rw [hcompress]
        exact hloop
      · rw [List.append_assoc, ← hsplit, List.take_append_drop]
      · rw [absorbed, absorb_append, absorb_fill (by simpa using htake) hne]
        exact hfront
    · rw [dif_neg hmore]
      exact ⟨hasher, hash, [], data, rfl, rfl, by omega, rfl, rfl, h⟩

theorem keepRest_eq {hash : Fips.Words} (h : Absorbs hasher ⟨hash, []⟩)
    {rest : List UInt8} (hshort : rest.length < 64) :
    ∃ hasher', hasher.keepRest rest = some hasher' ∧ hasher'.length = hasher.length
      ∧ Absorbs hasher' ⟨hash, rest⟩ := by
  unfold keepRest
  by_cases hempty : rest = []
  · subst hempty
    exact ⟨hasher, rfl, rfl, h⟩
  · rw [if_pos hempty]
    obtain ⟨block, hcopy, hblock⟩ := copyInto_eq hasher.block (Nat.zero_le rest.length)
      (Nat.le_of_lt hshort) rfl
    rw [hcopy]
    refine ⟨_, rfl, rfl, ⟨h.buffers.state, rfl, ?_⟩, hshort⟩
    simpa using hblock

theorem update_eq (h : Absorbs hasher a) (data : List UInt8) :
    ∃ hasher', hasher.update data = some hasher'
      ∧ hasher'.length = hasher.length + BitVec.ofNat 64 data.length
      ∧ Absorbs hasher' (absorbed a data) := by
  have hcounted : Absorbs
      { hasher with length := hasher.length + BitVec.ofNat 64 data.length } a :=
    ⟨⟨h.buffers.state, h.buffers.filled, h.buffers.block⟩, h.room⟩
  obtain ⟨topped, front, rest, htop, hsplit, hlength, hfront, hcase⟩ := topUp_eq hcounted data
  unfold update
  dsimp only
  rw [htop]
  dsimp only [bind_eq_bind, bind_some]
  by_cases hpending : topped.filled = 0
  · -- the buffer is empty, so what remains is blocks and a short rest
    have hnil : (absorbed a front).pending = [] := by
      rw [← List.length_eq_zero_iff, ← hfront.buffers.filled, hpending]
    have hstart : Absorbs topped ⟨(absorbed a front).state, []⟩ := by
      rw [← hnil]
      exact hfront
    obtain ⟨blocked, hash', middle, last, hblocks, hsplit', hshort, hlength', hmiddle, hnow⟩ :=
      wholeBlocks_eq hstart rest
    rw [hblocks]
    dsimp only [bind_some]
    obtain ⟨hasher', hkeep, hlength'', hdone⟩ := keepRest_eq hnow hshort
    refine ⟨hasher', hkeep, by rw [hlength'', hlength', hlength], ?_⟩
    have hall : absorbed a data = ⟨hash', last⟩ := by
      have hstate : absorbed a front = ⟨(absorbed a front).state, []⟩ := by
        rw [← hnil]
      rw [hsplit, hsplit', absorbed, absorb_append, absorb_append]
      rw [absorbed] at hstate hmiddle
      rw [hstate, hmiddle, absorb_short (by simpa using hshort), List.nil_append]
    rw [hall]
    exact hdone
  · -- the bytes did not fill the buffer, and none remain
    have hnone : rest = [] := hcase.resolve_left hpending
    subst hnone
    refine ⟨topped, ?_, hlength, ?_⟩
    · unfold wholeBlocks keepRest
      rfl
    · rw [hsplit, List.append_nil]
      exact hfront

theorem updates_eq (h : Absorbs hasher a) (pieces : List (List UInt8)) :
    ∃ hasher', pieces.foldlM update hasher = some hasher'
      ∧ hasher'.length = hasher.length + BitVec.ofNat 64 pieces.flatten.length
      ∧ Absorbs hasher' (absorbed a pieces.flatten) := by
  induction pieces generalizing hasher a with
  | nil => exact ⟨hasher, rfl, by simp, h⟩
  | cons data pieces ih =>
    obtain ⟨next, hupdate, hlength, hnext⟩ := update_eq h data
    obtain ⟨hasher', hrest, hlength', hdone⟩ := ih hnext
    refine ⟨hasher', ?_, ?_, ?_⟩
    · rw [List.foldlM_cons, hupdate]
      exact hrest
    · rw [hlength', hlength, List.flatten_cons, List.length_append, BitVec.ofNat_add,
        BitVec.add_assoc]
    · rw [List.flatten_cons, absorbed, absorb_append]
      exact hdone

/-! ### The end -/

/-- How many zeros `finish` adds behind `pending` bytes. -/
def zerosAfter (pending : Nat) : Nat := (120 - pending) % 64

theorem zeroFill_eq (turns : Nat)
    (h : Absorbs hasher a) (hturns : zerosAfter a.pending.length < turns) :
    ∃ hasher', zeroFill turns hasher = some hasher'
      ∧ Absorbs hasher' (absorbed a (List.replicate (zerosAfter a.pending.length) 0)) := by
  induction turns generalizing hasher a with
  | zero => omega
  | succ turns ih =>
    have hroom := h.room
    have hfilled := h.buffers.filled
    unfold zeroFill
    by_cases hdone : hasher.filled = 56
    · have hnone : zerosAfter a.pending.length = 0 := by
        rw [← hfilled, hdone]
        rfl
      rw [if_neg (by simpa using hdone), hnone]
      exact ⟨hasher, rfl, h⟩
    · obtain ⟨next, hraw, -, hnext⟩ := updateRaw_eq h [0x00]
      have hpending : (absorbed a [0x00]).pending.length = (a.pending.length + 1) % 64 :=
        pending_absorb hroom _
      have hfewer : zerosAfter a.pending.length
          = zerosAfter (absorbed a [0x00]).pending.length + 1 := by
        unfold zerosAfter
        rw [hpending]
        omega
      obtain ⟨hasher', hrest, hnow⟩ := ih hnext (by omega)
      refine ⟨hasher', ?_, ?_⟩
      · rw [if_pos hdone, hraw]
        exact hrest
      · rw [hfewer, List.replicate_succ, ← List.singleton_append, absorbed,
          absorb_append]
        exact hnow

theorem writeState_eq (s : Vector U32 8) :
    ∃ out, writeState s = some out ∧ bitString out.toList = (wordsOf s).bits := by
  have hloop : ∃ out, writeState s = some out ∧ bitString (out.toList.take (4 * (0 + 8)))
      = (s.toList.take (0 + 8)).flatMap fun word => bitsOf 32 word.toNat := by
    apply Checked.loop (σ := Vector UInt8 32) fun i out => bitString (out.toList.take (4 * i))
      = (s.toList.take i).flatMap fun word => bitsOf 32 word.toNat
    · rfl
    · intro i _ hi out hout
      have hlen : s.toList.length = 8 := s.length_toList
      obtain ⟨copied, hcopy, htake⟩ := copyInto_eq out (show i * 4 ≤ i * 4 + 4 by omega)
        (by omega) (show (bigEndian 4 s[i].toNat).length = _ by simp)
      rw [Vector.getElem?_eq_getElem (by omega),
        mul_eq (Nat.lt_trans (m := 100) (by omega) (by decide))]
      dsimp only [bind_eq_bind, bind_some]
      rw [add_eq (Nat.lt_trans (m := 100) (by omega) (by decide))]
      refine ⟨copied, hcopy, ?_⟩
      rw [show 4 * (i + 1) = i * 4 + 4 by omega, htake, bitString_append, Nat.mul_comm i 4, hout,
        bitString_bigEndian, List.take_add_one, List.getElem?_eq_getElem (by omega),
        List.flatMap_append, Vector.getElem_toList]
      simp
  obtain ⟨out, hwrite, hout⟩ := hloop
  refine ⟨out, hwrite, ?_⟩
  have hwords : s.toList = [s[0], s[1], s[2], s[3], s[4], s[5], s[6], s[7]] := by
    apply List.ext_getElem (by simp)
    intro i hi hi'
    rw [Vector.getElem_toList]
    simp only [List.length_cons, List.length_nil] at hi'
    interval_cases i <;> rfl
  rw [List.take_of_length_le (by simp), List.take_of_length_le (by simp), hwords] at hout
  exact hout

theorem padding_eq (message : List UInt8) :
    bitString (message ++ ([0x80] ++ (List.replicate (zerosAfter ((message.length + 1) % 64)) 0
        ++ bigEndian 8 (8 * message.length))))
      = Fips.padded (bitString message) := by
  have hzeros : Fips.paddingZeros (8 * message.length)
      = 7 + 8 * zerosAfter ((message.length + 1) % 64) := by
    unfold Fips.paddingZeros zerosAfter
    omega
  have hone : bitString [0x80] = true :: List.replicate 7 false := rfl
  rw [bitString_append, bitString_append, bitString_append, bitString_replicate_zero,
    bitString_bigEndian, hone, Fips.padded, length_bitString, hzeros, List.replicate_add]
  simp

theorem blocks_bitString (count : Nat) (data : List UInt8) :
    blocks 512 count (bitString data) = (blocks 64 count data).map bitString := by
  induction count generalizing data with
  | zero => rfl
  | succ count ih =>
    rw [blocks, blocks, List.map_cons, show 512 = 8 * 64 by rfl, take_bitString, drop_bitString,
      ← ih]

theorem finish_steps (hasher : Sha256) : hasher.finish
    = (hasher.updateRaw [0x80]).bind fun marked => (zeroFill 64 marked).bind fun filled =>
        (filled.updateRaw (bigEndian 8 (hasher.length * 8).toNat)).bind fun ended =>
          writeState ended.state := rfl

theorem finish_eq {message : List UInt8} (hsize : message.length < 2 ^ 61)
    (h : Absorbs hasher (absorbed ⟨Fips.initialHash, []⟩ message))
    (hlength : hasher.length = BitVec.ofNat 64 message.length) :
    ∃ digest, hasher.finish = some digest
      ∧ bitString digest.toList = Fips.sha256 (bitString message) := by
  have hbits : (hasher.length * 8).toNat = 8 * message.length := by
    rw [hlength, BitVec.toNat_mul, BitVec.toNat_ofNat]
    have height : (8 : BitVec 64).toNat = 8 := rfl
    rw [height]
    omega
  obtain ⟨marked, hmark, -, hmarked⟩ := updateRaw_eq h [0x80]
  have hpending : (absorbed (absorbed ⟨Fips.initialHash, []⟩ message) [0x80]).pending.length
      = (message.length + 1) % 64 := by
    rw [absorbed, absorbed, ← absorb_append, pending_absorb (by simp)]
    simp
  obtain ⟨filled, hfill, hfilled⟩ := zeroFill_eq 64 hmarked
    (Nat.mod_lt _ (by decide))
  obtain ⟨ended, hend, -, hended⟩ := updateRaw_eq hfilled (bigEndian 8 (8 * message.length))
  obtain ⟨digest, hwrite, hdigest⟩ := writeState_eq ended.state
  refine ⟨digest, ?_, ?_⟩
  · rw [finish_steps, hmark, bind_some, hfill, bind_some, hbits, hend,
      bind_some, hwrite]
  · -- the absorber has taken the padded message, which is whole blocks
    obtain ⟨whole, hwhole⟩ : ∃ whole, whole = message ++ ([0x80] ++ (List.replicate
        (zerosAfter ((message.length + 1) % 64)) 0 ++ bigEndian 8 (8 * message.length))) :=
      ⟨_, rfl⟩
    have hpadded : bitString whole = Fips.padded (bitString message) := by
      rw [hwhole, padding_eq]
    have hcount : whole.length = 64 * ((Fips.padded (bitString message)).length / 512) := by
      have hlen := Fips.length_padded (bitString message)
      have hbytes : (Fips.padded (bitString message)).length = 8 * whole.length := by
        rw [← hpadded, length_bitString]
      omega
    rw [hpending, absorbed, absorbed, absorbed, absorbed, ← absorb_append,
      ← absorb_append, ← absorb_append, ← hwhole, absorb_blocks (by decide) hcount] at hended
    rw [hdigest, hended.buffers.state, Fips.sha256, Fips.messageBlocks, ← hpadded,
      blocks_bitString, List.foldl_map, hpadded]
    have hstep : absorbBlock = fun hash block => Fips.compress hash (bitString block) := rfl
    rw [hstep]

variable {pieces : List (List UInt8)}

theorem digestOf_eq (h : pieces.flatten.length < 2 ^ 61) :
    ∃ digest, digestOf pieces = some digest
      ∧ bitString digest.toList = Fips.sha256 (bitString pieces.flatten) := by
  obtain ⟨hasher, hupdates, hlength, habsorbs⟩ := updates_eq absorbs_new pieces
  obtain ⟨digest, hfinish, hdigest⟩ := finish_eq h habsorbs (by
    rw [hlength]
    exact BitVec.zero_add _)
  refine ⟨digest, ?_, hdigest⟩
  rw [digestOf, hupdates]
  exact hfinish

/-- The digest of a byte string. -/
def hash (bytes : List UInt8) : Vector UInt8 32 :=
  (digestOf [bytes]).getD (Vector.replicate 32 0)

theorem digestOf_hash (h : pieces.flatten.length < 2 ^ 61) :
    digestOf pieces = some (hash pieces.flatten) := by
  obtain ⟨digest, hdigest, hbits⟩ := digestOf_eq h
  obtain ⟨whole, hwhole, hbits'⟩ := digestOf_eq (show [pieces.flatten].flatten.length < 2 ^ 61 by
    simpa using h)
  rw [hdigest, hash, hwhole, getD_some]
  congr 1
  apply Vector.toList_inj.mp
  apply bitString_injective
  rw [hbits, hbits']
  simp

end Sha256

/-- However a byte string is cut into updates, the computation does not stop, and its digest
is the standard's of the whole string. -/
theorem sha256_streaming (pieces : List (List UInt8)) (h : pieces.flatten.length < 2 ^ 61) :
    ∃ digest, Sha256.digestOf pieces = some digest
      ∧ bitString digest.toList = Fips.sha256 (bitString pieces.flatten) :=
  Sha256.digestOf_eq h

/-- The bytes `abc`, cut behind the first. -/
theorem sha256_streaming_abc : ∃ digest, Sha256.digestOf [[97], [98, 99]] = some digest
    ∧ bitString digest.toList = Fips.sha256 (bitString [97, 98, 99]) :=
  sha256_streaming [[97], [98, 99]] (by decide)

end Thalyx.Wire
