/-
Four-level address translation.

A table is a page of 512 words, and a word is the address of a frame with flags around it.
The processor finds the word of an address by nine bits of it at each level, from the fourth
down, and ends at a word of the lowest level or at one that names a large page.

The words are read from wherever the tables lie: `walk` is given the word of a table at a
slot, and says nothing else about memory.
-/
import Mathlib.Data.Nat.Bitwise
import Mathlib.Tactic.Common

namespace Thalyx.FourLevel

/-! ### Words -/

/-- The bits of a word that are the address of a frame. -/
def addressMask : Nat := 0x000FFFFFFFFFF000

/-- The bit of a word that is there. -/
def present : Nat := 2 ^ 0

/-- The bit of a word that may be written through. -/
def writable : Nat := 2 ^ 1

/-- The bit of a word that user code may go through. -/
def user : Nat := 2 ^ 2

/-- The bit of a word that names a large page. -/
def huge : Nat := 2 ^ 7

/-- The size of a page, and of a large page. -/
def pageSize : Nat := 4096

def largePage : Nat := 2 * 1024 * 1024

theorem pageSize_eq : pageSize = 2 ^ 12 := by decide

theorem largePage_eq : largePage = 2 ^ 21 := by decide

variable {a b x : Nat}

theorem pageSize_dvd (h : 2 ^ 21 ∣ x) : pageSize ∣ x := by
  rw [pageSize_eq]
  exact dvd_trans (pow_dvd_pow 2 (by decide)) h

theorem testBit_addressMask (i : Nat) :
    addressMask.testBit i = (decide (12 ≤ i) && decide (i < 52)) := by
  have hmask : addressMask = 2 ^ 12 * (2 ^ 40 - 1) := by decide
  rw [hmask, Nat.testBit_two_pow_mul, Nat.testBit_two_pow_sub_one]
  by_cases hi : 12 ≤ i
  · have hiff : i - 12 < 40 ↔ i < 52 := by omega
    simp [hi, hiff]
  · simp [hi]

theorem and_addressMask (h : pageSize ∣ x) : x &&& addressMask = x % 2 ^ 52 := by
  obtain ⟨k, rfl⟩ := h
  apply Nat.eq_of_testBit_eq
  intro i
  rw [Nat.testBit_and, testBit_addressMask, Nat.testBit_mod_two_pow, pageSize_eq,
    Nat.testBit_two_pow_mul]
  by_cases hi : 12 ≤ i
  · simp [hi, Bool.and_comm]
  · simp [hi]

theorem or_and_addressMask {flags : Nat} (hflags : flags &&& addressMask = 0) :
    (x ||| flags) &&& addressMask = x &&& addressMask := by
  rw [Nat.and_or_distrib_right, hflags, Nat.or_zero]

theorem or_eq_add {i offset : Nat} (hx : 2 ^ i ∣ x) (hoffset : offset < 2 ^ i) :
    x ||| offset = x + offset := by
  obtain ⟨k, rfl⟩ := hx
  exact (Nat.two_pow_add_eq_or_of_lt hoffset k).symm

/-! ### The walk -/

/-- The slot of an address in its table of a level. -/
def slot (address level : Nat) : Nat := address / 2 ^ (12 + 9 * level) % 512

/-- Both halves of the address space are sign extensions of 48 bits. -/
def canonical (address : Nat) : Prop := address / 2 ^ 47 = 0 ∨ address / 2 ^ 47 = 0x1FFFF

instance (address : Nat) : Decidable (canonical address) := inferInstanceAs (Decidable (_ ∨ _))

/-- The walk from a table of a level down: the physical address, and the word it ended at. -/
def walk (word : Nat → Nat → Nat) (address : Nat) : Nat → Nat → Option (Nat × Nat)
  | 0, table =>
    let entry := word table (slot address 0)
    if entry &&& present = 0 then none
    else some ((entry &&& addressMask) ||| address % pageSize, entry)
  | level + 1, table =>
    let entry := word table (slot address (level + 1))
    if entry &&& present = 0 then none
    else if entry &&& huge ≠ 0 then
      some ((entry &&& addressMask) ||| address % 2 ^ (12 + 9 * (level + 1)), entry)
    else walk word address level (entry &&& addressMask)

/-- What an address is translated to from a root. -/
def translate (word : Nat → Nat → Nat) (root address : Nat) : Option (Nat × Nat) :=
  if canonical address then walk word address 3 root else none

theorem pageSize_dvd_and_addressMask (x : Nat) : pageSize ∣ x &&& addressMask := by
  have hlow : x &&& addressMask = 2 ^ 12 * ((x &&& addressMask) / 2 ^ 12) := by
    apply Nat.eq_of_testBit_eq
    intro i
    rw [Nat.testBit_two_pow_mul, Nat.testBit_div_two_pow, Nat.testBit_and, Nat.testBit_and]
    by_cases hi : 12 ≤ i
    · simp [hi]
    · simp [hi, testBit_addressMask]
  rw [hlow, pageSize_eq]
  exact Nat.dvd_mul_right _ _

theorem slot_eq_of_page (h : a / pageSize = b / pageSize) (level : Nat) :
    slot a level = slot b level := by
  have hsplit : ∀ x : Nat, x / 2 ^ (12 + 9 * level) = x / pageSize / 2 ^ (9 * level) := by
    intro x
    rw [pow_add, ← Nat.div_div_eq_div_mul, pageSize_eq]
  unfold slot
  rw [hsplit, hsplit, h]

theorem or_offset_eq {frame level : Nat} (hframe : pageSize ∣ frame) :
    frame ||| a % 2 ^ (12 + 9 * level)
      = (frame ||| a % 2 ^ (12 + 9 * level) / pageSize * pageSize) + a % pageSize := by
  have hsmall : a % pageSize < 2 ^ 12 := by
    rw [pageSize_eq]
    exact Nat.mod_lt _ (by decide)
  have hmod : a % 2 ^ (12 + 9 * level) % pageSize = a % pageSize := by
    rw [pageSize_eq]
    exact Nat.mod_mod_of_dvd _ (pow_dvd_pow 2 (by omega))
  have hsplit : a % 2 ^ (12 + 9 * level)
      = a % 2 ^ (12 + 9 * level) / pageSize * pageSize ||| a % pageSize := by
    rw [or_eq_add (i := 12) _ hsmall]
    · rw [← hmod]
      exact (Nat.div_add_mod' _ _).symm
    · rw [pageSize_eq]
      exact Nat.dvd_mul_left _ _
  have hdvd : 2 ^ 12 ∣ frame ||| a % 2 ^ (12 + 9 * level) / pageSize * pageSize := by
    rw [pageSize_eq] at hframe ⊢
    apply Nat.dvd_of_mod_eq_zero
    rw [Nat.or_mod_two_pow, Nat.mod_eq_zero_of_dvd hframe, Nat.mul_mod_left]
    rfl
  conv_lhs => rw [hsplit]
  rw [← Nat.or_assoc, or_eq_add hdvd hsmall]

theorem or_offset_page {frame : Nat} (level : Nat) (hframe : pageSize ∣ frame)
    (h : a / pageSize = b / pageSize) : frame ||| b % 2 ^ (12 + 9 * level)
      = (frame ||| a % 2 ^ (12 + 9 * level)) / pageSize * pageSize + b % pageSize := by
  have hpos : 0 < pageSize := by decide
  have hpage : ∀ x : Nat, x % 2 ^ (12 + 9 * level) / pageSize
      = x / pageSize % 2 ^ (9 * level) := by
    intro x
    rw [pageSize_eq, pow_add, Nat.mod_mul_right_div_self]
  have hdvd : pageSize ∣ frame ||| b % 2 ^ (12 + 9 * level) / pageSize * pageSize := by
    rw [pageSize_eq] at hframe ⊢
    apply Nat.dvd_of_mod_eq_zero
    rw [Nat.or_mod_two_pow, Nat.mod_eq_zero_of_dvd hframe, Nat.mul_mod_left]
    rfl
  obtain ⟨k, hk⟩ := hdvd
  rw [or_offset_eq hframe, or_offset_eq (a := a) hframe, hpage a, h, ← hpage b, hk,
    Nat.mul_add_div hpos, Nat.div_eq_of_lt (Nat.mod_lt _ hpos), Nat.add_zero, Nat.mul_comm k]

variable {word : Nat → Nat → Nat}

/-- **Addresses of one page go to one page**, and by the same word. -/
theorem walk_page (h : a / pageSize = b / pageSize)
    (level table : Nat) : walk word b level table = (walk word a level table).map
      fun r => (r.1 / pageSize * pageSize + b % pageSize, r.2) := by
  induction level generalizing table with
  | zero =>
    unfold walk
    rw [slot_eq_of_page h]
    dsimp only
    split
    · rfl
    · have hleaf := or_offset_page (a := a) (b := b) 0 (pageSize_dvd_and_addressMask
        (word table (slot b 0))) h
      rw [Nat.mul_zero, Nat.add_zero, ← pageSize_eq] at hleaf
      rw [hleaf]
      rfl
  | succ level ih =>
    unfold walk
    rw [slot_eq_of_page h]
    dsimp only
    split
    · rfl
    · split
      · rw [or_offset_page (level + 1) (pageSize_dvd_and_addressMask _) h]
        rfl
      · exact ih _

theorem canonical_page (h : a / pageSize = b / pageSize) : canonical a ↔ canonical b := by
  have hsplit : ∀ x : Nat, x / 2 ^ 47 = x / pageSize / 2 ^ 35 := by
    intro x
    rw [pageSize_eq, Nat.div_div_eq_div_mul, ← pow_add]
  unfold canonical
  rw [hsplit, hsplit, h]

theorem translate_page {root : Nat}
    (h : a / pageSize = b / pageSize) : translate word root b = (translate word root a).map
      fun r => (r.1 / pageSize * pageSize + b % pageSize, r.2) := by
  unfold translate
  by_cases hcanonical : canonical b
  · rw [if_pos hcanonical, if_pos ((canonical_page h).mpr hcanonical)]
    exact walk_page h 3 root
  · rw [if_neg hcanonical, if_neg fun ha => hcanonical ((canonical_page h).mp ha)]
    rfl

end Thalyx.FourLevel
