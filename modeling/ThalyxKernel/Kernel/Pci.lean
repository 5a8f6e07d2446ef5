/-
Enumeration: `kernel/src/pci.rs`.

What the kernel knows of a function is what its configuration space answered: six base
address registers, each sized by writing ones to it, and a list of capabilities, of which the
virtio structures and MSI-X are kept.  Every number in the record is the device's own.  A
record found here is one that an assignment has to be safe for.
-/
import Mathlib.Data.Vector.Basic
import Mathlib.Tactic.Common

namespace Thalyx.Kernel.Pci

/-- `BAR_COUNT`. -/
abbrev barCount : Nat := 6

/-- `CAP_WALK_LIMIT`. -/
def capWalkLimit : Nat := 48

/-- `Bar`. -/
structure Bar where
  base : Nat
  length : Nat
  memory : Bool
  wide : Bool
  deriving DecidableEq, Repr

/-- `Bar::default`: a register that is not used. -/
def Bar.unused : Bar := ⟨0, 0, false, false⟩

/-- `VirtioCap`. -/
structure VirtioCap where
  cfgType : Nat
  bar : Nat
  offset : Nat
  length : Nat
  notifyOffMultiplier : Nat
  deriving DecidableEq, Repr

/-- `Msix`.  A function that has the capability has a vector. -/
structure Msix where
  offset : Nat
  vectors : Nat
  tableBar : Nat
  tableOffset : Nat
  pbaBar : Nat
  pbaOffset : Nat
  positive : 0 < vectors
  deriving DecidableEq, Repr

/-- `Function`. -/
structure Function where
  bdf : Nat
  vendor : Nat
  device : Nat
  classCode : Nat
  bars : Vector Bar barCount
  virtio : Vector (Option VirtioCap) 6
  msix : Option Msix
  deriving DecidableEq, Repr

/-- `Function::bus`. -/
def Function.bus (f : Function) : Nat := f.bdf / 2 ^ 8 % 2 ^ 8

/-- `Function::slot`. -/
def Function.slot (f : Function) : Nat := f.bdf / 2 ^ 3 % 2 ^ 5

/-! ### Configuration space -/

/-- What a function answers: each word of its configuration space, and each base address
register once ones were written to it. -/
structure Config where
  word : Nat → BitVec 32
  sized : Nat → BitVec 32

namespace Config

/-- `read32`. -/
def read32 (c : Config) (offset : Nat) : BitVec 32 :=
  if offset < 4096 then c.word (offset / 4 * 4) else BitVec.allOnes 32

/-- `read16`. -/
def read16 (c : Config) (offset : Nat) : Nat :=
  (c.read32 offset >>> (offset / 2 % 2 * 16)).toNat % 2 ^ 16

/-- `read8`. -/
def read8 (c : Config) (offset : Nat) : Nat :=
  (c.read32 offset >>> (offset % 4 * 8)).toNat % 2 ^ 8

/-- `size_bar`. -/
def sizeBar (c : Config) (index : Nat) : Bar :=
  let offset := 0x10 + index * 4
  let original := c.read32 offset
  if original = 0#32 then Bar.unused
  else
    let memory : Bool := original &&& 1#32 = 0#32
    let wide : Bool := memory && (original >>> 1) &&& 3#32 = 2#32
    let mask : BitVec 32 := if memory then ~~~0xF#32 else ~~~0x3#32
    let probed := c.sized offset &&& mask
    if wide then
      { base := (c.read32 (offset + 4) ++ (original &&& mask)).toNat
        length := (~~~(c.sized (offset + 4) ++ probed) + 1).toNat
        memory, wide }
    else
      { base := (original &&& mask).toNat, length := (~~~probed + 1).toNat, memory, wide }

/-- The loop of `probe` over the registers.  A wide one takes two of them. -/
def sizeBars (c : Config) : Nat → Nat → Vector Bar barCount → Vector Bar barCount
  | 0, _, bars => bars
  | turns + 1, index, bars =>
    if h : index < barCount then
      let bar := c.sizeBar index
      c.sizeBars turns (index + if bar.wide then 2 else 1) (bars.set index bar h)
    else bars

/-- The vendor capability at a pointer, where it is one of virtio's structures. -/
def virtioAt (c : Config) (pointer : Nat) (found : Function) : Function :=
  let cfgType := c.read8 (pointer + 3)
  let length := c.read8 (pointer + 2)
  if h : 1 ≤ cfgType ∧ cfgType < 6 ∧ 16 ≤ length then
    { found with
      virtio := found.virtio.set cfgType (some {
        cfgType
        bar := c.read8 (pointer + 4)
        offset := (c.read32 (pointer + 8)).toNat
        length := (c.read32 (pointer + 12)).toNat
        notifyOffMultiplier :=
          if cfgType = 2 ∧ 20 ≤ length then (c.read32 (pointer + 16)).toNat else 0 }) h.2.1 }
  else found

/-- The MSI-X capability at a pointer. -/
def msixAt (c : Config) (pointer : Nat) : Msix :=
  let table := (c.read32 (pointer + 4)).toNat
  let pba := (c.read32 (pointer + 8)).toNat
  { offset := pointer
    vectors := c.read16 (pointer + 2) % 2 ^ 11 + 1
    tableBar := table % 8
    tableOffset := table / 8 * 8
    pbaBar := pba % 8
    pbaOffset := pba / 8 * 8
    positive := Nat.succ_pos _ }

/-- What one capability adds to the record. -/
def capabilityAt (c : Config) (pointer : Nat) (found : Function) : Function :=
  let id := c.read8 pointer
  if id = 0x09 then c.virtioAt pointer found
  else if id = 0x11 then { found with msix := some (c.msixAt pointer) }
  else found

/-- `walk_capabilities`: the steps that are left, and the pointers already seen. -/
def walkCapabilities (c : Config) : Nat → List Nat → Nat → Function → Function
  | 0, _, _, found => found
  | left + 1, seen, pointer, found =>
    if 0x40 ≤ pointer ∧ pointer < 4096 ∧ pointer ∉ seen then
      let next := c.read8 (pointer + 1) / 4 * 4
      let found := c.capabilityAt pointer found
      if next = 0 then found else c.walkCapabilities left (pointer :: seen) next found
    else found

/-- `probe`. -/
def probe (c : Config) (bdf : Nat) : Option Function :=
  let identity := (c.read32 0).toNat
  let vendor := identity % 2 ^ 16
  if vendor = 0xFFFF ∨ vendor = 0 then none
  else
    let found : Function :=
      { bdf, vendor
        device := identity / 2 ^ 16
        classCode := (c.read32 0x08).toNat / 2 ^ 8
        bars := Vector.replicate barCount Bar.unused
        virtio := Vector.replicate 6 none
        msix := none }
    if c.read8 0x0E % 2 ^ 7 ≠ 0 then some found
    else
      let found := { found with bars := c.sizeBars barCount 0 found.bars }
      -- Bit 4 of the status register says whether there is a list at all.
      if c.read16 0x06 / 2 ^ 4 % 2 = 1 then
        some (c.walkCapabilities capWalkLimit [] (c.read8 0x34 / 4 * 4) found)
      else some found

end Config

end Thalyx.Kernel.Pci
