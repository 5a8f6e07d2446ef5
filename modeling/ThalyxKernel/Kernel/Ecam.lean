/-
The configuration window: `Ecam` of `kernel/src/pci.rs`, and how `discover` of
`kernel/src/device.rs` maps it.

An allocation of the configuration table names a base and the buses it is for; the base is
that of bus zero, whatever the first bus is.  `discover` maps one large page there, and
`Ecam` finds a function by its bus less the first one.  The two agree when the first bus is
zero, and `discover_follows_iff` says that they agree in no other case.

Of the page tables only the leaf of the large page is modelled: every address of the window
is translated by it, and the tables above it do not change what it says.
-/
import ThalyxKernel.Kernel.Acpi
import ThalyxKernel.Lib.FourLevel
import ThalyxKernel.Lib.Layout

namespace Thalyx.Kernel.Pci

open Checked Option
open FourLevel (addressMask largePage)

/-! ### The window -/

/-- `ECAM_VADDR`. -/
def ecamVaddr : Nat := 0xFFFF808001000000

/-- `ECAM_BUSES`. -/
def ecamBuses : Nat := 2

/-- `leaf_flags(Rights::KERNEL_DEVICE)`: present, writable, global, not executable and
uncacheable. -/
def kernelDevice : Nat := 2 ^ 0 ||| 2 ^ 1 ||| 2 ^ 8 ||| 2 ^ 63 ||| 2 ^ 4 ||| 2 ^ 3

/-- `map_large_range` for one page: the leaf that is written.  `free` says whether the tables
above it are there or can be made, and nothing is mapped there. -/
def mapLarge (vaddr phys flags : Nat) (free : Bool) : Option Nat :=
  if vaddr % largePage ≠ 0 ∨ phys % largePage ≠ 0 then none
  else if free then some (phys ||| flags ||| FourLevel.huge)
  else none

/-- `translate_in`, from the leaf of a large page on. -/
def throughLeaf (leaf vaddr : Nat) : Nat := (leaf &&& addressMask) ||| (vaddr % largePage)

/-- `Ecam`. -/
structure Ecam where
  base : Nat
  busStart : Nat
  busEnd : Nat
deriving DecidableEq, Repr

/-- `Ecam::address`: `none` is a panic, `some none` an access that is not accepted. -/
def Ecam.address (e : Ecam) (bus device function offset : Nat) : Option (Option Nat) :=
  if bus < e.busStart ∨ e.busEnd < bus ∨ 32 ≤ device ∨ 8 ≤ function then some none
  else if 4096 ≤ offset then some none
  else do
    let busOffset := (← sub bus e.busStart) <<< 20
    let address ← add e.base busOffset
    let address ← add address (device <<< 15)
    let address ← add address (function <<< 12)
    let address ← add address offset
    return some address

/-- What `read32` reads and `write32` writes: the word that holds the offset. -/
def Ecam.word (e : Ecam) (bus device function offset : Nat) : Option (Option Nat) :=
  e.address bus device function (offset / 4 * 4)

/-- The accessor `discover` binds to the window. -/
def Ecam.bound (p : Acpi.Platform) : Ecam :=
  ⟨ecamVaddr, p.ecamBusStart, min (min 255 (p.ecamBusStart + (ecamBuses - 1))) p.ecamBusEnd⟩

/-- The window `discover` leaves behind. -/
structure Window where
  ecam : Ecam
  leaf : Nat
deriving DecidableEq, Repr

/-- `discover`, as far as the window goes. -/
def discover (p : Acpi.Platform) (free : Bool) : Option Window :=
  if p.ecamBase = 0 then none
  else
    (mapLarge ecamVaddr p.ecamBase kernelDevice free).map fun leaf => ⟨.bound p, leaf⟩

/-! ### What the table says -/

/-- Where the table puts a byte of configuration space. -/
def configAddress (base bus device function offset : Nat) : Nat :=
  base + bus * 2 ^ 20 + device * 2 ^ 15 + function * 2 ^ 12 + offset

/-- An access through the window is an access to what the table describes. -/
structure Reaches (p : Acpi.Platform) (w : Window) (bus device function offset address : Nat) :
    Prop where
  window : ecamVaddr ≤ address ∧ address < ecamVaddr + largePage
  buses : p.ecamBusStart ≤ bus ∧ bus ≤ p.ecamBusEnd
  physical : throughLeaf w.leaf address = configAddress p.ecamBase bus device function offset
  fits : configAddress p.ecamBase bus device function offset < 2 ^ 64

/-- No sum overflows, and every access that is accepted reaches its address. -/
def Follows (p : Acpi.Platform) (w : Window) : Prop :=
  ∀ bus device function offset, ∃ accepted,
    w.ecam.address bus device function offset = some accepted
      ∧ ∀ address ∈ accepted, Reaches p w bus device function offset address

variable {offset : Nat}

theorem Follows.word {p : Acpi.Platform} {w : Window} (h : Follows p w)
    {bus device function address : Nat}
    (hword : w.ecam.word bus device function offset = some (some address)) :
    Reaches p w bus device function (offset / 4 * 4) address := by
  obtain ⟨accepted, heq, hreaches⟩ := h bus device function (offset / 4 * 4)
  exact hreaches address (some_inj.mp (heq.symm.trans hword))

/-! ### The selected allocation -/

/-- What the table selects is an allocation whose buses are bytes, in order. -/
def Selected (p : Acpi.Platform) : Prop :=
  p.ecamBase = 0 ∨ p.ecamBusStart ≤ p.ecamBusEnd ∧ p.ecamBusStart < 256

theorem readByte_lt {data : List UInt8} {n : Nat}
    (h : Acpi.readByte data offset = some n) : n < 256 := by
  obtain ⟨byte, -, rfl⟩ := map_eq_some_iff.mp h
  exact byte.toNat_lt

variable {body : List UInt8}

theorem mcfgEntry_selected {s s' : Acpi.Platform × Nat}
    (h : Acpi.mcfgEntry body s offset = some s') (hs : Selected s.1) : Selected s'.1 := by
  simp only [Acpi.mcfgEntry, bind_eq_bind, bind_eq_some_iff] at h
  obtain ⟨base, -, _, -, segment, -, _, -, start, hstart, _, -, stop, -, _, -, h⟩ := h
  split at h
  · next hselect =>
      obtain rfl := some_inj.mp h
      exact .inr ⟨hselect.2.2, readByte_lt hstart⟩
  · obtain rfl := some_inj.mp h
    exact hs

theorem mcfg_selected {p p' : Acpi.Platform}
    (h : Acpi.mcfg p body = some p') (hp : Selected p) : Selected p' := by
  unfold Acpi.mcfg at h
  split at h
  · obtain ⟨rejected, -, h⟩ := bind_eq_some_iff.mp h
    obtain rfl := some_inj.mp h
    exact hp
  · obtain ⟨⟨after, allocations⟩, hwalk, h⟩ := bind_eq_some_iff.mp h
    obtain rfl := some_inj.mp h
    refine Records.walk_keeps (P := fun s : Acpi.Platform × Nat => Selected s.1) ?_ ?_ hwalk hp
    · exact fun s offset _ _ s' hvisit hs => mcfgEntry_selected hvisit hs
    · exact fun s s' hreject hs => some_inj.mp hreject ▸ hs

/-! ### The composition -/

theorem throughLeaf_eq {base flags : Nat} (hbase : base % largePage = 0)
    (hflags : flags &&& addressMask = 0) (hoffset : offset < largePage) :
    throughLeaf (base ||| flags ||| FourLevel.huge) (ecamVaddr + offset)
      = base % 2 ^ 52 + offset := by
  have hbits : (flags ||| FourLevel.huge) &&& addressMask = 0 := by
    rw [Nat.and_or_distrib_right, hflags]
    decide
  have hdvd : 2 ^ 21 ∣ base := FourLevel.largePage_eq ▸ Nat.dvd_of_mod_eq_zero hbase
  have hvaddr : (ecamVaddr + offset) % largePage = offset := by
    have haligned : ecamVaddr % largePage = 0 := by decide
    rw [Nat.add_mod, haligned, Nat.zero_add, Nat.mod_mod, Nat.mod_eq_of_lt hoffset]
  have hpage : FourLevel.pageSize ∣ base := FourLevel.pageSize_dvd hdvd
  unfold throughLeaf
  rw [Nat.or_assoc, FourLevel.or_and_addressMask hbits, FourLevel.and_addressMask hpage, hvaddr]
  refine FourLevel.or_eq_add (i := 21) ?_ (FourLevel.largePage_eq ▸ hoffset)
  exact (Nat.dvd_mod_iff (pow_dvd_pow 2 (by decide))).mpr hdvd

theorem address_eq {e : Ecam} (bus device function offset : Nat) (hbase : e.base = ecamVaddr)
    (hspan : e.busEnd ≤ e.busStart + 1) :
    ∃ accepted, e.address bus device function offset = some accepted
      ∧ ∀ address ∈ accepted, e.busStart ≤ bus ∧ bus ≤ e.busEnd ∧ address = ecamVaddr
        + ((bus - e.busStart) * 2 ^ 20 + device * 2 ^ 15 + function * 2 ^ 12 + offset)
        ∧ (bus - e.busStart) * 2 ^ 20 + device * 2 ^ 15 + function * 2 ^ 12 + offset
          < largePage := by
  unfold Ecam.address
  by_cases hrefused : bus < e.busStart ∨ e.busEnd < bus ∨ 32 ≤ device ∨ 8 ≤ function
  · exact ⟨none, if_pos hrefused, by simp⟩
  rw [if_neg hrefused]
  by_cases hbeyond : 4096 ≤ offset
  · exact ⟨none, if_pos hbeyond, by simp⟩
  rw [if_neg hbeyond, sub_eq (by omega)]
  simp only [bind_eq_bind, bind_some, hbase]
  generalize hb : (bus - e.busStart) <<< 20 = busOffset
  generalize hd : device <<< 15 = deviceOffset
  generalize hf : function <<< 12 = functionOffset
  rw [Nat.shiftLeft_eq] at hb hd hf
  have hvaddr : ecamVaddr = 0xFFFF808001000000 := rfl
  rw [hb, hd, hf]
  have hsum : busOffset + deviceOffset + functionOffset + offset < 2 * 1024 * 1024 := by omega
  rw [add_eq (by unfold usizeValues; omega), bind_some,
    add_eq (by unfold usizeValues; omega), bind_some,
    add_eq (by unfold usizeValues; omega), bind_some,
    add_eq (by unfold usizeValues; omega), bind_some]
  refine ⟨_, rfl, ?_⟩
  rintro _ ⟨⟩
  exact ⟨by omega, by omega, by omega, hsum⟩

theorem address_first {e : Ecam} (hbase : e.base = ecamVaddr) (hbuses : e.busStart ≤ e.busEnd) :
    e.address e.busStart 0 0 0 = some (some ecamVaddr) := by
  have hzero : add ecamVaddr 0 = some ecamVaddr := rfl
  unfold Ecam.address
  rw [if_neg (by omega), if_neg (by omega), sub_eq (Nat.le_refl _), Nat.sub_self, hbase]
  simp [hzero]

/-- **The window follows the table exactly when the allocation starts at bus zero** and its base
is an address the tables can hold. -/
theorem discover_follows_iff {body : List UInt8} {before p : Acpi.Platform} {free : Bool}
    {w : Window} (hbefore : before.ecamBase = 0) (hmcfg : Acpi.mcfg before body = some p)
    (hdiscover : discover p free = some w) :
    Follows p w ↔ p.ecamBusStart = 0 ∧ p.ecamBase < 2 ^ 52 := by
  have hselected := mcfg_selected hmcfg (.inl hbefore)
  unfold discover at hdiscover
  split at hdiscover
  · exact absurd hdiscover (by simp)
  next hnonzero =>
  obtain ⟨hbuses, hbyte⟩ := hselected.resolve_left hnonzero
  obtain ⟨leaf, hleaf, rfl⟩ := map_eq_some_iff.mp hdiscover
  unfold mapLarge at hleaf
  split at hleaf
  · exact absurd hleaf (by simp)
  next haligned =>
  split at hleaf
  swap
  · exact absurd hleaf (by simp)
  obtain rfl := some_inj.mp hleaf
  have hbase : p.ecamBase % largePage = 0 := not_not.mp (not_or.mp haligned).2
  have hthrough : ∀ offset < largePage, throughLeaf
      (p.ecamBase ||| kernelDevice ||| FourLevel.huge) (ecamVaddr + offset)
        = p.ecamBase % 2 ^ 52 + offset :=
    fun offset hoffset => throughLeaf_eq hbase (by decide) hoffset
  constructor
  · intro hfollows
    obtain ⟨accepted, heq, hreaches⟩ := hfollows p.ecamBusStart 0 0 0
    have hbound : (Ecam.bound p).busStart ≤ (Ecam.bound p).busEnd := by
      show p.ecamBusStart ≤ min (min 255 (p.ecamBusStart + 1)) p.ecamBusEnd
      omega
    have hfirst := address_first rfl hbound
    have hphysical := (hreaches ecamVaddr (some_inj.mp (heq.symm.trans hfirst))).physical
    have hzero := hthrough 0 (by decide)
    rw [Nat.add_zero] at hzero
    have hsame := hzero.symm.trans hphysical
    unfold configAddress at hsame
    have hmod := Nat.mod_le p.ecamBase (2 ^ 52)
    have hlt : p.ecamBase % 2 ^ 52 < 2 ^ 52 := Nat.mod_lt _ (by decide)
    omega
  · rintro ⟨hstart, hsmall⟩ bus device function offset
    have hspan : (Ecam.bound p).busEnd ≤ (Ecam.bound p).busStart + 1 := by
      show min (min 255 (p.ecamBusStart + 1)) p.ecamBusEnd ≤ p.ecamBusStart + 1
      omega
    obtain ⟨accepted, heq, hall⟩ := address_eq bus device function offset rfl hspan
    refine ⟨accepted, heq, fun address haddress => ?_⟩
    obtain ⟨hlow, hhigh, rfl, hinside⟩ := hall address haddress
    have hphysical := hthrough _ hinside
    have hfirst : (Ecam.bound p).busStart = 0 := hstart
    simp only [hfirst, Nat.sub_zero] at hphysical hinside ⊢
    have hsum : configAddress p.ecamBase bus device function offset = p.ecamBase
        + (bus * 2 ^ 20 + device * 2 ^ 15 + function * 2 ^ 12 + offset) := by
      unfold configAddress
      omega
    refine ⟨⟨Nat.le_add_right _ _, Nat.add_lt_add_left hinside _⟩, ⟨?_, ?_⟩, ?_, ?_⟩
    · rw [hstart]
      exact Nat.zero_le _
    · exact hhigh.trans (Nat.min_le_right _ _)
    · show throughLeaf _ _ = _
      rw [hphysical, hsum, Nat.mod_eq_of_lt hsmall]
    · rw [hsum]
      unfold largePage at hinside
      omega

deriving instance DecidableEq for Acpi.Platform

/-- A configuration table of one allocation. -/
def oneAllocation (base start stop : Nat) : List UInt8 :=
  List.replicate 44 0 ++ littleEndian 8 base ++ littleEndian 2 0 ++ littleEndian 1 start
    ++ littleEndian 1 stop ++ littleEndian 4 0

/-- What such a table selects. -/
def selecting (base start stop : Nat) : Acpi.Platform :=
  { Acpi.Platform.new with ecamBase := base, ecamBusStart := start, ecamBusEnd := stop }

theorem discover_follows_bus_zero :
    ∃ w, discover (selecting 0xB0000000 0 255) true = some w
      ∧ Follows (selecting 0xB0000000 0 255) w := by
  have hmcfg : Acpi.mcfg .new (oneAllocation 0xB0000000 0 255)
      = some (selecting 0xB0000000 0 255) := by decide +kernel
  have hdiscover : discover (selecting 0xB0000000 0 255) true = some _ := rfl
  exact ⟨_, hdiscover, (discover_follows_iff rfl hmcfg hdiscover).mpr ⟨rfl, by decide⟩⟩

/-- The first function of bus one is looked for where bus zero is. -/
theorem bus_one_is_looked_for_at_bus_zero :
    ∃ w, Acpi.mcfg .new (oneAllocation 0xB0000000 1 255) = some (selecting 0xB0000000 1 255)
      ∧ discover (selecting 0xB0000000 1 255) true = some w
      ∧ ¬ Follows (selecting 0xB0000000 1 255) w := by
  refine ⟨_, by decide +kernel, rfl, fun hfollows => ?_⟩
  obtain ⟨accepted, heq, hreaches⟩ := hfollows 1 0 0 0
  obtain rfl : accepted = some ecamVaddr := some_inj.mp (heq.symm.trans (by decide))
  exact absurd (hreaches ecamVaddr rfl).physical (by decide)

end Thalyx.Kernel.Pci
