/-
Assignment: `validate`, `map_kernel_window` and `assign` of `kernel/src/device.rs`.

A function is assigned only once every structure it advertises was checked against the base
address register it names and against the two interrupt structures.  The kernel then maps the
common structure and the interrupt table for itself.  `none` is the kernel stopping on a sum
that does not fit; a refusal is an answer.

The checks are of the structures, and of offsets within a register.  Nothing checks the
interrupt table against its own register, or where two registers are.
-/
import ThalyxKernel.Lib.Checked
import ThalyxKernel.Lib.Pages
import ThalyxKernel.Kernel.Frame
import ThalyxKernel.Kernel.Pci

namespace Thalyx.Kernel.Assign

open Checked Pages Pci List Option

/-- `PAGE_SIZE`. -/
abbrev pageSize : Nat := AddressSpace.pageSize

/-- `MAX_DEVICE_REGIONS`. -/
def maxDeviceRegions : Nat := 4

/-- `MMIO_PAGES`. -/
def mmioPages : Nat := 64

/-- `MMIO_AREA`. -/
def mmioArea : Nat := 0xFFFF808002000000

theorem pageSize_pos : 0 < pageSize := by decide

/-! ### The structures a function advertises -/

/-- `Region`. -/
structure Region where
  kind : Nat
  bar : Nat
  phys : Nat
  offset : Nat
  length : Nat
  notifyOffMultiplier : Nat
  maps : Nat
  deriving DecidableEq, Repr

/-- `Region::default`. -/
def Region.unused : Region := ⟨0, 0, 0, 0, 0, 0, 0⟩

/-- Why `validate` refuses a function. -/
inductive Refusal where
  | missingVirtioStructure
  | structureNamesNoSuchBar
  | structureBarIsNotMemory
  | structureRangeOverflows
  | structureOutsideItsBar
  | structureNotPageGranular
  | structureSharesPagesWithInterruptTable
  | tooManyStructures
  deriving DecidableEq, Repr

/-- Where one of the two interrupt structures lies. -/
structure Extent where
  bar : Nat
  offset : Nat
  length : Nat

/-- The interrupt table, with `table_len`. -/
def table (m : Msix) : Extent := ⟨m.tableBar, m.tableOffset, m.vectors * 16⟩

/-- The pending-bit array. -/
def pendingBits (m : Msix) : Extent := ⟨m.pbaBar, m.pbaOffset, divCeil m.vectors 8⟩

/-- One turn of `overlaps_interrupt_table`. -/
def overlapsExtent (bar offset length : Nat) (hit : Bool) (e : Extent) : Option Bool := do
  if e.bar ≠ bar then return hit
  else
    let tableStart := down pageSize e.offset
    let tableEnd ← mul (divCeil (← add e.offset e.length) pageSize) pageSize
    if offset < tableEnd then return hit || tableStart < (← add offset length) else return hit

/-- `overlaps_interrupt_table`. -/
def overlapsInterruptTable (m : Msix) (bar offset length : Nat) : Option Bool :=
  [table m, pendingBits m].foldlM (overlapsExtent bar offset length) false

/-- What `validate` asks about the interrupt structures, of a function that has any. -/
def sharesInterruptTable (msix : Option Msix) (cap : VirtioCap) : Option Bool :=
  match msix with
  | none => some false
  | some m => overlapsInterruptTable m cap.bar cap.offset cap.length

/-- The region recorded for a structure that passes. -/
def regionOf (cfgType : Nat) (cap : VirtioCap) (phys : Nat) : Region :=
  { kind := cfgType
    bar := cap.bar
    phys
    offset := cap.offset
    length := cap.length
    notifyOffMultiplier := cap.notifyOffMultiplier
    maps := 0 }

/-- One turn of `validate`. -/
def validateStructure (f : Function) (regions : List Region) (cfgType : Nat) :
    Option (Except Refusal (List Region)) :=
  match f.virtio[cfgType]? with
  | none => none
  | some none => some (.error .missingVirtioStructure)
  | some (some cap) =>
    match f.bars[cap.bar]? with
    | none => some (.error .structureNamesNoSuchBar)
    | some bar =>
      if bar.memory = false ∨ bar.length = 0 then some (.error .structureBarIsNotMemory)
      else match add cap.offset cap.length with
      | none => some (.error .structureRangeOverflows)
      | some stop =>
        if cap.length = 0 ∨ bar.length < stop then
          some (.error .structureOutsideItsBar)
        else if cap.offset % pageSize ≠ 0 ∨ cap.length % pageSize ≠ 0 then
          some (.error .structureNotPageGranular)
        else do
          if ← sharesInterruptTable f.msix cap then
            return .error .structureSharesPagesWithInterruptTable
          else if maxDeviceRegions ≤ regions.length then
            return .error .tooManyStructures
          else
            return .ok (regions ++ [regionOf cfgType cap (← add bar.base cap.offset)])

/-- The loop of `validate` over the kinds of structure that are left. -/
def validateFrom (f : Function) : List Nat → List Region → Option (Except Refusal (List Region))
  | [], regions => some (.ok regions)
  | cfgType :: rest, regions => do
    match ← validateStructure f regions cfgType with
    | .error refusal => return .error refusal
    | .ok regions => validateFrom f rest regions

/-- The kinds of structure there have to be. -/
def cfgTypes : List Nat := [1, 2, 3, 4]

/-- `validate`. -/
def validate (f : Function) : Option (Except Refusal (List Region)) := validateFrom f cfgTypes []

/-! ### The kernel's own windows -/

/-- The loop of `map_kernel_window`, over the pages that are left: the frames it maps, or
nothing once one cannot be mapped. -/
def mapPages (mappable : Nat → Nat → Bool) (vaddr phys : Nat) :
    List Nat → Option (Option (List Nat))
  | [] => some (some [])
  | page :: rest => do
    let frame := down pageSize (← add phys (← mul page pageSize))
    if mappable (vaddr + page * pageSize) frame then
      return (← mapPages mappable vaddr phys rest).map (frame :: ·)
    else return none

/-- `map_kernel_window`, given the next free page: its address and the frames behind it. -/
def mapKernelWindow (mappable : Nat → Nat → Bool) (first phys pages : Nat) :
    Option (Option (Nat × List Nat)) := do
  if mmioPages < (← add first pages) then return none
  else
    let vaddr := mmioArea + first * pageSize
    return (← mapPages mappable vaddr phys (List.range pages)).map (vaddr, ·)

/-! ### Assignment -/

/-- `Device`, as it is assigned. -/
structure Device where
  generation : Nat
  id : Nat
  session : Nat
  sponsor : Nat
  bdf : Nat
  vendor : Nat
  deviceId : Nat
  classCode : Nat
  regions : List Region
  msix : Msix
  msixTable : Nat
  commonConfig : Nat
  accessPlatform : Bool
  version1 : Bool
  isolationGroup : Nat
  groupMembers : Nat

/-- What the rest of the machine answers while a function is assigned. -/
structure Surroundings where
  /-- `NEXT_MMIO_PAGE`. -/
  nextMmioPage : Nat
  /-- Whether the kernel's address space takes a frame at an address. -/
  mappable : Nat → Nat → Bool
  /-- The two feature bits, read through the mapped common structure. -/
  version1 : Bool
  accessPlatform : Bool
  inventory : List Function
  /-- The generation of the first free device slot, if there is one. -/
  slot : Option Nat
  /-- Whether the sponsor has metadata left. -/
  reserves : Bool
  nextId : Option Nat
  sponsor : Nat

/-- A device, and the frames the kernel mapped for itself. -/
structure Assigned where
  device : Device
  commonFrames : List Nat
  tableFrames : List Nat

/-- The device table's part of `assign`. -/
def record (w : Surroundings) (f : Function) (regions : List Region) (msix : Msix)
    (commonConfig msixTable : Nat) : Option Device :=
  match w.slot, w.nextId with
  | some generation, some id =>
    if w.version1 && w.reserves then
      some {
        generation := min (generation + 1) (2 ^ 32 - 1)
        id
        session := 1
        sponsor := w.sponsor
        bdf := f.bdf
        vendor := f.vendor
        deviceId := f.device
        classCode := f.classCode
        regions
        msix
        msixTable
        commonConfig
        accessPlatform := w.accessPlatform
        version1 := w.version1
        isolationGroup := f.slot
        groupMembers := w.inventory.countP fun other =>
          other.bus == f.bus && other.slot == f.slot }
    else none
  | _, _ => none

/-- What `assign` does once the structures are validated and there is MSI-X. -/
def assignValidated (w : Surroundings) (f : Function) (regions : List Region) (msix : Msix) :
    Option (Option Assigned) := do
  let common := regions.headD Region.unused
  let pages := common.length / pageSize
  match ← mapKernelWindow w.mappable w.nextMmioPage common.phys pages with
  | none => return none
  | some (commonVaddr, commonFrames) =>
    match f.bars[msix.tableBar]? with
    | none => return none
    | some tableBar =>
      let tablePhys := down pageSize (← add tableBar.base msix.tableOffset)
      let within := msix.tableOffset % pageSize
      let tablePages := divCeil (within + (table msix).length) pageSize
      match ← mapKernelWindow w.mappable (w.nextMmioPage + pages) tablePhys tablePages with
      | none => return none
      | some (tableWindow, tableFrames) =>
        let tableVaddr ← add tableWindow within
        return (record w f regions msix commonVaddr tableVaddr).map
          (⟨·, commonFrames, tableFrames⟩)

/-- `assign`. -/
def assign (w : Surroundings) (f : Function) : Option (Option Assigned) := do
  match ← validate f with
  | .error _ => return none
  | .ok regions =>
    match f.msix with
    | none => return none
    | some msix => assignValidated w f regions msix

/-! ### What is given out, and where it lies -/

/-- The frames a driver that maps a region is given: `map_region`. -/
def Region.frames (r : Region) : List Nat :=
  (List.range (r.length / pageSize)).map fun page => down pageSize (r.phys + page * pageSize)

/-- Whether the page at an address lies inside a register. -/
def PageInside (bar : Bar) (page : Nat) : Prop :=
  bar.base ≤ page ∧ page + pageSize ≤ bar.base + bar.length

/-- The register of memory that an index names. -/
def memoryBar (f : Function) (index : Nat) : Option Bar :=
  (f.bars[index]?).filter Bar.memory

/-- The pages an interrupt structure lies in.  One whose register is not of memory has none. -/
def extentPages (f : Function) (e : Extent) : List Nat :=
  match memoryBar f e.bar with
  | none => []
  | some bar => touched pageSize (bar.base + e.offset) e.length

/-- What the assignment promises: every region lies in the register it names, at an address that
is the sum it was meant to be; so does every page the kernel maps; and no driver can reach a
page of an interrupt structure. -/
structure Confined (f : Function) (a : Assigned) : Prop where
  regions : ∀ r ∈ a.device.regions, ∃ bar, memoryBar f r.bar = some bar
    ∧ r.phys = bar.base + r.offset ∧ r.phys + r.length ≤ bar.base + bar.length
  common : ∀ page ∈ a.commonFrames, ∃ bar,
    memoryBar f (a.device.regions.headD Region.unused).bar = some bar ∧ PageInside bar page
  table : ∀ page ∈ a.tableFrames, ∃ bar,
    memoryBar f a.device.msix.tableBar = some bar ∧ PageInside bar page
  apart : ∀ r ∈ a.device.regions, ∀ page ∈ r.frames,
    ∀ e ∈ [Assign.table a.device.msix, pendingBits a.device.msix], page ∉ extentPages f e

/-- A structure and the register it names. -/
def structureAt (f : Function) (cfgType : Nat) : Option (VirtioCap × Bar) := do
  let cap ← (f.virtio[cfgType]?).join
  let bar ← memoryBar f cap.bar
  return (cap, bar)

/-- A structure and an interrupt structure are in one register that begins on a page boundary,
or their pages are at different addresses. -/
def Separate (cap : VirtioCap) (bar : Bar) (e : Extent) (other : Bar) : Prop :=
  (e.bar = cap.bar ∧ pageSize ∣ bar.base)
    ∨ up pageSize (other.base + e.offset + e.length) ≤ down pageSize bar.base + cap.offset
    ∨ down pageSize bar.base + cap.offset + cap.length ≤ down pageSize (other.base + e.offset)

/-- What nothing checks: the common structure does not begin in a page that its register begins
in the middle of, the interrupt table's pages fit its register, and the registers of the
structures and of the interrupt structures are apart. -/
structure Placed (f : Function) (m : Msix) : Prop where
  common : ∀ cap bar, structureAt f 1 = some (cap, bar) → pageSize ∣ bar.base ∨ cap.offset ≠ 0
  table : ∃ bar, memoryBar f m.tableBar = some bar
    ∧ bar.base ≤ down pageSize (bar.base + m.tableOffset)
    ∧ down pageSize (bar.base + m.tableOffset)
        + divCeil (m.tableOffset % pageSize + m.vectors * 16) pageSize * pageSize
      ≤ bar.base + bar.length
  apart : ∀ cfgType ∈ cfgTypes, ∀ cap bar, structureAt f cfgType = some (cap, bar) →
    ∀ e ∈ [Assign.table m, pendingBits m], ∀ other, memoryBar f e.bar = some other →
      Separate cap bar e other

/-! ### What passes -/

/-- A structure that passes fits its register, in whole pages. -/
structure Fits (cap : VirtioCap) (bar : Bar) : Prop where
  positive : 0 < cap.length
  within : cap.offset + cap.length ≤ bar.length
  offset : pageSize ∣ cap.offset
  length : pageSize ∣ cap.length

/-- A region is the record of a structure that passed. -/
def Recorded (f : Function) (cfgType : Nat) (r : Region) : Prop :=
  ∃ cap bar, structureAt f cfgType = some (cap, bar) ∧ Fits cap bar
    ∧ sharesInterruptTable f.msix cap = some false
    ∧ r = regionOf cfgType cap (bar.base + cap.offset)

variable {a b c cfgType length offset phys vaddr : Nat}

theorem add_some (h : add a b = some c) : c = a + b := by
  simp only [add, ite_none_right_eq_some, some.injEq] at h
  exact h.2.symm

theorem mul_some (h : mul a b = some c) : c = a * b := by
  simp only [mul, ite_none_right_eq_some, some.injEq] at h
  exact h.2.symm

variable {f : Function} {regions : List Region}

/-- **One turn of the validation records a structure that passed every check.** -/
theorem validateStructure_ok {after : List Region}
    (h : validateStructure f regions cfgType = some (.ok after)) :
    ∃ r, Recorded f cfgType r ∧ after = regions ++ [r] := by
  simp only [validateStructure] at h
  cases hvirtio : f.virtio[cfgType]? with
  | none =>
    rw [hvirtio] at h
    cases h
  | some entry =>
    cases entry with
    | none =>
      rw [hvirtio] at h
      cases h
    | some cap =>
      cases hbar : f.bars[cap.bar]? with
      | none => simp [hvirtio, hbar] at h
      | some bar =>
        simp only [hvirtio, hbar] at h
        split at h
        · cases h
        rename_i hmemory
        cases hadd : add cap.offset cap.length with
        | none => simp [hadd] at h
        | some stop =>
          simp only [hadd] at h
          split at h
          · cases h
          rename_i hwithin
          split at h
          · cases h
          rename_i hgranular
          simp only [bind, bind_eq_some_iff] at h
          obtain ⟨shares, hshares, h⟩ := h
          cases shares with
          | true => simp at h
          | false =>
            simp only [Bool.false_eq_true, if_false] at h
            split at h
            · cases h
            obtain ⟨phys, hphys, h⟩ := bind_eq_some_iff.mp h
            have hstop := add_some hadd
            have hsum := add_some hphys
            simp only [pure, some.injEq, Except.ok.injEq] at h
            subst hstop hsum
            push Not at hmemory hwithin hgranular
            refine ⟨_, ⟨cap, bar, ?_, ⟨by omega, hwithin.2,
              Nat.dvd_of_mod_eq_zero hgranular.1,
              Nat.dvd_of_mod_eq_zero hgranular.2⟩, hshares, rfl⟩, h.symm⟩
            have hmem : bar.memory = true := by simpa using hmemory.1
            simp [structureAt, memoryBar, hvirtio, hbar, hmem, Option.filter]

variable {kinds : List Nat}

theorem validateFrom_ok :
    ∀ {regions after : List Region}, validateFrom f kinds regions = some (.ok after) →
      ∃ recorded, List.Forall₂ (Recorded f) kinds recorded ∧ after = regions ++ recorded := by
  induction kinds with
  | nil =>
    intro regions after h
    simp only [validateFrom, some.injEq, Except.ok.injEq] at h
    exact ⟨[], .nil, by rw [append_nil, h]⟩
  | cons cfgType rest ih =>
    intro regions after h
    simp only [validateFrom, bind, bind_eq_some_iff] at h
    obtain ⟨turn, hturn, h⟩ := h
    cases turn with
    | error refusal => simp at h
    | ok next =>
      obtain ⟨r, hr, rfl⟩ := validateStructure_ok hturn
      obtain ⟨recorded, hall, rfl⟩ := ih h
      exact ⟨r :: recorded, .cons hr hall, by simp⟩

variable {mappable : Nat → Nat → Bool}

/-- **The loop of the kernel's own mappings maps one page after another.** -/
theorem mapPages_some {pages : List Nat} :
    ∀ {frames : List Nat}, mapPages mappable vaddr phys pages = some (some frames) →
      frames = pages.map fun page => down pageSize (phys + page * pageSize) := by
  induction pages with
  | nil =>
    intro frames h
    simp only [mapPages, some.injEq] at h
    rw [← h, map_nil]
  | cons page rest ih =>
    intro frames h
    simp only [mapPages, bind, bind_eq_some_iff] at h
    obtain ⟨scaled, hscaled, address, haddress, h⟩ := h
    have hs := mul_some hscaled
    have ha := add_some haddress
    subst hs ha
    split at h
    · obtain ⟨tail, htail, h⟩ := bind_eq_some_iff.mp h
      simp only [pure, some.injEq, map_eq_some_iff] at h
      obtain ⟨mapped, rfl, rfl⟩ := h
      rw [ih htail, map_cons]
    · cases h

theorem mapKernelWindow_some {first pages : Nat} {frames : List Nat}
    (h : mapKernelWindow mappable first phys pages = some (some (vaddr, frames))) :
    frames = run pageSize (down pageSize phys) pages := by
  simp only [mapKernelWindow, bind, bind_eq_some_iff] at h
  obtain ⟨last, -, h⟩ := h
  split at h
  · cases h
  obtain ⟨mapped, hmapped, h⟩ := bind_eq_some_iff.mp h
  simp only [pure, some.injEq, map_eq_some_iff, Prod.mk.injEq] at h
  obtain ⟨_, rfl, -, rfl⟩ := h
  rw [mapPages_some hmapped, map_down_eq_run pageSize_pos]

theorem overlapsExtent_false {bar : Nat} {hit : Bool} {e : Extent}
    (h : overlapsExtent bar offset length hit e = some false) :
    hit = false ∧ (e.bar = bar →
      up pageSize (e.offset + e.length) ≤ offset ∨ offset + length ≤ down pageSize e.offset) := by
  simp only [overlapsExtent] at h
  split at h
  · rename_i hne
    simp only [pure, some.injEq] at h
    exact ⟨h, fun heq => absurd heq hne⟩
  · simp only [bind, bind_eq_some_iff] at h
    obtain ⟨sum, hsum, stop, hstop, h⟩ := h
    have hs := add_some hsum
    have ht := mul_some hstop
    subst hs ht
    split at h
    · obtain ⟨last, hlast, h⟩ := bind_eq_some_iff.mp h
      have hl := add_some hlast
      simp only [pure, some.injEq, Bool.or_eq_false_iff, decide_eq_false_iff_not] at h
      exact ⟨h.1, fun _ => .inr (by omega)⟩
    · rename_i hbefore
      simp only [pure, some.injEq] at h
      exact ⟨h, fun _ => .inl (Nat.le_of_not_lt hbefore)⟩

theorem overlaps_false {bar : Nat} {extents : List Extent} :
    ∀ {hit : Bool}, extents.foldlM (overlapsExtent bar offset length) hit = some false →
      hit = false ∧ ∀ e ∈ extents, e.bar = bar →
        up pageSize (e.offset + e.length) ≤ offset
          ∨ offset + length ≤ down pageSize e.offset := by
  induction extents with
  | nil =>
    intro hit h
    simp only [foldlM_nil, pure, some.injEq] at h
    exact ⟨h, fun e he => absurd he not_mem_nil⟩
  | cons e rest ih =>
    intro hit h
    simp only [foldlM_cons, bind, bind_eq_some_iff] at h
    obtain ⟨next, hnext, h⟩ := h
    obtain ⟨rfl, hrest⟩ := ih h
    obtain ⟨hhit, hfirst⟩ := overlapsExtent_false hnext
    refine ⟨hhit, ?_⟩
    intro other hother
    rcases List.mem_cons.mp hother with rfl | hmem
    · exact hfirst
    · exact hrest other hmem

/-! ### What an accepted function was given -/

variable {w : Surroundings}
variable {m : Msix}

theorem record_some {commonConfig msixTable : Nat} {d : Device}
    (h : record w f regions m commonConfig msixTable = some d) :
    d.regions = regions ∧ d.msix = m := by
  simp only [record] at h
  split at h
  · split at h
    · cases h
      exact ⟨rfl, rfl⟩
    · cases h
  · cases h

/-- What `assign` gave a function it accepted. -/
structure Given (f : Function) (m : Msix) (a : Assigned) : Prop where
  regions : List.Forall₂ (Recorded f) cfgTypes a.device.regions
  msix : a.device.msix = m
  common : a.commonFrames
    = run pageSize (down pageSize (a.device.regions.headD Region.unused).phys)
        ((a.device.regions.headD Region.unused).length / pageSize)
  table : ∃ bar, f.bars[m.tableBar]? = some bar
    ∧ a.tableFrames = run pageSize (down pageSize (bar.base + m.tableOffset))
        (divCeil (m.tableOffset % pageSize + m.vectors * 16) pageSize)

theorem assignValidated_some {a : Assigned} (hregions : List.Forall₂ (Recorded f) cfgTypes regions)
    (h : assignValidated w f regions m = some (some a)) : Given f m a := by
  simp only [assignValidated, bind, bind_eq_some_iff] at h
  obtain ⟨commonWindow, hcommon, h⟩ := h
  cases commonWindow with
  | none => cases h
  | some commonWindow =>
    cases hbar : f.bars[m.tableBar]? with
    | none => simp [hbar] at h
    | some bar =>
      simp only [hbar, bind_eq_some_iff] at h
      obtain ⟨address, haddress, tableWindow, htable, h⟩ := h
      have ha := add_some haddress
      subst ha
      cases tableWindow with
      | none => cases h
      | some tableWindow =>
        obtain ⟨tableVaddr, -, h⟩ := bind_eq_some_iff.mp h
        simp only [pure, some.injEq, map_eq_some_iff] at h
        obtain ⟨d, hd, rfl⟩ := h
        obtain ⟨rfl, rfl⟩ := record_some hd
        refine ⟨hregions, rfl, mapKernelWindow_some hcommon, bar, hbar, ?_⟩
        have hframes := mapKernelWindow_some htable
        rwa [down_of_dvd (dvd_down _ _)] at hframes

/-- **An accepted function is given the regions of its structures and the kernel its windows.** -/
theorem assign_some {a : Assigned}
    (hmsix : f.msix = some m) (h : assign w f = some (some a)) : Given f m a := by
  simp only [assign, bind, bind_eq_some_iff] at h
  obtain ⟨validated, hvalidated, h⟩ := h
  cases validated with
  | error refusal => cases h
  | ok regions =>
    simp only [hmsix] at h
    obtain ⟨recorded, hall, heq⟩ := validateFrom_ok hvalidated
    rw [nil_append] at heq
    subst heq
    exact assignValidated_some hall h

/-! ### When it is confined -/

variable {cap : VirtioCap}

theorem regionOf_frames {bar : Bar} (hfits : Fits cap bar) :
    (regionOf cfgType cap (bar.base + cap.offset)).frames
      = run pageSize (down pageSize bar.base + cap.offset) (cap.length / pageSize) := by
  rw [Region.frames, map_down_eq_run pageSize_pos]
  simp only [regionOf]
  rw [down_add_of_dvd pageSize_pos _ hfits.offset]

/-- **A structure that passed shares no page with an interrupt structure exactly when the two
are separate.** -/
theorem separate_iff {bar other : Bar} {e : Extent} (hfits : Fits cap bar) (hpos : 0 < e.length)
    (hsame : e.bar = cap.bar → other = bar ∧ (up pageSize (e.offset + e.length) ≤ cap.offset
      ∨ cap.offset + cap.length ≤ down pageSize e.offset)) :
    (∀ page ∈ run pageSize (down pageSize bar.base + cap.offset) (cap.length / pageSize),
        page ∉ touched pageSize (other.base + e.offset) e.length)
      ↔ Separate cap bar e other := by
  have hmeet := runs_meet_iff (n := cap.length / pageSize)
    (m := divCeil (other.base + e.offset + e.length) pageSize
      - (other.base + e.offset) / pageSize) pageSize_pos
    (Nat.dvd_add (dvd_down pageSize bar.base) hfits.offset)
    (dvd_down pageSize (other.base + e.offset))
  rw [down_add_touched pageSize_pos, Nat.div_mul_cancel hfits.length] at hmeet
  have hpages : 0 < cap.length / pageSize :=
    Nat.div_pos (Nat.le_of_dvd hfits.positive hfits.length) pageSize_pos
  have htouched := touched_pos pageSize_pos (other.base + e.offset) hpos
  have hapart : (∀ page ∈ run pageSize (down pageSize bar.base + cap.offset)
        (cap.length / pageSize), page ∉ touched pageSize (other.base + e.offset) e.length)
      ↔ up pageSize (other.base + e.offset + e.length) ≤ down pageSize bar.base + cap.offset
        ∨ down pageSize bar.base + cap.offset + cap.length
          ≤ down pageSize (other.base + e.offset) := by
    constructor
    · intro h
      by_contra hnot
      push Not at hnot
      obtain ⟨page, hin, hout⟩ := hmeet.mpr ⟨hnot.1, hnot.2, hpages, htouched⟩
      exact h page hin hout
    · intro h page hin hout
      obtain ⟨hbefore, hafter, -, -⟩ := hmeet.mp ⟨page, hin, hout⟩
      omega
  rw [hapart]
  refine ⟨.inr, ?_⟩
  rintro (⟨hbar, haligned⟩ | h)
  · -- In one register on a boundary, offsets are apart exactly when addresses are.
    obtain ⟨rfl, hoffsets⟩ := hsame hbar
    rw [Nat.add_assoc, Nat.add_comm other.base (e.offset + e.length),
      Nat.add_comm other.base e.offset, up_add_of_dvd pageSize_pos _ haligned,
      down_add_of_dvd pageSize_pos _ haligned, down_of_dvd haligned]
    omega
  · exact h

theorem forall_regions_iff {Q : Region → Prop} {P : VirtioCap → Bar → Prop}
    (hrecorded : List.Forall₂ (Recorded f) kinds regions)
    (hiff : ∀ cfgType cap bar, structureAt f cfgType = some (cap, bar) → Fits cap bar →
      sharesInterruptTable f.msix cap = some false →
        (Q (regionOf cfgType cap (bar.base + cap.offset)) ↔ P cap bar)) :
    (∀ r ∈ regions, Q r) ↔
      ∀ cfgType ∈ kinds, ∀ cap bar, structureAt f cfgType = some (cap, bar) → P cap bar := by
  induction hrecorded with
  | nil => simp
  | @cons cfgType r rest regions hr hrest ih =>
    obtain ⟨cap, bar, hat, hfits, hshares, rfl⟩ := hr
    rw [forall_mem_cons, forall_mem_cons, ih, hiff cfgType cap bar hat hfits hshares]
    refine and_congr_left fun _ => ⟨?_, fun h => h cap bar hat⟩
    intro hP other barOther hother
    rw [hat] at hother
    cases hother
    exact hP

theorem headD_recorded (h : List.Forall₂ (Recorded f) cfgTypes regions) :
    Recorded f 1 (regions.headD Region.unused) := by
  cases h with
  | cons hfirst _ => exact hfirst

theorem structureAt_bar {bar : Bar}
    (h : structureAt f cfgType = some (cap, bar)) : memoryBar f cap.bar = some bar := by
  simp only [structureAt, bind, bind_eq_some_iff, pure, some.injEq,
    Prod.mk.injEq] at h
  obtain ⟨_, -, _, hbar, rfl, rfl⟩ := h
  exact hbar

namespace Given

variable {f : Function} {m : Msix} {a : Assigned}

theorem regions_within (g : Given f m a) :
    ∀ r ∈ a.device.regions, ∃ bar, memoryBar f r.bar = some bar
      ∧ r.phys = bar.base + r.offset ∧ r.phys + r.length ≤ bar.base + bar.length := by
  refine (forall_regions_iff (P := fun _ _ => True) g.regions ?_).mpr fun _ _ _ _ _ => trivial
  intro cfgType cap bar hat hfits _
  refine iff_true_intro ⟨bar, structureAt_bar hat, rfl, ?_⟩
  have hwithin := hfits.within
  simp only [regionOf]
  omega

theorem common_iff (g : Given f m a) :
    (∀ page ∈ a.commonFrames, ∃ bar,
        memoryBar f (a.device.regions.headD Region.unused).bar = some bar ∧ PageInside bar page)
      ↔ ∀ cap bar, structureAt f 1 = some (cap, bar) → pageSize ∣ bar.base ∨ cap.offset ≠ 0 := by
  obtain ⟨cap, bar, hat, hfits, -, hregion⟩ := headD_recorded g.regions
  have hbar := structureAt_bar hat
  have hpages : 0 < cap.length / pageSize :=
    Nat.div_pos (Nat.le_of_dvd hfits.positive hfits.length) pageSize_pos
  rw [g.common, hregion]
  simp only [regionOf, hbar, some.injEq, exists_eq_left', PageInside]
  rw [run_within_iff hpages, Nat.div_mul_cancel hfits.length,
    down_add_of_dvd pageSize_pos _ hfits.offset]
  have hdown := down_le pageSize bar.base
  have hlt := lt_down_add pageSize_pos bar.base
  have hwithin := hfits.within
  have hoffset := hfits.offset
  constructor
  · intro h other barOther hother
    rw [hat] at hother
    cases hother
    by_cases hzero : cap.offset = 0
    · refine .inl ?_
      have heq : bar.base = down pageSize bar.base := by omega
      rw [heq]
      exact dvd_down _ _
    · exact .inr hzero
  · intro h
    refine ⟨?_, by omega⟩
    rcases h cap bar hat with haligned | hne
    · rw [down_of_dvd haligned]
      omega
    · have hpage : pageSize ≤ cap.offset := Nat.le_of_dvd (by omega) hoffset
      omega

theorem table_iff (g : Given f m a) :
    (∀ page ∈ a.tableFrames, ∃ bar,
        memoryBar f a.device.msix.tableBar = some bar ∧ PageInside bar page)
      ↔ ∃ bar, memoryBar f m.tableBar = some bar
        ∧ bar.base ≤ down pageSize (bar.base + m.tableOffset)
        ∧ down pageSize (bar.base + m.tableOffset)
            + divCeil (m.tableOffset % pageSize + m.vectors * 16) pageSize * pageSize
          ≤ bar.base + bar.length := by
  obtain ⟨bar, hbar, hframes⟩ := g.table
  have hm := m.positive
  have hpages : 0 < divCeil (m.tableOffset % pageSize + m.vectors * 16) pageSize := by
    apply Nat.div_pos _ pageSize_pos
    omega
  rw [hframes, g.msix]
  cases hmemory : bar.memory with
  | false =>
    have hnone : memoryBar f m.tableBar = none := by
      simp [memoryBar, hbar, Option.filter, hmemory]
    simp only [hnone, reduceCtorEq, false_and, exists_false, imp_false, iff_false]
    intro h
    exact h _ (mem_run.mpr ⟨0, hpages, rfl⟩)
  | true =>
    have hsome : memoryBar f m.tableBar = some bar := by
      simp [memoryBar, hbar, Option.filter, hmemory]
    simp only [hsome, some.injEq, exists_eq_left', PageInside]
    exact run_within_iff hpages

theorem apart_iff (g : Given f m a) (hmsix : f.msix = some m) :
    (∀ r ∈ a.device.regions, ∀ page ∈ r.frames,
        ∀ e ∈ [Assign.table a.device.msix, pendingBits a.device.msix],
          page ∉ extentPages f e)
      ↔ ∀ cfgType ∈ cfgTypes, ∀ cap bar, structureAt f cfgType = some (cap, bar) →
        ∀ e ∈ [Assign.table m, pendingBits m], ∀ other, memoryBar f e.bar = some other →
          Separate cap bar e other := by
  rw [g.msix]
  refine forall_regions_iff g.regions ?_
  intro cfgType cap bar hat hfits hshares
  rw [regionOf_frames hfits]
  rw [hmsix] at hshares
  obtain ⟨-, hoffsets⟩ := overlaps_false hshares
  have hextent : ∀ e ∈ [Assign.table m, pendingBits m],
      (∀ page ∈ run pageSize (down pageSize bar.base + cap.offset) (cap.length / pageSize),
        page ∉ extentPages f e)
      ↔ ∀ other, memoryBar f e.bar = some other → Separate cap bar e other := by
    intro e he
    have hlength : 0 < e.length := by
      have hm := m.positive
      simp only [mem_cons, not_mem_nil, or_false] at he
      rcases he with rfl | rfl
      · simp only [Assign.table]
        omega
      · apply Nat.div_pos _ (by omega)
        omega
    cases hother : memoryBar f e.bar with
    | none => simp [extentPages, hother]
    | some other =>
      simp only [extentPages, hother, some.injEq, forall_eq']
      refine separate_iff hfits hlength fun hsame => ⟨?_, hoffsets e he hsame⟩
      rw [hsame, structureAt_bar hat] at hother
      exact (some.inj hother).symm
  constructor
  · intro h e he
    exact (hextent e he).mp fun page hpage => h page hpage e he
  · intro h page hpage e he
    exact (hextent e he).mpr (h e he) page hpage

end Given

/-- **An accepted function is confined to its registers exactly when they are where nothing
checks that they are.** -/
theorem assign_confined_iff {w : Surroundings} {f : Function} {m : Msix} {a : Assigned}
    (hmsix : f.msix = some m) (h : assign w f = some (some a)) : Confined f a ↔ Placed f m := by
  have g := assign_some hmsix h
  constructor
  · intro hconfined
    exact ⟨g.common_iff.mp hconfined.common, g.table_iff.mp hconfined.table,
      (g.apart_iff hmsix).mp hconfined.apart⟩
  · intro hplaced
    exact ⟨g.regions_within, g.common_iff.mpr hplaced.common, g.table_iff.mpr hplaced.table,
      (g.apart_iff hmsix).mpr hplaced.apart⟩

/-! ### A block device -/

/-- The configuration space of a block device with its structures in register 4, and its
interrupt structures in register 1: where in it the table is. -/
def blockConfig (tableOffset : BitVec 32) : Config where
  word := fun offset => ([(0x00, 0x10421AF4#32), (0x04, 0x00100000#32), (0x08, 0x01000001#32),
    (0x14, 0xFEBD1000#32), (0x20, 0xFE00000C#32), (0x34, 0x40#32),
    (0x40, 0x01105009#32), (0x44, 4#32), (0x48, 0x0000#32), (0x4C, 0x1000#32),
    (0x50, 0x03106009#32), (0x54, 4#32), (0x58, 0x1000#32), (0x5C, 0x1000#32),
    (0x60, 0x04107009#32), (0x64, 4#32), (0x68, 0x2000#32), (0x6C, 0x1000#32),
    (0x70, 0x02148409#32), (0x74, 4#32), (0x78, 0x3000#32), (0x7C, 0x1000#32), (0x80, 4#32),
    (0x84, 0x00010011#32), (0x88, tableOffset + 1), (0x8C, 0x801#32)].lookup offset).getD 0#32
  sized := fun offset => ([(0x14, 0xFFFFF000#32), (0x20, 0xFFFFC00C#32),
    (0x24, 0xFFFFFFFF#32)].lookup offset).getD 0#32

/-- What enumeration makes of it. -/
def blockFunction (tableOffset : Nat) : Function where
  bdf := 0x10
  vendor := 0x1AF4
  device := 0x1042
  classCode := 0x010000
  bars := #v[.unused, ⟨0xFEBD1000, 0x1000, true, false⟩, .unused, .unused,
    ⟨0xFE000000, 0x4000, true, true⟩, .unused]
  virtio := #v[none, some ⟨1, 4, 0, 0x1000, 0⟩, some ⟨2, 4, 0x3000, 0x1000, 4⟩,
    some ⟨3, 4, 0x1000, 0x1000, 0⟩, some ⟨4, 4, 0x2000, 0x1000, 0⟩, none]
  msix := some ⟨0x84, 2, 1, tableOffset, 1, 0x800, by decide⟩

/-- A machine in which nothing stands in an assignment's way. -/
def quietMachine : Surroundings where
  nextMmioPage := 0
  mappable := fun _ _ => true
  version1 := true
  accessPlatform := false
  inventory := []
  slot := some 0
  reserves := true
  nextId := some 1
  sponsor := 0

theorem assign_accepts (h : (assign w f).join.isSome) : ∃ a, assign w f = some (some a) := by
  obtain ⟨a, ha⟩ := isSome_iff_exists.mp h
  exact ⟨a, join_eq_some_iff.mp ha⟩

theorem assign_confined_iff_block : ∃ a, assign quietMachine (blockFunction 0) = some (some a)
    ∧ (Confined (blockFunction 0) a ↔ Placed (blockFunction 0)
        ⟨0x84, 2, 1, 0, 1, 0x800, by decide⟩) := by
  obtain ⟨a, ha⟩ := assign_accepts (w := quietMachine) (f := blockFunction 0)
    (by decide +kernel)
  exact ⟨a, ha, assign_confined_iff rfl ha⟩

/-- A device that says its table is past the end of the register the table is in.  It is
accepted, and the kernel maps a page that is not the device's. -/
theorem assign_not_confined : ∃ a,
    (blockConfig 0x2000#32).probe 0x10 = some (blockFunction 0x2000)
      ∧ assign quietMachine (blockFunction 0x2000) = some (some a)
      ∧ ¬ Confined (blockFunction 0x2000) a := by
  obtain ⟨a, ha⟩ := assign_accepts (w := quietMachine) (f := blockFunction 0x2000)
    (by decide +kernel)
  refine ⟨a, by decide +kernel, ha, ?_⟩
  intro hconfined
  have g := assign_some (m := ⟨0x84, 2, 1, 0x2000, 1, 0x800, by decide⟩) rfl ha
  obtain ⟨bar, hbar, -, hend⟩ := g.table_iff.mp hconfined.table
  have hreg : memoryBar (blockFunction 0x2000) 1 = some ⟨0xFEBD1000, 0x1000, true, false⟩ := by
    decide +kernel
  rw [hreg] at hbar
  cases hbar
  revert hend
  decide +kernel

end Thalyx.Kernel.Assign
