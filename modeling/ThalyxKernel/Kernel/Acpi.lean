/-
The firmware tables: `kernel/src/acpi.rs`.

A table is believed once its length and its checksum are right, and its content is whatever
the firmware wrote.  Three of them are walked: the processors, the configuration windows and
the remapping units.  Every read and every addition here is one the source makes, and answers
`none` where the source would stop the kernel; what a record on the diagnostic plane is
given is read too.

The walks are the loop of `Lib/Records`, which ends by itself.  One addition is not guarded:
the address width of the remapping table is a byte and is incremented as one.
-/
import ThalyxKernel.Lib.Records
import ThalyxKernel.Kernel.Object

namespace Thalyx.Kernel.Acpi

open Checked

/-! ### Reading bytes -/

/-- `data[offset]`. -/
def readByte (data : List UInt8) (offset : Nat) : Option Nat := data[offset]?.map UInt8.toNat

/-- `read_u16`. -/
def readU16 (data : List UInt8) (offset : Nat) : Option Nat := do
  let b0 ← readByte data offset
  let b1 ← readByte data (← add offset 1)
  return b0 + 2 ^ 8 * b1

/-- `read_u32`. -/
def readU32 (data : List UInt8) (offset : Nat) : Option Nat := do
  let b0 ← readByte data offset
  let b1 ← readByte data (← add offset 1)
  let b2 ← readByte data (← add offset 2)
  let b3 ← readByte data (← add offset 3)
  return b0 + 2 ^ 8 * b1 + 2 ^ 16 * b2 + 2 ^ 24 * b3

/-- A little-endian number. -/
def littleEndian : List UInt8 → Nat
  | [] => 0
  | b :: rest => b.toNat + 2 ^ 8 * littleEndian rest

/-- `read_u64`. -/
def readU64 (data : List UInt8) (offset : Nat) : Option Nat := do
  let value ← slice data offset (← add offset 8)
  return littleEndian value

/-- `a + b` of two bytes. -/
def addU8 (a b : Nat) : Option Nat := if a + b < 2 ^ 8 then some (a + b) else none

/-- `if met { count += 1 }`. -/
def countIf (met : Bool) (count : Nat) : Option Nat := if met then add count 1 else some count

/-- `checksum`. -/
def checksum (data : List UInt8) : UInt8 := data.foldl (· + ·) 0

/-! ### Tables -/

/-- `MAX_TABLE_LEN`. -/
def maxTableLen : Nat := 256 * 1024

/-- `Sdt`: a table whose length and checksum are right. -/
structure Sdt where
  body : List UInt8
  long : 36 ≤ body.length
  short : body.length ≤ maxTableLen
  sound : checksum body = 0

/-- The four letters a table begins with. -/
def Sdt.signature (sdt : Sdt) : List UInt8 := sdt.body.take 4

/-- The letters `APIC`. -/
def apicSignature : List UInt8 := [65, 80, 73, 67]
/-- The letters `MCFG`. -/
def mcfgSignature : List UInt8 := [77, 67, 70, 71]
/-- The letters `DMAR`. -/
def dmarSignature : List UInt8 := [68, 77, 65, 82]

/-- `bytes`: what memory holds, through the direct map. -/
def bytes (memory : Nat → UInt8) (phys count : Nat) : List UInt8 :=
  (List.range count).map fun i => memory (phys + i)

/-- `table`. -/
def table (memory : Nat → UInt8) (phys : Nat) : Option Sdt :=
  if phys = 0 then none
  else
    let length := littleEndian ((bytes memory phys 36).extract 4 8)
    if h : 36 ≤ length ∧ length ≤ maxTableLen then
      if hsum : checksum (bytes memory phys length) = 0 then
        some ⟨bytes memory phys length, by simpa [bytes] using h.1, by simpa [bytes] using h.2,
          hsum⟩
      else none
    else none

/-! ### The platform -/

/-- `CpuEntry`. -/
structure CpuEntry where
  apicId : Nat
  acpiUid : Nat
  enabled : Bool
  x2apic : Bool
  deriving DecidableEq, Repr

/-- `Platform`. -/
structure Platform where
  cpus : Vector CpuEntry maxCpus
  cpuCount : Nat
  cpusDropped : Nat
  duplicates : Nat
  lapicPhys : Nat
  ecamBase : Nat
  ecamBusStart : Nat
  ecamBusEnd : Nat
  dmarPresent : Bool
  dmarUnits : Nat
  dmarIncludeAll : Bool
  rejected : Nat

namespace Platform

/-- `Platform::new`. -/
def new : Platform :=
  ⟨Vector.replicate maxCpus ⟨0, 0, false, false⟩, 0, 0, 0, 0, 0, 0, 0, false, 0, false, 0⟩

/-- `Platform::enabled`. -/
def enabled (p : Platform) : Option Nat := do
  let listed ← slice p.cpus.toList 0 p.cpuCount
  return listed.countP CpuEntry.enabled

/-- `platform.rejected += 1`. -/
def reject (p : Platform) : Option Platform := do
  return { p with rejected := ← add p.rejected 1 }

/-- The search `add_cpu` begins with, over the entries from an index on; what it leaves if it
finds the identifier. -/
def mergeCpu (p : Platform) (apicId : Nat) (enabled x2apic : Bool) :
    List Nat → Option (Option Platform)
  | [] => some none
  | index :: rest => do
    let cpu ← p.cpus.toList[index]?
    if cpu.apicId = apicId then
      let duplicates ← countIf (enabled && cpu.enabled) p.duplicates
      let cpus ← store p.cpus index
        { cpu with enabled := cpu.enabled || enabled, x2apic := cpu.x2apic || x2apic }
      return some { p with duplicates, cpus }
    else mergeCpu p apicId enabled x2apic rest

/-- `add_cpu`. -/
def addCpu (p : Platform) (apicId acpiUid : Nat) (enabled x2apic : Bool) : Option Platform := do
  match ← p.mergeCpu apicId enabled x2apic (List.range p.cpuCount) with
  | some merged => return merged
  | none =>
    if p.cpuCount ≥ maxCpus then return { p with cpusDropped := ← add p.cpusDropped 1 }
    else
      let cpus ← store p.cpus p.cpuCount ⟨apicId, acpiUid, enabled, x2apic⟩
      return { p with cpus, cpuCount := ← add p.cpuCount 1 }

end Platform

/-! ### The three walks -/

/-- The kind and the length of a structure of the processor table. -/
def madtHead (body : List UInt8) (offset : Nat) : Option (Nat × Nat) := do
  let kind ← readByte body offset
  let length ← readByte body (← add offset 1)
  return (kind, length)

/-- One structure of the processor table, counted. -/
def madtEntry (body : List UInt8) (s : Platform × Nat) (offset kind length : Nat) :
    Option (Platform × Nat) := do
  let structures ← add s.2 1
  if kind = 0 ∧ length ≥ 8 then
    let uid ← readByte body (← add offset 2)
    let apicId ← readByte body (← add offset 3)
    let flags ← readU32 body (← add offset 4)
    return (← s.1.addCpu apicId uid (flags &&& 1 != 0) false, structures)
  else if kind = 9 ∧ length ≥ 16 then
    let apicId ← readU32 body (← add offset 4)
    let flags ← readU32 body (← add offset 8)
    let uid ← readU32 body (← add offset 12)
    return (← s.1.addCpu apicId uid (flags &&& 1 != 0) true, structures)
  else if kind = 5 ∧ length ≥ 12 then
    return ({ s.1 with lapicPhys := ← readU64 body (← add offset 4) }, structures)
  else return (s.1, structures)

/-- A structure of a bad length. -/
def rejectEntry (s : Platform × Nat) : Option (Platform × Nat) := do
  return (← s.1.reject, s.2)

/-- `madt`. -/
def madt (p : Platform) (body : List UInt8) : Option Platform := do
  if body.length < 44 then p.reject
  else
    let lapicPhys ← readU32 body 36
    let _flags ← readU32 body 40
    let (p, _structures) ← Records.walk body.length 2 (madtHead body) (madtEntry body)
      rejectEntry (body.length + 1) ({ p with lapicPhys }, 0) 44
    let _enabled ← p.enabled
    let _listed ← (List.range p.cpuCount).foldlM
      (fun (_ : Unit) index => (p.cpus.toList[index]?).map fun _ => ()) ()
    return p

/-- One allocation of the configuration table, counted. -/
def mcfgEntry (body : List UInt8) (s : Platform × Nat) (offset : Nat) :
    Option (Platform × Nat) := do
  let base ← readU64 body offset
  let segment ← readU16 body (← add offset 8)
  let start ← readByte body (← add offset 10)
  let stop ← readByte body (← add offset 11)
  let allocations ← add s.2 1
  if segment = 0 ∧ s.1.ecamBase = 0 ∧ start ≤ stop then
    return ({ s.1 with ecamBase := base, ecamBusStart := start, ecamBusEnd := stop }, allocations)
  else return (s.1, allocations)

/-- `mcfg`, whose records are all of one length. -/
def mcfg (p : Platform) (body : List UInt8) : Option Platform := do
  if body.length < 44 then p.reject
  else
    let (p, _allocations) ← Records.walk body.length 16 (fun _ => some ((), 16))
      (fun s offset _ _ => mcfgEntry body s offset) some (body.length + 1) (p, 0) 44
    return p

/-- The kind and the length of a structure of the remapping table. -/
def dmarHead (body : List UInt8) (offset : Nat) : Option (Nat × Nat) := do
  let kind ← readU16 body offset
  let length ← readU16 body (← add offset 2)
  return (kind, length)

/-- One structure of the remapping table. -/
def dmarEntry (body : List UInt8) (p : Platform) (offset kind length : Nat) : Option Platform := do
  if kind = 0 ∧ length ≥ 16 then
    let dmarUnits ← add p.dmarUnits 1
    let flags ← readByte body (← add offset 4)
    let _segment ← readU16 body (← add offset 6)
    let _base ← readU64 body (← add offset 8)
    return { p with dmarUnits, dmarIncludeAll := p.dmarIncludeAll || flags &&& 1 != 0 }
  else return p

/-- `dmar`. -/
def dmar (p : Platform) (body : List UInt8) : Option Platform := do
  if body.length < 48 then p.reject
  else
    let _width ← addU8 (← readByte body 36) 1
    let _flags ← readByte body 37
    Records.walk body.length 4 (dmarHead body) (dmarEntry body) Platform.reject
      (body.length + 1) { p with dmarPresent := true } 48

/-! ### The tables a root table names -/

/-- The address a root table holds at an index, of eight bytes or of four. -/
def childAddress (root : Sdt) (wide : Bool) (index : Nat) : Option Nat := do
  let offset ← add 36 (← mul index (if wide then 8 else 4))
  if wide then readU64 root.body offset else readU32 root.body offset

/-- One table the root names: walked by its signature, and counted where it is not believed. -/
def child (memory : Nat → UInt8) (root : Sdt) (wide : Bool) (p : Platform) (index : Nat) :
    Option Platform := do
  let address ← childAddress root wide index
  match table memory address with
  | none => p.reject
  | some sdt =>
    if sdt.signature = apicSignature then madt p sdt.body
    else if sdt.signature = mcfgSignature then mcfg p sdt.body
    else if sdt.signature = dmarSignature then dmar p sdt.body
    else return p

/-- How many tables a root table names. -/
def entries (root : Sdt) (wide : Bool) : Nat := (root.body.length - 36) / (if wide then 8 else 4)

/-- The loop of `parse` over the tables the root names. -/
def parseChildren (memory : Nat → UInt8) (root : Sdt) (wide : Bool) : Option Platform :=
  (List.range (entries root wide)).foldlM (child memory root wide) .new

end Thalyx.Kernel.Acpi
