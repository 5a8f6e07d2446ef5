/-
What the walks over the firmware tables do: `kernel/src/acpi.rs`.

Every read lies in the table, because each is guarded by the record's length or by the
table's, and no counter overflows, because a table has fewer records than bytes and the root
names no more tables than it has bytes.  What the processor table lists is then compared with
the list the walk builds.
-/
import ThalyxKernel.Kernel.Acpi

namespace Thalyx.Kernel.Acpi

open Checked Option

/-! ### What a read answers -/

/-- The byte at an offset, zero past the end. -/
def byteAt (data : List UInt8) (offset : Nat) : Nat := (data.getD offset 0).toNat

def u16At (data : List UInt8) (offset : Nat) : Nat :=
  byteAt data offset + 2 ^ 8 * byteAt data (offset + 1)

def u32At (data : List UInt8) (offset : Nat) : Nat :=
  byteAt data offset + 2 ^ 8 * byteAt data (offset + 1) + 2 ^ 16 * byteAt data (offset + 2) +
    2 ^ 24 * byteAt data (offset + 3)

section Reads

variable {data : List UInt8} {offset : Nat}

theorem byteAt_lt (data : List UInt8) (offset : Nat) : byteAt data offset < 2 ^ 8 :=
  UInt8.toNat_lt _

theorem u16At_lt (data : List UInt8) (offset : Nat) : u16At data offset < 2 ^ 16 := by
  have h0 := byteAt_lt data offset
  have h1 := byteAt_lt data (offset + 1)
  unfold u16At
  omega

theorem readByte_eq (h : offset < data.length) :
    readByte data offset = some (byteAt data offset) := by
  simp [readByte, byteAt, List.getElem?_eq_getElem h]

variable (hsize : data.length ≤ maxTableLen)
include hsize

theorem add_small {k : Nat} (hoffset : offset ≤ data.length) (hk : k ≤ maxTableLen) :
    add offset k = some (offset + k) := by
  apply add_eq
  simp only [usizeValues, maxTableLen] at *
  omega

theorem readU16_eq (h : offset + 2 ≤ data.length) :
    readU16 data offset = some (u16At data offset) := by
  have hadd : add offset 1 = some (offset + 1) :=
    add_small hsize (by omega) (by simp [maxTableLen])
  simp [readU16, hadd, @readByte_eq data offset (by omega),
    @readByte_eq data (offset + 1) (by omega), u16At]

theorem readU32_eq (h : offset + 4 ≤ data.length) :
    readU32 data offset = some (u32At data offset) := by
  have hadd : ∀ k ≤ 3, add offset k = some (offset + k) := fun k hk =>
    add_small hsize (by omega) (by simp only [maxTableLen]; omega)
  have hbyte : ∀ k ≤ 3, readByte data (offset + k) = some (byteAt data (offset + k)) :=
    fun k hk => readByte_eq (by omega)
  have hfirst : readByte data offset = some (byteAt data offset) := readByte_eq (by omega)
  simp [readU32, hadd 1 (by omega), hadd 2 (by omega), hadd 3 (by omega), hfirst,
    hbyte 1 (by omega), hbyte 2 (by omega), hbyte 3 (by omega), u32At]

theorem readU64_isSome (h : offset + 8 ≤ data.length) :
    ∃ value, readU64 data offset = some value := by
  have hadd : add offset 8 = some (offset + 8) :=
    add_small hsize (by omega) (by simp [maxTableLen])
  simp [readU64, hadd, slice_eq (Nat.le_add_right offset 8) h]

end Reads

/-! ### The processor list -/

/-- The identifiers of the processors listed, in order. -/
def Platform.ids (p : Platform) : List Nat := (p.cpus.toList.take p.cpuCount).map CpuEntry.apicId

/-- The list after the identifiers of `seen` were added: each once, none left out while there was
room. -/
structure Platform.Lists (p : Platform) (seen : List Nat) : Prop where
  count : p.cpuCount ≤ maxCpus
  once : p.ids.Nodup
  all : ∀ id ∈ seen, id ∈ p.ids ∨ p.cpuCount = maxCpus
  only : ∀ id ∈ p.ids, id ∈ seen
  dropped : 0 < p.cpusDropped → p.cpuCount = maxCpus

/-- No counter is past `n`. -/
structure Platform.Below (p : Platform) (n : Nat) : Prop where
  cpusDropped : p.cpusDropped ≤ n
  duplicates : p.duplicates ≤ n
  dmarUnits : p.dmarUnits ≤ n
  rejected : p.rejected ≤ n

namespace Platform

variable {p p' : Platform} {seen : List Nat} {n apicId : Nat}

theorem Below.mono {m : Nat} (h : p.Below n) (hle : n ≤ m) : p.Below m :=
  ⟨h.cpusDropped.trans hle, h.duplicates.trans hle, h.dmarUnits.trans hle,
    h.rejected.trans hle⟩

theorem Lists.congr (h : p.Lists seen) (hcpus : p'.cpus = p.cpus)
    (hcount : p'.cpuCount = p.cpuCount) (hdropped : p'.cpusDropped = p.cpusDropped) : p'.Lists seen := by
  have hids : p'.ids = p.ids := by rw [ids, ids, hcpus, hcount]
  exact
    { count := hcount ▸ h.count
      once := hids ▸ h.once
      all := by rw [hids, hcount]; exact h.all
      only := hids ▸ h.only
      dropped := by rw [hcount, hdropped]; exact h.dropped }

theorem mergeCpu_eq (apicId : Nat) (enabled x2apic : Bool) (hbelow : p.Below n)
    (hn : n + 1 < usizeValues) (l : List Nat) (hl : ∀ index ∈ l, index < maxCpus) :
    (p.mergeCpu apicId enabled x2apic l = some none ∧
      ∀ (index) (h : index < maxCpus), index ∈ l → p.cpus[index].apicId ≠ apicId) ∨
    ∃ p' index, p.mergeCpu apicId enabled x2apic l = some (some p') ∧ index ∈ l ∧
      (∃ h : index < maxCpus, p.cpus[index].apicId = apicId) ∧ p'.Below (n + 1) ∧
      p'.cpuCount = p.cpuCount ∧ p'.cpusDropped = p.cpusDropped ∧
      p'.cpus.map CpuEntry.apicId = p.cpus.map CpuEntry.apicId := by
  induction l with
  | nil => exact .inl ⟨rfl, by simp⟩
  | cons index rest ih =>
    have hindex : index < maxCpus := hl index (by simp)
    have hget : p.cpus.toList[index]? = some p.cpus[index] := by
      simp [Vector.getElem?_eq_getElem hindex]
    unfold mergeCpu
    simp only [hget, bind_eq_bind, bind_some]
    by_cases hid : p.cpus[index].apicId = apicId
    · refine .inr ?_
      have hcount : p.duplicates ≤ n := hbelow.duplicates
      obtain ⟨d, hd, hle⟩ : ∃ d, countIf (enabled && p.cpus[index].enabled) p.duplicates =
          some d ∧ d ≤ n + 1 := by
        unfold countIf
        split
        · exact ⟨p.duplicates + 1, add_eq (by omega), by omega⟩
        · exact ⟨p.duplicates, rfl, by omega⟩
      simp only [hid, ↓reduceIte, hd, bind_some, store_eq hindex]
      refine ⟨_, index, rfl, by simp, ⟨hindex, hid⟩, ?_, rfl, rfl, ?_⟩
      · exact
          { hbelow.mono (Nat.le_succ n) with duplicates := hle }
      · apply Vector.ext
        intro k hk
        by_cases hk' : index = k
        · subst hk'
          simp [hid]
        · simp [Vector.getElem_set_ne _ _ hk']
    · simp only [hid, ↓reduceIte]
      rcases ih fun k hk => hl k (List.mem_cons_of_mem _ hk) with ⟨hnone, hrest⟩ | hsome
      · refine .inl ⟨hnone, ?_⟩
        intro k hk hmem
        rcases List.mem_cons.mp hmem with rfl | hmem
        · exact hid
        · exact hrest k hk hmem
      · obtain ⟨p', k, hfound, hmem, hrest⟩ := hsome
        exact .inr ⟨p', k, hfound, List.mem_cons_of_mem _ hmem, hrest⟩

theorem mem_ids {id : Nat} (hcount : p.cpuCount ≤ maxCpus) : id ∈ p.ids ↔
    ∃ (index : Nat) (h : index < maxCpus), index < p.cpuCount ∧ p.cpus[index].apicId = id := by
  unfold ids
  simp only [List.mem_map, List.mem_take_iff_getElem, Vector.length_toList, Vector.getElem_toList]
  constructor
  · rintro ⟨cpu, ⟨index, hlt, rfl⟩, rfl⟩
    exact ⟨index, by omega, by omega, rfl⟩
  · rintro ⟨index, h, hlt, rfl⟩
    exact ⟨p.cpus[index], ⟨index, by omega, rfl⟩, rfl⟩

theorem ids_congr (hcount : p'.cpuCount = p.cpuCount)
    (hcpus : p'.cpus.map CpuEntry.apicId = p.cpus.map CpuEntry.apicId) : p'.ids = p.ids := by
  have hlist := congrArg Vector.toList hcpus
  simp only [Vector.toList_map] at hlist
  rw [ids, ids, List.map_take, List.map_take, hcount, hlist]

theorem Lists.extend (h : p.Lists seen) (hroom : p.cpuCount < maxCpus) (hfresh : apicId ∉ p.ids)
    {cpu : CpuEntry} (hid : cpu.apicId = apicId) (hcpus : p'.cpus = p.cpus.set p.cpuCount cpu hroom)
    (hcount : p'.cpuCount = p.cpuCount + 1) (hdropped : p'.cpusDropped = p.cpusDropped) :
    p'.Lists (seen ++ [apicId]) := by
  have hids : p'.ids = p.ids ++ [apicId] := by
    rw [ids, ids, hcpus, hcount, take_set, List.map_append, List.map_singleton, hid]
  refine
    { count := by omega
      once := ?_
      all := ?_
      only := ?_
      dropped := ?_ }
  · rw [hids]
    refine List.nodup_append.mpr ⟨h.once, List.nodup_singleton _, ?_⟩
    rintro id hold _ hnew rfl
    exact hfresh (List.mem_singleton.mp hnew ▸ hold)
  · intro id hmem
    refine .inl ?_
    rw [hids]
    rcases List.mem_append.mp hmem with hold | hnew
    · -- With room left, everything seen so far is listed.
      exact List.mem_append_left _ ((h.all id hold).resolve_right (by omega))
    · exact List.mem_append_right _ hnew
  · intro id hmem
    rw [hids] at hmem
    rcases List.mem_append.mp hmem with hold | hnew
    · exact List.mem_append_left _ (h.only id hold)
    · exact List.mem_append_right _ hnew
  · intro hpos
    have hfull := h.dropped (hdropped ▸ hpos)
    omega

/-- **A processor is merged, listed or, where the list is full, counted as dropped.** -/
theorem addCpu_spec (apicId acpiUid : Nat) (enabled x2apic : Bool) (hlists : p.Lists seen)
    (hbelow : p.Below n) (hn : n + 1 < usizeValues) :
    ∃ p', p.addCpu apicId acpiUid enabled x2apic = some p' ∧ p'.Lists (seen ++ [apicId]) ∧
      p'.Below (n + 1) := by
  have hcount := hlists.count
  unfold addCpu
  have hrange : ∀ k ∈ List.range p.cpuCount, k < maxCpus := fun k hk =>
    (List.mem_range.mp hk).trans_le hcount
  rcases mergeCpu_eq apicId enabled x2apic hbelow hn (List.range p.cpuCount) hrange with
    ⟨hnone, hnew⟩ | ⟨p', index, hsome, hmem, ⟨hindex, hid⟩, hbelow', hsame, hdropped, hmap⟩
  · simp only [hnone, bind_eq_bind, bind_some]
    have hfresh : apicId ∉ p.ids := by
      rw [mem_ids hcount]
      rintro ⟨k, hk, hlt, hid⟩
      exact hnew k hk (List.mem_range.mpr hlt) hid
    by_cases hfull : p.cpuCount ≥ maxCpus
    · have hdropped := hbelow.cpusDropped
      have hadd : add p.cpusDropped 1 = some (p.cpusDropped + 1) := add_eq (by omega)
      simp only [hfull, ↓reduceIte, hadd, bind_some]
      refine ⟨_, rfl, ?_, ?_⟩
      · have hmax : p.cpuCount = maxCpus := Nat.le_antisymm hcount hfull
        exact
          { count := hcount
            once := hlists.once
            all := fun _ _ => .inr hmax
            only := fun id hid => List.mem_append_left _ (hlists.only id hid)
            dropped := fun _ => hmax }
      · exact { hbelow.mono (Nat.le_succ n) with cpusDropped := Nat.succ_le_succ hdropped }
    · have hroom : p.cpuCount < maxCpus := Nat.lt_of_not_le hfull
      have hadd : add p.cpuCount 1 = some (p.cpuCount + 1) := by
        apply add_eq
        simp only [usizeValues, maxCpus] at *
        omega
      simp only [hfull, ↓reduceIte, hadd, bind_some, store_eq hroom]
      refine ⟨_, rfl, ?_, { hbelow.mono (Nat.le_succ n) with }⟩
      refine hlists.extend hroom hfresh ?_ rfl rfl rfl
      rfl
  · simp only [hsome, bind_eq_bind, bind_some]
    refine ⟨p', rfl, ?_, hbelow'⟩
    have hids : p'.ids = p.ids := ids_congr hsame hmap
    have hlisted : apicId ∈ p.ids :=
      (mem_ids hcount).mpr ⟨index, hindex, List.mem_range.mp hmem, hid⟩
    refine
      { count := hsame ▸ hcount
        once := hids ▸ hlists.once
        all := ?_
        only := ?_
        dropped := by rw [hsame, hdropped]; exact hlists.dropped }
    · intro id hmem
      rw [hids, hsame]
      rcases List.mem_append.mp hmem with hold | hnew
      · exact hlists.all id hold
      · exact .inl (List.mem_singleton.mp hnew ▸ hlisted)
    · intro id hmem
      rw [hids] at hmem
      exact List.mem_append_left _ (hlists.only id hmem)

end Platform

/-! ### The processor table -/

theorem reject_spec {p : Platform} {seen : List Nat} {n : Nat} (hlists : p.Lists seen)
    (hbelow : p.Below n) (hn : n + 1 < usizeValues) :
    ∃ p', p.reject = some p' ∧ p'.Lists seen ∧ p'.Below (n + 1) := by
  have hrejected := hbelow.rejected
  have hadd : add p.rejected 1 = some (p.rejected + 1) := add_eq (by omega)
  simp only [Platform.reject, hadd, bind_eq_bind, bind_some]
  refine ⟨_, rfl, hlists.congr rfl rfl rfl, ?_⟩
  exact { hbelow.mono (Nat.le_succ n) with rejected := Nat.succ_le_succ hrejected }

/-- The kind and the length of the structure at an offset. -/
def madtHeadAt (body : List UInt8) (offset : Nat) : Nat × Nat :=
  (byteAt body offset, byteAt body (offset + 1))

/-- The structures of a processor table: offset, kind and length of each. -/
def madtRecords (body : List UInt8) : List (Nat × Nat × Nat) :=
  (Records.scan body.length 2 (madtHeadAt body) (body.length + 1) 44).1

/-- The identifier of the processor a structure describes, if it describes one. -/
def processorId (body : List UInt8) (r : Nat × Nat × Nat) : Option Nat :=
  if r.2.1 = 0 ∧ r.2.2 ≥ 8 then some (byteAt body (r.1 + 3))
  else if r.2.1 = 9 ∧ r.2.2 ≥ 16 then some (u32At body (r.1 + 4))
  else none

/-- The identifiers a processor table lists, in order. -/
def processors (body : List UInt8) : List Nat :=
  if body.length < 44 then [] else (madtRecords body).filterMap (processorId body)

section Madt

variable {body : List UInt8} {p : Platform} {seen : List Nat} {n : Nat}

theorem madtHead_eq (hsize : body.length ≤ maxTableLen) {offset : Nat}
    (h : offset + 2 ≤ body.length) : madtHead body offset = some (madtHeadAt body offset) := by
  have hadd : add offset 1 = some (offset + 1) :=
    add_small hsize (by omega) (by simp [maxTableLen])
  simp [madtHead, hadd, @readByte_eq body offset (by omega),
    @readByte_eq body (offset + 1) (by omega), madtHeadAt]

theorem madtEntry_spec (hsize : body.length ≤ maxTableLen) {r : Nat × Nat × Nat}
    (hend : r.1 + r.2.2 ≤ body.length) {s : Platform × Nat} (hlists : s.1.Lists seen)
    (hbelow : s.1.Below n) (hn : n + 1 < usizeValues) (hcount : s.2 + 1 < usizeValues) :
    ∃ s', madtEntry body s r.1 r.2.1 r.2.2 = some s' ∧
      s'.1.Lists (seen ++ (processorId body r).toList) ∧ s'.1.Below (n + 1) ∧ s'.2 = s.2 + 1 := by
  obtain ⟨offset, kind, length⟩ := r
  simp only at hend
  have hadd : ∀ k ≤ length, add offset k = some (offset + k) := fun k hk =>
    add_small hsize (by omega) (by omega)
  have hbyte : ∀ k < length, readByte body (offset + k) = some (byteAt body (offset + k)) :=
    fun k hk => readByte_eq (by omega)
  have hword : ∀ k, k + 4 ≤ length → readU32 body (offset + k) = some (u32At body (offset + k)) :=
    fun k hk => readU32_eq hsize (by omega)
  unfold madtEntry
  simp only [add_eq hcount, bind_eq_bind, bind_some, processorId]
  by_cases hlapic : kind = 0 ∧ length ≥ 8
  · obtain ⟨p', hp', hlists', hbelow'⟩ := Platform.addCpu_spec (byteAt body (offset + 3))
      (byteAt body (offset + 2)) (u32At body (offset + 4) &&& 1 != 0) false hlists hbelow hn
    simp only [if_pos hlapic, hadd 2 (by omega), hadd 3 (by omega), hadd 4 (by omega),
      hbyte 2 (by omega), hbyte 3 (by omega), hword 4 (by omega), bind_some, hp']
    exact ⟨_, rfl, hlists', hbelow', rfl⟩
  by_cases hx2apic : kind = 9 ∧ length ≥ 16
  · obtain ⟨p', hp', hlists', hbelow'⟩ := Platform.addCpu_spec (u32At body (offset + 4))
      (u32At body (offset + 12)) (u32At body (offset + 8) &&& 1 != 0) true hlists hbelow hn
    simp only [if_neg hlapic, if_pos hx2apic, hadd 4 (by omega), hadd 8 (by omega),
      hadd 12 (by omega), hword 4 (by omega), hword 8 (by omega), hword 12 (by omega),
      bind_some, hp']
    exact ⟨_, rfl, hlists', hbelow', rfl⟩
  simp only [if_neg hlapic, if_neg hx2apic, toList_none, List.append_nil]
  by_cases hbase : kind = 5 ∧ length ≥ 12
  · obtain ⟨value, hvalue⟩ := @readU64_isSome body (offset + 4) hsize (by omega)
    simp only [if_pos hbase, hadd 4 (by omega), bind_some, hvalue]
    exact ⟨_, rfl, hlists.congr rfl rfl rfl, { hbelow.mono (Nat.le_succ n) with }, rfl⟩
  · simp only [if_neg hbase]
    exact ⟨_, rfl, hlists, hbelow.mono (Nat.le_succ n), rfl⟩

theorem madt_walk (hsize : body.length ≤ maxTableLen) (hlong : 44 ≤ body.length)
    (hlists : p.Lists seen) (hbelow : p.Below n) (hn : n + maxTableLen + 2 < usizeValues) :
    ∃ s, Records.walk body.length 2 (madtHead body) (madtEntry body) rejectEntry
        (body.length + 1) (p, 0) 44 = some s ∧
      s.1.Lists (seen ++ (madtRecords body).filterMap (processorId body)) ∧
      s.1.Below (n + maxTableLen + 2) := by
  have hfit : ∀ offset, offset ≤ body.length →
      offset + 2 < usizeValues ∧ offset + (madtHeadAt body offset).2 < usizeValues := by
    intro offset hoffset
    have hbyte := byteAt_lt body (offset + 1)
    simp only [madtHeadAt, usizeValues, maxTableLen] at *
    omega
  have hrecords := @Records.length_scan_le _ body.length 2 (madtHeadAt body) (body.length + 1) 44
  apply Records.walk_spec (madtHeadAt body)
    (fun done (s : Platform × Nat) => s.1.Lists (seen ++ done.filterMap (processorId body)) ∧
      s.1.Below (n + done.length) ∧ s.2 = done.length) _
    (fun offset h => madtHead_eq hsize h) (by omega) hfit hlong (by omega)
  · exact ⟨by simpa using hlists, hbelow, rfl⟩
  · rintro done r s hdone ⟨-, -, hend⟩ ⟨hslists, hsbelow, hscount⟩
    obtain ⟨t, ht, htlists, htbelow, htcount⟩ :=
      madtEntry_spec hsize hend hslists hsbelow (by omega) (by omega)
    refine ⟨t, ht, ?_, ?_, ?_⟩
    · rw [List.filterMap_append, ← List.append_assoc]
      cases hid : processorId body r with
      | none => simpa [hid] using htlists
      | some id => simpa [hid] using htlists
    · rw [List.length_append, List.length_singleton]
      exact htbelow
    · rw [htcount, hscount, List.length_append, List.length_singleton]
  · rintro s ⟨hslists, hsbelow, -⟩
    exact ⟨hslists, hsbelow.mono (by omega)⟩
  · rintro s ⟨hslists, hsbelow, -⟩
    obtain ⟨t, ht, htlists, htbelow⟩ := reject_spec hslists hsbelow (by omega)
    refine ⟨(t, s.2), ?_, htlists, htbelow.mono (by omega)⟩
    simp [rejectEntry, ht]

theorem listed_isSome {q : Platform} (hcount : q.cpuCount ≤ maxCpus) :
    (∃ enabled, q.enabled = some enabled) ∧
      (List.range q.cpuCount).foldlM
        (fun (_ : Unit) index => (q.cpus.toList[index]?).map fun _ => ()) () = some () := by
  constructor
  · have hslice : slice q.cpus.toList 0 q.cpuCount = some _ :=
      slice_eq (Nat.zero_le q.cpuCount) (by simpa using hcount)
    simp [Platform.enabled, hslice]
  · have hall : ∀ l : List Nat, (∀ index ∈ l, index < maxCpus) →
        l.foldlM (fun (_ : Unit) index => (q.cpus.toList[index]?).map fun _ => ()) () =
          some () := by
      intro l hl
      induction l with
      | nil => rfl
      | cons index rest ih =>
        have hindex : index < q.cpus.toList.length := by simpa using hl index (by simp)
        rw [List.foldlM_cons, List.getElem?_eq_getElem hindex]
        exact ih fun k hk => hl k (List.mem_cons_of_mem _ hk)
    exact hall _ fun index hindex => (List.mem_range.mp hindex).trans_le hcount

/-- **The processor table is walked to its end**, and the processors it lists are added. -/
theorem madt_spec (hsize : body.length ≤ maxTableLen) (hlists : p.Lists seen) (hbelow : p.Below n)
    (hn : n + maxTableLen + 2 < usizeValues) :
    ∃ p', madt p body = some p' ∧ p'.Lists (seen ++ processors body) ∧
      p'.Below (n + maxTableLen + 2) := by
  unfold madt processors
  by_cases hshort : body.length < 44
  · obtain ⟨p', hp', hlists', hbelow'⟩ := reject_spec hlists hbelow (by omega)
    simp only [if_pos hshort, List.append_nil]
    exact ⟨p', hp', hlists', hbelow'.mono (by omega)⟩
  simp only [if_neg hshort]
  have hword : ∀ offset, offset + 4 ≤ 44 → readU32 body offset = some (u32At body offset) :=
    fun offset h => readU32_eq hsize (by omega)
  have hbase : ({ p with lapicPhys := u32At body 36 } : Platform).Lists seen :=
    hlists.congr rfl rfl rfl
  obtain ⟨s, hs, hslists, hsbelow⟩ :=
    madt_walk hsize (Nat.le_of_not_lt hshort) hbase { hbelow with } hn
  obtain ⟨⟨enabled, henabled⟩, hlisted⟩ := listed_isSome hslists.count
  simp only [hword 36 (by omega), hword 40 (by omega), bind_eq_bind, bind_some, hs,
    henabled, hlisted]
  exact ⟨s.1, rfl, hslists, hsbelow⟩

end Madt

/-! ### The configuration windows and the remapping units -/

section Others

variable {body : List UInt8} {p : Platform} {seen : List Nat} {n : Nat}
variable {offset : Nat}

theorem mcfgEntry_spec (hsize : body.length ≤ maxTableLen)
    (hend : offset + 16 ≤ body.length) {s : Platform × Nat} (hlists : s.1.Lists seen)
    (hbelow : s.1.Below n) (hcount : s.2 + 1 < usizeValues) :
    ∃ s', mcfgEntry body s offset = some s' ∧ s'.1.Lists seen ∧ s'.1.Below n ∧ s'.2 = s.2 + 1 := by
  have hadd : ∀ k ≤ 16, add offset k = some (offset + k) := fun k hk =>
    add_small hsize (by omega) (by simp only [maxTableLen]; omega)
  have hbyte : ∀ k < 16, readByte body (offset + k) = some (byteAt body (offset + k)) :=
    fun k hk => readByte_eq (by omega)
  have hhalf : readU16 body (offset + 8) = some (u16At body (offset + 8)) :=
    readU16_eq hsize (by omega)
  obtain ⟨base, hbase⟩ := @readU64_isSome body offset hsize (by omega)
  unfold mcfgEntry
  simp only [hadd 8 (by omega), hadd 10 (by omega), hadd 11 (by omega), hbyte 10 (by omega),
    hbyte 11 (by omega), hhalf, hbase, add_eq hcount, bind_eq_bind, bind_some]
  split
  · exact ⟨_, rfl, hlists.congr rfl rfl rfl, { hbelow with }, rfl⟩
  · exact ⟨_, rfl, hlists, hbelow, rfl⟩

theorem mcfg_spec (hsize : body.length ≤ maxTableLen) (hlists : p.Lists seen) (hbelow : p.Below n)
    (hn : n + 1 < usizeValues) :
    ∃ p', mcfg p body = some p' ∧ p'.Lists seen ∧ p'.Below (n + 1) := by
  unfold mcfg
  by_cases hshort : body.length < 44
  · simp only [if_pos hshort]
    exact reject_spec hlists hbelow hn
  simp only [if_neg hshort]
  have hwalk : ∃ s, Records.walk body.length 16 (fun _ => some ((), 16))
      (fun s offset _ _ => mcfgEntry body s offset) some (body.length + 1) (p, 0) 44 = some s ∧
        s.1.Lists seen ∧ s.1.Below n := by
    have hfit : ∀ offset, offset ≤ body.length →
        offset + 16 < usizeValues ∧ offset + 16 < usizeValues := by
      intro offset hoffset
      simp only [usizeValues, maxTableLen] at *
      omega
    apply Records.walk_spec (fun _ => ((), 16))
      (fun done (s : Platform × Nat) => s.1.Lists seen ∧ s.1.Below n ∧ s.2 = done.length) _
      (fun _ _ => rfl) (by omega) hfit (by omega) (by omega)
    · exact ⟨hlists, hbelow, rfl⟩
    · rintro done r s hdone ⟨-, hlength, hend⟩ ⟨hslists, hsbelow, hscount⟩
      have hsmall : s.2 + 1 < usizeValues := by
        simp only [usizeValues, maxTableLen] at *
        omega
      obtain ⟨t, ht, htlists, htbelow, htcount⟩ :=
        mcfgEntry_spec hsize (show r.1 + 16 ≤ body.length by omega) hslists hsbelow hsmall
      refine ⟨t, ht, htlists, htbelow, ?_⟩
      rw [htcount, hscount, List.length_append, List.length_singleton]
    · rintro s ⟨hslists, hsbelow, -⟩
      exact ⟨hslists, hsbelow⟩
    · rintro s ⟨hslists, hsbelow, -⟩
      exact ⟨s, rfl, hslists, hsbelow⟩
  obtain ⟨s, hs, hslists, hsbelow⟩ := hwalk
  simp only [hs, bind_eq_bind, bind_some]
  exact ⟨s.1, rfl, hslists, hsbelow.mono (Nat.le_succ n)⟩

/-- The kind and the length of the remapping structure at an offset. -/
def dmarHeadAt (body : List UInt8) (offset : Nat) : Nat × Nat :=
  (u16At body offset, u16At body (offset + 2))

theorem dmarHead_eq (hsize : body.length ≤ maxTableLen)
    (h : offset + 4 ≤ body.length) : dmarHead body offset = some (dmarHeadAt body offset) := by
  have hadd : add offset 2 = some (offset + 2) :=
    add_small hsize (by omega) (by simp [maxTableLen])
  simp [dmarHead, hadd, @readU16_eq body offset hsize (by omega),
    @readU16_eq body (offset + 2) hsize (by omega), dmarHeadAt]

theorem dmarEntry_spec (hsize : body.length ≤ maxTableLen) {kind length : Nat}
    (hend : offset + length ≤ body.length) (hlists : p.Lists seen) (hbelow : p.Below n)
    (hn : n + 1 < usizeValues) :
    ∃ p', dmarEntry body p offset kind length = some p' ∧ p'.Lists seen ∧ p'.Below (n + 1) := by
  unfold dmarEntry
  by_cases hunit : kind = 0 ∧ length ≥ 16
  · have hadd : ∀ k ≤ 16, add offset k = some (offset + k) := fun k hk =>
      add_small hsize (by omega) (by simp only [maxTableLen]; omega)
    have hbyte : readByte body (offset + 4) = some (byteAt body (offset + 4)) :=
      readByte_eq (by omega)
    have hhalf : readU16 body (offset + 6) = some (u16At body (offset + 6)) :=
      readU16_eq hsize (by omega)
    obtain ⟨base, hbase⟩ := @readU64_isSome body (offset + 8) hsize (by omega)
    have hunits := hbelow.dmarUnits
    have hcount : add p.dmarUnits 1 = some (p.dmarUnits + 1) := add_eq (by omega)
    simp only [if_pos hunit, hadd 4 (by omega), hadd 6 (by omega), hadd 8 (by omega), hbyte, hhalf,
      hbase, hcount, bind_eq_bind, bind_some]
    refine ⟨_, rfl, hlists.congr rfl rfl rfl, ?_⟩
    exact { hbelow.mono (Nat.le_succ n) with dmarUnits := Nat.succ_le_succ hunits }
  · simp only [if_neg hunit]
    exact ⟨p, rfl, hlists, hbelow.mono (Nat.le_succ n)⟩

/-- The byte that `dmar` increments has room. -/
def WidthFits (body : List UInt8) : Prop := body.length < 48 ∨ byteAt body 36 ≠ 255

instance (body : List UInt8) : Decidable (WidthFits body) :=
  inferInstanceAs (Decidable (_ ∨ _))

/-- **The remapping table is walked to its end** where its address width can be incremented. -/
theorem dmar_spec (hsize : body.length ≤ maxTableLen) (hwidth : WidthFits body)
    (hlists : p.Lists seen) (hbelow : p.Below n) (hn : n + maxTableLen + 2 < usizeValues) :
    ∃ p', dmar p body = some p' ∧ p'.Lists seen ∧ p'.Below (n + maxTableLen + 2) := by
  unfold dmar
  by_cases hshort : body.length < 48
  · obtain ⟨p', hp', hlists', hbelow'⟩ := reject_spec hlists hbelow (by omega)
    simp only [if_pos hshort]
    exact ⟨p', hp', hlists', hbelow'.mono (by omega)⟩
  have hbyte := byteAt_lt body 36
  have hne : byteAt body 36 ≠ 255 := hwidth.resolve_left hshort
  have haddress : addU8 (byteAt body 36) 1 = some (byteAt body 36 + 1) := if_pos (by omega)
  simp only [if_neg hshort, @readByte_eq body 36 (by omega), @readByte_eq body 37 (by omega),
    haddress, bind_eq_bind, bind_some]
  have hfit : ∀ offset, offset ≤ body.length →
      offset + 4 < usizeValues ∧ offset + (dmarHeadAt body offset).2 < usizeValues := by
    intro offset hoffset
    have hhalf := u16At_lt body (offset + 2)
    simp only [dmarHeadAt, usizeValues, maxTableLen] at *
    omega
  have hrecords := @Records.length_scan_le _ body.length 4 (dmarHeadAt body) (body.length + 1) 48
  apply Records.walk_spec (dmarHeadAt body)
    (fun done (q : Platform) => q.Lists seen ∧ q.Below (n + done.length)) _
    (fun offset h => dmarHead_eq hsize h) (by omega) hfit (by omega) (by omega)
  · exact ⟨hlists.congr rfl rfl rfl, { hbelow with }⟩
  · rintro done r q hdone ⟨-, -, hend⟩ ⟨hqlists, hqbelow⟩
    have hsmall : n + done.length + 1 < usizeValues := by omega
    rw [List.length_append, List.length_singleton]
    exact dmarEntry_spec hsize hend hqlists hqbelow hsmall
  · rintro q ⟨hqlists, hqbelow⟩
    exact ⟨hqlists, hqbelow.mono (by omega)⟩
  · rintro q ⟨hqlists, hqbelow⟩
    obtain ⟨t, ht, htlists, htbelow⟩ := reject_spec hqlists hqbelow (by omega)
    exact ⟨t, ht, htlists, htbelow.mono (by omega)⟩

/-- **An address width of 255 stops the kernel.** -/
theorem dmar_none (hwidth : ¬ WidthFits body) (p : Platform) : dmar p body = none := by
  obtain ⟨hlong, hbyte⟩ := not_or.mp hwidth
  have hoverflow : addU8 (byteAt body 36) 1 = none := by
    rw [not_not.mp hbyte]
    rfl
  unfold dmar
  simp only [if_neg hlong, @readByte_eq body 36 (by omega), hoverflow, bind_eq_bind,
    bind_some, bind_none]

end Others

/-! ### Every table the root names -/

/-- The table believed at an index of the root, if there is one. -/
def childTable (memory : Nat → UInt8) (root : Sdt) (wide : Bool) (index : Nat) : Option Sdt :=
  (childAddress root wide index).bind (table memory)

/-- The tables that are walked, in order. -/
def named (memory : Nat → UInt8) (root : Sdt) (wide : Bool) : List Sdt :=
  (List.range (entries root wide)).filterMap (childTable memory root wide)

/-- The processors a table lists: none, unless it is a processor table. -/
def Sdt.processors (sdt : Sdt) : List Nat :=
  if sdt.signature = apicSignature then Acpi.processors sdt.body else []

/-- A table that `dmar` can be given. -/
def Sdt.WidthFits (sdt : Sdt) : Prop :=
  sdt.signature = dmarSignature → Acpi.WidthFits sdt.body

/-- What the claim on the walks is: the tables are walked without stopping, no identifier is listed
twice, and none that a table lists is missing while there is room. -/
def Parses (memory : Nat → UInt8) (root : Sdt) (wide : Bool) : Prop :=
  ∃ p, parseChildren memory root wide = some p ∧ p.ids.Nodup ∧
    (∀ id ∈ (named memory root wide).flatMap Sdt.processors, id ∈ p.ids ∨ p.cpuCount = maxCpus) ∧
    (∀ id ∈ p.ids, id ∈ (named memory root wide).flatMap Sdt.processors) ∧
    (0 < p.cpusDropped → p.cpuCount = maxCpus)

section Parse

variable {memory : Nat → UInt8} {root : Sdt} {wide : Bool} {index : Nat}

theorem childAddress_isSome (h : index < entries root wide) :
    ∃ address, childAddress root wide index = some address := by
  have hshort := root.short
  have hlong := root.long
  unfold entries at h
  unfold childAddress
  cases wide with
  | true =>
    simp only [↓reduceIte] at h ⊢
    have hfit : index * 8 + 8 ≤ root.body.length - 36 := by omega
    have hmul : mul index 8 = some (index * 8) := mul_eq (by
      simp only [usizeValues, maxTableLen] at *
      omega)
    have hadd : add 36 (index * 8) = some (36 + index * 8) := add_eq (by
      simp only [usizeValues, maxTableLen] at *
      omega)
    simp only [hmul, hadd, bind_eq_bind, bind_some]
    exact readU64_isSome hshort (by omega)
  | false =>
    simp only [Bool.false_eq_true, ↓reduceIte] at h ⊢
    have hfit : index * 4 + 4 ≤ root.body.length - 36 := by omega
    have hmul : mul index 4 = some (index * 4) := mul_eq (by
      simp only [usizeValues, maxTableLen] at *
      omega)
    have hadd : add 36 (index * 4) = some (36 + index * 4) := add_eq (by
      simp only [usizeValues, maxTableLen] at *
      omega)
    simp only [hmul, hadd, bind_eq_bind, bind_some]
    exact ⟨_, readU32_eq hshort (by omega)⟩

theorem child_spec (hindex : index < entries root wide)
    (hwidth : ∀ sdt, childTable memory root wide index = some sdt → sdt.WidthFits) {p : Platform}
    {seen : List Nat} {n : Nat} (hlists : p.Lists seen) (hbelow : p.Below n)
    (hn : n + maxTableLen + 2 < usizeValues) :
    ∃ p', child memory root wide p index = some p' ∧
      p'.Lists (seen ++ (childTable memory root wide index).toList.flatMap Sdt.processors) ∧
      p'.Below (n + maxTableLen + 2) := by
  obtain ⟨address, haddress⟩ := childAddress_isSome hindex
  unfold child childTable at *
  simp only [haddress, bind_eq_bind, bind_some] at hwidth ⊢
  cases htable : table memory address with
  | none =>
    obtain ⟨p', hp', hlists', hbelow'⟩ := reject_spec hlists hbelow (by omega)
    simp only [toList_none, List.flatMap_nil, List.append_nil]
    exact ⟨p', hp', hlists', hbelow'.mono (by omega)⟩
  | some sdt =>
    have hsize := sdt.short
    simp only [toList_some, List.flatMap_cons, List.flatMap_nil, List.append_nil,
      Sdt.processors]
    by_cases hapic : sdt.signature = apicSignature
    · simp only [if_pos hapic]
      exact madt_spec hsize hlists hbelow hn
    simp only [if_neg hapic, List.append_nil]
    by_cases hmcfg : sdt.signature = mcfgSignature
    · simp only [if_pos hmcfg]
      obtain ⟨p', hp', hlists', hbelow'⟩ := mcfg_spec hsize hlists hbelow (by omega)
      exact ⟨p', hp', hlists', hbelow'.mono (by omega)⟩
    simp only [if_neg hmcfg]
    by_cases hdmar : sdt.signature = dmarSignature
    · simp only [if_pos hdmar]
      exact dmar_spec hsize (hwidth sdt htable hdmar) hlists hbelow hn
    · simp only [if_neg hdmar]
      exact ⟨p, rfl, hlists, hbelow.mono (by omega)⟩

theorem child_none {sdt : Sdt} (hsdt : childTable memory root wide index = some sdt)
    (hwidth : ¬ sdt.WidthFits) (p : Platform) : child memory root wide p index = none := by
  obtain ⟨hdmar, hbody⟩ := Classical.not_imp.mp hwidth
  obtain ⟨address, haddress, htable⟩ := bind_eq_some_iff.mp hsdt
  have hapic : sdt.signature ≠ apicSignature := by
    rw [hdmar]
    decide
  have hmcfg : sdt.signature ≠ mcfgSignature := by
    rw [hdmar]
    decide
  unfold child
  simp only [haddress, htable, if_neg hapic, if_neg hmcfg, if_pos hdmar, bind_eq_bind,
    bind_some, dmar_none hbody]

theorem lists_new : Platform.new.Lists [] where
  count := Nat.zero_le _
  once := List.nodup_nil
  all := fun _ hid => absurd hid (by simp)
  only := fun _ hid => absurd hid (by simp [Platform.ids, Platform.new])
  dropped := fun hpos => absurd hpos (by simp [Platform.new])

theorem width_of_parses (h : Parses memory root wide) :
    ∀ sdt ∈ named memory root wide, sdt.WidthFits := by
  obtain ⟨p, hp, -⟩ := h
  intro sdt hmem
  obtain ⟨index, hindex, hsdt⟩ := List.mem_filterMap.mp hmem
  by_contra hwidth
  have hnone := Records.foldlM_none hindex (child_none hsdt hwidth) Platform.new
  exact absurd (hp.symm.trans hnone) (by simp)

/-- **The walks over the firmware tables never stop the kernel, and list every processor once
while there is room, exactly when no remapping table says an address width of 255.** -/
theorem parses_iff (memory : Nat → UInt8) (root : Sdt) (wide : Bool) :
    Parses memory root wide ↔ ∀ sdt ∈ named memory root wide, sdt.WidthFits := by
  constructor
  · exact width_of_parses
  · intro hwidth
    have hentries : entries root wide ≤ maxTableLen :=
      (Nat.div_le_self _ _).trans ((Nat.sub_le _ _).trans root.short)
    obtain ⟨p, hp, hlists, -⟩ := Records.foldlM_invariant
      (f := child memory root wide) (l := List.range (entries root wide)) (s := Platform.new)
      (fun done p =>
        p.Lists ((done.filterMap (childTable memory root wide)).flatMap Sdt.processors) ∧
          p.Below (done.length * (maxTableLen + 2)))
      ⟨lists_new, ⟨Nat.zero_le _, Nat.zero_le _, Nat.zero_le _, Nat.zero_le _⟩⟩ (by
        rintro done index q ⟨rest, hrest⟩ ⟨hqlists, hqbelow⟩
        have hmem : index ∈ List.range (entries root wide) := by
          rw [← hrest]
          simp
        have hdone : done.length ≤ maxTableLen := by
          have hlength := congrArg List.length hrest
          simp only [List.length_append, List.length_range] at hlength
          omega
        have hroom : done.length * (maxTableLen + 2) + maxTableLen + 2 < usizeValues := by
          have hprod : done.length * (maxTableLen + 2) ≤ maxTableLen * (maxTableLen + 2) :=
            Nat.mul_le_mul_right _ hdone
          simp only [usizeValues, maxTableLen] at *
          omega
        obtain ⟨t, ht, htlists, htbelow⟩ := child_spec (List.mem_range.mp hmem)
          (fun sdt hsdt => hwidth sdt (List.mem_filterMap.mpr ⟨index, hmem, hsdt⟩))
          hqlists hqbelow hroom
        refine ⟨t, ht, ?_, ?_⟩
        · rw [List.filterMap_append, List.flatMap_append]
          cases hchild : childTable memory root wide index with
          | none => simpa [hchild] using htlists
          | some sdt => simpa [hchild] using htlists
        · rw [List.length_append, List.length_singleton, Nat.succ_mul]
          exact htbelow.mono (by omega))
    exact ⟨p, hp, hlists.once, hlists.all, hlists.only, hlists.dropped⟩

end Parse

/-- A remapping table of 48 bytes whose address width is 255. -/
def widestDmar : List UInt8 :=
  dmarSignature ++ [48, 0, 0, 0, 1, 172] ++ List.replicate 26 0 ++ [255] ++ List.replicate 11 0

/-- Memory with that table at address 4096. -/
def widestMemory (address : Nat) : UInt8 :=
  if 4096 ≤ address then widestDmar.getD (address - 4096) 0 else 0

/-- A root table that names one table, at address 4096. -/
def widestRoot : Sdt where
  body := [82, 83, 68, 84, 40, 0, 0, 0, 1, 138] ++ List.replicate 26 0 ++ [0, 16, 0, 0]
  long := by decide
  short := by decide
  sound := by decide

/-- **Such a table stops the kernel**: a byte of 255 is incremented as a byte. -/
theorem widest_not_parses : ¬ Parses widestMemory widestRoot false := by
  intro hparses
  have hmem : (named widestMemory widestRoot false).any (fun sdt =>
      sdt.signature == dmarSignature && !decide (WidthFits sdt.body)) = true := by
    decide +kernel
  obtain ⟨sdt, hnamed, hsdt⟩ := List.any_eq_true.mp hmem
  simp only [Bool.and_eq_true, beq_iff_eq, Bool.not_eq_true', decide_eq_false_iff_not] at hsdt
  exact hsdt.2 (width_of_parses hparses sdt hnamed hsdt.1)

end Thalyx.Kernel.Acpi
