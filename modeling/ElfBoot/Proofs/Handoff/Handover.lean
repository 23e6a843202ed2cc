import ElfBoot.Handoff.Handover
import ElfBoot.Proofs.Handoff.MapView
import ElfBoot.Proofs.Handoff.MapWriter

/-!
# What the kernel is told about memory

The map that the kernel decodes from the boot record is the one that was written, and it tells the
truth about the firmware's map: what it reports is so, and what it does not report is counted.

* `MapView.regions_encode`, `BootInfo.regions_setMemoryMap` — decoding gives back what was recorded.
* `MapWriter.Tracks.missing_finish` — the regions that a written map does not show are those that
  were dropped.
* `Truthful` — what a boot record says about the firmware's map.
* `handOver_truthful` — the record that is handed over.
-/

set_option autoImplicit false

namespace ElfBoot.Handoff

/-! ## Decoding a recorded map -/

namespace MapView

/-- A region as an element of a recorded map, with four bytes of padding. -/
def Element.ofRegion (r : Region) : Element Region.layoutSize :=
  ⟨r.base, r.pageCount, r.kind.toRaw, [0, 0, 0, 0], rfl⟩

theorem Element.region_ofRegion (r : Region) : (ofRegion r).region = r := by
  simp [region, ofRegion, Region.ofFields]

theorem flatMap_encode_eq (regions : List Region) :
    regions.flatMap Region.encode = layout (regions.map Element.ofRegion) := by
  have hbytes : Region.encode = fun r => (Element.ofRegion r).bytes := by
    funext r
    rw [Element.bytes_eq]
    rfl
  rw [layout, List.flatMap_map, hbytes]

/-- **Decoding a map** gives back the regions it was written from. -/
theorem regions_encode (written : List Region) :
    (mk (written.flatMap Region.encode) Region.layoutSize).regions = written := by
  have hempty : ([] : List UInt8).length < Region.layoutSize := by decide
  have hregions := regions_layout (Nat.le_refl _) (written.map Element.ofRegion) hempty
  rw [List.append_nil, ← flatMap_encode_eq, List.map_map] at hregions
  rw [hregions]
  exact List.map_id'' Element.region_ofRegion written

end MapView

theorem length_flatMap_encode (regions : List Region) :
    (regions.flatMap Region.encode).length = regions.length * Region.layoutSize := by
  rw [MapView.flatMap_encode_eq, MapView.length_layout, List.length_map]

/-- **A recorded map** is decoded as it was recorded, if a word can count its regions. -/
theorem BootInfo.regions_setMemoryMap (i : BootInfo) {regions : List Region}
    (h : regions.length < 0x100000000) (dropped : Nat) :
    (i.setMemoryMap regions dropped).memoryMap.regions = regions := by
  have hcount : (UInt32.ofNat regions.length).toNat = regions.length :=
    UInt32.toNat_ofNat_of_lt' h
  have hstride : (UInt32.ofNat Region.layoutSize).toNat = Region.layoutSize := rfl
  simp only [memoryMap, setMemoryMap, hcount, hstride, Option.getD_some]
  rw [← length_flatMap_encode, List.take_length, MapView.ofBlob?, if_pos (Nat.le_refl _)]
  exact MapView.regions_encode regions

theorem BootInfo.toNat_saturate (n : Nat) : (saturate n).toNat = min n 0xFFFFFFFF := by
  unfold saturate
  split
  · rename_i hle
    rw [UInt32.toNat_ofNat_of_lt' (Nat.lt_succ_of_le hle), Nat.min_eq_left hle]
  · rw [Nat.min_eq_right (by omega)]
    rfl

/-! ## What a map shows -/

/-- The region lies in one of the map, which is of its kind. -/
def Region.ShownIn (r : Region) (shown : List Region) : Prop :=
  ∃ m ∈ shown, m.kind = r.kind ∧ m.base.toNat ≤ r.base.toNat ∧ r.limit ≤ m.limit

instance (r : Region) (shown : List Region) : Decidable (r.ShownIn shown) :=
  inferInstanceAs (Decidable (∃ m ∈ shown, _))

/-- The regions with pages that a map does not show. -/
def missing (regions shown : List Region) : List Region :=
  (regions.filter fun r => r.pageCount != 0).filter fun r => !decide (r.ShownIn shown)

/-- Two regions of an orderly map that hold one address are the same. -/
theorem Orderly.eq_of_holds {regions : List Region} (h : Orderly regions) {r q : Region} {x : Nat}
    (hr : r ∈ regions) (hq : q ∈ regions) (hrx : r.Holds x) (hqx : q.Holds x) : r = q := by
  have : Std.Symm fun r q : Region => ∀ x, r.Holds x → ¬ q.Holds x :=
    ⟨fun _ _ hrq x hqx hrx => hrq x hrx hqx⟩
  by_contra hne
  exact h.apart.forall hr hq hne x hrx hqx

theorem Region.pageCount_ne_zero_of_holds {r : Region} {x : Nat} (h : r.Holds x) :
    r.pageCount ≠ 0 := by
  obtain ⟨hlo, hhi⟩ := h
  intro hzero
  have hlimit : r.limit = r.base.toNat := by simp [limit, hzero]
  omega

section Written

variable {buffer fit lost : List Region} {w : MapWriter}

/-- No address of a dropped region is reported, -/
theorem MapWriter.Tracks.not_holds_of_mem_lost (h : w.Tracks buffer fit lost)
    (hrise : Rising (fit ++ lost)) {r m : Region} {x : Nat} (hr : r ∈ lost) (hm : m ∈ w.finish)
    (hmx : m.Holds x) : ¬ r.Holds x := by
  rw [h.finish_eq] at hm
  obtain ⟨f, hf, -, hfx⟩ := exists_holds_of_mem_coalesce hrise.of_append_left m hm hmx
  have hbefore := (List.pairwise_append.1 hrise.apart).2.2 f hf r hr
  intro hrx
  have hlo := hrx.1
  have hhi := hfx.2
  omega

/-- so **the regions that a written map does not show** are those that were dropped. -/
theorem MapWriter.Tracks.missing_finish (h : w.Tracks buffer fit lost)
    (hrise : Rising (fit ++ lost)) {regions : List Region}
    (hsplit : regions.filter (fun r => r.pageCount != 0) = fit ++ lost) :
    missing regions w.finish = lost := by
  have hfit : ∀ r ∈ fit, r.ShownIn w.finish := by
    rw [h.finish_eq]
    exact exists_mem_coalesce hrise.of_append_left
  have hlost : ∀ r ∈ lost, ¬ r.ShownIn w.finish := by
    rintro r hr ⟨m, hm, -, hlo, hhi⟩
    have hlt := Region.base_lt_limit (hrise.of_append_right.paged r hr)
    exact h.not_holds_of_mem_lost hrise hr hm ⟨hlo, by omega⟩ ⟨Nat.le_refl _, hlt⟩
  rw [missing, hsplit, List.filter_append, List.filter_eq_nil_iff.2 (by simpa using hfit),
    List.filter_eq_self.2 (by simpa using hlost), List.nil_append]

variable {map : List FirmwareRegion} {x : Nat}

/-- Every address that a written map reports lies in an entry of the firmware, and is of the type
that the entry's stands for. -/
theorem MapWriter.Tracks.exists_entry (h : w.Tracks buffer fit lost) (hrise : Rising (fit ++ lost))
    (hsplit : (map.map FirmwareRegion.toRegion).filter (fun r => r.pageCount != 0) = fit ++ lost)
    {m : Region} (hm : m ∈ w.finish) (hmx : m.Holds x) :
    ∃ e ∈ map, MemoryType.ofFirmware e.kind = m.kind ∧ e.toRegion.Holds x := by
  rw [h.finish_eq] at hm
  obtain ⟨f, hf, hkind, hfx⟩ := exists_holds_of_mem_coalesce hrise.of_append_left m hm hmx
  have hmem : f ∈ fit ++ lost := List.mem_append_left lost hf
  rw [← hsplit] at hmem
  obtain ⟨e, he, rfl⟩ := List.mem_map.1 (List.mem_filter.1 hmem).1
  exact ⟨e, he, hkind, hfx⟩

/-- Without dropped regions, every address of the firmware's entries is reported. -/
theorem MapWriter.Tracks.exists_shown (h : w.Tracks buffer fit []) (hrise : Rising (fit ++ []))
    (hsplit : (map.map FirmwareRegion.toRegion).filter (fun r => r.pageCount != 0) = fit ++ [])
    {e : FirmwareRegion} (he : e ∈ map) (hex : e.toRegion.Holds x) :
    ∃ m ∈ w.finish, m.kind = .ofFirmware e.kind ∧ m.Holds x := by
  have hpaged := Region.pageCount_ne_zero_of_holds hex
  have hmem : e.toRegion ∈ fit ++ [] := by
    rw [← hsplit]
    simpa [hpaged] using List.mem_map_of_mem he
  rw [List.append_nil] at hmem hrise
  obtain ⟨m, hm, hkind, hlo, hhi⟩ := exists_mem_coalesce hrise e.toRegion hmem
  rw [← h.finish_eq] at hm
  exact ⟨m, hm, hkind, Nat.le_trans hlo hex.1, Nat.lt_of_lt_of_le hex.2 hhi⟩

end Written

/-! ## The record that is handed over -/

open FirmwareMemory in
theorem MemoryType.ofFirmware_eq_available_iff {kind : UInt32} :
    ofFirmware kind = .available ↔
      kind = conventional ∨ kind = bootServicesCode ∨ kind = bootServicesData := by
  constructor
  · intro h
    by_contra hno
    unfold ofFirmware at h
    rw [if_neg hno] at h
    repeat' split at h
    all_goals contradiction
  · intro h
    exact if_pos h

/-- What a boot record says about the firmware's map, read the way the kernel reads it. -/
structure Truthful (map : List FirmwareRegion) (info record : BootInfo) : Prop where
  /-- What is reported as available, nobody needs any more. -/
  available : ∀ m ∈ record.memoryMap.regions, m.kind = .available → ∀ x, m.Holds x →
    ∃ e ∈ map, (e.kind = FirmwareMemory.conventional ∨ e.kind = FirmwareMemory.bootServicesCode ∨
      e.kind = FirmwareMemory.bootServicesData) ∧ e.toRegion.Holds x
  /-- The memory of the loaded kernel is never reported as available. -/
  loaded : ∀ e ∈ map, e.kind = FirmwareMemory.loaderData → ∀ x, e.toRegion.Holds x →
    ∀ m ∈ record.memoryMap.regions, m.kind = .available → ¬ m.Holds x
  /-- A region is shown as a whole or not at all. -/
  hidden : ∀ r ∈ missing (map.map FirmwareRegion.toRegion) record.memoryMap.regions, ∀ x,
    r.Holds x → ∀ m ∈ record.memoryMap.regions, ¬ m.Holds x
  /-- Regions that are not shown are counted, as far as a word can count. -/
  mapDropped_eq : record.mapDropped.toNat =
    min (missing (map.map FirmwareRegion.toRegion) record.memoryMap.regions).length 0xFFFFFFFF
  /-- The map is marked as truncated if there is one that is not shown. -/
  flags_eq : record.flags = { info.flags with
    mapTruncated :=
      decide (missing (map.map FirmwareRegion.toRegion) record.memoryMap.regions ≠ []) }
  /-- A map that is not marked reports the memory of the firmware's regions and no other, under
  the type that the firmware's stands for. -/
  complete : record.flags.mapTruncated = false → ∀ x kind,
    (∃ m ∈ record.memoryMap.regions, m.kind = kind ∧ m.Holds x) ↔
      ∃ e ∈ map, MemoryType.ofFirmware e.kind = kind ∧ e.toRegion.Holds x
  /-- No address is reported twice. -/
  rising : Rising record.memoryMap.regions

/-- **The firmware's map as the kernel gets it** tells the truth. -/
theorem handOver_truthful {map : List FirmwareRegion}
    (h : Orderly (map.map FirmwareRegion.toRegion)) {buffer : List Region}
    (hcapacity : buffer.length < 0x100000000) (info : BootInfo) :
    ∃ record, handOver buffer map info = some record ∧ Truthful map info record := by
  obtain ⟨w, fit, lost, hpush, hsplit, htracks⟩ := MapWriter.pushAll_tracks h buffer
  have hrise : Rising (fit ++ lost) := by
    rw [← hsplit]
    exact h.rising
  have hfits : w.finish.length < 0x100000000 := by
    have hused := htracks.used_le
    rw [MapWriter.finish, List.length_take]
    omega
  have hread : (w.finishInto info).memoryMap.regions = w.finish :=
    info.regions_setMemoryMap hfits w.dropped
  have hmissing : missing (map.map FirmwareRegion.toRegion) w.finish = lost :=
    htracks.missing_finish hrise hsplit
  refine ⟨w.finishInto info, by rw [handOver, hpush]; rfl, ?_⟩
  constructor
  case available =>
    intro m hm hkind x hmx
    rw [hread] at hm
    obtain ⟨e, he, hek, hex⟩ := htracks.exists_entry hrise hsplit hm hmx
    exact ⟨e, he, MemoryType.ofFirmware_eq_available_iff.1 (hek.trans hkind), hex⟩
  case loaded =>
    intro e he hloader x hex m hm hkind hmx
    rw [hread] at hm
    obtain ⟨e', he', hek, hex'⟩ := htracks.exists_entry hrise hsplit hm hmx
    have hsame := h.eq_of_holds (List.mem_map_of_mem he) (List.mem_map_of_mem he') hex hex'
    have hkinds : MemoryType.ofFirmware e.kind = MemoryType.ofFirmware e'.kind :=
      congrArg Region.kind hsame
    rw [hek, hkind, hloader] at hkinds
    exact absurd hkinds (by decide)
  case hidden =>
    rw [hread, hmissing]
    intro r hr x hrx m hm hmx
    exact htracks.not_holds_of_mem_lost hrise hr hm hmx hrx
  case mapDropped_eq =>
    rw [hread, hmissing, ← htracks.dropped_eq]
    exact BootInfo.toNat_saturate w.dropped
  case flags_eq =>
    rw [hread, hmissing]
    show { info.flags with mapTruncated := decide (0 < w.dropped) } = _
    simp [htracks.dropped_eq, List.length_pos_iff]
  case complete =>
    intro hflag x kind
    have hlost : lost = [] := by
      have hzero : decide (0 < w.dropped) = false := hflag
      simpa [htracks.dropped_eq] using hzero
    subst hlost
    rw [hread]
    constructor
    · rintro ⟨m, hm, rfl, hmx⟩
      exact htracks.exists_entry hrise hsplit hm hmx
    · rintro ⟨e, he, rfl, hex⟩
      exact htracks.exists_shown hrise hsplit he hex
  case rising =>
    rw [hread, htracks.finish_eq]
    exact rising_coalesce hrise.of_append_left

open FirmwareMemory in
/-- Memory that is free, or was used only while booting, an empty entry, the loaded kernel, and free
memory that ends with the address space. -/
def sampleFirmwareMap : List FirmwareRegion :=
  [⟨0, 1, conventional⟩, ⟨0x1000, 1, bootServicesData⟩, ⟨0x2000, 0, FirmwareMemory.mmio⟩,
    ⟨0x2000, 3, FirmwareMemory.loaderData⟩, ⟨0xFFFFFFFFFFFFF000, 1, conventional⟩]

theorem orderly_sampleFirmwareMap : Orderly (sampleFirmwareMap.map FirmwareRegion.toRegion) :=
  .of_limits (by decide) (by decide)

theorem handOver_truthful_sample :
    ∃ record, handOver [default, default] sampleFirmwareMap {} = some record ∧
      Truthful sampleFirmwareMap {} record ∧ record.flags.mapTruncated = true ∧
      record.memoryMap.regions = [⟨0, 2, .available⟩, ⟨0x2000, 3, .loaderData⟩] := by
  have hcapacity : [(default : Region), default].length < 0x100000000 := by decide
  obtain ⟨record, hrecord, htruthful⟩ :=
    handOver_truthful orderly_sampleFirmwareMap hcapacity {}
  have hread : (handOver [default, default] sampleFirmwareMap {}).map
      (fun i => (i.flags.mapTruncated, i.memoryMap.regions)) =
      some (true, [⟨0, 2, .available⟩, ⟨0x2000, 3, .loaderData⟩]) := by decide +kernel
  rw [hrecord, Option.map_some, Option.some_inj, Prod.mk.injEq] at hread
  exact ⟨record, hrecord, htruthful, hread⟩

end ElfBoot.Handoff
