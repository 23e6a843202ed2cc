import ElfBoot.Load.Headers
import ElfBoot.Proofs.Image.Built
import ElfBoot.Proofs.Image.Contents

/-!
# Reading back what was built

Header and table of a built image are read back as what the image was built from, whatever the
width and the size of a table entry, as long as every number fits its field and no data is written
over them.

* `Part.ShownBy`, `Builder.ShownBy`, `Table.Shows` — what headers and tables say of what they were
  built from.
* `Table.Shows.ofTable_eq` — tables of the same parts have the same plan, whatever their widths.
* `Builder.WellFormed` — the images that can be read back.
* `Builder.WellFormed.ofBytes?_take`, `Builder.WellFormed.exists_decode`,
  `Builder.WellFormed.exists_ofBlob` — identity block, file header and table of such an image.
-/

set_option autoImplicit false

namespace ElfBoot

/-! ## Parts -/

/-- Addresses, offsets and sizes in an image of a width stay below this. -/
def Width.limit : Width → Nat
  | bits32 => 0x100000000
  | bits64 => wordLimit

/-- The numbers of a part fit into the fields of a program header. -/
structure Part.Fits (p : Part) (w : Width) : Prop where
  offset : p.offset < w.limit
  fileSize : p.data.length < w.limit
  memorySize : p.memorySize < w.limit
  address : p.address < w.limit

instance (p : Part) (w : Width) : Decidable (p.Fits w) :=
  decidable_of_iff
    (p.offset < w.limit ∧ p.data.length < w.limit ∧ p.memorySize < w.limit ∧ p.address < w.limit)
    ⟨fun ⟨ho, hf, hm, ha⟩ => ⟨ho, hf, hm, ha⟩, fun ⟨ho, hf, hm, ha⟩ => ⟨ho, hf, hm, ha⟩⟩

/-- A program header that says of a part what it was built from. -/
structure Part.ShownBy (p : Part) (h : ProgramHeader) : Prop where
  kind : h.kind = p.kind
  flags : h.flags = .readExec
  offset : h.offset.toNat = p.offset
  virtualAddress : h.virtualAddress.toNat = p.address
  physicalAddress : h.physicalAddress.toNat = p.address
  fileSize : h.fileSize.toNat = p.data.length
  memorySize : h.memorySize.toNat = p.memorySize
  align : h.align.toNat = pageSize

theorem toNat_toUInt64_ofNat {n : Nat} (h : n < Width.bits32.limit) :
    (UInt32.ofNat n).toUInt64.toNat = n := by
  rw [UInt32.toNat_toUInt64]
  exact Word.toNat_ofNat (α := UInt32) h

/-- The entry of a part is read back, whatever follows it. -/
theorem Part.Fits.exists_decode {p : Part} {w : Width} (h : p.Fits w) (rest : List UInt8) :
    ∃ header, ProgramHeader.decode? w (p.entry w ++ rest) = some header ∧ p.ShownBy header := by
  obtain ⟨hoffset, hfile, hmemory, haddress⟩ := h
  cases w with
  | bits32 =>
    refine ⟨.ofRaw32 p.header32, ?_, rfl, rfl, ?_, ?_, ?_, ?_, ?_, rfl⟩
    · unfold ProgramHeader.decode? entry
      dsimp only
      rw [RawProgramHeader.decode32?_encode32_append, Option.map_some]
    · exact toNat_toUInt64_ofNat hoffset
    · exact toNat_toUInt64_ofNat haddress
    · exact toNat_toUInt64_ofNat haddress
    · exact toNat_toUInt64_ofNat hfile
    · exact toNat_toUInt64_ofNat hmemory
  | bits64 =>
    refine ⟨.ofRaw64 p.header64, ?_, rfl, rfl, ?_, ?_, ?_, ?_, ?_, rfl⟩
    · unfold ProgramHeader.decode? entry
      dsimp only
      rw [RawProgramHeader.decode64?_encode64_append, Option.map_some]
    · exact Word.toNat_ofNat (α := UInt64) hoffset
    · exact Word.toNat_ofNat (α := UInt64) haddress
    · exact Word.toNat_ofNat (α := UInt64) haddress
    · exact Word.toNat_ofNat (α := UInt64) hfile
    · exact Word.toNat_ofNat (α := UInt64) hmemory

theorem Part.ShownBy.unique {p : Part} {header header' : ProgramHeader} (h : p.ShownBy header)
    (h' : p.ShownBy header') : header' = header := by
  obtain ⟨kind, flags, offset, vaddr, paddr, filesz, memsz, align⟩ := header
  obtain ⟨kind', flags', offset', vaddr', paddr', filesz', memsz', align'⟩ := header'
  obtain rfl : kind' = kind := h'.kind.trans h.kind.symm
  obtain rfl : flags' = flags := h'.flags.trans h.flags.symm
  obtain rfl : offset' = offset := UInt64.toNat_inj.1 (h'.offset.trans h.offset.symm)
  obtain rfl : vaddr' = vaddr := UInt64.toNat_inj.1 (h'.virtualAddress.trans h.virtualAddress.symm)
  obtain rfl : paddr' = paddr :=
    UInt64.toNat_inj.1 (h'.physicalAddress.trans h.physicalAddress.symm)
  obtain rfl : filesz' = filesz := UInt64.toNat_inj.1 (h'.fileSize.trans h.fileSize.symm)
  obtain rfl : memsz' = memsz := UInt64.toNat_inj.1 (h'.memorySize.trans h.memorySize.symm)
  obtain rfl : align' = align := UInt64.toNat_inj.1 (h'.align.trans h.align.symm)
  rfl

/-! ## Tables -/

theorem Table.get?_eq_none {t : Table} {i : Nat} (h : t.count ≤ i) : t.get? i = none :=
  if_neg (Nat.not_lt.2 h)

/-- A table whose entries are those of some parts, in order. -/
structure Table.Shows (t : Table) (parts : List Part) : Prop where
  count_eq : t.count = parts.length
  get : ∀ i p, parts[i]? = some p → ∃ header, t.get? i = some header ∧ p.ShownBy header

theorem Table.shows_empty (w : Width) : (empty w).Shows [] := by
  refine ⟨rfl, ?_⟩
  intro i p hp
  cases hp

namespace Table.Shows

variable {t t' : Table} {parts : List Part}

theorem get?_eq (h : t.Shows parts) (h' : t'.Shows parts) (i : Nat) : t'.get? i = t.get? i := by
  have hcount := h.count_eq
  have hcount' := h'.count_eq
  by_cases hi : i < parts.length
  · obtain ⟨header, hget, hshown⟩ := h.get i _ (List.getElem?_eq_getElem hi)
    obtain ⟨header', hget', hshown'⟩ := h'.get i _ (List.getElem?_eq_getElem hi)
    rw [hget, hget', hshown.unique hshown']
  · rw [Table.get?_eq_none (by omega), Table.get?_eq_none (by omega)]

/-- Tables of the same parts have the same plan, whatever their widths. -/
theorem ofTable_eq (h : t.Shows parts) (h' : t'.Shows parts) :
    Plan.ofTable t' = Plan.ofTable t :=
  Plan.ofTable_congr (h'.count_eq.trans h.count_eq.symm) (h.get?_eq h')

/-- The segments of a table take their bytes from the data of its parts. -/
theorem exists_part (h : t.Shows parts) {s : Segment} (hs : s ∈ t.segments) :
    ∃ p ∈ parts, s.fileOffset = p.offset ∧ s.fileSize = p.data.length := by
  rw [Table.segments_eq, Table.entries_zipIdx] at hs
  obtain ⟨⟨header, i⟩, hmem, rfl⟩ := List.mem_map.1 hs
  obtain ⟨_, hi, hentry⟩ := List.mem_filterMap.1 (List.mem_filter.1 hmem).1
  obtain ⟨_, hget, heq⟩ := Option.map_eq_some_iff.1 hentry
  cases heq
  have hlt : i < parts.length := by
    rw [← h.count_eq]
    exact List.mem_range.1 hi
  obtain ⟨_, hget', hshown⟩ := h.get i _ (List.getElem?_eq_getElem hlt)
  cases hget.symm.trans hget'
  exact ⟨parts[i], List.getElem_mem hlt, hshown.offset, hshown.fileSize⟩

end Table.Shows

/-! ## Images -/

theorem FileHeader.decode?_encode32 (h : RawFileHeader UInt32) :
    decode? .bits32 h.encode = some (.ofRaw .bits32 (h.map UInt32.toUInt64)) := by
  have hdecode := RawFileHeader.decode?_encode_append h []
  rw [List.append_nil] at hdecode
  unfold decode? RawFileHeader.decodeWide?
  dsimp only
  rw [hdecode, Option.map_some, Option.map_some]

theorem FileHeader.decode?_encode64 (h : RawFileHeader UInt64) :
    decode? .bits64 h.encode = some (.ofRaw .bits64 h) := by
  have hdecode := RawFileHeader.decode?_encode_append h []
  rw [List.append_nil] at hdecode
  unfold decode? RawFileHeader.decodeWide?
  dsimp only
  rw [hdecode, Option.map_some, Option.map_some]

namespace Builder

/-- What an image is built from can be read back: every number fits its field, the table is no
larger than tables may be, and no data is written over it. -/
structure WellFormed (b : Builder) : Prop where
  entry : b.entry < b.width.limit
  parts : ∀ p ∈ b.parts, p.Fits b.width
  entrySize : b.width.entrySize ≤ b.entrySize.toNat
  table : b.parts.length * b.stride ≤ maxTableSize
  apart : b.DataApart

instance (b : Builder) : Decidable b.WellFormed :=
  decidable_of_iff
    (b.entry < b.width.limit ∧ (∀ p ∈ b.parts, p.Fits b.width) ∧
      b.width.entrySize ≤ b.entrySize.toNat ∧ b.parts.length * b.stride ≤ maxTableSize ∧
      b.DataApart)
    ⟨fun ⟨he, hp, hs, ht, ha⟩ => ⟨he, hp, hs, ht, ha⟩,
      fun ⟨he, hp, hs, ht, ha⟩ => ⟨he, hp, hs, ht, ha⟩⟩

/-- A file header that says of an image what it was built from. -/
structure ShownBy (b : Builder) (h : FileHeader) : Prop where
  entry : h.entry.toNat = b.entry
  phoff : b.parts ≠ [] → h.phoff.toNat = b.width.headerSize
  phentsize : h.phentsize.toNat = b.stride
  phnum : h.phnum.toNat = b.parts.length

variable {b : Builder}

theorem validate_identity (w : Width) : (identity w).validate = .ok w := by cases w <;> rfl

namespace WellFormed

theorem stride_eq (h : b.WellFormed) : b.stride = b.entrySize.toNat := Nat.max_eq_right h.entrySize

theorem length_parts (h : b.WellFormed) : b.parts.length < 0x10000 := by
  have hstride := b.entrySize_le_stride
  have hsize : 32 ≤ b.width.entrySize := by cases b.width <;> decide
  have hle : b.parts.length * 32 ≤ b.parts.length * b.stride :=
    Nat.mul_le_mul_left _ (Nat.le_trans hsize hstride)
  have htable := h.table
  unfold maxTableSize at htable
  omega

/-- The identity block of an image, which names its width. -/
theorem ofBytes?_take (h : b.WellFormed) :
    Identity.ofBytes? (b.build.take identitySize) = some (identity b.width) := by
  obtain ⟨fields, hfields⟩ := b.exists_header_eq
  obtain ⟨rest, hbuild⟩ := h.apart.exists_build_eq
  have htake : b.build.take identitySize = (identity b.width).bytes := by
    rw [hbuild, front, hfields, List.append_assoc, List.append_assoc,
      ← (identity b.width).length_eq, List.take_left]
  rw [htake]
  exact dif_pos (identity b.width).length_eq

theorem take_headerSize (h : b.WellFormed) : b.build.take b.width.headerSize = b.header := by
  obtain ⟨rest, hbuild⟩ := h.apart.exists_build_eq
  rw [hbuild, front, List.append_assoc, ← b.length_header, List.take_left]

/-- The header of an image is read back. -/
theorem exists_decode (h : b.WellFormed) :
    ∃ header, FileHeader.decode? b.width b.header = some header ∧ b.ShownBy header := by
  have hcount : (UInt16.ofNat b.parts.length).toNat = b.parts.length :=
    Word.toNat_ofNat (α := UInt16) h.length_parts
  have hentry := h.entry
  have hstride := h.stride_eq.symm
  obtain ⟨w, entry, phentsize, parts⟩ := b
  cases w with
  | bits32 =>
    refine ⟨_, FileHeader.decode?_encode32 _, ?_, fun hparts => ?_, hstride, hcount⟩
    · exact toNat_toUInt64_ofNat hentry
    · cases parts with
      | nil => exact absurd rfl hparts
      | cons p rest => rfl
  | bits64 =>
    refine ⟨_, FileHeader.decode?_encode64 _, ?_, fun hparts => ?_, hstride, hcount⟩
    · exact Word.toNat_ofNat (α := UInt64) hentry
    · cases parts with
      | nil => exact absurd rfl hparts
      | cons p rest => rfl

/-- The bytes of the table are read back as the table of the parts. -/
theorem exists_ofBlob (h : b.WellFormed) :
    ∃ table, Table.ofBlob? b.width b.stride
        ((b.build.drop b.width.headerSize).take (b.parts.length * b.stride)) = some table ∧
      table.Shows b.parts := by
  obtain ⟨rest, hbuild⟩ := h.apart.exists_build_eq
  have hblob : (b.build.drop b.width.headerSize).take (b.parts.length * b.stride) =
      b.parts.flatMap b.cell := by
    rw [hbuild, front, List.append_assoc, ← b.length_header, List.drop_left, ← b.length_cells,
      List.take_left]
  rw [hblob, Table.ofBlob?_eq b.entrySize_le_stride (b.length_cells b.parts)]
  refine ⟨_, rfl, rfl, ?_⟩
  intro i p hp
  have hlt : i < b.parts.length := (List.getElem?_eq_some_iff.1 hp).1
  have hmem : p ∈ b.parts := List.mem_of_getElem? hp
  obtain ⟨header, hdecode, hshown⟩ := (h.parts p hmem).exists_decode
    (List.replicate (b.stride - b.width.entrySize) 0)
  refine ⟨header, ?_, hshown⟩
  unfold Table.get? Table.chunk
  dsimp only
  rw [if_pos hlt, take_drop_rows b.length_cell hp]
  exact hdecode

end WellFormed

end Builder

end ElfBoot
