import ElfBoot.Proofs.Image.Fields
import ElfBoot.Load.Plan

/-!
# What the bytes of an image say

The header fields of an image and its loadable segments, read by position from the bytes alone.
A byte string that is no image has such a reading too; what a load makes of it is another matter.

* `Segment.ofBytes`, `loadableIn` — the segment of one table entry, and those of a whole table.
* `Image.entry`, `Image.phnum` and the others — the header fields of an image.
* `Image.loadable` — its loadable segments.
* `Table.loadable_eq` — a decoded table asks for exactly the segments that stand in its bytes.
* `Plan.ofTable_congr`, `Load.makePlan_congr` — a plan depends on the entries of its table.
-/

set_option autoImplicit false

namespace ElfBoot

/-- The segment that the program header at the front of a byte list describes. -/
def Segment.ofBytes (w : Width) (index : Nat) (bs : List UInt8) : Segment where
  index := index
  fileOffset := (Field.fileOffset w).read bs
  fileSize := (Field.fileSize w).read bs
  memorySize := (Field.memorySize w).read bs
  address := (Field.physicalAddress w).read bs

/-- The loadable segments of a program header table that starts at the front of a byte list. -/
def loadableIn (w : Width) (stride count : Nat) (bs : List UInt8) : List Segment :=
  ((List.range count).filter fun i => Field.kind.read (bs.drop (i * stride)) = 1).map fun i =>
    Segment.ofBytes w i (bs.drop (i * stride))

namespace Image

variable (bs : List UInt8)

/-- The width byte 4 names; an image whose byte 4 names none is read as a 64-bit one. -/
def width : Width := (Width.ofIdent (bs.getD 4 0)).getD .bits64

def entry : Nat := (Field.entry (width bs)).read bs
def phoff : Nat := (Field.phoff (width bs)).read bs
def phentsize : Nat := (Field.phentsize (width bs)).read bs
def phnum : Nat := (Field.phnum (width bs)).read bs

/-- Bytes in the program header table. -/
def tableSize : Nat := phentsize bs * phnum bs

/-- The segments of the `PT_LOAD` entries of the program header table, in table order. -/
def loadable : List Segment :=
  loadableIn (width bs) (phentsize bs) (phnum bs) (bs.drop (phoff bs))

end Image

/-! ## Entries of a decoded table -/

/-- The fields of a program header stand in the first `entrySize` bytes. -/
theorem Segment.ofBytes_take {w : Width} {index n : Nat} {bs : List UInt8}
    (h : w.entrySize ≤ n) : ofBytes w index (bs.take n) = ofBytes w index bs := by
  have hends : ∀ f ∈ [Field.fileOffset w, Field.fileSize w, Field.memorySize w,
      Field.physicalAddress w], f.offset + f.size ≤ w.entrySize := by
    cases w <;> decide
  have hread : ∀ f ∈ [Field.fileOffset w, Field.fileSize w, Field.memorySize w,
      Field.physicalAddress w], f.read (bs.take n) = f.read bs :=
    fun f hf => Field.read_take (Nat.le_trans (hends f hf) h)
  simp only [List.forall_mem_cons, List.not_mem_nil, false_implies, implies_true, and_true] at hread
  obtain ⟨hoffset, hfile, hmemory, haddress⟩ := hread
  rw [ofBytes, ofBytes, hoffset, hfile, hmemory, haddress]

theorem Field.kind_read_take {w : Width} {n : Nat} {bs : List UInt8} (h : w.entrySize ≤ n) :
    Field.kind.read (bs.take n) = Field.kind.read bs := by
  refine Field.read_take ?_
  have hw : 4 ≤ w.entrySize := by cases w <;> decide
  simp only [Field.kind]
  omega

/-- A table depends only on its own bytes. -/
theorem loadableIn_take {w : Width} {stride count n : Nat} {bs : List UInt8}
    (hs : w.entrySize ≤ stride) (hn : count * stride ≤ n) :
    loadableIn w stride count (bs.take n) = loadableIn w stride count bs := by
  have hdrop : ∀ i < count, (bs.take n).drop (i * stride) =
      (bs.drop (i * stride)).take (n - i * stride) ∧ w.entrySize ≤ n - i * stride := by
    intro i hi
    have hle : (i + 1) * stride ≤ count * stride := Nat.mul_le_mul_right stride hi
    rw [Nat.add_mul, Nat.one_mul] at hle
    exact ⟨List.drop_take, by omega⟩
  have hkind : (List.range count).filter
        (fun i => Field.kind.read ((bs.take n).drop (i * stride)) = 1) =
      (List.range count).filter fun i => Field.kind.read (bs.drop (i * stride)) = 1 := by
    refine List.filter_congr fun i hi => ?_
    obtain ⟨heq, hle⟩ := hdrop i (List.mem_range.1 hi)
    rw [heq, Field.kind_read_take hle]
  rw [loadableIn, loadableIn, hkind]
  refine List.map_congr_left fun i hi => ?_
  obtain ⟨heq, hle⟩ := hdrop i (List.mem_range.1 (List.mem_filter.1 hi).1)
  rw [heq, Segment.ofBytes_take hle]

namespace Table

/-- Bytes that make up a whole number of entries are a table of so many. -/
theorem ofBlob?_eq {w : Width} {stride count : Nat} {blob : List UInt8}
    (hs : w.entrySize ≤ stride) (hlen : blob.length = count * stride) :
    ofBlob? w stride blob = some ⟨w, stride, count, blob, hs, hlen⟩ := by
  have hpos : 0 < stride := Nat.lt_of_lt_of_le w.entrySize_pos hs
  have hmod : blob.length % stride = 0 := by rw [hlen, Nat.mul_mod_left]
  have hdiv : blob.length / stride = count := by rw [hlen, Nat.mul_div_cancel _ hpos]
  unfold ofBlob?
  rw [dif_pos hs, dif_pos hmod]
  congr

/-- An accepted table keeps what it was made from. -/
theorem of_ofBlob? {w : Width} {stride : Nat} {blob : List UInt8} {t : Table}
    (h : ofBlob? w stride blob = some t) : t.width = w ∧ t.stride = stride ∧ t.blob = blob := by
  unfold ofBlob? at h
  by_cases hs : w.entrySize ≤ stride
  · by_cases hm : blob.length % stride = 0
    · rw [dif_pos hs, dif_pos hm] at h
      cases h
      exact ⟨rfl, rfl, rfl⟩
    · rw [dif_pos hs, dif_neg hm] at h
      cases h
  · rw [dif_neg hs] at h
    cases h

theorem length_chunk {t : Table} {i : Nat} (h : i < t.count) : (t.chunk i).length = t.stride := by
  have hle : (i + 1) * t.stride ≤ t.count * t.stride := Nat.mul_le_mul_right t.stride h
  rw [Nat.add_mul, Nat.one_mul] at hle
  rw [chunk, List.length_take, List.length_drop, t.length_eq]
  omega

/-- Every position before the end holds an entry, and it is the one that stands in the bytes. -/
theorem exists_get? {t : Table} {i : Nat} (h : i < t.count) :
    ∃ header, t.get? i = some header ∧
      (header.isLoad = true ↔ Field.kind.read (t.blob.drop (i * t.stride)) = 1) ∧
      Segment.ofFields i header = Segment.ofBytes t.width i (t.blob.drop (i * t.stride)) := by
  have hlen : t.width.entrySize ≤ (t.chunk i).length := by
    rw [length_chunk h]; exact t.entrySize_le
  obtain ⟨header, hd, hdesc⟩ := ProgramHeader.exists_decode hlen
  refine ⟨header, ?_, ?_, ?_⟩
  · rw [get?, if_pos h, hd]
  · rw [← Field.kind_read_take t.entrySize_le, ← chunk, ← hdesc.kind, ProgramHeader.isLoad,
      beq_iff_eq, ← UInt32.toNat_inj]
    rfl
  · rw [← Segment.ofBytes_take t.entrySize_le, ← chunk]
    simp only [Segment.ofFields, Segment.ofBytes, hdesc.offset, hdesc.fileSize, hdesc.memorySize,
      hdesc.physicalAddress]

/-- Walking from a cursor meets the entries from its position on, in order. -/
theorem walk_zipIdx (c : Cursor) :
    (c.walk.map (·.1)).zipIdx c.index =
      (List.range' c.index c.remaining).filterMap fun i =>
        (c.table.get? i).map fun header => (header, i) := by
  induction c using Cursor.walk.induct with
  | case1 c hn =>
    -- no next entry means that the position is past the last one
    have hrem : c.remaining = 0 := by
      by_cases hlt : c.index < c.table.count
      · obtain ⟨header, hg, -⟩ := exists_get? hlt
        simp [Cursor.next?, hg] at hn
      · rw [Cursor.remaining]; omega
    rw [Cursor.walk, hn, hrem]
    rfl
  | case2 c p hn ih =>
    have hrem := Cursor.remaining_of_next? hn
    rw [Cursor.walk, hn, hrem]
    obtain ⟨header, c'⟩ := p
    simp only [Cursor.next?, Option.map_eq_some_iff, Prod.mk.injEq] at hn
    obtain ⟨_, hg, rfl, rfl⟩ := hn
    simp only [List.map_cons, List.zipIdx_cons, List.range'_succ, List.filterMap_cons, hg,
      Option.map_some]
    rw [ih]

theorem entries_zipIdx (t : Table) :
    t.entries.zipIdx =
      (List.range t.count).filterMap fun i => (t.get? i).map fun header => (header, i) := by
  rw [List.range_eq_range']
  exact walk_zipIdx t.start

/-- **A decoded table asks for the segments that stand in its bytes**, in table order. -/
theorem loadable_eq (t : Table) :
    (Plan.loadable t).map (fun p => Segment.ofFields p.2 p.1) =
      loadableIn t.width t.stride t.count t.blob := by
  rw [Plan.loadable, entries_zipIdx, loadableIn]
  have hmem : ∀ i ∈ List.range t.count, i < t.count := fun i => List.mem_range.1
  generalize List.range t.count = positions at hmem
  induction positions with
  | nil => rfl
  | cons i rest ih =>
    obtain ⟨header, hg, hload, hseg⟩ := exists_get? (hmem i List.mem_cons_self)
    have ih := ih fun j hj => hmem j (List.mem_cons_of_mem i hj)
    simp only [List.filterMap_cons, hg, Option.map_some, List.filter_cons]
    by_cases hk : Field.kind.read (t.blob.drop (i * t.stride)) = 1
    · rw [if_pos (hload.2 hk), if_pos (decide_eq_true hk), List.map_cons, List.map_cons, ih, hseg]
    · rw [if_neg (fun hl => hk (hload.1 hl)), if_neg (by simpa using hk), ih]

/-- The segments that stand in the bytes of a table. -/
def segments (t : Table) : List Segment := loadableIn t.width t.stride t.count t.blob

theorem segments_eq (t : Table) :
    t.segments = (t.entries.zipIdx.filter fun p => p.1.isLoad).map fun p =>
      Segment.ofFields p.2 p.1 := (loadable_eq t).symm

theorem length_entries (t : Table) : t.entries.length = t.count := by
  have hall : ∀ i ∈ List.range t.count,
      ((t.get? i).map fun header => (header, i)).isSome = true := by
    intro i hi
    obtain ⟨header, hg, -⟩ := exists_get? (List.mem_range.1 hi)
    rw [hg]
    rfl
  have hlength := congrArg List.length (entries_zipIdx t)
  rw [List.length_zipIdx, List.length_filterMap_eq_countP, List.countP_eq_length.2 hall,
    List.length_range] at hlength
  exact hlength

end Table

/-! ## Plans -/

section Plans

variable {t t' : Table}

/-- A plan depends on the entries of a table, not on the bytes they stand in. -/
theorem Plan.ofTable_congr (hcount : t'.count = t.count) (hget : ∀ i, t'.get? i = t.get? i) :
    ofTable t' = ofTable t := by
  have hloadable : loadable t' = loadable t := by
    unfold loadable
    rw [Table.entries_zipIdx, Table.entries_zipIdx, hcount]
    simp only [hget]
  unfold ofTable Table.isEmpty
  rw [hcount, hloadable]

/-- So does what is reported while the plan is made. -/
theorem Load.makePlan_congr (hcount : t'.count = t.count) (hget : ∀ i, t'.get? i = t.get? i) :
    makePlan t' = makePlan t := by
  have hplan := Plan.ofTable_congr hcount hget
  unfold makePlan Plan.findings
  simp only [hplan, hget]

end Plans

end ElfBoot
