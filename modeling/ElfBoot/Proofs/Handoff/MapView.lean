import ElfBoot.Handoff.MapView
import ElfBoot.Proofs.Bytes.Rows
import ElfBoot.Proofs.Image.Fields
import ElfBoot.Proofs.Load.Checked

/-!
# Memory maps of any stride

A producer lays the fields of a region out at the start of each element and fills the rest of the
element as it likes; what is left at the end of the map is too short for an element.  The view reads
off exactly the regions laid out, whatever the stride, the filler and the bytes at the end.

* `Region.basePlace`, `Region.pageCountPlace`, `Region.kindPlace` — where the fields stand.
* `MapView.Element`, `MapView.layout` — one element, and a map of them.
* `MapView.lookup?`, `MapView.lookup?_eq` — looking up an element with every slice and product
  checked, and that none of them is ever out of range.
* `MapView.size_layout`, `MapView.get?_layout`, `MapView.regions_layout` — what a view finds in a
  layout; `MapView.ofBlob?_layout` — the view as a whole.
-/

set_option autoImplicit false

namespace ElfBoot.Handoff

/-! ## Fields of a region -/

namespace Region

def basePlace : Field := ⟨0, 8⟩

def pageCountPlace : Field := ⟨8, 8⟩

def kindPlace : Field := ⟨16, 4⟩

/-- The region with the given fields; an unknown type stands for unavailable memory. -/
def ofFields (base pageCount : UInt64) (kind : UInt32) : Region :=
  ⟨base, pageCount, (MemoryType.ofRaw? kind).getD .unavailable⟩

variable (base pageCount : UInt64) (kind : UInt32) {rest : List UInt8}

theorem decode?_fields (h : 4 ≤ rest.length) :
    decode? (Word.encode base ++ (Word.encode pageCount ++ (Word.encode kind ++ rest))) =
      some (ofFields base pageCount kind) := by
  have hsome : (splitExactly? 4 rest).isSome := splitExactly?_isSome_iff.2 h
  obtain ⟨padding, hpadding⟩ := Option.isSome_iff_exists.1 hsome
  simp only [decode?, ↓Word.read?_encode_append, hpadding]
  rfl

/-- Of the bytes behind the fields, only the first four belong to the layout of a region. -/
theorem decode?_take_fields (h : 4 ≤ rest.length) :
    decode? ((Word.encode base ++ (Word.encode pageCount ++
      (Word.encode kind ++ rest))).take layoutSize) = some (ofFields base pageCount kind) := by
  have hbase : (Word.encode base).length = 8 := Word.length_encode base
  have hcount : (Word.encode pageCount).length = 8 := Word.length_encode pageCount
  have hkind : (Word.encode kind).length = 4 := Word.length_encode kind
  have htake : (Word.encode base ++ (Word.encode pageCount ++
      (Word.encode kind ++ rest))).take layoutSize =
        Word.encode base ++ (Word.encode pageCount ++ (Word.encode kind ++ rest.take 4)) := by
    simp [layoutSize, List.take_append, hbase, hcount, hkind, List.take_of_length_le]
  rw [htake]
  refine decode?_fields base pageCount kind ?_
  rw [List.length_take]
  omega

/-- A byte list with room for a region starts with its fields. -/
theorem exists_fields {bs : List UInt8} (h : layoutSize ≤ bs.length) :
    ∃ (base pageCount : UInt64) (kind : UInt32) (rest : List UInt8), 4 ≤ rest.length ∧
      bs = Word.encode base ++ (Word.encode pageCount ++ (Word.encode kind ++ rest)) := by
  obtain ⟨base, behindBase, rfl, hcount⟩ := Word.exists_encode_append UInt64 bs 16 h
  obtain ⟨pageCount, behindCount, rfl, hkind⟩ :=
    Word.exists_encode_append UInt64 behindBase 8 hcount
  obtain ⟨kind, rest, rfl, hrest⟩ := Word.exists_encode_append UInt32 behindCount 4 hkind
  exact ⟨base, pageCount, kind, rest, hrest, rfl⟩

end Region

namespace MapView

/-! ## Looking up with every operation checked -/

section Lookup

/-- The word at a place of an entry; `none` if the entry ends before the place, or within it. -/
def word? (α : Type) [Word α] (place : Field) (entry : List UInt8) : Option α := do
  let rest ← slice? entry place.offset entry.length
  (Word.decode? rest).map Prod.fst

/-- The region whose fields stand at their places in an entry. -/
def fields? (entry : List UInt8) : Option Region := do
  let base ← word? UInt64 Region.basePlace entry
  let pageCount ← word? UInt64 Region.pageCountPlace entry
  let kind ← word? UInt32 Region.kindPlace entry
  return .ofFields base pageCount kind

/-- The region at position `i`, or that there is none; no result if a slice reaches past its bytes
or a product is no word. -/
def lookup? (v : MapView) (i : Nat) : Option (Option Region) := do
  let size ← Address.div? v.blob.length (max v.stride 1)
  if i < size then
    let start ← Address.mul? i v.stride
    let rest ← slice? v.blob start v.blob.length
    let entry ← slice? rest 0 Region.layoutSize
    let region ← fields? entry
    return some region
  else return none

theorem word?_append {α : Type} [Word α] (place : Field) {front : List UInt8}
    (h : front.length = place.offset) (a : α) (rest : List UInt8) :
    word? α place (front ++ (Word.encode a ++ rest)) = some a := by
  rw [word?, ← h, slice?_append, Option.bind_eq_bind, Option.bind_some,
    Word.decode?_encode_append]
  rfl

/-- An entry with room for a region has all its fields, and they are those decoded one after
another. -/
theorem exists_fields?_eq {bs : List UInt8} (h : Region.layoutSize ≤ bs.length) :
    ∃ r, fields? bs = some r ∧ Region.decode? bs = some r := by
  obtain ⟨base, pageCount, kind, rest, hpadding, rfl⟩ := Region.exists_fields h
  refine ⟨.ofFields base pageCount kind, ?_, Region.decode?_fields _ _ _ hpadding⟩
  have hnil : ([] : List UInt8).length = 0 := rfl
  have hlength : (Word.encode base ++ Word.encode pageCount).length = 16 := by
    rw [List.length_append, Word.length_encode, Word.length_encode]
    rfl
  have hbase := word?_append Region.basePlace hnil base
    (Word.encode pageCount ++ (Word.encode kind ++ rest))
  have hcount := word?_append Region.pageCountPlace (Word.length_encode base) pageCount
    (Word.encode kind ++ rest)
  have hkind := word?_append Region.kindPlace hlength kind rest
  rw [List.nil_append] at hbase
  rw [List.append_assoc] at hkind
  rw [fields?, hbase, hcount, hkind]
  rfl

/-- **Looking up an element** never leaves the bytes of the map, and finds what `get?` gives. -/
theorem lookup?_eq {v : MapView} (hstride : Region.layoutSize ≤ v.stride)
    (hword : v.blob.length < wordLimit) (i : Nat) : v.lookup? i = some (v.get? i) := by
  have hpos : 0 < v.stride := Nat.lt_of_lt_of_le (by decide) hstride
  have hmax : max v.stride 1 = v.stride := Nat.max_eq_left hpos
  have hdiv : Address.div? v.blob.length (max v.stride 1) = some v.size := if_neg (by omega)
  rw [lookup?, hdiv, Option.bind_eq_bind, Option.bind_some, get?]
  by_cases hi : i < v.size
  · rw [if_pos hi, if_pos hi]
    -- the whole element lies in the bytes of the map
    have hend : i * v.stride + v.stride ≤ v.blob.length := by
      rw [size, hmax] at hi
      rw [← Nat.succ_mul]
      exact (Nat.le_div_iff_mul_le hpos).1 hi
    have hstart : Address.mul? i v.stride = some (i * v.stride) :=
      Address.mul?_eq_some_iff.2 ⟨by omega, rfl⟩
    have hrest : slice? v.blob (i * v.stride) v.blob.length =
        some (v.blob.drop (i * v.stride)) := by
      rw [slice?_eq (by omega) (Nat.le_refl _), ← List.length_drop, List.take_length]
    have hroom : Region.layoutSize ≤ (v.blob.drop (i * v.stride)).length := by
      rw [List.length_drop]
      omega
    have hentry := slice?_eq (Nat.zero_le _) hroom
    rw [List.drop_zero, Nat.sub_zero] at hentry
    have hlength := Nat.le_of_eq (List.length_take_of_le hroom).symm
    obtain ⟨r, hread, hdecode⟩ := exists_fields?_eq hlength
    simp only [hstart, hrest, hentry, hread, hdecode, Option.bind_eq_bind, Option.bind_some]
    rfl
  · rw [if_neg hi, if_neg hi]
    rfl

end Lookup

/-! ## Layouts -/

/-- An element of a map: the fields of a region, its type by number, and filler up to the stride. -/
structure Element (stride : Nat) where
  base : UInt64
  pageCount : UInt64
  kind : UInt32
  filler : List UInt8
  length_eq : 20 + filler.length = stride

namespace Element

variable {stride : Nat}

/-- The numbers of an element, each with its place. -/
def fields (e : Element stride) : List (Field × Nat) :=
  [(Region.basePlace, e.base.toNat), (Region.pageCountPlace, e.pageCount.toNat),
    (Region.kindPlace, e.kind.toNat)]

/-- The fields at their places, lowest byte first, and the filler. -/
def bytes (e : Element stride) : List UInt8 := Field.lay e.fields ++ e.filler

/-- The region that an element stands for. -/
def region (e : Element stride) : Region := .ofFields e.base e.pageCount e.kind

theorem bytes_eq (e : Element stride) :
    e.bytes =
      Word.encode e.base ++ (Word.encode e.pageCount ++ (Word.encode e.kind ++ e.filler)) := by
  simp only [bytes, fields, Field.lay, List.flatMap_cons, List.flatMap_nil, List.append_nil,
    List.append_assoc]
  rfl

theorem length_bytes (e : Element stride) : e.bytes.length = stride := by
  have hlay : (Field.lay e.fields).length = 20 := Field.length_lay ⟨rfl, rfl, rfl, rfl⟩
  rw [bytes, List.length_append, hlay, e.length_eq]

end Element

section Layout

variable {stride : Nat} {tail : List UInt8}

/-- Elements one after another. -/
def layout (elements : List (Element stride)) : List UInt8 := elements.flatMap Element.bytes

theorem length_layout (elements : List (Element stride)) :
    (layout elements).length = elements.length * stride := length_rows Element.length_bytes elements

/-- From the start of an element on, a layout is that of the elements from there on. -/
theorem drop_layout (elements : List (Element stride)) (tail : List UInt8) {i : Nat}
    (hi : i ≤ elements.length) :
    (layout elements ++ tail).drop (i * stride) = layout (elements.drop i) ++ tail := by
  have hle : i * stride ≤ (layout elements).length := by
    rw [length_layout]
    exact Nat.mul_le_mul_right stride hi
  rw [List.drop_append_of_le_length hle, layout, drop_rows Element.length_bytes hi, layout]

/-- Bytes at the end that make no element do not count. -/
theorem size_layout (elements : List (Element stride)) (htail : tail.length < stride) :
    (mk (layout elements ++ tail) stride).size = elements.length := by
  have hpos : 0 < stride := Nat.zero_lt_of_lt htail
  show (layout elements ++ tail).length / max stride 1 = elements.length
  rw [Nat.max_eq_left hpos, List.length_append, length_layout, Nat.add_comm,
    Nat.add_mul_div_right _ _ hpos, Nat.div_eq_of_lt htail, Nat.zero_add]

theorem get?_layout (hstride : Region.layoutSize ≤ stride) (elements : List (Element stride))
    (htail : tail.length < stride) (i : Nat) :
    (mk (layout elements ++ tail) stride).get? i = (elements.map Element.region)[i]? := by
  rw [get?, size_layout elements htail, List.getElem?_map]
  by_cases hi : i < elements.length
  · have hfiller : 4 ≤ elements[i].filler.length := by
      have hlength := elements[i].length_eq
      unfold Region.layoutSize at hstride
      omega
    rw [if_pos hi, drop_layout elements tail (Nat.le_of_lt hi), List.drop_eq_getElem_cons hi,
      List.getElem?_eq_getElem hi, layout, List.flatMap_cons, Element.bytes_eq]
    simp only [List.append_assoc]
    exact Region.decode?_take_fields _ _ _ (by rw [List.length_append]; omega)
  · rw [if_neg hi, List.getElem?_eq_none (Nat.le_of_not_lt hi)]
    rfl

/-- A view that finds the regions of a list at their positions lists them in order. -/
theorem regions_eq {v : MapView} {regions : List Region} (hsize : v.size = regions.length)
    (hget : ∀ i, v.get? i = regions[i]?) : v.regions = regions := by
  have hmap : (List.range v.size).map v.get? = regions.map some := by
    refine List.ext_getElem (by simp [hsize]) fun i hi hi' => ?_
    rw [List.getElem_map, List.getElem_map, List.getElem_range, hget, List.getElem?_eq_getElem]
  calc v.regions = ((List.range v.size).map v.get?).filterMap id := by
        rw [List.filterMap_map]
        rfl
    _ = (regions.map some).filterMap id := by rw [hmap]
    _ = regions := by simp [List.filterMap_map]

theorem regions_layout (hstride : Region.layoutSize ≤ stride) (elements : List (Element stride))
    (htail : tail.length < stride) :
    (mk (layout elements ++ tail) stride).regions = elements.map Element.region := by
  refine regions_eq ?_ (get?_layout hstride elements htail)
  rw [size_layout elements htail, List.length_map]

/-- What a view makes of a map in which the given regions are laid out. -/
structure Shows (v : MapView) (regions : List Region) : Prop where
  size_eq : v.size = regions.length
  regions_eq : v.regions = regions
  get?_eq : ∀ i, v.get? i = v.regions[i]?
  get?_eq_none_iff : ∀ i, v.get? i = none ↔ v.size ≤ i
  /-- Every lookup stays within the map, as long as a word can count its bytes. -/
  lookup?_eq : v.blob.length < wordLimit → ∀ i, v.lookup? i = some (v.get? i)

/-- **The view of a layout**: whatever the stride, as long as there is room for a region, whatever
the elements are filled up with and whatever bytes are left at the end, the view shows the regions
that were laid out. -/
theorem ofBlob?_layout (hstride : Region.layoutSize ≤ stride) (elements : List (Element stride))
    (htail : tail.length < stride) :
    ∃ v, ofBlob? (layout elements ++ tail) stride = some v ∧
      v.Shows (elements.map Element.region) := by
  have hsize := size_layout elements htail
  have hget := get?_layout hstride elements htail
  have hregions := regions_layout hstride elements htail
  refine ⟨⟨layout elements ++ tail, stride⟩, if_pos hstride, ?_⟩
  constructor
  case size_eq => rw [hsize, List.length_map]
  case regions_eq => exact hregions
  case get?_eq =>
    intro i
    rw [hregions, hget]
  case get?_eq_none_iff =>
    intro i
    rw [hget, hsize, List.getElem?_eq_none_iff, List.length_map]
  case lookup?_eq => exact MapView.lookup?_eq hstride

/-- Elements of 40 bytes, of which the last one has a type that nobody knows. -/
def wideElements : List (Element 40) :=
  [⟨0x1000, 1, 6, List.replicate 20 0xCC, rfl⟩, ⟨0x2000, 2, 3, List.replicate 20 0xCC, rfl⟩,
    ⟨0x8000, 4, 99, List.replicate 20 0xCC, rfl⟩]

theorem ofBlob?_layout_wide :
    ∃ v, ofBlob? (layout wideElements ++ [0xCC, 0xCC, 0xCC]) 40 = some v ∧
      v.Shows [⟨0x1000, 1, .loaderData⟩, ⟨0x2000, 2, .mmio⟩, ⟨0x8000, 4, .unavailable⟩] :=
  ofBlob?_layout (by decide) wideElements (by decide)

end Layout

end MapView

end ElfBoot.Handoff
