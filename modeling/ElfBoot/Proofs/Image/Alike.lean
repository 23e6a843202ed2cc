import Mathlib.Data.List.Basic
import ElfBoot.Proofs.Load.Refusal

/-!
# Images that a load cannot tell apart

A load depends on few parts of an image: the first six bytes, four fields of the file header, five
fields of each program header that is to be placed, and the bytes that such a header names.

* `Image.segment?` — what a load depends on in one entry of the program header table.
* `Image.Alike` — two images that agree on all of these parts.
* `Image.Alike.loadable_eq`, `Image.Alike.bytes_eq` — such images have the same segments with the
  same bytes.
* `Identity.validate_eq` — the identity block is judged by its first six bytes.
-/

set_option autoImplicit false

namespace ElfBoot

theorem getD_take {l : List UInt8} {i n : Nat} (h : i < n) : (l.take n).getD i 0 = l.getD i 0 := by
  rw [List.getD_eq_getElem?_getD, List.getD_eq_getElem?_getD, List.getElem?_take_of_lt h]

namespace Image

/-- The entry at a position of the program header table as a segment, if it is to be placed. -/
def segment? (bs : List UInt8) (i : Nat) : Option Segment :=
  let entry := bs.drop (phoff bs + i * phentsize bs)
  if Field.kind.read entry = 1 then some (Segment.ofBytes (width bs) i entry) else none

/-- Two images of equal length that agree on what a load depends on. -/
structure Alike (bs bs' : List UInt8) : Prop where
  length_eq : bs'.length = bs.length
  ident_eq : bs'.take 6 = bs.take 6
  entry_eq : entry bs' = entry bs
  phoff_eq : phoff bs' = phoff bs
  phentsize_eq : phentsize bs' = phentsize bs
  phnum_eq : phnum bs' = phnum bs
  segment_eq : ∀ i < phnum bs, segment? bs' i = segment? bs i
  byte_eq : ∀ s ∈ loadable bs, ∀ j < s.fileSize, bs'[s.fileOffset + j]? = bs[s.fileOffset + j]?

variable {bs bs' : List UInt8}

theorem alike_refl (bs : List UInt8) : Alike bs bs :=
  ⟨rfl, rfl, rfl, rfl, rfl, rfl, fun _ _ => rfl, fun _ _ _ _ => rfl⟩

/-- The loadable segments are those of the entries, one after another. -/
theorem loadable_eq_filterMap (bs : List UInt8) :
    loadable bs = (List.range (phnum bs)).filterMap (segment? bs) := by
  unfold loadable loadableIn
  induction List.range (phnum bs) with
  | nil => rfl
  | cons i rest ih =>
    rw [List.filterMap_cons, List.filter_cons, List.drop_drop]
    by_cases hkind : Field.kind.read (bs.drop (phoff bs + i * phentsize bs)) = 1
    · have hsome : segment? bs i =
          some (Segment.ofBytes (width bs) i (bs.drop (phoff bs + i * phentsize bs))) :=
        if_pos hkind
      rw [if_pos (decide_eq_true hkind), hsome, List.map_cons, ih, List.drop_drop]
    · have hnone : segment? bs i = none := if_neg hkind
      rw [if_neg (by simpa using hkind), hnone, ih]

namespace Alike

theorem width_eq (h : Alike bs bs') : width bs' = width bs := by
  have hfour : (4 : Nat) < 6 := by omega
  unfold width
  rw [← getD_take (l := bs') hfour, ← getD_take (l := bs) hfour, h.ident_eq]

theorem loadable_eq (h : Alike bs bs') : loadable bs' = loadable bs := by
  rw [loadable_eq_filterMap, loadable_eq_filterMap, h.phnum_eq]
  refine List.filterMap_congr fun i hi => ?_
  exact h.segment_eq i (List.mem_range.1 hi)

/-- Equal segments take equal bytes from the two images. -/
theorem bytes_eq (h : Alike bs bs') {s : Segment} (hs : s ∈ loadable bs) :
    (bs'.drop s.fileOffset).take s.fileSize = (bs.drop s.fileOffset).take s.fileSize := by
  apply List.ext_getElem?
  intro j
  rw [List.getElem?_take, List.getElem?_take]
  by_cases hj : j < s.fileSize
  · rw [if_pos hj, if_pos hj, List.getElem?_drop, List.getElem?_drop]
    exact h.byte_eq s hs j hj
  · rw [if_neg hj, if_neg hj]

end Alike

end Image

/-- The identity block is judged by its first six bytes. -/
theorem Identity.validate_eq {ident ident' : Identity}
    (h : ident'.bytes.take 6 = ident.bytes.take 6) : ident'.validate = ident.validate := by
  have hbyte : ∀ i < 6, ident'.byteAt i = ident.byteAt i := by
    intro i hi
    unfold byteAt
    rw [← getD_take (l := ident'.bytes) hi, ← getD_take (l := ident.bytes) hi, h]
  have hmagic : ident'.magic = ident.magic := by
    have hfour := congrArg (List.take 4) h
    rw [List.take_take, List.take_take] at hfour
    exact hfour
  have hwidth : ident'.width = ident.width := hbyte 4 (by omega)
  have hencoding : ident'.encoding = ident.encoding := hbyte 5 (by omega)
  unfold validate
  rw [hmagic, hwidth, hencoding]

end ElfBoot
