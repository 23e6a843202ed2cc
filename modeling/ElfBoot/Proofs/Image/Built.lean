import ElfBoot.Image.Builder
import ElfBoot.Proofs.Bytes.Rows

/-!
# What a built image holds

A built image starts with its file header and its program header table, entry by entry, as long as
the data of its parts stays behind them.  What it holds behind them is the data of the parts, at the
same place whatever stands in front.

* `overlay_append_add`, `overlay_append`, `getElem?_overlay_congr` — writing into a byte list.
* `Builder.front`, `Builder.build_eq` — header and table, to which the data is added.
* `Builder.DataApart.exists_build_eq`, `Builder.DataApart.take_drop_build` — the front of an image,
  and the data of one of its parts.
-/

set_option autoImplicit false

namespace ElfBoot

/-! ## Writing into a byte list -/

section Overlay

variable {bytes bytes' patch : List UInt8} {offset : Nat}

theorem overlay_nil (bytes : List UInt8) (offset : Nat) : overlay bytes offset [] = bytes := by
  unfold overlay
  rw [List.append_nil, List.length_nil, Nat.add_zero, List.take_append_drop]

/-- Bytes in front of the place that is written do not change. -/
theorem overlay_append_add (front rest : List UInt8) (k : Nat) (patch : List UInt8) :
    overlay (front ++ rest) (front.length + k) patch = front ++ overlay rest k patch := by
  unfold overlay
  rw [List.take_length_add_append, Nat.add_assoc, List.drop_length_add_append, List.append_assoc,
    List.append_assoc, List.append_assoc]

/-- Bytes that are written over from behind a front on. -/
theorem overlay_append (front rest patch : List UInt8) :
    overlay (front ++ rest) front.length patch = front ++ patch ++ rest.drop patch.length := by
  have hover := overlay_append_add front rest 0 patch
  rw [Nat.add_zero] at hover
  rw [hover, overlay, List.take_zero, List.nil_append, Nat.zero_add, List.append_assoc]

theorem overlay_replicate (front patch : List UInt8) (n : Nat) :
    overlay (front ++ List.replicate n 0) front.length patch =
      front ++ (patch ++ List.replicate (n - patch.length) 0) := by
  rw [overlay_append, List.drop_replicate, List.append_assoc]

theorem length_overlay (h : offset + patch.length ≤ bytes.length) :
    (overlay bytes offset patch).length = bytes.length := by
  unfold overlay
  rw [List.length_append, List.length_append, List.length_take, List.length_drop]
  omega

/-- What stands at a position after a write depends on what stood there and on what was written. -/
theorem getElem?_overlay_congr {x : Nat} (h : offset ≤ bytes.length) (h' : offset ≤ bytes'.length)
    (hx : bytes'[x]? = bytes[x]?) :
    (overlay bytes' offset patch)[x]? = (overlay bytes offset patch)[x]? := by
  have hfront : (bytes'.take offset ++ patch).length = (bytes.take offset ++ patch).length := by
    rw [List.length_append, List.length_append, List.length_take, List.length_take]
    omega
  have hlength : (bytes.take offset ++ patch).length = offset + patch.length := by
    rw [List.length_append, List.length_take]
    omega
  unfold overlay
  by_cases hbehind : offset + patch.length ≤ x
  · have hle : (bytes.take offset ++ patch).length ≤ x := hlength ▸ hbehind
    rw [List.getElem?_append_right (hfront ▸ hle), List.getElem?_append_right hle, hfront, hlength,
      List.getElem?_drop, List.getElem?_drop]
    have hsum : offset + patch.length + (x - (offset + patch.length)) = x := by omega
    rw [hsum, hx]
  · have hlt : x < (bytes.take offset ++ patch).length := by omega
    rw [List.getElem?_append_left (hfront ▸ hlt), List.getElem?_append_left hlt]
    by_cases hinside : offset ≤ x
    · have htake : (bytes.take offset).length = offset := List.length_take_of_le h
      have htake' : (bytes'.take offset).length = offset := List.length_take_of_le h'
      rw [List.getElem?_append_right (htake'.symm ▸ hinside),
        List.getElem?_append_right (htake.symm ▸ hinside), htake, htake']
    · have hbefore : x < offset := by omega
      have htake : x < (bytes.take offset).length := by rw [List.length_take_of_le h]; exact hbefore
      have htake' : x < (bytes'.take offset).length := by
        rw [List.length_take_of_le h']; exact hbefore
      rw [List.getElem?_append_left htake', List.getElem?_append_left htake,
        List.getElem?_take_of_lt hbefore, List.getElem?_take_of_lt hbefore, hx]

end Overlay

/-! ## Header and table -/

theorem Part.length_entry (p : Part) (w : Width) : (p.entry w).length = w.entrySize := by
  cases w with
  | bits32 =>
    unfold entry RawProgramHeader.encode32
    simp only [List.length_append, Word.length_encode]
    rfl
  | bits64 =>
    unfold entry RawProgramHeader.encode64
    simp only [List.length_append, Word.length_encode]
    rfl

theorem RawFileHeader.length_encode {α : Type} [Word α] (h : RawFileHeader α) :
    h.encode.length = 40 + 3 * Word.size α := by
  have h16 : Word.size UInt16 = 2 := rfl
  have h32 : Word.size UInt32 = 4 := rfl
  unfold encode
  simp only [List.length_append, Word.length_encode, h.ident.length_eq, identitySize]
  omega

namespace Builder

variable (b : Builder)

/-- An entry of the table with the padding up to the next one. -/
def cell (p : Part) : List UInt8 :=
  p.entry b.width ++ List.replicate (b.stride - b.width.entrySize) 0

/-- The file header and the program header table. -/
def front : List UInt8 := b.header ++ b.parts.flatMap b.cell

theorem length_header : b.header.length = b.width.headerSize := by
  unfold header
  cases b.width with
  | bits32 => exact RawFileHeader.length_encode _
  | bits64 => exact RawFileHeader.length_encode _

/-- The header starts with the identity block. -/
theorem exists_header_eq : ∃ rest, b.header = (identity b.width).bytes ++ rest := by
  obtain ⟨w, entry, phentsize, parts⟩ := b
  cases w with
  | bits32 => exact ⟨_, rfl⟩
  | bits64 => exact ⟨_, rfl⟩

theorem entrySize_le_stride : b.width.entrySize ≤ b.stride := Nat.le_max_left _ _

theorem length_cell (p : Part) : (b.cell p).length = b.stride := by
  have hle := b.entrySize_le_stride
  unfold cell
  rw [List.length_append, p.length_entry, List.length_replicate]
  omega

theorem length_cells (parts : List Part) :
    (parts.flatMap b.cell).length = parts.length * b.stride := length_rows b.length_cell parts

theorem length_front : b.front.length = b.tableEnd := by
  unfold front tableEnd
  rw [List.length_append, b.length_header, b.length_cells, Nat.mul_comm]

/-- Writing the entries into zeros puts them one behind the other. -/
theorem putEntries_replicate (parts : List Part) (before : List UInt8) (n : Nat) :
    b.putEntries before.length parts
        (before ++ List.replicate (parts.length * b.stride + n) 0) =
      before ++ (parts.flatMap b.cell ++ List.replicate n 0) := by
  induction parts generalizing before with
  | nil =>
    rw [List.length_nil, Nat.zero_mul, Nat.zero_add]
    rfl
  | cons p rest ih =>
    have hle := b.entrySize_le_stride
    have hzeros : List.replicate (List.length (p :: rest) * b.stride + n - b.width.entrySize)
        (0 : UInt8) =
          List.replicate (b.stride - b.width.entrySize) 0 ++
            List.replicate (rest.length * b.stride + n) 0 := by
      rw [List.replicate_append_replicate, List.length_cons, Nat.add_mul]
      congr 1
      omega
    have hfirst : overlay (before ++ List.replicate (List.length (p :: rest) * b.stride + n) 0)
        before.length (p.entry b.width) =
          before ++ b.cell p ++ List.replicate (rest.length * b.stride + n) 0 := by
      rw [overlay_replicate, p.length_entry, hzeros]
      unfold cell
      simp only [List.append_assoc]
    have hnext : before.length + b.stride = (before ++ b.cell p).length := by
      rw [List.length_append, b.length_cell]
    unfold putEntries
    rw [hfirst, hnext, ih, List.flatMap_cons]
    simp only [List.append_assoc]

/-! ## Data -/

/-- Before any data is written, an image is its header and its table, filled up with zeros. -/
theorem build_eq : b.build =
    putData b.parts (b.front ++ List.replicate (max b.tableEnd b.dataEnd - b.tableEnd) 0) := by
  have hheader := overlay_replicate [] b.header (max b.tableEnd b.dataEnd)
  have hzeros : max b.tableEnd b.dataEnd - b.header.length =
      b.parts.length * b.stride + (max b.tableEnd b.dataEnd - b.tableEnd) := by
    have hend : b.tableEnd = b.width.headerSize + b.parts.length * b.stride := by
      rw [tableEnd, Nat.mul_comm]
    have hle : b.tableEnd ≤ max b.tableEnd b.dataEnd := Nat.le_max_left _ _
    rw [b.length_header]
    omega
  rw [List.nil_append, List.nil_append, List.length_nil, hzeros] at hheader
  unfold build
  dsimp only
  rw [hheader, ← b.length_header, b.putEntries_replicate, ← List.append_assoc]
  rfl

/-- Data that starts behind the front of an image leaves the front alone. -/
theorem exists_putData_append {parts : List Part} {front : List UInt8}
    (h : ∀ p ∈ parts, p.data ≠ [] → front.length ≤ p.offset) (rest : List UInt8) :
    ∃ rest', putData parts (front ++ rest) = front ++ rest' := by
  induction parts generalizing rest with
  | nil => exact ⟨rest, rfl⟩
  | cons p parts ih =>
    obtain ⟨hp, hparts⟩ := List.forall_mem_cons.1 h
    show ∃ rest', putData parts (overlay (front ++ rest) p.offset p.data) = front ++ rest'
    by_cases hdata : p.data = []
    · rw [hdata, overlay_nil]
      exact ih hparts rest
    · obtain ⟨k, hk⟩ := Nat.exists_eq_add_of_le (hp hdata)
      rw [hk, overlay_append_add]
      exact ih hparts _

theorem length_putData {parts : List Part} {image : List UInt8}
    (h : ∀ p ∈ parts, p.offset + p.data.length ≤ image.length) :
    (putData parts image).length = image.length := by
  induction parts generalizing image with
  | nil => rfl
  | cons p parts ih =>
    obtain ⟨hp, hparts⟩ := List.forall_mem_cons.1 h
    have hlength := length_overlay hp
    show (putData parts (overlay image p.offset p.data)).length = image.length
    rw [ih (hlength.symm ▸ hparts), hlength]

/-- Writing the same data keeps two images the same at a position. -/
theorem getElem?_putData_congr {parts : List Part} {image image' : List UInt8} {x : Nat}
    (h : ∀ p ∈ parts, p.offset + p.data.length ≤ image.length)
    (h' : ∀ p ∈ parts, p.offset + p.data.length ≤ image'.length) (hx : image'[x]? = image[x]?) :
    (putData parts image')[x]? = (putData parts image)[x]? := by
  induction parts generalizing image image' with
  | nil => exact hx
  | cons p parts ih =>
    obtain ⟨hp, hparts⟩ := List.forall_mem_cons.1 h
    obtain ⟨hp', hparts'⟩ := List.forall_mem_cons.1 h'
    have hlength := length_overlay hp
    have hlength' := length_overlay hp'
    apply ih (hlength.symm ▸ hparts) (hlength'.symm ▸ hparts')
    exact getElem?_overlay_congr (by omega) (by omega) hx

theorem le_dataEnd {p : Part} (h : p ∈ b.parts) : p.offset + p.data.length ≤ b.dataEnd := by
  have hfold : ∀ (parts : List Part) (n : Nat),
      n ≤ parts.foldl (fun stop p => max stop (p.offset + p.data.length)) n ∧
        ∀ p ∈ parts, p.offset + p.data.length ≤
          parts.foldl (fun stop p => max stop (p.offset + p.data.length)) n := by
    intro parts
    induction parts with
    | nil => exact fun n => ⟨Nat.le_refl n, fun p hp => by cases hp⟩
    | cons q rest ih =>
      intro n
      obtain ⟨hle, hall⟩ := ih (max n (q.offset + q.data.length))
      refine ⟨Nat.le_trans (Nat.le_max_left _ _) hle, fun p hp => ?_⟩
      rcases List.mem_cons.1 hp with rfl | hmem
      · exact Nat.le_trans (Nat.le_max_right _ _) hle
      · exact hall p hmem
  exact (hfold b.parts 0).2 p h

theorem length_build : b.build.length = max b.tableEnd b.dataEnd := by
  have hle : b.tableEnd ≤ max b.tableEnd b.dataEnd := Nat.le_max_left _ _
  have hlength : (b.front ++ List.replicate (max b.tableEnd b.dataEnd - b.tableEnd) 0).length =
      max b.tableEnd b.dataEnd := by
    rw [List.length_append, b.length_front, List.length_replicate]
    omega
  rw [b.build_eq, length_putData, hlength]
  intro p hp
  rw [hlength]
  exact Nat.le_trans (b.le_dataEnd hp) (Nat.le_max_right _ _)

/-- Header and table are in the image. -/
theorem headerSize_add_le : b.width.headerSize + b.parts.length * b.stride ≤ b.build.length := by
  rw [b.length_build, Nat.mul_comm]
  exact Nat.le_max_left _ _

/-- Behind its front, an image depends on its parts alone. -/
theorem getElem?_build {x : Nat} (hlo : b.tableEnd ≤ x) (hhi : x < b.dataEnd) :
    b.build[x]? = (putData b.parts (List.replicate b.dataEnd 0))[x]? := by
  have hmax : b.dataEnd ≤ max b.tableEnd b.dataEnd := Nat.le_max_right _ _
  rw [b.build_eq]
  apply getElem?_putData_congr
  · intro p hp
    rw [List.length_replicate]
    exact b.le_dataEnd hp
  · intro p hp
    have hle := b.le_dataEnd hp
    rw [List.length_append, b.length_front, List.length_replicate]
    omega
  · rw [List.getElem?_append_right (b.length_front.symm ▸ hlo), b.length_front,
      List.getElem?_replicate, List.getElem?_replicate, if_pos hhi, if_pos (by omega)]

/-- All data stays behind the header and the table. -/
def DataApart : Prop := ∀ p ∈ b.parts, p.data ≠ [] → b.tableEnd ≤ p.offset

instance : Decidable b.DataApart :=
  inferInstanceAs (Decidable (∀ p ∈ b.parts, p.data ≠ [] → b.tableEnd ≤ p.offset))

variable {b}

theorem DataApart.exists_build_eq (h : b.DataApart) : ∃ rest, b.build = b.front ++ rest := by
  rw [b.build_eq]
  apply exists_putData_append
  rw [b.length_front]
  exact h

/-- Images built from the same parts hold the same data of each of them. -/
theorem DataApart.take_drop_build {b' : Builder} (h : b.DataApart) (h' : b'.DataApart)
    (hparts : b'.parts = b.parts) {p : Part} (hp : p ∈ b.parts) :
    (b'.build.drop p.offset).take p.data.length = (b.build.drop p.offset).take p.data.length := by
  have hend : b'.dataEnd = b.dataEnd := by rw [dataEnd, dataEnd, hparts]
  have hp' : p ∈ b'.parts := hparts ▸ hp
  apply List.ext_getElem?
  intro j
  rw [List.getElem?_take, List.getElem?_take]
  by_cases hj : j < p.data.length
  · have hdata : p.data ≠ [] := List.ne_nil_of_length_pos (by omega)
    have hlo := h p hp hdata
    have hlo' := h' p hp' hdata
    have hle := b.le_dataEnd hp
    rw [if_pos hj, if_pos hj, List.getElem?_drop, List.getElem?_drop,
      b.getElem?_build (by omega) (by omega), b'.getElem?_build (by omega) (by omega), hparts, hend]
  · rw [if_neg hj, if_neg hj]

end Builder

end ElfBoot
