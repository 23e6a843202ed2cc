import ElfBoot.Image.FileHeader
import ElfBoot.Image.ProgramHeader

/-!
# Fields by position

The published layouts give every header field a place: an offset from the start of the header and
a number of bytes, lowest first.  Here the fields are numbers read at such places, straight from a
byte list and without decoding a header.

* `Field`, `Field.read` — a place, and the number that stands there.
* `Field.entry`, `Field.kind` and the others — the places, by width.
* `Field.Tiles`, `Field.lay`, `Field.read_lay` — places without a gap, numbers laid out in them,
  and that each number stands at its place.
* `RawFileHeader.layout`, `RawProgramHeader.layout` — the fields of a header, each with its place,
  in the order of the file; `RawFileHeader.encode_eq`, `RawProgramHeader.decode32?_eq_some_iff_lay`
  and its 64-bit sibling say that this is what is written and read.
* `FileHeader.exists_decode`, `ProgramHeader.exists_decode` — a byte list that is long enough
  decodes, and the fields that a load depends on are the numbers at their places.
-/

set_option autoImplicit false

namespace ElfBoot

/-- The place of a field in a header. -/
structure Field where
  offset : Nat
  size : Nat
  deriving DecidableEq, Repr

namespace Field

/-- The number at a place; bytes past the end of the list are not counted. -/
def read (f : Field) (bs : List UInt8) : Nat :=
  LittleEndian.join ((bs.drop f.offset).take f.size)

/-! ## The places -/

/-- `e_ident` -/
def ident : Field := ⟨0, 16⟩

/-- `e_type` -/
def fileKind : Field := ⟨16, 2⟩

/-- `e_machine` -/
def machine : Field := ⟨18, 2⟩

/-- `e_version` -/
def version : Field := ⟨20, 4⟩

/-- `e_entry` -/
def entry : Width → Field
  | .bits32 => ⟨24, 4⟩
  | .bits64 => ⟨24, 8⟩

/-- `e_phoff` -/
def phoff : Width → Field
  | .bits32 => ⟨28, 4⟩
  | .bits64 => ⟨32, 8⟩

/-- `e_shoff` -/
def shoff : Width → Field
  | .bits32 => ⟨32, 4⟩
  | .bits64 => ⟨40, 8⟩

/-- `e_flags` -/
def fileFlags : Width → Field
  | .bits32 => ⟨36, 4⟩
  | .bits64 => ⟨48, 4⟩

/-- `e_ehsize` -/
def ehsize : Width → Field
  | .bits32 => ⟨40, 2⟩
  | .bits64 => ⟨52, 2⟩

/-- `e_phentsize` -/
def phentsize : Width → Field
  | .bits32 => ⟨42, 2⟩
  | .bits64 => ⟨54, 2⟩

/-- `e_phnum` -/
def phnum : Width → Field
  | .bits32 => ⟨44, 2⟩
  | .bits64 => ⟨56, 2⟩

/-- `e_shentsize` -/
def shentsize : Width → Field
  | .bits32 => ⟨46, 2⟩
  | .bits64 => ⟨58, 2⟩

/-- `e_shnum` -/
def shnum : Width → Field
  | .bits32 => ⟨48, 2⟩
  | .bits64 => ⟨60, 2⟩

/-- `e_shstrndx` -/
def shstrndx : Width → Field
  | .bits32 => ⟨50, 2⟩
  | .bits64 => ⟨62, 2⟩

/-- `p_type` -/
def kind : Field := ⟨0, 4⟩

/-- `p_flags` -/
def segmentFlags : Width → Field
  | .bits32 => ⟨24, 4⟩
  | .bits64 => ⟨4, 4⟩

/-- `p_offset` -/
def fileOffset : Width → Field
  | .bits32 => ⟨4, 4⟩
  | .bits64 => ⟨8, 8⟩

/-- `p_vaddr` -/
def virtualAddress : Width → Field
  | .bits32 => ⟨8, 4⟩
  | .bits64 => ⟨16, 8⟩

/-- `p_paddr` -/
def physicalAddress : Width → Field
  | .bits32 => ⟨12, 4⟩
  | .bits64 => ⟨24, 8⟩

/-- `p_filesz` -/
def fileSize : Width → Field
  | .bits32 => ⟨16, 4⟩
  | .bits64 => ⟨32, 8⟩

/-- `p_memsz` -/
def memorySize : Width → Field
  | .bits32 => ⟨20, 4⟩
  | .bits64 => ⟨40, 8⟩

/-- `p_align` -/
def align : Width → Field
  | .bits32 => ⟨28, 4⟩
  | .bits64 => ⟨48, 8⟩

/-! ## Reading -/

/-- A field that ends within the first `n` bytes does not depend on the others. -/
theorem read_take {f : Field} {bs : List UInt8} {n : Nat} (h : f.offset + f.size ≤ n) :
    f.read (bs.take n) = f.read bs := by
  rw [read, read, List.drop_take, List.take_take, Nat.min_eq_left (by omega)]

/-! ## Layouts -/

/-- Places that follow one another without a gap, from `start` up to `stop`. -/
def Tiles : Nat → List Field → Nat → Prop
  | start, [], stop => start = stop
  | start, f :: fs, stop => f.offset = start ∧ Tiles (start + f.size) fs stop

/-- Numbers one after another, each in the bytes of its place. -/
def lay (fields : List (Field × Nat)) : List UInt8 :=
  fields.flatMap fun p => LittleEndian.split p.1.size p.2

theorem lay_cons (p : Field × Nat) (fields : List (Field × Nat)) :
    lay (p :: fields) = LittleEndian.split p.1.size p.2 ++ lay fields := List.flatMap_cons

theorem add_length_lay {fields : List (Field × Nat)} {start stop : Nat}
    (h : Tiles start (fields.map (·.1)) stop) : start + (lay fields).length = stop := by
  induction fields generalizing start with
  | nil => exact h
  | cons p fields ih =>
    have hrest := ih h.2
    rw [lay_cons, List.length_append, LittleEndian.length_split, ← Nat.add_assoc]
    exact hrest

theorem length_lay {fields : List (Field × Nat)} {stop : Nat}
    (h : Tiles 0 (fields.map (·.1)) stop) : (lay fields).length = stop :=
  (Nat.zero_add _).symm.trans (add_length_lay h)

/-- **Every number stands at its place**, whatever is before the layout and behind it. -/
theorem read_append_lay {fields : List (Field × Nat)} {front : List UInt8} {stop : Nat}
    (htiles : Tiles front.length (fields.map (·.1)) stop)
    (hlt : ∀ p ∈ fields, p.2 < LittleEndian.limit p.1.size) (rest : List UInt8) :
    ∀ p ∈ fields, p.1.read (front ++ (lay fields ++ rest)) = p.2 := by
  induction fields generalizing front with
  | nil =>
    intro p hp
    cases hp
  | cons first fields ih =>
    obtain ⟨hoffset, htiles⟩ := htiles
    obtain ⟨hfirst, hlt⟩ := List.forall_mem_cons.1 hlt
    have hlen := LittleEndian.length_split first.1.size first.2
    rw [lay_cons, List.append_assoc]
    intro p hp
    rcases List.mem_cons.1 hp with rfl | hmem
    · rw [read, hoffset, List.drop_left, List.take_left' hlen, LittleEndian.join_split hfirst]
    · rw [← List.append_assoc]
      refine ih ?_ hlt p hmem
      rw [List.length_append, hlen]
      exact htiles

theorem read_lay {fields : List (Field × Nat)} {stop : Nat}
    (htiles : Tiles 0 (fields.map (·.1)) stop)
    (hlt : ∀ p ∈ fields, p.2 < LittleEndian.limit p.1.size) (rest : List UInt8) :
    ∀ p ∈ fields, p.1.read (lay fields ++ rest) = p.2 := by
  have hfront : Tiles ([] : List UInt8).length (fields.map (·.1)) stop := htiles
  exact read_append_lay hfront hlt rest

end Field

/-! ## Byte lists that are long enough -/

/-- A byte list with room for a word starts with one. -/
theorem Word.exists_encode_append (α : Type) [Word α] (bs : List UInt8) (n : Nat)
    (h : Word.size α + n ≤ bs.length) :
    ∃ (a : α) (rest : List UInt8), bs = Word.encode a ++ rest ∧ n ≤ rest.length := by
  have hsome : (splitExactly? (Word.size α) bs).isSome := splitExactly?_isSome_iff.2 (by omega)
  obtain ⟨p, hp⟩ := Option.isSome_iff_exists.1 hsome
  have hd : Word.decode? bs = some ((Word.ofNat (LittleEndian.join p.1) : α), p.2) := by
    rw [Word.decode?, hp, Option.map_some]
  have heq := Word.decode?_eq_some_iff.1 hd
  refine ⟨_, p.2, heq, ?_⟩
  rw [heq, List.length_append, Word.length_encode] at h
  omega

/-- A byte list with room for an identity block starts with one. -/
theorem Identity.exists_append {bs : List UInt8} (n : Nat) (h : identitySize + n ≤ bs.length) :
    ∃ (ident : Identity) (rest : List UInt8), bs = ident.bytes ++ rest ∧ n ≤ rest.length := by
  have hlen : (bs.take identitySize).length = identitySize := by rw [List.length_take]; omega
  refine ⟨⟨bs.take identitySize, hlen⟩, bs.drop identitySize, ?_, ?_⟩
  · exact (List.take_append_drop _ _).symm
  · rw [List.length_drop]; omega

/-! ## The file header -/

namespace RawFileHeader

variable {α : Type} [Word α]

/-- A byte list with room for a header starts with one. -/
theorem exists_encode_append {bs : List UInt8} (h : 40 + 3 * Word.size α ≤ bs.length) :
    ∃ (header : RawFileHeader α) (rest : List UInt8), bs = header.encode ++ rest := by
  have hsize : identitySize + (24 + 3 * Word.size α) ≤ bs.length := by
    simp only [identitySize]; omega
  have h16 : Word.size UInt16 = 2 := rfl
  have h32 : Word.size UInt32 = 4 := rfl
  obtain ⟨ident, r, rfl, hr⟩ := Identity.exists_append _ hsize
  obtain ⟨kind, r, rfl, hr⟩ :=
    Word.exists_encode_append UInt16 r (22 + 3 * Word.size α) (by omega)
  obtain ⟨machine, r, rfl, hr⟩ :=
    Word.exists_encode_append UInt16 r (20 + 3 * Word.size α) (by omega)
  obtain ⟨version, r, rfl, hr⟩ :=
    Word.exists_encode_append UInt32 r (16 + 3 * Word.size α) (by omega)
  obtain ⟨entry, r, rfl, hr⟩ :=
    Word.exists_encode_append α r (16 + 2 * Word.size α) (by omega)
  obtain ⟨phoff, r, rfl, hr⟩ :=
    Word.exists_encode_append α r (16 + Word.size α) (by omega)
  obtain ⟨shoff, r, rfl, hr⟩ := Word.exists_encode_append α r 16 (by omega)
  obtain ⟨flags, r, rfl, hr⟩ := Word.exists_encode_append UInt32 r 12 (by omega)
  obtain ⟨ehsize, r, rfl, hr⟩ := Word.exists_encode_append UInt16 r 10 (by omega)
  obtain ⟨phentsize, r, rfl, hr⟩ := Word.exists_encode_append UInt16 r 8 (by omega)
  obtain ⟨phnum, r, rfl, hr⟩ := Word.exists_encode_append UInt16 r 6 (by omega)
  obtain ⟨shentsize, r, rfl, hr⟩ := Word.exists_encode_append UInt16 r 4 (by omega)
  obtain ⟨shnum, r, rfl, hr⟩ := Word.exists_encode_append UInt16 r 2 (by omega)
  obtain ⟨shstrndx, r, rfl, -⟩ := Word.exists_encode_append UInt16 r 0 (by omega)
  refine ⟨⟨ident, kind, machine, version, entry, phoff, shoff, flags, ehsize, phentsize, phnum,
    shentsize, shnum, shstrndx⟩, r, ?_⟩
  simp only [encode, List.append_assoc]

/-- The fields of a file header, each with its place, in the order of the file. -/
def layout (w : Width) (h : RawFileHeader α) : List (Field × Nat) :=
  [(.ident, LittleEndian.join h.ident.bytes), (.fileKind, h.kind.toNat),
    (.machine, h.machine.toNat), (.version, h.version.toNat), (.entry w, Word.toNat h.entry),
    (.phoff w, Word.toNat h.phoff), (.shoff w, Word.toNat h.shoff),
    (.fileFlags w, h.flags.toNat), (.ehsize w, h.ehsize.toNat),
    (.phentsize w, h.phentsize.toNat), (.phnum w, h.phnum.toNat),
    (.shentsize w, h.shentsize.toNat), (.shnum w, h.shnum.toNat),
    (.shstrndx w, h.shstrndx.toNat)]

theorem tiles_layout (w : Width) (h : RawFileHeader α) :
    Field.Tiles 0 ((h.layout w).map (·.1)) w.headerSize := by
  cases w with
  | bits32 =>
    exact ⟨rfl, rfl, rfl, rfl, rfl, rfl, rfl, rfl, rfl, rfl, rfl, rfl, rfl, rfl, rfl⟩
  | bits64 =>
    exact ⟨rfl, rfl, rfl, rfl, rfl, rfl, rfl, rfl, rfl, rfl, rfl, rfl, rfl, rfl, rfl⟩

variable {w : Width} (hsize : Word.size α = (Field.entry w).size) (h : RawFileHeader α)

include hsize

/-- Every field fits into its place if addresses have the size of the width. -/
theorem layout_lt : ∀ p ∈ h.layout w, p.2 < LittleEndian.limit p.1.size := by
  have hident := LittleEndian.join_lt h.ident.bytes
  rw [h.ident.length_eq] at hident
  have haddress : ∀ a : α, Word.toNat a < LittleEndian.limit (Field.entry w).size := by
    intro a
    rw [← hsize]
    exact Word.toNat_lt a
  cases w with
  | bits32 =>
    simp only [layout, List.forall_mem_cons]
    exact ⟨hident, Word.toNat_lt h.kind, Word.toNat_lt h.machine, Word.toNat_lt h.version,
      haddress h.entry, haddress h.phoff, haddress h.shoff, Word.toNat_lt h.flags,
      Word.toNat_lt h.ehsize, Word.toNat_lt h.phentsize, Word.toNat_lt h.phnum,
      Word.toNat_lt h.shentsize, Word.toNat_lt h.shnum, Word.toNat_lt h.shstrndx,
      List.forall_mem_nil _⟩
  | bits64 =>
    simp only [layout, List.forall_mem_cons]
    exact ⟨hident, Word.toNat_lt h.kind, Word.toNat_lt h.machine, Word.toNat_lt h.version,
      haddress h.entry, haddress h.phoff, haddress h.shoff, Word.toNat_lt h.flags,
      Word.toNat_lt h.ehsize, Word.toNat_lt h.phentsize, Word.toNat_lt h.phnum,
      Word.toNat_lt h.shentsize, Word.toNat_lt h.shnum, Word.toNat_lt h.shstrndx,
      List.forall_mem_nil _⟩

/-- **What is written** is the layout. -/
theorem encode_eq : h.encode = Field.lay (h.layout w) := by
  have hident := LittleEndian.split_join h.ident.bytes
  rw [h.ident.length_eq] at hident
  have haddress : ∀ a : α, Word.encode a =
      LittleEndian.split (Field.entry w).size (Word.toNat a) := by
    intro a
    rw [← hsize]
    rfl
  unfold encode
  rw [← hident, haddress, haddress, haddress]
  cases w with
  | bits32 =>
    simp only [layout, Field.lay, List.flatMap_cons, List.flatMap_nil, List.append_nil]
    rfl
  | bits64 =>
    simp only [layout, Field.lay, List.flatMap_cons, List.flatMap_nil, List.append_nil]
    rfl

theorem read_encode (rest : List UInt8) :
    ∀ p ∈ h.layout w, p.1.read (h.encode ++ rest) = p.2 := by
  rw [encode_eq hsize]
  exact Field.read_lay (h.tiles_layout w) (h.layout_lt hsize) rest

end RawFileHeader

/-- What a load depends on in a file header, read off the bytes the header was decoded from. -/
structure FileHeader.Describes (header : FileHeader) (w : Width) (bs : List UInt8) : Prop where
  width : header.width = w
  entry : header.entry.toNat = (Field.entry w).read bs
  phoff : header.phoff.toNat = (Field.phoff w).read bs
  phentsize : header.phentsize.toNat = (Field.phentsize w).read bs
  phnum : header.phnum.toNat = (Field.phnum w).read bs

/-- All of it stands in the first `headerSize` bytes. -/
theorem FileHeader.Describes.of_take {header : FileHeader} {w : Width} {bs : List UInt8}
    (h : header.Describes w (bs.take w.headerSize)) : header.Describes w bs := by
  have hends : ∀ f ∈ [Field.entry w, Field.phoff w, Field.phentsize w, Field.phnum w],
      f.offset + f.size ≤ w.headerSize := by
    cases w <;> decide
  have hread : ∀ f ∈ [Field.entry w, Field.phoff w, Field.phentsize w, Field.phnum w],
      f.read (bs.take w.headerSize) = f.read bs := fun f hf => Field.read_take (hends f hf)
  simp only [List.forall_mem_cons, List.not_mem_nil, false_implies, implies_true, and_true] at hread
  obtain ⟨hentry, hphoff, hphentsize, hphnum⟩ := hread
  exact ⟨h.width, h.entry.trans hentry, h.phoff.trans hphoff, h.phentsize.trans hphentsize,
    h.phnum.trans hphnum⟩

namespace FileHeader.Describes

variable {header : FileHeader} {w : Width} {bs : List UInt8}

theorem phnum_eq_zero_iff (h : header.Describes w bs) :
    header.phnum = 0 ↔ (Field.phnum w).read bs = 0 := by
  rw [← h.phnum, ← UInt16.toNat_inj]
  rfl

theorem phentsize_eq (h : header.Describes w bs) :
    header.phentsize = UInt16.ofNat ((Field.phentsize w).read bs) := by
  rw [← h.phentsize, UInt16.ofNat_toNat]

theorem tableSize_eq (h : header.Describes w bs) :
    header.tableSize = (Field.phentsize w).read bs * (Field.phnum w).read bs := by
  rw [tableSize, h.phentsize, h.phnum]

end FileHeader.Describes

/-- The view of a file header has every field it keeps as it stands in the bytes. -/
structure FileHeader.Carries (header : FileHeader) (w : Width) (bs : List UInt8) : Prop
    extends header.Describes w bs where
  magic : header.magic = bs.take 4
  encoding : header.encoding = bs.getD 5 0
  identVersion : header.identVersion = bs.getD 6 0
  osAbi : header.osAbi = bs.getD 7 0
  abiVersion : header.abiVersion = bs.getD 8 0
  kind : header.kind.toNat = Field.fileKind.read bs
  machine : header.machine.toNat = Field.machine.read bs
  version : header.version.toNat = Field.version.read bs
  shoff : header.shoff.toNat = (Field.shoff w).read bs
  flags : header.flags.toNat = (Field.fileFlags w).read bs
  shnum : header.shnum.toNat = (Field.shnum w).read bs

namespace Identity

variable (ident : Identity) (rest : List UInt8)

theorem magic_eq_take : ident.magic = (ident.bytes ++ rest).take 4 := by
  have hle : 4 ≤ ident.bytes.length := by
    rw [ident.length_eq]
    decide
  rw [magic, List.take_append_of_le_length hle]

theorem byteAt_eq_getD {i : Nat} (h : i < identitySize) :
    ident.byteAt i = (ident.bytes ++ rest).getD i 0 := by
  rw [← ident.length_eq] at h
  rw [byteAt, List.getD_eq_getElem?_getD, List.getD_eq_getElem?_getD,
    List.getElem?_append_left h]

end Identity

/-- What a raw header says of the bytes it stands in front of, seen from a view that has the same
numbers. -/
theorem RawFileHeader.carries {α : Type} [Word α] {w : Width}
    (hsize : Word.size α = (Field.entry w).size) (raw : RawFileHeader α) (rest : List UInt8)
    {header : FileHeader} {widen : α → UInt64} (hwiden : ∀ a, (widen a).toNat = Word.toNat a)
    (hview : header = .ofRaw w (raw.map widen)) : header.Carries w (raw.encode ++ rest) := by
  subst hview
  have hread := raw.read_encode hsize rest
  simp only [layout, List.forall_mem_cons] at hread
  obtain ⟨-, hkind, hmachine, hversion, hentry, hphoff, hshoff, hflags, -, hphentsize, hphnum, -,
    hshnum, -⟩ := hread
  have hident : ∃ more, raw.encode ++ rest = raw.ident.bytes ++ more :=
    ⟨_, List.append_assoc _ _ _⟩
  generalize raw.encode ++ rest = bs at *
  obtain ⟨more, rfl⟩ := hident
  exact
    { width := rfl
      entry := (hwiden _).trans hentry.symm
      phoff := (hwiden _).trans hphoff.symm
      phentsize := hphentsize.symm
      phnum := hphnum.symm
      magic := raw.ident.magic_eq_take more
      encoding := raw.ident.byteAt_eq_getD more (by decide)
      identVersion := raw.ident.byteAt_eq_getD more (by decide)
      osAbi := raw.ident.byteAt_eq_getD more (by decide)
      abiVersion := raw.ident.byteAt_eq_getD more (by decide)
      kind := hkind.symm
      machine := hmachine.symm
      version := hversion.symm
      shoff := (hwiden _).trans hshoff.symm
      flags := hflags.symm
      shnum := hshnum.symm }

/-- **Enough bytes decode to a file header**, and its fields are the numbers at their places. -/
theorem FileHeader.exists_carries {w : Width} {bs : List UInt8} (h : w.headerSize ≤ bs.length) :
    ∃ header, FileHeader.decode? w bs = some header ∧ header.Carries w bs := by
  cases w with
  | bits32 =>
    obtain ⟨raw, rest, rfl⟩ := RawFileHeader.exists_encode_append (α := UInt32) h
    refine ⟨.ofRaw .bits32 (raw.map UInt32.toUInt64), ?_,
      raw.carries rfl rest UInt32.toNat_toUInt64 rfl⟩
    simp only [decode?, RawFileHeader.decodeWide?, RawFileHeader.decode?_encode_append,
      Option.map_some]
  | bits64 =>
    obtain ⟨raw, rest, rfl⟩ := RawFileHeader.exists_encode_append (α := UInt64) h
    have hcarries : (FileHeader.ofRaw .bits64 (raw.map id)).Carries .bits64 (raw.encode ++ rest) :=
      raw.carries rfl rest (fun _ => rfl) rfl
    refine ⟨.ofRaw .bits64 raw, ?_, hcarries⟩
    simp only [decode?, RawFileHeader.decodeWide?, RawFileHeader.decode?_encode_append,
      Option.map_some]

theorem FileHeader.exists_decode {w : Width} {bs : List UInt8} (h : w.headerSize ≤ bs.length) :
    ∃ header, FileHeader.decode? w bs = some header ∧ header.Describes w bs := by
  obtain ⟨header, hdecode, hcarries⟩ := exists_carries h
  exact ⟨header, hdecode, hcarries.toDescribes⟩

/-! ## Program headers -/

/-- The flags keep the low three bits of a word. -/
theorem SegmentFlags.toNat_toWord_ofWord (x : UInt32) :
    (ofWord x).toWord.toNat = x.toNat % 8 := by
  unfold ofWord toWord
  simp only [Nat.testBit_eq_decide_div_mod_eq, decide_eq_true_eq]
  by_cases h0 : x.toNat / 2 ^ 0 % 2 = 1
  all_goals by_cases h1 : x.toNat / 2 ^ 1 % 2 = 1
  all_goals by_cases h2 : x.toNat / 2 ^ 2 % 2 = 1
  all_goals
    simp only [h0, h1, h2, if_true, if_false]
    simp
    omega

namespace RawProgramHeader

variable {α : Type} [Word α]

/-- The fields of a program header, each with its place, in the order of the file.  The number in
the flags word is given apart, since a decoded header keeps three bits of it only. -/
def layout (w : Width) (h : RawProgramHeader α) (flags : Nat) : List (Field × Nat) :=
  match w with
  | .bits32 =>
    [(.kind, h.kind.toNat), (.fileOffset .bits32, Word.toNat h.offset),
      (.virtualAddress .bits32, Word.toNat h.vaddr),
      (.physicalAddress .bits32, Word.toNat h.paddr), (.fileSize .bits32, Word.toNat h.filesz),
      (.memorySize .bits32, Word.toNat h.memsz), (.segmentFlags .bits32, flags),
      (.align .bits32, Word.toNat h.align)]
  | .bits64 =>
    [(.kind, h.kind.toNat), (.segmentFlags .bits64, flags),
      (.fileOffset .bits64, Word.toNat h.offset), (.virtualAddress .bits64, Word.toNat h.vaddr),
      (.physicalAddress .bits64, Word.toNat h.paddr), (.fileSize .bits64, Word.toNat h.filesz),
      (.memorySize .bits64, Word.toNat h.memsz), (.align .bits64, Word.toNat h.align)]

theorem tiles_layout (w : Width) (h : RawProgramHeader α) (flags : Nat) :
    Field.Tiles 0 ((h.layout w flags).map (·.1)) w.entrySize := by
  cases w with
  | bits32 => exact ⟨rfl, rfl, rfl, rfl, rfl, rfl, rfl, rfl, rfl⟩
  | bits64 => exact ⟨rfl, rfl, rfl, rfl, rfl, rfl, rfl, rfl, rfl⟩

/-- A flags word and the other fields, in bytes. -/
theorem lay_layout32 (h : RawProgramHeader UInt32) (flags : UInt32) (rest : List UInt8) :
    Field.lay (h.layout .bits32 flags.toNat) ++ rest =
      Word.encode h.kind ++ (Word.encode h.offset ++ (Word.encode h.vaddr ++
        (Word.encode h.paddr ++ (Word.encode h.filesz ++ (Word.encode h.memsz ++
        (Word.encode flags ++ (Word.encode h.align ++ rest))))))) := by
  simp only [layout, Field.lay, List.flatMap_cons, List.flatMap_nil, List.append_nil,
    List.append_assoc]
  rfl

theorem lay_layout64 (h : RawProgramHeader UInt64) (flags : UInt32) (rest : List UInt8) :
    Field.lay (h.layout .bits64 flags.toNat) ++ rest =
      Word.encode h.kind ++ (Word.encode flags ++ (Word.encode h.offset ++
        (Word.encode h.vaddr ++ (Word.encode h.paddr ++ (Word.encode h.filesz ++
        (Word.encode h.memsz ++ (Word.encode h.align ++ rest))))))) := by
  simp only [layout, Field.lay, List.flatMap_cons, List.flatMap_nil, List.append_nil,
    List.append_assoc]
  rfl

/-- **What is read** is the layout, with any flags word of which the flags are the low bits. -/
theorem decode32?_eq_some_iff_lay {bs rest : List UInt8} {h : RawProgramHeader UInt32} :
    decode32? bs = some (h, rest) ↔ ∃ flags : UInt32, h.flags = .ofWord flags ∧
      bs = Field.lay (h.layout .bits32 flags.toNat) ++ rest := by
  simp only [decode32?_eq_some_iff, lay_layout32]

theorem decode64?_eq_some_iff_lay {bs rest : List UInt8} {h : RawProgramHeader UInt64} :
    decode64? bs = some (h, rest) ↔ ∃ flags : UInt32, h.flags = .ofWord flags ∧
      bs = Field.lay (h.layout .bits64 flags.toNat) ++ rest := by
  simp only [decode64?_eq_some_iff, lay_layout64]

/-- A byte list with room for a program header starts with one. -/
theorem exists_decode32 {bs : List UInt8} (h : 32 ≤ bs.length) :
    ∃ header rest, decode32? bs = some (header, rest) := by
  have h32 : Word.size UInt32 = 4 := rfl
  obtain ⟨kind, r, rfl, hr⟩ := Word.exists_encode_append UInt32 bs 28 (by omega)
  obtain ⟨offset, r, rfl, hr⟩ := Word.exists_encode_append UInt32 r 24 (by omega)
  obtain ⟨vaddr, r, rfl, hr⟩ := Word.exists_encode_append UInt32 r 20 (by omega)
  obtain ⟨paddr, r, rfl, hr⟩ := Word.exists_encode_append UInt32 r 16 (by omega)
  obtain ⟨filesz, r, rfl, hr⟩ := Word.exists_encode_append UInt32 r 12 (by omega)
  obtain ⟨memsz, r, rfl, hr⟩ := Word.exists_encode_append UInt32 r 8 (by omega)
  obtain ⟨flags, r, rfl, hr⟩ := Word.exists_encode_append UInt32 r 4 (by omega)
  obtain ⟨align, r, rfl, -⟩ := Word.exists_encode_append UInt32 r 0 (by omega)
  exact ⟨⟨kind, .ofWord flags, offset, vaddr, paddr, filesz, memsz, align⟩, r,
    decode32?_eq_some_iff.2 ⟨flags, rfl, rfl⟩⟩

theorem exists_decode64 {bs : List UInt8} (h : 56 ≤ bs.length) :
    ∃ header rest, decode64? bs = some (header, rest) := by
  have h32 : Word.size UInt32 = 4 := rfl
  have h64 : Word.size UInt64 = 8 := rfl
  obtain ⟨kind, r, rfl, hr⟩ := Word.exists_encode_append UInt32 bs 52 (by omega)
  obtain ⟨flags, r, rfl, hr⟩ := Word.exists_encode_append UInt32 r 48 (by omega)
  obtain ⟨offset, r, rfl, hr⟩ := Word.exists_encode_append UInt64 r 40 (by omega)
  obtain ⟨vaddr, r, rfl, hr⟩ := Word.exists_encode_append UInt64 r 32 (by omega)
  obtain ⟨paddr, r, rfl, hr⟩ := Word.exists_encode_append UInt64 r 24 (by omega)
  obtain ⟨filesz, r, rfl, hr⟩ := Word.exists_encode_append UInt64 r 16 (by omega)
  obtain ⟨memsz, r, rfl, hr⟩ := Word.exists_encode_append UInt64 r 8 (by omega)
  obtain ⟨align, r, rfl, -⟩ := Word.exists_encode_append UInt64 r 0 (by omega)
  exact ⟨⟨kind, .ofWord flags, offset, vaddr, paddr, filesz, memsz, align⟩, r,
    decode64?_eq_some_iff.2 ⟨flags, rfl, rfl⟩⟩

/-- Every field fits into its place. -/
theorem layout_lt32 (h : RawProgramHeader UInt32) (flags : UInt32) :
    ∀ p ∈ h.layout .bits32 flags.toNat, p.2 < LittleEndian.limit p.1.size := by
  simp only [layout, List.forall_mem_cons]
  exact ⟨Word.toNat_lt h.kind, Word.toNat_lt h.offset, Word.toNat_lt h.vaddr,
    Word.toNat_lt h.paddr, Word.toNat_lt h.filesz, Word.toNat_lt h.memsz, Word.toNat_lt flags,
    Word.toNat_lt h.align, List.forall_mem_nil _⟩

theorem layout_lt64 (h : RawProgramHeader UInt64) (flags : UInt32) :
    ∀ p ∈ h.layout .bits64 flags.toNat, p.2 < LittleEndian.limit p.1.size := by
  simp only [layout, List.forall_mem_cons]
  exact ⟨Word.toNat_lt h.kind, Word.toNat_lt flags, Word.toNat_lt h.offset,
    Word.toNat_lt h.vaddr, Word.toNat_lt h.paddr, Word.toNat_lt h.filesz, Word.toNat_lt h.memsz,
    Word.toNat_lt h.align, List.forall_mem_nil _⟩

theorem read_lay32 (h : RawProgramHeader UInt32) (flags : UInt32) (rest : List UInt8) :
    ∀ p ∈ h.layout .bits32 flags.toNat,
      p.1.read (Field.lay (h.layout .bits32 flags.toNat) ++ rest) = p.2 :=
  Field.read_lay (h.tiles_layout .bits32 flags.toNat) (h.layout_lt32 flags) rest

theorem read_lay64 (h : RawProgramHeader UInt64) (flags : UInt32) (rest : List UInt8) :
    ∀ p ∈ h.layout .bits64 flags.toNat,
      p.1.read (Field.lay (h.layout .bits64 flags.toNat) ++ rest) = p.2 :=
  Field.read_lay (h.tiles_layout .bits64 flags.toNat) (h.layout_lt64 flags) rest

end RawProgramHeader

/-- What a load depends on in a program header, read off the bytes it was decoded from. -/
structure ProgramHeader.Describes (header : ProgramHeader) (w : Width) (bs : List UInt8) :
    Prop where
  kind : header.kind.toNat = Field.kind.read bs
  offset : header.offset.toNat = (Field.fileOffset w).read bs
  physicalAddress : header.physicalAddress.toNat = (Field.physicalAddress w).read bs
  fileSize : header.fileSize.toNat = (Field.fileSize w).read bs
  memorySize : header.memorySize.toNat = (Field.memorySize w).read bs

/-- The view of a program header has every field as it stands in the bytes, and the low bits of the
flags word. -/
structure ProgramHeader.Carries (header : ProgramHeader) (w : Width) (bs : List UInt8) : Prop
    extends header.Describes w bs where
  virtualAddress : header.virtualAddress.toNat = (Field.virtualAddress w).read bs
  align : header.align.toNat = (Field.align w).read bs
  flags : header.flags.toWord.toNat = (Field.segmentFlags w).read bs % 8

/-- **Enough bytes decode to a program header**, and its fields are the numbers at their places. -/
theorem ProgramHeader.exists_carries {w : Width} {bs : List UInt8} (h : w.entrySize ≤ bs.length) :
    ∃ header, decode? w bs = some header ∧ header.Carries w bs := by
  have wide : ∀ x : UInt32, x.toUInt64.toNat = Word.toNat x := UInt32.toNat_toUInt64
  have low : ∀ {flags : SegmentFlags} {x : UInt32}, flags = .ofWord x →
      flags.toWord.toNat = x.toNat % 8 := by
    rintro flags x rfl
    exact SegmentFlags.toNat_toWord_ofWord x
  cases w with
  | bits32 =>
    obtain ⟨raw, rest, hraw⟩ := RawProgramHeader.exists_decode32 h
    obtain ⟨word, hword, rfl⟩ := RawProgramHeader.decode32?_eq_some_iff_lay.1 hraw
    have hread := raw.read_lay32 word rest
    refine ⟨.ofRaw32 raw, by rw [decode?, hraw, Option.map_some], ?_⟩
    generalize Field.lay (raw.layout .bits32 word.toNat) ++ rest = bs at hread
    simp only [RawProgramHeader.layout, List.forall_mem_cons] at hread
    obtain ⟨hkind, hoffset, hvaddr, hpaddr, hfilesz, hmemsz, hflags, halign, -⟩ := hread
    exact
      { kind := hkind.symm
        offset := (wide _).trans hoffset.symm
        physicalAddress := (wide _).trans hpaddr.symm
        fileSize := (wide _).trans hfilesz.symm
        memorySize := (wide _).trans hmemsz.symm
        virtualAddress := (wide _).trans hvaddr.symm
        align := (wide _).trans halign.symm
        flags := by rw [hflags]; exact low hword }
  | bits64 =>
    obtain ⟨raw, rest, hraw⟩ := RawProgramHeader.exists_decode64 h
    obtain ⟨word, hword, rfl⟩ := RawProgramHeader.decode64?_eq_some_iff_lay.1 hraw
    have hread := raw.read_lay64 word rest
    refine ⟨.ofRaw64 raw, by rw [decode?, hraw, Option.map_some], ?_⟩
    generalize Field.lay (raw.layout .bits64 word.toNat) ++ rest = bs at hread
    simp only [RawProgramHeader.layout, List.forall_mem_cons] at hread
    obtain ⟨hkind, hflags, hoffset, hvaddr, hpaddr, hfilesz, hmemsz, halign, -⟩ := hread
    exact
      { kind := hkind.symm
        offset := hoffset.symm
        physicalAddress := hpaddr.symm
        fileSize := hfilesz.symm
        memorySize := hmemsz.symm
        virtualAddress := hvaddr.symm
        align := halign.symm
        flags := by rw [hflags]; exact low hword }

theorem ProgramHeader.exists_decode {w : Width} {bs : List UInt8} (h : w.entrySize ≤ bs.length) :
    ∃ header, decode? w bs = some header ∧ header.Describes w bs := by
  obtain ⟨header, hdecode, hcarries⟩ := exists_carries h
  exact ⟨header, hdecode, hcarries.toDescribes⟩

/-- What stands behind a program header makes no difference to how it is decoded. -/
theorem ProgramHeader.decode?_take {w : Width} {n : Nat} {bs : List UInt8}
    (h : w.entrySize ≤ (bs.take n).length) : decode? w (bs.take n) = decode? w bs := by
  have hbs := List.take_append_drop n bs
  cases w with
  | bits32 =>
    obtain ⟨raw, rest, hraw⟩ := RawProgramHeader.exists_decode32 h
    obtain ⟨word, hword, htake⟩ := RawProgramHeader.decode32?_eq_some_iff_lay.1 hraw
    rw [htake, List.append_assoc] at hbs
    have hwhole := RawProgramHeader.decode32?_eq_some_iff_lay.2 ⟨word, hword, hbs.symm⟩
    rw [decode?, decode?, hraw, hwhole, Option.map_some, Option.map_some]
  | bits64 =>
    obtain ⟨raw, rest, hraw⟩ := RawProgramHeader.exists_decode64 h
    obtain ⟨word, hword, htake⟩ := RawProgramHeader.decode64?_eq_some_iff_lay.1 hraw
    rw [htake, List.append_assoc] at hbs
    have hwhole := RawProgramHeader.decode64?_eq_some_iff_lay.2 ⟨word, hword, hbs.symm⟩
    rw [decode?, decode?, hraw, hwhole, Option.map_some, Option.map_some]

end ElfBoot
