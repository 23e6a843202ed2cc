import ElfBoot.Proofs.Image.Fields

/-!
# The header codecs are faithful

Both headers are written and read in the published layout of either width, and no field is lost on
the way but the upper bits of the flags word of a program header.

* `Codec`, `Codec.Faithful` — a way to write records and to read them back, and that it is the
  layout of their fields and loses nothing but what `kept` drops.
* `Field.put`, `lowFlags` — a number put at a place, and a program header with the low three bits
  of its flags word only.
* `FileHeader.Carries`, `ProgramHeader.Carries` — the view that does not depend on the width has
  the number of every field it keeps.
* `ProgramHeader.SameButFlags` — two program headers differ at most in the upper bits of the flags.
* `codecs_faithful` — all four layouts are faithful, and the views carry their fields.
-/

set_option autoImplicit false

namespace ElfBoot

/-! ## Codecs -/

/-- A way to write records and to read them back, with the fields of a record at their places. -/
structure Codec (ρ : Type) where
  layout : ρ → List (Field × Nat)
  encode : ρ → List UInt8
  decode? : List UInt8 → Option (ρ × List UInt8)

namespace Codec

variable {ρ : Type} {c : Codec ρ} {size : Nat} {kept : List UInt8 → List UInt8}

/-- Records take `size` bytes, each field in its place and no byte between two of them.  What was
written is read back, and enough bytes can always be read; written again, they are the first
`size` bytes, or what is kept of them. -/
structure Faithful (c : Codec ρ) (size : Nat) (kept : List UInt8 → List UInt8) : Prop where
  tiles : ∀ r, Field.Tiles 0 ((c.layout r).map (·.1)) size
  length : ∀ r, (c.encode r).length = size
  placed : ∀ r rest, ∀ p ∈ c.layout r, p.1.read (c.encode r ++ rest) = p.2
  decode_encode : ∀ r rest, c.decode? (c.encode r ++ rest) = some (r, rest)
  encode_decode : ∀ bs, size ≤ bs.length →
    ∃ r, c.decode? bs = some (r, bs.drop size) ∧ c.encode r = kept (bs.take size)

/-- Where records are written as their fields are laid out, length and places follow. -/
theorem Faithful.of_lay (htiles : ∀ r, Field.Tiles 0 ((c.layout r).map (·.1)) size)
    (hlay : ∀ r, c.encode r = Field.lay (c.layout r))
    (hlt : ∀ r, ∀ p ∈ c.layout r, p.2 < LittleEndian.limit p.1.size)
    (hdecode : ∀ r rest, c.decode? (c.encode r ++ rest) = some (r, rest))
    (hencode : ∀ bs, size ≤ bs.length →
      ∃ r, c.decode? bs = some (r, bs.drop size) ∧ c.encode r = kept (bs.take size)) :
    c.Faithful size kept := by
  constructor
  case tiles => exact htiles
  case length =>
    intro r
    rw [hlay, Field.length_lay (htiles r)]
  case placed =>
    intro r rest
    rw [hlay]
    exact Field.read_lay (htiles r) (hlt r) rest
  case decode_encode => exact hdecode
  case encode_decode => exact hencode

/-- The file header of 32-bit images. -/
def fileHeader32 : Codec (RawFileHeader UInt32) where
  layout := RawFileHeader.layout .bits32
  encode := RawFileHeader.encode
  decode? := RawFileHeader.decode?

/-- The file header of 64-bit images. -/
def fileHeader64 : Codec (RawFileHeader UInt64) where
  layout := RawFileHeader.layout .bits64
  encode := RawFileHeader.encode
  decode? := RawFileHeader.decode?

/-- The program header of 32-bit images. -/
def programHeader32 : Codec (RawProgramHeader UInt32) where
  layout h := h.layout .bits32 h.flags.toWord.toNat
  encode := RawProgramHeader.encode32
  decode? := RawProgramHeader.decode32?

/-- The program header of 64-bit images. -/
def programHeader64 : Codec (RawProgramHeader UInt64) where
  layout h := h.layout .bits64 h.flags.toWord.toNat
  encode := RawProgramHeader.encode64
  decode? := RawProgramHeader.decode64?

end Codec

/-! ## File headers -/

namespace RawFileHeader

variable {α : Type} [Word α]

/-- A file header of `size` bytes is the front of any list that is long enough. -/
theorem exists_decode_take {size : Nat} (hsize : size = 40 + 3 * Word.size α)
    (hlength : ∀ h : RawFileHeader α, h.encode.length = size) {bs : List UInt8}
    (hbs : size ≤ bs.length) : ∃ h : RawFileHeader α,
      decode? bs = some (h, bs.drop size) ∧ h.encode = bs.take size := by
  obtain ⟨h, rest, rfl⟩ := exists_encode_append (α := α) (hsize ▸ hbs)
  refine ⟨h, ?_, ?_⟩
  · rw [List.drop_left' (hlength h)]
    exact decode?_encode_append h rest
  · rw [List.take_left' (hlength h)]

theorem length_encode_eq {w : Width} (hsize : Word.size α = (Field.entry w).size)
    (h : RawFileHeader α) : h.encode.length = w.headerSize := by
  rw [encode_eq hsize, Field.length_lay (h.tiles_layout w)]

end RawFileHeader

namespace Codec

theorem faithful_fileHeader32 : fileHeader32.Faithful 52 id :=
  Faithful.of_lay (fun h => h.tiles_layout .bits32) (fun h => RawFileHeader.encode_eq rfl h)
    (fun h => RawFileHeader.layout_lt rfl h) RawFileHeader.decode?_encode_append
    fun _ hbs => RawFileHeader.exists_decode_take rfl
      (RawFileHeader.length_encode_eq (w := .bits32) rfl) hbs

theorem faithful_fileHeader64 : fileHeader64.Faithful 64 id :=
  Faithful.of_lay (fun h => h.tiles_layout .bits64) (fun h => RawFileHeader.encode_eq rfl h)
    (fun h => RawFileHeader.layout_lt rfl h) RawFileHeader.decode?_encode_append
    fun _ hbs => RawFileHeader.exists_decode_take rfl
      (RawFileHeader.length_encode_eq (w := .bits64) rfl) hbs

end Codec

/-! ## Program headers -/

/-- The bytes with a number put at a place. -/
def Field.put (f : Field) (n : Nat) (bs : List UInt8) : List UInt8 :=
  bs.take f.offset ++ (LittleEndian.split f.size n ++ bs.drop (f.offset + f.size))

theorem Field.lay_append (fields fields' : List (Field × Nat)) :
    lay (fields ++ fields') = lay fields ++ lay fields' := List.flatMap_append

theorem Field.put_lay {front back : List (Field × Nat)} {f : Field} (n m : Nat)
    (h : (lay front).length = f.offset) :
    f.put n (lay (front ++ (f, m) :: back)) = lay (front ++ (f, n) :: back) := by
  have hsplit : (lay front ++ LittleEndian.split f.size m).length = f.offset + f.size := by
    rw [List.length_append, LittleEndian.length_split, h]
  rw [put, lay_append, lay_append, lay_cons, lay_cons, List.take_left' h, ← List.append_assoc _ _
    (lay back), List.drop_left' hsplit]

/-- A program header with the low three bits of its flags word, and all the rest of it. -/
def lowFlags (w : Width) (bs : List UInt8) : List UInt8 :=
  (Field.segmentFlags w).put ((Field.segmentFlags w).read bs % 8) bs

/-- Two lists start with program headers that differ at most in the upper bits of the flags. -/
structure ProgramHeader.SameButFlags (w : Width) (bs bs' : List UInt8) : Prop where
  before : bs.take (Field.segmentFlags w).offset = bs'.take (Field.segmentFlags w).offset
  flags : (Field.segmentFlags w).read bs % 8 = (Field.segmentFlags w).read bs' % 8
  behind : (bs.take w.entrySize).drop ((Field.segmentFlags w).offset + 4) =
    (bs'.take w.entrySize).drop ((Field.segmentFlags w).offset + 4)

namespace RawProgramHeader

variable {α : Type} [Word α]

/-- The flags word stands between fields that do not depend on it. -/
theorem exists_layout_eq (w : Width) (h : RawProgramHeader α) :
    ∃ front back, (∀ flags, h.layout w flags = front ++ (Field.segmentFlags w, flags) :: back) ∧
      (Field.lay front).length = (Field.segmentFlags w).offset := by
  cases w with
  | bits32 =>
    refine ⟨[_, _, _, _, _, _], [_], fun _ => rfl, ?_⟩
    exact Field.length_lay ⟨rfl, rfl, rfl, rfl, rfl, rfl, rfl⟩
  | bits64 =>
    refine ⟨[_], [_, _, _, _, _, _], fun _ => rfl, ?_⟩
    exact Field.length_lay ⟨rfl, rfl⟩

theorem length_lay_layout (w : Width) (h : RawProgramHeader α) (flags : Nat) :
    (Field.lay (h.layout w flags)).length = w.entrySize :=
  Field.length_lay (h.tiles_layout w flags)

theorem lowFlags_lay {w : Width} {h : RawProgramHeader α} {flags : Nat}
    (hread : (Field.segmentFlags w).read (Field.lay (h.layout w flags)) = flags) :
    lowFlags w (Field.lay (h.layout w flags)) = Field.lay (h.layout w (flags % 8)) := by
  obtain ⟨front, back, hlayout, hfront⟩ := h.exists_layout_eq w
  unfold lowFlags
  rw [hread, hlayout, hlayout]
  exact Field.put_lay _ _ hfront

/-- Headers that agree in all fields but the flags word are alike but for its upper bits. -/
theorem sameButFlags_lay {w : Width} {h : RawProgramHeader α} {flags flags' : Nat}
    {rest rest' : List UInt8}
    (hread : (Field.segmentFlags w).read (Field.lay (h.layout w flags) ++ rest) % 8 =
      (Field.segmentFlags w).read (Field.lay (h.layout w flags') ++ rest') % 8) :
    ProgramHeader.SameButFlags w (Field.lay (h.layout w flags) ++ rest)
      (Field.lay (h.layout w flags') ++ rest') := by
  obtain ⟨front, back, hlayout, hfront⟩ := h.exists_layout_eq w
  have hsize : (Field.segmentFlags w).size = 4 := by cases w <;> rfl
  have hsplit : ∀ n, (Field.lay front ++ LittleEndian.split (Field.segmentFlags w).size n).length =
      (Field.segmentFlags w).offset + 4 := by
    intro n
    rw [List.length_append, LittleEndian.length_split, hfront, hsize]
  constructor
  case before =>
    rw [hlayout, hlayout, Field.lay_append, Field.lay_append, List.append_assoc,
      List.append_assoc, List.take_left' hfront, List.take_left' hfront]
  case flags => exact hread
  case behind =>
    rw [List.take_left' (h.length_lay_layout w flags),
      List.take_left' (h.length_lay_layout w flags'), hlayout, hlayout, Field.lay_append,
      Field.lay_append, Field.lay_cons, Field.lay_cons, ← List.append_assoc, ← List.append_assoc,
      List.drop_left' (hsplit flags), List.drop_left' (hsplit flags')]

theorem encode32_eq (h : RawProgramHeader UInt32) :
    h.encode32 = Field.lay (h.layout .bits32 h.flags.toWord.toNat) := by
  have hlay := h.lay_layout32 h.flags.toWord []
  rw [List.append_nil, List.append_nil] at hlay
  exact hlay.symm

theorem encode64_eq (h : RawProgramHeader UInt64) :
    h.encode64 = Field.lay (h.layout .bits64 h.flags.toWord.toNat) := by
  have hlay := h.lay_layout64 h.flags.toWord []
  rw [List.append_nil, List.append_nil] at hlay
  exact hlay.symm

end RawProgramHeader

namespace Codec

theorem faithful_programHeader32 : programHeader32.Faithful 32 (lowFlags .bits32) := by
  refine Faithful.of_lay (fun h => h.tiles_layout .bits32 _) RawProgramHeader.encode32_eq
    (fun h => h.layout_lt32 h.flags.toWord) RawProgramHeader.decode32?_encode32_append ?_
  intro bs hbs
  obtain ⟨h, rest, hdecode⟩ := RawProgramHeader.exists_decode32 hbs
  obtain ⟨flags, hflags, rfl⟩ := RawProgramHeader.decode32?_eq_some_iff_lay.1 hdecode
  have hlength : _ = 32 := h.length_lay_layout .bits32 flags.toNat
  have hread := h.read_lay32 flags [] (.segmentFlags .bits32, flags.toNat) (by simp
    [RawProgramHeader.layout])
  rw [List.append_nil] at hread
  refine ⟨h, ?_, ?_⟩
  · rw [List.drop_left' hlength]
    exact hdecode
  · rw [List.take_left' hlength, RawProgramHeader.lowFlags_lay hread,
      ← SegmentFlags.toNat_toWord_ofWord, ← hflags]
    exact h.encode32_eq

theorem faithful_programHeader64 : programHeader64.Faithful 56 (lowFlags .bits64) := by
  refine Faithful.of_lay (fun h => h.tiles_layout .bits64 _) RawProgramHeader.encode64_eq
    (fun h => h.layout_lt64 h.flags.toWord) RawProgramHeader.decode64?_encode64_append ?_
  intro bs hbs
  obtain ⟨h, rest, hdecode⟩ := RawProgramHeader.exists_decode64 hbs
  obtain ⟨flags, hflags, rfl⟩ := RawProgramHeader.decode64?_eq_some_iff_lay.1 hdecode
  have hlength : _ = 56 := h.length_lay_layout .bits64 flags.toNat
  have hread := h.read_lay64 flags [] (.segmentFlags .bits64, flags.toNat) (by simp
    [RawProgramHeader.layout])
  rw [List.append_nil] at hread
  refine ⟨h, ?_, ?_⟩
  · rw [List.drop_left' hlength]
    exact hdecode
  · rw [List.take_left' hlength, RawProgramHeader.lowFlags_lay hread,
      ← SegmentFlags.toNat_toWord_ofWord, ← hflags]
    exact h.encode64_eq

end Codec

/-! ## The views that do not depend on the width -/

namespace ProgramHeader

theorem ofRaw32_inj {h h' : RawProgramHeader UInt32} (heq : ofRaw32 h = ofRaw32 h') : h = h' := by
  have hwide : ∀ {x y : UInt32}, x.toUInt64 = y.toUInt64 → x = y := fun hxy =>
    UInt32.toUInt64_inj.1 hxy
  cases h
  cases h'
  simp only [ofRaw32, mk.injEq] at heq
  obtain ⟨rfl, rfl, hoffset, hvaddr, hpaddr, hfilesz, hmemsz, halign⟩ := heq
  rw [hwide hoffset, hwide hvaddr, hwide hpaddr, hwide hfilesz, hwide hmemsz, hwide halign]

theorem ofRaw64_inj {h h' : RawProgramHeader UInt64} (heq : ofRaw64 h = ofRaw64 h') : h = h' := by
  cases h
  cases h'
  simp only [ofRaw64, mk.injEq] at heq
  obtain ⟨rfl, rfl, rfl, rfl, rfl, rfl, rfl, rfl⟩ := heq
  rfl

/-- **The view of a program header** says everything about its bytes but the upper bits of the
flags. -/
theorem sameButFlags_of_decode?_eq {w : Width} {bs bs' : List UInt8}
    (h : w.entrySize ≤ bs.length) (h' : w.entrySize ≤ bs'.length)
    (heq : decode? w bs = decode? w bs') : SameButFlags w bs bs' := by
  -- the low bits of the flags are in the view
  obtain ⟨header, hdecode, hcarries⟩ := exists_carries h
  obtain ⟨header', hdecode', hcarries'⟩ := exists_carries h'
  have hview : header' = header := by
    rw [hdecode, hdecode'] at heq
    exact (Option.some_inj.1 heq).symm
  have hflags : (Field.segmentFlags w).read bs % 8 = (Field.segmentFlags w).read bs' % 8 := by
    rw [← hcarries.flags, ← hcarries'.flags, hview]
  cases w with
  | bits32 =>
    obtain ⟨raw, rest, hraw⟩ := RawProgramHeader.exists_decode32 h
    obtain ⟨raw', rest', hraw'⟩ := RawProgramHeader.exists_decode32 h'
    rw [decode?, decode?, hraw, hraw', Option.map_some, Option.map_some] at heq
    obtain rfl := ofRaw32_inj (Option.some_inj.1 heq)
    obtain ⟨flags, -, rfl⟩ := RawProgramHeader.decode32?_eq_some_iff_lay.1 hraw
    obtain ⟨flags', -, rfl⟩ := RawProgramHeader.decode32?_eq_some_iff_lay.1 hraw'
    exact RawProgramHeader.sameButFlags_lay hflags
  | bits64 =>
    obtain ⟨raw, rest, hraw⟩ := RawProgramHeader.exists_decode64 h
    obtain ⟨raw', rest', hraw'⟩ := RawProgramHeader.exists_decode64 h'
    rw [decode?, decode?, hraw, hraw', Option.map_some, Option.map_some] at heq
    obtain rfl := ofRaw64_inj (Option.some_inj.1 heq)
    obtain ⟨flags, -, rfl⟩ := RawProgramHeader.decode64?_eq_some_iff_lay.1 hraw
    obtain ⟨flags', -, rfl⟩ := RawProgramHeader.decode64?_eq_some_iff_lay.1 hraw'
    exact RawProgramHeader.sameButFlags_lay hflags

end ProgramHeader

/-- **The header codecs are faithful**: file headers are kept byte by byte, program headers but for
the upper bits of the flags word, and the views have every field they keep with the number that
stands at its place. -/
theorem codecs_faithful :
    Codec.fileHeader32.Faithful 52 id ∧ Codec.fileHeader64.Faithful 64 id ∧
      Codec.programHeader32.Faithful 32 (lowFlags .bits32) ∧
      Codec.programHeader64.Faithful 56 (lowFlags .bits64) ∧
      (∀ (w : Width) (bs : List UInt8), w.headerSize ≤ bs.length →
        ∃ header, FileHeader.decode? w bs = some header ∧ header.Carries w bs) ∧
      (∀ (w : Width) (bs : List UInt8), w.entrySize ≤ bs.length →
        ∃ header, ProgramHeader.decode? w bs = some header ∧ header.Carries w bs) ∧
      ∀ (w : Width) (bs bs' : List UInt8), w.entrySize ≤ bs.length → w.entrySize ≤ bs'.length →
        ProgramHeader.decode? w bs = ProgramHeader.decode? w bs' →
          ProgramHeader.SameButFlags w bs bs' :=
  ⟨Codec.faithful_fileHeader32, Codec.faithful_fileHeader64, Codec.faithful_programHeader32,
    Codec.faithful_programHeader64, fun _ _ h => FileHeader.exists_carries h,
    fun _ _ h => ProgramHeader.exists_carries h,
    fun _ _ _ h h' heq => ProgramHeader.sameButFlags_of_decode?_eq h h' heq⟩

/-- The bytes from 1 to 32, as a 32-bit program header. -/
def countingHeader : List UInt8 := (List.range 32).map fun i => UInt8.ofNat (i + 1)

theorem codecs_faithful_sample :
    (∃ header, ProgramHeader.decode? .bits32 countingHeader = some header ∧
      header.virtualAddress.toNat = 0x0C0B0A09 ∧ header.flags.toWord.toNat = 1) ∧
      ProgramHeader.SameButFlags .bits32 countingHeader (lowFlags .bits32 countingHeader) := by
  obtain ⟨-, -, -, -, -, hcarries, hsame⟩ := codecs_faithful
  have hlong : Width.bits32.entrySize ≤ countingHeader.length := by decide
  obtain ⟨header, hdecode, h⟩ := hcarries .bits32 _ hlong
  refine ⟨⟨header, hdecode, h.virtualAddress.trans (by decide), h.flags.trans (by decide)⟩, ?_⟩
  exact hsame .bits32 _ _ hlong (by decide) (by decide)

end ElfBoot
