import ElfBoot.Image.Identity

/-!
# The file header

The header that follows the identity block says where the image starts and where its program
header table is.  Its layout is the same for both widths except for the size of the three
address fields.

* `RawFileHeader α` — the fields as they stand in a file, with addresses in words of type `α`.
* `RawFileHeader.encode` / `RawFileHeader.decode?` — the on-disk layout, written and read.
* `FileHeader` — the fields that matter to a loader, with addresses widened to 64 bits.
* `FileHeader.decode?` — the header at the front of a byte list, by width.

`RawFileHeader.decode?_encode_append` says that the layout is read where it was written.
-/

set_option autoImplicit false

namespace ElfBoot

/-- The file header as it stands in a file, with addresses and offsets of type `α`. -/
structure RawFileHeader (α : Type) where
  ident : Identity
  kind : UInt16
  machine : UInt16
  version : UInt32
  entry : α
  phoff : α
  shoff : α
  flags : UInt32
  ehsize : UInt16
  phentsize : UInt16
  phnum : UInt16
  shentsize : UInt16
  shnum : UInt16
  shstrndx : UInt16
  deriving DecidableEq, Repr

namespace RawFileHeader

/-- Changes the type of the addresses. -/
def map {α β : Type} (f : α → β) (h : RawFileHeader α) : RawFileHeader β :=
  { h with entry := f h.entry, phoff := f h.phoff, shoff := f h.shoff }

variable {α : Type} [Word α]

/-- The on-disk layout. -/
def encode (h : RawFileHeader α) : List UInt8 :=
  h.ident.bytes ++ (Word.encode h.kind ++ (Word.encode h.machine ++ (Word.encode h.version ++
    (Word.encode h.entry ++ (Word.encode h.phoff ++ (Word.encode h.shoff ++
    (Word.encode h.flags ++ (Word.encode h.ehsize ++ (Word.encode h.phentsize ++
    (Word.encode h.phnum ++ (Word.encode h.shentsize ++ (Word.encode h.shnum ++
    Word.encode h.shstrndx))))))))))))

/-- The header at the front of a byte list, and what follows it; `none` if the list is too
short. -/
def decode? (bs : List UInt8) : Option (RawFileHeader α × List UInt8) :=
  Identity.read? bs fun ident bs =>
  Word.read? bs fun kind bs =>
  Word.read? bs fun machine bs =>
  Word.read? bs fun version bs =>
  Word.read? bs fun entry bs =>
  Word.read? bs fun phoff bs =>
  Word.read? bs fun shoff bs =>
  Word.read? bs fun flags bs =>
  Word.read? bs fun ehsize bs =>
  Word.read? bs fun phentsize bs =>
  Word.read? bs fun phnum bs =>
  Word.read? bs fun shentsize bs =>
  Word.read? bs fun shnum bs =>
  Word.read? bs fun shstrndx bs =>
  some (⟨ident, kind, machine, version, entry, phoff, shoff, flags, ehsize, phentsize, phnum,
    shentsize, shnum, shstrndx⟩, bs)

theorem decode?_encode_append (h : RawFileHeader α) (rest : List UInt8) :
    decode? (h.encode ++ rest) = some (h, rest) := by
  simp only [decode?, encode, List.append_assoc, ↓Identity.read?_append,
    ↓Word.read?_encode_append]

end RawFileHeader

/-! ## The header by width -/

/-- The raw header of an image of the given width, with addresses widened to 64 bits. -/
def RawFileHeader.decodeWide? (w : Width) (bs : List UInt8) : Option (RawFileHeader UInt64) :=
  match w with
  | .bits32 =>
    (@RawFileHeader.decode? UInt32 _ bs).map fun p => p.1.map UInt32.toUInt64
  | .bits64 => (@RawFileHeader.decode? UInt64 _ bs).map fun p => p.1

/-- What a loader reads from a file header. -/
structure FileHeader where
  magic : List UInt8
  width : Width
  encoding : UInt8
  identVersion : UInt8
  osAbi : UInt8
  abiVersion : UInt8
  kind : UInt16
  machine : UInt16
  version : UInt32
  entry : UInt64
  phoff : UInt64
  shoff : UInt64
  flags : UInt32
  phentsize : UInt16
  phnum : UInt16
  shnum : UInt16
  deriving DecidableEq, Repr

namespace FileHeader

/-- The view of a raw header that does not depend on the width. -/
def ofRaw (w : Width) (h : RawFileHeader UInt64) : FileHeader where
  magic := h.ident.magic
  width := w
  encoding := h.ident.encoding
  identVersion := h.ident.version
  osAbi := h.ident.osAbi
  abiVersion := h.ident.abiVersion
  kind := h.kind
  machine := h.machine
  version := h.version
  entry := h.entry
  phoff := h.phoff
  shoff := h.shoff
  flags := h.flags
  phentsize := h.phentsize
  phnum := h.phnum
  shnum := h.shnum

/-- The file header of an image of the given width; `none` if the bytes end before it does. -/
def decode? (w : Width) (bs : List UInt8) : Option FileHeader :=
  (RawFileHeader.decodeWide? w bs).map (ofRaw w)

/-- Bytes in the program header table the header describes. -/
def tableSize (h : FileHeader) : Nat := h.phentsize.toNat * h.phnum.toNat

end FileHeader

end ElfBoot
