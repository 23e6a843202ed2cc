import ElfBoot.Image.FileHeader
import ElfBoot.Image.ProgramHeader
import ElfBoot.Memory.Pages

/-!
# Building images

`Builder.build` assembles an image from an entry point and a list of parts, one program header
each.  The program header table follows the file header directly; entries stand at least one
layout size apart, and further if a larger entry size is asked for.  The image is as long as its
headers and the data of its last part need.  Data is written last, so a part that starts inside
the headers overwrites them.
-/

set_option autoImplicit false

namespace ElfBoot

/-- Replaces the bytes of a list from an offset on. -/
def overlay (bytes : List UInt8) (offset : Nat) (patch : List UInt8) : List UInt8 :=
  bytes.take offset ++ patch ++ bytes.drop (offset + patch.length)

/-- One program header and the file data that belongs to it. -/
structure Part where
  kind : UInt32 := SegmentKind.load
  offset : Nat
  data : List UInt8
  memorySize : Nat
  address : Nat
  deriving DecidableEq, Repr

namespace Part

/-- Readable and executable, at its address both virtually and physically, aligned to a page. -/
def header32 (p : Part) : RawProgramHeader UInt32 :=
  ⟨p.kind, .readExec, .ofNat p.offset, .ofNat p.address, .ofNat p.address, .ofNat p.data.length,
    .ofNat p.memorySize, .ofNat pageSize⟩

/-- The same header in the 64-bit layout. -/
def header64 (p : Part) : RawProgramHeader UInt64 :=
  ⟨p.kind, .readExec, .ofNat p.offset, .ofNat p.address, .ofNat p.address, .ofNat p.data.length,
    .ofNat p.memorySize, .ofNat pageSize⟩

/-- The program header as it stands in the table. -/
def entry (p : Part) : Width → List UInt8
  | .bits32 => p.header32.encode32
  | .bits64 => p.header64.encode64

end Part

/-- What an image is built from. -/
structure Builder where
  width : Width
  entry : Nat := 0
  /-- The entry size written into the file header, if it is not the layout size. -/
  phentsize : Option UInt16 := none
  parts : List Part := []
  deriving DecidableEq, Repr

namespace Builder

/-- The identity block of a little-endian image of format version one. -/
def identity (w : Width) : Identity :=
  ⟨Identity.elfMagic ++ [w.ident, Identity.littleEndian, 1] ++ List.replicate 9 0, rfl⟩

/-- The entry size in the file header. -/
def entrySize (b : Builder) : UInt16 := b.phentsize.getD (.ofNat b.width.entrySize)

/-- Distance from one table entry to the next. -/
def stride (b : Builder) : Nat := max b.width.entrySize b.entrySize.toNat

/-- Where the program header table ends. -/
def tableEnd (b : Builder) : Nat := b.width.headerSize + b.stride * b.parts.length

/-- Where the data of the last part ends. -/
def dataEnd (b : Builder) : Nat :=
  b.parts.foldl (fun stop p => max stop (p.offset + p.data.length)) 0

/-- An executable whose addresses are words made by `address`. -/
def rawHeader {α : Type} (b : Builder) (machine : UInt16) (address : Nat → α) : RawFileHeader α where
  ident := identity b.width
  kind := 2
  machine := machine
  version := 1
  entry := address b.entry
  phoff := address (if b.parts.isEmpty then 0 else b.width.headerSize)
  shoff := address 0
  flags := 0
  ehsize := .ofNat b.width.headerSize
  phentsize := b.entrySize
  phnum := .ofNat b.parts.length
  shentsize := 0
  shnum := 0
  shstrndx := 0

/-- The file header: for x86 or for x86-64. -/
def header (b : Builder) : List UInt8 :=
  match b.width with
  | .bits32 => (b.rawHeader 3 UInt32.ofNat).encode
  | .bits64 => (b.rawHeader 62 UInt64.ofNat).encode

/-- Writes the program headers of some parts, the first one at an offset. -/
def putEntries (b : Builder) (offset : Nat) : List Part → List UInt8 → List UInt8
  | [], image => image
  | p :: rest, image =>
    b.putEntries (offset + b.stride) rest (overlay image offset (p.entry b.width))

/-- Writes the data of every part. -/
def putData (parts : List Part) (image : List UInt8) : List UInt8 :=
  parts.foldl (fun image p => overlay image p.offset p.data) image

/-- The finished image. -/
def build (b : Builder) : List UInt8 :=
  let blank := List.replicate (max b.tableEnd b.dataEnd) 0
  putData b.parts (b.putEntries b.width.headerSize b.parts (overlay blank 0 b.header))

end Builder

end ElfBoot
