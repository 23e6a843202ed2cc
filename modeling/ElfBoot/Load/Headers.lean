import ElfBoot.Image.FileHeader
import ElfBoot.Image.Table
import ElfBoot.Load.ReadExact

/-!
# Reading the headers

`Load.readHeaders` reads the file header of the open image and the program header table that it
names.  The entry count and the entry size both come from the image, so the size of the table is
judged before a buffer for it is asked for: `maxTableSize` bounds every request.

`Headers.listing` is a description of both for a reader, one line per fact.
-/

set_option autoImplicit false

namespace ElfBoot

open Text (hex hexPadded decimalField)

/-- The largest program header table that is read, in bytes. -/
def maxTableSize : Nat := 0x10000

/-- The file header and the program header table of an image. -/
structure Headers where
  file : FileHeader
  table : Table
  deriving DecidableEq, Repr

namespace Load

/-- Reads the table that a file header names. -/
def readTable (w : Width) (header : FileHeader) : Load Table := do
  if header.phnum = 0 then
    return .empty w
  if header.phentsize.toNat < w.entrySize then
    note (.entrySizeTooSmall header.phentsize w.entrySize)
    throw (.invalidParameter (.entrySize header.phentsize))
  let size := header.tableSize
  if maxTableSize < size then
    note (.tableTooLarge size)
    throw (.invalidParameter (.tableTooLarge size))
  note (.seekingTable header.phoff.toNat)
  settleIo .seekHeadersFailed (← ask (.seek header.phoff.toNat))
  note (.tableBuffer size)
  scratch size
  note .readingTable
  let bytes ← reporting .readTableFailed (readExact size)
  match Table.ofBlob? w header.phentsize.toNat bytes with
  | some table => return table
  | none => throw (.invalidParameter (.entrySize header.phentsize))

/-- Reads the headers of an image whose identity block names the given width. -/
def readHeaders (width : Option Width) : Load Headers := do
  let some w := width
    | do note .unknownWidth; throw (.unsupportedFormat 0)
  note .seekingHeader
  settleIo .seekHeadersFailed (← ask (.seek 0))
  note (.headerBuffer w.headerSize)
  scratch w.headerSize
  note .readingHeader
  let bytes ← reporting .readHeaderFailed (readExact w.headerSize)
  let header ← expect (FileHeader.decode? w bytes)
  let table ← readTable w header
  return ⟨header, table⟩

end Load

/-! ## A description of the headers -/

/-- The lines that describe a file header. -/
def FileHeader.listing (h : FileHeader) : List String :=
  ["ELF Header Info:",
   "  Magic:                    " ++ " ".intercalate (h.magic.map fun b => hex b.toNat),
   "  Class:                    " ++ h.width.name,
   "  Endianness:               " ++ encodingName h.encoding,
   "  Version:                  " ++ hex h.identVersion.toNat,
   "  OS ABI:                   " ++ (osAbiName? h.osAbi).getD (hex h.osAbi.toNat),
   "  ABI Version:              " ++ hex h.abiVersion.toNat,
   "  File Type:                " ++ fileKindName h.kind,
   "  Machine Type:             " ++ machineName h.machine,
   "  Entry point:              " ++ hex h.entry.toNat,
   "  Program header offset:    " ++ hex h.phoff.toNat,
   "  Section header offset:    " ++ hex h.shoff.toNat,
   "  Program header count:     " ++ toString h.phnum.toNat,
   "  Section header count:     " ++ toString h.shnum.toNat]

/-- The two lines that describe the program header at a position of the table. -/
def ProgramHeader.listing (h : ProgramHeader) (index : Nat) : List String :=
  [s!"  [{decimalField 2 index}] {SegmentKind.name h.kind} {h.flags.describe} off " ++
     hexPadded 8 h.offset.toNat ++ " vaddr " ++ hexPadded 16 h.virtualAddress.toNat ++
     " paddr " ++ hexPadded 16 h.physicalAddress.toNat,
   "       filesz " ++ hex h.fileSize.toNat ++ " memsz " ++ hex h.memorySize.toNat ++
     " align " ++ hex h.align.toNat]

namespace Headers

/-- The file header, then every program header. -/
def listing (h : Headers) : List String :=
  h.file.listing ++ h.table.entries.zipIdx.flatMap fun p => p.1.listing p.2

/-- Reports the description line by line. -/
def report (h : Headers) : Load Unit := Load.notes (h.listing.map .listing)

end Headers

end ElfBoot
