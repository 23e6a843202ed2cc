import ElfBoot.Image.ProgramHeader
import ElfBoot.Load.ReadExact
import ElfBoot.Memory.Pages

/-!
# Placing one segment

A segment is the part of a program header that placement needs.  `Segment.ofHeader` checks every
size and address once, so that placing a checked segment meets no negative length and no address
past the last one; a segment that was not checked may fault.

* `Segment` — where the bytes come from and where they go.
* `Segment.ofHeader` — a program header as a segment, or why it is refused.
* `Segment.pageBase`, `Segment.pageCount?` — the pages to reserve.
* `Load.placeSegment` — seek, reserve, copy the bytes from the file, clear the rest.
-/

set_option autoImplicit false

namespace ElfBoot

/-- Where one loadable segment comes from and where it goes. -/
structure Segment where
  /-- Position in the program header table. -/
  index : Nat
  fileOffset : Nat
  fileSize : Nat
  memorySize : Nat
  address : Nat
  deriving DecidableEq, Repr

namespace Segment

/-- First address past the segment, if it is an address. -/
def end? (s : Segment) : Option Nat := Address.add? s.address s.memorySize

/-- Bytes in memory past those from the file, unless there are fewer. -/
def zeroFill? (s : Segment) : Option Nat := Address.sub? s.memorySize s.fileSize

/-- Start of the page that holds the first byte. -/
def pageBase (s : Segment) : Nat := ElfBoot.pageBase s.address

/-- Pages to reserve from `pageBase` on; `none` if the distance from there to the end of the
segment is no length. -/
def pageCount? (s : Segment) : Option Nat :=
  (Address.add? (s.address - s.pageBase) s.memorySize).map pagesFor

/-- The fields of the program header at position `index`, unchecked. -/
def ofFields (index : Nat) (h : ProgramHeader) : Segment :=
  ⟨index, h.offset.toNat, h.fileSize.toNat, h.memorySize.toNat, h.physicalAddress.toNat⟩

/-- The program header at position `index`, as a segment to place. -/
def ofHeader (index : Nat) (h : ProgramHeader) : Except LoadError Segment :=
  let s := ofFields index h
  if h.zeroFill? = none then .error (.invalidParameter (.segmentSize index))
  else if (Address.add? s.fileOffset s.fileSize).isNone || s.end?.isNone || s.pageCount?.isNone
  then .error (.invalidParameter (.segmentOverflow index))
  else .ok s

/-- What is reported about a program header before it is refused as a segment. -/
def findings (index : Nat) (h : ProgramHeader) : List Notice :=
  if h.zeroFill? = none
  then [.segmentTooSmall index h.memorySize.toNat h.fileSize.toNat] else []

end Segment

namespace Load

/-- `Segment.ofHeader`, reporting a memory size that is too small. -/
def checkSegment (index : Nat) (h : ProgramHeader) : Load Segment := do
  notes (Segment.findings index h)
  check (Segment.ofHeader index h)

/-- Reserves the pages that a segment touches. -/
def reservePages (s : Segment) (pages : Nat) : Load Unit := do
  if 0 < pages then
    note (.reservingPages pages s.pageBase)
    settle .reserveFailed (← ask (.reserve s.pageBase pages))

/-- Copies the bytes of a segment that are in the file, from the read position on. -/
def copyFromFile (s : Segment) : Load Unit := do
  if 0 < s.fileSize then
    note (.segmentBuffer s.fileSize)
    scratch s.fileSize
    note (.readingSegment s.fileSize)
    let bytes ← reporting .readSegmentFailed (readExact s.fileSize)
    note (.copyingSegment s.address)
    settle .copySegmentFailed (← ask (.write s.address bytes))

/-- Clears the bytes of a segment that are not in the file. -/
def clearRest (s : Segment) : Load Unit := do
  let len ← expect s.zeroFill?
  if 0 < len then
    let start ← expect (Address.add? s.address s.fileSize)
    note (.zeroFilling len start)
    settle .zeroFillFailed (← ask (.zero start len))

/-- Copies the bytes of a segment to its address and clears the rest of it.  The first failure
ends it; nothing is tried again or taken back. -/
def placeSegment (s : Segment) : Load Unit := do
  note (.seekingSegment s.fileOffset)
  settleIo .seekSegmentFailed (← ask (.seek s.fileOffset))
  match s.pageCount? with
  | none => throw (.invalidParameter (.segmentOverflow s.index))
  | some pages => reservePages s pages
  copyFromFile s
  clearRest s

end Load

end ElfBoot
