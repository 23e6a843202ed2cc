import ElfBoot.Error
import ElfBoot.Image.Width

/-!
# Notices

The loader reports what it does and what went wrong.  A notice says what is reported; its level
and its text follow from that.

* `Level` — how severe a notice is; a reader who asks for a level sees it and all severer ones.
* `Notice` — everything that is ever reported.
* `Notice.level`, `Notice.message` — severity and text.
-/

set_option autoImplicit false

namespace ElfBoot

open Text (hex)

/-- How severe a notice is. -/
inductive Level where
  | error
  | warn
  | info
  | debug
  | trace
  deriving DecidableEq, Repr

namespace Level

/-- The most severe level has the lowest rank. -/
def rank : Level → Nat
  | error => 0
  | warn => 1
  | info => 2
  | debug => 3
  | trace => 4

def name : Level → String
  | error => "ERROR"
  | warn => "WARN"
  | info => "INFO"
  | debug => "DEBUG"
  | trace => "TRACE"

end Level

/-- Something the loader reports. -/
inductive Notice where
  -- the image file
  | openingImage (path : String)
  | openImageFailed (path : String) (cause : LoadError)
  | closingImage
  | closeImageFailed (cause : IoError)
  -- the identity block
  | seekingIdentity
  | seekIdentityFailed (cause : IoError)
  | readIdentityFailed (cause : LoadError)
  | badMagic
  | badWidth (width : UInt8)
  | foundWidth (width : Width)
  | badEncoding
  | identityValid
  -- the headers
  | unknownWidth
  | seekingHeader
  | seekHeadersFailed (cause : IoError)
  | headerBuffer (len : Nat)
  | readingHeader
  | readHeaderFailed (cause : LoadError)
  | entrySizeTooSmall (size : UInt16) (layout : Nat)
  | tableTooLarge (size : Nat)
  | seekingTable (offset : Nat)
  | tableBuffer (len : Nat)
  | readingTable
  | readTableFailed (cause : LoadError)
  /-- One line of a listing of the headers. -/
  | listing (line : String)
  -- the plan
  | emptyTable
  | nothingToLoad
  | segmentTooSmall (index memorySize fileSize : Nat)
  | loadingSegments (planned entries : Nat)
  -- one segment
  | seekingSegment (offset : Nat)
  | seekSegmentFailed (cause : IoError)
  | reservingPages (pages address : Nat)
  | reserveFailed (cause : LoadError)
  | segmentBuffer (len : Nat)
  | readingSegment (len : Nat)
  | readSegmentFailed (cause : LoadError)
  | copyingSegment (address : Nat)
  | copySegmentFailed (cause : LoadError)
  | zeroFilling (len address : Nat)
  | zeroFillFailed (cause : LoadError)
  | segmentPlaced (index memorySize address fileSize : Nat)
  | entryPoint (address : Nat)
  -- the firmware
  | readingFile (path : String) (size : Nat)
  | allocationRefused (address pages : Nat) (status : Status)
  deriving DecidableEq, Repr

namespace Notice

def level : Notice → Level
  | openImageFailed .. | closeImageFailed .. | seekIdentityFailed .. | readIdentityFailed ..
  | badMagic | badWidth .. | badEncoding | unknownWidth | seekHeadersFailed ..
  | readHeaderFailed .. | entrySizeTooSmall .. | tableTooLarge .. | readTableFailed ..
  | emptyTable | nothingToLoad | segmentTooSmall .. | seekSegmentFailed .. | reserveFailed ..
  | readSegmentFailed .. | copySegmentFailed .. | zeroFillFailed .. => .error
  | listing .. | segmentPlaced .. | entryPoint .. => .info
  | openingImage .. | closingImage | seekingIdentity | foundWidth .. | identityValid
  | seekingHeader | headerBuffer .. | readingHeader | seekingTable .. | tableBuffer ..
  | readingTable | loadingSegments .. | seekingSegment .. | reservingPages .. | segmentBuffer ..
  | readingSegment .. | copyingSegment .. | zeroFilling .. | readingFile ..
  | allocationRefused .. => .debug

def message : Notice → String
  | openingImage path => s!"Reading kernel image file {path}"
  | openImageFailed path cause => s!"Error opening kernel file {path}: {cause.message}"
  | closingImage => "Closing kernel binary"
  | closeImageFailed cause => s!"Error closing kernel image: {cause.message}"
  | seekingIdentity => "Setting file pointer position to read ELF identity"
  | seekIdentityFailed cause => s!"Error resetting file pointer position: {cause.message}"
  | readIdentityFailed cause => s!"Error reading kernel identity: {cause.message}"
  | badMagic => "Invalid ELF header"
  | badWidth width => s!"Invalid executable class {width.toNat}"
  | foundWidth width => s!"Found {width.name} executable"
  | badEncoding => "Only LSB ELF executables are currently supported"
  | identityValid => "ELF header is valid"
  | unknownWidth => "Invalid file class"
  | seekingHeader => "Setting file pointer to read executable header"
  | seekHeadersFailed cause => s!"Error setting file pointer position: {cause.message}"
  | headerBuffer len => s!"Allocating {hex len} bytes for kernel executable header buffer"
  | readingHeader => "Reading kernel executable header"
  | readHeaderFailed cause => s!"Error reading kernel header: {cause.message}"
  | entrySizeTooSmall size layout =>
    s!"Program header entry size {size.toNat} is smaller than {layout}"
  | tableTooLarge size => s!"Program header table of {hex size} bytes is too large"
  | seekingTable offset => s!"Setting file offset to {hex offset} to read program headers"
  | tableBuffer len => s!"Allocating {hex len} bytes for program headers buffer"
  | readingTable => "Reading program headers"
  | readTableFailed cause => s!"Error reading kernel program headers: {cause.message}"
  | listing line => line
  | emptyTable => "No program segments to load in kernel image"
  | nothingToLoad => "No loadable program segments found in kernel image"
  | segmentTooSmall index memorySize fileSize =>
    s!"Segment {index}: memory size {hex memorySize} is smaller than file size {hex fileSize}"
  | loadingSegments planned entries => s!"Loading {planned} of {entries} segments"
  | seekingSegment offset => s!"Setting file pointer to segment offset {hex offset}"
  | seekSegmentFailed cause => s!"Error setting file pointer to segment offset: {cause.message}"
  | reservingPages pages address => s!"Allocating {pages} pages at address {hex address}"
  | reserveFailed cause => s!"Error allocating pages for ELF segment: {cause.message}"
  | segmentBuffer len => s!"Allocating segment buffer with size {hex len}"
  | readingSegment len => s!"Reading segment data with file size {hex len}"
  | readSegmentFailed cause => s!"Error reading segment data: {cause.message}"
  | copyingSegment address => s!"Copying segment to memory address {hex address}"
  | copySegmentFailed cause => s!"Error copying program section into memory: {cause.message}"
  | zeroFilling len address => s!"Zero-filling {len} bytes at address {hex address}"
  | zeroFillFailed cause => s!"Error zero filling segment: {cause.message}"
  | segmentPlaced index memorySize address fileSize =>
    s!"Segment {index}: {hex memorySize} bytes at {hex address} ({hex fileSize} from file)"
  | entryPoint address => s!"Kernel entry point: {hex address}"
  | readingFile path size => s!"Reading {path} ({size} bytes)"
  | allocationRefused address pages status =>
    s!"AllocatePages({hex address}, {pages}): {status.name}"

/-- Level and text on one line. -/
def line (n : Notice) : String := n.level.name ++ " " ++ n.message

/-- Whether a reader who asks for `threshold` sees the notice. -/
def isVisible (threshold : Level) (n : Notice) : Bool := n.level.rank ≤ threshold.rank

end Notice

end ElfBoot
