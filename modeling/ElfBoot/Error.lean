import ElfBoot.Status
import ElfBoot.Text.Hex

/-!
# Load errors

Every way in which loading an image can fail.  All of them are fatal: the loader stops at the
first one.

* `LoadError` — the causes; reading and allocation have causes of their own.
* `LoadError.message` — the text shown to a person.
* `LoadError.status` — the status reported to the firmware.
-/

set_option autoImplicit false

namespace ElfBoot

open Text (hex)

/-- Failures of an open image file. -/
inductive IoError where
  | openFailed (status : Status)
  | seekFailed (offset : Nat)
  | readFailed (status : Status)
  | shortRead (expected actual : Nat)
  | closeFailed
  deriving DecidableEq, Repr

/-- Failures to obtain or to reach memory. -/
inductive AllocationError where
  /-- The pages at a fixed address are not to be had. -/
  | reserve (address pages : Nat)
  /-- A scratch buffer of that many bytes is not to be had. -/
  | buffer (len : Nat)
  /-- The bytes lie outside every reservation. -/
  | outOfRange (address len : Nat)
  deriving DecidableEq, Repr

/-- Values in an image that cannot be loaded. -/
inductive InvalidParameter where
  | noProgramHeaders
  | entrySize (size : UInt16)
  | tableTooLarge (size : Nat)
  /-- The program header at `index` has more bytes in the file than in memory. -/
  | segmentSize (index : Nat)
  /-- The program header at `index` reaches past the last address or file offset. -/
  | segmentOverflow (index : Nat)
  deriving DecidableEq, Repr

/-- Why an image was not loaded. -/
inductive LoadError where
  | notFound
  | io (cause : IoError)
  | invalidFormat
  | unsupportedFormat (width : UInt8)
  | unsupportedEncoding (encoding : UInt8)
  | allocation (cause : AllocationError)
  | noLoadableSegments
  | invalidParameter (cause : InvalidParameter)
  deriving DecidableEq, Repr

/-! ## Texts -/

def IoError.message : IoError → String
  | openFailed status => s!"cannot open image (status {hex status.code.toNat})"
  | seekFailed offset => s!"cannot set file position to {hex offset}"
  | readFailed status => s!"read failed (status {hex status.code.toNat})"
  | shortRead expected actual => s!"short read: expected {expected} bytes, got {actual}"
  | closeFailed => "cannot close image"

def AllocationError.message : AllocationError → String
  | reserve address pages => s!"cannot reserve {pages} pages at {hex address}"
  | buffer len => s!"cannot allocate a {len} byte buffer"
  | outOfRange address len => s!"{hex len} bytes at {hex address} lie outside any reserved range"

def InvalidParameter.message : InvalidParameter → String
  | noProgramHeaders => "no program headers"
  | entrySize size => s!"program header entry size {size.toNat} is too small"
  | tableTooLarge size => s!"program header table of {hex size} bytes is too large"
  | segmentSize index => s!"segment {index} has a memory size smaller than its file size"
  | segmentOverflow index => s!"segment {index} wraps around the address space"

namespace LoadError

def message : LoadError → String
  | notFound => "kernel image not found"
  | io cause => s!"i/o error: {cause.message}"
  | invalidFormat => "invalid ELF header"
  | unsupportedFormat width => s!"unsupported ELF class {width.toNat}"
  | unsupportedEncoding encoding =>
    s!"unsupported data encoding {encoding.toNat}, only little-endian images are supported"
  | allocation cause => s!"allocation failed: {cause.message}"
  | noLoadableSegments => "no loadable program segments found in kernel image"
  | invalidParameter cause => s!"invalid parameter: {cause.message}"

/-! ## Statuses -/

/-- What the firmware is told.  A status it gave itself when a file was opened or read goes back
unchanged. -/
def status : LoadError → Status
  | notFound => .notFound
  | io (.openFailed status) => status
  | io (.readFailed status) => status
  | io _ => .deviceError
  | invalidFormat => .invalidParameter
  | unsupportedFormat _ => .unsupported
  | unsupportedEncoding _ => .incompatibleVersion
  | allocation _ => .outOfResources
  | noLoadableSegments => .notFound
  | invalidParameter _ => .invalidParameter

end LoadError

end ElfBoot
