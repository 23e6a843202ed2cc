import ElfBoot.Handoff.MapView
import ElfBoot.Text.Utf8

/-!
# The boot record

What the loader hands to the kernel: where the image is, the memory map, the command line and a
few flags.

* `CommandLine` — 256 bytes, of which a text takes those up to the first zero.
* `BootFlags` — three flags in the low bits of a word.
* `BootInfo` — the record.  The map is kept as the bytes it points at.
* `BootInfo.setCommandLine`, `BootInfo.setMemoryMap` — what the loader fills in.
* `BootInfo.commandLine`, `BootInfo.memoryMap` — what the kernel reads.
-/

set_option autoImplicit false

namespace ElfBoot.Handoff

/-! ## The command line -/

/-- Bytes for the command line, the zero that ends it included. -/
def commandLineSize : Nat := 256

/-- The stored command line. -/
structure CommandLine where
  bytes : List UInt8
  length_eq : bytes.length = commandLineSize
  deriving DecidableEq, Repr

namespace CommandLine

/-- No command line: zeros. -/
def empty : CommandLine := ⟨List.replicate commandLineSize 0, by simp⟩

instance : Inhabited CommandLine := ⟨empty⟩

/-- A text, cut off where it would leave no room for the zero that ends it. -/
def ofText (text : String) : CommandLine :=
  let kept := (Text.utf8 text).take (commandLineSize - 1)
  ⟨kept ++ List.replicate (commandLineSize - kept.length) 0, by
    have : kept.length ≤ commandLineSize - 1 := List.length_take_le _ _
    simp only [List.length_append, List.length_replicate]
    omega⟩

/-- Replaces the first bytes; those past the end of the field are dropped. -/
def overwrite (c : CommandLine) (front : List UInt8) : CommandLine :=
  let kept := front.take commandLineSize
  ⟨kept ++ c.bytes.drop kept.length, by
    have : kept.length ≤ commandLineSize := List.length_take_le _ _
    simp only [List.length_append, List.length_drop, c.length_eq]
    omega⟩

/-- The text up to the first zero, or up to the last complete character if one was cut off. -/
def text (c : CommandLine) : String :=
  String.ofList (Text.wholeCharacters (c.bytes.takeWhile fun b => b != 0))

end CommandLine

/-! ## Flags -/

/-- Flags of the boot record. -/
structure BootFlags where
  /-- The loader reported everything it did. -/
  debugMode : Bool := false
  /-- The kernel is a 32-bit image. -/
  kernel32 : Bool := false
  /-- Some regions of the memory map were dropped. -/
  mapTruncated : Bool := false
  deriving DecidableEq, Repr, Inhabited

namespace BootFlags

/-- All flags set. -/
def all : BootFlags := ⟨true, true, true⟩

/-- The low three bits of a word, lowest first. -/
def ofWord (w : UInt32) : BootFlags :=
  ⟨w.toNat.testBit 0, w.toNat.testBit 1, w.toNat.testBit 2⟩

/-- The word whose low three bits are the flags. -/
def toWord (f : BootFlags) : UInt32 :=
  (if f.debugMode then 1 else 0) + (if f.kernel32 then 2 else 0) + if f.mapTruncated then 4 else 0

/-- Gives the flags chosen by a mask a new value and keeps the others. -/
def set (f mask : BootFlags) (value : Bool) : BootFlags where
  debugMode := if mask.debugMode then value else f.debugMode
  kernel32 := if mask.kernel32 then value else f.kernel32
  mapTruncated := if mask.mapTruncated then value else f.mapTruncated

end BootFlags

/-! ## The record -/

/-- What is handed to the kernel. -/
structure BootInfo where
  kernelEntry : UInt64 := 0
  kernelBase : UInt64 := 0
  kernelEnd : UInt64 := 0
  /-- The bytes of the memory map, if there is one. -/
  map : Option (List UInt8) := none
  mapLength : UInt32 := 0
  mapDescriptorSize : UInt32 := 0
  /-- Regions that did not fit into the map. -/
  mapDropped : UInt32 := 0
  cmdline : CommandLine := .empty
  flags : BootFlags := {}
  deriving DecidableEq, Repr, Inhabited

namespace BootInfo

/-- Bytes of the record: four addresses, three counts, the command line and the flags. -/
def layoutSize : Nat := 4 * 8 + 3 * 4 + commandLineSize + 4

/-- Stores a command line, cut off to fit. -/
def setCommandLine (i : BootInfo) (text : String) : BootInfo := { i with cmdline := .ofText text }

/-- The command line as a text. -/
def commandLine (i : BootInfo) : String := i.cmdline.text

/-- A count as a 32-bit word, the largest one if it does not fit. -/
def saturate (n : Nat) : UInt32 := if n ≤ 0xFFFFFFFF then .ofNat n else 0xFFFFFFFF

/-- Records a memory map.  The map is marked as truncated if regions were dropped from it. -/
def setMemoryMap (i : BootInfo) (regions : List Region) (dropped : Nat) : BootInfo :=
  { i with
    map := some (regions.flatMap Region.encode)
    mapLength := .ofNat regions.length
    mapDescriptorSize := .ofNat Region.layoutSize
    mapDropped := saturate dropped
    flags := { i.flags with mapTruncated := decide (0 < dropped) } }

/-- The memory map as the kernel reads it. -/
def memoryMap (i : BootInfo) : MapView :=
  let size := i.mapLength.toNat * i.mapDescriptorSize.toNat
  let blob := ((i.map.getD []).take size)
  (MapView.ofBlob? blob i.mapDescriptorSize.toNat).getD {}

end BootInfo

end ElfBoot.Handoff
