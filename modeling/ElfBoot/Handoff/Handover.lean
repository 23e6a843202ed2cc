import ElfBoot.Handoff.MapWriter

/-!
# Handing over the firmware's memory map

The last thing the loader does with the memory map: it takes the regions as the firmware describes
them, sorted by start, writes them with the types the kernel knows, and records the result.
-/

set_option autoImplicit false

namespace ElfBoot.Handoff

/-- A region as the firmware describes it: start, number of pages, and the number of its type. -/
structure FirmwareRegion where
  start : UInt64
  pages : UInt64
  kind : UInt32
  deriving DecidableEq, Repr

/-- What the kernel is told about a region of the firmware. -/
def FirmwareRegion.toRegion (e : FirmwareRegion) : Region := ⟨e.start, e.pages, .ofFirmware e.kind⟩

/-- Writes a map of the firmware into a buffer and records it; `none` if a number on the way is no
word. -/
def handOver (buffer : List Region) (map : List FirmwareRegion) (info : BootInfo) :
    Option BootInfo :=
  ((MapWriter.start buffer).pushAll (map.map FirmwareRegion.toRegion)).map fun w =>
    w.finishInto info

end ElfBoot.Handoff
