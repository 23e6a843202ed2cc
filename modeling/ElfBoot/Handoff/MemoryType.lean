/-!
# Types of memory

What a region of physical memory is used for, as the kernel is told.  The firmware has its own,
finer numbering; `MemoryType.ofFirmware` says what the kernel makes of it.  Memory that only the
firmware's boot phase used is available to the kernel.
-/

set_option autoImplicit false

namespace ElfBoot.Handoff

inductive MemoryType where
  | available
  | acpiReclaim
  | acpiNonVolatile
  | mmio
  | mmioPortSpace
  | loaderCode
  | loaderData
  | firmwareCode
  | firmwareData
  | reserved
  | unavailable
  deriving DecidableEq, Repr, Inhabited

namespace MemoryType

/-- The number of a type in the handoff record. -/
def toRaw : MemoryType → UInt32
  | available => 0
  | acpiReclaim => 1
  | acpiNonVolatile => 2
  | mmio => 3
  | mmioPortSpace => 4
  | loaderCode => 5
  | loaderData => 6
  | firmwareCode => 7
  | firmwareData => 8
  | reserved => 9
  | unavailable => 10

/-- The type with a number. -/
def ofRaw? : UInt32 → Option MemoryType
  | 0 => some available
  | 1 => some acpiReclaim
  | 2 => some acpiNonVolatile
  | 3 => some mmio
  | 4 => some mmioPortSpace
  | 5 => some loaderCode
  | 6 => some loaderData
  | 7 => some firmwareCode
  | 8 => some firmwareData
  | 9 => some reserved
  | 10 => some unavailable
  | _ => none

@[simp] theorem ofRaw?_toRaw (t : MemoryType) : ofRaw? t.toRaw = some t := by cases t <;> rfl

/-- Whether the kernel may take the memory over once it runs. -/
def isAvailable : MemoryType → Bool
  | available => true
  | _ => false

def name : MemoryType → String
  | available => "Available"
  | acpiReclaim => "ACPI Reclaim"
  | acpiNonVolatile => "ACPI NVS"
  | mmio => "MMIO"
  | mmioPortSpace => "MMIO Port"
  | loaderCode => "Loader Code"
  | loaderData => "Loader Data"
  | firmwareCode => "Firmware Code"
  | firmwareData => "Firmware Data"
  | reserved => "Reserved"
  | unavailable => "Unavailable"

end MemoryType

/-! ## The firmware's numbering -/

namespace FirmwareMemory

def reserved : UInt32 := 0
def loaderCode : UInt32 := 1
/-- The type the kernel image is placed in. -/
def loaderData : UInt32 := 2
def bootServicesCode : UInt32 := 3
def bootServicesData : UInt32 := 4
def runtimeServicesCode : UInt32 := 5
def runtimeServicesData : UInt32 := 6
def conventional : UInt32 := 7
def unusable : UInt32 := 8
def acpiReclaim : UInt32 := 9
def acpiNonVolatile : UInt32 := 10
def mmio : UInt32 := 11
def mmioPortSpace : UInt32 := 12
def palCode : UInt32 := 13

end FirmwareMemory

open FirmwareMemory in
/-- What the kernel is told about memory of a firmware type.  A type it does not know is firmware
data. -/
def MemoryType.ofFirmware (kind : UInt32) : MemoryType :=
  if kind = conventional ∨ kind = bootServicesCode ∨ kind = bootServicesData then .available
  else if kind = FirmwareMemory.loaderCode then .loaderCode
  else if kind = FirmwareMemory.loaderData then .loaderData
  else if kind = FirmwareMemory.acpiReclaim then .acpiReclaim
  else if kind = FirmwareMemory.acpiNonVolatile then .acpiNonVolatile
  else if kind = FirmwareMemory.mmio then .mmio
  else if kind = FirmwareMemory.mmioPortSpace then .mmioPortSpace
  else if kind = FirmwareMemory.reserved then .reserved
  else if kind = unusable then .unavailable
  else if kind = runtimeServicesCode ∨ kind = palCode then .firmwareCode
  else .firmwareData

end ElfBoot.Handoff
