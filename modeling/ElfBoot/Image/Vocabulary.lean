import ElfBoot.Text.Hex

/-!
# Names of the numbers in an image

Numbers that say what an image is: its kind, the machine it runs on, the kind of each segment,
the access a segment allows, the operating system interface and the data encoding.  A number
without a name is shown in hexadecimal.
-/

set_option autoImplicit false

namespace ElfBoot

open Text (hex)

/-! ## The file -/

/-- Name of a file's kind. -/
def fileKindName (kind : UInt16) : String :=
  match kind with
  | 0 => "None"
  | 1 => "Relocatable"
  | 2 => "Executable"
  | 3 => "Dynamic"
  | 4 => "Core"
  | _ => s!"Other ({hex kind.toNat})"

/-- Name of the machine an image runs on. -/
def machineName (machine : UInt16) : String :=
  match machine with
  | 0 => "No specific instruction set"
  | 2 => "SPARC"
  | 3 => "x86"
  | 8 => "MIPS"
  | 20 => "PowerPC"
  | 22 => "S390"
  | 40 => "ARM"
  | 42 => "SuperH"
  | 50 => "IA-64"
  | 62 => "x86-64"
  | 183 => "AArch64"
  | 243 => "RISC-V"
  | _ => s!"Unknown ({hex machine.toNat})"

/-- Name of an operating system interface, if it has one. -/
def osAbiName? (osAbi : UInt8) : Option String :=
  match osAbi with
  | 0x00 => some "System V"
  | 0x01 => some "HP-UX"
  | 0x02 => some "NetBSD"
  | 0x03 => some "Linux"
  | 0x04 => some "GNU Hurd"
  | 0x06 => some "Solaris"
  | 0x07 => some "AIX"
  | 0x08 => some "IRIX"
  | 0x09 => some "FreeBSD"
  | 0x0A => some "Tru64"
  | 0x0B => some "Novell Modesto"
  | 0x0C => some "OpenBSD"
  | 0x0D => some "OpenVMS"
  | 0x0E => some "NonStop Kernel"
  | 0x0F => some "AROS"
  | 0x10 => some "Fenix OS"
  | 0x11 => some "CloudABI"
  | _ => none

/-- Name of a data encoding. -/
def encodingName (encoding : UInt8) : String :=
  match encoding with
  | 1 => "Little-Endian"
  | 2 => "Big-Endian"
  | _ => "Unknown"

/-! ## Segments -/

namespace SegmentKind

/-- The kind of a segment that is placed in memory. -/
def load : UInt32 := 1

/-- Name of a segment's kind.  Two ranges of numbers belong to operating systems and to
processors. -/
def name (kind : UInt32) : String :=
  match kind with
  | 0 => "NULL"
  | 1 => "LOAD"
  | 2 => "DYNAMIC"
  | 3 => "INTERP"
  | 4 => "NOTE"
  | 5 => "SHLIB"
  | 6 => "PHDR"
  | 7 => "TLS"
  | 0x6474E550 => "GNU_EH_FRAME"
  | 0x6474E551 => "GNU_STACK"
  | 0x6474E552 => "GNU_RELRO"
  | _ =>
    if 0x60000000 ≤ kind ∧ kind ≤ 0x6FFFFFFF then s!"OS+{hex kind.toNat}"
    else if 0x70000000 ≤ kind ∧ kind ≤ 0x7FFFFFFF then s!"PROC+{hex kind.toNat}"
    else hex kind.toNat

end SegmentKind

/-- The access a segment allows. -/
structure SegmentFlags where
  exec : Bool
  write : Bool
  read : Bool
  deriving DecidableEq, Repr, Inhabited

namespace SegmentFlags

/-- The low three bits of a word, lowest first. -/
def ofWord (w : UInt32) : SegmentFlags :=
  ⟨w.toNat.testBit 0, w.toNat.testBit 1, w.toNat.testBit 2⟩

/-- The word whose low three bits are the flags. -/
def toWord (f : SegmentFlags) : UInt32 :=
  (if f.exec then 1 else 0) + (if f.write then 2 else 0) + if f.read then 4 else 0

@[simp] theorem ofWord_toWord (f : SegmentFlags) : ofWord f.toWord = f := by
  rcases f with ⟨_ | _, _ | _, _ | _⟩ <;> rfl

/-- Reading and executing. -/
def readExec : SegmentFlags := ⟨true, false, true⟩

/-- All three flags set. -/
def all : SegmentFlags := ⟨true, true, true⟩

/-- The letters R, W and X, each replaced by a dash where the access is not allowed. -/
def describe (f : SegmentFlags) : String :=
  String.ofList [if f.read then 'R' else '-', if f.write then 'W' else '-',
    if f.exec then 'X' else '-']

end SegmentFlags

end ElfBoot
