/-!
# Bit width of an image

An image is built for 32-bit or for 64-bit addresses, which fixes the layout of its file header
and of its program headers.  A byte of the identity block names the width; a byte that names
neither is `none`.
-/

set_option autoImplicit false

namespace ElfBoot

/-- Bytes in the identity block, with which every image starts. -/
def identitySize : Nat := 16

/-- Whether an image is built for 32-bit or 64-bit addresses. -/
inductive Width where
  | bits32
  | bits64
  deriving DecidableEq, Repr

namespace Width

/-- The width a byte of the identity block names. -/
def ofIdent : UInt8 → Option Width
  | 1 => some .bits32
  | 2 => some .bits64
  | _ => none

/-- The byte that names a width. -/
def ident : Width → UInt8
  | .bits32 => 1
  | .bits64 => 2

@[simp] theorem ofIdent_ident (w : Width) : ofIdent w.ident = some w := by cases w <;> rfl

/-- Bytes in the file header. -/
def headerSize : Width → Nat
  | .bits32 => 52
  | .bits64 => 64

/-- Bytes in the fixed layout of a program header. -/
def entrySize : Width → Nat
  | .bits32 => 32
  | .bits64 => 56

theorem entrySize_pos (w : Width) : 0 < w.entrySize := by cases w <;> decide

def name : Width → String
  | .bits32 => "32bit"
  | .bits64 => "64bit"

/-- The name of a width that may not be known. -/
def describe : Option Width → String
  | some w => w.name
  | none => "unknown"

end Width

end ElfBoot
