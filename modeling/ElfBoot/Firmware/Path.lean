import ElfBoot.Error

/-!
# Firmware paths

The firmware separates the parts of a path with backslashes and knows its files by names of 16-bit
characters.  How a text is spelled in such characters, and whether it can be, is left to whoever
supplies the spelling.

* `backslashed` — a path with the separators of the firmware.
* `nameOf` — the name of a path.
-/

set_option autoImplicit false

namespace ElfBoot.Firmware

/-- A slash becomes a backslash. -/
def separator (c : Char) : Char := if c = '/' then '\\' else c

/-- A path with backslashes. -/
def backslashed (path : String) : String := String.ofList (path.toList.map separator)

/-- The name of a path, without the zero that ends it, by a spelling of texts in 16-bit
characters. -/
def nameOf (spell : String → Option (List UInt16)) (path : String) :
    Except LoadError (List UInt16) :=
  match spell (backslashed path) with
  | some name => .ok name
  | none => .error (.io (.openFailed .invalidParameter))

end ElfBoot.Firmware
