import ElfBoot.Program
import ElfBoot.Memory.Pages
import ElfBoot.Memory.Space

/-!
# A memory arena

An arena is a window of physical memory.  Pages in it are reserved at fixed addresses; a
reservation is refused if it leaves the window or meets an earlier reservation or a range that
someone else occupies.  Bytes are changed only inside a single reservation.

All bytes start as `Arena.garbage`, so that untouched memory stands out.

An operation gives `none` where a bound of the window or of an occupied range is no address: the
comparison cannot be made then.  Operations that answer with an error change nothing.
-/

set_option autoImplicit false

namespace ElfBoot.Host

/-- A window of physical memory with its reservations. -/
structure Arena where
  base : Nat
  size : Nat
  memory : AddressSpace
  /-- Ranges handed out, in order. -/
  reserved : List PageRange := []
  /-- Ranges that belong to someone else, in order. -/
  occupied : List PageRange := []
  /-- How many times memory was cleared. -/
  zeroCalls : Nat := 0

namespace Arena

/-- The byte that fills fresh memory. -/
def garbage : UInt8 := 0xA5

/-- A fresh arena without reservations. -/
def fresh (base size : Nat) : Arena := { base, size, memory := .filled garbage }

/-- Marks a range as belonging to someone else. -/
def occupy (a : Arena) (r : PageRange) : Arena := { a with occupied := a.occupied ++ [r] }

/-- All bytes of the window. -/
def bytes (a : Arena) : List UInt8 := a.memory.read a.base a.size

/-- The `len` bytes from `address` on; `none` if they are not all in the window. -/
def peek? (a : Arena) (address len : Nat) : Option (List UInt8) :=
  if a.base ≤ address ∧ address - a.base + len ≤ a.size then some (a.memory.read address len)
  else none

/-- Whether the bytes from `lo` up to `hi` lie in the window.  Its end is looked at only when they
do not start too early. -/
def holds? (a : Arena) (lo hi : Nat) : Option Bool :=
  if lo < a.base then some false
  else (Address.add? a.base a.size).map fun stop => decide (hi ≤ stop)

/-- Whether a request for pages is granted. -/
def grants? (a : Arena) (r : PageRange) : Option Bool :=
  match r.end? with
  | none => some false
  | some stop => do
    if ← a.holds? r.address stop then
      return !(← someRange? (·.meets? r.address stop) (a.reserved ++ a.occupied))
    else return false

/-- Reserves pages at a fixed address. -/
def reserve (a : Arena) (address pages : Nat) : Option (Except LoadError Unit × Arena) :=
  (a.grants? ⟨address, pages⟩).map fun granted =>
    if granted then (.ok (), { a with reserved := a.reserved ++ [⟨address, pages⟩] })
    else (.error (.allocation (.reserve address pages)), a)

/-- Whether `len` bytes from `address` on lie in a single reservation. -/
def owns? (a : Arena) (address len : Nat) : Option Bool :=
  match Address.add? address len with
  | none => some false
  | some stop => someRange? (·.covers? address stop) a.reserved

/-- Copies bytes into a reservation. -/
def write (a : Arena) (address : Nat) (bytes : List UInt8) :
    Option (Except LoadError Unit × Arena) :=
  (a.owns? address bytes.length).map fun owned =>
    if owned then (.ok (), { a with memory := a.memory.store address bytes })
    else (.error (.allocation (.outOfRange address bytes.length)), a)

/-- Clears bytes of a reservation. -/
def zero (a : Arena) (address len : Nat) : Option (Except LoadError Unit × Arena) :=
  (a.owns? address len).map fun owned =>
    if owned then
      (.ok (), { a with memory := a.memory.clear address len, zeroCalls := a.zeroCalls + 1 })
    else (.error (.allocation (.outOfRange address len)), a)

end Arena

end ElfBoot.Host
