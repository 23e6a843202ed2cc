/-!
# Entering the kernel

The loader jumps to the entry point of the image it loaded.  An image whose entry point is zero
has none, and is not entered.
-/

set_option autoImplicit false

namespace ElfBoot.Handoff

/-- An address to enter the kernel at. -/
structure KernelEntry where
  address : Nat
  address_ne_zero : address ≠ 0
  deriving DecidableEq, Repr

/-- The entry point of an image, unless it has none. -/
def KernelEntry.ofAddress? (address : Nat) : Option KernelEntry :=
  if h : address = 0 then none else some ⟨address, h⟩

end ElfBoot.Handoff
