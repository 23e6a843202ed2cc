/-!
# Hexadecimal numerals

Addresses, offsets and statuses are shown in lower-case hexadecimal behind `0x`, either bare or
padded with zeros to a fixed width; counts in tables are shown in decimal, padded with blanks.
-/

set_option autoImplicit false

namespace ElfBoot.Text

/-- The lower-case hexadecimal digits of a number, `"0"` for zero. -/
def hexDigits (n : Nat) : List Char := Nat.toDigits 16 n

/-- A number behind `0x`, without padding. -/
def hex (n : Nat) : String := String.ofList ('0' :: 'x' :: hexDigits n)

/-- A number behind `0x` with at least `digits` digits. -/
def hexPadded (digits n : Nat) : String :=
  let ds := hexDigits n
  String.ofList ('0' :: 'x' :: (List.replicate (digits - ds.length) '0' ++ ds))

/-- A number in decimal, moved to the right edge of a field of `width` characters. -/
def decimalField (width n : Nat) : String :=
  let ds := Nat.toDigits 10 n
  String.ofList (List.replicate (width - ds.length) ' ' ++ ds)

end ElfBoot.Text
