/-!
# Characters at the front of a byte list

`wholeCharacters` reads as many complete UTF-8 characters as stand at the front of a byte list.
It stops at the first byte that starts none, such as one of a character that was cut off.
-/

set_option autoImplicit false

namespace ElfBoot.Text

/-- The UTF-8 character at the front of a byte list. -/
def frontCharacter? (bs : List UInt8) : Option Char := (ByteArray.mk bs.toArray).utf8DecodeChar? 0

theorem frontCharacter?_nil : frontCharacter? [] = none := by
  cases h : frontCharacter? [] with
  | none => rfl
  | some c =>
    have hs : ((ByteArray.mk ([] : List UInt8).toArray).utf8DecodeChar? 0).isSome := by
      rw [frontCharacter?] at h
      simp only [h, Option.isSome_some]
    have := ByteArray.lt_size_of_isSome_utf8DecodeChar? hs
    simp [ByteArray.size] at this

/-- The complete characters at the front of a byte list. -/
def wholeCharacters (bs : List UInt8) : List Char :=
  match _h : frontCharacter? bs with
  | none => []
  | some c => c :: wholeCharacters (bs.drop c.utf8Size)
termination_by bs.length
decreasing_by
  cases bs with
  | nil => rw [frontCharacter?_nil] at _h; cases _h
  | cons b bs =>
    have := c.utf8Size_pos
    simp only [List.length_drop, List.length_cons]
    omega

/-- The bytes of a text. -/
def utf8 (text : String) : List UInt8 := text.toUTF8.toList

end ElfBoot.Text
