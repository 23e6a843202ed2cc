import ElfBoot.Text.Utf8

/-!
# Whole characters of a text that was cut off

The bytes of a text that was cut off somewhere are those of the characters in front of the cut,
followed perhaps by the beginning of one more.  Such a beginning is no character, so that reading
the bytes back gives the characters that fit.

* `encode`, `utf8_eq_encode` — the bytes of some characters.
* `fitting` — the characters at the front that together take at most so many bytes;
  `prefix_fitting` says that no longer front does.
* `wholeCharacters_take_encode` — what is read back.
* `takeWhile_encode` — the bytes up to the first zero are those of the characters up to the first
  zero character.
-/

set_option autoImplicit false

namespace ElfBoot.Text

/-! ## Bytes of characters -/

/-- The bytes of some characters. -/
def encode (cs : List Char) : List UInt8 := cs.flatMap String.utf8EncodeChar

theorem encode_cons (c : Char) (cs : List Char) :
    encode (c :: cs) = String.utf8EncodeChar c ++ encode cs := List.flatMap_cons

theorem length_encode_cons (c : Char) (cs : List Char) :
    (encode (c :: cs)).length = c.utf8Size + (encode cs).length := by
  rw [encode_cons, List.length_append, String.length_utf8EncodeChar]

theorem toList_loop (bs : ByteArray) (i : Nat) (acc : List UInt8) :
    ByteArray.toList.loop bs i acc = acc.reverse ++ bs.data.toList.drop i := by
  fun_induction ByteArray.toList.loop bs i acc with
  | case1 i acc hlt ih =>
    have hi : i < bs.data.toList.length := hlt
    have hget : bs.get! i = bs.data.toList[i] := getElem!_pos bs.data i hlt
    rw [ih, List.drop_eq_getElem_cons hi, hget, List.reverse_cons, List.append_assoc,
      List.singleton_append]
  | case2 i acc hge =>
    have hend : bs.data.toList.length ≤ i := Nat.not_lt.1 hge
    rw [List.drop_eq_nil_of_le hend, List.append_nil]

/-- The bytes of a text are those of its characters. -/
theorem utf8_eq_encode (text : String) : utf8 text = encode text.toList := by
  have hbytes : text.toUTF8 = (encode text.toList).toByteArray := String.utf8Encode_toList.symm
  rw [utf8, hbytes, ByteArray.toList, toList_loop, List.data_toByteArray]
  rfl

theorem length_encode_toList (text : String) : (encode text.toList).length = text.utf8ByteSize := by
  rw [← String.size_toByteArray, ← String.utf8Encode_toList, List.utf8Encode,
    List.size_toByteArray]
  rfl

/-! ## The character at the front -/

theorem frontCharacter?_encode_cons (c : Char) (bs : List UInt8) :
    frontCharacter? (String.utf8EncodeChar c ++ bs) = some c := by
  have hsplit : (ByteArray.mk (String.utf8EncodeChar c ++ bs).toArray) =
      (String.utf8EncodeChar c).toByteArray ++ bs.toByteArray := by
    rw [← List.toByteArray_append]
    exact ByteArray.ext List.data_toByteArray.symm
  rw [frontCharacter?, hsplit]
  exact ByteArray.utf8DecodeChar?_utf8EncodeChar_append

/-- A proper beginning of a character is no character, and neither is one in it. -/
theorem frontCharacter?_take {c : Char} {n : Nat} (h : n < c.utf8Size) :
    frontCharacter? ((String.utf8EncodeChar c).take n) = none := by
  cases hfront : frontCharacter? ((String.utf8EncodeChar c).take n) with
  | none => rfl
  | some d =>
    have hbytes : ∀ bs : List UInt8, ByteArray.mk bs.toArray = bs.toByteArray :=
      fun bs => ByteArray.ext List.data_toByteArray.symm
    rw [frontCharacter?, hbytes] at hfront
    -- what is decoded from the beginning is decoded from the whole character as well
    have hwhole := ByteArray.utf8DecodeChar?_append_eq_some hfront
      ((String.utf8EncodeChar c).drop n).toByteArray
    rw [← List.toByteArray_append, List.take_append_drop] at hwhole
    have hself := frontCharacter?_encode_cons c []
    rw [List.append_nil, frontCharacter?, hbytes, hwhole] at hself
    cases hself
    have hsize := ByteArray.le_size_of_utf8DecodeChar?_eq_some hfront
    rw [List.size_toByteArray, List.length_take] at hsize
    omega

theorem wholeCharacters_of_none {bs : List UInt8} (h : frontCharacter? bs = none) :
    wholeCharacters bs = [] := by
  rw [wholeCharacters]
  split
  · rfl
  · rename_i c hc
    rw [h] at hc
    cases hc

theorem wholeCharacters_encode_cons (c : Char) (bs : List UInt8) :
    wholeCharacters (String.utf8EncodeChar c ++ bs) = c :: wholeCharacters bs := by
  rw [wholeCharacters]
  split
  · rename_i hnone
    rw [frontCharacter?_encode_cons] at hnone
    cases hnone
  · rename_i d hsome
    rw [frontCharacter?_encode_cons] at hsome
    cases hsome
    rw [List.drop_left' (String.length_utf8EncodeChar c)]

/-! ## Characters that fit -/

/-- The characters at the front that together take at most `room` bytes. -/
def fitting : Nat → List Char → List Char
  | _, [] => []
  | room, c :: cs => if c.utf8Size ≤ room then c :: fitting (room - c.utf8Size) cs else []

/-- **Reading back** bytes that were cut off gives the characters in front of the cut. -/
theorem wholeCharacters_take_encode (room : Nat) (cs : List Char) :
    wholeCharacters ((encode cs).take room) = fitting room cs := by
  induction cs generalizing room with
  | nil =>
    have hnil : (encode []).take room = [] := List.take_nil
    rw [hnil, wholeCharacters_of_none frontCharacter?_nil, fitting]
  | cons c cs ih =>
    have hlength := String.length_utf8EncodeChar c
    rw [encode_cons, List.take_append, hlength, fitting]
    by_cases hfits : c.utf8Size ≤ room
    · rw [if_pos hfits, List.take_of_length_le (by omega), wholeCharacters_encode_cons, ih]
    · rw [if_neg hfits, Nat.sub_eq_zero_of_le (by omega), List.take_zero, List.append_nil]
      exact wholeCharacters_of_none (frontCharacter?_take (Nat.not_le.1 hfits))

theorem fitting_isPrefix (room : Nat) (cs : List Char) : fitting room cs <+: cs := by
  induction cs generalizing room with
  | nil => exact List.nil_prefix
  | cons c cs ih =>
    rw [fitting]
    by_cases hfits : c.utf8Size ≤ room
    · rw [if_pos hfits, List.prefix_cons_inj]
      exact ih (room - c.utf8Size)
    · rw [if_neg hfits]
      exact List.nil_prefix

theorem length_encode_fitting_le (room : Nat) (cs : List Char) :
    (encode (fitting room cs)).length ≤ room := by
  induction cs generalizing room with
  | nil => exact Nat.zero_le room
  | cons c cs ih =>
    rw [fitting]
    by_cases hfits : c.utf8Size ≤ room
    · have hrest := ih (room - c.utf8Size)
      rw [if_pos hfits, length_encode_cons]
      omega
    · rw [if_neg hfits]
      exact Nat.zero_le room

/-- **No longer front fits.** -/
theorem prefix_fitting {room : Nat} {front cs : List Char} (hfront : front <+: cs)
    (hroom : (encode front).length ≤ room) : front <+: fitting room cs := by
  induction front generalizing room cs with
  | nil => exact List.nil_prefix
  | cons c front ih =>
    obtain ⟨rest, rfl⟩ := hfront
    rw [length_encode_cons] at hroom
    rw [List.cons_append, fitting, if_pos (by omega), List.prefix_cons_inj]
    exact ih (List.prefix_append front rest) (by omega)

/-! ## Zeros -/

/-- No byte of a character is zero, except for the one of the zero character. -/
theorem ne_zero_of_mem_encodeChar {c : Char} (hc : c ≠ '\x00') {b : UInt8}
    (hb : b ∈ String.utf8EncodeChar c) : b ≠ 0 := by
  have hmarked : ∀ x mark : UInt8, mark ≠ 0 → x ||| mark ≠ 0 :=
    fun x mark hmark hno => hmark (UInt8.or_eq_zero_iff.1 hno).2
  rcases c.utf8Size_eq with h | h | h | h
  · rw [String.utf8EncodeChar_eq_singleton h, List.mem_singleton] at hb
    subst hb
    have hsmall : c.val ≤ 127 := Char.utf8Size_eq_one_iff.1 h
    intro hzero
    have hval : c.val.toNat % 256 = 0 := congrArg UInt8.toNat hzero
    have hle : c.val.toNat ≤ 127 := hsmall
    have hzero : c.val = 0 := UInt32.toNat_inj.1 (by rw [UInt32.toNat_zero]; omega)
    exact hc (Char.ext hzero)
  -- each byte of a longer character is marked as first or as later
  · rw [String.utf8EncodeChar_eq_cons_cons h] at hb
    simp only [List.mem_cons, List.not_mem_nil, or_false] at hb
    rcases hb with rfl | rfl
    all_goals exact hmarked _ _ (by decide)
  · rw [String.utf8EncodeChar_eq_cons_cons_cons h] at hb
    simp only [List.mem_cons, List.not_mem_nil, or_false] at hb
    rcases hb with rfl | rfl | rfl
    all_goals exact hmarked _ _ (by decide)
  · rw [String.utf8EncodeChar_eq_cons_cons_cons_cons h] at hb
    simp only [List.mem_cons, List.not_mem_nil, or_false] at hb
    rcases hb with rfl | rfl | rfl | rfl
    all_goals exact hmarked _ _ (by decide)

/-- The bytes up to the first zero are those of the characters up to the first zero character. -/
theorem takeWhile_encode (cs : List Char) :
    (encode cs).takeWhile (fun b => b != 0) = encode (cs.takeWhile fun c => c != '\x00') := by
  induction cs with
  | nil => rfl
  | cons c cs ih =>
    rw [encode_cons]
    by_cases hc : c = '\x00'
    · subst hc
      rfl
    · have hbytes : ∀ b ∈ String.utf8EncodeChar c, (b != 0) = true :=
        fun b hb => bne_iff_ne.2 (ne_zero_of_mem_encodeChar hc hb)
      have hkept : (c :: cs).takeWhile (fun c => c != '\x00') =
          c :: cs.takeWhile fun c => c != '\x00' := List.takeWhile_cons_of_pos (bne_iff_ne.2 hc)
      rw [List.takeWhile_append_of_pos hbytes, ih, hkept, encode_cons]

end ElfBoot.Text
