import ElfBoot.Handoff.Info
import ElfBoot.Proofs.Text.Utf8

/-!
# The command line of the boot record

A command line may be longer than the record has room for, its characters take one to four bytes
each, and there may be zeros in it.  What is read back is as much of its front as can be shown:
whole characters, none of them zero, with room for the zero that ends them.

* `CommandLine.Showable`, `CommandLine.LongestShowable` — what can be shown of a text, and the most
  that can.
* `CommandLine.toList_text_ofText` — what is read back, as a list of characters.
* `BootInfo.commandLine_setCommandLine` — storing a command line in any record.
-/

set_option autoImplicit false

namespace ElfBoot.Handoff

namespace CommandLine

/-- A front of a text that can be shown: whole characters without a zero, which leave room for the
zero that ends them. -/
structure Showable (text front : String) : Prop where
  isFront : front.toList <+: text.toList
  no_zero : '\x00' ∉ front.toList
  fits : front.utf8ByteSize < commandLineSize

/-- The longest front of a text that can be shown. -/
structure LongestShowable (text front : String) : Prop where
  showable : Showable text front
  longest : ∀ other, Showable text other → other.toList <+: front.toList

/-- Up to the first zero, the stored bytes are those of the text that were kept. -/
theorem takeWhile_ofText (text : String) :
    (ofText text).bytes.takeWhile (fun b => b != 0) =
      (Text.encode (text.toList.takeWhile fun c => c != '\x00')).take (commandLineSize - 1) := by
  have hzeros : ∀ n, (List.replicate n (0 : UInt8)).takeWhile (fun b => b != 0) = [] := by
    intro n
    rw [List.takeWhile_replicate]
    rfl
  rw [← Text.takeWhile_encode, List.take_takeWhile, ← Text.utf8_eq_encode, ofText]
  dsimp only
  rw [List.takeWhile_append, hzeros, List.append_nil]
  split
  · rename_i hall
    exact (List.takeWhile_prefix _).eq_of_length hall |>.symm
  · rfl

/-- **What is read back**: the characters up to the first zero, as far as they fit. -/
theorem toList_text_ofText (text : String) :
    (ofText text).text.toList =
      Text.fitting (commandLineSize - 1) (text.toList.takeWhile fun c => c != '\x00') := by
  rw [CommandLine.text, takeWhile_ofText, Text.wholeCharacters_take_encode, String.toList_ofList]

theorem longestShowable_text_ofText (text : String) :
    LongestShowable text (ofText text).text := by
  have hroom : commandLineSize - 1 < commandLineSize := by decide
  have hshown := Text.fitting_isPrefix (commandLineSize - 1)
    (text.toList.takeWhile fun c => c != '\x00')
  rw [← toList_text_ofText] at hshown
  constructor
  case showable =>
    constructor
    case isFront => exact hshown.trans (List.takeWhile_prefix _)
    case no_zero =>
      intro hzero
      have hne := List.all_eq_true.1 List.all_takeWhile _ (hshown.subset hzero)
      exact bne_iff_ne.1 hne rfl
    case fits =>
      rw [← Text.length_encode_toList, toList_text_ofText]
      exact Nat.lt_of_le_of_lt (Text.length_encode_fitting_le _ _) hroom
  case longest =>
    intro other h
    have hfront : other.toList <+: text.toList.takeWhile fun c => c != '\x00' := by
      obtain ⟨rest, hrest⟩ := h.isFront
      have hall : ∀ c ∈ other.toList, (c != '\x00') = true := by
        intro c hc
        refine bne_iff_ne.2 fun hzero => h.no_zero ?_
        rwa [← hzero]
      rw [← hrest, List.takeWhile_append_of_pos hall]
      exact List.prefix_append _ _
    have hfits : (Text.encode other.toList).length ≤ commandLineSize - 1 := by
      rw [Text.length_encode_toList]
      exact Nat.le_sub_one_of_lt h.fits
    rw [toList_text_ofText]
    exact Text.prefix_fitting hfront hfits

/-- A text that can be shown as a whole is. -/
theorem LongestShowable.eq_of_showable {text front : String} (h : LongestShowable text front)
    (hself : Showable text text) : front = text := by
  have hback := h.longest text hself
  exact String.toList_inj.1 (h.showable.isFront.eq_of_length_le hback.length_le)

/-! ## The stored bytes -/

theorem getLast?_ofText (text : String) : (ofText text).bytes.getLast? = some 0 := by
  have hkept : ((Text.utf8 text).take (commandLineSize - 1)).length ≤ commandLineSize - 1 :=
    List.length_take_le _ _
  have hroom : commandLineSize - ((Text.utf8 text).take (commandLineSize - 1)).length ≠ 0 := by
    unfold commandLineSize at hkept ⊢
    omega
  rw [ofText]
  dsimp only
  rw [List.getLast?_append, List.getLast?_replicate, if_neg hroom, Option.some_or]

/-- Nothing is stored behind the text. -/
theorem eq_zero_of_mem_drop_ofText {text : String} {b : UInt8}
    (hb : b ∈ (ofText text).bytes.drop (Text.utf8 text).length) : b = 0 := by
  have hkept : ((Text.utf8 text).take (commandLineSize - 1)).length ≤ (Text.utf8 text).length :=
    List.length_take_le' _ _
  rw [ofText] at hb
  dsimp only at hb
  rw [List.drop_append, List.drop_of_length_le hkept, List.nil_append] at hb
  exact List.eq_of_mem_replicate (List.mem_of_mem_drop hb)

end CommandLine

/-- **Storing a command line** in any record: what is read back is the longest front of the text
that can be shown, and reading it back and storing it again changes nothing of that.  The stored
bytes end with a zero, those behind the text are all zero, whatever was stored before, and nothing
else of the record changes. -/
theorem BootInfo.commandLine_setCommandLine (i : BootInfo) (text : String) :
    let j := i.setCommandLine text
    CommandLine.LongestShowable text j.commandLine ∧
      j.cmdline.bytes.getLast? = some 0 ∧
      (∀ b ∈ j.cmdline.bytes.drop (Text.utf8 text).length, b = 0) ∧
      j = { i with cmdline := j.cmdline } ∧
      (j.setCommandLine j.commandLine).commandLine = j.commandLine := by
  have hlongest := CommandLine.longestShowable_text_ofText text
  have hself : CommandLine.Showable (CommandLine.ofText text).text (CommandLine.ofText text).text :=
    ⟨List.prefix_rfl, hlongest.showable.no_zero, hlongest.showable.fits⟩
  refine ⟨hlongest, CommandLine.getLast?_ofText text, fun b hb => ?_, rfl, ?_⟩
  · exact CommandLine.eq_zero_of_mem_drop_ofText hb
  · exact (CommandLine.longestShowable_text_ofText _).eq_of_showable hself

example : (BootInfo.setCommandLine {} "quiet\x00splash").commandLine = "quiet" := by decide +kernel

end ElfBoot.Handoff
