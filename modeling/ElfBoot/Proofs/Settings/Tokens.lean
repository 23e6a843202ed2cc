import ElfBoot.Settings.Writer

/-!
# Reading what was written, token by token

Each part of a member is read back from where it stands, whatever blanks are in front of it and
whatever comes behind it.

* `skipBlanks_token` — the blanks in front of a token.
* `Plain`, `readText_plain` — texts that need no escape.
* `Key.Takes`, `Settings.value`, `exists_readValue` — the value that belongs to a key, and the
  settings it makes of others.
* `nextKey_end`, `nextKey_first`, `nextKey_later` — what stands where a key is looked for.
-/

set_option autoImplicit false

namespace ElfBoot.Settings

/-! ## Blanks and texts -/

/-- Blanks in front of a token are skipped. -/
theorem skipBlanks_token {blanks : List Char} (hblanks : blanks.all isBlank = true) {c : Char}
    (hc : isBlank c = false) (rest : List Char) :
    skipBlanks (blanks ++ c :: rest) = c :: rest := by
  have hall : ∀ b ∈ blanks, isBlank b = true := List.all_eq_true.1 hblanks
  have hne : ¬ isBlank c = true := by
    rw [hc]
    exact Bool.false_ne_true
  rw [skipBlanks, List.dropWhile_append_of_pos hall, List.dropWhile_cons_of_neg hne]

theorem skipBlanks_eq_nil {blanks : List Char} (hblanks : blanks.all isBlank = true) :
    skipBlanks blanks = [] := by
  have hall : ∀ b ∈ blanks, isBlank b = true := List.all_eq_true.1 hblanks
  have hdrop : (blanks ++ []).dropWhile isBlank = [] := List.dropWhile_append_of_pos hall
  rwa [List.append_nil] at hdrop

/-- Characters of a text that need no escape. -/
def Plain (cs : List Char) : Prop := ∀ c ∈ cs, c ≠ '"' ∧ c ≠ '\\'

instance : DecidablePred Plain := List.decidableBAll fun c => c ≠ '"' ∧ c ≠ '\\'

/-- A text without quotes and backslashes ends at the next quote. -/
theorem scanText?_plain {text : List Char} (h : Plain text) (rest : List Char) :
    scanText? (text ++ '"' :: rest) = some (text, rest) := by
  induction text with
  | nil => rfl
  | cons c text ih =>
    obtain ⟨⟨hquote, hslash⟩, htext⟩ := List.forall_mem_cons.1 h
    rw [List.cons_append, scanText?, ih htext]
    · rfl
    · exact hquote
    · exact fun _ _ hno => absurd hno hslash

theorem readText_plain {text : List Char} (h : Plain text) (rest : List Char) :
    readText (text ++ '"' :: rest) = .ok (String.ofList text, rest) := by
  rw [readText, scanText?_plain h]

theorem readWord_append (word rest : List Char) : readWord word (word ++ rest) = .ok rest := by
  induction word with
  | nil => rfl
  | cons w word ih => rw [List.cons_append, readWord, if_pos rfl, ih]

/-! ## Values -/

theorem ok_bind {α β : Type} (a : α) (f : α → Except ReadError β) : (.ok a >>= f) = f a := rfl

section Values

variable {blanks : List Char} (hblanks : blanks.all isBlank = true) (rest : List Char)

include hblanks

theorem readColon_blanks : readColon (blanks ++ ':' :: rest) = .ok rest := by
  rw [readColon, skipBlanks_token hblanks rfl]
  rfl

theorem textValue_blanks {content : List Char} (h : Plain content) :
    textValue (blanks ++ ((Written.text content).characters ++ rest)) =
      .ok (String.ofList content, rest) := by
  have hshape : (Written.text content).characters ++ rest = '"' :: (content ++ '"' :: rest) := by
    simp [Written.characters]
  rw [hshape, textValue, skipBlanks_token hblanks rfl]
  exact readText_plain h rest

theorem truthValue_blanks (value : Bool) :
    truthValue (blanks ++ ((Written.truth value).characters ++ rest)) = .ok (value, rest) := by
  cases value with
  | true =>
    have hshape : (Written.truth true).characters ++ rest = 't' :: (['r', 'u', 'e'] ++ rest) := rfl
    rw [hshape, truthValue, skipBlanks_token hblanks rfl]
    exact congrArg (Except.map _) (readWord_append _ rest)
  | false =>
    have hshape : (Written.truth false).characters ++ rest =
        'f' :: (['a', 'l', 's', 'e'] ++ rest) := rfl
    rw [hshape, truthValue, skipBlanks_token hblanks rfl]
    exact congrArg (Except.map _) (readWord_append _ rest)

end Values

/-! ## Keys and their values -/

theorem Key.ofName?_eq_some_iff {text : List Char} {key : Key} :
    ofName? text = some key ↔ text = key.name.toList := by
  constructor
  · intro h
    unfold ofName? at h
    have hname := List.find?_some h
    exact (beq_iff_eq.1 hname).symm
  · rintro rfl
    cases key
    all_goals decide

theorem Key.name_inj {key key' : Key} (h : key.name.toList = key'.name.toList) : key = key' := by
  have hkey := ofName?_eq_some_iff.2 h
  rw [ofName?_eq_some_iff.2 rfl] at hkey
  exact Option.some.inj hkey

theorem Key.mem_all (key : Key) : key ∈ all := by
  cases key
  all_goals decide

/-- A value of the type that belongs to a key.  A text has no quotes and no backslashes in it. -/
def Key.Takes : Key → Written → Prop
  | kernel, .text content => Plain content
  | cmdline, .text content => Plain content
  | debug, .truth _ => True
  | listHeaders, .truth _ => True
  | pauseOnError, .truth _ => True
  | _, _ => False

/-- What the settings have under a key, as it is written. -/
def value (s : Settings) : Key → Written
  | .kernel => .text s.kernel.toList
  | .cmdline => .text s.cmdline.toList
  | .debug => .truth s.debug
  | .listHeaders => .truth s.listHeaders
  | .pauseOnError => .truth s.pauseOnError

/-- Settings are what they have under their keys. -/
theorem eq_of_value_eq {s s' : Settings} (h : ∀ key, s.value key = s'.value key) : s = s' := by
  have hkernel := String.toList_inj.1 (Written.text.inj (h .kernel))
  have hcmdline := String.toList_inj.1 (Written.text.inj (h .cmdline))
  have hdebug := Written.truth.inj (h .debug)
  have hlist := Written.truth.inj (h .listHeaders)
  have hpause := Written.truth.inj (h .pauseOnError)
  cases s
  cases s'
  simp only [Settings.mk.injEq]
  exact ⟨hkernel, hcmdline, hdebug, hlist, hpause⟩

/-- The member states a value for a key and leaves the values of other keys alone. -/
def Member.States (member : Member) (key : Key) (v : Written) : Prop :=
  ∀ (s : Settings) (other : Key),
    (s.set member).value other = if other = key then v else s.value other

namespace Member

theorem states_kernel (path : String) : (kernel path).States .kernel (.text path.toList) := by
  rintro s (_ | _ | _ | _ | _)
  all_goals rfl

theorem states_cmdline (text : String) : (cmdline text).States .cmdline (.text text.toList) := by
  rintro s (_ | _ | _ | _ | _)
  all_goals rfl

theorem states_debug (value : Bool) : (debug value).States .debug (.truth value) := by
  rintro s (_ | _ | _ | _ | _)
  all_goals rfl

theorem states_listHeaders (value : Bool) :
    (listHeaders value).States .listHeaders (.truth value) := by
  rintro s (_ | _ | _ | _ | _)
  all_goals rfl

theorem states_pauseOnError (value : Bool) :
    (pauseOnError value).States .pauseOnError (.truth value) := by
  rintro s (_ | _ | _ | _ | _)
  all_goals rfl

end Member

/-- **A value** behind a colon is read as a member that states it. -/
theorem exists_readValue {key : Key} {v : Written} (h : key.Takes v)
    {beforeColon beforeValue : List Char} (hcolon : beforeColon.all isBlank = true)
    (hvalue : beforeValue.all isBlank = true) (rest : List Char) :
    ∃ member : Member, member.States key v ∧
      readValue key (beforeColon ++ ':' :: (beforeValue ++ (v.characters ++ rest))) =
        .ok (member, rest) := by
  have hbehind := readColon_blanks hcolon (beforeValue ++ (v.characters ++ rest))
  have htruth := fun value => truthValue_blanks hvalue rest value
  cases v with
  | text content =>
    cases key with
    | kernel =>
      refine ⟨.kernel (String.ofList content), ?_, ?_⟩
      · simpa only [String.toList_ofList] using Member.states_kernel (String.ofList content)
      · simp only [readValue, hbehind, ok_bind, textValue_blanks hvalue rest h]
        rfl
    | cmdline =>
      refine ⟨.cmdline (String.ofList content), ?_, ?_⟩
      · simpa only [String.toList_ofList] using Member.states_cmdline (String.ofList content)
      · simp only [readValue, hbehind, ok_bind, textValue_blanks hvalue rest h]
        rfl
    | debug => exact h.elim
    | listHeaders => exact h.elim
    | pauseOnError => exact h.elim
  | truth value =>
    cases key with
    | kernel => exact h.elim
    | cmdline => exact h.elim
    | debug =>
      refine ⟨.debug value, Member.states_debug value, ?_⟩
      simp only [readValue, hbehind, ok_bind, htruth]
      rfl
    | listHeaders =>
      refine ⟨.listHeaders value, Member.states_listHeaders value, ?_⟩
      simp only [readValue, hbehind, ok_bind, htruth]
      rfl
    | pauseOnError =>
      refine ⟨.pauseOnError value, Member.states_pauseOnError value, ?_⟩
      simp only [readValue, hbehind, ok_bind, htruth]
      rfl
  | other spelling =>
    cases key
    all_goals exact h.elim

/-! ## The next key -/

section NextKey

variable {blanks : List Char} (hblanks : blanks.all isBlank = true)

include hblanks

theorem nextKey_end (first : Bool) (rest : List Char) :
    nextKey first (blanks ++ '}' :: rest) = .ok (none, rest) := by
  rw [nextKey, skipBlanks_token hblanks rfl]
  rfl

theorem nextKey_first {key : List Char} (h : Plain key) (rest : List Char) :
    nextKey true (blanks ++ '"' :: (key ++ '"' :: rest)) =
      .ok (some (String.ofList key), rest) := by
  rw [nextKey, skipBlanks_token hblanks rfl]
  exact congrArg (Except.map _) (readText_plain h rest)

theorem nextKey_later {key beforeKey : List Char} (hkey : beforeKey.all isBlank = true)
    (h : Plain key) (rest : List Char) :
    nextKey false (blanks ++ ',' :: (beforeKey ++ '"' :: (key ++ '"' :: rest))) =
      .ok (some (String.ofList key), rest) := by
  have hread : readKey (skipBlanks (beforeKey ++ '"' :: (key ++ '"' :: rest))) =
      .ok (String.ofList key, rest) := by
    rw [skipBlanks_token hkey rfl]
    exact readText_plain h rest
  rw [nextKey, skipBlanks_token hblanks rfl]
  exact congrArg (Except.map _) hread

end NextKey

end ElfBoot.Settings
