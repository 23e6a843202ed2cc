import ElfBoot.Settings.Basic

/-!
# Reading the settings file

The file is a JSON object whose members are settings: texts for the kernel and the command line,
truth values for the rest.  Members come in any order, each at most once, and an unknown key is
refused.  A text is everything between its quotes as it stands; a backslash keeps the next
character from ending the text, and both stay in it.

* `ReadError` — why a file is refused.
* `Settings.read` — the settings of a file.

The reader goes through the characters once and reports the first thing that is wrong.  A key is
judged as soon as it is read, before the colon and the value behind it.
-/

set_option autoImplicit false

namespace ElfBoot.Settings

/-- Why a settings file is refused. -/
inductive ReadError where
  | eofInObject
  | eofInString
  | eofInValue
  | expectedColon
  | expectedCommaOrEnd
  | expectedIdent
  | invalidType
  | keyNotString
  | trailingCharacters
  | trailingComma
  /-- An unknown key, or one that was there before. -/
  | refusedKey
  deriving DecidableEq, Repr

def ReadError.message : ReadError → String
  | eofInObject => "EOF while parsing an object."
  | eofInString => "EOF while parsing a string."
  | eofInValue => "EOF while parsing a JSON value."
  | expectedColon => "Expected this character to be a `':'`."
  | expectedCommaOrEnd =>
    "Expected this character to be either a `','` or a `'\x7d'`."
  | expectedIdent =>
    "Expected to parse either a `true`, `false`, or a `null`."
  | invalidType => "Invalid type"
  | keyNotString => "Object key is not a string."
  | trailingCharacters => "JSON has non-whitespace trailing characters after the value."
  | trailingComma => "JSON has a comma after the last value in an array or map."
  | refusedKey => "JSON does not match deserializer’s expected format."

/-! ## Tokens -/

/-- The characters that may stand between tokens. -/
def isBlank (c : Char) : Bool := c == ' ' || c == '\n' || c == '\t' || c == '\r'

/-- Drops the blanks at the front. -/
def skipBlanks (cs : List Char) : List Char := cs.dropWhile isBlank

/-- The characters up to the quote that ends a text, and those behind it; `none` if there is no
such quote. -/
def scanText? : List Char → Option (List Char × List Char)
  | [] => none
  | '"' :: rest => some ([], rest)
  | '\\' :: c :: rest => (scanText? rest).map fun p => ('\\' :: c :: p.1, p.2)
  | c :: rest => (scanText? rest).map fun p => (c :: p.1, p.2)

/-- A text whose opening quote was read. -/
def readText (cs : List Char) : Except ReadError (String × List Char) :=
  match scanText? cs with
  | some (text, rest) => .ok (String.ofList text, rest)
  | none => .error .eofInString

/-- The rest of a word that was recognised by its first character. -/
def readWord : List Char → List Char → Except ReadError (List Char)
  | [], cs => .ok cs
  | w :: ws, c :: cs => if w = c then readWord ws cs else .error .expectedIdent
  | _ :: _, [] => .error .expectedIdent

/-! ## Members -/

/-- A text as a value. -/
def textValue (cs : List Char) : Except ReadError (String × List Char) :=
  match skipBlanks cs with
  | [] => .error .eofInValue
  | '"' :: rest => readText rest
  | _ => .error .invalidType

/-- A truth value. -/
def truthValue (cs : List Char) : Except ReadError (Bool × List Char) :=
  match skipBlanks cs with
  | [] => .error .eofInValue
  | 't' :: rest => (readWord ['r', 'u', 'e'] rest).map fun rest => (true, rest)
  | 'f' :: rest => (readWord ['a', 'l', 's', 'e'] rest).map fun rest => (false, rest)
  | _ => .error .invalidType

/-- The colon between a key and its value. -/
def readColon (cs : List Char) : Except ReadError (List Char) :=
  match skipBlanks cs with
  | [] => .error .eofInObject
  | ':' :: rest => .ok rest
  | _ => .error .expectedColon

/-- The value that belongs to a key. -/
def readValue (key : Key) (cs : List Char) : Except ReadError (Member × List Char) := do
  let cs ← readColon cs
  match key with
  | .kernel => return (← textValue cs).map .kernel id
  | .cmdline => return (← textValue cs).map .cmdline id
  | .debug => return (← truthValue cs).map .debug id
  | .listHeaders => return (← truthValue cs).map .listHeaders id
  | .pauseOnError => return (← truthValue cs).map .pauseOnError id

/-- A key, at the place where one has to be. -/
def readKey (cs : List Char) : Except ReadError (String × List Char) :=
  match cs with
  | [] => .error .eofInValue
  | '"' :: rest => readText rest
  | '}' :: _ => .error .trailingComma
  | _ => .error .keyNotString

/-- The next key, or the end of the object; in both cases with what follows.  All keys but the
first have a comma in front of them. -/
def nextKey (first : Bool) (cs : List Char) :
    Except ReadError (Option String × List Char) :=
  match skipBlanks cs with
  | [] => .error .eofInObject
  | '}' :: rest => .ok (none, rest)
  | c :: rest =>
    if first then (readKey (c :: rest)).map fun p => (some p.1, p.2)
    else if c = ',' then (readKey (skipBlanks rest)).map fun p => (some p.1, p.2)
    else .error .expectedCommaOrEnd

/-- The members of an object, of which the keys in `unseen` may still come. -/
def readMembers (unseen : List Key) (first : Bool) (s : Settings) (cs : List Char) :
    Except ReadError (Settings × List Char) :=
  match nextKey first cs with
  | .error e => .error e
  | .ok (none, rest) => .ok (s, rest)
  | .ok (some name, rest) =>
    match Key.ofName? name.toList with
    | none => .error .refusedKey
    | some key =>
      if _h : key ∈ unseen then
        match readValue key rest with
        | .error e => .error e
        | .ok (member, rest) => readMembers (unseen.erase key) false (s.set member) rest
      else .error .refusedKey
termination_by unseen.length
decreasing_by
  rw [List.length_erase_of_mem _h]
  have := List.length_pos_of_mem _h
  omega

/-- The settings of a file. -/
def readCharacters (cs : List Char) : Except ReadError Settings :=
  match skipBlanks cs with
  | [] => .error .eofInValue
  | '{' :: rest =>
    match readMembers Key.all true {} rest with
    | .error e => .error e
    | .ok (s, rest) => if skipBlanks rest = [] then .ok s else .error .trailingCharacters
  | _ => .error .invalidType

/-- The settings of a file. -/
def read (json : String) : Except ReadError Settings := readCharacters json.toList

end ElfBoot.Settings
