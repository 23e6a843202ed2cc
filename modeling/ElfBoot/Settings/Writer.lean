import ElfBoot.Settings.Reader

/-!
# Writing a settings file

A settings file written out: one object whose members may be any, with blanks wherever the
format allows them.  The writer knows more than the reader accepts, a key may be unknown or come
twice and a value may be anything, so that what the reader makes of every such file can be said.
-/

set_option autoImplicit false

namespace ElfBoot.Settings

/-- A value as it is written. -/
inductive Written where
  | text (content : List Char)
  | truth (value : Bool)
  /-- Any other value, as it stands in the file. -/
  | other (spelling : List Char)
  deriving DecidableEq, Repr

/-- The characters of a value. -/
def Written.characters : Written → List Char
  | text content => '"' :: content ++ ['"']
  | truth true => ['t', 'r', 'u', 'e']
  | truth false => ['f', 'a', 'l', 's', 'e']
  | other spelling => spelling

/-- A member as it is written, with the blanks around its parts. -/
structure WrittenMember where
  key : List Char
  value : Written
  beforeKey : List Char := []
  beforeColon : List Char := []
  beforeValue : List Char := []
  afterValue : List Char := []
  deriving DecidableEq, Repr

namespace WrittenMember

def characters (m : WrittenMember) : List Char :=
  m.beforeKey ++ '"' :: m.key ++ '"' :: m.beforeColon ++ ':' :: m.beforeValue ++
    m.value.characters ++ m.afterValue

/-- Whether only blanks stand where blanks belong. -/
def blanksOnly (m : WrittenMember) : Bool :=
  m.beforeKey.all isBlank && m.beforeColon.all isBlank && m.beforeValue.all isBlank &&
    m.afterValue.all isBlank

end WrittenMember

/-- Members with commas between them. -/
def writeMembers : List WrittenMember → List Char
  | [] => []
  | [m] => m.characters
  | m :: rest => m.characters ++ ',' :: writeMembers rest

/-- A file: blanks, the object, blanks.  `inside` are the blanks in an object without members. -/
def write (before inside after : List Char) (members : List WrittenMember) : List Char :=
  before ++ '{' :: (if members.isEmpty then inside else writeMembers members) ++
    '}' :: after

end ElfBoot.Settings
