/-!
# Boot settings

What the settings file of the boot volume can say: which kernel to load, its command line, and
how much to report.  Every setting has a default, so that an empty file is a complete one.

A `Member` is one setting together with its value, as the file states it; `Key` is its name.
-/

set_option autoImplicit false

namespace ElfBoot

/-- Contents of the settings file. -/
structure Settings where
  kernel : String := "/kernel.elf"
  cmdline : String := ""
  debug : Bool := false
  /-- The listing of headers as the file asks for it; debugging asks for it as well. -/
  listHeaders : Bool := false
  pauseOnError : Bool := true
  deriving DecidableEq, Repr, Inhabited

namespace Settings

/-- Where the settings file is. -/
def defaultPath : String := "/EFI/BOOT/config.json"

/-- Whether the headers of the image are listed. -/
def listsHeaders (s : Settings) : Bool := s.listHeaders || s.debug

/-- Name of the level from which on the loader reports. -/
def levelName (s : Settings) : String := if s.debug then "DEBUG" else "INFO"

/-- The names that settings have in the file. -/
inductive Key where
  | kernel
  | cmdline
  | debug
  | listHeaders
  | pauseOnError
  deriving DecidableEq, Repr

namespace Key

/-- Every key once. -/
def all : List Key := [kernel, cmdline, debug, listHeaders, pauseOnError]

def name : Key → String
  | kernel => "kernel"
  | cmdline => "cmdline"
  | debug => "debug"
  | listHeaders => "dump_headers"
  | pauseOnError => "pause_on_error"

/-- The key with a name. -/
def ofName? (text : List Char) : Option Key := all.find? fun k => k.name.toList == text

end Key

/-- One setting with its value. -/
inductive Member where
  | kernel (path : String)
  | cmdline (text : String)
  | debug (value : Bool)
  | listHeaders (value : Bool)
  | pauseOnError (value : Bool)
  deriving DecidableEq, Repr

/-- Changes one setting. -/
def set (s : Settings) : Member → Settings
  | .kernel path => { s with kernel := path }
  | .cmdline text => { s with cmdline := text }
  | .debug value => { s with debug := value }
  | .listHeaders value => { s with listHeaders := value }
  | .pauseOnError value => { s with pauseOnError := value }

end Settings

end ElfBoot
