import ElfBoot.Firmware.Services

/-!
# A small firmware

A firmware with a few files, some directories and 256 KiB of memory, which can be told to fail at
any of its services with any status.

* `ucs2?`, `path` — the spelling of its names.
* `Profile` — what the firmware holds and where it fails.
* `Profile.findVolume` — the steps that lead to the boot volume.
* `Profile.services` — the services of the firmware; `Model` is a boot through them.
-/

set_option autoImplicit false

namespace ElfBoot.Firmware

/-- The 16-bit character of a text, unless it is zero or does not fit. -/
def character? (c : Char) : Option UInt16 :=
  if c.toNat = 0 ∨ 0xFFFF < c.toNat then none else some (.ofNat c.toNat)

/-- The spelling of a text by its 16-bit characters. -/
def ucs2? (text : String) : Option (List UInt16) := text.toList.mapM character?

/-- The name of a path. -/
def path (text : String) : Except LoadError (List UInt16) := nameOf ucs2? text

/-- The steps to the volume that the loader was started from, in order. -/
structure VolumeSearch where
  loadedImage : Status := .success
  /-- Whether the loaded image names the device it came from. -/
  hasDevice : Bool := true
  devicePath : Status := .success
  locate : Status := .success
  fileSystem : Status := .success
  openVolume : Status := .success
  deriving DecidableEq, Repr, Inhabited

/-- The status of every step, in order. -/
def VolumeSearch.statuses (v : VolumeSearch) : List Status :=
  [v.loadedImage, if v.hasDevice then .success else .unsupported, v.devicePath, v.locate,
    v.fileSystem, v.openVolume]

/-- What a firmware holds and where it fails. -/
structure Profile where
  search : VolumeSearch := {}
  files : List (String × List UInt8) := []
  directories : List String := []
  /-- The status of every attempt to open a name. -/
  openStatus : Option Status := none
  /-- The status of asking for the position at the start of a file. -/
  tellStart : Option Status := none
  /-- The status of asking for any other position. -/
  tellEnd : Option Status := none
  /-- The position that cannot be moved to. -/
  failSeek : Option Nat := none
  /-- The status of reading at a position. -/
  failRead : Option (Nat × Status) := none
  /-- The longest read. -/
  chunk : Option Nat := none
  /-- The status of every allocation. -/
  allocate : Option Status := none
  /-- Ranges of memory that are taken. -/
  occupied : List PageRange := []
  deriving DecidableEq, Repr, Inhabited

/-- An open file or directory. -/
structure Handle where
  content : List UInt8
  position : Nat := 0
  isDirectory : Bool := false
  deriving DecidableEq, Repr, Inhabited

/-- First address of the memory. -/
def ramBase : Nat := 0x10000000

/-- First address past the memory. -/
def ramLimit : Nat := 0x10040000

/-- The byte that fills fresh memory. -/
def ramFill : UInt8 := 0xA5

namespace Profile

/-- A status that a service was told to answer with, if it is a failure. -/
def failure? (told : Option Status) : Option Status := told.filter fun s => !s.isSuccess

/-- Fails with the status of the first step to the boot volume that does not succeed. -/
def findVolume (p : Profile) : Except Status Unit :=
  match p.search.statuses.find? fun s => !s.isSuccess with
  | some s => .error s
  | none => .ok ()

/-- The text that a firmware name spells. -/
def nameText (name : List UInt16) : String :=
  String.ofList (name.map fun c => Char.ofNat c.toNat)

def openName (p : Profile) (name : List UInt16) : Except Status Handle :=
  match failure? p.openStatus with
  | some s => .error s
  | none =>
    match p.files.lookup (nameText name) with
    | some content => .ok { content }
    | none =>
      if p.directories.contains (nameText name) then .ok { content := [], isDirectory := true }
      else .error .notFound

def setPosition (p : Profile) (position : Nat) (h : Handle) : Except Status Unit × Handle :=
  if p.failSeek = some position then (.error .deviceError, h)
  else
    let position := if position = endOfFile then h.content.length else position
    (.ok (), { h with position })

def getPosition (p : Profile) (h : Handle) : Except Status Nat :=
  if h.isDirectory then .error .unsupported
  else match failure? (if h.position = 0 then p.tellStart else p.tellEnd) with
    | some s => .error s
    | none => .ok h.position

/-- A directory is told from a file by its position, which cannot be asked for. -/
def intoType (p : Profile) (h : Handle) : Except Status (FileType Handle) :=
  match p.getPosition h with
  | .ok _ => .ok (.regular h)
  | .error s => if s = .unsupported then .ok .directory else .error s

/-- The longest read for a request of `n` bytes. -/
def reach (p : Profile) (n : Nat) : Nat :=
  match p.chunk with
  | none => n
  | some c => min n c

/-- The bytes a read of `n` delivers. -/
def available (p : Profile) (n : Nat) (h : Handle) : Chunk n :=
  ⟨(h.content.drop h.position).take (p.reach n), by
    have hr : p.reach n ≤ n := by
      unfold reach
      split
      · exact Nat.le_refl n
      · exact Nat.min_le_left _ _
    simp only [List.length_take]
    omega⟩

def readFile (p : Profile) (n : Nat) (h : Handle) : Except Status (Chunk n) × Handle :=
  let chunk := p.available n h
  let rest := { h with position := h.position + chunk.val.length }
  match p.failRead with
  | some (position, s) => if h.position = position then (.error s, h) else (.ok chunk, rest)
  | none => (.ok chunk, rest)

/-- Whether a request for pages is granted beside the ranges granted before. -/
def grants (p : Profile) (granted : List PageRange) (r : PageRange) : Bool :=
  r.pages != 0 && r.address % pageSize == 0 && decide (ramBase ≤ r.address) &&
    decide (r.limit ≤ ramLimit) &&
    (granted ++ p.occupied).all fun q => decide (r.limit ≤ q.address ∨ q.limit ≤ r.address)

def allocatePages (p : Profile) (address pages : Nat) (granted : List PageRange) :
    Except Status Nat × List PageRange :=
  match failure? p.allocate with
  | some s => (.error s, granted)
  | none =>
    if p.grants granted ⟨address, pages⟩ then (.ok address, granted ++ [⟨address, pages⟩])
    else (.error .notFound, granted)

/-- The services of the firmware.  Its volume has no state; its page allocator remembers what it
granted. -/
def services (p : Profile) : Services Unit Handle (List PageRange) where
  spell := ucs2?
  openName name _ := (p.openName name, ())
  intoType := p.intoType
  setPosition := p.setPosition
  getPosition h := (p.getPosition h, h)
  readFile := p.readFile
  allocatePages := p.allocatePages

end Profile

/-- A boot through the small firmware. -/
abbrev Model := Boot Unit Handle (List PageRange)

/-- Fresh memory and no open file. -/
def Model.fresh : Model where
  volume := ()
  allocator := []
  memory := .filled ramFill
  grantsRoom := fun _ => true
  grantsScratch := fun len => decide (len < scratchLimit)

/-- The `len` bytes of memory from `address` on; `none` if they are not all there. -/
def Model.peek? (m : Model) (address len : Nat) : Option (List UInt8) :=
  if ramBase ≤ address ∧ address + len ≤ ramLimit then some (m.memory.read address len) else none

end ElfBoot.Firmware
