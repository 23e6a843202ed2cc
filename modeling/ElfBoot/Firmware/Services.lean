import ElfBoot.Firmware.Path
import ElfBoot.Load.Image
import ElfBoot.Memory.Pages
import ElfBoot.Memory.Space

/-!
# Loading through the firmware

The firmware offers files and pages; this module makes of them the collaborators that a load
needs.  The firmware is any record of services; an open file and the page allocator are states
that the services change.

* `Services` — what the firmware does, and how the names of its files are spelled.
* `Boot` — the state of the collaborators: the volume, the open file, the page allocator, the
  memory, which can be written directly at its physical addresses, and the ranges reserved so far.
* `Boot.openFile`, `Boot.reserve`, `Boot.write`, `Boot.zero` — the calls, with the firmware's
  statuses turned into errors.  Memory is changed only inside a range that was granted.
* `Boot.handler` — the collaborators together.
* `Boot.readFile` — a whole file at once, or nothing if there is no such file.
-/

set_option autoImplicit false

namespace ElfBoot.Firmware

/-- What an opened name turns out to be. -/
inductive FileType (φ : Type) where
  | regular (file : φ)
  | directory

/-- The services of a firmware with volume state `ν`, open files `φ` and page allocator `α`. -/
structure Services (ν φ α : Type) where
  /-- Spells a text in 16-bit characters, without the zero that ends it, if it can be spelled. -/
  spell : String → Option (List UInt16)
  /-- Opens a name on the volume, for reading. -/
  openName : List UInt16 → ν → Except Status φ × ν
  /-- Finds out whether an opened name is a regular file. -/
  intoType : φ → Except Status (FileType φ)
  /-- Moves the position of a file; the largest position means the end of the file. -/
  setPosition : Nat → φ → Except Status Unit × φ
  /-- The position of a file. -/
  getPosition : φ → Except Status Nat × φ
  /-- Reads at the position of a file. -/
  readFile : (n : Nat) → φ → Except Status (Chunk n) × φ
  /-- Allocates pages at a fixed address and answers with the address. -/
  allocatePages : (address pages : Nat) → α → Except Status Nat × α

/-- The collaborators of a load through the firmware. -/
structure Boot (ν φ α : Type) where
  volume : ν
  file : Option φ := none
  allocator : α
  memory : AddressSpace
  /-- Ranges that were granted, in order. -/
  reserved : List PageRange := []
  /-- Whether a list of so many ranges can take one more.  A load ends with the first refusal, so
  each of its requests finds another number of ranges. -/
  grantsRoom : Nat → Bool
  /-- Which lengths the scratch allocator grants. -/
  grantsScratch : Nat → Bool

/-- The position that means the end of a file. -/
def endOfFile : Nat := wordLimit - 1

/-- Number of bytes that a range takes in the list of ranges. -/
def rangeSize : Nat := 16

namespace Boot

variable {ν φ α : Type}

/-! ## Files -/

/-- The error for a status with which opening failed. -/
def openError (status : Status) : LoadError :=
  if status = .notFound then .notFound else .io (.openFailed status)

/-- Opens the regular file at a path.  A name that turns out to be a directory is an error. -/
def openFile (fw : Services ν φ α) (path : String) (b : Boot ν φ α) :
    Except LoadError Unit × Boot ν φ α :=
  match nameOf fw.spell path with
  | .error e => (.error e, b)
  | .ok name =>
    match fw.openName name b.volume with
    | (.error status, volume) => (.error (openError status), { b with volume })
    | (.ok file, volume) =>
      match fw.intoType file with
      | .error status => (.error (.io (.openFailed status)), { b with volume })
      | .ok .directory => (.error (.io (.openFailed .unsupported)), { b with volume })
      | .ok (.regular file) => (.ok (), { b with volume, file := some file })

/-- Runs an operation of the open file; without one it is a fault. -/
def onFile {β : Type} (b : Boot ν φ α) (operation : φ → β × φ) : Option (β × Boot ν φ α) :=
  b.file.map fun f =>
    let p := operation f
    (p.1, { b with file := some p.2 })

def seek (fw : Services ν φ α) (offset : Nat) (f : φ) : Except IoError Unit × φ :=
  let p := fw.setPosition offset f
  (p.1.mapError fun _ => .seekFailed offset, p.2)

/-- Reads at most `n` bytes.  Nothing is asked of the firmware for none. -/
def read (fw : Services ν φ α) (n : Nat) (f : φ) : Except IoError (Chunk n) × φ :=
  if n = 0 then (.ok ⟨[], Nat.zero_le n⟩, f)
  else
    let p := fw.readFile n f
    (p.1.mapError .readFailed, p.2)

/-- The size of a file, found at its end.  Leaves the position at the start. -/
def size (fw : Services ν φ α) (f : φ) : Except IoError Nat × φ :=
  match fw.setPosition endOfFile f with
  | (.error _, f) => (.error (.seekFailed endOfFile), f)
  | (.ok (), f) =>
    match fw.getPosition f with
    | (.error status, f) => (.error (.readFailed status), f)
    | (.ok n, f) =>
      match seek fw 0 f with
      | (.error e, f) => (.error e, f)
      | (.ok (), f) => (.ok n, f)

/-! ## Memory -/

/-- Reserves pages at a fixed address.  The firmware is asked for them only if the list of ranges
has room for one more. -/
def reserve (fw : Services ν φ α) (address pages : Nat) (b : Boot ν φ α) :
    Except LoadError Unit × Boot ν φ α × List Notice :=
  if b.grantsRoom b.reserved.length then
    match fw.allocatePages address pages b.allocator with
    | (.ok base, allocator) =>
      (.ok (), { b with allocator, reserved := b.reserved ++ [⟨base, pages⟩] }, [])
    | (.error status, allocator) =>
      (.error (.allocation (.reserve address pages)), { b with allocator },
        [.allocationRefused address pages status])
  else (.error (.allocation (.buffer rangeSize)), b, [])

/-- The list of ranges has room for one more, however many it holds. -/
def AlwaysHasRoom (b : Boot ν φ α) : Prop := ∀ entries, b.grantsRoom entries = true

theorem reserve_of_room {b : Boot ν φ α} (hroom : b.grantsRoom b.reserved.length = true)
    (fw : Services ν φ α) (address pages : Nat) :
    b.reserve fw address pages =
      match fw.allocatePages address pages b.allocator with
      | (.ok base, allocator) =>
        (.ok (), { b with allocator, reserved := b.reserved ++ [⟨base, pages⟩] }, [])
      | (.error status, allocator) =>
        (.error (.allocation (.reserve address pages)), { b with allocator },
          [.allocationRefused address pages status]) := by
  rw [reserve, if_pos hroom]

/-- Without room for one more range, nothing is asked of the firmware and nothing happens. -/
theorem reserve_of_no_room {b : Boot ν φ α} (hroom : b.grantsRoom b.reserved.length = false)
    (fw : Services ν φ α) (address pages : Nat) :
    b.reserve fw address pages = (.error (.allocation (.buffer rangeSize)), b, []) := by
  rw [reserve, hroom, if_neg Bool.false_ne_true]

/-- Whether `len` bytes from `address` on lie in a single granted range. -/
def owns? (b : Boot ν φ α) (address len : Nat) : Option Bool :=
  match Address.add? address len with
  | none => some false
  | some stop => someRange? (·.covers? address stop) b.reserved

/-- Copies bytes into a granted range. -/
def write (b : Boot ν φ α) (address : Nat) (bytes : List UInt8) :
    Option (Except LoadError Unit × Boot ν φ α) :=
  (b.owns? address bytes.length).map fun owned =>
    if owned then (.ok (), { b with memory := b.memory.store address bytes })
    else (.error (.allocation (.outOfRange address bytes.length)), b)

/-- Clears bytes of a granted range. -/
def zero (b : Boot ν φ α) (address len : Nat) : Option (Except LoadError Unit × Boot ν φ α) :=
  (b.owns? address len).map fun owned =>
    if owned then (.ok (), { b with memory := b.memory.clear address len })
    else (.error (.allocation (.outOfRange address len)), b)

/-! ## The collaborators -/

/-- How the collaborators answer. -/
def reply (fw : Services ν φ α) :
    (c : Call) → Boot ν φ α → Option (c.Answer × Boot ν φ α × List Notice)
  | .openImage path, b =>
    let p := b.openFile fw path
    some (p.1, p.2, [])
  | .seek offset, b => (b.onFile (seek fw offset)).map fun p => (p.1, p.2, [])
  | .read len, b => (b.onFile (read fw len)).map fun p => (p.1, p.2, [])
  | .close, b => b.file.map fun _ => (.ok (), { b with file := none }, [])
  | .reserve address pages, b => some (b.reserve fw address pages)
  | .write address bytes, b => (b.write address bytes).map fun p => (p.1, p.2, [])
  | .zero address len, b => (b.zero address len).map fun p => (p.1, p.2, [])
  | .scratch len, b => some (b.grantsScratch len, b, [])

/-- The firmware as the collaborators of a program. -/
def handler (fw : Services ν φ α) : Handler (Boot ν φ α) where
  reply c b := (reply fw c b).map fun p => { answer := p.1, state := p.2.1, notices := p.2.2 }

/-- Runs a loading procedure through the firmware. -/
def run {β : Type} (fw : Services ν φ α) (b : Boot ν φ α) (p : Load β) :
    Run (Boot ν φ α) (Except LoadError β) :=
  Program.run (handler fw) p.run b

/-! ## Whole files -/

/-- A buffer for some bytes.  Nothing is asked of the scratch allocator for none. -/
def buffer (size : Nat) : Load Unit := if size = 0 then pure () else Load.scratch size

/-- Reads an open file of known size from its position on and closes it. -/
def readAll (path : String) (size : Nat) : Load (List UInt8) := do
  Load.note (.readingFile path size)
  buffer size
  let bytes ← Load.readExact size
  Load.check ((← Load.ask .close).mapError .io)
  return bytes

/-- Reads the file at a path.  The answer is `none` if there is no such file. -/
def readFile (fw : Services ν φ α) (path : String) (b : Boot ν φ α) :
    Run (Boot ν φ α) (Except LoadError (Option (List UInt8))) :=
  match b.openFile fw path with
  | (.error .notFound, b) => ⟨.done (.ok none), b, [], []⟩
  | (.error e, b) => ⟨.done (.error e), b, [], []⟩
  | (.ok (), b) =>
    match b.onFile (size fw) with
    | none => ⟨.fault, b, [], []⟩
    | some (.error e, b) => ⟨.done (.error (.io e)), b, [], []⟩
    | some (.ok n, b) => b.run fw (some <$> readAll path n)

end Boot

end ElfBoot.Firmware
