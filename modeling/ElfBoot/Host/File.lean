import ElfBoot.Program

/-!
# Image files in memory

A file is its bytes and a read position.  It can be made to fail: at a seek to one offset, at a
read from one position, or when it is closed.  Reads can be cut short at `chunk` bytes, but
deliver at least one while any are left.

* `FileTraits` — how a file behaves.
* `File.seek`, `File.read`, `File.close` — the three operations.
* `Volume` — files by path; opening gives a file at position zero.
-/

set_option autoImplicit false

namespace ElfBoot.Host

/-- How a file behaves: the longest read, and where it fails. -/
structure FileTraits where
  chunk : Option Nat := none
  failSeek : Option Nat := none
  failRead : Option Nat := none
  failClose : Bool := false
  deriving DecidableEq, Repr, Inhabited

/-- An open file. -/
structure File where
  content : List UInt8
  traits : FileTraits := {}
  position : Nat := 0
  /-- Whether closing it counts for the volume it was opened on. -/
  counted : Bool := false
  deriving DecidableEq, Repr, Inhabited

namespace File

/-- The status of a read that was made to fail. -/
def readFailure : Status := ⟨7⟩

/-- The longest read for a request of `n` bytes. -/
def reach (f : File) (n : Nat) : Nat :=
  match f.traits.chunk with
  | none => n
  | some c => min n (max c 1)

/-- The bytes a read of `n` delivers. -/
def available (f : File) (n : Nat) : List UInt8 := (f.content.drop f.position).take (f.reach n)

theorem length_available_le (f : File) (n : Nat) : (f.available n).length ≤ n := by
  have h : f.reach n ≤ n := by
    unfold reach
    split
    · exact Nat.le_refl n
    · exact Nat.min_le_left _ _
  simp only [available, List.length_take]
  omega

/-- Moves the read position; any position is accepted, also one past the end. -/
def seek (offset : Nat) (f : File) : Except IoError Unit × File :=
  if f.traits.failSeek = some offset then (.error (.seekFailed offset), f)
  else (.ok (), { f with position := offset })

/-- Reads at the read position and moves it past what was read. -/
def read (n : Nat) (f : File) : Except IoError (Chunk n) × File :=
  if f.traits.failRead = some f.position then (.error (.readFailed readFailure), f)
  else
    (.ok ⟨f.available n, f.length_available_le n⟩,
      { f with position := f.position + (f.available n).length })

def close (f : File) : Except IoError Unit :=
  if f.traits.failClose then .error .closeFailed else .ok ()

end File

/-! ## Volumes -/

/-- Files by path, with the behaviour of every file opened from now on. -/
structure Volume where
  files : List (String × List UInt8) := []
  traits : FileTraits := {}
  /-- The error of every attempt to open a file, if opening fails. -/
  failOpen : Option LoadError := none
  /-- How many files opened here were closed successfully. -/
  closed : Nat := 0
  deriving DecidableEq, Repr, Inhabited

namespace Volume

/-- Puts a file at a path, in place of any that was there. -/
def insert (v : Volume) (path : String) (content : List UInt8) : Volume :=
  { v with files := (path, content) :: v.files.filter fun p => p.1 != path }

/-- Opens the file at a path. -/
def openFile (v : Volume) (path : String) : Except LoadError File :=
  match v.failOpen with
  | some e => .error e
  | none =>
    match v.files.lookup path with
    | some content => .ok { content, traits := v.traits, counted := true }
    | none => .error .notFound

end Volume

end ElfBoot.Host
