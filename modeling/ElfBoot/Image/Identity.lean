import ElfBoot.Bytes.LittleEndian
import ElfBoot.Image.Width
import ElfBoot.Error

/-!
# The identity block

The first sixteen bytes of an image: four magic bytes, then the width, the data encoding, the
format version, the operating system interface and its version, one byte each, then padding.

`Identity.validate` checks magic, width and encoding in that order and answers with the width.
-/

set_option autoImplicit false

namespace ElfBoot

/-- The sixteen bytes an image starts with. -/
structure Identity where
  bytes : List UInt8
  length_eq : bytes.length = identitySize
  deriving DecidableEq, Repr

namespace Identity

/-- A list of exactly sixteen bytes as an identity block. -/
def ofBytes? (bs : List UInt8) : Option Identity :=
  if h : bs.length = identitySize then some ⟨bs, h⟩ else none

/-- The identity block at the front of a byte list, and what follows it. -/
def decode? (bs : List UInt8) : Option (Identity × List UInt8) :=
  match h : splitExactly? identitySize bs with
  | some (front, rest) => some (⟨front, (splitExactly?_eq_some_iff.1 h).1⟩, rest)
  | none => none

/-- The byte at a position; the block has no bytes from position 16 on, which read as zero. -/
def byteAt (ident : Identity) (i : Nat) : UInt8 := ident.bytes.getD i 0

def magic (ident : Identity) : List UInt8 := ident.bytes.take 4
def width (ident : Identity) : UInt8 := ident.byteAt 4
def encoding (ident : Identity) : UInt8 := ident.byteAt 5
def version (ident : Identity) : UInt8 := ident.byteAt 6
def osAbi (ident : Identity) : UInt8 := ident.byteAt 7
def abiVersion (ident : Identity) : UInt8 := ident.byteAt 8

/-- The bytes every image starts with: 0x7F and the letters ELF. -/
def elfMagic : List UInt8 := [0x7F, 0x45, 0x4C, 0x46]

/-- The data encoding that stores words lowest byte first. -/
def littleEndian : UInt8 := 1

/-- The width of an image that this loader can read, or why it cannot. -/
def validate (ident : Identity) : Except LoadError Width :=
  if ident.magic ≠ elfMagic then .error .invalidFormat
  else match Width.ofIdent ident.width with
    | none => .error (.unsupportedFormat ident.width)
    | some w =>
      if ident.encoding ≠ littleEndian then .error (.unsupportedEncoding ident.encoding)
      else .ok w

theorem decode?_append (ident : Identity) (rest : List UInt8) :
    decode? (ident.bytes ++ rest) = some (ident, rest) := by
  have h := splitExactly?_append ident.bytes rest
  rw [ident.length_eq] at h
  unfold decode?
  split
  · rename_i front r heq
    rw [h] at heq
    simp only [Option.some.injEq, Prod.mk.injEq] at heq
    obtain ⟨rfl, rfl⟩ := heq
    rfl
  · rename_i heq
    rw [h] at heq
    cases heq

/-- Reads an identity block off the front of a byte list and goes on with the block and what
follows it. -/
def read? {β : Type} (bs : List UInt8) (next : Identity → List UInt8 → Option β) : Option β :=
  (decode? bs).bind fun p => next p.1 p.2

theorem read?_append {β : Type} (ident : Identity) (rest : List UInt8)
    (next : Identity → List UInt8 → Option β) :
    read? (ident.bytes ++ rest) next = next ident rest := by
  rw [read?, decode?_append, Option.bind_some]

end Identity

end ElfBoot
