import ElfBoot.Bytes.LittleEndian
import ElfBoot.Image.Vocabulary
import ElfBoot.Image.Width

/-!
# Program headers

A program header describes one segment: what it is, where its bytes are in the file and where
they go in memory.  The two widths store the same fields; the flags stand behind the memory size
in the 32-bit layout and behind the kind in the 64-bit layout.

* `RawProgramHeader α` — the fields as they stand in a file, with words of type `α`.
* `encode32`, `decode32?`, `encode64`, `decode64?` — the two layouts, written and read.
* `ProgramHeader` — the fields widened to 64 bits.

Only the low three bits of the flags word are kept; reading a layout back loses nothing else
(`decode32?_eq_some_iff`, `decode64?_eq_some_iff`).
-/

set_option autoImplicit false

namespace ElfBoot

/-- A program header as it stands in a file, with addresses and sizes of type `α`. -/
structure RawProgramHeader (α : Type) where
  kind : UInt32
  flags : SegmentFlags
  offset : α
  vaddr : α
  paddr : α
  filesz : α
  memsz : α
  align : α
  deriving DecidableEq, Repr

namespace RawProgramHeader

/-! ## The 32-bit layout -/

def encode32 (h : RawProgramHeader UInt32) : List UInt8 :=
  Word.encode h.kind ++ (Word.encode h.offset ++ (Word.encode h.vaddr ++ (Word.encode h.paddr ++
    (Word.encode h.filesz ++ (Word.encode h.memsz ++ (Word.encode h.flags.toWord ++
    Word.encode h.align))))))

/-- A 32-bit program header at the front of a byte list, and what follows it; `none` if the list
is too short. -/
def decode32? (bs : List UInt8) : Option (RawProgramHeader UInt32 × List UInt8) :=
  Word.read? bs fun kind bs =>
  Word.read? bs fun offset bs =>
  Word.read? bs fun vaddr bs =>
  Word.read? bs fun paddr bs =>
  Word.read? bs fun filesz bs =>
  Word.read? bs fun memsz bs =>
  Word.read? bs fun flags bs =>
  Word.read? bs fun align bs =>
  some (⟨kind, .ofWord flags, offset, vaddr, paddr, filesz, memsz, align⟩, bs)

theorem decode32?_encode32_append (h : RawProgramHeader UInt32) (rest : List UInt8) :
    decode32? (h.encode32 ++ rest) = some (h, rest) := by
  simp only [decode32?, encode32, List.append_assoc, ↓Word.read?_encode_append,
    SegmentFlags.ofWord_toWord]

/-- Reading the 32-bit layout: the list starts with the fields, in order, and a flags word. -/
theorem decode32?_eq_some_iff {bs rest : List UInt8} {h : RawProgramHeader UInt32} :
    decode32? bs = some (h, rest) ↔ ∃ flags : UInt32, h.flags = .ofWord flags ∧
      bs = Word.encode h.kind ++ (Word.encode h.offset ++ (Word.encode h.vaddr ++
        (Word.encode h.paddr ++ (Word.encode h.filesz ++ (Word.encode h.memsz ++
        (Word.encode flags ++ (Word.encode h.align ++ rest))))))) := by
  constructor
  · intro hd
    simp only [decode32?, Word.read?_eq_some_iff, Option.some.injEq, Prod.mk.injEq] at hd
    obtain ⟨kind, _, rfl, offset, _, rfl, vaddr, _, rfl, paddr, _, rfl, filesz, _, rfl,
      memsz, _, rfl, flags, _, rfl, align, _, rfl, rfl, rfl⟩ := hd
    exact ⟨flags, rfl, rfl⟩
  · rintro ⟨flags, hf, rfl⟩
    simp only [decode32?, ↓Word.read?_encode_append, ← hf]

/-! ## The 64-bit layout -/

def encode64 (h : RawProgramHeader UInt64) : List UInt8 :=
  Word.encode h.kind ++ (Word.encode h.flags.toWord ++ (Word.encode h.offset ++
    (Word.encode h.vaddr ++ (Word.encode h.paddr ++ (Word.encode h.filesz ++
    (Word.encode h.memsz ++ Word.encode h.align))))))

/-- A 64-bit program header at the front of a byte list, and what follows it; `none` if the list
is too short. -/
def decode64? (bs : List UInt8) : Option (RawProgramHeader UInt64 × List UInt8) :=
  Word.read? bs fun kind bs =>
  Word.read? bs fun flags bs =>
  Word.read? bs fun offset bs =>
  Word.read? bs fun vaddr bs =>
  Word.read? bs fun paddr bs =>
  Word.read? bs fun filesz bs =>
  Word.read? bs fun memsz bs =>
  Word.read? bs fun align bs =>
  some (⟨kind, .ofWord flags, offset, vaddr, paddr, filesz, memsz, align⟩, bs)

theorem decode64?_encode64_append (h : RawProgramHeader UInt64) (rest : List UInt8) :
    decode64? (h.encode64 ++ rest) = some (h, rest) := by
  simp only [decode64?, encode64, List.append_assoc, ↓Word.read?_encode_append,
    SegmentFlags.ofWord_toWord]

/-- Reading the 64-bit layout: the list starts with the fields, in order, and a flags word. -/
theorem decode64?_eq_some_iff {bs rest : List UInt8} {h : RawProgramHeader UInt64} :
    decode64? bs = some (h, rest) ↔ ∃ flags : UInt32, h.flags = .ofWord flags ∧
      bs = Word.encode h.kind ++ (Word.encode flags ++ (Word.encode h.offset ++
        (Word.encode h.vaddr ++ (Word.encode h.paddr ++ (Word.encode h.filesz ++
        (Word.encode h.memsz ++ (Word.encode h.align ++ rest))))))) := by
  constructor
  · intro hd
    simp only [decode64?, Word.read?_eq_some_iff, Option.some.injEq, Prod.mk.injEq] at hd
    obtain ⟨kind, _, rfl, flags, _, rfl, offset, _, rfl, vaddr, _, rfl, paddr, _, rfl,
      filesz, _, rfl, memsz, _, rfl, align, _, rfl, rfl, rfl⟩ := hd
    exact ⟨flags, rfl, rfl⟩
  · rintro ⟨flags, hf, rfl⟩
    simp only [decode64?, ↓Word.read?_encode_append, ← hf]

end RawProgramHeader

/-! ## The view that does not depend on the width -/

/-- A program header with every field widened to 64 bits. -/
structure ProgramHeader where
  kind : UInt32
  flags : SegmentFlags
  offset : UInt64
  virtualAddress : UInt64
  physicalAddress : UInt64
  fileSize : UInt64
  memorySize : UInt64
  align : UInt64
  deriving DecidableEq, Repr

namespace ProgramHeader

def ofRaw32 (h : RawProgramHeader UInt32) : ProgramHeader :=
  ⟨h.kind, h.flags, h.offset.toUInt64, h.vaddr.toUInt64, h.paddr.toUInt64, h.filesz.toUInt64,
    h.memsz.toUInt64, h.align.toUInt64⟩

def ofRaw64 (h : RawProgramHeader UInt64) : ProgramHeader :=
  ⟨h.kind, h.flags, h.offset, h.vaddr, h.paddr, h.filesz, h.memsz, h.align⟩

/-- The program header at the front of a byte list; `none` if the list is too short. -/
def decode? (w : Width) (bs : List UInt8) : Option ProgramHeader :=
  match w with
  | .bits32 => (RawProgramHeader.decode32? bs).map fun p => ofRaw32 p.1
  | .bits64 => (RawProgramHeader.decode64? bs).map fun p => ofRaw64 p.1

/-- Whether the segment is placed in memory. -/
def isLoad (h : ProgramHeader) : Bool := h.kind == SegmentKind.load

/-- Bytes of the segment that are in memory but not in the file; `none` if it claims more bytes
in the file than in memory. -/
def zeroFill? (h : ProgramHeader) : Option Nat :=
  if h.fileSize ≤ h.memorySize then some (h.memorySize.toNat - h.fileSize.toNat) else none

end ProgramHeader

end ElfBoot
