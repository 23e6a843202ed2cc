import ElfBoot.Bytes.LittleEndian
import ElfBoot.Handoff.MemoryType
import ElfBoot.Memory.Pages

/-!
# Regions of the memory map

A region is a run of pages of one type.  In the handoff record it takes 24 bytes: start and page
count as 64-bit words, the number of the type as a 32-bit word, and four bytes of padding.

`Region.decode?` reads a region off a byte list; an unknown type reads as unavailable memory.
-/

set_option autoImplicit false

namespace ElfBoot.Handoff

/-- A run of pages of one type. -/
structure Region where
  base : UInt64
  pageCount : UInt64
  kind : MemoryType
  deriving DecidableEq, Repr, Inhabited

namespace Region

/-- Bytes that a region takes in the handoff record. -/
def layoutSize : Nat := 24

/-- First address past the region, over unbounded numbers. -/
def limit (r : Region) : Nat := r.base.toNat + r.pageCount.toNat * pageSize

/-- First address past the region, if it is an address. -/
def end? (r : Region) : Option Nat := do
  let len ← Address.mul? r.pageCount.toNat pageSize
  Address.add? r.base.toNat len

/-- The layout in the handoff record. -/
def encode (r : Region) : List UInt8 :=
  Word.encode r.base ++ (Word.encode r.pageCount ++ (Word.encode r.kind.toRaw ++ [0, 0, 0, 0]))

/-- The region at the front of a byte list; `none` if the list is too short. -/
def decode? (bs : List UInt8) : Option Region :=
  Word.read? bs fun base bs =>
  Word.read? bs fun pageCount bs =>
  Word.read? bs fun kind bs =>
  (splitExactly? 4 bs).map fun _ =>
    ⟨base, pageCount, (MemoryType.ofRaw? kind).getD .unavailable⟩

end Region

end ElfBoot.Handoff
