import ElfBoot.Handoff.Region

/-!
# Reading a memory map

A memory map is a byte list cut into elements of equal size.  The producer chooses that size,
which may exceed the layout of a region, so elements are read one by one; bytes at the end that
make no whole element are ignored.

* `MapView.ofBlob?` — accepts an element size with room for a region.
* `MapView.get?`, `MapView.regions` — one element, and all of them.
-/

set_option autoImplicit false

namespace ElfBoot.Handoff

/-- A memory map as bytes, in elements of `stride` bytes.  Without a stride there are no
elements. -/
structure MapView where
  blob : List UInt8 := []
  stride : Nat := 0
  deriving DecidableEq, Repr, Inhabited

namespace MapView

/-- A view of the given bytes, if an element has room for a region. -/
def ofBlob? (blob : List UInt8) (stride : Nat) : Option MapView :=
  if Region.layoutSize ≤ stride then some ⟨blob, stride⟩ else none

/-- How many whole elements there are. -/
def size (v : MapView) : Nat := v.blob.length / max v.stride 1

def isEmpty (v : MapView) : Bool := v.size == 0

/-- The region at position `i`. -/
def get? (v : MapView) (i : Nat) : Option Region :=
  if i < v.size then Region.decode? ((v.blob.drop (i * v.stride)).take Region.layoutSize)
  else none

/-- All regions in order. -/
def regions (v : MapView) : List Region := (List.range v.size).filterMap v.get?

end MapView

end ElfBoot.Handoff
