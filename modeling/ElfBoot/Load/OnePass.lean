import ElfBoot.Load.Plan

/-!
# Placing a table in one pass

The plainest way to place a table: walk its entries, place each one that asks for it, and count.
It looks at an entry only when it gets there, so a bad entry late in the table is found after
earlier segments have been placed.  It serves as the measure for the two phases of
`Load.placeTable`, which make the same calls whenever every loadable entry is sound.
-/

set_option autoImplicit false

namespace ElfBoot.Load

/-- Places the loadable ones among some entries, unchecked, and adds their number to `placed`. -/
def placeEntries (placed : Nat) : List (ProgramHeader × Nat) → Load Nat
  | [] => pure placed
  | (h, index) :: rest => do
    if h.isLoad then
      placeSegment (Segment.ofFields index h)
      placeEntries (placed + 1) rest
    else placeEntries placed rest

/-- Places the loadable entries of a table as they come.  A table without entries and a table of
which nothing was placed are errors. -/
def placeTableOnePass (t : Table) : Load Nat := do
  if t.isEmpty then throw (.invalidParameter .noProgramHeaders)
  let placed ← placeEntries 0 t.entries.zipIdx
  if placed = 0 then throw .noLoadableSegments
  return placed

end ElfBoot.Load
