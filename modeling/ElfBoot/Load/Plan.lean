import ElfBoot.Image.Table
import ElfBoot.Load.Segment

/-!
# The loading plan

A plan holds the segments that a program header table asks to be placed, in table order.  It is
made before anything is placed, so that a bad entry anywhere in the table stops the load before
memory is touched.

* `Plan.ofTable` — the plan of a table.  An empty table and a table that asks for nothing are
  different errors; otherwise the first refused entry decides.
* `Plan.span?` — lowest address and highest end over all segments.
* `Load.placePlan` — places the segments one after another.
* `Load.placeTable` — plan and placement in one.
-/

set_option autoImplicit false

namespace ElfBoot

/-- The segments to place, in table order. -/
structure Plan where
  segments : List Segment
  deriving DecidableEq, Repr

namespace Plan

/-- The entries of a table that ask to be placed, each with its position. -/
def loadable (t : Table) : List (ProgramHeader × Nat) :=
  t.entries.zipIdx.filter fun p => p.1.isLoad

/-- The plan of a table. -/
def ofTable (t : Table) : Except LoadError Plan :=
  if t.isEmpty then .error (.invalidParameter .noProgramHeaders)
  else do
    let segments ← (loadable t).mapM fun p => Segment.ofHeader p.2 p.1
    if segments.isEmpty then .error .noLoadableSegments else .ok ⟨segments⟩

/-- What is reported about a table before it is refused. -/
def findings (t : Table) : List Notice :=
  match ofTable t with
  | .error (.invalidParameter .noProgramHeaders) => [.emptyTable]
  | .error .noLoadableSegments => [.nothingToLoad]
  | .error (.invalidParameter (.segmentSize index)) =>
    (t.get? index).toList.flatMap (Segment.findings index)
  | _ => []

/-- How many segments are placed. -/
def size (p : Plan) : Nat := p.segments.length

def isEmpty (p : Plan) : Bool := p.segments.isEmpty

/-- One more segment in a span from the first number up to the second. -/
def extendSpan? (span : Nat × Nat) (s : Segment) : Option (Nat × Nat) :=
  s.end?.map fun stop => (min span.1 s.address, max span.2 stop)

/-- Lowest address and highest end; `none` if some end is no address. -/
def span? (p : Plan) : Option (Nat × Nat) := p.segments.foldlM extendSpan? (wordLimit - 1, 0)

end Plan

namespace Load

/-- `Plan.ofTable`, reporting why a table is refused. -/
def makePlan (t : Table) : Load Plan := do
  notes (Plan.findings t)
  check (Plan.ofTable t)

/-- Places segments one after another, reporting each. -/
def placeAll : List Segment → Load Unit
  | [] => pure ()
  | s :: rest => do
    placeSegment s
    note (.segmentPlaced s.index s.memorySize s.address s.fileSize)
    placeAll rest

/-- Places the segments of a plan and answers with their number. -/
def placePlan (p : Plan) : Load Nat := do
  placeAll p.segments
  return p.size

/-- Places every loadable segment of a table, strictly in table order, and answers with their
number.  The first segment that fails ends it. -/
def placeTable (t : Table) : Load Nat := do
  let plan ← makePlan t
  note (.loadingSegments plan.size t.count)
  placePlan plan

end Load

end ElfBoot
