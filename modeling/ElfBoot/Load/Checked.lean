import ElfBoot.Image.Builder
import ElfBoot.Load.Image

/-!
# Loading with every operation checked

The loading procedures once more, on a machine that checks every operation: a slice that reaches
past its bytes, a sum or a product that is no word, a difference below zero and a division by zero
are faults.  A fault, too, is a branch that is there for no image: a checked segment that turns out
to have no page count when it is placed, and a table that is refused after it was read.

Reading a header or an entry field by field faults with `decode?` if the bytes end too early.
Everything that is looked up in a table is found by position, and reading exactly fills a buffer.

* `Address.div?`, `Address.rem?`, `slice?` — operations that may be undefined.
* `Table.size?`, `Table.header?`, `Table.entriesFrom?` — a table by positions.
* `Load.Checked.readExact` — reading into a buffer.
* `Load.Checked.pageCount`, `Load.Checked.segment`, `Load.Checked.makePlan` — checking a table.
* `Load.Checked.image`, `Load.Checked.placeTable` — loading an image, and placing a table.
-/

set_option autoImplicit false

namespace ElfBoot

/-! ## Operations that may be undefined -/

namespace Address

/-- The quotient, unless it is one by zero. -/
def div? (a b : Nat) : Option Nat := if b = 0 then none else some (a / b)

/-- The remainder, unless it is one by zero. -/
def rem? (a b : Nat) : Option Nat := if b = 0 then none else some (a % b)

end Address

/-- The bytes from position `lo` up to position `hi`, if these are positions in that order. -/
def slice? (bs : List UInt8) (lo hi : Nat) : Option (List UInt8) :=
  if lo ≤ hi ∧ hi ≤ bs.length then some ((bs.drop lo).take (hi - lo)) else none

/-! ## Tables by positions -/

namespace Table

/-- How many entries the bytes hold. -/
def size? (t : Table) : Option Nat := Address.div? t.blob.length t.stride

/-- The program header at position `i`, or that there is none. -/
def header? (t : Table) (i : Nat) : Option (Option ProgramHeader) := do
  let size ← t.size?
  if i < size then
    let start ← Address.mul? i t.stride
    let stop ← Address.add? start t.stride
    let bytes ← slice? t.blob start stop
    (ProgramHeader.decode? t.width bytes).map some
  else return none

theorem lt_of_header? {t : Table} {i : Nat} {h : ProgramHeader} (he : t.header? i = some (some h)) :
    i < t.blob.length / t.stride := by
  unfold header? size? Address.div? at he
  by_cases hz : t.stride = 0
  · simp [hz] at he
  · rw [if_neg hz, Option.bind_eq_bind, Option.bind_some] at he
    by_cases hlt : i < t.blob.length / t.stride
    · exact hlt
    · rw [if_neg hlt] at he
      cases he

/-- The entries from position `i` on, each with its position. -/
def entriesFrom? (t : Table) (i : Nat) : Option (List (ProgramHeader × Nat)) :=
  match _he : t.header? i with
  | none => none
  | some none => some []
  | some (some h) =>
    match Address.add? i 1 with
    | none => none
    | some _ => (t.entriesFrom? (i + 1)).map fun rest => (h, i) :: rest
termination_by t.blob.length / t.stride - i
decreasing_by
  have := lt_of_header? _he
  omega

end Table

namespace Load.Checked

/-! ## Reading into a buffer -/

/-- Reads over the bytes of a buffer from position `filled` on until `expected` bytes are there. -/
def fillBuffer (expected filled : Nat) (buffer : List UInt8) :
    Program (Except LoadError (List UInt8)) :=
  if _h : filled < expected then
    match slice? buffer filled buffer.length with
    | none => .fault
    | some rest => .call (.read rest.length) fun
      | .error e => .done (.error (.io e))
      | .ok ⟨[], _⟩ => .done (.error (.io (.shortRead expected filled)))
      | .ok ⟨b :: bs, _⟩ =>
        match Address.add? filled (bs.length + 1) with
        | none => .fault
        | some _ => fillBuffer expected (filled + (bs.length + 1)) (overlay buffer filled (b :: bs))
  else .done (.ok buffer)
termination_by expected - filled

/-- Reads `len` bytes into a fresh buffer of that length. -/
def readExact (len : Nat) : Load (List UInt8) :=
  ExceptT.mk (fillBuffer len 0 (List.replicate len 0))

/-! ## Headers -/

def readIdentity : Load Identity := do
  note .seekingIdentity
  settleIo .seekIdentityFailed (← ask (.seek 0))
  let bytes ← reporting .readIdentityFailed (readExact identitySize)
  expect (Identity.ofBytes? bytes)

/-- The table over some bytes, which must not be refused. -/
def table (w : Width) (stride : Nat) (blob : List UInt8) : Load Table := do
  if w.entrySize ≤ stride then
    let _ ← expect (Address.rem? blob.length stride)
  expect (Table.ofBlob? w stride blob)

def readTable (w : Width) (header : FileHeader) : Load Table := do
  if header.phnum = 0 then table w w.entrySize []
  else if header.phentsize.toNat < w.entrySize then do
    note (.entrySizeTooSmall header.phentsize w.entrySize)
    throw (.invalidParameter (.entrySize header.phentsize))
  else if maxTableSize < header.tableSize then do
    note (.tableTooLarge header.tableSize)
    throw (.invalidParameter (.tableTooLarge header.tableSize))
  else do
    note (.seekingTable header.phoff.toNat)
    settleIo .seekHeadersFailed (← ask (.seek header.phoff.toNat))
    note (.tableBuffer header.tableSize)
    scratch header.tableSize
    note .readingTable
    let bytes ← reporting .readTableFailed (readExact header.tableSize)
    table w header.phentsize.toNat bytes

def readHeaders (w : Width) : Load Headers := do
  note .seekingHeader
  settleIo .seekHeadersFailed (← ask (.seek 0))
  note (.headerBuffer w.headerSize)
  scratch w.headerSize
  note .readingHeader
  let bytes ← reporting .readHeaderFailed (readExact w.headerSize)
  let header ← expect (FileHeader.decode? w bytes)
  let table ← readTable w header
  return ⟨header, table⟩

/-! ## Plans -/

/-- Pages to reserve for a segment, if the distance from the page to the end is a length. -/
def pageCount (s : Segment) : Load (Option Nat) := do
  let lead ← expect (Address.sub? s.address s.pageBase)
  match Address.add? lead s.memorySize with
  | none => return none
  | some len => do
    let pages ← expect (Address.add? (len / pageSize) (if len % pageSize = 0 then 0 else 1))
    return some pages

/-- The program header at position `index` as a segment. -/
def segment (index : Nat) (h : ProgramHeader) : Load Segment := do
  let s := Segment.ofFields index h
  if h.zeroFill? = none then throw (.invalidParameter (.segmentSize index))
  else if (Address.add? s.fileOffset s.fileSize).isNone || s.end?.isNone then
    throw (.invalidParameter (.segmentOverflow index))
  else do
    let _ ← expect s.zeroFill?
    match ← pageCount s with
    | none => throw (.invalidParameter (.segmentOverflow index))
    | some _ => return s

def makePlan (t : Table) : Load Plan := do
  notes (Plan.findings t)
  if t.blob.isEmpty then throw (.invalidParameter .noProgramHeaders)
  else do
    let entries ← expect (t.entriesFrom? 0)
    let segments ← (entries.filter fun p => p.1.isLoad).mapM fun p => segment p.2 p.1
    if segments.isEmpty then throw .noLoadableSegments else return ⟨segments⟩

/-! ## Placement -/

def copyFromFile (s : Segment) : Load Unit := do
  if 0 < s.fileSize then
    note (.segmentBuffer s.fileSize)
    scratch s.fileSize
    note (.readingSegment s.fileSize)
    let bytes ← reporting .readSegmentFailed (readExact s.fileSize)
    note (.copyingSegment s.address)
    settle .copySegmentFailed (← ask (.write s.address bytes))

/-- Places a segment, which must have a page count. -/
def placeSegment (s : Segment) : Load Unit := do
  note (.seekingSegment s.fileOffset)
  settleIo .seekSegmentFailed (← ask (.seek s.fileOffset))
  let pages ← expect (← pageCount s)
  reservePages s pages
  copyFromFile s
  clearRest s

def placeAll : List Segment → Load Unit
  | [] => pure ()
  | s :: rest => do
    placeSegment s
    note (.segmentPlaced s.index s.memorySize s.address s.fileSize)
    placeAll rest

def placePlan (p : Plan) : Load Nat := do
  placeAll p.segments
  return p.size

/-- Places every loadable segment of a table. -/
def placeTable (t : Table) : Load Nat := do
  let plan ← makePlan t
  let size ← expect t.size?
  note (.loadingSegments plan.size size)
  placePlan plan

/-! ## Loading -/

def survey (path : String) (listing : Bool) : Load Survey := do
  note (.openingImage path)
  settle (.openImageFailed path) (← ask (.openImage path))
  let width ← validateIdentity (← readIdentity)
  note .identityValid
  let headers ← readHeaders width
  if listing then
    let _ ← expect (headers.table.entriesFrom? 0)
    headers.report
  let plan ← makePlan headers.table
  return ⟨width, headers, plan⟩

/-- Loads the image at a path. -/
def image (path : String) (listing : Bool) : Load LoadedImage := do
  let found ← survey path listing
  let segments ← placePlan found.plan
  let (base, limit) ← expect found.plan.span?
  note .closingImage
  settleIo .closeImageFailed (← ask .close)
  note (.entryPoint found.headers.file.entry.toNat)
  return ⟨found.headers.file.entry.toNat, found.width, segments, base, limit⟩

end Load.Checked

end ElfBoot
