import ElfBoot.Load.Image

/-!
# Loading procedures step by step

A loading procedure as the sequence of its steps, with the choices in the order in which they are
made.  What follows an error is dropped, since nothing of it is ever done.

* `Load.examine` — a survey from the point where the image is open.
* `Load.beforeClose`, `Load.conclude` — a load up to the point where every segment is placed, and
  the rest of it.
* `Load.survey_eq`, `Load.examine_eq`, `Load.readTable_eq`, `Load.placeSegment_eq`, `Load.image_eq`,
  `Load.image_eq_survey_bind` — the steps of each.
-/

set_option autoImplicit false

namespace ElfBoot.Load

theorem readTable_eq (w : Width) (header : FileHeader) (h : header.phnum ≠ 0) :
    readTable w header =
      if header.phentsize.toNat < w.entrySize then do
        note (.entrySizeTooSmall header.phentsize w.entrySize)
        throw (.invalidParameter (.entrySize header.phentsize))
      else if maxTableSize < header.tableSize then do
        note (.tableTooLarge header.tableSize)
        throw (.invalidParameter (.tableTooLarge header.tableSize))
      else (do
        note (.seekingTable header.phoff.toNat)
        settleIo .seekHeadersFailed (← ask (.seek header.phoff.toNat))
        note (.tableBuffer header.tableSize)
        scratch header.tableSize
        note .readingTable
        let bytes ← reporting .readTableFailed (readExact header.tableSize)
        match Table.ofBlob? w header.phentsize.toNat bytes with
        | some table => return table
        | none => throw (.invalidParameter (.entrySize header.phentsize))) := by
  unfold readTable
  rw [if_neg h]
  rfl

/-- Finds out what is to be placed of the image that is open. -/
def examine (listing : Bool) : Load Survey := do
  let width ← readIdentity >>= validateIdentity
  note .identityValid
  let headers ← readHeaders (some width)
  notes (if listing then headers.listing.map .listing else [])
  let plan ← makePlan headers.table
  return ⟨width, headers, plan⟩

theorem survey_eq (path : String) (listing : Bool) :
    survey path listing = (do
      note (.openingImage path)
      settle (.openImageFailed path) (← ask (.openImage path))
      examine listing) := by
  unfold survey examine
  simp only [bind_assoc]
  cases listing with
  | true => rfl
  | false => rfl

theorem examine_eq (listing : Bool) :
    examine listing = (do
      let width ← readIdentity >>= validateIdentity
      note .identityValid
      note .seekingHeader
      settleIo .seekHeadersFailed (← ask (.seek 0))
      note (.headerBuffer width.headerSize)
      scratch width.headerSize
      note .readingHeader
      let bytes ← reporting .readHeaderFailed (readExact width.headerSize)
      let header ← expect (FileHeader.decode? width bytes)
      let table ← readTable width header
      notes (if listing then (Headers.mk header table).listing.map .listing else [])
      let plan ← makePlan table
      return ⟨width, ⟨header, table⟩, plan⟩) := by
  unfold examine readHeaders
  simp only [bind_assoc, pure_bind]

theorem placeSegment_eq {s : Segment} {pages : Nat} (h : s.pageCount? = some pages) :
    placeSegment s = (do
      note (.seekingSegment s.fileOffset)
      settleIo .seekSegmentFailed (← ask (.seek s.fileOffset))
      reservePages s pages
      copyFromFile s
      clearRest s) := by
  unfold placeSegment
  rw [h]

/-- Everything a load does before it closes the file; the answer is what was found and how many
segments were placed. -/
def beforeClose (path : String) (listing : Bool) : Load (Survey × Nat) := do
  let found ← survey path listing
  let segments ← placePlan found.plan
  return (found, segments)

/-- Closes the file and says what was loaded. -/
def conclude (found : Survey) (segments : Nat) : Load LoadedImage := do
  let (base, limit) ← expect found.plan.span?
  note .closingImage
  settleIo .closeImageFailed (← ask .close)
  note (.entryPoint found.headers.file.entry.toNat)
  return ⟨found.headers.file.entry.toNat, found.width, segments, base, limit⟩

theorem image_eq (path : String) (listing : Bool) :
    image path listing = beforeClose path listing >>= fun p => conclude p.1 p.2 := by
  unfold image beforeClose conclude
  simp only [bind_assoc, pure_bind]

theorem image_eq_survey_bind (path : String) (listing : Bool) :
    image path listing =
      survey path listing >>= fun found => placePlan found.plan >>= conclude found := by
  rw [image_eq]
  unfold beforeClose
  simp only [bind_assoc, pure_bind]

end ElfBoot.Load
