import ElfBoot.Load.Headers
import ElfBoot.Load.Identity
import ElfBoot.Load.Plan

/-!
# Loading an image

`Load.image` opens an image, judges its identity block, reads its headers, makes the plan, places
every segment and closes the file.  Nothing is placed before the plan is complete, and the entry
point comes from the header as it was read.

* `Load.survey` — everything up to the plan; it makes no call on the memory.
* `Load.image` — the survey, then the placement of its plan.
-/

set_option autoImplicit false

namespace ElfBoot

/-- What a successful load leaves behind. -/
structure LoadedImage where
  entry : Nat
  width : Width
  /-- How many segments were placed. -/
  segments : Nat
  /-- Lowest address of a segment. -/
  base : Nat
  /-- Highest end of a segment. -/
  limit : Nat
  deriving DecidableEq, Repr

/-- What is known of an image before anything is placed. -/
structure Survey where
  width : Width
  headers : Headers
  plan : Plan
  deriving DecidableEq, Repr

namespace Load

/-- Opens the image at a path and finds out what is to be placed; with `listing`, reports a
description of its headers. -/
def survey (path : String) (listing : Bool) : Load Survey := do
  note (.openingImage path)
  settle (.openImageFailed path) (← ask (.openImage path))
  let width ← validateIdentity (← readIdentity)
  note .identityValid
  let headers ← readHeaders (some width)
  if listing then headers.report
  let plan ← makePlan headers.table
  return ⟨width, headers, plan⟩

/-- Loads the image at a path; with `listing`, reports a description of its headers. -/
def image (path : String) (listing : Bool) : Load LoadedImage := do
  let found ← survey path listing
  let segments ← placePlan found.plan
  let (base, limit) ← expect found.plan.span?
  note .closingImage
  settleIo .closeImageFailed (← ask .close)
  note (.entryPoint found.headers.file.entry.toNat)
  return ⟨found.headers.file.entry.toNat, found.width, segments, base, limit⟩

/-- Loads the image at a path and answers with its entry point. -/
def entryPoint (path : String) : Load Nat := LoadedImage.entry <$> image path false

end Load

end ElfBoot
