import ElfBoot.Host.Arena
import ElfBoot.Load.Plan

/-!
# What placing leaves behind

`Arena.place` says what an arena holds once a segment of a file was placed in it: the pages the
segment touches are reserved, the bytes from the file are at its address, and the rest of it is
clear.  It makes no checks and no calls; a load that ends well leaves the arena as `Arena.placeAll`
over its plan, and one that fails leaves it as some first segments of the plan do.
-/

set_option autoImplicit false

namespace ElfBoot.Host.Arena

/-- The pages a segment asks for, as a reservation; none if it takes no memory and starts a page. -/
def pagesOf (s : Segment) : List PageRange :=
  let pages := pagesFor (s.address - s.pageBase + s.memorySize)
  if pages = 0 then [] else [⟨s.pageBase, pages⟩]

/-- Reserves, copies and clears what a segment asks for. -/
def place (content : List UInt8) (a : Arena) (s : Segment) : Arena :=
  let rest := s.memorySize - s.fileSize
  let copied := a.memory.store s.address ((content.drop s.fileOffset).take s.fileSize)
  { a with
    reserved := a.reserved ++ pagesOf s
    memory := copied.clear (s.address + s.fileSize) rest
    zeroCalls := a.zeroCalls + if rest = 0 then 0 else 1 }

/-- Places segments one after another. -/
def placeAll (content : List UInt8) (a : Arena) (segments : List Segment) : Arena :=
  segments.foldl (place content) a

end ElfBoot.Host.Arena
