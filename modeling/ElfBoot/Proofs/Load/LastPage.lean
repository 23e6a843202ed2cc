import ElfBoot.Firmware.Services
import ElfBoot.Proofs.Load.Refusal

/-!
# Where reserved pages end

The checks of a segment bound its bytes.  The pages that are reserved for it reach further, up to
the next page boundary, and no check looks there.  A segment that ends in the last page of the
address space is accepted although its pages end past the last address.

* `pageBase_add_pagesFor_mul` — pages from the start of a page end at the first page boundary that
  is not below the bytes.
* `Segment.reservation_end` — the pages of an accepted segment end at an address exactly if the
  segment ends before the last page.
* `Segment.reservation_leaves_address_space` — an accepted segment whose pages do not.
* `Firmware.Boot.write_eq_none` — where firmware grants such pages, writing into them is a fault.
-/

set_option autoImplicit false

namespace ElfBoot

/-- The pages for some bytes, counted from the page with the first of them, end at the first page
boundary that is not below the last of them. -/
theorem pageBase_add_pagesFor_mul (address len : Nat) :
    pageBase address + pagesFor (address - pageBase address + len) * pageSize =
      (address + len + (pageSize - 1)) / pageSize * pageSize := by
  have hbase := pageBase_le address
  unfold pagesFor pageBase pageSize at *
  by_cases h : (address - address / 0x1000 * 0x1000 + len) % 0x1000 = 0
  · rw [if_pos h]
    omega
  · rw [if_neg h]
    omega

/-- A range has no end exactly if its limit is no address. -/
theorem PageRange.end?_eq_none_iff {r : PageRange} : r.end? = none ↔ wordLimit ≤ r.limit := by
  constructor
  · intro hnone
    apply Nat.le_of_not_lt
    intro hlt
    rw [end?_eq_some_iff.2 ⟨hlt, rfl⟩] at hnone
    cases hnone
  · intro hle
    cases hend : r.end? with
    | none => rfl
    | some stop =>
      have hlt := (end?_eq_some_iff.1 hend).1
      omega

namespace Segment

/-- The pages that are reserved for a segment. -/
def reservation (s : Segment) : PageRange := ⟨s.pageBase, s.pageCount⟩

theorem limit_reservation (s : Segment) :
    s.reservation.limit = (s.address + s.memorySize + (pageSize - 1)) / pageSize * pageSize :=
  pageBase_add_pagesFor_mul s.address s.memorySize

/-- The last page boundary below the end of the address space is the start of the last page. -/
theorem limit_reservation_lt_iff (s : Segment) :
    s.reservation.limit < wordLimit ↔ s.address + s.memorySize ≤ wordLimit - pageSize := by
  rw [limit_reservation]
  unfold wordLimit pageSize
  omega

theorem limit_reservation_le {s : Segment} (h : s.address + s.memorySize < wordLimit) :
    s.reservation.limit ≤ wordLimit := by
  rw [limit_reservation]
  unfold wordLimit pageSize at *
  omega

/-- **The pages of an accepted segment** end at an address exactly if the segment ends before the
last page; otherwise they end at the very end of the address space, which is no address. -/
theorem reservation_end {index : Nat} {h : ProgramHeader} {s : Segment}
    (hs : ofHeader index h = .ok s) :
    s.pageCount? = some s.pageCount ∧ s.reservation.limit ≤ wordLimit ∧
      (s.reservation.end? = some s.reservation.limit ↔
        s.address + s.memorySize ≤ wordLimit - pageSize) ∧
      (s.reservation.end? = none ↔ s.reservation.limit = wordLimit) := by
  have hspec := ofHeader_spec index h
  rw [hs] at hspec
  have hend := hspec.2.memory_end
  have hle := limit_reservation_le hend
  have hsome : s.reservation.end? = some s.reservation.limit ↔ s.reservation.limit < wordLimit := by
    rw [PageRange.end?_eq_some_iff]
    exact and_iff_left rfl
  refine ⟨pageCount?_eq hend, hle, hsome.trans s.limit_reservation_lt_iff, ?_⟩
  rw [PageRange.end?_eq_none_iff]
  omega

/-- The program header of a single byte in memory. -/
def byteHeader (address : UInt64) : ProgramHeader where
  kind := SegmentKind.load
  flags := .ofWord 4
  offset := 0
  virtualAddress := address
  physicalAddress := address
  fileSize := 0
  memorySize := 1
  align := 0x1000

/-- The last byte before the last page is accepted, and its page ends where the last page starts. -/
theorem reservation_end_sample :
    ∃ s, ofHeader 3 (byteHeader 0xFFFFFFFFFFFFEFFF) = .ok s ∧
      s.reservation = ⟨0xFFFFFFFFFFFFE000, 1⟩ ∧
      (s.reservation.end? = some s.reservation.limit ↔
        s.address + s.memorySize ≤ wordLimit - pageSize) := by
  have hs : ofHeader 3 (byteHeader 0xFFFFFFFFFFFFEFFF) =
      .ok ⟨3, 0, 0, 1, 0xFFFFFFFFFFFFEFFF⟩ := rfl
  exact ⟨_, hs, by decide, (reservation_end hs).2.2.1⟩

/-- Not every accepted segment has pages that end at an address: the one byte two below the end of
the address space lies in the last page. -/
theorem reservation_leaves_address_space :
    ¬ ∀ (index : Nat) (h : ProgramHeader) (s : Segment) (pages : Nat),
      ofHeader index h = .ok s → s.pageCount? = some pages →
        s.pageBase + pages * pageSize < wordLimit := by
  intro hall
  have hs : ofHeader 3 (byteHeader 0xFFFFFFFFFFFFFFFE) =
      .ok ⟨3, 0, 0, 1, 0xFFFFFFFFFFFFFFFE⟩ := rfl
  have hpages : (Segment.mk 3 0 0 1 0xFFFFFFFFFFFFFFFE).pageCount? = some 1 := by decide
  have hlt := hall 3 _ _ 1 hs hpages
  exact absurd hlt (by decide)

end Segment

/-- The end of a granted range is computed whenever bytes at or behind its start are written.  If
that end is no address, the write is a fault. -/
theorem Firmware.Boot.write_eq_none {ν φ α : Type} {b : Boot ν φ α} {s : Segment}
    (hreserved : b.reserved = [s.reservation]) (hlimit : s.reservation.limit = wordLimit)
    {address : Nat} {bytes : List UInt8} (hlo : s.pageBase ≤ address)
    (hhi : address + bytes.length < wordLimit) : b.write address bytes = none := by
  have hend : s.reservation.end? = none := by
    rw [PageRange.end?_eq_none_iff]
    omega
  have hstop : Address.add? address bytes.length = some (address + bytes.length) :=
    Address.add?_eq_some_iff.2 ⟨hhi, rfl⟩
  have hcovers : s.reservation.covers? address (address + bytes.length) = none := by
    have hnot : ¬ address < s.reservation.address := Nat.not_lt.2 hlo
    unfold PageRange.covers?
    rw [if_neg hnot, hend]
    rfl
  have howns : b.owns? address bytes.length = none := by
    unfold owns?
    rw [hstop, hreserved]
    simp only [someRange?, hcovers]
  rw [write, howns]
  rfl

end ElfBoot
