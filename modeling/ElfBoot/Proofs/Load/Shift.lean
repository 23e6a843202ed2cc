import Mathlib.Data.List.Basic
import ElfBoot.Proofs.Load.Refusal

/-!
# Segments at other addresses

Moving segments by whole pages keeps everything that is asked of them as such, as long as they stay
in the address space.

* `Segment.shift` — a segment some addresses higher.
* `Segment.pageBase_shift`, `Segment.pageCount_shift` — its pages are as many and move with it.
* `Plan.ofTable_shift` — two tables whose segments differ by such a move have plans that do, or are
  refused with the same error, which names no address.
-/

set_option autoImplicit false

namespace ElfBoot

variable {δ : Nat}

/-- An error that names no address of a reservation. -/
def LoadError.Placeless (e : LoadError) : Prop :=
  ∀ address pages, e ≠ .allocation (.reserve address pages)

theorem LoadError.placeless_io (x : IoError) : (io x).Placeless := fun _ _ h => by cases h

theorem LoadError.placeless_buffer (len : Nat) : (allocation (.buffer len)).Placeless :=
  fun _ _ h => by cases h

namespace Segment

/-- The segment, `δ` addresses higher. -/
def shift (δ : Nat) (s : Segment) : Segment := { s with address := s.address + δ }

variable {s : Segment}

theorem shift_zero : Segment.shift 0 = id := rfl

theorem pageBase_shift (h : pageSize ∣ δ) : (s.shift δ).pageBase = s.pageBase + δ := by
  obtain ⟨k, rfl⟩ := h
  have hpos : 0 < pageSize := by decide
  show (s.address + pageSize * k) / pageSize * pageSize =
    s.address / pageSize * pageSize + pageSize * k
  rw [Nat.add_mul_div_left _ _ hpos, Nat.add_mul, Nat.mul_comm k]

theorem pageCount_shift (h : pageSize ∣ δ) : (s.shift δ).pageCount = s.pageCount := by
  have hbase : s.pageBase ≤ s.address := pageBase_le s.address
  have hlead : (s.shift δ).address - (s.shift δ).pageBase = s.address - s.pageBase := by
    rw [pageBase_shift h]
    show s.address + δ - (s.pageBase + δ) = s.address - s.pageBase
    omega
  unfold pageCount
  rw [hlead]
  rfl

theorem dvd_pageBase (s : Segment) : pageSize ∣ s.pageBase := Nat.dvd_mul_left _ _

/-- What is asked of a segment as such, if it does not leave the address space by the move. -/
theorem objections_shift (h : wordLimit ≤ s.address + s.memorySize ↔
    wordLimit ≤ s.address + δ + s.memorySize) : (s.shift δ).objections = s.objections := by
  unfold objections
  show [_, Objection.mk (_ ∨ wordLimit ≤ s.address + δ + s.memorySize) _] = [_, _]
  rw [← propext h]
  rfl

end Segment

namespace Plan

theorem objections_shift {segments : List Segment}
    (h : ∀ s ∈ segments, (wordLimit ≤ s.address + s.memorySize ↔
      wordLimit ≤ s.address + δ + s.memorySize)) :
    objections (segments.map (Segment.shift δ)) = objections segments := by
  have hempty : (segments.map (Segment.shift δ) = []) = (segments = []) :=
    propext List.map_eq_nil_iff
  have hall : (segments.map (Segment.shift δ)).flatMap Segment.objections =
      segments.flatMap Segment.objections := by
    rw [List.flatMap_map]
    refine List.flatMap_congr fun s hs => ?_
    exact Segment.objections_shift (h s hs)
  unfold objections
  rw [hempty, hall]

/-- The errors of a table name no address. -/
theorem placeless_of_decides {segments : List Segment} {e : LoadError}
    (h : Objection.Decides (objections segments) e) : e.Placeless := by
  obtain ⟨before, o, after, heq, -, -, rfl⟩ := h
  have hmem : o ∈ objections segments := by
    rw [heq]
    exact List.mem_append_right _ List.mem_cons_self
  intro address pages
  rcases List.mem_append.1 hmem with hsegment | hnone
  · obtain ⟨s, -, ho⟩ := List.mem_flatMap.1 hsegment
    unfold Segment.objections at ho
    rcases List.mem_cons.1 ho with rfl | ho
    · exact fun hno => by cases hno
    · obtain rfl := List.mem_singleton.1 ho
      exact fun hno => by cases hno
  · obtain rfl := List.mem_singleton.1 hnone
    exact fun hno => by cases hno

/-- **Two tables whose segments differ by a move** are both accepted, or both refused with the same
error. -/
theorem ofTable_shift {t t' : Table} (hcount : t'.count = 0 ↔ t.count = 0)
    (hsegments : t'.segments = t.segments.map (Segment.shift δ))
    (hlimit : ∀ s ∈ t.segments, (wordLimit ≤ s.address + s.memorySize ↔
      wordLimit ≤ s.address + δ + s.memorySize)) :
    match ofTable t, ofTable t' with
    | .ok p, .ok p' => p.segments = t.segments ∧
        p'.segments = p.segments.map (Segment.shift δ) ∧
        ∀ s ∈ p.segments, s.Sound ∧ (s.shift δ).Sound
    | .error e, .error e' => e' = e ∧ e.Placeless
    | _, _ => False := by
  have hsame : objections t'.segments = objections t.segments := by
    rw [hsegments, objections_shift hlimit]
  have hpos' : 0 < t.count → 0 < t'.count := by omega
  rcases ofTable_cases t with ⟨hzero, heq⟩ | ⟨hpos, hnone, heq⟩ | ⟨e, hpos, hdecides, heq⟩
  · rw [heq, ofTable_of_count_eq_zero (hcount.2 hzero)]
    exact ⟨rfl, fun _ _ hno => by cases hno⟩
  · have hnone' : Objection.NoneHolds (objections t'.segments) := hsame ▸ hnone
    have hsound := (noneHolds_objections.1 hnone).1
    have hsound' := (noneHolds_objections.1 hnone').1
    rw [heq, ofTable_eq_ok (hpos' hpos) hnone']
    refine ⟨rfl, hsegments, fun s hs => ⟨hsound s hs, hsound' _ ?_⟩⟩
    rw [hsegments]
    exact List.mem_map.2 ⟨s, hs, rfl⟩
  · have hdecides' : Objection.Decides (objections t'.segments) e := hsame ▸ hdecides
    rw [heq, ofTable_eq_error (hpos' hpos) hdecides']
    exact ⟨rfl, placeless_of_decides hdecides⟩

end Plan

end ElfBoot
