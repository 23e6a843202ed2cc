import ElfBoot.Proofs.Host.Arena
import ElfBoot.Proofs.Load.Refusal

/-!
# What placing does to an arena

`Arena.place` describes the effect of placing one segment; here are its consequences for single
bytes and for later segments.

* `Segment.Covers`, `Segment.byteFor` — the addresses a segment takes, and the byte it puts there.
* `Arena.Admits`, `Arena.AdmitsAll` — there is room for the pages of a segment, and of each segment
  in turn.
* `Arena.byte_place` — one segment changes the bytes it covers, and no others.
* `Arena.pairwise_covers` — segments that were admitted one after another cover no address twice.
* `Arena.byte_placeAll_of_covers`, `Arena.byte_placeAll_of_not_covers` — hence the memory after all
  of them.
-/

set_option autoImplicit false

namespace ElfBoot

/-! ## The addresses of a segment -/

namespace Segment

/-- The segment takes the address. -/
def Covers (s : Segment) (x : Nat) : Prop := s.address ≤ x ∧ x < s.address + s.memorySize

/-- The byte a segment of a file puts at an address: one of its bytes in the file, then zeros. -/
def byteFor (content : List UInt8) (s : Segment) (x : Nat) : Option UInt8 :=
  if x < s.address then none
  else if x < s.address + s.fileSize then content[s.fileOffset + (x - s.address)]?
  else if x < s.address + s.memorySize then some 0
  else none

theorem byteFor_of_not_covers {content : List UInt8} {s : Segment} {x : Nat}
    (hsize : s.fileSize ≤ s.memorySize) (h : ¬ s.Covers x) : s.byteFor content x = none := by
  rw [Covers, not_and, Nat.not_lt] at h
  rw [byteFor]
  by_cases hx : x < s.address
  · rw [if_pos hx]
  · have hend := h (Nat.not_lt.1 hx)
    rw [if_neg hx, if_neg (by omega), if_neg (by omega)]

end Segment

namespace Host

open Arena (pagesOf)

theorem mem_pagesOf {s : Segment} {r : PageRange} :
    r ∈ pagesOf s ↔ s.pageCount ≠ 0 ∧ r = ⟨s.pageBase, s.pageCount⟩ := by
  have hdef : pagesOf s = if s.pageCount = 0 then [] else [⟨s.pageBase, s.pageCount⟩] := rfl
  rw [hdef]
  by_cases h : s.pageCount = 0
  · rw [if_pos h]
    simp [h]
  · rw [if_neg h]
    simp [h]

theorem pagesOf_of_pos {s : Segment} (h : 0 < s.pageCount) :
    pagesOf s = [⟨s.pageBase, s.pageCount⟩] := if_neg (Nat.ne_of_gt h)

theorem pagesOf_of_not_pos {s : Segment} (h : ¬ 0 < s.pageCount) : pagesOf s = [] :=
  if_pos (Nat.eq_zero_of_not_pos h)

theorem exists_pages_of_covers {s : Segment} {x : Nat} (h : s.Covers x) :
    ∃ r ∈ pagesOf s, r.Holds x := by
  have hpos : 0 < s.memorySize := by
    have h1 := h.1
    have h2 := h.2
    omega
  obtain ⟨hlo, hhi⟩ := s.le_limit_pages
  refine ⟨⟨s.pageBase, s.pageCount⟩, ?_, Nat.le_trans hlo h.1, Nat.lt_of_lt_of_le h.2 hhi⟩
  rw [pagesOf_of_pos (Segment.pageCount_pos hpos)]
  exact List.mem_cons_self

namespace Arena

variable {a : Arena} {s : Segment} {content : List UInt8} {segments : List Segment}

/-! ## Claiming pages -/

/-- There is room for the pages of a segment. -/
def Admits (a : Arena) (s : Segment) : Prop := ∀ r ∈ pagesOf s, a.Room r

/-- Only the reservation that placing a segment makes. -/
def claim (a : Arena) (s : Segment) : Arena := { a with reserved := a.reserved ++ pagesOf s }

theorem admits_iff_room (h : 0 < s.pageCount) :
    a.Admits s ↔ a.Room ⟨s.pageBase, s.pageCount⟩ := by
  unfold Admits
  rw [pagesOf_of_pos h]
  exact List.forall_mem_singleton

theorem claim_of_pos (h : 0 < s.pageCount) :
    a.claim s = { a with reserved := a.reserved ++ [⟨s.pageBase, s.pageCount⟩] } := by
  unfold claim
  rw [pagesOf_of_pos h]

theorem admits_of_not_pos (h : ¬ 0 < s.pageCount) : a.Admits s := by
  unfold Admits
  rw [pagesOf_of_not_pos h]
  exact fun r hr => by cases hr

theorem claim_of_not_pos (h : ¬ 0 < s.pageCount) : a.claim s = a := by
  unfold claim
  rw [pagesOf_of_not_pos h, List.append_nil]

theorem Bounded.claim (hb : a.Bounded) (ha : a.Admits s) : (a.claim s).Bounded := by
  by_cases hpos : 0 < s.pageCount
  · rw [claim_of_pos hpos]
    exact hb.reserve ((admits_iff_room hpos).1 ha)
  · rw [claim_of_not_pos hpos]
    exact hb

theorem Bounded.place (hb : a.Bounded) (ha : a.Admits s) : (a.place content s).Bounded :=
  ⟨(hb.claim ha).window, (hb.claim ha).ranges⟩

/-- Whatever lies within a segment is owned once its pages are claimed. -/
theorem owns_claim {address len : Nat} (hlen : 0 < len) (hlo : s.address ≤ address)
    (hhi : address + len ≤ s.address + s.memorySize) : (a.claim s).Owns address len := by
  have hpos : 0 < s.memorySize := by omega
  obtain ⟨hbase, hlim⟩ := s.le_limit_pages
  refine ⟨⟨s.pageBase, s.pageCount⟩, ?_, Nat.le_trans hbase hlo, Nat.le_trans hhi hlim⟩
  rw [claim, pagesOf_of_pos (Segment.pageCount_pos hpos)]
  exact List.mem_append_right _ List.mem_cons_self

theorem owns_claim_file (hs : s.Sound) (h : 0 < s.fileSize) :
    (a.claim s).Owns s.address s.fileSize := by
  have hsize := hs.size_le
  exact owns_claim h (Nat.le_refl _) (by omega)

theorem owns_claim_rest (h : s.fileSize < s.memorySize) :
    (a.claim s).Owns (s.address + s.fileSize) (s.memorySize - s.fileSize) :=
  owns_claim (by omega) (Nat.le_add_right _ _) (by omega)

/-! ## Bytes -/

/-- **One segment** changes the bytes it covers, and no others. -/
theorem byte_place (hsize : s.fileSize ≤ s.memorySize) (x : Nat) :
    (a.place content s).memory.byte x = (s.byteFor content x).getD (a.memory.byte x) := by
  simp only [place, AddressSpace.byte_clear, AddressSpace.byte_store, Segment.byteFor,
    List.getElem?_take, List.getElem?_drop]
  by_cases hlo : x < s.address
  · rw [if_neg (by omega), if_pos hlo, if_pos hlo]
    rfl
  by_cases hfile : x < s.address + s.fileSize
  · rw [if_neg (by omega), if_neg hlo, if_pos (by omega), if_neg hlo, if_pos hfile]
  by_cases hmem : x < s.address + s.memorySize
  · rw [if_pos (by omega), if_neg hlo, if_neg hfile, if_pos hmem]
    rfl
  · rw [if_neg (by omega), if_neg hlo, if_neg (by omega), if_neg hlo, if_neg hfile, if_neg hmem]

theorem byte_placeAll_of_not_covers {x : Nat} (hsize : ∀ s ∈ segments, s.fileSize ≤ s.memorySize)
    (h : ∀ s ∈ segments, ¬ s.Covers x) :
    (a.placeAll content segments).memory.byte x = a.memory.byte x := by
  induction segments generalizing a with
  | nil => rfl
  | cons s rest ih =>
    have ih := ih (a := a.place content s) (fun t ht => hsize t (List.mem_cons_of_mem s ht))
      (fun t ht => h t (List.mem_cons_of_mem s ht))
    have hs := List.mem_cons_self (a := s) (l := rest)
    rw [placeAll, List.foldl_cons, ← placeAll, ih, byte_place (hsize s hs),
      Segment.byteFor_of_not_covers (hsize s hs) (h s hs)]
    rfl

/-- **Segments that cover no address twice** leave each the bytes it puts, whatever comes before
and after it. -/
theorem byte_placeAll_of_covers {x : Nat} (hsize : ∀ s ∈ segments, s.fileSize ≤ s.memorySize)
    (hdisj : segments.Pairwise fun s t => ∀ y, s.Covers y → ¬ t.Covers y)
    (hs : s ∈ segments) (hx : s.Covers x) :
    (a.placeAll content segments).memory.byte x =
      (s.byteFor content x).getD (a.memory.byte x) := by
  induction segments generalizing a with
  | nil => cases hs
  | cons t rest ih =>
    obtain ⟨hfirst, hrest⟩ := List.pairwise_cons.1 hdisj
    have hsizes := List.forall_mem_cons.1 hsize
    rw [placeAll, List.foldl_cons, ← placeAll]
    rcases List.mem_cons.1 hs with rfl | hmem
    · rw [byte_placeAll_of_not_covers hsizes.2 fun u hu => hfirst u hu x hx,
        byte_place hsizes.1]
    · have hnot : ¬ t.Covers x := fun ht => hfirst s hmem x ht hx
      rw [ih hsizes.2 hrest hmem, byte_place hsizes.1,
        Segment.byteFor_of_not_covers hsizes.1 hnot]
      rfl

/-! ## One segment after another -/

theorem reserved_placeAll (content : List UInt8) (a : Arena) (segments : List Segment) :
    (a.placeAll content segments).reserved = a.reserved ++ segments.flatMap pagesOf := by
  induction segments generalizing a with
  | nil => simp [placeAll]
  | cons s rest ih =>
    rw [placeAll, List.foldl_cons, ← placeAll, ih, List.flatMap_cons, ← List.append_assoc]
    rfl

/-- There is room for each segment once those before it were placed. -/
def AdmitsAll (content : List UInt8) : Arena → List Segment → Prop
  | _, [] => True
  | a, s :: rest => a.Admits s ∧ AdmitsAll content (a.place content s) rest

/-- What is admitted meets no range that was taken before. -/
theorem AdmitsAll.free (h : AdmitsAll content a segments) {r : PageRange} (hr : r ∈ a.reserved)
    {t : Segment} (ht : t ∈ segments) {q : PageRange} (hq : q ∈ pagesOf t) :
    ¬ (q.address < r.limit ∧ r.address < q.limit) := by
  induction segments generalizing a with
  | nil => cases ht
  | cons s rest ih =>
    rcases List.mem_cons.1 ht with rfl | hmem
    · exact (h.1 q hq).free r (List.mem_append_left _ hr)
    · exact ih h.2 (List.mem_append_left _ hr) hmem

/-- **Segments that were admitted one after another cover no address twice.** -/
theorem pairwise_covers (h : AdmitsAll content a segments) :
    segments.Pairwise fun s t => ∀ y, s.Covers y → ¬ t.Covers y := by
  induction segments generalizing a with
  | nil => exact List.Pairwise.nil
  | cons s rest ih =>
    refine List.pairwise_cons.2 ⟨fun t ht y hs hy => ?_, ih h.2⟩
    obtain ⟨r, hr, hrx⟩ := exists_pages_of_covers hs
    obtain ⟨q, hq, hqx⟩ := exists_pages_of_covers hy
    have hres : r ∈ (a.place content s).reserved := List.mem_append_right _ hr
    refine h.2.free hres ht hq ⟨?_, ?_⟩
    · exact Nat.lt_of_le_of_lt hqx.1 hrx.2
    · exact Nat.lt_of_le_of_lt hrx.1 hqx.2

end Arena

end Host

end ElfBoot
