import ElfBoot.Host.Machine
import ElfBoot.Proofs.Host.Placement
import ElfBoot.Proofs.Load.Containment
import ElfBoot.Proofs.Load.LastPage

/-!
# The pages a segment touches

The pages that are reserved for a segment reach from the page of its address up to the last page
that starts below its end.  If the segment has bytes, these are the pages with one of them.  An
empty segment touches no page; still the page of its address is reserved, unless it starts there.

* `PageRange.HasPage`, `Segment.Touches` — the pages of a range, and those with a byte of a
  segment, both by number.
* `Segment.hasPage_reservation_iff`, `Segment.touches_iff` — both as bounds on the number.
* `requested` — the page ranges that are asked for in some events.
* `Ends.requested_prefix`, `Segment.Talk.requested` — a run asks for no more than its conversation,
  and the conversation that places a segment asks for its pages.
* `Segment.requests_touched` — placing an accepted segment asks for the pages it touches, and for
  one more page exactly if it is empty and its address is not the start of a page.
* `Segment.requests_untouched` — such a segment.
-/

set_option autoImplicit false

namespace ElfBoot

open Host.Arena (pagesOf)

/-! ## Pages by number -/

/-- The page that starts at `n * pageSize` is one of the range. -/
def PageRange.HasPage (r : PageRange) (n : Nat) : Prop :=
  ∃ i < r.pages, r.address + i * pageSize = n * pageSize

namespace Segment

/-- Some byte of the segment lies in the page that starts at `n * pageSize`. -/
def Touches (s : Segment) (n : Nat) : Prop := ∃ x, s.Covers x ∧ x / pageSize = n

theorem hasPage_reservation_iff {s : Segment} {n : Nat} :
    s.reservation.HasPage n ↔
      s.address / pageSize ≤ n ∧ n * pageSize < s.address + s.memorySize := by
  have hlimit : s.address / 0x1000 * 0x1000 + s.pageCount * 0x1000 =
      (s.address + s.memorySize + 0xFFF) / 0x1000 * 0x1000 := s.limit_reservation
  show (∃ i < s.pageCount, s.address / 0x1000 * 0x1000 + i * 0x1000 = n * 0x1000) ↔
    s.address / 0x1000 ≤ n ∧ n * 0x1000 < s.address + s.memorySize
  constructor
  · rintro ⟨i, hi, hpage⟩
    omega
  · rintro ⟨hlo, hhi⟩
    refine ⟨n - s.address / 0x1000, ?_, ?_⟩
    · omega
    · rw [← Nat.add_mul, Nat.add_sub_cancel' hlo]

theorem touches_iff {s : Segment} {n : Nat} :
    s.Touches n ↔ 0 < s.memorySize ∧ s.address / pageSize ≤ n ∧
      n * pageSize < s.address + s.memorySize := by
  unfold Touches Covers pageSize
  constructor
  · rintro ⟨x, ⟨hlo, hhi⟩, rfl⟩
    omega
  · rintro ⟨hpos, hlo, hhi⟩
    -- the first byte of the segment in that page
    exact ⟨max s.address (n * 0x1000), ⟨by omega, by omega⟩, by omega⟩

/-- The pages of a segment are those it touches, and the page of its address if the segment is
empty and starts inside a page. -/
theorem exists_hasPage_iff {s : Segment} {n : Nat} :
    (∃ r ∈ pagesOf s, r.HasPage n) ↔ s.Touches n ∨
      (s.memorySize = 0 ∧ s.address % pageSize ≠ 0 ∧ n = s.address / pageSize) := by
  have hreserved : (∃ r ∈ pagesOf s, r.HasPage n) ↔ s.reservation.HasPage n := by
    constructor
    · rintro ⟨r, hr, hpage⟩
      obtain ⟨-, rfl⟩ := Host.mem_pagesOf.1 hr
      exact hpage
    · intro hpage
      have hne : s.pageCount ≠ 0 := by
        obtain ⟨i, hi, -⟩ := hpage
        exact Nat.ne_of_gt (Nat.zero_lt_of_lt hi)
      exact ⟨_, Host.mem_pagesOf.2 ⟨hne, rfl⟩, hpage⟩
  rw [hreserved, hasPage_reservation_iff, touches_iff]
  unfold pageSize
  omega

end Segment

/-! ## What a run asks for -/

/-- The pages that a call asks for. -/
def Event.request? (ev : Event) : Option PageRange :=
  match ev.call with
  | .reserve address pages => some ⟨address, pages⟩
  | _ => none

/-- The page ranges that are asked for in some events, in order. -/
def requested (es : List Event) : List PageRange := es.filterMap Event.request?

theorem requested_append (es es' : List Event) :
    requested (es ++ es') = requested es ++ requested es' := List.filterMap_append

theorem requested_eq_nil {es : List Event}
    (h : ∀ ev ∈ es, ∀ address pages, ev.call ≠ .reserve address pages) : requested es = [] := by
  refine List.filterMap_eq_nil_iff.2 fun ev hev => ?_
  have hno := h ev hev
  unfold Event.request?
  split
  case h_1 address pages hcall => exact absurd hcall (hno address pages)
  case h_2 => rfl

/-- A run asks for no more than the conversation it relates to. -/
theorem Ends.requested_prefix {σ α : Type} {h : Handler σ} {before talk : List Event}
    {result : Except LoadError α} {run : Run σ (Except LoadError α)}
    (hends : Ends h before talk result run) : requested run.events <+: requested talk := by
  cases hends with
  | complete he _ =>
    exact ⟨[], by rw [he, List.append_nil]⟩
  | @failed pre post c answer answer' e ht he _ _ =>
    have hsame : requested (pre ++ [⟨c, answer'⟩]) = requested (pre ++ [⟨c, answer⟩]) := by
      rw [requested_append, requested_append]
      rfl
    have hsplit : talk = (pre ++ [⟨c, answer⟩]) ++ post := by rw [ht, List.append_cons]
    rw [he, hsame, hsplit, requested_append _ post]
    exact List.prefix_append _ _
  | broken pre post ht he _ _ =>
    rw [he, ht, requested_append]
    exact List.prefix_append _ _

namespace Segment

theorem requested_reserving (s : Segment) : requested s.reserving = pagesOf s := by
  unfold reserving
  by_cases hpos : 0 < s.pageCount
  · rw [if_pos hpos, Host.pagesOf_of_pos hpos]
    rfl
  · rw [if_neg hpos, Host.pagesOf_of_not_pos hpos]
    rfl

/-- **The conversation that places a segment** asks for its pages and for nothing else. -/
theorem Talk.requested {s : Segment} {es : List Event} (h : s.Talk es) (hs : s.Sound) :
    ElfBoot.requested es = pagesOf s := by
  obtain ⟨copying, hcopying, rfl⟩ := h
  have hcopied : ElfBoot.requested copying = [] :=
    requested_eq_nil fun ev hev => (hcopying.keeps hs ev hev).no_reserve
  have hcleared : ElfBoot.requested s.clearing = [] :=
    requested_eq_nil fun ev hev => (keeps_clearing hs ev hev).no_reserve
  show ElfBoot.requested (s.reserving ++ (copying ++ s.clearing)) = pagesOf s
  rw [requested_append, requested_append, hcopied, hcleared, requested_reserving,
    List.append_nil, List.append_nil]

/-- **Placing an accepted segment** asks for its pages, or for nothing if it stops before.  They
are the pages with a byte of the segment; an empty segment, which has none, asks for the page of
its address unless that is the start of a page. -/
theorem requests_touched {index : Nat} {h : ProgramHeader} {s : Segment}
    (hs : ofHeader index h = .ok s) {σ : Type} (c : Handler σ) (start : σ) :
    ElfBoot.requested (Program.run c (Load.placeSegment s).run start).events <+: pagesOf s ∧
      ((Program.run c (Load.placeSegment s).run start).outcome = .done (.ok ()) →
        ElfBoot.requested (Program.run c (Load.placeSegment s).run start).events = pagesOf s) ∧
      ∀ n, (∃ r ∈ pagesOf s, r.HasPage n) ↔ s.Touches n ∨
        (s.memorySize = 0 ∧ s.address % pageSize ≠ 0 ∧ n = s.address / pageSize) := by
  have hspec := ofHeader_spec index h
  rw [hs] at hspec
  have hsound : s.Sound := hspec.2
  have hconf : Conforms [] (Load.placeSegment s >>= pure) fun talk _ => s.Talk talk := by
    refine (Load.conforms_placeSegment_bind hsound fun es hes =>
      conforms_check (x := .ok ()) (T := fun talk _ => talk = []) rfl).imp ?_
    rintro talk result ⟨es, rest, hes, rfl, rfl⟩
    rwa [List.append_nil]
  rw [bind_pure] at hconf
  obtain ⟨talk, result, htalk, -, hends⟩ := hconf σ c start
  have hpages := htalk.requested hsound
  refine ⟨?_, fun hok => ?_, fun n => exists_hasPage_iff⟩
  · rw [← hpages]
    exact hends.requested_prefix
  · rw [(hends.of_ok hok).1, hpages]

/-- The program header of some cleared memory. -/
def clearedHeader (address memorySize : UInt64) : ProgramHeader :=
  { byteHeader address with memorySize := memorySize }

/-- A machine with an open file that is empty, whose memory grants everything. -/
def grantingMachine : Host.Machine where
  file := some { content := [] }

/-- A page of memory that starts inside a page touches two. -/
theorem requests_touched_sample :
    ∃ s, ofHeader 0 (clearedHeader 0x100F00 0x1000) = .ok s ∧
      ElfBoot.requested (grantingMachine.run (Load.placeSegment s)).events = [⟨0x100000, 2⟩] ∧
      s.Touches 0x101 := by
  have hs : ofHeader 0 (clearedHeader 0x100F00 0x1000) = .ok ⟨0, 0, 0, 0x1000, 0x100F00⟩ := rfl
  obtain ⟨-, hall, hpages⟩ := requests_touched hs Host.Machine.handler grantingMachine
  have htouches := (hpages 0x101).1 ⟨⟨0x100000, 2⟩, List.mem_singleton_self _, 1, by decide, rfl⟩
  refine ⟨_, hs, hall rfl, ?_⟩
  rcases htouches with htouches | ⟨hempty, -, -⟩
  · exact htouches
  · cases hempty

/-- Not every accepted segment asks for the pages it touches only: an empty one in the middle of a
page asks for that page. -/
theorem requests_untouched :
    ¬ ∀ (index : Nat) (h : ProgramHeader) (s : Segment) (m : Host.Machine),
      ofHeader index h = .ok s → (m.run (Load.placeSegment s)).outcome = .done (.ok ()) →
        ∀ n, (∃ r ∈ ElfBoot.requested (m.run (Load.placeSegment s)).events, r.HasPage n) ↔
          s.Touches n := by
  intro hall
  have hs : ofHeader 0 (clearedHeader 0x100800 0) = .ok ⟨0, 0, 0, 0, 0x100800⟩ := rfl
  have hiff := hall 0 _ _ grantingMachine hs rfl 0x100
  have htouches := hiff.1 ⟨⟨0x100000, 1⟩, List.mem_singleton_self _, 0, by decide, rfl⟩
  have hpos := (touches_iff.1 htouches).1
  exact absurd hpos (by decide)

end Segment

end ElfBoot
