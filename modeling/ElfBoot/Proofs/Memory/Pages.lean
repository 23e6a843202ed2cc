import ElfBoot.Memory.Pages

/-!
# Pages and ranges of pages

The number of pages for a length covers it, and no page is wasted on no length.  For ranges whose
ends are addresses, the questions about them have plain answers.

* `le_pagesFor_mul`, `pagesFor_eq_zero_iff` — the pages for a length.
* `PageRange.Overlaps`, `PageRange.meets?_eq`, `PageRange.covers?_eq`, `someRange?_eq` — ranges and
  lists of them.
-/

set_option autoImplicit false

namespace ElfBoot

theorem le_pagesFor_mul (len : Nat) : len ≤ pagesFor len * pageSize := by
  rw [pagesFor, pageSize]
  by_cases h : len % 0x1000 = 0
  · rw [if_pos h]; omega
  · rw [if_neg h]; omega

theorem pagesFor_eq_zero_iff {len : Nat} : pagesFor len = 0 ↔ len = 0 := by
  rw [pagesFor, pageSize]
  by_cases h : len % 0x1000 = 0
  · rw [if_pos h]; omega
  · rw [if_neg h]; omega

namespace PageRange

/-- The address lies in the range. -/
def Holds (r : PageRange) (x : Nat) : Prop := r.address ≤ x ∧ x < r.limit

/-- Some address lies in both ranges. -/
def Overlaps (r q : PageRange) : Prop := ∃ x, r.Holds x ∧ q.Holds x

theorem overlaps_of_lt {r q : PageRange} (hr : r.address < r.limit) (hq : q.address < q.limit)
    (h1 : r.address < q.limit) (h2 : q.address < r.limit) : r.Overlaps q := by
  refine ⟨max r.address q.address, ⟨Nat.le_max_left _ _, ?_⟩, Nat.le_max_right _ _, ?_⟩
  · omega
  · omega

theorem Overlaps.lt {r q : PageRange} (h : r.Overlaps q) :
    r.address < q.limit ∧ q.address < r.limit := by
  obtain ⟨x, hr, hq⟩ := h
  exact ⟨Nat.lt_of_le_of_lt hr.1 hq.2, Nat.lt_of_le_of_lt hq.1 hr.2⟩

theorem address_lt_limit {r : PageRange} (h : 0 < r.pages) : r.address < r.limit := by
  unfold limit pageSize
  omega

theorem meets?_eq {r : PageRange} (h : r.limit < wordLimit) (lo hi : Nat) :
    r.meets? lo hi = some (decide (lo < r.limit ∧ r.address < hi)) := by
  rw [meets?, end?_eq_some_iff.2 ⟨h, rfl⟩]
  rfl

theorem covers?_eq {r : PageRange} (h : r.limit < wordLimit) (lo hi : Nat) :
    r.covers? lo hi = some (decide (r.address ≤ lo ∧ hi ≤ r.limit)) := by
  rw [covers?, end?_eq_some_iff.2 ⟨h, rfl⟩]
  split
  · rename_i hlt
    simp only [Option.some.injEq]
    exact (decide_eq_false fun hc => Nat.not_le.2 hlt hc.1).symm
  · rename_i hlt
    have hle : r.address ≤ lo := Nat.not_lt.1 hlt
    simp [hle]

end PageRange

/-- A search among ranges of which each has an answer finds out whether one of them says yes. -/
theorem someRange?_eq {question : PageRange → Option Bool} {answer : PageRange → Bool}
    {ranges : List PageRange} (h : ∀ r ∈ ranges, question r = some (answer r)) :
    someRange? question ranges = some (ranges.any answer) := by
  induction ranges with
  | nil => rfl
  | cons r rest ih =>
    rw [someRange?, h r List.mem_cons_self, List.any_cons]
    have ih := ih fun q hq => h q (List.mem_cons_of_mem r hq)
    cases answer r with
    | true => rfl
    | false => exact ih

end ElfBoot
