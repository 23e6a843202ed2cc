import ElfBoot.Host.Placement
import ElfBoot.Proofs.Memory.Pages

/-!
# What an arena grants

An arena whose bounds are addresses can make every comparison it needs, so its operations have
plain conditions.

* `Arena.Bounded` — the end of the window and of every reserved or occupied range is an address.
* `Arena.Room`, `Arena.reserve_of_room`, `Arena.reserve_of_no_room` — a range is reserved exactly if
  it lies in the window and meets no range that is taken.
* `Arena.Owns`, `Arena.write_of_owns`, `Arena.zero_of_owns` — bytes within a single reservation can
  be written and cleared.
-/

set_option autoImplicit false

namespace ElfBoot.Host.Arena

/-- The end of the window and the ends of all ranges that are taken are addresses. -/
structure Bounded (a : Arena) : Prop where
  window : a.base + a.size < wordLimit
  ranges : ∀ r ∈ a.reserved ++ a.occupied, r.limit < wordLimit

/-- A range lies in the window and meets no range that is taken. -/
structure Room (a : Arena) (r : PageRange) : Prop where
  base_le : a.base ≤ r.address
  limit_le : r.limit ≤ a.base + a.size
  free : ∀ q ∈ a.reserved ++ a.occupied, ¬ (r.address < q.limit ∧ q.address < r.limit)

variable {a : Arena}

theorem bounded_of_reserved_nil (hwindow : a.base + a.size < wordLimit)
    (hoccupied : ∀ q ∈ a.occupied, q.limit < wordLimit) (hreserved : a.reserved = []) :
    a.Bounded := by
  refine ⟨hwindow, fun q hq => ?_⟩
  rw [hreserved, List.nil_append] at hq
  exact hoccupied q hq

/-- A range for which there is room can be taken. -/
theorem Bounded.reserve (hb : a.Bounded) {r : PageRange} (h : a.Room r) :
    { a with reserved := a.reserved ++ [r] }.Bounded := by
  refine ⟨hb.window, fun q hq => ?_⟩
  rcases List.mem_append.1 hq with hres | hocc
  · rcases List.mem_append.1 hres with hold | hnew
    · exact hb.ranges q (List.mem_append_left _ hold)
    · obtain rfl := List.mem_singleton.1 hnew
      exact Nat.lt_of_le_of_lt h.limit_le hb.window
  · exact hb.ranges q (List.mem_append_right _ hocc)

theorem holds?_eq (hb : a.Bounded) (lo hi : Nat) :
    a.holds? lo hi = some (decide (a.base ≤ lo ∧ hi ≤ a.base + a.size)) := by
  rw [holds?, Address.add?_eq_some_iff.2 ⟨hb.window, rfl⟩]
  split
  · rename_i hlt
    simp only [Option.some.injEq]
    exact (decide_eq_false fun hc => Nat.not_le.2 hlt hc.1).symm
  · rename_i hlt
    have hle : a.base ≤ lo := Nat.not_lt.1 hlt
    simp [hle]

/-- The arena has an answer to every request for pages, and it is whether there is room. -/
theorem grants?_spec (hb : a.Bounded) (r : PageRange) :
    ∃ granted, a.grants? r = some granted ∧ (granted = true ↔ a.Room r) := by
  rw [grants?]
  by_cases hlim : r.limit < wordLimit
  · have hsome := someRange?_eq
      (fun q hq => PageRange.meets?_eq (hb.ranges q hq) r.address r.limit)
    rw [PageRange.end?_eq_some_iff.2 ⟨hlim, rfl⟩]
    simp only [holds?_eq hb, hsome, Option.bind_eq_bind, Option.bind_some]
    by_cases hin : a.base ≤ r.address ∧ r.limit ≤ a.base + a.size
    · rw [if_pos (decide_eq_true hin)]
      refine ⟨_, rfl, ?_⟩
      rw [Bool.not_eq_true', List.any_eq_false]
      constructor
      · intro hfree
        exact ⟨hin.1, hin.2, fun q hq hmeet => hfree q hq (decide_eq_true hmeet)⟩
      · intro hroom q hq hmeet
        exact hroom.free q hq (of_decide_eq_true hmeet)
    · rw [if_neg (by rw [decide_eq_true_eq]; exact hin)]
      refine ⟨false, rfl, iff_of_false Bool.false_ne_true fun hroom => ?_⟩
      exact hin ⟨hroom.base_le, hroom.limit_le⟩
  · have hnone : r.end? = none := by
      cases hend : r.end? with
      | none => rfl
      | some stop => exact absurd (PageRange.end?_eq_some_iff.1 hend).1 hlim
    rw [hnone]
    refine ⟨false, rfl, iff_of_false Bool.false_ne_true fun hroom => ?_⟩
    exact hlim (Nat.lt_of_le_of_lt hroom.limit_le hb.window)

theorem reserve_of_room (hb : a.Bounded) {address pages : Nat} (h : a.Room ⟨address, pages⟩) :
    a.reserve address pages =
      some (.ok (), { a with reserved := a.reserved ++ [⟨address, pages⟩] }) := by
  obtain ⟨granted, hg, hiff⟩ := grants?_spec hb ⟨address, pages⟩
  rw [reserve, hg, hiff.2 h]
  rfl

theorem reserve_of_no_room (hb : a.Bounded) {address pages : Nat}
    (h : ¬ a.Room ⟨address, pages⟩) :
    a.reserve address pages = some (.error (.allocation (.reserve address pages)), a) := by
  obtain ⟨granted, hg, hiff⟩ := grants?_spec hb ⟨address, pages⟩
  have hno : granted = false := Bool.eq_false_iff.2 fun ht => h (hiff.1 ht)
  rw [reserve, hg, hno]
  rfl

/-- Some single reservation holds all `len` bytes from `address` on. -/
def Owns (a : Arena) (address len : Nat) : Prop :=
  ∃ r ∈ a.reserved, r.address ≤ address ∧ address + len ≤ r.limit

theorem owns?_of_owns (hb : a.Bounded) {address len : Nat} (h : a.Owns address len) :
    a.owns? address len = some true := by
  obtain ⟨r, hr, hlo, hhi⟩ := h
  have hlim := hb.ranges r (List.mem_append_left _ hr)
  have hsome := someRange?_eq fun q (hq : q ∈ a.reserved) =>
    PageRange.covers?_eq (hb.ranges q (List.mem_append_left _ hq)) address (address + len)
  rw [owns?, Address.add?_eq_some_iff.2 ⟨Nat.lt_of_le_of_lt hhi hlim, rfl⟩]
  simp only [hsome, Option.some.injEq, List.any_eq_true, decide_eq_true_eq]
  exact ⟨r, hr, hlo, hhi⟩

theorem write_of_owns (hb : a.Bounded) {address : Nat} {bytes : List UInt8}
    (h : a.Owns address bytes.length) :
    a.write address bytes = some (.ok (), { a with memory := a.memory.store address bytes }) := by
  rw [write, owns?_of_owns hb h]
  rfl

theorem zero_of_owns (hb : a.Bounded) {address len : Nat} (h : a.Owns address len) :
    a.zero address len = some (.ok (),
      { a with memory := a.memory.clear address len, zeroCalls := a.zeroCalls + 1 }) := by
  rw [zero, owns?_of_owns hb h]
  rfl

end ElfBoot.Host.Arena
