/-!
# Addresses and pages

Addresses, offsets and lengths are numbers below `2 ^ 64`.  Sums and products are taken with an
explicit limit: `none` stands for a result that no longer fits, so that a caller says what happens
then instead of wrapping around.

* `Address.add?`, `Address.mul?`, `Address.sub?` — limited arithmetic.
* `pagesFor`, `pageBase` — the pages that cover a length, the start of the page of an address.
* `PageRange` — a run of pages, as handed out by a reservation.
-/

set_option autoImplicit false

namespace ElfBoot

/-- Addresses, offsets and lengths stay below `2 ^ 64`. -/
def wordLimit : Nat := 0x10000000000000000

/-- Bytes in a page, the unit of reservation. -/
def pageSize : Nat := 0x1000

namespace Address

/-- The sum, if it fits into a word. -/
def add? (a b : Nat) : Option Nat := if a + b < wordLimit then some (a + b) else none

/-- The product, if it fits into a word. -/
def mul? (a b : Nat) : Option Nat := if a * b < wordLimit then some (a * b) else none

/-- The difference, if it is not negative. -/
def sub? (a b : Nat) : Option Nat := if b ≤ a then some (a - b) else none

theorem add?_eq_some_iff {a b c : Nat} : add? a b = some c ↔ a + b < wordLimit ∧ a + b = c := by
  simp [add?]

theorem mul?_eq_some_iff {a b c : Nat} : mul? a b = some c ↔ a * b < wordLimit ∧ a * b = c := by
  simp [mul?]

theorem sub?_eq_some_iff {a b c : Nat} : sub? a b = some c ↔ b ≤ a ∧ a - b = c := by
  simp [sub?]

end Address

/-! ## Pages -/

/-- How many pages cover `len` bytes. -/
def pagesFor (len : Nat) : Nat := len / pageSize + if len % pageSize = 0 then 0 else 1

/-- Start of the page that holds `address`. -/
def pageBase (address : Nat) : Nat := address / pageSize * pageSize

theorem pageBase_le (address : Nat) : pageBase address ≤ address :=
  Nat.div_mul_le_self address pageSize

/-- A run of whole pages. -/
structure PageRange where
  address : Nat
  pages : Nat
  deriving DecidableEq, Repr

namespace PageRange

/-- First address past the range, over unbounded numbers. -/
def limit (r : PageRange) : Nat := r.address + r.pages * pageSize

/-- First address past the range, if it is an address. -/
def end? (r : PageRange) : Option Nat := do
  let len ← Address.mul? r.pages pageSize
  Address.add? r.address len

/-- Whether the range meets the bytes from `lo` up to `hi`; `none` if its end is no address. -/
def meets? (r : PageRange) (lo hi : Nat) : Option Bool :=
  r.end?.map fun stop => decide (lo < stop ∧ r.address < hi)

/-- Whether the range holds the bytes from `lo` up to `hi`.  Its end is looked at only when the
range does not start too late; `none` if that end is no address. -/
def covers? (r : PageRange) (lo hi : Nat) : Option Bool :=
  if lo < r.address then some false else r.end?.map fun stop => decide (hi ≤ stop)

theorem end?_eq_some_iff {r : PageRange} {stop : Nat} :
    r.end? = some stop ↔ r.limit < wordLimit ∧ r.limit = stop := by
  simp only [end?, limit, Option.bind_eq_bind, Option.bind_eq_some_iff, Address.mul?_eq_some_iff,
    Address.add?_eq_some_iff]
  constructor
  · rintro ⟨len, ⟨_, rfl⟩, h⟩
    exact h
  · intro h
    exact ⟨_, ⟨by omega, rfl⟩, h⟩

end PageRange

/-- Whether a question holds of some range of a list, asked from the front until one answers yes.
A range for which the question has no answer ends the search without one. -/
def someRange? (question : PageRange → Option Bool) : List PageRange → Option Bool
  | [] => some false
  | r :: rs =>
    match question r with
    | none => none
    | some true => some true
    | some false => someRange? question rs

end ElfBoot
