/-!
# Rows of equal length

Tables and maps keep their entries at equal distances.  In a run of rows of one length every row
stands at that length times its position.

* `length_rows` — how long the run is.
* `drop_rows`, `take_drop_rows` — the rows from a position on, and a single one.
-/

set_option autoImplicit false

namespace ElfBoot

section Rows

variable {β : Type} {row : β → List UInt8} {n : Nat}

theorem length_rows (h : ∀ b, (row b).length = n) (bs : List β) :
    (bs.flatMap row).length = bs.length * n := by
  induction bs with
  | nil => rw [List.flatMap_nil, List.length_nil, List.length_nil, Nat.zero_mul]
  | cons b rest ih =>
    rw [List.flatMap_cons, List.length_append, h, ih, List.length_cons, Nat.succ_mul, Nat.add_comm]

/-- From the start of a row on, the rows from there on are left. -/
theorem drop_rows (h : ∀ b, (row b).length = n) {bs : List β} {i : Nat} (hi : i ≤ bs.length) :
    (bs.flatMap row).drop (i * n) = (bs.drop i).flatMap row := by
  have hsplit : bs.flatMap row = (bs.take i).flatMap row ++ (bs.drop i).flatMap row := by
    rw [← List.flatMap_append, List.take_append_drop]
  have hfront : ((bs.take i).flatMap row).length = i * n := by
    rw [length_rows h, List.length_take, Nat.min_eq_left hi]
  rw [hsplit, List.drop_left' hfront]

theorem take_drop_rows (h : ∀ b, (row b).length = n) {bs : List β} {i : Nat} {b : β}
    (hb : bs[i]? = some b) : ((bs.flatMap row).drop (i * n)).take n = row b := by
  obtain ⟨hi, rfl⟩ := List.getElem?_eq_some_iff.1 hb
  rw [drop_rows h (Nat.le_of_lt hi), List.drop_eq_getElem_cons hi, List.flatMap_cons,
    List.take_left' (h _)]

end Rows

end ElfBoot
