import ElfBoot.Image.ProgramHeader

/-!
# The program header table

The table is a run of entries of equal size, its stride.  The stride comes from the image and may
exceed the fixed layout of a program header; the rest of each entry is padding, and entry `i`
starts at `i * stride`.

* `Table` — the bytes, the stride and the number of entries, with the two facts that tie them.
* `Table.ofBlob?` — accepts a byte list that holds a whole number of entries of at least the
  layout size.
* `Table.get?` — one entry.
* `Table.Cursor` — the entries one after another, with the number of entries still to come.
-/

set_option autoImplicit false

namespace ElfBoot

/-- The bytes of a program header table, cut into entries of `stride` bytes. -/
structure Table where
  width : Width
  stride : Nat
  count : Nat
  blob : List UInt8
  entrySize_le : width.entrySize ≤ stride
  length_eq : blob.length = count * stride
  deriving DecidableEq, Repr

namespace Table

/-- A table over the given bytes, if the stride has room for a program header and divides them
into whole entries. -/
def ofBlob? (w : Width) (stride : Nat) (blob : List UInt8) : Option Table :=
  if hs : w.entrySize ≤ stride then
    if hm : blob.length % stride = 0 then
      some ⟨w, stride, blob.length / stride, blob, hs,
        (Nat.div_mul_cancel (Nat.dvd_of_mod_eq_zero hm)).symm⟩
    else none
  else none

/-- The table without entries. -/
def empty (w : Width) : Table := ⟨w, w.entrySize, 0, [], Nat.le_refl _, by simp⟩

def isEmpty (t : Table) : Bool := t.count == 0

/-- The bytes of entry `i`, padding included. -/
def chunk (t : Table) (i : Nat) : List UInt8 := (t.blob.drop (i * t.stride)).take t.stride

/-- The program header at position `i`. -/
def get? (t : Table) (i : Nat) : Option ProgramHeader :=
  if i < t.count then ProgramHeader.decode? t.width (t.chunk i) else none

theorem lt_count_of_get? {t : Table} {i : Nat} {h : ProgramHeader} (hg : t.get? i = some h) :
    i < t.count := by
  unfold get? at hg
  split at hg
  · assumption
  · cases hg

/-! ## One entry after another -/

/-- A position in a table. -/
structure Cursor where
  table : Table
  index : Nat
  deriving DecidableEq, Repr

namespace Cursor

/-- The entry at the cursor and the cursor behind it. -/
def next? (c : Cursor) : Option (ProgramHeader × Cursor) :=
  (c.table.get? c.index).map fun h => (h, { c with index := c.index + 1 })

/-- How many entries are still to come. -/
def remaining (c : Cursor) : Nat := c.table.count - c.index

theorem remaining_of_next? {c c' : Cursor} {h : ProgramHeader} (hn : c.next? = some (h, c')) :
    c.remaining = c'.remaining + 1 := by
  simp only [next?, Option.map_eq_some_iff, Prod.mk.injEq] at hn
  obtain ⟨_, hg, -, rfl⟩ := hn
  have := lt_count_of_get? hg
  simp only [remaining]
  omega

/-- Every entry from the cursor on, each with the cursor behind it. -/
def walk (c : Cursor) : List (ProgramHeader × Cursor) :=
  match _hn : c.next? with
  | none => []
  | some p => p :: walk p.2
termination_by c.remaining
decreasing_by
  have := remaining_of_next? _hn
  omega

end Cursor

/-- The cursor before the first entry. -/
def start (t : Table) : Cursor := ⟨t, 0⟩

/-- The entries in table order. -/
def entries (t : Table) : List ProgramHeader := t.start.walk.map (·.1)

end Table

end ElfBoot
