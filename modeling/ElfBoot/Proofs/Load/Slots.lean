import ElfBoot.Proofs.Bytes.Rows
import ElfBoot.Proofs.Load.Checked

/-!
# Tables with any stride

A program header table is a run of program headers, each padded up to the stride.  Its entries are
found by position, met one after another by a cursor that knows how many are to come, and counted;
these ways agree, whatever the stride is and whatever the padding holds, and so a plan does not
depend on either.

* `HeaderBytes`, `Slot` — the bytes of a program header, and with padding behind them.
* `Table.Cursor.calls`, `Table.Cursor.calls_eq` — a cursor that is asked for entry after entry,
  past the last one too.
* `Table.Cursor.calls?`, `Table.Cursor.calls?_eq` — the same with every operation checked.
* `Table.Lists`, `Table.lists_of_get?` — what a table with the given entries shows.
* `Table.ofBlob?_exact` — the bytes that make a table, and what the table shows.
-/

set_option autoImplicit false

namespace ElfBoot

/-! ## Program headers with padding -/

/-- The bytes of a program header. -/
structure HeaderBytes (w : Width) where
  bytes : List UInt8
  length_eq : bytes.length = w.entrySize

namespace HeaderBytes

variable {w : Width}

theorem isSome_decode? (b : HeaderBytes w) : (ProgramHeader.decode? w b.bytes).isSome := by
  obtain ⟨header, hdecode, -⟩ := ProgramHeader.exists_decode (Nat.le_of_eq b.length_eq.symm)
  rw [hdecode]
  rfl

/-- The program header that the bytes stand for. -/
def header (b : HeaderBytes w) : ProgramHeader :=
  (ProgramHeader.decode? w b.bytes).get b.isSome_decode?

/-- What follows the bytes makes no difference. -/
theorem decode?_append (b : HeaderBytes w) (rest : List UInt8) :
    ProgramHeader.decode? w (b.bytes ++ rest) = some b.header := by
  have htake : (b.bytes ++ rest).take w.entrySize = b.bytes := List.take_left' b.length_eq
  have hlong : w.entrySize ≤ ((b.bytes ++ rest).take w.entrySize).length := by
    rw [htake]
    exact Nat.le_of_eq b.length_eq.symm
  rw [← ProgramHeader.decode?_take hlong, htake, header, Option.some_get]

end HeaderBytes

/-- A program header and padding up to the stride. -/
structure Slot (w : Width) (stride : Nat) where
  front : HeaderBytes w
  padding : List UInt8
  length_eq : w.entrySize + padding.length = stride

namespace Slot

variable {w : Width} {stride : Nat}

def bytes (s : Slot w stride) : List UInt8 := s.front.bytes ++ s.padding

theorem length_bytes (s : Slot w stride) : s.bytes.length = stride := by
  rw [bytes, List.length_append, s.front.length_eq, s.length_eq]

/-- As many bytes as the stride, if it has room for a program header. -/
def ofBytes (hstride : w.entrySize ≤ stride) (bytes : List UInt8) (h : bytes.length = stride) :
    Slot w stride where
  front := ⟨bytes.take w.entrySize, List.length_take_of_le (h ▸ hstride)⟩
  padding := bytes.drop w.entrySize
  length_eq := by rw [List.length_drop, h, Nat.add_sub_cancel' hstride]

theorem bytes_ofBytes (hstride : w.entrySize ≤ stride) {bytes : List UInt8}
    (h : bytes.length = stride) : (ofBytes hstride bytes h).bytes = bytes :=
  List.take_append_drop w.entrySize bytes

end Slot

/-! ## Asking for entry after entry -/

namespace Table

namespace Cursor

variable {c : Cursor}

/-- The entry at the cursor and the cursor behind it; at the end there is none, and the cursor
stays. -/
def advance (c : Cursor) : Option ProgramHeader × Cursor :=
  match c.next? with
  | some (header, c') => (some header, c')
  | none => (none, c)

/-- Asks for an entry so many times: how many entries were still to come, and what the answer
was. -/
def calls : Nat → Cursor → List (Nat × Option ProgramHeader)
  | 0, _ => []
  | n + 1, c => (c.remaining, c.advance.1) :: calls n c.advance.2

theorem advance_of_get? {header : ProgramHeader} (h : c.table.get? c.index = some header) :
    c.advance = (some header, { c with index := c.index + 1 }) := by
  rw [advance, next?, h]
  rfl

theorem advance_of_count_le (h : c.table.count ≤ c.index) : c.advance = (none, c) := by
  have hget : c.table.get? c.index = none := if_neg (Nat.not_lt.2 h)
  rw [advance, next?, hget]
  rfl

/-- **Entry after entry**: the `k`-th answer is the entry `k` positions from the cursor on, and none
for ever behind the last one. -/
theorem calls_eq (c : Cursor) (n : Nat) :
    c.calls n = (List.range n).map fun k =>
      (c.table.count - (c.index + k), c.table.get? (c.index + k)) := by
  induction n generalizing c with
  | zero => rfl
  | succ n ih =>
    rw [calls, ih, List.range_succ_eq_map, List.map_cons, List.map_map]
    by_cases hlt : c.index < c.table.count
    · obtain ⟨header, hget, -⟩ := exists_get? hlt
      rw [advance_of_get? hget]
      simp only [remaining, Nat.add_zero, hget, Function.comp_def, Nat.succ_eq_add_one,
        Nat.add_assoc, Nat.add_comm 1]
    · -- the cursor stays, and so do all the answers
      have hle : c.table.count ≤ c.index := Nat.not_lt.1 hlt
      have hget : ∀ k, c.table.get? (c.index + k) = none := fun k => if_neg (by omega)
      have hnone : ∀ k, c.table.count - (c.index + k) = 0 := fun k => by omega
      rw [advance_of_count_le hle]
      simp only [remaining, hget, hnone, Function.comp_def]
      rw [Nat.sub_eq_zero_of_le hle]

/-- Walking meets what is listed from the position of the cursor on. -/
theorem walk_eq_drop {headers : List ProgramHeader} (c : Cursor)
    (hget : ∀ i, c.table.get? i = headers[i]?) : c.walk.map (·.1) = headers.drop c.index := by
  induction c using Cursor.walk.induct with
  | case1 c hn =>
    have hnone : headers[c.index]? = none := by
      rw [← hget]
      simpa [next?] using hn
    rw [walk, hn, List.drop_eq_nil_of_le (List.getElem?_eq_none_iff.1 hnone)]
    rfl
  | case2 c p hn ih =>
    rw [walk, hn]
    obtain ⟨header, c'⟩ := p
    obtain ⟨_, hheader, heq⟩ := Option.map_eq_some_iff.1 hn
    cases heq
    rw [hget] at hheader
    obtain ⟨hlt, hentry⟩ := List.getElem?_eq_some_iff.1 hheader
    rw [List.map_cons, ih hget, List.drop_eq_getElem_cons hlt, hentry]

/-! ## The same with every operation checked -/

/-- How many entries are still to come, none if the cursor is past all of them. -/
def remaining? (c : Cursor) : Option Nat := c.table.size?.map (· - c.index)

/-- The entry at the cursor, if there is one, and the cursor for the next one. -/
def advance? (c : Cursor) : Option (Option ProgramHeader × Cursor) := do
  match ← c.table.header? c.index with
  | none => return (none, c)
  | some header =>
    let index ← Address.add? c.index 1
    return (some header, { c with index })

/-- Asks for an entry so many times. -/
def calls? : Nat → Cursor → Option (List (Nat × Option ProgramHeader))
  | 0, _ => some []
  | n + 1, c => do
    let remaining ← c.remaining?
    let (item, c) ← c.advance?
    let rest ← calls? n c
    return (remaining, item) :: rest

theorem remaining?_eq (c : Cursor) : c.remaining? = some c.remaining := by
  rw [remaining?, size?_eq, Option.map_some, remaining]

theorem advance?_eq (h : c.table.blob.length < wordLimit) : c.advance? = some c.advance := by
  rw [advance?, header?_eq h, Option.bind_eq_bind, Option.bind_some]
  by_cases hlt : c.index < c.table.count
  · obtain ⟨header, hget, -⟩ := exists_get? hlt
    have hcount := c.table.count_le
    have hnext : Address.add? c.index 1 = some (c.index + 1) := if_pos (by omega)
    rw [advance_of_get? hget, hget]
    simp only [hnext, Option.bind_eq_bind, Option.bind_some]
    rfl
  · have hget : c.table.get? c.index = none := if_neg hlt
    rw [advance_of_count_le (Nat.not_lt.1 hlt), hget]
    rfl

theorem table_advance (c : Cursor) : c.advance.2.table = c.table := by
  unfold advance
  cases hn : c.next? with
  | none => rfl
  | some p =>
    obtain ⟨_, -, rfl⟩ := Option.map_eq_some_iff.1 hn
    rfl

theorem calls?_eq (h : c.table.blob.length < wordLimit) (n : Nat) :
    c.calls? n = some (c.calls n) := by
  induction n generalizing c with
  | zero => rfl
  | succ n ih =>
    have hrest := ih (c := c.advance.2) (by rwa [table_advance])
    rw [calls?, remaining?_eq, advance?_eq h]
    simp only [Option.bind_eq_bind, Option.bind_some, hrest]
    rfl

end Cursor

/-! ## What a table shows -/

/-- A table has the given entries, however they are looked at: counted, found by position, listed,
or asked for one after another, with as many still to come as there are and none behind the last
one.  Nothing that is computed for this is undefined, as long as a word can count the bytes. -/
structure Lists (t : Table) (headers : List ProgramHeader) : Prop where
  count_eq : t.count = headers.length
  entries_eq : t.entries = headers
  get?_eq : ∀ i, t.get? i = headers[i]?
  calls_eq : ∀ n, t.start.calls n =
    (List.range n).map fun k => (headers.length - k, headers[k]?)
  size?_eq : t.size? = some headers.length
  header?_eq : t.blob.length < wordLimit → ∀ i, t.header? i = some headers[i]?
  calls?_eq : t.blob.length < wordLimit → ∀ n, t.start.calls? n = some (t.start.calls n)

variable {t t' : Table} {headers : List ProgramHeader}

/-- Finding the entries by position is enough. -/
theorem lists_of_get? (hcount : t.count = headers.length) (hget : ∀ i, t.get? i = headers[i]?) :
    t.Lists headers := by
  constructor
  case count_eq => exact hcount
  case entries_eq => exact Cursor.walk_eq_drop t.start hget
  case get?_eq => exact hget
  case calls_eq =>
    intro n
    rw [Cursor.calls_eq]
    simp only [start, Nat.zero_add, hcount, hget]
  case size?_eq => rw [Table.size?_eq, hcount]
  case header?_eq =>
    intro hword i
    rw [Table.header?_eq hword, hget]
  case calls?_eq => exact fun hword => Cursor.calls?_eq (c := t.start) hword

/-- Tables with the same entries have the same plan, and report the same on the way to it. -/
theorem Lists.plan_eq (h : t.Lists headers) (h' : t'.Lists headers) :
    Plan.ofTable t' = Plan.ofTable t ∧ Load.makePlan t' = Load.makePlan t := by
  have hcount : t'.count = t.count := h'.count_eq.trans h.count_eq.symm
  have hget : ∀ i, t'.get? i = t.get? i := fun i => (h'.get?_eq i).trans (h.get?_eq i).symm
  exact ⟨Plan.ofTable_congr hcount hget, Load.makePlan_congr hcount hget⟩

variable {w : Width} {stride : Nat}

/-- **Slots one after another** make a table of their program headers. -/
theorem exists_lists (hstride : w.entrySize ≤ stride) (slots : List (Slot w stride)) :
    ∃ t, ofBlob? w stride (slots.flatMap Slot.bytes) = some t ∧
      t.Lists ((slots.map Slot.front).map HeaderBytes.header) := by
  refine ⟨_, ofBlob?_eq hstride (length_rows Slot.length_bytes slots), lists_of_get? ?_ fun i => ?_⟩
  · rw [List.length_map, List.length_map]
  · rw [List.map_map, List.getElem?_map, get?, chunk]
    by_cases hi : i < slots.length
    · have hslot := List.getElem?_eq_getElem hi
      rw [if_pos hi, take_drop_rows Slot.length_bytes hslot, hslot, Slot.bytes,
        HeaderBytes.decode?_append]
      rfl
    · rw [if_neg hi, List.getElem?_eq_none (Nat.le_of_not_lt hi)]
      rfl

/-- Bytes that make up a whole number of strides are slots one after another. -/
theorem exists_slots (hstride : w.entrySize ≤ stride) {count : Nat} {blob : List UInt8}
    (h : blob.length = count * stride) :
    ∃ slots : List (Slot w stride), slots.flatMap Slot.bytes = blob := by
  induction count generalizing blob with
  | zero =>
    rw [Nat.zero_mul, List.length_eq_zero_iff] at h
    exact ⟨[], h.symm⟩
  | succ count ih =>
    rw [Nat.succ_mul] at h
    have hfirst : (blob.take stride).length = stride := List.length_take_of_le (by omega)
    have hrest : (blob.drop stride).length = count * stride := by
      rw [List.length_drop]
      omega
    obtain ⟨slots, hslots⟩ := ih hrest
    refine ⟨.ofBytes hstride (blob.take stride) hfirst :: slots, ?_⟩
    rw [List.flatMap_cons, hslots, Slot.bytes_ofBytes, List.take_append_drop]

/-- **The bytes that make a table**, for a stride that has room for a program header, are program
headers one after another, each padded up to the stride.  The table has these entries, and its plan
is that of any other table of the same program headers, whatever the stride and the padding are. -/
theorem ofBlob?_exact (w : Width) (stride : Nat) :
    (w.entrySize ≤ stride → ∀ slots : List (Slot w stride),
      ∃ t, ofBlob? w stride (slots.flatMap Slot.bytes) = some t ∧
        t.Lists ((slots.map Slot.front).map HeaderBytes.header) ∧
        ∀ stride', w.entrySize ≤ stride' → ∀ slots' : List (Slot w stride'),
          slots'.map Slot.front = slots.map Slot.front →
          ∃ t', ofBlob? w stride' (slots'.flatMap Slot.bytes) = some t' ∧
            Plan.ofTable t' = Plan.ofTable t ∧ Load.makePlan t' = Load.makePlan t) ∧
    ∀ blob t, ofBlob? w stride blob = some t →
      w.entrySize ≤ stride ∧ ∃ slots : List (Slot w stride), slots.flatMap Slot.bytes = blob := by
  constructor
  · intro hstride slots
    obtain ⟨t, ht, hlists⟩ := exists_lists hstride slots
    refine ⟨t, ht, hlists, fun stride' hstride' slots' hfronts => ?_⟩
    obtain ⟨t', ht', hlists'⟩ := exists_lists hstride' slots'
    rw [hfronts] at hlists'
    exact ⟨t', ht', hlists.plan_eq hlists'⟩
  · intro blob t ht
    obtain ⟨rfl, rfl, rfl⟩ := of_ofBlob? ht
    exact ⟨t.entrySize_le, exists_slots t.entrySize_le t.length_eq⟩

/-- Two parts that are placed, as program headers. -/
def sampleFronts : List (HeaderBytes .bits64) :=
  [{ offset := 0x1000, data := [1, 1, 1, 1], memorySize := 4, address := 0x100000 },
    { offset := 0x2000, data := [2, 2, 2, 2], memorySize := 4, address := 0x200000 }].map
    fun p : Part => ⟨p.entry .bits64, p.length_entry .bits64⟩

/-- Program headers one behind the other, without padding. -/
def tightSlots : List (Slot .bits64 56) := sampleFronts.map fun front => ⟨front, [], rfl⟩

/-- The same with eight bytes of padding behind each. -/
def paddedSlots : List (Slot .bits64 64) :=
  sampleFronts.map fun front => ⟨front, List.replicate 8 0xCC, rfl⟩

theorem ofBlob?_exact_padded :
    (∃ t, ofBlob? .bits64 64 (paddedSlots.flatMap Slot.bytes) = some t ∧
      t.Lists ((paddedSlots.map Slot.front).map HeaderBytes.header) ∧
      ∃ t', ofBlob? .bits64 56 (tightSlots.flatMap Slot.bytes) = some t' ∧
        Plan.ofTable t' = Plan.ofTable t ∧ Load.makePlan t' = Load.makePlan t) ∧
    ∃ slots : List (Slot .bits64 64), slots.flatMap Slot.bytes = List.replicate 128 0xCC := by
  obtain ⟨t, ht, hlists, hplan⟩ := (ofBlob?_exact .bits64 64).1 (by decide) paddedSlots
  have hroom : Width.bits64.entrySize ≤ 64 := by decide
  have hwhole : (List.replicate 128 (0xCC : UInt8)).length = 2 * 64 := List.length_replicate
  exact ⟨⟨t, ht, hlists, hplan 56 (by decide) tightSlots rfl⟩,
    ((ofBlob?_exact .bits64 64).2 _ _ (ofBlob?_eq hroom hwhole)).2⟩

example :
    ((ofBlob? .bits64 64 (paddedSlots.flatMap Slot.bytes)).map fun t =>
      (t.start.calls 4).map fun p => (p.1, p.2.map ProgramHeader.physicalAddress)) =
    some [(2, some 0x100000), (1, some 0x200000), (0, none), (0, none)] := by
  cbv

end Table

end ElfBoot
