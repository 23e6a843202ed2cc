import ElfBoot.Proofs.Load.TwoPhases

/-!
# The plan of a table

A plan is made or refused by the loadable entries of a table alone, in table order.  Both fields of
an error are settled here: which entry it names, and which of the two objections to that entry it
states.

* `Table.Loads` — a position of a table holds a program header that is to be placed.
* `Segment.ofHeader_of_sound`, `Segment.ofHeader_of_not_sound` — one program header.
* `Table.fields_lt` — the fields of a 32-bit table are 32-bit numbers, so none of its segments can
  reach past the last address.
* `Plan.Lists` — a plan has one segment for each loadable entry, in table order.
* `Plan.ofTable_exact` — which plan a table has, or which error.
-/

set_option autoImplicit false

namespace ElfBoot

/-- Position `i` of the table holds a program header that is to be placed. -/
def Table.Loads (t : Table) (i : Nat) (h : ProgramHeader) : Prop :=
  t.get? i = some h ∧ h.isLoad = true

/-! ## One program header -/

namespace Segment

variable {index : Nat} {h : ProgramHeader}

theorem ofHeader_of_sound (hs : (ofFields index h).Sound) :
    ofHeader index h = .ok (ofFields index h) := by
  have hspec := ofHeader_spec index h
  cases hof : ofHeader index h with
  | ok s =>
    rw [hof] at hspec
    rw [hspec.1]
  | error e =>
    rw [hof] at hspec
    exact absurd (noneHolds_objections.2 hs) hspec.not_noneHolds

/-- A size that is too small is objected to before an end that is no address. -/
theorem ofHeader_of_not_sound (hs : ¬ (ofFields index h).Sound) :
    ofHeader index h = .error (.invalidParameter
      (if h.memorySize < h.fileSize then .segmentSize index else .segmentOverflow index)) := by
  have hspec := ofHeader_spec index h
  cases hof : ofHeader index h with
  | ok s =>
    rw [hof] at hspec
    obtain ⟨rfl, hsound⟩ := hspec
    exact absurd hsound hs
  | error e =>
    rw [hof] at hspec
    have hlt : (ofFields index h).memorySize < (ofFields index h).fileSize ↔
        h.memorySize < h.fileSize := UInt64.lt_iff_toNat_lt.symm
    simp only [objections, Objection.decides_cons_iff, hlt] at hspec
    rcases hspec with ⟨hsize, rfl⟩ | ⟨hsize, ⟨-, rfl⟩ | ⟨-, hnone⟩⟩
    · rw [if_pos hsize]
      rfl
    · rw [if_neg hsize]
      rfl
    · exact absurd Objection.noneHolds_nil hnone.not_noneHolds

theorem exists_ofHeader_iff : (∃ g, ofHeader index h = .ok g) ↔ (ofFields index h).Sound := by
  constructor
  · rintro ⟨g, hg⟩
    have hspec := ofHeader_spec index h
    rw [hg] at hspec
    obtain ⟨rfl, hsound⟩ := hspec
    exact hsound
  · intro hs
    exact ⟨_, ofHeader_of_sound hs⟩

end Segment

/-! ## The entries of a table -/

namespace Table

variable {t : Table} {i : Nat} {h : ProgramHeader}

theorem Loads.lt_count (hl : t.Loads i h) : i < t.count := lt_count_of_get? hl.1

theorem accepts_iff : t.Accepts i ↔ ∀ h, t.Loads i h → (Segment.ofFields i h).Sound := by
  constructor
  · intro ha h hl
    exact Segment.exists_ofHeader_iff.1 (ha h hl.1 hl.2)
  · intro hall h hget hload
    exact Segment.exists_ofHeader_iff.2 (hall h ⟨hget, hload⟩)

theorem mem_loadable {p : ProgramHeader × Nat} : p ∈ Plan.loadable t ↔ t.Loads p.2 p.1 := by
  rw [loadable_eq_loadableAt, mem_loadableAt, List.mem_range]
  constructor
  · rintro ⟨-, hget, hload⟩
    exact ⟨hget, hload⟩
  · intro hl
    exact ⟨hl.lt_count, hl.1, hl.2⟩

/-- The loadable entries stand in table order. -/
theorem pairwise_loadable (t : Table) : (Plan.loadable t).Pairwise fun p q => p.2 < q.2 := by
  rw [loadable_eq_loadableAt, loadableAt]
  apply List.Pairwise.filter
  rw [List.pairwise_filterMap]
  refine List.pairwise_lt_range.imp ?_
  intro i j hij p hp q hq
  rw [Option.map_eq_some_iff] at hp hq
  obtain ⟨_, -, rfl⟩ := hp
  obtain ⟨_, -, rfl⟩ := hq
  exact hij

/-- The fields of a 32-bit program header are 32-bit numbers. -/
theorem fields_lt (hw : t.width = .bits32) (hget : t.get? i = some h) :
    h.offset.toNat < 0x100000000 ∧ h.fileSize.toNat < 0x100000000 ∧
      h.memorySize.toNat < 0x100000000 ∧ h.physicalAddress.toNat < 0x100000000 := by
  have hi := lt_count_of_get? hget
  rw [get?, if_pos hi, hw] at hget
  obtain ⟨p, -, rfl⟩ := Option.map_eq_some_iff.1 hget
  have hwide : ∀ x : UInt32, x.toUInt64.toNat < 0x100000000 := fun x => x.toNat_lt
  exact ⟨hwide _, hwide _, hwide _, hwide _⟩

theorem Loads.sound_iff_of_bits32 (hl : t.Loads i h) (hw : t.width = .bits32) :
    (Segment.ofFields i h).Sound ↔ h.fileSize.toNat ≤ h.memorySize.toNat := by
  obtain ⟨hoffset, hfile, hmemory, haddress⟩ := fields_lt hw hl.1
  constructor
  · intro hs
    exact hs.size_le
  · intro hle
    have hwide : 0x100000000 + 0x100000000 < wordLimit := by decide
    constructor
    case size_le => exact hle
    case file_end =>
      show h.offset.toNat + h.fileSize.toNat < wordLimit
      omega
    case memory_end =>
      show h.physicalAddress.toNat + h.memorySize.toNat < wordLimit
      omega

end Table

/-! ## Plans -/

theorem Load.ending_makePlan {σ : Type} (hd : Handler σ) (t : Table) (s : σ) :
    ending hd (makePlan t) s = (.done (Plan.ofTable t), s, []) := by
  unfold makePlan
  rw [ending_notes_bind]
  rfl

namespace Plan

/-- The plan has one segment for each loadable entry of the table and no other, in table order;
each has its position, the fields of the program header there, and a number of pages. -/
structure Lists (p : Plan) (t : Table) : Prop where
  rising : p.segments.Pairwise fun s s' => s.index < s'.index
  mem_iff : ∀ s, s ∈ p.segments ↔ ∃ h, t.Loads s.index h ∧
    s = ⟨s.index, h.offset.toNat, h.fileSize.toNat, h.memorySize.toNat, h.physicalAddress.toNat⟩
  pageCount : ∀ s ∈ p.segments, ∃ pages, s.pageCount? = some pages

theorem lists_loadable {t : Table} (hall : ∀ i h, t.Loads i h → (Segment.ofFields i h).Sound) :
    Lists ⟨(loadable t).map fun p => Segment.ofFields p.2 p.1⟩ t := by
  have hmem : ∀ s, s ∈ (loadable t).map (fun p => Segment.ofFields p.2 p.1) ↔
      ∃ h, t.Loads s.index h ∧ s = Segment.ofFields s.index h := by
    intro s
    rw [List.mem_map]
    constructor
    · rintro ⟨p, hp, rfl⟩
      exact ⟨p.1, Table.mem_loadable.1 hp, rfl⟩
    · rintro ⟨h, hl, hs⟩
      exact ⟨(h, s.index), Table.mem_loadable.2 hl, hs.symm⟩
  constructor
  case rising =>
    rw [List.pairwise_map]
    exact t.pairwise_loadable
  case mem_iff => exact hmem
  case pageCount =>
    intro s hs
    obtain ⟨h, hl, heq⟩ := (hmem s).1 hs
    rw [heq]
    exact ⟨_, Segment.pageCount?_eq (hall s.index h hl).memory_end⟩

theorem ofTable_of_sound {t : Table} (hall : ∀ i h, t.Loads i h → (Segment.ofFields i h).Sound)
    (hpos : 0 < t.count) :
    ofTable t =
      if loadable t = [] then .error .noLoadableSegments
      else .ok ⟨(loadable t).map fun p => Segment.ofFields p.2 p.1⟩ := by
  have hempty : t.isEmpty = false := beq_false_of_ne (Nat.ne_of_gt hpos)
  rw [ofTable_of_accepts fun i => Table.accepts_iff.2 (hall i), hempty]
  show (if (Load.segmentsOf _).isEmpty = true then _ else _) = _
  simp only [Load.segmentsOf, List.isEmpty_iff, List.map_eq_nil_iff]
  rfl

/-- The loadable entry of least index that is not sound. -/
theorem exists_first_unsound {t : Table}
    (hsome : ∃ i h, t.Loads i h ∧ ¬ (Segment.ofFields i h).Sound) :
    ∃ i h, t.Loads i h ∧ ¬ (Segment.ofFields i h).Sound ∧ ∀ j < i, t.Accepts j := by
  classical
  have hrefused : ∃ i, ¬ t.Accepts i := by
    obtain ⟨i, h, hl, hs⟩ := hsome
    exact ⟨i, fun ha => hs (Table.accepts_iff.1 ha h hl)⟩
  have hfirst := Nat.find_spec hrefused
  have hbefore : ∀ j < Nat.find hrefused, t.Accepts j := by
    intro j hj
    have hnot := Nat.find_min hrefused hj
    exact not_not.1 hnot
  generalize Nat.find hrefused = i at hfirst hbefore
  simp only [Table.accepts_iff, not_forall, exists_prop] at hfirst
  obtain ⟨h, hl, hs⟩ := hfirst
  exact ⟨i, h, hl, hs, hbefore⟩

/-- The loadable entry of least index that is not sound decides, first of all by its size. -/
theorem ofTable_of_unsound {t : Table}
    (hsome : ∃ i h, t.Loads i h ∧ ¬ (Segment.ofFields i h).Sound) :
    ∃ i h, t.Loads i h ∧ ¬ (Segment.ofFields i h).Sound ∧
      (∀ j < i, ∀ h', t.Loads j h' → (Segment.ofFields j h').Sound) ∧
      ofTable t = .error (.invalidParameter
        (if h.memorySize < h.fileSize then .segmentSize i else .segmentOverflow i)) := by
  obtain ⟨i, h, hl, hs, hbefore⟩ := exists_first_unsound hsome
  refine ⟨i, h, hl, hs, fun j hj => Table.accepts_iff.1 (hbefore j hj), ?_⟩
  exact ofTable_of_refused hl.1 hl.2 (Segment.ofHeader_of_not_sound hs) hbefore

theorem ofTable_ne_segmentOverflow {t : Table} (hw : t.width = .bits32) (i : Nat) :
    ofTable t ≠ .error (.invalidParameter (.segmentOverflow i)) := by
  by_cases hzero : t.count = 0
  · simp [ofTable_of_count_eq_zero hzero]
  by_cases hall : ∀ i h, t.Loads i h → (Segment.ofFields i h).Sound
  · rw [ofTable_of_sound hall (Nat.pos_of_ne_zero hzero)]
    split <;> simp
  · simp only [not_forall, exists_prop] at hall
    obtain ⟨j, h, hl, hs, -, heq⟩ := ofTable_of_unsound hall
    rw [hl.sound_iff_of_bits32 hw, Nat.not_le, ← UInt64.lt_iff_toNat_lt] at hs
    simp [heq, hs]

/-- **The plan of a table.**  Making it calls nobody.  A table without entries is refused as such.
Otherwise the loadable entry of least index that is not sound decides, first of all by its size;
without one, and without any loadable entry, nothing is there to load; and in all other cases the
plan lists the loadable entries.  No segment of a 32-bit table is refused for its end. -/
theorem ofTable_exact (t : Table) :
    (∀ {σ : Type} (collaborators : Handler σ) (s : σ),
      Load.ending collaborators (Load.makePlan t) s = (.done (ofTable t), s, [])) ∧
    (t.count = 0 → ofTable t = .error (.invalidParameter .noProgramHeaders)) ∧
    ((∃ i h, t.Loads i h ∧ ¬ (Segment.ofFields i h).Sound) →
      ∃ i h, t.Loads i h ∧ ¬ (Segment.ofFields i h).Sound ∧
        (∀ j < i, ∀ h', t.Loads j h' → (Segment.ofFields j h').Sound) ∧
        ofTable t = .error (.invalidParameter
          (if h.memorySize < h.fileSize then .segmentSize i else .segmentOverflow i))) ∧
    (0 < t.count → (∀ i h, ¬ t.Loads i h) → ofTable t = .error .noLoadableSegments) ∧
    ((∀ i h, t.Loads i h → (Segment.ofFields i h).Sound) → (∃ i h, t.Loads i h) →
      ∃ plan, ofTable t = .ok plan ∧ plan.Lists t) ∧
    (t.width = .bits32 → ∀ i, ofTable t ≠ .error (.invalidParameter (.segmentOverflow i))) := by
  refine ⟨fun hd s => Load.ending_makePlan hd t s, ofTable_of_count_eq_zero, ofTable_of_unsound,
    ?_, ?_, ofTable_ne_segmentOverflow⟩
  · intro hpos hnone
    rw [ofTable_of_sound (fun i h hl => absurd hl (hnone i h)) hpos, if_pos]
    apply List.eq_nil_iff_forall_not_mem.2
    intro p hp
    exact hnone p.2 p.1 (Table.mem_loadable.1 hp)
  · rintro hall ⟨i, h, hl⟩
    have hmem : (h, i) ∈ loadable t := Table.mem_loadable.2 hl
    refine ⟨_, ?_, lists_loadable hall⟩
    rw [ofTable_of_sound hall (Nat.zero_lt_of_lt hl.lt_count), if_neg (List.ne_nil_of_mem hmem)]

/-- A 64-bit table of a note with impossible sizes, a segment that ends past the last address, and
one that has more bytes in the file than in memory. -/
def faultyTable : Table where
  width := .bits64
  stride := 56
  count := 3
  blob :=
    Part.entry { kind := 4, offset := 0, data := [7], memorySize := 0, address := 0 } .bits64 ++
    (Part.entry { offset := 0, data := [], memorySize := 1, address := wordLimit - 1 } .bits64 ++
      Part.entry { offset := 0, data := [7], memorySize := 0, address := 0 } .bits64)
  entrySize_le := Nat.le_refl 56
  length_eq := rfl

/-- Of the faulty table the segment in the middle decides; a sound table of two segments is
listed. -/
theorem ofTable_exact_sample :
    (∃ i h, faultyTable.Loads i h ∧ ¬ (Segment.ofFields i h).Sound ∧
      (∀ j < i, ∀ h', faultyTable.Loads j h' → (Segment.ofFields j h').Sound) ∧
      ofTable faultyTable = .error (.invalidParameter
        (if h.memorySize < h.fileSize then .segmentSize i else .segmentOverflow i))) ∧
    ofTable faultyTable = .error (.invalidParameter (.segmentOverflow 1)) ∧
    ∃ plan, ofTable (Load.pairTable 2) = .ok plan ∧ plan.Lists (Load.pairTable 2) := by
  have hmiddle : faultyTable.get? 1 =
      some ⟨1, .readExec, 0, 0xFFFFFFFFFFFFFFFF, 0xFFFFFFFFFFFFFFFF, 0, 1, 0x1000⟩ := by
    decide +kernel
  have hfirst : (Load.pairTable 2).get? 0 =
      some ⟨1, .readExec, 0, 0x1000, 0x1000, 2, 2, 0x1000⟩ := by decide +kernel
  have hsecond : (Load.pairTable 2).get? 1 =
      some ⟨1, .readExec, 0, 0x2000, 0x2000, 2, 2, 0x1000⟩ := by decide +kernel
  refine ⟨(ofTable_exact faultyTable).2.2.1 ⟨1, _, ⟨hmiddle, rfl⟩, fun hs => ?_⟩,
    by decide +kernel, (ofTable_exact (Load.pairTable 2)).2.2.2.2.1 ?_ ⟨0, _, hfirst, rfl⟩⟩
  · exact absurd hs.memory_end (by decide)
  · intro i h hl
    have hlt : i < 2 := hl.lt_count
    have hcases : i = 0 ∨ i = 1 := by omega
    rcases hcases with rfl | rfl
    · cases hfirst.symm.trans hl.1
      exact ⟨by decide, by decide, by decide⟩
    · cases hsecond.symm.trans hl.1
      exact ⟨by decide, by decide, by decide⟩

end Plan

end ElfBoot
