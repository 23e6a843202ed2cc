import Mathlib.Data.Nat.Find
import ElfBoot.Host.Machine
import ElfBoot.Image.Builder
import ElfBoot.Load.OnePass
import ElfBoot.Proofs.Image.Contents
import ElfBoot.Proofs.Load.Refusal
import ElfBoot.Proofs.Program.SideBySide

/-!
# Two phases and one pass

Placing a table first makes a plan and then places it; the plainest way is to walk the table once
and to place each loadable entry when it is met.  No collaborators can tell the two apart as long as
every loadable entry is accepted.  Otherwise the first one that is not decides before any call.

* `Load.SameRuns` — two loads that end alike and make the same calls on all collaborators; it is
  kept by sequencing.
* `Load.placeEntries_sameRuns` — walking some entries comes to placing the loadable ones in order.
* `Table.Accepts`, `Plan.ofTable_of_accepts`, `Plan.ofTable_of_refused` — the plan of a table, by
  what becomes of each of its entries.
* `Load.placeTable_onePass` — placing a table in two phases and in one pass.
-/

set_option autoImplicit false

namespace ElfBoot

variable {α β : Type}

/-! ## Loads with the same runs -/

namespace Load

/-- On all collaborators and from every state, both loads end the same way, leave the same state and
make the same calls with the same answers.  What they report may differ. -/
def SameRuns (p q : Load α) : Prop :=
  ∀ (σ : Type) (h : Handler σ) (s : σ), ending h p s = ending h q s

namespace SameRuns

theorem refl (p : Load α) : SameRuns p p := fun _ _ _ => rfl

theorem trans {p q r : Load α} (hpq : SameRuns p q) (hqr : SameRuns q r) : SameRuns p r :=
  fun σ h s => (hpq σ h s).trans (hqr σ h s)

theorem symm {p q : Load α} (h : SameRuns p q) : SameRuns q p := fun σ hd s => (h σ hd s).symm

/-- What follows may be replaced. -/
theorem bind_right (p : Load β) {f g : β → Load α} (hfg : ∀ b, SameRuns (f b) (g b)) :
    SameRuns (p >>= f) (p >>= g) := by
  intro σ h s
  rw [ending_bind, ending_bind]
  rcases ending h p s with ⟨(e | b) | _, s', es⟩
  · rfl
  · exact congrArg (withEvents es) (hfg b σ h s')
  · rfl

/-- What comes first may be replaced. -/
theorem bind_left {p q : Load β} (hpq : SameRuns p q) (f : β → Load α) :
    SameRuns (p >>= f) (q >>= f) := by
  intro σ h s
  rw [ending_bind, ending_bind, hpq σ h s]

end SameRuns

/-- A report may be left out. -/
theorem note_bind_sameRuns (n : Notice) (f : Unit → Load α) : SameRuns (note n >>= f) (f ()) :=
  fun _ h s => ending_note_bind h s n f

theorem notes_bind_sameRuns (ns : List Notice) (f : Unit → Load α) :
    SameRuns (notes ns >>= f) (f ()) :=
  fun _ h s => ending_notes_bind h s ns f

/-! ## Walking entries -/

/-- The segments of the loadable ones among some entries, unchecked. -/
def segmentsOf (entries : List (ProgramHeader × Nat)) : List Segment :=
  (entries.filter fun p => p.1.isLoad).map fun p => Segment.ofFields p.2 p.1

/-- Walking some entries comes to placing the segments of the loadable ones in order. -/
theorem placeEntries_sameRuns (placed : Nat) (entries : List (ProgramHeader × Nat)) :
    SameRuns (placeEntries placed entries)
      (placeAll (segmentsOf entries) >>= fun _ => pure (placed + (segmentsOf entries).length)) := by
  induction entries generalizing placed with
  | nil => exact SameRuns.refl _
  | cons entry rest ih =>
    obtain ⟨h, index⟩ := entry
    unfold placeEntries segmentsOf
    rw [List.filter_cons]
    by_cases hload : h.isLoad = true
    · rw [if_pos hload, if_pos hload, List.map_cons, List.length_cons]
      unfold placeAll
      rw [bind_assoc]
      apply SameRuns.bind_right
      intro _
      rw [bind_assoc]
      have hcount : placed + ((segmentsOf rest).length + 1) =
          placed + 1 + (segmentsOf rest).length := by omega
      refine SameRuns.trans ?_ (note_bind_sameRuns _ _).symm
      show SameRuns _ (placeAll (segmentsOf rest) >>= fun _ =>
        pure (placed + ((segmentsOf rest).length + 1)))
      rw [hcount]
      exact ih (placed + 1)
    · rw [if_neg hload, if_neg hload]
      exact ih placed

end Load

/-! ## Entries that are accepted -/

/-- The entry at a position, if there is one that is to be placed, is accepted as a segment. -/
def Table.Accepts (t : Table) (i : Nat) : Prop :=
  ∀ h, t.get? i = some h → h.isLoad = true → ∃ g, Segment.ofHeader i h = .ok g

/-- The loadable entries at the positions of a list, each with its position. -/
def Table.loadableAt (t : Table) (positions : List Nat) : List (ProgramHeader × Nat) :=
  (positions.filterMap fun i => (t.get? i).map fun h => (h, i)).filter fun p => p.1.isLoad

theorem Table.loadable_eq_loadableAt (t : Table) :
    Plan.loadable t = t.loadableAt (List.range t.count) := by
  rw [Plan.loadable, entries_zipIdx]
  rfl

theorem Table.mem_loadableAt {t : Table} {positions : List Nat} {p : ProgramHeader × Nat} :
    p ∈ t.loadableAt positions ↔ p.2 ∈ positions ∧ t.get? p.2 = some p.1 ∧ p.1.isLoad = true := by
  obtain ⟨h, i⟩ := p
  simp only [loadableAt, List.mem_filter, List.mem_filterMap, Option.map_eq_some_iff,
    Prod.mk.injEq]
  constructor
  · rintro ⟨⟨j, hj, h', hget, rfl, rfl⟩, hload⟩
    exact ⟨hj, hget, hload⟩
  · rintro ⟨hi, hget, hload⟩
    exact ⟨⟨i, hi, h, hget, rfl, rfl⟩, hload⟩

/-- The loadable entries before a loadable one, that one, and those behind it. -/
theorem Table.loadable_eq_append {t : Table} {i : Nat} {h : ProgramHeader}
    (hget : t.get? i = some h) (hload : h.isLoad = true) :
    ∃ after, Plan.loadable t = t.loadableAt (List.range i) ++ (h, i) :: after := by
  have hlt := lt_count_of_get? hget
  have hsplit : List.range t.count =
      List.range i ++ i :: List.range' (i + 1) (t.count - (i + 1)) := by
    have happend := @List.range'_append_1 0 i (t.count - i)
    have hcount : i + (t.count - i) = t.count := by omega
    have hrest : t.count - i = t.count - (i + 1) + 1 := by omega
    rw [Nat.zero_add, hcount, hrest, List.range'_succ] at happend
    rw [List.range_eq_range', List.range_eq_range', happend]
  refine ⟨t.loadableAt (List.range' (i + 1) (t.count - (i + 1))), ?_⟩
  rw [loadable_eq_loadableAt, hsplit]
  unfold loadableAt
  rw [List.filterMap_append, List.filter_append, List.filterMap_cons, hget]
  simp only [Option.map_some, List.filter_cons, hload, if_true]

namespace Plan

theorem mapM_of_accepted {entries : List (ProgramHeader × Nat)}
    (h : ∀ p ∈ entries, ∃ g, Segment.ofHeader p.2 p.1 = .ok g) :
    (entries.mapM fun p => Segment.ofHeader p.2 p.1) =
      .ok (entries.map fun p => Segment.ofFields p.2 p.1) := by
  induction entries with
  | nil => rfl
  | cons p rest ih =>
    obtain ⟨⟨g, hg⟩, hrest⟩ := List.forall_mem_cons.1 h
    have hspec := Segment.ofHeader_spec p.2 p.1
    rw [hg] at hspec
    rw [List.mapM_cons, hg, ih hrest, hspec.1]
    rfl

/-- The first entry that is refused decides. -/
theorem mapM_of_refused {before after : List (ProgramHeader × Nat)} {p : ProgramHeader × Nat}
    {e : LoadError} (h : ∀ q ∈ before, ∃ g, Segment.ofHeader q.2 q.1 = .ok g)
    (he : Segment.ofHeader p.2 p.1 = .error e) :
    ((before ++ p :: after).mapM fun q => Segment.ofHeader q.2 q.1) = .error e := by
  rw [List.mapM_append, mapM_of_accepted h, List.mapM_cons, he]
  rfl

/-- The plan of a table whose loadable entries are all accepted. -/
theorem ofTable_of_accepts {t : Table} (h : ∀ i, t.Accepts i) :
    ofTable t =
      if t.isEmpty then .error (.invalidParameter .noProgramHeaders)
      else if (Load.segmentsOf t.entries.zipIdx).isEmpty then .error .noLoadableSegments
      else .ok ⟨Load.segmentsOf t.entries.zipIdx⟩ := by
  have hall : ∀ p ∈ loadable t, ∃ g, Segment.ofHeader p.2 p.1 = .ok g := by
    intro p hp
    rw [Table.loadable_eq_loadableAt, Table.mem_loadableAt] at hp
    exact h p.2 p.1 hp.2.1 hp.2.2
  unfold ofTable
  rw [mapM_of_accepted hall]
  rfl

/-- The plan of a table with an entry that is refused, where those before it are accepted. -/
theorem ofTable_of_refused {t : Table} {i : Nat} {h : ProgramHeader} {e : LoadError}
    (hget : t.get? i = some h) (hload : h.isLoad = true) (he : Segment.ofHeader i h = .error e)
    (hbefore : ∀ j < i, t.Accepts j) : ofTable t = .error e := by
  have hpos : t.isEmpty = false := by
    have hlt := Table.lt_count_of_get? hget
    exact beq_false_of_ne (by omega)
  have hall : ∀ p ∈ t.loadableAt (List.range i), ∃ g, Segment.ofHeader p.2 p.1 = .ok g := by
    intro p hp
    rw [Table.mem_loadableAt] at hp
    exact hbefore p.2 (List.mem_range.1 hp.1) p.1 hp.2.1 hp.2.2
  obtain ⟨after, hsplit⟩ := Table.loadable_eq_append hget hload
  unfold ofTable
  rw [hpos, hsplit, mapM_of_refused (p := (h, i)) hall he]
  rfl

end Plan

/-! ## Placing a table -/

namespace Load

theorem placeTable_sameRuns (t : Table) :
    SameRuns (placeTable t) (check (Plan.ofTable t) >>= placePlan) := by
  unfold placeTable makePlan
  rw [bind_assoc]
  refine SameRuns.trans (notes_bind_sameRuns _ _) ?_
  exact SameRuns.bind_right _ fun plan => note_bind_sameRuns _ _

/-- A table whose loadable entries are all accepted is placed as in one pass. -/
theorem placeTable_sameRuns_onePass {t : Table} (h : ∀ i, t.Accepts i) :
    SameRuns (placeTable t) (placeTableOnePass t) := by
  refine (placeTable_sameRuns t).trans ?_
  rw [Plan.ofTable_of_accepts h]
  unfold placeTableOnePass
  cases hempty : t.isEmpty with
  | true => exact SameRuns.refl _
  | false =>
    have hwalk := placeEntries_sameRuns 0 t.entries.zipIdx
    rw [Nat.zero_add] at hwalk
    -- the count at the end tells whether there was a segment
    refine SameRuns.trans ?_ (SameRuns.bind_left hwalk _).symm
    cases hsegments : segmentsOf t.entries.zipIdx with
    | nil => exact SameRuns.refl _
    | cons g rest =>
      rw [bind_assoc]
      exact SameRuns.refl _

/-- **Placing a table in two phases and in one pass**: if every loadable entry is accepted, the run
ends the same way, with the same calls; if one is refused, no call is made and the error is that of
the first such entry. -/
theorem placeTable_onePass {σ : Type} (h : Handler σ) (t : Table) (s : σ) :
    ((∀ i, t.Accepts i) → ending h (placeTable t) s = ending h (placeTableOnePass t) s) ∧
    ((∃ i, ¬ t.Accepts i) → ∃ i header e, t.get? i = some header ∧ header.isLoad = true ∧
      Segment.ofHeader i header = .error e ∧ (∀ j < i, t.Accepts j) ∧
      ending h (placeTable t) s = (.done (.error e), s, [])) := by
  constructor
  · intro hall
    exact placeTable_sameRuns_onePass hall σ h s
  · intro hsome
    classical
    -- of the positions with a refused entry, the first one
    have hfirst := Nat.find_spec hsome
    have hbefore : ∀ j < Nat.find hsome, t.Accepts j := by
      intro j hj
      have hnot := Nat.find_min hsome hj
      exact not_not.1 hnot
    generalize Nat.find hsome = i at hfirst hbefore
    obtain ⟨header, hfirst⟩ := not_forall.1 hfirst
    obtain ⟨hget, hfirst⟩ := Classical.not_imp.1 hfirst
    obtain ⟨hload, hrefused⟩ := Classical.not_imp.1 hfirst
    cases he : Segment.ofHeader i header with
    | ok g => exact absurd ⟨g, he⟩ hrefused
    | error e =>
      refine ⟨i, header, e, hget, hload, he, hbefore, ?_⟩
      rw [placeTable_sameRuns t σ h s, Plan.ofTable_of_refused hget hload he hbefore]
      rfl

/-- A 32-bit table of two segments with two bytes each from the file, the second one with some size
in memory. -/
def pairTable (memorySize : Nat) : Table where
  width := .bits32
  stride := 32
  count := 2
  blob := Part.entry { offset := 0, data := [7, 8], memorySize := 2, address := 0x1000 } .bits32 ++
    Part.entry { offset := 0, data := [7, 8], memorySize, address := 0x2000 } .bits32
  entrySize_le := Nat.le_refl 32
  length_eq := rfl

/-- With two bytes in memory the second segment is accepted and both ways place it; with one byte it
is refused, and the first segment, which is sound, is not placed either. -/
theorem placeTable_onePass_sample :
    let machine : Host.Machine :=
      { file := some { content := [7, 8] }
        memory := { arena := some (.fresh 0x1000 0x2000) } }
    ending Host.Machine.handler (placeTable (pairTable 2)) machine =
        ending Host.Machine.handler (placeTableOnePass (pairTable 2)) machine ∧
      ∃ i header e, (pairTable 1).get? i = some header ∧ header.isLoad = true ∧
        Segment.ofHeader i header = .error e ∧ (∀ j < i, (pairTable 1).Accepts j) ∧
        ending Host.Machine.handler (placeTable (pairTable 1)) machine =
          (.done (.error e), machine, []) := by
  intro machine
  have hfirst : (pairTable 2).get? 0 =
      some ⟨1, .readExec, 0, 0x1000, 0x1000, 2, 2, 0x1000⟩ := by decide +kernel
  have hsecond : (pairTable 2).get? 1 =
      some ⟨1, .readExec, 0, 0x2000, 0x2000, 2, 2, 0x1000⟩ := by decide +kernel
  have hshort : (pairTable 1).get? 1 =
      some ⟨1, .readExec, 0, 0x2000, 0x2000, 2, 1, 0x1000⟩ := by decide +kernel
  constructor
  · refine (placeTable_onePass Host.Machine.handler (pairTable 2) machine).1 fun i h hget _ => ?_
    have hlt : i < 2 := Table.lt_count_of_get? hget
    have hcases : i = 0 ∨ i = 1 := by omega
    rcases hcases with rfl | rfl
    · cases hfirst.symm.trans hget
      exact ⟨_, rfl⟩
    · cases hsecond.symm.trans hget
      exact ⟨_, rfl⟩
  · refine (placeTable_onePass Host.Machine.handler (pairTable 1) machine).2 ⟨1, fun hall => ?_⟩
    obtain ⟨g, hg⟩ := hall _ hshort rfl
    cases hg

end Load

end ElfBoot
