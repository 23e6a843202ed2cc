import ElfBoot.Proofs.Host.Isolation
import ElfBoot.Proofs.Host.Success

/-!
# The order of segments

Segments are placed in table order, but the order does not matter.  Each of them must fit into the
arena by itself, the pages of no two may meet, and the file must give the bytes of each; none of
this depends on an order.

* `Segment.unindexed`, `Rearranged` — the same segments in another order.
* `Segment.Apart`, `Arena.admitsAll_iff` — when there is room for segments one after another.
* `Arena.Reordered`, `Rearranged.reordered` — what placing them in either order leaves behind.
* `Machine.placeTable_perm` — tables with the same entries.
-/

set_option autoImplicit false

namespace ElfBoot

/-! ## Segments in another order -/

namespace Segment

/-- The segment without its position in the table. -/
def unindexed (s : Segment) : Segment := { s with index := 0 }

theorem sound_unindexed {s : Segment} : s.unindexed.Sound ↔ s.Sound :=
  ⟨fun h => ⟨h.size_le, h.file_end, h.memory_end⟩, fun h => ⟨h.size_le, h.file_end, h.memory_end⟩⟩

end Segment

/-- The same segments in another order. -/
def Rearranged (segments segments' : List Segment) : Prop :=
  (segments.map Segment.unindexed).Perm (segments'.map Segment.unindexed)

namespace Rearranged

variable {segments segments' : List Segment}

theorem symm (h : Rearranged segments segments') : Rearranged segments' segments := List.Perm.symm h

theorem length_eq (h : Rearranged segments segments') : segments'.length = segments.length := by
  have hlength := List.Perm.length_eq h.symm
  rwa [List.length_map, List.length_map] at hlength

theorem exists_mem (h : Rearranged segments segments') {s : Segment} (hs : s ∈ segments) :
    ∃ s' ∈ segments', s'.unindexed = s.unindexed :=
  List.mem_map.1 (h.subset (List.mem_map.2 ⟨s, hs, rfl⟩))

/-- What is asked of each segment, wherever it stands in the table, is asked in any order. -/
theorem forall_iff (h : Rearranged segments segments') {P : Segment → Prop}
    (hP : ∀ s, P s.unindexed ↔ P s) : (∀ s ∈ segments, P s) ↔ ∀ s ∈ segments', P s := by
  have hmap : ∀ l : List Segment, (∀ s ∈ l.map Segment.unindexed, P s) ↔ ∀ s ∈ l, P s := by
    intro l
    rw [List.forall_mem_map]
    exact forall₂_congr fun s _ => hP s
  rw [← hmap segments, ← hmap segments']
  exact forall_congr' fun s => imp_congr_left (List.Perm.mem_iff h)

/-- So is what is asked of every two of them. -/
theorem pairwise_iff (h : Rearranged segments segments') {R : Segment → Segment → Prop}
    (hsymm : ∀ s t, R s t → R t s) (hR : ∀ s t, R s.unindexed t.unindexed ↔ R s t) :
    segments.Pairwise R ↔ segments'.Pairwise R := by
  have hmap : ∀ l : List Segment, (l.map Segment.unindexed).Pairwise R ↔ l.Pairwise R := by
    intro l
    rw [List.pairwise_map]
    exact List.Pairwise.iff hR
  rw [← hmap segments, ← hmap segments']
  exact List.Perm.pairwise_iff (fun {s t} => hsymm s t) h

end Rearranged

/-- The segments of a table, without their positions, are read off its entries one by one. -/
theorem map_unindexed_ofFields (entries : List ProgramHeader) (n : Nat) :
    (((entries.zipIdx n).filter fun p => p.1.isLoad).map fun p =>
        Segment.ofFields p.2 p.1).map Segment.unindexed =
      (entries.filter ProgramHeader.isLoad).map (Segment.ofFields 0) := by
  induction entries generalizing n with
  | nil => rfl
  | cons header rest ih =>
    rw [List.zipIdx_cons, List.filter_cons, List.filter_cons]
    by_cases hload : header.isLoad = true
    · rw [if_pos hload, if_pos hload, List.map_cons, List.map_cons, List.map_cons, ih]
      rfl
    · rw [if_neg hload, if_neg hload, ih]

theorem Table.count_eq_of_perm {t t' : Table} (h : t.entries.Perm t'.entries) :
    t'.count = t.count := by
  rw [← length_entries, ← length_entries, h.length_eq]

/-- Tables with the same entries have the same segments. -/
theorem Table.rearranged_of_perm {t t' : Table} (h : t.entries.Perm t'.entries) :
    Rearranged t.segments t'.segments := by
  unfold Rearranged
  rw [segments_eq, segments_eq, map_unindexed_ofFields, map_unindexed_ofFields]
  exact (h.filter _).map _

/-! ## Plans -/

namespace Plan

theorem noneHolds_objections_iff {segments segments' : List Segment}
    (h : Rearranged segments segments') :
    Objection.NoneHolds (objections segments) ↔ Objection.NoneHolds (objections segments') := by
  have hempty : segments = [] ↔ segments' = [] := by
    rw [← List.length_eq_zero_iff, ← List.length_eq_zero_iff, h.length_eq]
  rw [noneHolds_objections, noneHolds_objections,
    h.forall_iff fun _ => Segment.sound_unindexed]
  exact and_congr_right' (not_congr hempty)

/-- The order of the segments makes no difference to the span. -/
theorem span?_eq_of_rearranged {p p' : Plan} (h : Rearranged p.segments p'.segments)
    (hs : ∀ s ∈ p.segments, s.Sound) : p'.span? = p.span? := by
  have hs' := (h.forall_iff fun _ => Segment.sound_unindexed).1 hs
  have hmap : ∀ l : List Segment, l.foldl extendSpan (wordLimit - 1, 0) =
      (l.map Segment.unindexed).foldl extendSpan (wordLimit - 1, 0) := by
    intro l
    rw [List.foldl_map]
    rfl
  have hcomm : ∀ (span : Nat × Nat) (s t : Segment),
      extendSpan (extendSpan span s) t = extendSpan (extendSpan span t) s := by
    intro span s t
    unfold extendSpan
    rw [Nat.min_right_comm, Nat.max_right_comm]
  unfold span?
  rw [foldlM_extendSpan? hs, foldlM_extendSpan? hs', hmap p.segments, hmap p'.segments,
    List.Perm.foldl_eq' h.symm fun s _ t _ span => hcomm span s t]

/-- **Tables with the same entries** have plans with the same span, or none. -/
theorem exists_span_of_perm {t t' : Table} (hperm : t.entries.Perm t'.entries) {p : Plan}
    (hp : ofTable t = .ok p) :
    ∃ p' span, ofTable t' = .ok p' ∧ p.span? = some span ∧ p'.span? = some span := by
  have hrearranged := Table.rearranged_of_perm hperm
  rcases ofTable_cases t with ⟨-, heq⟩ | ⟨hpos, hnone, heq⟩ | ⟨e, -, -, heq⟩
  · rw [heq] at hp
    cases hp
  · rw [heq] at hp
    cases hp
    have hsound := (noneHolds_objections.1 hnone).1
    obtain ⟨span, hspan⟩ := exists_span hsound (wordLimit - 1, 0)
    have hspan' : (Plan.mk t'.segments).span? = (Plan.mk t.segments).span? :=
      span?_eq_of_rearranged hrearranged hsound
    refine ⟨_, span, ofTable_eq_ok ?_ ?_, hspan, hspan'.trans hspan⟩
    · rw [Table.count_eq_of_perm hperm]
      exact hpos
    · exact (noneHolds_objections_iff hrearranged).1 hnone
  · rw [heq] at hp
    cases hp

end Plan

/-! ## Arenas -/

open Host.Arena (pagesOf)

/-- No page of the one segment is a page of the other. -/
def Segment.Apart (s t : Segment) : Prop :=
  ∀ r ∈ pagesOf s, ∀ q ∈ pagesOf t, ¬ (r.address < q.limit ∧ q.address < r.limit)

theorem Segment.Apart.symm {s t : Segment} (h : s.Apart t) : t.Apart s :=
  fun q hq r hr hmeet => h r hr q hq hmeet.symm

namespace Host

namespace Arena

variable {content : List UInt8} {a : Arena} {segments : List Segment} {s t : Segment}

/-- What is taken once a segment is placed: what was taken before, and its pages. -/
theorem mem_taken_place {q : PageRange} :
    q ∈ (a.place content s).reserved ++ (a.place content s).occupied ↔
      q ∈ a.reserved ++ a.occupied ∨ q ∈ pagesOf s := by
  show q ∈ (a.reserved ++ pagesOf s) ++ a.occupied ↔ _
  simp only [List.mem_append]
  exact or_right_comm

theorem admits_place_iff : (a.place content s).Admits t ↔ a.Admits t ∧ s.Apart t := by
  constructor
  · intro h
    refine ⟨fun q hq => ?_, fun r hr q hq hmeet => ?_⟩
    · have hroom := h q hq
      exact ⟨hroom.base_le, hroom.limit_le,
        fun r hr => hroom.free r (mem_taken_place.2 (Or.inl hr))⟩
    · exact (h q hq).free r (mem_taken_place.2 (Or.inr hr)) hmeet.symm
  · rintro ⟨hadmits, hapart⟩ q hq
    have hroom := hadmits q hq
    refine ⟨hroom.base_le, hroom.limit_le, fun r hr hmeet => ?_⟩
    rcases mem_taken_place.1 hr with hold | hnew
    · exact hroom.free r hold hmeet
    · exact hapart r hnew q hq hmeet.symm

/-- **There is room for segments one after another** exactly if there is room for each of them by
itself and no two of them need the same page. -/
theorem admitsAll_iff :
    AdmitsAll content a segments ↔
      (∀ s ∈ segments, a.Admits s) ∧ segments.Pairwise Segment.Apart := by
  induction segments generalizing a with
  | nil => exact iff_of_true trivial ⟨fun s hs => (by cases hs), List.Pairwise.nil⟩
  | cons s rest ih =>
    have hstep : AdmitsAll content a (s :: rest) ↔
        a.Admits s ∧ AdmitsAll content (a.place content s) rest := Iff.rfl
    rw [hstep, ih, List.forall_mem_cons, List.pairwise_cons]
    constructor
    · rintro ⟨hs, hrest, hapart⟩
      have hboth := fun t ht => admits_place_iff.1 (hrest t ht)
      exact ⟨⟨hs, fun t ht => (hboth t ht).1⟩, fun t ht => (hboth t ht).2, hapart⟩
    · rintro ⟨⟨hs, hrest⟩, hfirst, hapart⟩
      exact ⟨hs, fun t ht => admits_place_iff.2 ⟨hrest t ht, hfirst t ht⟩, hapart⟩

/-- Two arenas that came of a third: they hold the same bytes in the same window, and what was
reserved since is the same, in some order. -/
structure Reordered (a b b' : Arena) : Prop where
  base_eq : b'.base = b.base
  size_eq : b'.size = b.size
  memory_eq : b'.memory = b.memory
  reserved_perm : ∃ new new', b.reserved = a.reserved ++ new ∧ b'.reserved = a.reserved ++ new' ∧
    new'.Perm new

end Arena

end Host

namespace Rearranged

open Host (Arena)

variable {segments segments' : List Segment} {content : List UInt8} {a : Arena}

theorem admitsAll_iff (h : Rearranged segments segments') :
    Arena.AdmitsAll content a segments ↔ Arena.AdmitsAll content a segments' := by
  have hadmits := h.forall_iff (P := a.Admits) fun _ => Iff.rfl
  have hapart := h.pairwise_iff (R := Segment.Apart) (fun _ _ => Segment.Apart.symm)
    fun _ _ => Iff.rfl
  rw [Arena.admitsAll_iff, Arena.admitsAll_iff, hadmits, hapart]

/-- **Placing segments in another order** leaves the same bytes behind: those that the one segment
puts that covers an address, and elsewhere those that were there. -/
theorem byte_placeAll (h : Rearranged segments segments')
    (hsize : ∀ s ∈ segments, s.fileSize ≤ s.memorySize)
    (hadmits : Arena.AdmitsAll content a segments) (x : Nat) :
    (a.placeAll content segments').memory.byte x = (a.placeAll content segments).memory.byte x := by
  have hsize' := (h.forall_iff fun _ => Iff.rfl).1 hsize
  have hadmits' := h.admitsAll_iff.1 hadmits
  by_cases hx : ∃ s ∈ segments, s.Covers x
  · obtain ⟨s, hs, hcovers⟩ := hx
    obtain ⟨s', hs', hsame⟩ := h.exists_mem hs
    have hcovers' : s'.Covers x := by
      show s'.unindexed.Covers x
      rw [hsame]
      exact hcovers
    have hbyte : s'.byteFor content x = s.byteFor content x := by
      show s'.unindexed.byteFor content x = s.unindexed.byteFor content x
      rw [hsame]
    rw [Arena.byte_placeAll_of_covers hsize (Arena.pairwise_covers hadmits) hs hcovers,
      Arena.byte_placeAll_of_covers hsize' (Arena.pairwise_covers hadmits') hs' hcovers', hbyte]
  · have hnone : ∀ s ∈ segments, ¬ s.Covers x := fun s hs hcovers => hx ⟨s, hs, hcovers⟩
    have hnone' := (h.forall_iff fun _ => Iff.rfl).1 hnone
    rw [Arena.byte_placeAll_of_not_covers hsize hnone,
      Arena.byte_placeAll_of_not_covers hsize' hnone']

theorem flatMap_pagesOf (h : Rearranged segments segments') :
    (segments'.flatMap pagesOf).Perm (segments.flatMap pagesOf) := by
  have hmap : ∀ l : List Segment,
      l.flatMap pagesOf = (l.map Segment.unindexed).flatMap pagesOf := by
    intro l
    rw [List.flatMap_map]
    rfl
  rw [hmap segments, hmap segments']
  exact List.Perm.flatMap_right pagesOf h.symm

/-- Arenas in which the same segments were placed in another order. -/
theorem reordered (h : Rearranged segments segments')
    (hsize : ∀ s ∈ segments, s.fileSize ≤ s.memorySize)
    (hadmits : Arena.AdmitsAll content a segments) :
    a.Reordered (a.placeAll content segments) (a.placeAll content segments') := by
  have hwindow := Arena.window_placeAll content a segments
  have hwindow' := Arena.window_placeAll content a segments'
  refine ⟨hwindow'.1.trans hwindow.1.symm, hwindow'.2.trans hwindow.2.symm, ?_, ?_⟩
  · exact AddressSpace.ext (h.byte_placeAll hsize hadmits)
  · exact ⟨_, _, Arena.reserved_placeAll content a segments,
      Arena.reserved_placeAll content a segments', h.flatMap_pagesOf⟩

end Rearranged

/-! ## Tables -/

namespace Host

/-- Attempts on an arena without reservations leave it tidy. -/
theorem Attempt.tidy_of_all? {a₀ a : Arena} (hwindow : a₀.base + a₀.size < wordLimit)
    (hoccupied : ∀ q ∈ a₀.occupied, q.limit < wordLimit) (hreserved : a₀.reserved = [])
    {earlier : List Attempt} {es : List Event} (hall : all? earlier a₀ = some (es, a)) :
    a.Tidy := by
  obtain ⟨es', a', hall', hcontained, hplayed⟩ := all?_spec earlier a₀
  rw [hall] at hall'
  cases hall'
  exact (a₀.since_nil.played (Arena.tidy_of_reserved_nil hwindow hoccupied hreserved) hplayed
    hcontained).2

theorem File.provides_unindexed {f : File} {grants : Nat → Bool} {s : Segment} :
    f.Provides grants s.unindexed ↔ f.Provides grants s :=
  ⟨fun h => ⟨h.seek, h.bytes⟩, fun h => ⟨h.seek, h.bytes⟩⟩

namespace Machine

/-- The machine with an arena for its memory. -/
def onArena (m : Machine) (a : Arena) : Machine := { m with memory := { arena := some a } }

/-- **Tables with the same entries in another order** have plans with the same span.  On an arena
that was used before, placing the one succeeds exactly if placing the other does, whatever the file
was made to fail at.  Then both place equally many segments, leave the same bytes behind, and
reserve the same ranges up to order. -/
theorem placeTable_perm {a₀ a : Arena} (hwindow : a₀.base + a₀.size < wordLimit)
    (hoccupied : ∀ q ∈ a₀.occupied, q.limit < wordLimit) (hreserved : a₀.reserved = [])
    {earlier : List Attempt} {es : List Event}
    (hreached : Attempt.all? earlier a₀ = some (es, a)) {m : Machine} {f : File}
    (hfile : m.file = some f) {t t' : Table} (hperm : t.entries.Perm t'.entries) :
    let run := (m.onArena a).run (Load.placeTable t)
    let run' := (m.onArena a).run (Load.placeTable t')
    (∀ p, Plan.ofTable t = .ok p → ∃ p' span, Plan.ofTable t' = .ok p' ∧
        p.span? = some span ∧ p'.span? = some span) ∧
      ((∃ n, run.outcome = .done (.ok n)) ↔ ∃ n, run'.outcome = .done (.ok n)) ∧
      ∀ n n', run.outcome = .done (.ok n) → run'.outcome = .done (.ok n') →
        n' = n ∧ (∃ p, Plan.ofTable t = .ok p) ∧
        ∃ b b', run.state.memory.arena = some b ∧ run'.state.memory.arena = some b' ∧
          a.Reordered b b' := by
  have hb := (Attempt.tidy_of_all? hwindow hoccupied hreserved hreached).bounded
  have hm : (m.onArena a).Holds (f.at f.position) a m.grantsScratch := ⟨hfile, rfl, rfl, rfl⟩
  have hleft := hm.placeTable (t := t) hb
  have hright := hm.placeTable (t := t') hb
  -- what either run hinges on is the same
  have hsegments := Table.rearranged_of_perm hperm
  have hprovides := hsegments.forall_iff (P := f.Provides m.grantsScratch) fun _ =>
    File.provides_unindexed
  rw [Table.count_eq_of_perm hperm, ← Plan.noneHolds_objections_iff hsegments,
    ← hsegments.admitsAll_iff, ← hprovides] at hright
  refine ⟨fun p => Plan.exists_span_of_perm hperm,
    hleft.exists_value_iff.trans hright.exists_value_iff.symm, fun n n' hrun hrun' => ?_⟩
  obtain ⟨⟨⟨hpos, hnone⟩, hadmits, -⟩, rfl, p, hlast⟩ := hleft.of_outcome hrun
  obtain ⟨-, rfl, p', hlast'⟩ := hright.of_outcome hrun'
  have hsound := (Plan.noneHolds_objections.1 hnone).1
  refine ⟨hsegments.length_eq, ⟨_, Plan.ofTable_eq_ok hpos hnone⟩, _, _, hlast.arena,
    hlast'.arena, ?_⟩
  exact hsegments.reordered (fun s hs => (hsound s hs).size_le) hadmits

/-- A segment of five bytes, two of which are in the file. -/
def smallHeader (offset address : UInt32) : RawProgramHeader UInt32 :=
  ⟨1, .readExec, offset, 0, address, 2, 5, 0⟩

/-- A table of two program headers. -/
def twoEntries (first second : RawProgramHeader UInt32) : Table :=
  (Table.ofBlob? .bits32 32 (first.encode32 ++ second.encode32)).getD (.empty .bits32)

/-- A machine with a file of eight bytes, from the end of which it cannot read. -/
def readerMachine : Machine where
  file := some
    { content := [1, 2, 3, 4, 5, 6, 7, 8]
      traits := { chunk := some 1, failRead := some 8 }
      position := 3 }

/-- An arena of four pages, of which a load has reserved the first one. -/
def usedArena : Arena :=
  ((Attempt.all? [Attempt.sampleLoad] (Arena.fresh 0x1000 0x4000)).getD
    ([], Arena.fresh 0x1000 0x4000)).2

theorem placeTable_perm_sample :
    let t := twoEntries (smallHeader 6 0x2002) (smallHeader 1 0x3FFE)
    let t' := twoEntries (smallHeader 1 0x3FFE) (smallHeader 6 0x2002)
    let run := (readerMachine.onArena usedArena).run (Load.placeTable t)
    let run' := (readerMachine.onArena usedArena).run (Load.placeTable t')
    (usedArena.reserved = [⟨0x1000, 1⟩] ∧ run.outcome = .done (.ok 2)) ∧
      (∀ p, Plan.ofTable t = .ok p → ∃ p' span, Plan.ofTable t' = .ok p' ∧
        p.span? = some span ∧ p'.span? = some span) ∧
      ((∃ n, run.outcome = .done (.ok n)) ↔ ∃ n, run'.outcome = .done (.ok n)) ∧
      ∀ n n', run.outcome = .done (.ok n) → run'.outcome = .done (.ok n') →
        n' = n ∧ (∃ p, Plan.ofTable t = .ok p) ∧
        ∃ b b', run.state.memory.arena = some b ∧ run'.state.memory.arena = some b' ∧
          usedArena.Reordered b b' := by
  obtain ⟨es, a, hall, -⟩ :=
    Attempt.all?_spec [Attempt.sampleLoad] (Arena.fresh 0x1000 0x4000)
  have hreached : Attempt.all? [Attempt.sampleLoad] (Arena.fresh 0x1000 0x4000) =
      some (es, usedArena) := by
    unfold usedArena
    rw [hall]
    rfl
  have hoccupied : ∀ q ∈ (Arena.fresh 0x1000 0x4000).occupied, q.limit < wordLimit := by
    intro q hq
    cases hq
  have hforth : (twoEntries (smallHeader 6 0x2002) (smallHeader 1 0x3FFE)).entries =
      [⟨1, .readExec, 6, 0, 0x2002, 2, 5, 0⟩, ⟨1, .readExec, 1, 0, 0x3FFE, 2, 5, 0⟩] := by
    decide +kernel
  have hback : (twoEntries (smallHeader 1 0x3FFE) (smallHeader 6 0x2002)).entries =
      [⟨1, .readExec, 1, 0, 0x3FFE, 2, 5, 0⟩, ⟨1, .readExec, 6, 0, 0x2002, 2, 5, 0⟩] := by
    decide +kernel
  have hperm : (twoEntries (smallHeader 6 0x2002) (smallHeader 1 0x3FFE)).entries.Perm
      (twoEntries (smallHeader 1 0x3FFE) (smallHeader 6 0x2002)).entries := by
    rw [hforth, hback]
    exact List.Perm.swap _ _ []
  exact ⟨⟨by decide +kernel, by decide +kernel⟩,
    placeTable_perm (by decide) hoccupied rfl hreached rfl hperm⟩

end Machine

end Host

end ElfBoot
