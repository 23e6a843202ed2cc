import ElfBoot.Load.Headers
import ElfBoot.Proofs.Image.Contents
import ElfBoot.Proofs.Load.Objection
import ElfBoot.Proofs.Memory.Pages

/-!
# What an image is refused for

The objections to an image as such, without regard to where it is to be placed, and that the checks
of a load find exactly these.

* `Segment.Sound`, `Segment.objections`, `Segment.ofHeader_spec` — what is asked of a segment.
* `Plan.objections`, `Plan.ofTable_spec`, `Plan.ofTable_cases` — the plan of a table is its loadable
  segments, all of them sound, or the table is refused for the first objection to it.
* `Image.identityObjections`, `Image.headerObjections`, `Image.tableObjections`,
  `Identity.validate_spec` — the objections to the first sixteen bytes, to the file header and to
  the place of the program header table.
-/

set_option autoImplicit false

namespace ElfBoot

/-! ## Segments -/

namespace Segment

/-- What a segment must satisfy to be placed. -/
structure Sound (s : Segment) : Prop where
  size_le : s.fileSize ≤ s.memorySize
  file_end : s.fileOffset + s.fileSize < wordLimit
  memory_end : s.address + s.memorySize < wordLimit

/-- The objections to a segment as such: it has more bytes in the file than in memory, or it
reaches past the last offset or address. -/
def objections (s : Segment) : List Objection :=
  [⟨s.memorySize < s.fileSize, .invalidParameter (.segmentSize s.index)⟩,
   ⟨wordLimit ≤ s.fileOffset + s.fileSize ∨ wordLimit ≤ s.address + s.memorySize,
     .invalidParameter (.segmentOverflow s.index)⟩]

/-- Pages from the one with the first byte to the one with the last. -/
def pageCount (s : Segment) : Nat := pagesFor (s.address - s.pageBase + s.memorySize)

theorem noneHolds_objections {s : Segment} : Objection.NoneHolds s.objections ↔ s.Sound := by
  simp only [objections, Objection.noneHolds_cons, Objection.noneHolds_nil, and_true, not_or,
    Nat.not_lt, Nat.not_le]
  exact ⟨fun ⟨h, hf, hm⟩ => ⟨h, hf, hm⟩, fun ⟨h, hf, hm⟩ => ⟨h, hf, hm⟩⟩

/-- The distance from the start of a page is no new chance to leave the address space. -/
theorem lead_add_lt {s : Segment} (h : s.address + s.memorySize < wordLimit) :
    s.address - s.pageBase + s.memorySize < wordLimit := by omega

theorem pageCount?_eq {s : Segment} (h : s.address + s.memorySize < wordLimit) :
    s.pageCount? = some s.pageCount := by
  rw [pageCount?, Address.add?, if_pos (lead_add_lt h)]
  rfl

theorem end?_eq {s : Segment} (h : s.address + s.memorySize < wordLimit) :
    s.end? = some (s.address + s.memorySize) := if_pos h

theorem zeroFill?_eq {s : Segment} (h : s.fileSize ≤ s.memorySize) :
    s.zeroFill? = some (s.memorySize - s.fileSize) := if_pos h

theorem pageCount_pos {s : Segment} (h : 0 < s.memorySize) : 0 < s.pageCount := by
  refine Nat.pos_of_ne_zero fun hz => ?_
  have hlen := pagesFor_eq_zero_iff.1 hz
  omega

/-- The pages of a segment hold all of its bytes. -/
theorem le_limit_pages (s : Segment) :
    s.pageBase ≤ s.address ∧
      s.address + s.memorySize ≤ (PageRange.mk s.pageBase s.pageCount).limit := by
  have hbase : s.pageBase ≤ s.address := pageBase_le s.address
  have hlen := le_pagesFor_mul (s.address - s.pageBase + s.memorySize)
  refine ⟨hbase, ?_⟩
  rw [PageRange.limit]
  simp only [Segment.pageCount]
  omega

/-- A program header is taken as a segment exactly when its fields make a sound one; otherwise the
first objection decides. -/
theorem ofHeader_spec (index : Nat) (h : ProgramHeader) :
    match ofHeader index h with
    | .ok s => s = ofFields index h ∧ s.Sound
    | .error e => Objection.Decides (ofFields index h).objections e := by
  by_cases hsize : h.fileSize ≤ h.memorySize
  · have hle : (ofFields index h).fileSize ≤ (ofFields index h).memorySize := hsize
    have hzero : h.zeroFill? ≠ none := by simp [ProgramHeader.zeroFill?, hsize]
    by_cases hends : wordLimit ≤ (ofFields index h).fileOffset + (ofFields index h).fileSize ∨
        wordLimit ≤ (ofFields index h).address + (ofFields index h).memorySize
    · have hno : ofHeader index h = .error (.invalidParameter (.segmentOverflow index)) := by
        rw [ofHeader, if_neg hzero]
        refine if_pos ?_
        rcases hends with hf | hm
        · simp [Address.add?, hf]
        · simp [end?, Address.add?, hm]
      rw [hno]
      exact (Objection.decides_head hends).cons (Nat.not_lt.2 hle)
    · have hends := not_or.1 hends
      have hfile := Nat.lt_of_not_le hends.1
      have hmemory := Nat.lt_of_not_le hends.2
      have hyes : ofHeader index h = .ok (ofFields index h) := by
        rw [ofHeader, if_neg hzero]
        refine if_neg ?_
        rw [end?_eq hmemory, pageCount?_eq hmemory]
        simp [Address.add?, hfile]
      rw [hyes]
      exact ⟨rfl, hle, hfile, hmemory⟩
  · have hno : ofHeader index h = .error (.invalidParameter (.segmentSize index)) := by
      rw [ofHeader]
      exact if_pos (if_neg hsize)
    have hlt : (ofFields index h).memorySize < (ofFields index h).fileSize := Nat.lt_of_not_le hsize
    rw [hno]
    exact Objection.decides_head hlt

end Segment

/-! ## Plans -/

namespace Plan

/-- The objections to a table that has entries, by its loadable segments: those to each segment in
turn, and that there is none. -/
def objections (segments : List Segment) : List Objection :=
  segments.flatMap Segment.objections ++ [⟨segments = [], .noLoadableSegments⟩]

theorem noneHolds_objections {segments : List Segment} :
    Objection.NoneHolds (objections segments) ↔ (∀ s ∈ segments, s.Sound) ∧ segments ≠ [] := by
  unfold objections
  rw [Objection.noneHolds_append, Objection.noneHolds_cons]
  constructor
  · rintro ⟨hall, hne, -⟩
    refine ⟨fun s hs => Segment.noneHolds_objections.1 fun o ho => ?_, hne⟩
    exact hall o (List.mem_flatMap.2 ⟨s, hs, ho⟩)
  · rintro ⟨hsound, hne⟩
    refine ⟨fun o ho => ?_, hne, Objection.noneHolds_nil⟩
    obtain ⟨s, hs, ho⟩ := List.mem_flatMap.1 ho
    exact Segment.noneHolds_objections.2 (hsound s hs) o ho

theorem mapM_ofHeader_spec (entries : List (ProgramHeader × Nat)) :
    match entries.mapM fun p => Segment.ofHeader p.2 p.1 with
    | .ok segments => segments = entries.map (fun p => Segment.ofFields p.2 p.1) ∧
        ∀ s ∈ segments, s.Sound
    | .error e => Objection.Decides
        ((entries.map fun p => Segment.ofFields p.2 p.1).flatMap Segment.objections) e := by
  induction entries with
  | nil => exact ⟨rfl, fun _ h => by cases h⟩
  | cons p rest ih =>
    have hp := Segment.ofHeader_spec p.2 p.1
    rw [List.mapM_cons, List.map_cons, List.flatMap_cons]
    cases hs : Segment.ofHeader p.2 p.1 with
    | error e =>
      rw [hs] at hp
      exact hp.append_right _
    | ok s =>
      rw [hs] at hp
      obtain ⟨rfl, hsound⟩ := hp
      cases hr : rest.mapM fun p => Segment.ofHeader p.2 p.1 with
      | error e =>
        rw [hr] at ih
        exact ih.append_left (Segment.noneHolds_objections.2 hsound)
      | ok segments =>
        rw [hr] at ih
        obtain ⟨rfl, hall⟩ := ih
        exact ⟨rfl, List.forall_mem_cons.2 ⟨hsound, hall⟩⟩

/-- One more segment in a span, if its end is an address. -/
def extendSpan (span : Nat × Nat) (s : Segment) : Nat × Nat :=
  (min span.1 s.address, max span.2 (s.address + s.memorySize))

/-- The ends of sound segments are addresses. -/
theorem foldlM_extendSpan? {segments : List Segment} (hs : ∀ s ∈ segments, s.Sound)
    (span : Nat × Nat) :
    segments.foldlM extendSpan? span = some (segments.foldl extendSpan span) := by
  induction segments generalizing span with
  | nil => rfl
  | cons s rest ih =>
    obtain ⟨hsound, hrest⟩ := List.forall_mem_cons.1 hs
    have hstep : extendSpan? span s = some (extendSpan span s) := by
      unfold extendSpan?
      rw [Segment.end?_eq hsound.memory_end]
      rfl
    rw [List.foldlM_cons, hstep]
    exact ih hrest _

theorem exists_span {segments : List Segment} (hs : ∀ s ∈ segments, s.Sound)
    (span : Nat × Nat) : ∃ span', segments.foldlM extendSpan? span = some span' :=
  ⟨_, foldlM_extendSpan? hs span⟩

theorem ofTable_of_count_eq_zero {t : Table} (h : t.count = 0) :
    ofTable t = .error (.invalidParameter .noProgramHeaders) := by
  rw [ofTable, Table.isEmpty, h]
  rfl

/-- **The plan of a table** is the list of its loadable segments, or the first objection to them
decides. -/
theorem ofTable_spec (t : Table) :
    match ofTable t with
    | .ok plan => 0 < t.count ∧
        plan.segments = loadableIn t.width t.stride t.count t.blob ∧
        Objection.NoneHolds (objections plan.segments)
    | .error e =>
        (t.count = 0 ∧ e = .invalidParameter .noProgramHeaders) ∨
        (0 < t.count ∧
          Objection.Decides (objections (loadableIn t.width t.stride t.count t.blob)) e) := by
  by_cases hc : t.count = 0
  · rw [ofTable_of_count_eq_zero hc]
    exact Or.inl ⟨hc, rfl⟩
  have hpos : 0 < t.count := Nat.pos_of_ne_zero hc
  have hstep : ofTable t =
      ((loadable t).mapM fun p => Segment.ofHeader p.2 p.1) >>= fun segments =>
        if segments.isEmpty then .error .noLoadableSegments else .ok ⟨segments⟩ := by
    rw [ofTable, Table.isEmpty, beq_false_of_ne hc]
    rfl
  have hspec := mapM_ofHeader_spec (loadable t)
  rw [Table.loadable_eq] at hspec
  rw [hstep]
  cases hm : (loadable t).mapM fun p => Segment.ofHeader p.2 p.1 with
  | error e =>
    rw [hm] at hspec
    exact Or.inr ⟨hpos, hspec.append_right _⟩
  | ok segments =>
    rw [hm] at hspec
    obtain ⟨heq, hsound⟩ := hspec
    cases segments with
    | nil =>
      refine Or.inr ⟨hpos, ?_⟩
      rw [← heq]
      exact (Objection.decides_head rfl).append_left Objection.noneHolds_nil
    | cons s rest => exact ⟨hpos, heq, noneHolds_objections.2 ⟨hsound, List.cons_ne_nil s rest⟩⟩

/-- How the plan of a table turns out: the table has no entries, there is no objection to its
segments, or the first objection decides. -/
theorem ofTable_cases (t : Table) :
    (t.count = 0 ∧ ofTable t = .error (.invalidParameter .noProgramHeaders)) ∨
      (0 < t.count ∧ Objection.NoneHolds (objections t.segments) ∧ ofTable t = .ok ⟨t.segments⟩) ∨
      ∃ e, 0 < t.count ∧ Objection.Decides (objections t.segments) e ∧ ofTable t = .error e := by
  have hspec := ofTable_spec t
  cases hplan : ofTable t with
  | ok plan =>
    rw [hplan] at hspec
    obtain ⟨hpos, hsegments, hnone⟩ := hspec
    have hsegments : plan.segments = t.segments := hsegments
    rw [← hsegments]
    exact Or.inr (Or.inl ⟨hpos, hnone, rfl⟩)
  | error e =>
    rw [hplan] at hspec
    rcases hspec with ⟨hzero, rfl⟩ | ⟨hpos, hdecides⟩
    · exact Or.inl ⟨hzero, rfl⟩
    · exact Or.inr (Or.inr ⟨e, hpos, hdecides, rfl⟩)

theorem ofTable_eq_ok {t : Table} (hpos : 0 < t.count)
    (hnone : Objection.NoneHolds (objections t.segments)) : ofTable t = .ok ⟨t.segments⟩ := by
  rcases ofTable_cases t with ⟨hzero, -⟩ | ⟨-, -, heq⟩ | ⟨e, -, hdecides, -⟩
  · omega
  · exact heq
  · exact absurd hnone hdecides.not_noneHolds

theorem ofTable_eq_error {t : Table} {e : LoadError} (hpos : 0 < t.count)
    (hdecides : Objection.Decides (objections t.segments) e) : ofTable t = .error e := by
  rcases ofTable_cases t with ⟨hzero, -⟩ | ⟨-, hnone, -⟩ | ⟨e', -, hdecides', heq⟩
  · omega
  · exact absurd hnone hdecides.not_noneHolds
  · rw [heq, hdecides'.unique hdecides]

end Plan

/-! ## Objections to an image -/

namespace Image

/-- The objections to the identity block. -/
def identityObjections (bs : List UInt8) : List Objection :=
  [⟨bs.length < identitySize, .io (.shortRead identitySize bs.length)⟩,
   ⟨bs.take 4 ≠ Identity.elfMagic, .invalidFormat⟩,
   ⟨bs.getD 4 0 ≠ 1 ∧ bs.getD 4 0 ≠ 2, .unsupportedFormat (bs.getD 4 0)⟩,
   ⟨bs.getD 5 0 ≠ 1, .unsupportedEncoding (bs.getD 5 0)⟩]

/-- The objections to the file header. -/
def headerObjections (bs : List UInt8) : List Objection :=
  [⟨bs.length < (width bs).headerSize, .io (.shortRead (width bs).headerSize bs.length)⟩,
   ⟨phnum bs = 0, .invalidParameter .noProgramHeaders⟩]

/-- The objections to the place and the size of the program header table. -/
def tableObjections (bs : List UInt8) : List Objection :=
  [⟨phentsize bs < (width bs).entrySize,
     .invalidParameter (.entrySize (UInt16.ofNat (phentsize bs)))⟩,
   ⟨maxTableSize < tableSize bs, .invalidParameter (.tableTooLarge (tableSize bs))⟩,
   ⟨bs.length < phoff bs + tableSize bs,
     .io (.shortRead (tableSize bs) (bs.length - phoff bs))⟩]

/-- The objections to an image as such, in the order in which a load looks for them. -/
def objections (bs : List UInt8) : List Objection :=
  identityObjections bs ++ (headerObjections bs ++ (tableObjections bs ++
    Plan.objections (loadable bs)))

theorem plan_of_noneHolds {bs : List UInt8} (h : Objection.NoneHolds (objections bs)) :
    (∀ s ∈ loadable bs, s.Sound) ∧ loadable bs ≠ [] := by
  unfold objections at h
  simp only [Objection.noneHolds_append] at h
  exact Plan.noneHolds_objections.1 h.2.2.2

end Image

theorem Width.ofIdent_eq_none_iff {b : UInt8} : ofIdent b = none ↔ b ≠ 1 ∧ b ≠ 2 := by
  unfold ofIdent
  split
  · simp
  · simp
  · rename_i h1 h2
    exact ⟨fun _ => ⟨h1, h2⟩, fun _ => rfl⟩

/-- The width of an image without objections is the one that byte 4 names. -/
theorem Image.ofIdent_width {bs : List UInt8} (h : Objection.NoneHolds (objections bs)) :
    Width.ofIdent (bs.getD 4 0) = some (width bs) := by
  have hident := (Objection.noneHolds_append.1 h).1
  have hknown : ¬ (bs.getD 4 0 ≠ 1 ∧ bs.getD 4 0 ≠ 2) :=
    hident _ (List.mem_cons_of_mem _ (List.mem_cons_of_mem _ List.mem_cons_self))
  cases hw : Width.ofIdent (bs.getD 4 0) with
  | none => exact absurd (Width.ofIdent_eq_none_iff.1 hw) hknown
  | some w =>
    unfold width
    rw [hw]
    rfl

/-- Of sixteen bytes, only the last three checks are left. -/
theorem Identity.validate_spec (bs : List UInt8) (ident : Identity)
    (h : ident.bytes = bs.take identitySize) :
    match ident.validate with
    | .ok w => Objection.NoneHolds (Image.identityObjections bs).tail ∧ w = Image.width bs
    | .error e => Objection.Decides (Image.identityObjections bs).tail e := by
  have hmagic : ident.magic = bs.take 4 := by
    rw [magic, h, List.take_take]
    rfl
  have hbyte : ∀ i < identitySize, ident.byteAt i = bs.getD i 0 := by
    intro i hi
    rw [byteAt, h, List.getD_eq_getElem?_getD, List.getD_eq_getElem?_getD,
      List.getElem?_take_of_lt hi]
  have hwidth : ident.width = bs.getD 4 0 := hbyte 4 (by decide)
  have hencoding : ident.encoding = bs.getD 5 0 := hbyte 5 (by decide)
  show match ident.validate with
    | .ok w => Objection.NoneHolds [_, _, _] ∧ w = Image.width bs
    | .error e => Objection.Decides [_, _, _] e
  unfold validate
  rw [hmagic, hwidth, hencoding]
  by_cases hm : bs.take 4 ≠ elfMagic
  · rw [if_pos hm]
    exact Objection.decides_head hm
  rw [if_neg hm]
  cases hw : Width.ofIdent (bs.getD 4 0) with
  | none => exact (Objection.decides_head (Width.ofIdent_eq_none_iff.1 hw)).cons hm
  | some w =>
    have hknown : ¬ (bs.getD 4 0 ≠ 1 ∧ bs.getD 4 0 ≠ 2) := by
      intro hno
      rw [Width.ofIdent_eq_none_iff.2 hno] at hw
      cases hw
    dsimp only
    by_cases he : bs.getD 5 0 ≠ littleEndian
    · rw [if_pos he]
      exact ((Objection.decides_head he).cons hknown).cons hm
    · rw [if_neg he]
      refine ⟨?_, by rw [Image.width, hw]; rfl⟩
      exact Objection.noneHolds_cons.2 ⟨hm, Objection.noneHolds_cons.2 ⟨hknown,
        Objection.noneHolds_singleton.2 he⟩⟩

end ElfBoot
