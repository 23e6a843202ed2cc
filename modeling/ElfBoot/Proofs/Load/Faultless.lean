import ElfBoot.Proofs.Load.Checked

/-!
# Loads that never fault

Whatever bytes an image holds, and whatever the collaborators answer, the loading procedures stay
within the values for which their operations are defined.  Each of the checked procedures is the
plain one, because what it checks was made sure of earlier: the number of bytes that a read ends
with, the size of the table, the soundness of every segment in the plan.

* `Load.Checked.readHeaders_eq`, `Load.yields_readHeaders` — a header that was read is long enough
  to decode, and the table behind it is a whole number of entries.
* `Load.Checked.placePlan_eq`, `Load.yields_placePlan` — sound segments have a page count, and
  their ends are addresses.
* `Load.Checked.survey_eq`, `Load.yields_survey` — every segment that a survey finds is sound.
* `Load.never_faults` — no load and no placement of a table ends in a fault.
-/

set_option autoImplicit false

namespace ElfBoot

theorem Segment.Sound.fileSize_lt {s : Segment} (hs : s.Sound) : s.fileSize < wordLimit := by
  have hsize := hs.size_le
  have hend := hs.memory_end
  omega

theorem Table.blob_of_ofBlob? {w : Width} {stride : Nat} {blob : List UInt8} {t : Table}
    (h : ofBlob? w stride blob = some t) : t.blob = blob := (of_ofBlob? h).2.2

namespace Load

/-! ## Headers -/

theorem Checked.readIdentity_eq : readIdentity = Load.readIdentity := by
  unfold readIdentity Load.readIdentity
  refine bind_congr fun _ => bind_congr fun _ => bind_congr fun _ => ?_
  exact read_bind_congr (by decide) fun _ _ => rfl

theorem yields_readIdentity : Yields readIdentity fun _ => True := by
  refine yields_note_bind (yields_ask_bind fun answer => yields_settleIo_bind fun _ => ?_)
  refine ((yields_readExact identitySize).reporting _).bind fun bytes hbytes => ?_
  have hident : Identity.ofBytes? bytes = some ⟨bytes, hbytes⟩ := dif_pos hbytes
  rw [hident]
  exact yields_expect trivial

theorem yields_validateIdentity (ident : Identity) :
    Yields (validateIdentity ident) fun _ => True :=
  yields_notes_bind (yields_check fun _ _ => trivial)

/-- Bytes that make up a whole number of entries are not refused. -/
theorem Checked.table_eq {w : Width} {stride count : Nat} {blob : List UInt8}
    (hs : w.entrySize ≤ stride) (hlen : blob.length = count * stride) :
    table w stride blob = pure ⟨w, stride, count, blob, hs, hlen⟩ := by
  have hpos : 0 < stride := Nat.lt_of_lt_of_le w.entrySize_pos hs
  unfold table
  rw [if_pos hs, Address.rem?, if_neg (Nat.ne_of_gt hpos), Table.ofBlob?_eq hs hlen]
  rfl

theorem tableSize_lt_wordLimit {header : FileHeader} (h : ¬ maxTableSize < header.tableSize) :
    header.tableSize < wordLimit :=
  Nat.lt_of_le_of_lt (Nat.not_lt.1 h) (by decide)

theorem Checked.readTable_eq (w : Width) (header : FileHeader) :
    readTable w header = Load.readTable w header := by
  by_cases hzero : header.phnum = 0
  · unfold readTable Load.readTable
    rw [if_pos hzero, if_pos hzero]
    exact table_eq (Nat.le_refl _) (by simp)
  rw [Load.readTable_eq w header hzero]
  unfold readTable
  rw [if_neg hzero]
  by_cases hentry : header.phentsize.toNat < w.entrySize
  · rw [if_pos hentry, if_pos hentry]
  by_cases hlarge : maxTableSize < header.tableSize
  · rw [if_neg hentry, if_neg hentry, if_pos hlarge, if_pos hlarge]
  rw [if_neg hentry, if_neg hentry, if_neg hlarge, if_neg hlarge]
  refine bind_congr fun _ => bind_congr fun _ => bind_congr fun _ => bind_congr fun _ =>
    bind_congr fun _ => bind_congr fun _ => ?_
  refine read_bind_congr (tableSize_lt_wordLimit hlarge) fun bytes hbytes => ?_
  have hlength : bytes.length = header.phnum.toNat * header.phentsize.toNat :=
    hbytes.trans (Nat.mul_comm _ _)
  rw [table_eq (Nat.not_lt.1 hentry) hlength, Table.ofBlob?_eq (Nat.not_lt.1 hentry) hlength]

theorem yields_readTable (w : Width) (header : FileHeader) :
    Yields (readTable w header) fun t => t.blob.length < wordLimit := by
  by_cases hzero : header.phnum = 0
  · unfold readTable
    rw [if_pos hzero]
    refine yields_pure ?_
    show 0 < wordLimit
    decide
  rw [readTable_eq w header hzero]
  by_cases hentry : header.phentsize.toNat < w.entrySize
  · rw [if_pos hentry]
    exact yields_note_bind (yields_throw _)
  by_cases hlarge : maxTableSize < header.tableSize
  · rw [if_neg hentry, if_pos hlarge]
    exact yields_note_bind (yields_throw _)
  rw [if_neg hentry, if_neg hlarge]
  refine yields_note_bind (yields_ask_bind fun answer => yields_settleIo_bind fun _ => ?_)
  refine yields_note_bind (yields_scratch_bind (yields_note_bind ?_))
  refine ((yields_readExact header.tableSize).reporting _).bind fun bytes hbytes => ?_
  rw [Table.ofBlob?_eq (Nat.not_lt.1 hentry) (hbytes.trans (Nat.mul_comm _ _))]
  refine yields_pure ?_
  show bytes.length < wordLimit
  rw [hbytes]
  exact tableSize_lt_wordLimit hlarge

theorem Checked.readHeaders_eq (w : Width) : readHeaders w = Load.readHeaders (some w) := by
  have hword : w.headerSize < wordLimit := by cases w <;> decide
  unfold readHeaders Load.readHeaders
  simp only [readTable_eq]
  refine bind_congr fun _ => bind_congr fun _ => bind_congr fun _ => bind_congr fun _ =>
    bind_congr fun _ => bind_congr fun _ => ?_
  exact read_bind_congr hword fun _ _ => rfl

theorem yields_readHeaders (w : Width) :
    Yields (readHeaders (some w)) fun headers => headers.table.blob.length < wordLimit := by
  refine yields_note_bind (yields_ask_bind fun answer => yields_settleIo_bind fun _ => ?_)
  refine yields_note_bind (yields_scratch_bind (yields_note_bind ?_))
  refine ((yields_readExact w.headerSize).reporting _).bind fun bytes hbytes => ?_
  obtain ⟨header, hdecode, -⟩ := FileHeader.exists_decode (Nat.le_of_eq hbytes.symm)
  rw [hdecode]
  exact (yields_readTable w header).bind fun t ht => yields_pure ht

/-! ## Placement -/

theorem Checked.copyFromFile_eq {s : Segment} (h : s.fileSize < wordLimit) :
    copyFromFile s = Load.copyFromFile s := by
  unfold copyFromFile Load.copyFromFile
  by_cases hsize : 0 < s.fileSize
  · rw [if_pos hsize, if_pos hsize]
    refine bind_congr fun _ => bind_congr fun _ => bind_congr fun _ => ?_
    exact read_bind_congr h fun _ _ => rfl
  · rw [if_neg hsize, if_neg hsize]

/-- A segment that was checked has a page count when it is placed. -/
theorem Checked.placeSegment_eq {s : Segment} (hs : s.Sound) :
    placeSegment s = Load.placeSegment s := by
  rw [Load.placeSegment_eq (Segment.pageCount?_eq hs.memory_end)]
  unfold placeSegment
  rw [pageCount_eq, Segment.pageCount?_eq hs.memory_end, copyFromFile_eq hs.fileSize_lt]
  rfl

theorem Checked.placeAll_eq {segments : List Segment} (hs : ∀ s ∈ segments, s.Sound) :
    placeAll segments = Load.placeAll segments := by
  induction segments with
  | nil => rfl
  | cons s rest ih =>
    obtain ⟨hsound, hrest⟩ := List.forall_mem_cons.1 hs
    rw [placeAll, Load.placeAll, placeSegment_eq hsound, ih hrest]

theorem Checked.placePlan_eq {p : Plan} (hs : ∀ s ∈ p.segments, s.Sound) :
    placePlan p = Load.placePlan p := by
  rw [placePlan, Load.placePlan, placeAll_eq hs]

theorem yields_reservePages (s : Segment) (pages : Nat) :
    Yields (reservePages s pages) fun _ => True := by
  unfold reservePages
  by_cases hpages : 0 < pages
  · rw [if_pos hpages]
    exact yields_note_bind (yields_ask_bind fun answer => yields_settle)
  · rw [if_neg hpages]
    exact yields_pure trivial

theorem yields_copyFromFile (s : Segment) : Yields (copyFromFile s) fun _ => True := by
  unfold copyFromFile
  by_cases hsize : 0 < s.fileSize
  · rw [if_pos hsize]
    refine yields_note_bind (yields_scratch_bind (yields_note_bind ?_))
    refine ((yields_readExact s.fileSize).reporting _).bind fun bytes _ => ?_
    exact yields_note_bind (yields_ask_bind fun answer => yields_settle)
  · rw [if_neg hsize]
    exact yields_pure trivial

theorem yields_clearRest {s : Segment} (hs : s.Sound) : Yields (clearRest s) fun _ => True := by
  have hstart : Address.add? s.address s.fileSize = some (s.address + s.fileSize) := by
    have hsize := hs.size_le
    have hend := hs.memory_end
    exact Address.add?_eq_some_iff.2 ⟨by omega, rfl⟩
  unfold clearRest
  rw [Segment.zeroFill?_eq hs.size_le, hstart]
  by_cases hrest : 0 < s.memorySize - s.fileSize
  · unfold expect
    rw [pure_bind, if_pos hrest, pure_bind]
    exact yields_note_bind (yields_ask_bind fun answer => yields_settle)
  · unfold expect
    rw [pure_bind, if_neg hrest]
    exact yields_pure trivial

theorem yields_placeSegment {s : Segment} (hs : s.Sound) :
    Yields (placeSegment s) fun _ => True := by
  rw [placeSegment_eq (Segment.pageCount?_eq hs.memory_end)]
  refine yields_note_bind (yields_ask_bind fun answer => yields_settleIo_bind fun _ => ?_)
  refine (yields_reservePages s s.pageCount).bind fun _ _ => ?_
  exact (yields_copyFromFile s).bind fun _ _ => yields_clearRest hs

/-- **Placing checked segments** never faults. -/
theorem yields_placeAll {segments : List Segment} (hs : ∀ s ∈ segments, s.Sound) :
    Yields (placeAll segments) fun _ => True := by
  induction segments with
  | nil => exact yields_pure trivial
  | cons s rest ih =>
    obtain ⟨hsound, hrest⟩ := List.forall_mem_cons.1 hs
    exact (yields_placeSegment hsound).bind fun _ _ => yields_note_bind (ih hrest)

theorem yields_placePlan {p : Plan} (hs : ∀ s ∈ p.segments, s.Sound) :
    Yields (placePlan p) fun _ => True :=
  (yields_placeAll hs).bind fun _ _ => yields_pure trivial

theorem Checked.placeTable_eq {t : Table} (h : t.blob.length < wordLimit) :
    placeTable t = Load.placeTable t := by
  unfold placeTable Load.placeTable
  rw [makePlan_eq h, Table.size?_eq]
  unfold expect
  refine (yields_makePlan t).bind_congr fun plan hs => ?_
  rw [pure_bind, placePlan_eq hs]

theorem yields_placeTable (t : Table) : Yields (placeTable t) fun _ => True :=
  (yields_makePlan t).bind fun _ hs => yields_note_bind (yields_placePlan hs)

/-! ## Loading -/

theorem Checked.survey_eq (path : String) (listing : Bool) :
    survey path listing = Load.survey path listing := by
  unfold survey Load.survey
  simp only [readIdentity_eq, readHeaders_eq]
  refine bind_congr fun _ => bind_congr fun _ => bind_congr fun _ => bind_congr fun _ =>
    bind_congr fun width => bind_congr fun _ => ?_
  refine (yields_readHeaders width).bind_congr fun headers hword => ?_
  simp only [makePlan_eq hword, Table.entriesFrom?_zero hword]
  rfl

theorem yields_survey (path : String) (listing : Bool) :
    Yields (survey path listing) fun found => ∀ s ∈ found.plan.segments, s.Sound := by
  refine yields_note_bind (yields_ask_bind fun answer => yields_settle_bind fun _ => ?_)
  refine yields_readIdentity.bind fun ident _ => ?_
  refine (yields_validateIdentity ident).bind fun width _ => yields_note_bind ?_
  refine (yields_readHeaders width).bind fun headers _ => ?_
  have hplan : Yields (do
      let plan ← makePlan headers.table
      return (⟨width, headers, plan⟩ : Survey)) fun found => ∀ s ∈ found.plan.segments, s.Sound :=
    (yields_makePlan headers.table).bind fun plan hs => yields_pure hs
  cases listing with
  | true => exact yields_notes_bind hplan
  | false => exact hplan

theorem Checked.image_eq (path : String) (listing : Bool) :
    image path listing = Load.image path listing := by
  unfold image Load.image
  rw [survey_eq]
  refine (yields_survey path listing).bind_congr fun found hs => ?_
  rw [placePlan_eq hs]

theorem yields_image (path : String) (listing : Bool) :
    Yields (image path listing) fun _ => True := by
  refine (yields_survey path listing).bind fun found hs => ?_
  refine (yields_placePlan hs).bind fun segments _ => ?_
  obtain ⟨span, hspan⟩ := Plan.exists_span hs (wordLimit - 1, 0)
  have hfound : found.plan.span? = some span := hspan
  rw [hfound]
  refine yields_note_bind (yields_ask_bind fun answer => yields_settleIo_bind fun _ => ?_)
  exact yields_note_bind (yields_pure trivial)

/-- **No image and no table leads to a fault.**  With every operation checked, loading is what it
is without the checks, and a run against collaborators that answer every call does not end in a
fault.  So no slice is out of range, no sum, product or difference leaves the words, and the two
branches for a missing page count and for a table refused after it was read are never taken.  The
same holds of placing any table that is accepted; its bytes are fewer than a word can count. -/
theorem never_faults :
    (∀ (path : String) (listing : Bool),
      Checked.image path listing = image path listing ∧ Faultless (Checked.image path listing)) ∧
    ∀ (w : Width) (stride : Nat) (blob : List UInt8) (t : Table),
      Table.ofBlob? w stride blob = some t → blob.length < wordLimit →
        Checked.placeTable t = placeTable t ∧ Faultless (Checked.placeTable t) := by
  constructor
  · intro path listing
    rw [Checked.image_eq]
    exact ⟨rfl, (yields_image path listing).faultless⟩
  · intro w stride blob t ht hword
    rw [← Table.blob_of_ofBlob? ht] at hword
    rw [Checked.placeTable_eq hword]
    exact ⟨rfl, (yields_placeTable t).faultless⟩

/-- A loadable 32-bit entry whose other fields are as large as they can be. -/
theorem never_faults_sample :
    let blob : List UInt8 := [1, 0, 0, 0] ++ List.replicate 28 0xFF
    ∃ t, Table.ofBlob? .bits32 32 blob = some t ∧ blob.length < wordLimit ∧
      Checked.placeTable t = placeTable t ∧ Faultless (Checked.placeTable t) := by
  intro blob
  have hword : blob.length < wordLimit := by decide
  have haccepted : Table.ofBlob? .bits32 32 blob =
      some ⟨.bits32, 32, 1, blob, by decide, by decide⟩ := Table.ofBlob?_eq _ _
  exact ⟨_, haccepted, hword, never_faults.2 .bits32 32 blob _ haccepted hword⟩

end Load

end ElfBoot
