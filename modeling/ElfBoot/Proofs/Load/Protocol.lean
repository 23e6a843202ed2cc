import ElfBoot.Proofs.Load.Refusal
import ElfBoot.Proofs.Load.Steps
import ElfBoot.Proofs.Program.Conversation

/-!
# The conversation of a load

Which calls a load makes, in which order, if none of them fails, and that a load with collaborators
of any kind makes these calls up to the first one that does.

* `Segment.Talk`, `PlacingTalk` — the calls that place a segment, and a list of them.
* `TableTalk`, `HeaderTalk`, `IdentityTalk`, `ImageTalk` — the conversation of a load from the
  program header table on, from the file header on, from the identity block on, and all of it.
* `Load.conforms_placeAll_bind`, `Load.conforms_header`, `Load.conforms_identity` — the parts of a
  load conform to theirs.
* `Load.conforms_image` — a load conforms to its conversation.
* `Load.conforms_placeTable` — so does the placement of a table by itself.
-/

set_option autoImplicit false

namespace ElfBoot

/-! ## Conversations -/

namespace Segment

def reserving (s : Segment) : List Event :=
  if 0 < s.pageCount then [⟨.reserve s.pageBase s.pageCount, .ok ()⟩] else []

def Copying (s : Segment) (es : List Event) : Prop :=
  if 0 < s.fileSize then
    ∃ bytes reads, Fills s.fileSize bytes reads ∧
      es = ⟨.scratch s.fileSize, true⟩ :: (reads ++ [⟨.write s.address bytes, .ok ()⟩])
  else es = []

def clearing (s : Segment) : List Event :=
  if 0 < s.memorySize - s.fileSize then
    [⟨.zero (s.address + s.fileSize) (s.memorySize - s.fileSize), .ok ()⟩]
  else []

/-- The calls that place a segment. -/
def Talk (s : Segment) (es : List Event) : Prop :=
  ∃ copying, s.Copying copying ∧
    es = ⟨.seek s.fileOffset, .ok ()⟩ :: (s.reserving ++ (copying ++ s.clearing))

end Segment

/-- The calls that place segments one after another. -/
inductive PlacingTalk : List Segment → List Event → Prop
  | nil : PlacingTalk [] []
  | cons {s : Segment} {rest : List Segment} {es es' : List Event} (h : s.Talk es)
      (hrest : PlacingTalk rest es') : PlacingTalk (s :: rest) (es ++ es')

/-- A conversation that goes on if there is no objection, and is over if there is one. -/
def Unless (os : List Objection) (go : List Event → Option LoadError → Prop) (es : List Event)
    (refusal : Option LoadError) : Prop :=
  (Objection.NoneHolds os ∧ go es refusal) ∨
    (es = [] ∧ ∃ e, Objection.Decides os e ∧ refusal = some e)

/-- The conversation once the segments to place are known. -/
def TableTalk (segments : List Segment) : List Event → Option LoadError → Prop :=
  Unless (Plan.objections segments) fun es refusal =>
    ∃ placing, PlacingTalk segments placing ∧ es = placing ++ [⟨.close, .ok ()⟩] ∧ refusal = none

/-- The objections to a file header whose bytes were read. -/
def headerRefusals (w : Width) (header : List UInt8) : List Objection :=
  let count := (Field.phnum w).read header
  let stride := (Field.phentsize w).read header
  [⟨count = 0, .invalidParameter .noProgramHeaders⟩,
   ⟨stride < w.entrySize, .invalidParameter (.entrySize (UInt16.ofNat stride))⟩,
   ⟨maxTableSize < stride * count, .invalidParameter (.tableTooLarge (stride * count))⟩]

/-- The conversation once the bytes of the file header are known. -/
def HeaderTalk (w : Width) (header : List UInt8) : List Event → Option LoadError → Prop :=
  let count := (Field.phnum w).read header
  let stride := (Field.phentsize w).read header
  Unless (headerRefusals w header) fun es refusal =>
    ∃ table reads rest, Fills (stride * count) table reads ∧
      es = ⟨.seek ((Field.phoff w).read header), .ok ()⟩ :: ⟨.scratch (stride * count), true⟩ ::
        (reads ++ rest) ∧
      TableTalk (loadableIn w stride count table) rest refusal

/-- The conversation once the bytes of the identity block are known. -/
def IdentityTalk (ident : List UInt8) : List Event → Option LoadError → Prop :=
  let w := Image.width ident
  Unless (Image.identityObjections ident) fun es refusal =>
    ∃ header reads rest, Fills w.headerSize header reads ∧
      es = ⟨.seek 0, .ok ()⟩ :: ⟨.scratch w.headerSize, true⟩ :: (reads ++ rest) ∧
      HeaderTalk w header rest refusal

/-- **The conversation of a load** with collaborators that never fail: its events, and the error
if the image is refused. -/
def ImageTalk (path : String) (es : List Event) (refusal : Option LoadError) : Prop :=
  ∃ ident reads rest, Fills identitySize ident reads ∧
    es = ⟨.openImage path, .ok ()⟩ :: ⟨.seek 0, .ok ()⟩ :: (reads ++ rest) ∧
    IdentityTalk ident rest refusal

/-! ## Loads conform -/

namespace Load

variable {α : Type} {before : List Event} {s : Segment} {f : Unit → Load α} {U : Talk α}

theorem conforms_reservePages_bind (h : Conforms (before ++ s.reserving) (f ()) U) :
    Conforms before (reservePages s s.pageCount >>= f)
      (fun talk result => ∃ rest, talk = s.reserving ++ rest ∧ U rest result) := by
  unfold reservePages
  unfold Segment.reserving at h ⊢
  by_cases hpos : 0 < s.pageCount
  · rw [if_pos hpos] at h ⊢
    rw [if_pos hpos]
    simp only [bind_assoc]
    exact conforms_note_bind (conforms_settle_bind (c := .reserve s.pageBase s.pageCount) (.ok ())
      id (fun _ => rfl) (fun _ => Iff.rfl) h)
  · rw [if_neg hpos] at h ⊢
    rw [if_neg hpos, List.append_nil] at *
    exact h.imp fun talk result ht => ⟨talk, rfl, ht⟩

theorem conforms_copyFromFile_bind
    (h : ∀ es, s.Copying es → Conforms (before ++ es) (f ()) U) :
    Conforms before (copyFromFile s >>= f)
      (fun talk result => ∃ es rest, s.Copying es ∧ talk = es ++ rest ∧ U rest result) := by
  unfold copyFromFile
  unfold Segment.Copying at h ⊢
  by_cases hpos : 0 < s.fileSize
  · rw [if_pos hpos]
    simp only [if_pos hpos] at h ⊢
    simp only [bind_assoc]
    have hwrite : ∀ bytes reads, Fills s.fileSize bytes reads →
        Conforms (before ++ [⟨.scratch s.fileSize, true⟩] ++ reads)
          (note (.copyingSegment s.address) >>= fun _ =>
            ask (.write s.address bytes) >>= fun x => settle .copySegmentFailed x >>= f)
          (fun talk result => ∃ rest, talk = ⟨.write s.address bytes, .ok ()⟩ :: rest ∧
            U rest result) := by
      intro bytes reads hfills
      have hrest := h _ ⟨bytes, reads, hfills, rfl⟩
      refine conforms_note_bind (conforms_settle_bind (c := .write s.address bytes) (.ok ())
        id (fun _ => rfl) (fun _ => Iff.rfl) ?_)
      simpa only [List.append_assoc, List.cons_append, List.nil_append] using hrest
    have hread := conforms_read_bind .readSegmentFailed
      (delivered_append_of_not_isRead rfl) hwrite
    refine (conforms_note_bind (conforms_scratch_bind (conforms_note_bind hread))).imp ?_
    rintro talk result ⟨rest, rfl, bytes, reads, rest, hfills, rfl, tail, rfl, ht⟩
    exact ⟨_, tail, ⟨bytes, reads, hfills, rfl⟩, by simp, ht⟩
  · rw [if_neg hpos]
    simp only [if_neg hpos] at h ⊢
    have hnil := h [] rfl
    rw [List.append_nil] at hnil
    exact hnil.imp fun talk result ht => ⟨[], talk, rfl, rfl, ht⟩

theorem conforms_clearRest_bind (hs : s.Sound) (h : Conforms (before ++ s.clearing) (f ()) U) :
    Conforms before (clearRest s >>= f)
      (fun talk result => ∃ rest, talk = s.clearing ++ rest ∧ U rest result) := by
  unfold clearRest
  unfold Segment.clearing at h ⊢
  rw [Segment.zeroFill?_eq hs.size_le]
  unfold expect
  rw [pure_bind]
  by_cases hpos : 0 < s.memorySize - s.fileSize
  · have hsize := hs.size_le
    have hend := hs.memory_end
    rw [if_pos hpos] at h
    rw [if_pos hpos, if_pos hpos, Address.add?_eq_some_iff.2 ⟨by omega, rfl⟩]
    simp only [bind_assoc]
    exact conforms_note_bind (conforms_settle_bind (c := .zero (s.address + s.fileSize)
      (s.memorySize - s.fileSize)) (.ok ()) id (fun _ => rfl) (fun _ => Iff.rfl) h)
  · rw [if_neg hpos, List.append_nil] at h
    rw [if_neg hpos, if_neg hpos]
    exact h.imp fun talk result ht => ⟨talk, rfl, ht⟩

theorem conforms_placeSegment_bind (hs : s.Sound)
    (h : ∀ es, s.Talk es → Conforms (before ++ es) (f ()) U) :
    Conforms before (placeSegment s >>= f)
      (fun talk result => ∃ es rest, s.Talk es ∧ talk = es ++ rest ∧ U rest result) := by
  rw [placeSegment_eq (Segment.pageCount?_eq hs.memory_end)]
  simp only [bind_assoc]
  have hclear : ∀ es, s.Copying es →
      Conforms (before ++ [⟨.seek s.fileOffset, .ok ()⟩] ++ s.reserving ++ es)
        (clearRest s >>= f)
        (fun talk result => ∃ rest, talk = s.clearing ++ rest ∧ U rest result) := by
    intro es hes
    have hrest := h _ ⟨es, hes, rfl⟩
    refine conforms_clearRest_bind hs ?_
    simpa only [List.append_assoc, List.cons_append, List.nil_append] using hrest
  refine (conforms_note_bind (conforms_seek_bind (conforms_reservePages_bind
    (conforms_copyFromFile_bind hclear)))).imp ?_
  rintro talk result ⟨rest, rfl, rest, rfl, es, rest, hes, rfl, tail, rfl, ht⟩
  exact ⟨_, tail, ⟨es, hes, rfl⟩, by simp, ht⟩

/-- **Placing segments** conforms to their conversations, one after another. -/
theorem conforms_placeAll_bind {segments : List Segment} (hs : ∀ s ∈ segments, s.Sound)
    (h : ∀ es, PlacingTalk segments es → Conforms (before ++ es) (f ()) U) :
    Conforms before (placeAll segments >>= f)
      (fun talk result => ∃ es rest, PlacingTalk segments es ∧ talk = es ++ rest ∧
        U rest result) := by
  induction segments generalizing before with
  | nil =>
    have hnil := h [] .nil
    rw [List.append_nil] at hnil
    exact hnil.imp fun talk result ht => ⟨[], talk, .nil, rfl, ht⟩
  | cons s rest ih =>
    obtain ⟨hsound, hrest⟩ := List.forall_mem_cons.1 hs
    unfold placeAll
    simp only [bind_assoc]
    refine (conforms_placeSegment_bind hsound fun es hes =>
      conforms_note_bind (ih hrest fun es' hes' => ?_)).imp ?_
    · have hall := h _ (.cons hes hes')
      rwa [← List.append_assoc] at hall
    · rintro talk result ⟨es, tail, hes, rfl, es', tail, hes', rfl, ht⟩
      exact ⟨_, tail, .cons hes hes', by simp, ht⟩

/-- The end of a load: the segments, and the file is closed. -/
theorem conforms_place_conclude (found : Survey) (hs : ∀ s ∈ found.plan.segments, s.Sound) :
    Conforms before (placePlan found.plan >>= conclude found)
      (fun talk result => ∃ placing, PlacingTalk found.plan.segments placing ∧
        talk = placing ++ [⟨.close, .ok ()⟩] ∧ errorOf? result = none) := by
  obtain ⟨span, hspan⟩ := Plan.exists_span hs (wordLimit - 1, 0)
  have hspan : found.plan.span? = some span := hspan
  unfold placePlan conclude
  rw [hspan]
  unfold expect
  simp only [bind_assoc, pure_bind]
  refine (conforms_placeAll_bind hs fun es _ => conforms_note_bind (conforms_settleIo_bind
    (c := .close) (.ok ()) id (fun _ => rfl) (fun _ => Iff.rfl) (conforms_note_bind
      (conforms_check (T := fun talk result => talk = [] ∧ errorOf? result = none)
        ⟨rfl, rfl⟩)))).imp ?_
  rintro talk result ⟨es, rest, hes, rfl, tail, rfl, rfl, hnone⟩
  exact ⟨es, hes, rfl, hnone⟩

/-- Conversations by the error they end with. -/
abbrev Ending (go : List Event → Option LoadError → Prop) : Talk α :=
  fun talk result => go talk (errorOf? result)

/-- A check that is passed exactly if there is no objection. -/
theorem conforms_check_bind {β : Type} {x : Except LoadError β} {os : List Objection}
    {f : β → Load α} {go : List Event → Option LoadError → Prop}
    (hok : ∀ b, x = .ok b → Objection.NoneHolds os ∧ Conforms before (f b) (Ending go))
    (herr : ∀ e, x = .error e → Objection.Decides os e) :
    Conforms before (check x >>= f) (Ending (Unless os go)) := by
  cases x with
  | ok b =>
    obtain ⟨hnone, hconf⟩ := hok b rfl
    exact hconf.imp fun talk result hgo => Or.inl ⟨hnone, hgo⟩
  | error e =>
    have hstop : Conforms before (check (α := α) (.error e)) (Ending (Unless os go)) :=
      conforms_check (Or.inr ⟨rfl, e, herr e rfl, rfl⟩)
    exact hstop

theorem conforms_throw_bind {β : Type} {e : LoadError} {os : List Objection} {f : β → Load α}
    {go : List Event → Option LoadError → Prop} (h : Objection.Decides os e) :
    Conforms before (throw e >>= f) (Ending (Unless os go)) :=
  conforms_check_bind (x := .error e) (fun b hb => by cases hb) fun e' he => by
    cases he
    exact h

/-- What follows once the program header table is decoded. -/
theorem conforms_table {w : Width} {header : FileHeader} {table : Table}
    (hpos : 0 < table.count) :
    Conforms before (makePlan table >>= fun plan => pure ⟨w, ⟨header, table⟩, plan⟩ >>= fun found =>
        placePlan found.plan >>= conclude found)
      (Ending (TableTalk (loadableIn table.width table.stride table.count table.blob))) := by
  have hspec := Plan.ofTable_spec table
  unfold makePlan TableTalk
  simp only [bind_assoc, pure_bind]
  refine conforms_notes_bind (conforms_check_bind (fun plan hplan => ?_) fun e he => ?_)
  · rw [hplan] at hspec
    obtain ⟨-, hsegments, hnone⟩ := hspec
    rw [← hsegments]
    exact ⟨hnone, conforms_place_conclude ⟨w, ⟨header, table⟩, plan⟩
      (Plan.noneHolds_objections.1 hnone).1⟩
  · rw [he] at hspec
    rcases hspec with ⟨hzero, -⟩ | ⟨-, hdecides⟩
    · omega
    · exact hdecides

/-- What follows once the file header is decoded. -/
theorem conforms_header {w : Width} {header : FileHeader} {bytes : List UInt8}
    (hdesc : header.Describes w bytes) (listing : Bool) :
    Conforms before (readTable w header >>= fun table =>
        notes (if listing then (Headers.mk header table).listing.map .listing else []) >>= fun _ =>
        makePlan table >>= fun plan => pure ⟨w, ⟨header, table⟩, plan⟩ >>= fun found =>
        placePlan found.plan >>= conclude found)
      (Ending (HeaderTalk w bytes)) := by
  unfold HeaderTalk
  by_cases hz : (Field.phnum w).read bytes = 0
  · have hempty : readTable w header = pure (.empty w) :=
      if_pos (hdesc.phnum_eq_zero_iff.2 hz)
    rw [hempty, pure_bind]
    unfold makePlan
    simp only [bind_assoc]
    refine conforms_notes_bind (conforms_notes_bind (conforms_check_bind (fun b hb => ?_)
      fun e he => ?_))
    · cases hb
    · cases he
      exact Objection.decides_head hz
  have hne : header.phnum ≠ 0 := fun hzero => hz (hdesc.phnum_eq_zero_iff.1 hzero)
  rw [readTable_eq _ _ hne, hdesc.phentsize, hdesc.tableSize_eq, hdesc.phoff]
  by_cases hsmall : (Field.phentsize w).read bytes < w.entrySize
  · rw [if_pos hsmall, bind_assoc, hdesc.phentsize_eq]
    exact conforms_note_bind (conforms_throw_bind ((Objection.decides_head hsmall).cons hz))
  rw [if_neg hsmall]
  by_cases hlarge : maxTableSize < (Field.phentsize w).read bytes * (Field.phnum w).read bytes
  · rw [if_pos hlarge, bind_assoc]
    exact conforms_note_bind (conforms_throw_bind
      (((Objection.decides_head hlarge).cons hsmall).cons hz))
  rw [if_neg hlarge]
  simp only [bind_assoc]
  have hnone : Objection.NoneHolds (headerRefusals w bytes) :=
    Objection.noneHolds_cons.2 ⟨hz, Objection.noneHolds_cons.2 ⟨hsmall,
      Objection.noneHolds_singleton.2 hlarge⟩⟩
  refine (conforms_note_bind (conforms_seek_bind (conforms_note_bind (conforms_scratch_bind
    (conforms_note_bind (conforms_read_bind
      (U := fun blob => Ending (TableTalk (loadableIn w ((Field.phentsize w).read bytes)
        ((Field.phnum w).read bytes) blob)))
      .readTableFailed (delivered_append_of_not_isRead rfl) fun blob reads hfills => ?_)))))).imp ?_
  · have hlen : blob.length = (Field.phnum w).read bytes * (Field.phentsize w).read bytes := by
      rw [hfills.length_eq, Nat.mul_comm]
    rw [Table.ofBlob?_eq (Nat.not_lt.1 hsmall) hlen, pure_bind]
    exact conforms_notes_bind (conforms_table (Nat.pos_of_ne_zero hz))
  · rintro talk result ⟨rest, rfl, rest, rfl, blob, reads, rest, hfills, rfl, ht⟩
    exact Or.inl ⟨hnone, blob, reads, rest, hfills, rfl, ht⟩

/-- What follows once the identity block is read. -/
theorem conforms_identity {ident : Identity} (listing : Bool) :
    Conforms before (validateIdentity ident >>= fun width => note .identityValid >>= fun _ =>
        readHeaders (some width) >>= fun headers =>
        notes (if listing then headers.listing.map .listing else []) >>= fun _ =>
        makePlan headers.table >>= fun plan => pure ⟨width, headers, plan⟩ >>= fun found =>
        placePlan found.plan >>= conclude found)
      (Ending (IdentityTalk ident.bytes)) := by
  have hspec := ident.validate_spec ident.bytes
    (List.take_of_length_le (Nat.le_of_eq ident.length_eq)).symm
  have hlong : ¬ ident.bytes.length < identitySize := by
    rw [ident.length_eq]
    exact Nat.lt_irrefl _
  unfold validateIdentity IdentityTalk
  simp only [bind_assoc]
  refine conforms_notes_bind (conforms_check_bind (fun width hvalid => ?_) fun e he => ?_)
  · rw [hvalid] at hspec
    obtain ⟨hnone, rfl⟩ := hspec
    refine ⟨Objection.noneHolds_cons.2 ⟨hlong, hnone⟩, conforms_note_bind ?_⟩
    unfold readHeaders
    simp only [bind_assoc, pure_bind]
    refine (conforms_note_bind (conforms_seek_bind (conforms_note_bind (conforms_scratch_bind
      (conforms_note_bind (conforms_read_bind
        (U := fun header => Ending (HeaderTalk (Image.width ident.bytes) header))
        .readHeaderFailed (delivered_append_of_not_isRead rfl)
        fun bytes reads hfills => ?_)))))).imp ?_
    · obtain ⟨header, hdecode, hdesc⟩ :=
        FileHeader.exists_decode (Nat.le_of_eq hfills.length_eq.symm)
      rw [hdecode]
      exact conforms_header hdesc listing
    · rintro talk result ⟨rest, rfl, rest, rfl, header, reads, rest, hfills, rfl, ht⟩
      exact ⟨header, reads, rest, hfills, rfl, ht⟩
  · rw [he] at hspec
    exact hspec.cons hlong

/-- **A load conforms to its conversation**, whatever its collaborators do. -/
theorem conforms_image (path : String) (listing : Bool) :
    Conforms [] (image path listing) (Ending (ImageTalk path)) := by
  rw [image_eq]
  unfold beforeClose
  rw [survey_eq]
  unfold examine readIdentity
  simp only [bind_assoc, pure_bind]
  refine (conforms_note_bind (conforms_settle_bind (c := .openImage path) (.ok ()) id
    (fun _ => rfl) (fun _ => Iff.rfl) (conforms_note_bind (conforms_seek_bind (conforms_read_bind
      (U := fun ident => Ending (IdentityTalk ident))
      .readIdentityFailed (delivered_append_of_not_isRead rfl)
      fun bytes reads hfills => ?_))))).imp ?_
  · have hof : Identity.ofBytes? bytes = some ⟨bytes, hfills.length_eq⟩ := dif_pos hfills.length_eq
    rw [hof]
    exact conforms_identity listing
  · rintro talk result ⟨rest, rfl, rest, rfl, ident, reads, rest, hfills, rfl, ht⟩
    exact ⟨ident, reads, rest, hfills, rfl, ht⟩

/-- **Placing a table** conforms to the conversations of sound segments, if any; a table that is
refused causes no call. -/
theorem conforms_placeTable (t : Table) :
    Conforms [] (placeTable t) (fun talk _ => ∃ segments : List Segment,
      (∀ s ∈ segments, s.Sound) ∧ PlacingTalk segments talk) := by
  have hspec := Plan.ofTable_spec t
  unfold placeTable makePlan
  rw [bind_assoc]
  refine conforms_notes_bind ?_
  cases hplan : Plan.ofTable t with
  | error e =>
    have hstop : Conforms [] (check (α := Nat) (.error e)) (fun talk _ =>
        ∃ segments : List Segment, (∀ s ∈ segments, s.Sound) ∧ PlacingTalk segments talk) :=
      conforms_check ⟨[], List.forall_mem_nil _, .nil⟩
    exact hstop
  | ok plan =>
    rw [hplan] at hspec
    have hsound := (Plan.noneHolds_objections.1 hspec.2.2).1
    have hplace : Conforms [] (placePlan plan) (fun talk _ => PlacingTalk plan.segments talk) := by
      refine (conforms_placeAll_bind hsound fun es _ =>
        conforms_check (x := .ok plan.size) (T := fun talk _ => talk = []) rfl).imp ?_
      rintro talk result ⟨es, rest, hes, rfl, rfl⟩
      rwa [List.append_nil]
    exact conforms_note_bind (hplace.imp fun talk result ht => ⟨plan.segments, hsound, ht⟩)

end Load

end ElfBoot
