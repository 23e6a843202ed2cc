import ElfBoot.Proofs.Image.Alike
import ElfBoot.Proofs.Load.Twins

/-!
# Whole loads beside a twin

On twins, images that are alike lead to the same survey and to the same end of the load, and tables
whose segments differ by the shift lead to placements that do.

* `Comparison.Twins.makePlan`, `Comparison.Twins.placeTable` — tables that are placed.
* `Comparison.Twins.identify`, `Comparison.Twins.readTable`, `Comparison.Twins.examine` — the stages
  of a survey.
* `Comparison.Twins.image` — a load of alike images.
-/

set_option autoImplicit false

namespace ElfBoot

/-- Headers of alike images say the same about what a load depends on. -/
theorem Image.Alike.header_eq {bs bs' : List UInt8} (h : Alike bs bs') {header header' : FileHeader}
    (hdesc : header.Describes (width bs) bs) (hdesc' : header'.Describes (width bs') bs') :
    header'.entry = header.entry ∧ header'.phoff = header.phoff ∧
      header'.phentsize = header.phentsize ∧ header'.phnum = header.phnum := by
  refine ⟨?_, ?_, ?_, ?_⟩
  · rw [← UInt64.toNat_inj, hdesc.entry, hdesc'.entry]
    exact h.entry_eq
  · rw [← UInt64.toNat_inj, hdesc.phoff, hdesc'.phoff]
    exact h.phoff_eq
  · rw [← UInt16.toNat_inj, hdesc.phentsize, hdesc'.phentsize]
    exact h.phentsize_eq
  · rw [← UInt16.toNat_inj, hdesc.phnum, hdesc'.phnum]
    exact h.phnum_eq

namespace Comparison.Twins

variable {σ τ : Type} {C : Comparison σ τ} {content content' : List UInt8} {shift : Nat}
  {At : List PageRange → Nat → σ → τ → Prop} {granted : List PageRange} {position : Nat}
  {s : σ} {t : τ}

/-! ## Tables -/

/-- The segments of the second table are those of the first, moved, and none of them leaves the
address space by the move. -/
structure Moved (shift : Nat) (first second : Table) : Prop where
  empty_iff : second.count = 0 ↔ first.count = 0
  segments_eq : second.segments = first.segments.map (Segment.shift shift)
  limit_iff : ∀ g ∈ first.segments, (wordLimit ≤ g.address + g.memorySize ↔
    wordLimit ≤ g.address + shift + g.memorySize)

/-- The segments of the second plan are those of the first, moved, and all of them are sound. -/
structure MovedPlan (shift : Nat) (first second : Plan) : Prop where
  segments_eq : second.segments = first.segments.map (Segment.shift shift)
  sound : ∀ g ∈ first.segments, g.Sound ∧ (g.shift shift).Sound

theorem makePlan (hC : C.Twins content content' shift At) {first second : Table}
    (hmoved : Moved shift first second) (hat : At granted position s t) :
    C.Paired (Load.makePlan first) (Load.makePlan second) (fun p s' p' t' =>
      p.segments = first.segments ∧ MovedPlan shift p p' ∧ At granted position s' t') s t := by
  have hspec := Plan.ofTable_shift hmoved.empty_iff hmoved.segments_eq hmoved.limit_iff
  unfold Load.makePlan
  refine paired_notes_bind ?_
  cases hplan : Plan.ofTable first with
  | ok p =>
    cases hplan' : Plan.ofTable second with
    | ok p' =>
      rw [hplan, hplan'] at hspec
      obtain ⟨hp, hp', hsound⟩ := hspec
      exact paired_pure ⟨hp, ⟨hp', hsound⟩, hat⟩
    | error e' =>
      rw [hplan, hplan'] at hspec
      exact hspec.elim
  | error e =>
    cases hplan' : Plan.ofTable second with
    | ok p' =>
      rw [hplan, hplan'] at hspec
      exact hspec.elim
    | error e' =>
      rw [hplan, hplan'] at hspec
      obtain ⟨rfl, hplaceless⟩ := hspec
      exact paired_throw (hC.errors _ hplaceless) (hC.stop _ _ _ _ hat)

theorem placePlan (hC : C.Twins content content' shift At) (hshift : pageSize ∣ shift)
    {first second : Plan} (hmoved : MovedPlan shift first second)
    (hbytes : ∀ g ∈ first.segments, SameBytes content content' g)
    (hat : At granted position s t) :
    C.Paired (Load.placePlan first) (Load.placePlan second) (fun n s' n' t' =>
      n' = n ∧ ∃ granted' p, At granted' p s' t') s t := by
  have hsize : second.size = first.size := by
    unfold Plan.size
    rw [hmoved.segments_eq, List.length_map]
  unfold Load.placePlan
  rw [hmoved.segments_eq]
  refine (hC.placeAll hshift (fun g hg => ⟨hmoved.sound g hg, hbytes g hg⟩) hat).bind ?_
  rintro _ s' _ t' hat'
  exact paired_pure ⟨hsize, hat'⟩

/-- **Placing tables** whose segments differ by the shift. -/
theorem placeTable (hC : C.Twins content content' shift At) (hshift : pageSize ∣ shift)
    {first second : Table} (hmoved : Moved shift first second)
    (hbytes : ∀ g ∈ first.segments, SameBytes content content' g)
    (hat : At granted position s t) :
    C.Paired (Load.placeTable first) (Load.placeTable second) (fun n s' n' t' =>
      n' = n ∧ ∃ granted' p, At granted' p s' t') s t := by
  unfold Load.placeTable
  refine (hC.makePlan hmoved hat).bind ?_
  rintro p s' p' t' ⟨hp, hplan, hat'⟩
  refine paired_note_bind (hC.placePlan hshift hplan ?_ hat')
  rw [hp]
  exact hbytes

/-! ## Surveys -/

section Surveys

variable (hC : C.Twins content content' 0 At) (hrefl : ∀ e, C.errors e e)
  (himage : Image.Alike content content')
include hC hrefl himage

theorem identify (hat : At granted position s t) :
    C.Paired (Load.readIdentity >>= Load.validateIdentity)
      (Load.readIdentity >>= Load.validateIdentity) (fun w s' w' t' =>
        (w = Image.width content ∧ w' = Image.width content) ∧ ∃ p, At granted p s' t') s t := by
  unfold Load.readIdentity Load.validateIdentity
  simp only [bind_assoc]
  refine paired_note_bind (hC.seek_bind hat (by decide) fun s₁ t₁ hat₁ => ?_)
  refine hC.read_bind hat₁ fun s₂ t₂ hlength hlength' hat₂ => ?_
  rw [List.drop_zero] at hlength ⊢
  rw [List.drop_zero] at hlength' ⊢
  have hident : Identity.ofBytes? (content.take identitySize) = some ⟨_, hlength⟩ :=
    dif_pos hlength
  have hident' : Identity.ofBytes? (content'.take identitySize) = some ⟨_, hlength'⟩ :=
    dif_pos hlength'
  have hsame : Identity.validate ⟨content'.take identitySize, hlength'⟩ =
      Identity.validate ⟨content.take identitySize, hlength⟩ := by
    refine Identity.validate_eq ?_
    show (content'.take identitySize).take 6 = (content.take identitySize).take 6
    rw [List.take_take, List.take_take]
    exact himage.ident_eq
  have hspec := Identity.validate_spec content ⟨content.take identitySize, hlength⟩ rfl
  rw [hident, hident']
  refine paired_expect_bind (paired_notes_bind ?_)
  rw [hsame]
  refine paired_check (fun w hw => ?_) fun e _ => ⟨hrefl e, hC.stop _ _ _ _ hat₂⟩
  rw [hw] at hspec
  exact ⟨⟨hspec.2, hspec.2⟩, _, hat₂⟩

theorem readTable {header header' : FileHeader}
    (hdesc : header.Describes (Image.width content) content)
    (hdesc' : header'.Describes (Image.width content') content') (hat : At granted position s t) :
    C.Paired (Load.readTable (Image.width content) header)
      (Load.readTable (Image.width content) header') (fun table s' table' t' =>
        (table'.count = table.count ∧ table.segments = Image.loadable content ∧
          table'.segments = Image.loadable content) ∧ ∃ p, At granted p s' t') s t := by
  obtain ⟨-, hphoff, hphentsize, hphnum⟩ := himage.header_eq hdesc hdesc'
  have hsize : header'.tableSize = header.tableSize := by
    unfold FileHeader.tableSize
    rw [hphentsize, hphnum]
  by_cases hz : header.phnum = 0
  · have hz' : header'.phnum = 0 := hphnum.trans hz
    have hnone : Image.phnum content = 0 := hdesc.phnum_eq_zero_iff.1 hz
    have hempty : Image.loadable content = [] := by
      rw [Image.loadable_eq_filterMap, hnone]
      rfl
    unfold Load.readTable
    rw [if_pos hz, if_pos hz', hempty]
    exact paired_pure ⟨⟨rfl, rfl, rfl⟩, position, hat⟩
  have hz' : header'.phnum ≠ 0 := fun h => hz (hphnum.symm.trans h)
  rw [Load.readTable_eq _ _ hz, Load.readTable_eq _ _ hz', hphentsize, hsize, hphoff]
  by_cases hsmall : header.phentsize.toNat < (Image.width content).entrySize
  · rw [if_pos hsmall]
    exact paired_note_bind (paired_throw (hrefl _) (hC.stop _ _ _ _ hat))
  rw [if_neg hsmall]
  by_cases hlarge : maxTableSize < header.tableSize
  · rw [if_pos hlarge]
    exact paired_note_bind (paired_throw (hrefl _) (hC.stop _ _ _ _ hat))
  rw [if_neg hlarge]
  have hoffset : header.phoff.toNat < wordLimit := header.phoff.toNat_lt
  refine paired_note_bind (hC.seek_bind hat hoffset fun s₁ t₁ hat₁ => paired_note_bind ?_)
  refine hC.scratch_bind hat₁ fun s₂ t₂ hat₂ => paired_note_bind ?_
  refine hC.read_bind hat₂ fun s₃ t₃ hlength hlength' hat₃ => ?_
  have hstride := Nat.not_lt.1 hsmall
  have hcount : header.tableSize = header.phnum.toNat * header.phentsize.toNat := Nat.mul_comm _ _
  rw [Table.ofBlob?_eq hstride (hlength.trans hcount),
    Table.ofBlob?_eq hstride (hlength'.trans hcount)]
  refine paired_pure ⟨⟨rfl, ?_, ?_⟩, _, hat₃⟩
  · show loadableIn _ _ _ ((content.drop _).take _) = _
    rw [loadableIn_take hstride (Nat.le_of_eq hcount.symm), hdesc.phoff, hdesc.phentsize,
      hdesc.phnum]
    rfl
  · show loadableIn _ _ _ ((content'.drop _).take _) = _
    rw [loadableIn_take hstride (Nat.le_of_eq hcount.symm), ← hphoff, ← hphentsize, ← hphnum,
      hdesc'.phoff, hdesc'.phentsize, hdesc'.phnum, ← himage.width_eq, ← himage.loadable_eq]
    rfl

/-- What two surveys have in common on alike images. -/
structure SameFindings (content : List UInt8) (found found' : Survey) : Prop where
  width_eq : found'.width = found.width
  entry_eq : found'.headers.file.entry = found.headers.file.entry
  segments_eq : found.plan.segments = Image.loadable content
  plan : MovedPlan 0 found.plan found'.plan

/-- **The survey of an open image** finds the same in alike images. -/
theorem examine (listing listing' : Bool) (hat : At granted position s t) :
    C.Paired (Load.examine listing) (Load.examine listing') (fun found s' found' t' =>
      SameFindings content found found' ∧ ∃ p, At granted p s' t') s t := by
  rw [Load.examine_eq, Load.examine_eq]
  refine (identify hC hrefl himage hat).bind ?_
  rintro _ s₁ _ t₁ ⟨⟨rfl, rfl⟩, p, hat₁⟩
  refine paired_note_bind (paired_note_bind (hC.seek_bind hat₁ (by decide) fun s₂ t₂ hat₂ => ?_))
  refine paired_note_bind (hC.scratch_bind hat₂ fun s₃ t₃ hat₃ => paired_note_bind ?_)
  refine hC.read_bind hat₃ fun s₄ t₄ hlength hlength' hat₄ => ?_
  rw [List.drop_zero] at hlength ⊢
  rw [List.drop_zero] at hlength' ⊢
  obtain ⟨header, hdecode, hdesc⟩ := FileHeader.exists_decode (Nat.le_of_eq hlength.symm)
  obtain ⟨header', hdecode', hdesc'⟩ := FileHeader.exists_decode (Nat.le_of_eq hlength'.symm)
  have hdesc := hdesc.of_take
  have hdesc' := hdesc'.of_take
  rw [hdecode, hdecode']
  rw [← himage.width_eq] at hdesc'
  refine paired_expect_bind ?_
  refine (readTable hC hrefl himage hdesc hdesc' hat₄).bind ?_
  rintro table s₅ table' t₅ ⟨⟨hcount, hsegments, hsegments'⟩, p, hat₅⟩
  have hmoved : Moved 0 table table' := by
    refine ⟨by rw [hcount], ?_, fun g _ => by rw [Nat.add_zero]⟩
    rw [hsegments, hsegments', Segment.shift_zero, List.map_id]
  refine paired_notes_bind ((hC.makePlan hmoved hat₅).bind ?_)
  rintro plan s₆ plan' t₆ ⟨hplan, hmovedPlan, hat₆⟩
  have hentry := (himage.header_eq hdesc hdesc').1
  exact paired_pure ⟨⟨rfl, hentry, hplan.trans hsegments, hmovedPlan⟩, p, hat₆⟩

/-- **A load of alike images**, once both are open at the start, ends alike. -/
theorem image {path path' : String} (listing listing' : Bool)
    (hopen : C.Paired (Load.ask (.openImage path)) (Load.ask (.openImage path'))
      (C.SameAnswer id (At [] 0)) s t) :
    C.Paired (Load.image path listing) (Load.image path' listing')
      (fun loaded s' loaded' t' => loaded' = loaded ∧ C.failed s' t') s t := by
  rw [Load.image_eq, Load.image_eq]
  unfold Load.beforeClose
  rw [Load.survey_eq, Load.survey_eq]
  simp only [bind_assoc]
  refine paired_note_bind (hopen.bind fun x s₁ y t₁ hxy => ?_)
  refine (hxy.settle _ _).bind fun _ s₂ _ t₂ hat₂ => ?_
  refine (examine hC hrefl himage listing listing' hat₂).bind ?_
  rintro found s₃ found' t₃ ⟨hfound, p, hat₃⟩
  have hbytes : ∀ g ∈ found.plan.segments, SameBytes content content' g := by
    rw [hfound.segments_eq]
    exact fun g hg => himage.bytes_eq hg
  refine (hC.placePlan (Nat.dvd_zero _) hfound.plan hbytes hat₃).bind ?_
  rintro n s₄ _ t₄ ⟨rfl, granted', p, hat₄⟩
  have hspan' : found'.plan.span? = found.plan.span? := by
    unfold Plan.span?
    rw [hfound.plan.segments_eq, Segment.shift_zero, List.map_id]
  obtain ⟨span, hspan⟩ :=
    Plan.exists_span (fun g hg => (hfound.plan.sound g hg).1) (wordLimit - 1, 0)
  have hspan : found.plan.span? = some span := hspan
  rw [pure_bind, pure_bind]
  unfold Load.conclude
  rw [hspan', hspan]
  refine paired_expect_bind (paired_note_bind ?_)
  refine (hC.close granted' p s₄ t₄ hat₄).bind fun x s₅ y t₅ hxy => ?_
  refine (hxy.settleIo _ _).bind fun _ s₆ _ t₆ hfailed => ?_
  refine paired_note_bind (paired_pure ⟨?_, hfailed⟩)
  rw [hfound.entry_eq, hfound.width_eq]

end Surveys

end Comparison.Twins

end ElfBoot
