import ElfBoot.Proofs.Host.Reading
import ElfBoot.Proofs.Load.Refusal
import ElfBoot.Proofs.Load.Steps

/-!
# Surveying an image on a rig

The survey of an image finds what stands in its bytes, or the first objection to it.

* `Rig.Serves.identify`, `Rig.Serves.readTable`, `Rig.Serves.makePlan` — the stages.
* `Rig.Serves.examine`, `Rig.survey_spec` — the survey of an open image, and of the image at a path;
  the arena is not touched.
-/

set_option autoImplicit false

namespace ElfBoot.Host.Rig

open Load (Ensures Judged)

variable {env : Surroundings} {a : Arena} {position : Nat} {r : Rig}

/-- Reading and judging the identity block. -/
theorem Serves.identify (h : r.Serves env a position) :
    Ensures handler (Load.readIdentity >>= Load.validateIdentity)
      (Judged env.calm (Image.identityObjections env.content) (fun r' => r'.arena? = some a)
        fun w r' => w = Image.width env.content ∧ r'.Serves env a identitySize) r := by
  unfold Load.readIdentity Load.validateIdentity
  simp only [bind_assoc]
  refine Load.ensures_note_bind.2 (h.seek_bind (fun _ => id) fun r₁ h₁ => ?_)
  refine h₁.read_bind (fun r₂ hlen h₂ => ?_) ?_
  · rw [List.drop_zero] at hlen ⊢
    have hle : ¬ env.content.length < identitySize := by
      rw [List.length_take] at hlen
      omega
    have hof : Identity.ofBytes? (env.content.take identitySize) =
        some ⟨env.content.take identitySize, hlen⟩ := dif_pos hlen
    rw [hof, Load.ensures_expect_bind, Load.ensures_notes_bind, Load.ensures_check]
    have hspec := Identity.validate_spec env.content
      ⟨env.content.take identitySize, hlen⟩ rfl
    refine Judged.cons (o := ⟨env.content.length < identitySize, _⟩) ?_ hle
    cases hv : Identity.validate ⟨env.content.take identitySize, hlen⟩ with
    | ok w =>
      rw [hv] at hspec
      rw [Nat.zero_add] at h₂
      exact ⟨hspec.1, hspec.2, h₂⟩
    | error e =>
      rw [hv] at hspec
      exact ⟨h₂.arena, fun _ => hspec⟩
  · intro e r₂ harena hshort
    refine ⟨harena, fun hcalm => ?_⟩
    obtain ⟨hlt, -, rfl⟩ := hshort hcalm
    rw [Nat.zero_add] at hlt
    exact Objection.decides_head hlt

/-- Reading the program header table that a file header describes. -/
theorem Serves.readTable (h : r.Serves env a position) {header : FileHeader}
    (hdesc : header.Describes (Image.width env.content) env.content)
    (hphnum : Image.phnum env.content ≠ 0) :
    Ensures handler (Load.readTable (Image.width env.content) header)
      (Judged env.calm (Image.tableObjections env.content) (fun r' => r'.arena? = some a)
        fun table r' => table.count = Image.phnum env.content ∧
          loadableIn table.width table.stride table.count table.blob =
            Image.loadable env.content ∧
          ∃ p, r'.Serves env a p) r := by
  have hent : header.phentsize.toNat = Image.phentsize env.content := hdesc.phentsize
  have hoff : header.phoff.toNat = Image.phoff env.content := hdesc.phoff
  have hsize : header.tableSize = Image.tableSize env.content := hdesc.tableSize_eq
  have hword : header.phentsize = UInt16.ofNat (Image.phentsize env.content) :=
    hdesc.phentsize_eq
  have hne : header.phnum ≠ 0 := fun hz => hphnum (hdesc.phnum_eq_zero_iff.1 hz)
  rw [Load.readTable_eq _ _ hne, hent, hsize, hoff]
  by_cases hsmall : Image.phentsize env.content < (Image.width env.content).entrySize
  · rw [if_pos hsmall, Load.ensures_note_bind, Load.ensures_throw, hword]
    exact ⟨h.arena, fun _ => Objection.decides_head hsmall⟩
  refine Load.Ensures.judged_cons (o := ⟨_, _⟩) ?_ hsmall
  rw [if_neg hsmall]
  by_cases hlarge : maxTableSize < Image.tableSize env.content
  · rw [if_pos hlarge, Load.ensures_note_bind, Load.ensures_throw]
    exact ⟨h.arena, fun _ => Objection.decides_head hlarge⟩
  refine Load.Ensures.judged_cons (o := ⟨_, _⟩) ?_ hlarge
  rw [if_neg hlarge]
  refine Load.ensures_note_bind.2 (h.seek_bind (fun _ => id) fun r₁ h₁ => ?_)
  refine Load.ensures_note_bind.2
    (h₁.buffer_bind (Nat.not_lt.1 hlarge) (fun _ => id) fun r₂ h₂ => ?_)
  refine Load.ensures_note_bind.2 (h₂.read_bind (fun r₃ hlen h₃ => ?_) ?_)
  · have hstride := Nat.not_lt.1 hsmall
    have hblob : ((env.content.drop (Image.phoff env.content)).take
        (Image.tableSize env.content)).length =
          Image.phnum env.content * Image.phentsize env.content := by
      rw [hlen, Image.tableSize, Nat.mul_comm]
    have hpos : 0 < Image.tableSize env.content :=
      Nat.mul_pos (Nat.lt_of_lt_of_le (Width.entrySize_pos _) hstride)
        (Nat.pos_of_ne_zero hphnum)
    have hfits : ¬ env.content.length <
        Image.phoff env.content + Image.tableSize env.content := by
      rw [List.length_take, List.length_drop] at hlen
      omega
    rw [Table.ofBlob?_eq hstride hblob]
    refine Load.ensures_pure.2 ⟨Objection.noneHolds_singleton.2 hfits, rfl, ?_, _, h₃⟩
    exact loadableIn_take hstride (Nat.le_of_eq (Nat.mul_comm _ _))
  · intro e r₃ harena hshort
    refine ⟨harena, fun hcalm => ?_⟩
    obtain ⟨hlt, -, rfl⟩ := hshort hcalm
    exact Objection.decides_head hlt

/-- The plan of a table that holds the loadable segments of an image. -/
theorem Serves.makePlan (h : r.Serves env a position) (table : Table) (hpos : 0 < table.count) :
    Ensures handler (Load.makePlan table)
      (Judged env.calm
        (Plan.objections (loadableIn table.width table.stride table.count table.blob))
        (fun r' => r'.arena? = some a) fun plan r' =>
          plan.segments = loadableIn table.width table.stride table.count table.blob ∧
            r'.Serves env a position) r := by
  unfold Load.makePlan
  rw [Load.ensures_notes_bind, Load.ensures_check]
  have hspec := Plan.ofTable_spec table
  cases hplan : Plan.ofTable table with
  | ok plan =>
    rw [hplan] at hspec
    obtain ⟨-, hsegments, hnone⟩ := hspec
    rw [hsegments] at hnone
    exact ⟨hnone, hsegments, h⟩
  | error e =>
    rw [hplan] at hspec
    refine ⟨h.arena, fun _ => ?_⟩
    rcases hspec with ⟨hzero, -⟩ | ⟨-, hdecides⟩
    · omega
    · exact hdecides

/-- **The survey of an open image** finds what stands in its bytes, or the first objection. -/
theorem Serves.examine (h : r.Serves env a position) (listing : Bool) :
    Ensures handler (Load.examine listing)
      (Judged env.calm (Image.objections env.content) (fun r' => r'.arena? = some a)
        fun found r' => found.width = Image.width env.content ∧
          found.headers.file.entry.toNat = Image.entry env.content ∧
          found.plan.segments = Image.loadable env.content ∧ ∃ p, r'.Serves env a p) r := by
  rw [Load.examine_eq]
  refine h.identify.judged_bind fun w r₁ _ hw => ?_
  obtain ⟨rfl, h₁⟩ := hw
  have hheader : (Image.width env.content).headerSize ≤ maxTableSize := by
    cases Image.width env.content <;> decide
  refine Load.ensures_note_bind.2
    (Load.ensures_note_bind.2 (h₁.seek_bind (fun _ => id) fun r₂ h₂ => ?_))
  refine Load.ensures_note_bind.2 (h₂.buffer_bind hheader (fun _ => id) fun r₃ h₃ => ?_)
  refine Load.ensures_note_bind.2 (h₃.read_bind (fun r₄ hlen h₄ => ?_) ?_)
  · rw [List.drop_zero] at hlen ⊢
    have hlong : ¬ env.content.length < (Image.width env.content).headerSize := by
      rw [List.length_take] at hlen
      omega
    obtain ⟨header, hdecode, hdesc⟩ := FileHeader.exists_decode (Nat.le_of_eq hlen.symm)
    have hdesc := hdesc.of_take
    rw [hdecode, Load.ensures_expect_bind]
    refine Load.Ensures.judged_cons (o := ⟨_, _⟩) ?_ hlong
    by_cases hz : Image.phnum env.content = 0
    · have hempty : Load.readTable (Image.width env.content) header =
          pure (.empty (Image.width env.content)) := if_pos (hdesc.phnum_eq_zero_iff.2 hz)
      rw [hempty, pure_bind, Load.ensures_notes_bind]
      unfold Load.makePlan
      rw [bind_assoc, Load.ensures_notes_bind, Load.ensures_check_bind]
      exact ⟨h₄.arena, fun _ => Objection.decides_head hz⟩
    refine Load.Ensures.judged_cons (o := ⟨_, _⟩) ?_ hz
    refine (h₄.readTable hdesc hz).judged_bind fun table r₅ _ htable => ?_
    obtain ⟨hcount, hloadable, p, h₅⟩ := htable
    have hplan := h₅.makePlan table (by omega)
    rw [hloadable] at hplan
    rw [Load.ensures_notes_bind]
    refine hplan.bind (fun plan r₆ hgood => ?_) fun e r₆ hbad => hbad
    exact Load.ensures_pure.2 ⟨hgood.1, rfl, hdesc.entry, hgood.2.1, p, hgood.2.2⟩
  · intro e r₄ harena hshort
    refine ⟨harena, fun hcalm => ?_⟩
    obtain ⟨hlt, -, rfl⟩ := hshort hcalm
    rw [Nat.zero_add] at hlt
    exact (Objection.decides_head hlt).append_right _

/-- **The survey of the image at a path** also finds that there is no file. -/
theorem survey_spec (harena : r.arena? = some a) (hfailure : r.machine.memory.failure = none)
    (path : String) (listing : Bool) :
    Ensures handler (Load.survey path listing)
      (Judged r.Undisturbed
        (⟨r.machine.volume.files.lookup path = none, .notFound⟩ ::
          Image.objections (r.machine.volume.content path))
        (fun r' => r'.arena? = some a)
        fun found r' => found.width = Image.width (r.machine.volume.content path) ∧
          found.headers.file.entry.toNat = Image.entry (r.machine.volume.content path) ∧
          found.plan.segments = Image.loadable (r.machine.volume.content path) ∧
          ∃ p, r'.Serves (r.surroundings path) a p) r := by
  rw [Load.survey_eq, Load.ensures_note_bind]
  obtain ⟨⟨answer, r', notices⟩, hreply, hanswer⟩ := r.openImage harena hfailure path
  refine Load.ensures_ask_bind.2 ⟨_, hreply, Load.ensures_settle_bind.2 ?_⟩
  cases answer with
  | ok u => exact (hanswer.2.examine listing).judged_cons hanswer.1
  | error e =>
    refine ⟨hanswer.1, fun hu => ?_⟩
    obtain ⟨hnone, rfl⟩ := hanswer.2 hu
    exact Objection.decides_head hnone

end ElfBoot.Host.Rig
