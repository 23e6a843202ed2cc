import ElfBoot.Proofs.Host.Placement
import ElfBoot.Proofs.Host.Survey

/-!
# Placing segments on a rig

What stops a segment from being placed, and what a load leaves in the arena: all segments of the
image if it ends well, otherwise some first ones, of which none is left half placed.

* `Segment.placing`, `placingAll` — the objections to placing one segment and a list of them.
* `Rig.Serves.placeSegment`, `Rig.Serves.placeAll` — placing on a rig.
* `Arena.Prefix` — some first segments are placed, and at most pages reserved for the next one.
* `Rig.image_spec` — how a load of the image at a path ends.
-/

set_option autoImplicit false

namespace ElfBoot

theorem AddressSpace.store_nil (m : AddressSpace) (address : Nat) : m.store address [] = m := by
  ext x
  rw [byte_store]
  by_cases h : x < address
  · rw [if_pos h]
  · rw [if_neg h]
    rfl

theorem AddressSpace.clear_zero (m : AddressSpace) (address : Nat) : m.clear address 0 = m := by
  ext x
  rw [byte_clear, if_neg (by omega)]

open Load (Ensures Judged)

namespace Host

/-! ## Objections to placing -/

/-- The objections to placing a segment in an arena: there is no room for its pages, no buffer for
its bytes in the file, or the file ends before them. -/
def placing (env : Surroundings) (a : Arena) (s : Segment) : List Objection :=
  [⟨¬ a.Admits s, .allocation (.reserve s.pageBase s.pageCount)⟩,
   ⟨0 < s.fileSize ∧ env.grants s.fileSize = false, .allocation (.buffer s.fileSize)⟩,
   ⟨0 < s.fileSize ∧ env.content.length < s.fileOffset + s.fileSize,
     .io (.shortRead s.fileSize (env.content.length - s.fileOffset))⟩]

/-- The objections to placing segments one after another. -/
def placingAll (env : Surroundings) : Arena → List Segment → List Objection
  | _, [] => []
  | a, s :: rest => placing env a s ++ placingAll env (a.place env.content s) rest

/-- Only the bytes from the file that placing a segment copies. -/
def Arena.copy (content : List UInt8) (a : Arena) (s : Segment) : Arena :=
  { a with
    memory := a.memory.store s.address ((content.drop s.fileOffset).take s.fileSize) }

/-- Only the clearing that placing a segment does. -/
def Arena.wipe (a : Arena) (s : Segment) : Arena :=
  { a with
    memory := a.memory.clear (s.address + s.fileSize) (s.memorySize - s.fileSize)
    zeroCalls := a.zeroCalls + if s.memorySize - s.fileSize = 0 then 0 else 1 }

theorem Arena.copy_of_not_pos {content : List UInt8} {a : Arena} {s : Segment}
    (h : ¬ 0 < s.fileSize) : a.copy content s = a := by
  unfold copy
  rw [Nat.eq_zero_of_not_pos h, List.take_zero, AddressSpace.store_nil]

theorem Arena.wipe_of_pos {a : Arena} {s : Segment} (h : 0 < s.memorySize - s.fileSize) :
    a.wipe s =
      { a with
        memory := a.memory.clear (s.address + s.fileSize) (s.memorySize - s.fileSize)
        zeroCalls := a.zeroCalls + 1 } := by
  unfold wipe
  rw [if_neg (Nat.ne_of_gt h)]

theorem Arena.wipe_of_not_pos {a : Arena} {s : Segment} (h : ¬ 0 < s.memorySize - s.fileSize) :
    a.wipe s = a := by
  unfold wipe
  rw [Nat.eq_zero_of_not_pos h, AddressSpace.clear_zero]
  rfl

theorem Arena.place_eq (content : List UInt8) (a : Arena) (s : Segment) :
    a.place content s = ((a.claim s).copy content s).wipe s := rfl

/-- The first `k` segments are placed; of the next one, at most the pages are reserved. -/
def Arena.Prefix (content : List UInt8) (a : Arena) (segments : List Segment) (k : Nat)
    (a' : Arena) : Prop :=
  a' = a.placeAll content (segments.take k) ∨
    ∃ s, segments[k]? = some s ∧ a' = (a.placeAll content (segments.take k)).claim s

namespace Rig

variable {env : Surroundings} {a : Arena} {position : Nat} {r : Rig} {s : Segment}

/-! ## One segment -/

/-- No byte of the arena was changed, and at most the pages of the segment were reserved. -/
def AtMostClaimed (a : Arena) (s : Segment) (r : Rig) : Prop :=
  r.arena? = some a ∨ r.arena? = some (a.claim s)

theorem Serves.reservePages (h : r.Serves env a position) (hb : a.Bounded) :
    Ensures handler (Load.reservePages s s.pageCount)
      (Judged env.calm [⟨¬ a.Admits s, .allocation (.reserve s.pageBase s.pageCount)⟩]
        (fun r' => r'.arena? = some a)
        fun _ r' => a.Admits s ∧ r'.Serves env (a.claim s) position) r := by
  unfold Load.reservePages
  by_cases hpos : 0 < s.pageCount
  · rw [if_pos hpos, Load.ensures_note_bind]
    have hadmits : a.Admits s ↔ a.Room ⟨s.pageBase, s.pageCount⟩ := Arena.admits_iff_room hpos
    by_cases hroom : a.Room ⟨s.pageBase, s.pageCount⟩
    · obtain ⟨reply, hreply, hanswer, hserves⟩ := h.reserve (Arena.reserve_of_room hb hroom)
      refine Load.ensures_ask_bind.2 ⟨reply, hreply, Load.ensures_settle.2 ?_⟩
      rw [hanswer]
      refine ⟨?_, hadmits.2 hroom, ?_⟩
      · exact Objection.noneHolds_singleton.2 (not_not_intro (hadmits.2 hroom))
      · rw [Arena.claim_of_pos hpos]
        exact hserves
    · obtain ⟨reply, hreply, hanswer, hserves⟩ := h.reserve (Arena.reserve_of_no_room hb hroom)
      refine Load.ensures_ask_bind.2 ⟨reply, hreply, Load.ensures_settle.2 ?_⟩
      rw [hanswer]
      exact ⟨hserves.arena, fun _ => Objection.decides_head fun hadm => hroom (hadmits.1 hadm)⟩
  · have hadm : a.Admits s := Arena.admits_of_not_pos hpos
    rw [if_neg hpos, Arena.claim_of_not_pos hpos]
    exact Load.ensures_pure.2 ⟨Objection.noneHolds_singleton.2 (not_not_intro hadm), hadm, h⟩

theorem Serves.copyFromFile (h : r.Serves env a s.fileOffset) (hb : a.Bounded)
    (howns : 0 < s.fileSize → a.Owns s.address s.fileSize) :
    Ensures handler (Load.copyFromFile s)
      (Judged env.calm (placing env a s).tail (fun r' => r'.arena? = some a)
        fun _ r' => ∃ p, r'.Serves env (a.copy env.content s) p) r := by
  unfold Load.copyFromFile
  by_cases hpos : 0 < s.fileSize
  · rw [if_pos hpos]
    refine Load.ensures_note_bind.2 (h.scratch_bind (fun r₁ hyes h₁ => ?_) ?_)
    · refine Load.ensures_note_bind.2 (h₁.read_bind (fun r₂ hlen h₂ => ?_) ?_)
      · rw [Load.ensures_note_bind]
        have hfits : ¬ (0 < s.fileSize ∧ env.content.length < s.fileOffset + s.fileSize) := by
          rw [List.length_take, List.length_drop] at hlen
          omega
        have hgranted : ¬ (0 < s.fileSize ∧ env.grants s.fileSize = false) := by
          rw [hyes]
          exact fun hno => Bool.noConfusion hno.2
        have howned : a.Owns s.address
            ((env.content.drop s.fileOffset).take s.fileSize).length := by
          rw [hlen]
          exact howns hpos
        have hwrite := Arena.write_of_owns hb howned
        obtain ⟨reply, hreply, hanswer, hserves⟩ := h₂.write hwrite
        refine Load.ensures_ask_bind.2 ⟨reply, hreply, Load.ensures_settle.2 ?_⟩
        rw [hanswer]
        exact ⟨Objection.noneHolds_cons.2 ⟨hgranted, Objection.noneHolds_singleton.2 hfits⟩,
          _, hserves⟩
      · intro e r₂ harena hshort
        refine ⟨harena, fun hcalm => ?_⟩
        obtain ⟨hlt, -, rfl⟩ := hshort hcalm
        refine (Objection.decides_head (o := ⟨_, _⟩) ⟨hpos, hlt⟩).cons ?_
        rw [hyes]
        exact fun hno => Bool.noConfusion hno.2
    · intro r₁ hno harena
      exact ⟨harena, fun hcalm => Objection.decides_head (o := ⟨_, _⟩) ⟨hpos, hno hcalm⟩⟩
  · rw [if_neg hpos, Arena.copy_of_not_pos hpos]
    refine Load.ensures_pure.2 ⟨?_, _, h⟩
    exact Objection.noneHolds_cons.2
      ⟨fun hh => hpos hh.1, Objection.noneHolds_singleton.2 fun hh => hpos hh.1⟩

theorem Serves.clearRest (h : r.Serves env a position) (hb : a.Bounded) (hs : s.Sound)
    (howns : s.fileSize < s.memorySize →
      a.Owns (s.address + s.fileSize) (s.memorySize - s.fileSize)) :
    Ensures handler (Load.clearRest s)
      (Judged env.calm [] (fun _ => False) fun _ r' => r'.Serves env (a.wipe s) position) r := by
  unfold Load.clearRest
  rw [Segment.zeroFill?_eq hs.size_le, Load.ensures_expect_bind]
  by_cases hpos : 0 < s.memorySize - s.fileSize
  · have hstart : s.address + s.fileSize < wordLimit := by
      have hsize := hs.size_le
      have hend := hs.memory_end
      omega
    rw [if_pos hpos, Address.add?_eq_some_iff.2 ⟨hstart, rfl⟩, Load.ensures_expect_bind,
      Load.ensures_note_bind]
    have hzero := Arena.zero_of_owns hb (howns (by omega))
    obtain ⟨reply, hreply, hanswer, hserves⟩ := h.zero hzero
    refine Load.ensures_ask_bind.2 ⟨reply, hreply, Load.ensures_settle.2 ?_⟩
    rw [hanswer]
    refine ⟨Objection.noneHolds_nil, ?_⟩
    rw [Arena.wipe_of_pos hpos]
    exact hserves
  · rw [if_neg hpos, Arena.wipe_of_not_pos hpos]
    exact Load.ensures_pure.2 ⟨Objection.noneHolds_nil, h⟩

/-- **Placing a segment** places all of it, or changes no byte. -/
theorem Serves.placeSegment (h : r.Serves env a position) (hb : a.Bounded) (hs : s.Sound) :
    Ensures handler (Load.placeSegment s)
      (Judged env.calm (placing env a s) (AtMostClaimed a s)
        fun _ r' => a.Admits s ∧ ∃ p, r'.Serves env (a.place env.content s) p) r := by
  rw [Load.placeSegment_eq (Segment.pageCount?_eq hs.memory_end), Load.ensures_note_bind]
  refine h.seek_bind (fun _ => Or.inl) fun r₁ h₁ => ?_
  have hreserve := (h₁.reservePages (s := s) hb).judged_weaken (AtMostClaimed a s) fun _ => Or.inl
  refine hreserve.judged_bind fun u r₂ _ hclaim => ?_
  obtain ⟨hadmits, h₂⟩ := hclaim
  have hb₂ : (a.claim s).Bounded := hb.claim hadmits
  have hcopy := (h₂.copyFromFile hb₂ (Arena.owns_claim_file hs)).judged_weaken
    (AtMostClaimed a s) fun _ => Or.inr
  have hb₃ : ((a.claim s).copy env.content s).Bounded := ⟨hb₂.window, hb₂.ranges⟩
  refine hcopy.judged_bind fun u r₃ _ hcopied => ?_
  obtain ⟨p, h₃⟩ := hcopied
  refine (h₃.clearRest hb₃ hs Arena.owns_claim_rest).judged_imp (AtMostClaimed a s)
    (fun _ hno => hno.elim) fun _ r₄ h₄ => ⟨hadmits, p, ?_⟩
  rw [Arena.place_eq]
  exact h₄

/-! ## All segments -/

/-- The arena holds some first segments, and at most the pages of the next one are reserved. -/
def HoldsPrefix (content : List UInt8) (a : Arena) (segments : List Segment) (r : Rig) : Prop :=
  ∃ k a', k ≤ segments.length ∧ r.arena? = some a' ∧ a.Prefix content segments k a'

theorem AtMostClaimed.holdsPrefix {content : List UInt8} {rest : List Segment}
    (h : AtMostClaimed a s r) : HoldsPrefix content a (s :: rest) r := by
  rcases h with hsame | hclaim
  · exact ⟨0, a, Nat.zero_le _, hsame, Or.inl rfl⟩
  · exact ⟨0, a.claim s, Nat.zero_le _, hclaim, Or.inr ⟨s, rfl, rfl⟩⟩

theorem HoldsPrefix.cons {content : List UInt8} {rest : List Segment}
    (h : HoldsPrefix content (a.place content s) rest r) :
    HoldsPrefix content a (s :: rest) r := by
  obtain ⟨k, a', hk, harena, hprefix⟩ := h
  refine ⟨k + 1, a', Nat.succ_le_succ hk, harena, ?_⟩
  rcases hprefix with hplaced | ⟨t, ht, hclaim⟩
  · exact Or.inl hplaced
  · exact Or.inr ⟨t, ht, hclaim⟩

/-- **Placing segments one after another** places some first ones completely, and all of them if
there is no objection to any. -/
theorem Serves.placeAll {segments : List Segment} (h : r.Serves env a position)
    (hb : a.Bounded) (hs : ∀ s ∈ segments, s.Sound) :
    Ensures handler (Load.placeAll segments)
      (Judged env.calm (placingAll env a segments) (HoldsPrefix env.content a segments)
        fun _ r' => Arena.AdmitsAll env.content a segments ∧
          ∃ p, r'.Serves env (a.placeAll env.content segments) p) r := by
  induction segments generalizing a r position with
  | nil => exact Load.ensures_pure.2 ⟨Objection.noneHolds_nil, trivial, position, h⟩
  | cons s rest ih =>
    obtain ⟨hsound, hrest⟩ := List.forall_mem_cons.1 hs
    have hfirst := (h.placeSegment hb hsound).judged_weaken
      (HoldsPrefix env.content a (s :: rest)) fun _ => AtMostClaimed.holdsPrefix
    unfold Load.placeAll
    refine hfirst.judged_bind fun u r₁ _ hplaced => ?_
    obtain ⟨hadmits, p, h₁⟩ := hplaced
    rw [Load.ensures_note_bind]
    refine (ih h₁ (hb.place hadmits) hrest).judged_imp (HoldsPrefix env.content a (s :: rest))
      (fun _ => HoldsPrefix.cons) fun _ r₂ hgood => ?_
    exact ⟨⟨hadmits, hgood.1⟩, hgood.2⟩

end Rig

end Host

namespace Host.Rig

variable {content : List UInt8} {a : Arena} {r : Rig}

/-- What is done before the file is closed places all segments of the image, or stops with the
first objection and then holds some first segments. -/
theorem beforeClose_spec (harena : r.arena? = some a)
    (hfailure : r.machine.memory.failure = none) (hb : a.Bounded) {path : String}
    (hcontent : r.machine.volume.content path = content) (listing : Bool) :
    Ensures handler (Load.beforeClose path listing)
      (Judged r.Undisturbed
        ((⟨r.machine.volume.files.lookup path = none, .notFound⟩ :: Image.objections content) ++
          placingAll (r.surroundings path) a (Image.loadable content))
        (HoldsPrefix content a (Image.loadable content))
        fun p r' => p.1.headers.file.entry.toNat = Image.entry content ∧
          p.1.width = Image.width content ∧ p.1.plan.segments = Image.loadable content ∧
          (∀ s ∈ Image.loadable content, s.Sound) ∧
          Arena.AdmitsAll content a (Image.loadable content) ∧
          ∃ q, r'.Serves (r.surroundings path) (a.placeAll content (Image.loadable content)) q)
      r := by
  subst hcontent
  have hsurvey := (survey_spec harena hfailure path listing).judged_weaken
    (HoldsPrefix (r.machine.volume.content path) a
      (Image.loadable (r.machine.volume.content path)))
    fun _ harena => ⟨0, a, Nat.zero_le _, harena, Or.inl rfl⟩
  unfold Load.beforeClose
  refine hsurvey.judged_bind fun found r₁ hnone hfound => ?_
  obtain ⟨hwidth, hentry, hsegments, p, h₁⟩ := hfound
  have hsound : ∀ s ∈ Image.loadable (r.machine.volume.content path), s.Sound :=
    (Image.plan_of_noneHolds (Objection.noneHolds_cons.1 hnone).2).1
  have hplace := h₁.placeAll hb hsound
  unfold Load.placePlan
  rw [bind_assoc, hsegments]
  refine hplace.bind (fun u r₂ hplaced => ?_) fun e r₂ hfailed => hfailed
  obtain ⟨hnone₂, hadmits, hserves⟩ := hplaced
  rw [pure_bind]
  exact Load.ensures_pure.2 ⟨hnone₂, hentry, hwidth, hsegments, hsound, hadmits, hserves⟩

/-- Closing the file changes nothing in the arena; it fails only if something is made to fail. -/
theorem Serves.conclude {env : Surroundings} {position : Nat} (h : r.Serves env a position)
    {found : Survey} (hs : ∀ s ∈ found.plan.segments, s.Sound) (segments : Nat) :
    Ensures handler (Load.conclude found segments)
      (Judged env.calm [] (fun r' => r'.arena? = some a) fun loaded r' =>
        loaded.entry = found.headers.file.entry.toNat ∧ loaded.width = found.width ∧
          r'.arena? = some a) r := by
  obtain ⟨span, hspan⟩ := Plan.exists_span hs (wordLimit - 1, 0)
  have hspan : found.plan.span? = some span := hspan
  unfold Load.conclude
  rw [hspan, Load.ensures_expect_bind]
  obtain ⟨⟨answer, r', notices⟩, hreply, hclosed, hcalm⟩ := h.close
  refine Load.ensures_note_bind.2 (Load.ensures_ask_bind.2 ⟨_, hreply, ?_⟩)
  rw [Load.ensures_settleIo_bind]
  cases answer with
  | ok u =>
    rw [Load.ensures_note_bind]
    exact Load.ensures_pure.2 ⟨Objection.noneHolds_nil, rfl, rfl, hclosed⟩
  | error e =>
    refine ⟨hclosed, fun hc => ?_⟩
    have hok := hcalm hc
    cases hok

/-- **The load of the image at a path** places all its segments, or stops with the first objection
and then holds some first segments. -/
theorem image_spec (harena : r.arena? = some a) (hfailure : r.machine.memory.failure = none)
    (hb : a.Bounded) {path : String} (hcontent : r.machine.volume.content path = content)
    (listing : Bool) :
    Ensures handler (Load.image path listing)
      (Judged r.Undisturbed
        ((⟨r.machine.volume.files.lookup path = none, .notFound⟩ :: Image.objections content) ++
          placingAll (r.surroundings path) a (Image.loadable content))
        (HoldsPrefix content a (Image.loadable content))
        fun loaded r' => loaded.entry = Image.entry content ∧ loaded.width = Image.width content ∧
          (∀ s ∈ Image.loadable content, s.Sound) ∧
          Arena.AdmitsAll content a (Image.loadable content) ∧
          r'.arena? = some (a.placeAll content (Image.loadable content))) r := by
  rw [Load.image_eq, ← List.append_nil (_ ++ placingAll _ _ _)]
  refine (beforeClose_spec harena hfailure hb hcontent listing).judged_bind fun p r₁ _ hp => ?_
  obtain ⟨hentry, hwidth, hsegments, hsound, hadmits, q, h₁⟩ := hp
  have hplan : ∀ s ∈ p.1.plan.segments, s.Sound := by
    rw [hsegments]
    exact hsound
  refine (h₁.conclude hplan p.2).judged_imp (HoldsPrefix content a (Image.loadable content))
    (fun r₂ harena₂ => ?_) fun loaded r₂ hloaded => ?_
  · refine ⟨_, _, Nat.le_refl _, harena₂, Or.inl ?_⟩
    rw [List.take_length]
  · exact ⟨hloaded.1.trans hentry, hloaded.2.1.trans hwidth, hsound, hadmits, hloaded.2.2⟩

end Host.Rig

end ElfBoot
