import ElfBoot.Proofs.Host.Outcome

/-!
# Which images are accepted

On a machine on which nothing is made to fail, the outcome of a load is settled by the bytes of
the image, the scratch buffers to be had and the ranges of the arena that are taken.

* `Arena.objections` — the objections to placing segments in an arena without reservations, by
  the ranges they would meet.
* `Rig.objections` — all objections to a load, in order.
* `Rig.image_outcome` — a load succeeds exactly if there is none, and fails with the error of the
  first one otherwise.
-/

set_option autoImplicit false

namespace ElfBoot.Host

/-- The objections to placing segments, `taken` being the pages of those before them: the pages
leave the window or overlap a range that is occupied or taken, the buffer is not to be had, or the
file is too short. -/
def Arena.objections (a : Arena) (grants : Nat → Bool) (content : List UInt8) :
    List PageRange → List Segment → List Objection
  | _, [] => []
  | taken, s :: rest =>
    [⟨∃ q ∈ pagesOf s, q.address < a.base ∨ a.base + a.size < q.limit ∨
        ∃ t ∈ a.occupied ++ taken, q.Overlaps t,
       .allocation (.reserve s.pageBase s.pageCount)⟩,
     ⟨0 < s.fileSize ∧ grants s.fileSize = false, .allocation (.buffer s.fileSize)⟩,
     ⟨0 < s.fileSize ∧ content.length < s.fileOffset + s.fileSize,
       .io (.shortRead s.fileSize (content.length - s.fileOffset))⟩] ++
      a.objections grants content (taken ++ pagesOf s) rest

theorem Arena.not_admits_iff {a : Arena} {s : Segment}
    (h : ∀ t ∈ a.reserved ++ a.occupied, 0 < t.pages) :
    ¬ a.Admits s ↔ ∃ q ∈ pagesOf s, q.address < a.base ∨ a.base + a.size < q.limit ∨
      ∃ t ∈ a.occupied ++ a.reserved, q.Overlaps t := by
  have hpages : ∀ q ∈ pagesOf s, q.address < q.limit := by
    intro q hq
    obtain ⟨hne, rfl⟩ := mem_pagesOf.1 hq
    exact PageRange.address_lt_limit (Nat.pos_of_ne_zero hne)
  constructor
  · intro hno
    by_cases hex : ∃ q ∈ pagesOf s, ¬ a.Room q
    · obtain ⟨q, hq, hroom⟩ := hex
      refine ⟨q, hq, ?_⟩
      by_cases hlo : q.address < a.base
      · exact Or.inl hlo
      by_cases hhi : a.base + a.size < q.limit
      · exact Or.inr (Or.inl hhi)
      refine Or.inr (Or.inr ?_)
      by_cases hfree : ∃ t ∈ a.occupied ++ a.reserved, q.Overlaps t
      · exact hfree
      refine absurd ⟨Nat.not_lt.1 hlo, Nat.not_lt.1 hhi, fun t ht hmeet => hfree ?_⟩ hroom
      have htaken : t ∈ a.occupied ++ a.reserved := by
        rw [List.mem_append] at ht ⊢
        exact ht.symm
      exact ⟨t, htaken, PageRange.overlaps_of_lt (hpages q hq)
        (PageRange.address_lt_limit (h t ht)) hmeet.1 hmeet.2⟩
    · refine absurd (fun q hq => ?_) hno
      by_cases hroom : a.Room q
      · exact hroom
      · exact absurd ⟨q, hq, hroom⟩ hex
  · rintro ⟨q, hq, hbad⟩ hadmits
    have hroom := hadmits q hq
    rcases hbad with hlo | hhi | ⟨t, ht, hover⟩
    · exact Nat.not_le.2 hlo hroom.base_le
    · exact Nat.not_le.2 hhi hroom.limit_le
    · refine hroom.free t ?_ hover.lt
      rw [List.mem_append] at ht ⊢
      exact ht.symm

/-- Where no range is empty, asking for overlaps comes to the same as asking the arena. -/
theorem placingAll_eq (env : Surroundings) {a b : Arena} (segments : List Segment)
    (hbase : b.base = a.base) (hsize : b.size = a.size) (hocc : b.occupied = a.occupied)
    (h : ∀ t ∈ b.reserved ++ b.occupied, 0 < t.pages) :
    placingAll env b segments = a.objections env.grants env.content b.reserved segments := by
  induction segments generalizing b with
  | nil => rfl
  | cons s rest ih =>
    unfold placingAll Arena.objections placing
    have hnext : ∀ t ∈ (b.place env.content s).reserved ++ (b.place env.content s).occupied,
        0 < t.pages := by
      intro t ht
      rcases List.mem_append.1 ht with hres | hocc
      · rcases List.mem_append.1 hres with hold | hnew
        · exact h t (List.mem_append_left _ hold)
        · obtain ⟨hne, rfl⟩ := mem_pagesOf.1 hnew
          exact Nat.pos_of_ne_zero hne
      · exact h t (List.mem_append_right _ hocc)
    have hrest := ih (b := b.place env.content s) hbase hsize hocc hnext
    have hfirst := propext (Arena.not_admits_iff (s := s) h)
    rw [hbase, hsize, hocc] at hfirst
    rw [hrest, hfirst]
    rfl

namespace Rig

/-- The objections to a load of the image at a path, in the order in which they count. -/
def objections (r : Rig) (a : Arena) (path : String) : List Objection :=
  (⟨r.machine.volume.files.lookup path = none, .notFound⟩ ::
    Image.objections (r.machine.volume.content path)) ++
      a.objections r.machine.grantsScratch (r.machine.volume.content path) []
        (Image.loadable (r.machine.volume.content path))

variable {r : Rig} {a : Arena}

/-- **The outcome of a load**: the entry point and the width of the image if there is no objection
to it, the error of the first objection otherwise. -/
theorem image_outcome (hu : r.Undisturbed) (harena : r.arena? = some a)
    (hfailure : r.machine.memory.failure = none) (hwindow : a.base + a.size < wordLimit)
    (hreserved : a.reserved = [])
    (hoccupied : ∀ q ∈ a.occupied, 0 < q.pages ∧ q.limit < wordLimit)
    (path : String) (listing : Bool) :
    ((∃ loaded, (r.run (Load.image path listing)).outcome = .done (.ok loaded)) ↔
      Objection.NoneHolds (r.objections a path)) ∧
    (∀ loaded, (r.run (Load.image path listing)).outcome = .done (.ok loaded) →
      loaded.entry = Image.entry (r.machine.volume.content path) ∧
        some loaded.width = Width.ofIdent ((r.machine.volume.content path).getD 4 0)) ∧
    ∀ e, (r.run (Load.image path listing)).outcome = .done (.error e) ↔
      Objection.Decides (r.objections a path) e := by
  have hranges : ∀ q ∈ a.reserved ++ a.occupied, 0 < q.pages ∧ q.limit < wordLimit := by
    intro q hq
    rw [hreserved, List.nil_append] at hq
    exact hoccupied q hq
  have hb : a.Bounded := ⟨hwindow, fun q hq => (hranges q hq).2⟩
  have hobjections := placingAll_eq (r.surroundings path)
    (Image.loadable (r.machine.volume.content path)) rfl rfl rfl fun q hq => (hranges q hq).1
  rw [hreserved] at hobjections
  obtain ⟨value, hvalue, hspec⟩ := image_spec harena hfailure hb
    (rfl : r.machine.volume.content path = _) listing
  rw [hobjections] at hspec
  have hrun : (r.run (Load.image path listing)).outcome = .done value := hvalue
  rw [hrun]
  cases value with
  | ok loaded =>
    obtain ⟨hnone, hentry, hwidth, -⟩ := hspec
    refine ⟨⟨fun _ => hnone, fun _ => ⟨loaded, rfl⟩⟩, ?_, fun e => ⟨fun he => ?_, fun hd => ?_⟩⟩
    · intro other hother
      cases hother
      have himage := (Objection.noneHolds_cons.1 (Objection.noneHolds_append.1 hnone).1).2
      rw [Image.ofIdent_width himage, hwidth]
      exact ⟨hentry, rfl⟩
    · cases he
    · exact absurd hnone hd.not_noneHolds
  | error e =>
    have hdecides : Objection.Decides (r.objections a path) e := hspec.2 hu
    refine ⟨⟨?_, fun hnone => absurd hnone hdecides.not_noneHolds⟩, ?_, fun e' => ⟨?_, ?_⟩⟩
    · rintro ⟨loaded, hloaded⟩
      cases hloaded
    · intro loaded hloaded
      cases hloaded
    · intro he
      cases he
      exact hdecides
    · intro hd
      rw [hd.unique hdecides]

/-- Nothing speaks against the image of two segments.  Without its last byte, the first objection to
it is that the file ends within the second segment. -/
theorem image_outcome_sample :
    ((scatteredRig.run (Load.image "kernel" false)).outcome =
        .done (.ok ⟨0x2003, .bits32, 2, 0x1800, 0x2007⟩) ∧
      Objection.NoneHolds (scatteredRig.objections (Arena.fresh 0x1000 0x2000) "kernel") ∧
      Image.entry scatteredImage = 0x2003 ∧
      Width.ofIdent (scatteredImage.getD 4 0) = some .bits32) ∧
    (cutRig.run (Load.image "kernel" false)).outcome = .done (.error (.io (.shortRead 3 2))) ∧
      Objection.Decides (cutRig.objections (Arena.fresh 0x1000 0x2000) "kernel")
        (.io (.shortRead 3 2)) := by
  have hbuffers : ∀ n ≤ maxTableSize, decide (n < scratchLimit) = true :=
    fun n hn => decide_eq_true (Nat.lt_of_le_of_lt hn (by decide))
  have hoccupied : ∀ q ∈ (Arena.fresh 0x1000 0x2000).occupied,
      0 < q.pages ∧ q.limit < wordLimit := by
    intro q hq
    cases hq
  have hrun : (scatteredRig.run (Load.image "kernel" false)).outcome =
      .done (.ok ⟨0x2003, .bits32, 2, 0x1800, 0x2007⟩) := by decide +kernel
  have hcut : (cutRig.run (Load.image "kernel" false)).outcome =
      .done (.error (.io (.shortRead 3 2))) := by decide +kernel
  have hu : scatteredRig.Undisturbed := by
    refine ⟨fun n cause hfail => ?_, rfl, ⟨rfl, rfl, rfl⟩, hbuffers⟩
    cases hfail
  have hu' : cutRig.Undisturbed := by
    refine ⟨fun n cause hfail => ?_, rfl, ⟨rfl, rfl, rfl⟩, hbuffers⟩
    cases hfail
  obtain ⟨hok, hloaded, -⟩ :=
    image_outcome hu rfl rfl (by decide) rfl hoccupied "kernel" false
  obtain ⟨-, -, herror⟩ := image_outcome hu' rfl rfl (by decide) rfl hoccupied "kernel" false
  obtain ⟨hentry, hwidth⟩ := hloaded _ hrun
  exact ⟨⟨hrun, hok.1 ⟨_, hrun⟩, hentry.symm, hwidth.symm⟩, hcut, (herror _).1 hcut⟩

end Rig

end ElfBoot.Host
