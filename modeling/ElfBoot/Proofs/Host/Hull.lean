import ElfBoot.Proofs.Host.Isolation
import ElfBoot.Proofs.Host.TouchedPages
import ElfBoot.Proofs.Load.Faultless
import ElfBoot.Proofs.Program.SideBySide

/-!
# What a load reports of its memory

A load that ends well reports how many segments it placed, the lowest address of one and the
highest end of one.  Nothing outside of these bounds was changed, and no page was reserved that
lies outside of them by more than the rounding to whole pages.

* `Hull` — the smallest bounds of some segments.
* `Plan.widened_foldl`, `Plan.hull_of_span?` — the fold that a plan reports gives them.
* `PlacingTalk.requested_eq`, `PlacingTalk.within` — placing segments asks for their pages and
  changes their bytes only.
* `Arena.Answers.effect`, `Arena.Played.effect` — what events add to the reservations of an arena,
  and which bytes they leave alone.
* `Rig.survey_grants_nothing`, `Rig.survey_changes_nothing` — a survey takes no part in that.
* `Rig.image_placing`, `Rig.image_hull` — the events of a load that are on the memory, and its
  report.
-/

set_option autoImplicit false

namespace ElfBoot

/-! ## The hull of segments -/

/-- The smallest bounds of some segments: each lies within them, and each bound is attained. -/
structure Hull (segments : List Segment) (lo hi : Nat) : Prop where
  within : ∀ s ∈ segments, lo ≤ s.address ∧ s.address + s.memorySize ≤ hi
  lowest : ∃ s ∈ segments, s.address = lo
  highest : ∃ s ∈ segments, s.address + s.memorySize = hi

namespace Hull

variable {segments : List Segment} {lo hi : Nat}

theorem le (h : Hull segments lo hi) : lo ≤ hi := by
  obtain ⟨s, hs, rfl⟩ := h.lowest
  exact Nat.le_trans (Nat.le_add_right _ _) (h.within s hs).2

/-- The pages of each segment lie within the bounds, rounded to whole pages. -/
theorem pages (h : Hull segments lo hi) {q : PageRange}
    (hq : q ∈ segments.flatMap Host.Arena.pagesOf) :
    pageBase lo ≤ q.address ∧ q.limit ≤ (hi + (pageSize - 1)) / pageSize * pageSize := by
  obtain ⟨s, hs, hmem⟩ := List.mem_flatMap.1 hq
  obtain ⟨-, rfl⟩ := Host.mem_pagesOf.1 hmem
  obtain ⟨hlo, hhi⟩ := h.within s hs
  have hlimit := s.limit_reservation
  constructor
  · exact Nat.mul_le_mul_right _ (Nat.div_le_div_right hlo)
  · show s.reservation.limit ≤ _
    rw [hlimit]
    exact Nat.mul_le_mul_right _ (Nat.div_le_div_right (Nat.add_le_add_right hhi _))

end Hull

namespace Plan

/-- The smallest span that holds a span and some segments. -/
structure Widened (span : Nat × Nat) (segments : List Segment) (whole : Nat × Nat) : Prop where
  start : whole.1 ≤ span.1 ∧ span.2 ≤ whole.2
  within : ∀ s ∈ segments, whole.1 ≤ s.address ∧ s.address + s.memorySize ≤ whole.2
  lowest : whole.1 = span.1 ∨ ∃ s ∈ segments, s.address = whole.1
  highest : whole.2 = span.2 ∨ ∃ s ∈ segments, s.address + s.memorySize = whole.2

theorem widened_foldl (segments : List Segment) (span : Nat × Nat) :
    Widened span segments (segments.foldl extendSpan span) := by
  induction segments generalizing span with
  | nil => exact ⟨⟨Nat.le_refl _, Nat.le_refl _⟩, List.forall_mem_nil _, Or.inl rfl, Or.inl rfl⟩
  | cons s rest ih =>
    have hrest := ih (extendSpan span s)
    constructor
    case start =>
      exact ⟨Nat.le_trans hrest.start.1 (Nat.min_le_left _ _),
        Nat.le_trans (Nat.le_max_left _ _) hrest.start.2⟩
    case within =>
      refine List.forall_mem_cons.2 ⟨⟨?_, ?_⟩, hrest.within⟩
      · exact Nat.le_trans hrest.start.1 (Nat.min_le_right _ _)
      · exact Nat.le_trans (Nat.le_max_right _ _) hrest.start.2
    case lowest =>
      rcases hrest.lowest with heq | ⟨t, ht, heq⟩
      · rcases Nat.le_total span.1 s.address with hle | hle
        · exact Or.inl (heq.trans (Nat.min_eq_left hle))
        · exact Or.inr ⟨s, List.mem_cons_self, (heq.trans (Nat.min_eq_right hle)).symm⟩
      · exact Or.inr ⟨t, List.mem_cons_of_mem s ht, heq⟩
    case highest =>
      rcases hrest.highest with heq | ⟨t, ht, heq⟩
      · rcases Nat.le_total (s.address + s.memorySize) span.2 with hle | hle
        · exact Or.inl (heq.trans (Nat.max_eq_left hle))
        · exact Or.inr ⟨s, List.mem_cons_self, (heq.trans (Nat.max_eq_right hle)).symm⟩
      · exact Or.inr ⟨t, List.mem_cons_of_mem s ht, heq⟩

/-- **The span of a plan** is the hull of its segments. -/
theorem hull_of_span? {p : Plan} (hs : ∀ s ∈ p.segments, s.Sound) (hne : p.segments ≠ [])
    {lo hi : Nat} (hspan : p.span? = some (lo, hi)) : Hull p.segments lo hi := by
  have hfold : p.span? = some (p.segments.foldl extendSpan (wordLimit - 1, 0)) :=
    foldlM_extendSpan? hs (wordLimit - 1, 0)
  have hwidened := widened_foldl p.segments (wordLimit - 1, 0)
  rw [Option.some_inj.1 (hfold.symm.trans hspan)] at hwidened
  -- where the fold starts is attained by any segment that does not move it
  obtain ⟨s, hmem⟩ := List.exists_mem_of_ne_nil _ hne
  have haddress : s.address ≤ wordLimit - 1 := by
    have hend := (hs s hmem).memory_end
    omega
  obtain ⟨hlo, hhi⟩ := hwidened.within s hmem
  constructor
  case within => exact hwidened.within
  case lowest =>
    rcases hwidened.lowest with hstart | hattained
    · exact ⟨s, hmem, Nat.le_antisymm (Nat.le_trans haddress (Nat.le_of_eq hstart.symm)) hlo⟩
    · exact hattained
  case highest =>
    rcases hwidened.highest with hstart | hattained
    · exact ⟨s, hmem, Nat.le_antisymm hhi (Nat.le_trans (Nat.le_of_eq hstart) (Nat.zero_le _))⟩
    · exact hattained

end Plan

/-! ## What placing segments asks for and changes -/

/-- The conversation that places a segment changes bytes of the segment only. -/
theorem Segment.Talk.within {s : Segment} {es : List Event} (h : s.Talk es) (hs : s.Sound)
    {ev : Event} (hev : ev ∈ es) {address len : Nat} (ht : ev.target? = some (address, len)) :
    s.address ≤ address ∧ address + len ≤ s.address + s.memorySize := by
  obtain ⟨copying, hcopying, rfl⟩ := h
  rcases List.mem_cons.1 hev with rfl | hev
  · cases ht
  rcases List.mem_append.1 hev with hreserve | hev
  · unfold reserving at hreserve
    split at hreserve
    · obtain rfl := List.mem_singleton.1 hreserve
      cases ht
    · cases hreserve
  rcases List.mem_append.1 hev with hcopy | hclear
  · exact (hcopying.keeps hs ev hcopy).within address len ht
  · exact (keeps_clearing hs ev hclear).within address len ht

namespace PlacingTalk

variable {segments : List Segment} {es : List Event}

theorem requested_eq (h : PlacingTalk segments es) (hs : ∀ s ∈ segments, s.Sound) :
    requested es = segments.flatMap Host.Arena.pagesOf := by
  induction h with
  | nil => rfl
  | cons htalk _ ih =>
    obtain ⟨hsound, hrest⟩ := List.forall_mem_cons.1 hs
    rw [requested_append, htalk.requested hsound, ih hrest, List.flatMap_cons]

/-- The conversation that places segments changes bytes of one of them at a time. -/
theorem within (h : PlacingTalk segments es) (hs : ∀ s ∈ segments, s.Sound) {ev : Event}
    (hev : ev ∈ es) {address len : Nat} (ht : ev.target? = some (address, len)) :
    ∃ s ∈ segments, s.address ≤ address ∧ address + len ≤ s.address + s.memorySize := by
  induction h with
  | nil => cases hev
  | @cons s rest es es' htalk _ ih =>
    obtain ⟨hsound, hrest⟩ := List.forall_mem_cons.1 hs
    rcases List.mem_append.1 hev with hfirst | hlater
    · exact ⟨s, List.mem_cons_self, htalk.within hsound hfirst ht⟩
    · obtain ⟨t, hmem, hbounds⟩ := ih hrest hlater
      exact ⟨t, List.mem_cons_of_mem s hmem, hbounds⟩

end PlacingTalk

/-- Placing a plan that ends well counts its segments and gives its span. -/
theorem Load.yields_place_conclude {found : Survey} (hs : ∀ s ∈ found.plan.segments, s.Sound) :
    Yields (placePlan found.plan >>= conclude found) fun loaded =>
      loaded.segments = found.plan.size ∧
        found.plan.span? = some (loaded.base, loaded.limit) := by
  obtain ⟨⟨lo, hi⟩, hfold⟩ := Plan.exists_span hs (wordLimit - 1, 0)
  have hspan : found.plan.span? = some (lo, hi) := hfold
  have hcount : Yields (placePlan found.plan) fun n => n = found.plan.size :=
    (yields_placeAll hs).bind fun _ _ => yields_pure rfl
  refine hcount.bind fun n hn => ?_
  unfold conclude
  rw [hspan]
  refine yields_note_bind (yields_ask_bind fun answer => yields_settleIo_bind fun _ => ?_)
  exact yields_note_bind (yields_pure ⟨hn, rfl⟩)

namespace Host

/-! ## What events do to an arena -/

/-- What is granted was asked for. -/
theorem granted_subset (es : List Event) : granted es ⊆ requested es := by
  intro q hq
  obtain ⟨ev, hev, hgrant⟩ := List.mem_filterMap.1 hq
  refine List.mem_filterMap.2 ⟨ev, hev, ?_⟩
  split at hgrant
  case h_1 address pages => exact hgrant
  case h_2 => cases hgrant

namespace Arena

variable {a a' : Arena} {x : Nat}

/-- **One event** adds the pages it is granted to the reservations and changes bytes of its target
only. -/
theorem Answers.effect {ev : Event} (h : Answers ev a a') :
    a'.reserved = a.reserved ++ granted [ev] ∧
      ∀ x, (∀ address len, ev.target? = some (address, len) →
        ¬ (address ≤ x ∧ x < address + len)) → a'.memory.byte x = a.memory.byte x := by
  obtain ⟨c, answer⟩ := ev
  have hsame : a.reserved = a.reserved ++ [] := (List.append_nil _).symm
  cases c with
  | reserve address pages =>
    obtain ⟨granted, -, heq⟩ := Option.map_eq_some_iff.1 h
    cases granted with
    | false =>
      cases heq
      exact ⟨hsame, fun _ _ => rfl⟩
    | true =>
      cases heq
      exact ⟨rfl, fun _ _ => rfl⟩
  | write address bytes =>
    obtain ⟨owned, -, heq⟩ := Option.map_eq_some_iff.1 h
    cases owned with
    | false =>
      cases heq
      exact ⟨hsame, fun _ _ => rfl⟩
    | true =>
      cases heq
      exact ⟨hsame, fun x hx => AddressSpace.byte_store_of_outside (hx _ _ rfl)⟩
  | zero address len =>
    obtain ⟨owned, -, heq⟩ := Option.map_eq_some_iff.1 h
    cases owned with
    | false =>
      cases heq
      exact ⟨hsame, fun _ _ => rfl⟩
    | true =>
      cases heq
      exact ⟨hsame, fun x hx => AddressSpace.byte_clear_of_outside (hx _ _ rfl)⟩
  | _ =>
    cases h
    exact ⟨hsame, fun _ _ => rfl⟩

/-- **A run of events**, likewise. -/
theorem Played.effect {es : List Event} (h : a.Played es a') :
    a'.reserved = a.reserved ++ granted es ∧
      ∀ x, (∀ ev ∈ es, ∀ address len, ev.target? = some (address, len) →
        ¬ (address ≤ x ∧ x < address + len)) → a'.memory.byte x = a.memory.byte x := by
  induction h with
  | nil => exact ⟨(List.append_nil _).symm, fun _ _ => rfl⟩
  | @cons a a₁ a' ev es hev _ ih =>
    obtain ⟨hreserved, hbytes⟩ := hev.effect
    obtain ⟨hreserved', hbytes'⟩ := ih
    refine ⟨?_, fun x hx => ?_⟩
    · rw [hreserved', hreserved, List.append_assoc, ← granted_append]
      rfl
    · obtain ⟨hfirst, hrest⟩ := List.forall_mem_cons.1 hx
      exact (hbytes' x hrest).trans (hbytes x hfirst)

end Arena

/-- Bytes are changed only after pages were granted. -/
theorem granted_ne_nil {es : List Event} (h : Contained es) {ev : Event} (hev : ev ∈ es)
    {address len : Nat} (ht : ev.target? = some (address, len)) : granted es ≠ [] := by
  obtain ⟨before, after, rfl⟩ := List.append_of_mem hev
  obtain ⟨pre, base, pages, post, rfl, -⟩ := h.backed before ev after rfl address len ht
  intro hnil
  rw [granted_append, granted_append] at hnil
  cases (List.append_eq_nil_iff.1 (List.append_eq_nil_iff.1 hnil).1).2

namespace Rig

variable {r : Rig} {a : Arena} {content : List UInt8} {path : String} {listing : Bool}

/-! ## The report of a load -/

theorem survey_grants_nothing (harena : r.arena? = some a)
    (hfailure : r.machine.memory.failure = none) {found : Survey}
    (hrun : (r.run (Load.survey path listing)).outcome = .done (.ok found)) :
    granted (r.run (Load.survey path listing)).events = [] := by
  obtain ⟨-, -, -, -, p, hserves⟩ :=
    (survey_spec harena hfailure path listing).of_outcome hrun
  obtain ⟨a', hstate, hplayed⟩ := exists_played (Load.survey path listing).run harena hfailure
  obtain rfl : a = a' := Option.some_inj.1 (hserves.arena.symm.trans hstate)
  exact List.append_right_eq_self.1 hplayed.effect.1.symm

theorem survey_changes_nothing (harena : r.arena? = some a)
    (hfailure : r.machine.memory.failure = none) {found : Survey}
    (hrun : (r.run (Load.survey path listing)).outcome = .done (.ok found))
    (hcontained : Contained (r.run (Load.survey path listing)).events) :
    ∀ ev ∈ (r.run (Load.survey path listing)).events, ev.target? = none := by
  intro ev hev
  rcases htarget : ev.target? with _ | ⟨address, len⟩
  · rfl
  · exact absurd (survey_grants_nothing harena hfailure hrun)
      (granted_ne_nil hcontained hev htarget)

/-- What a survey that ends well found can be placed, and there is something to place. -/
theorem survey_found (harena : r.arena? = some a) (hfailure : r.machine.memory.failure = none)
    (hfile : r.machine.volume.files.lookup path = some content) {found : Survey}
    (hrun : (r.run (Load.survey path listing)).outcome = .done (.ok found)) :
    found.plan.segments = Image.loadable content ∧
      (∀ s ∈ Image.loadable content, s.Sound) ∧ Image.loadable content ≠ [] := by
  obtain ⟨hnone, -, -, hsegments, -⟩ :=
    (survey_spec harena hfailure path listing).of_outcome hrun
  rw [Volume.content_of_lookup hfile] at hnone hsegments
  exact ⟨hsegments, Image.plan_of_noneHolds (Objection.noneHolds_cons.1 hnone).2⟩

/-- A load that ends well reports on a plan, which is that of the image, and of its events only
those that place the plan are on the memory. -/
theorem image_placing (harena : r.arena? = some a) (hfailure : r.machine.memory.failure = none)
    (hfile : r.machine.volume.files.lookup path = some content) {loaded : LoadedImage}
    (hrun : (r.run (Load.image path listing)).outcome = .done (.ok loaded)) :
    ∃ (p : Plan) (placing : List Event), p.segments = Image.loadable content ∧
      (∀ s ∈ p.segments, s.Sound) ∧ p.segments ≠ [] ∧ loaded.segments = p.size ∧
      p.span? = some (loaded.base, loaded.limit) ∧ PlacingTalk p.segments placing ∧
      granted (r.run (Load.image path listing)).events = granted placing ∧
      ∀ ev ∈ (r.run (Load.image path listing)).events, ev.target? ≠ none → ev ∈ placing := by
  have hcontained : Contained (r.run (Load.image path listing)).events :=
    Load.contained_image handler r path listing
  have hsplit := hrun
  rw [run, Load.image_eq_survey_bind] at hsplit
  obtain ⟨found, r₁, hsurvey, -, hplace, -, hevents⟩ := Load.run_bind_ok handler r hsplit
  rw [← Load.image_eq_survey_bind] at hevents
  obtain ⟨hsegments, hsound, hne⟩ := survey_found harena hfailure hfile hsurvey
  rw [← hsegments] at hsound hne
  obtain ⟨hcount, hspan⟩ := (Load.yields_place_conclude hsound).of_outcome hplace
  have hconf : Conforms [] (Load.placePlan found.plan >>= Load.conclude found) _ :=
    Load.conforms_place_conclude found hsound
  obtain ⟨talk, result, ⟨placing, htalk, rfl, -⟩, -, hends⟩ := hconf Rig handler r₁
  have hall : (r.run (Load.image path listing)).events =
      (r.run (Load.survey path listing)).events ++ (placing ++ [⟨.close, .ok ()⟩]) := by
    rw [← (hends.of_ok hplace).1]
    exact hevents
  rw [hall] at hcontained ⊢
  refine ⟨found.plan, placing, hsegments, hsound, hne, hcount, hspan, htalk, ?_,
    fun ev hev htarget => ?_⟩
  · rw [granted_append, granted_append, survey_grants_nothing harena hfailure hsurvey]
    exact List.append_nil _
  · rcases List.mem_append.1 hev with hfirst | hlater
    · exact absurd (survey_changes_nothing harena hfailure hsurvey hcontained.of_append_left
        ev hfirst) htarget
    · rcases List.mem_append.1 hlater with hplacing | hclose
      · exact hplacing
      · obtain rfl := List.mem_singleton.1 hclose
        exact absurd rfl htarget

/-- **The report of a load** that ends well is the hull of its segments: their number, and the
smallest bounds.  All bytes that the load changes lie within the bounds, and all pages that it
reserves lie within the bounds rounded to whole pages. -/
theorem image_hull (harena : r.arena? = some a) (hfailure : r.machine.memory.failure = none)
    (hfile : r.machine.volume.files.lookup path = some content) {loaded : LoadedImage}
    (hrun : (r.run (Load.image path listing)).outcome = .done (.ok loaded)) :
    loaded.segments = (Image.loadable content).length ∧
      Hull (Image.loadable content) loaded.base loaded.limit ∧ loaded.base ≤ loaded.limit ∧
      (∀ ev ∈ (r.run (Load.image path listing)).events, ∀ address len,
        ev.target? = some (address, len) →
          loaded.base ≤ address ∧ address + len ≤ loaded.limit) ∧
      ∃ a' added, (r.run (Load.image path listing)).state.arena? = some a' ∧
        (∀ x, a'.memory.byte x ≠ a.memory.byte x → loaded.base ≤ x ∧ x < loaded.limit) ∧
        a'.reserved = a.reserved ++ added ∧
        ∀ q ∈ added, pageBase loaded.base ≤ q.address ∧
          q.limit ≤ (loaded.limit + (pageSize - 1)) / pageSize * pageSize := by
  obtain ⟨p, placing, hsegments, hsound, hne, hcount, hspan, htalk, hgranted, htargets⟩ :=
    image_placing harena hfailure hfile hrun
  rw [← hsegments]
  have hhull : Hull p.segments loaded.base loaded.limit := Plan.hull_of_span? hsound hne hspan
  have hwithin : ∀ ev ∈ (r.run (Load.image path listing)).events, ∀ address len,
      ev.target? = some (address, len) →
        loaded.base ≤ address ∧ address + len ≤ loaded.limit := by
    intro ev hev address len ht
    have hplacing := htargets ev hev (by rw [ht]; exact Option.some_ne_none _)
    obtain ⟨s, hs, hlo, hhi⟩ := htalk.within hsound hplacing ht
    obtain ⟨hbase, hlimit⟩ := hhull.within s hs
    exact ⟨Nat.le_trans hbase hlo, Nat.le_trans hhi hlimit⟩
  obtain ⟨a', hstate, hplayed⟩ := exists_played (Load.image path listing).run harena hfailure
  obtain ⟨hreserved, hbytes⟩ := hplayed.effect
  refine ⟨hcount, hhull, hhull.le, hwithin, a', _, hstate, fun x hchanged => ?_, hreserved,
    fun q hq => ?_⟩
  · -- a byte outside of the bounds is outside of every target
    by_contra houtside
    refine hchanged (hbytes x fun ev hev address len ht hx => houtside ?_)
    obtain ⟨hlo, hhi⟩ := hwithin ev hev address len ht
    exact ⟨Nat.le_trans hlo hx.1, Nat.lt_of_lt_of_le hx.2 hhi⟩
  · have hq : q ∈ granted (r.run (Load.image path listing)).events := hq
    rw [hgranted] at hq
    refine hhull.pages ?_
    rw [← htalk.requested_eq hsound]
    exact granted_subset placing hq

/-- The second segment gives the lower bound, the first one the upper bound. -/
theorem image_hull_sample :
    (scatteredRig.run (Load.image "kernel" false)).outcome =
        .done (.ok ⟨0x2003, .bits32, 2, 0x1800, 0x2007⟩) ∧
      (Image.loadable scatteredImage).length = 2 ∧
      Hull (Image.loadable scatteredImage) 0x1800 0x2007 ∧
      ∃ a' added, (scatteredRig.run (Load.image "kernel" false)).state.arena? = some a' ∧
        (∀ x, a'.memory.byte x ≠ Arena.garbage → 0x1800 ≤ x ∧ x < 0x2007) ∧
        a'.reserved = added ∧ ∀ q ∈ added, 0x1000 ≤ q.address ∧ q.limit ≤ 0x3000 := by
  have hrun : (scatteredRig.run (Load.image "kernel" false)).outcome =
      .done (.ok ⟨0x2003, .bits32, 2, 0x1800, 0x2007⟩) := by decide +kernel
  obtain ⟨hcount, hhull, -, -, a', added, hstate, hchanged, hreserved, hpages⟩ :=
    image_hull (a := Arena.fresh 0x1000 0x2000) rfl rfl rfl hrun
  exact ⟨hrun, hcount.symm, hhull, a', added, hstate, hchanged, hreserved, hpages⟩

end Rig

end Host

end ElfBoot
