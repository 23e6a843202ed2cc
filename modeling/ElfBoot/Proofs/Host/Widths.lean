import ElfBoot.Proofs.Host.Progress
import ElfBoot.Proofs.Host.Relevance

/-!
# The two widths

An image can be built from the same parts for either width.  Header and table differ then in size,
order and place of their fields, but a load finds the same in both: it ends with the same error, or
with the same image except for its width, and leaves the same arena.

* `Arena.Loading` — how a load ends once the plan of the image is known.
* `Rig.Serves.conclude_exact`, `Rig.image_exact` — a load of a built image ends in this way.
* `Rig.image_widths` — loads of the same parts built for either width.
-/

set_option autoImplicit false

namespace ElfBoot.Host

open Load (Ensures)

variable {env env' : Surroundings} {a : Arena}

/-! ## How a load ends -/

/-- A load of an image with a width and an entry point, whose plan is known, ends with a result and
leaves an arena. -/
inductive Arena.Loading (env : Surroundings) (a : Arena) (w : Width) (entry : Nat)
    (plan : Except LoadError Plan) : Except LoadError LoadedImage → Arena → Prop where
  | refused {e : LoadError} (h : plan = .error e) : Loading env a w entry plan (.error e) a
  | stopped {p : Plan} {e : LoadError} {a' : Arena} (h : plan = .ok p)
    (hplacing : Placing env a p.segments (.error e) a') : Loading env a w entry plan (.error e) a'
  | placed {p : Plan} {span : Nat × Nat} {a' : Arena} (h : plan = .ok p)
    (hplacing : Placing env a p.segments (.ok ()) a') (hspan : p.span? = some span) :
    Loading env a w entry plan (.ok ⟨entry, w, p.size, span.1, span.2⟩) a'

/-- **Loads with the same plan** that meet the same for every segment end alike. -/
theorem Arena.Loading.agree {w w' : Width} {entry : Nat} {plan : Except LoadError Plan}
    {x y : Except LoadError LoadedImage} {a₁ a₂ : Arena} (h : Loading env a w entry plan x a₁)
    (h' : Loading env' a w' entry plan y a₂)
    (hsame : ∀ p, plan = .ok p → ∀ s ∈ p.segments, SameFor env env' s) :
    y = x.map (fun loaded => { loaded with width := w' }) ∧ a₂ = a₁ := by
  cases h with
  | refused h =>
    cases h' with
    | refused h' =>
      cases h.symm.trans h'
      exact ⟨rfl, rfl⟩
    | stopped h' => cases h.symm.trans h'
    | placed h' => cases h.symm.trans h'
  | stopped h hplacing =>
    cases h' with
    | refused h' => cases h.symm.trans h'
    | stopped h' hplacing' =>
      cases h.symm.trans h'
      obtain ⟨heq, rfl⟩ := hplacing.agree hplacing' (hsame _ h)
      cases heq
      exact ⟨rfl, rfl⟩
    | placed h' hplacing' =>
      cases h.symm.trans h'
      cases (hplacing.agree hplacing' (hsame _ h)).1
  | placed h hplacing hspan =>
    cases h' with
    | refused h' => cases h.symm.trans h'
    | stopped h' hplacing' =>
      cases h.symm.trans h'
      cases (hplacing.agree hplacing' (hsame _ h)).1
    | placed h' hplacing' hspan' =>
      cases h.symm.trans h'
      cases hspan.symm.trans hspan'
      exact ⟨rfl, (hplacing.agree hplacing' (hsame _ h)).2⟩

namespace Rig

variable {position : Nat} {r : Rig} {b : Builder} {path : String}

/-- Closing the file succeeds where nothing is made to fail. -/
theorem Serves.conclude_exact (h : r.Serves env a position) (hcalm : env.calm) {found : Survey}
    {span : Nat × Nat} (hspan : found.plan.span? = some span) (segments : Nat) :
    Ensures handler (Load.conclude found segments) (fun result r' =>
      result = .ok ⟨found.headers.file.entry.toNat, found.width, segments, span.1, span.2⟩ ∧
        r'.arena? = some a) r := by
  unfold Load.conclude
  rw [hspan, Load.ensures_expect_bind]
  obtain ⟨reply, hreply, hclosed, hok⟩ := h.close
  refine Load.ensures_note_bind.2 (Load.ensures_ask_bind.2 ⟨reply, hreply, ?_⟩)
  rw [hok hcalm, Load.ensures_settleIo_bind, Load.ensures_note_bind]
  exact Load.ensures_pure.2 ⟨rfl, hclosed⟩

/-- **The load of a built image** where nothing is made to fail. -/
theorem image_exact (hu : r.Undisturbed) (harena : r.arena? = some a)
    (hfailure : r.machine.memory.failure = none) (hb : a.Bounded)
    (hfile : r.machine.volume.files.lookup path = some b.build) (hbuilt : b.WellFormed)
    (listing : Bool) :
    Ensures handler (Load.image path listing) (fun result r' =>
      ∃ table a', table.Shows b.parts ∧ r'.arena? = some a' ∧
        Arena.Loading (r.surroundings path) a b.width b.entry (Plan.ofTable table) result a')
      r := by
  have hcontent : (r.surroundings path).content = b.build := by
    show (r.machine.volume.files.lookup path).getD [] = b.build
    rw [hfile, Option.getD_some]
  have hpresents := presents (show (r.surroundings path).calm from hu) a
  rw [hcontent] at hpresents
  rw [Load.image_eq]
  unfold Load.beforeClose
  rw [Load.survey_eq]
  simp only [bind_assoc]
  obtain ⟨⟨answer, r₁, notices⟩, hreply, hanswer⟩ := r.openImage harena hfailure path
  refine Load.ensures_note_bind.2 (Load.ensures_ask_bind.2 ⟨_, hreply, ?_⟩)
  rw [Load.ensures_settle_bind]
  cases answer with
  | error e =>
    have hnone := (hanswer.2 hu).1
    rw [hfile] at hnone
    cases hnone
  | ok u =>
    refine (hpresents.examine hbuilt hanswer.2 listing).bind ?_ ?_
    · rintro found r₂ ⟨table, hshows, ⟨p, h₂⟩, hplan, hwidth, hentry⟩
      have hspec := Plan.ofTable_spec table
      rw [hplan] at hspec
      have hsound := (Plan.noneHolds_objections.1 hspec.2.2).1
      obtain ⟨span, hspan⟩ := Plan.exists_span hsound (wordLimit - 1, 0)
      unfold Load.placePlan
      rw [bind_assoc]
      refine (h₂.placeAll_exact hu hb hsound).bind ?_ ?_
      · rintro _ r₃ ⟨a', hplacing, -, hserves⟩
        obtain ⟨q, h₃⟩ := hserves rfl
        rw [pure_bind, pure_bind]
        refine (h₃.conclude_exact hu hspan found.plan.size).mono ?_
        rintro _ r₄ ⟨rfl, harena'⟩
        rw [hwidth, hentry]
        exact ⟨table, a', hshows, harena', .placed hplan hplacing hspan⟩
      · rintro e r₃ ⟨a', hplacing, harena', -⟩
        exact ⟨table, a', hshows, harena', .stopped hplan hplacing⟩
    · rintro e r₂ ⟨table, hshows, ⟨p, h₂⟩, hplan⟩
      exact ⟨table, a, hshows, h₂.arena, .refused hplan⟩

/-! ## Images for both widths -/

/-- The same parts as an image for either width. -/
def builderFor (w : Width) (entry : Nat) (parts : List Part) : Builder :=
  { width := w, entry, parts }

section BothWidths

variable {entry : Nat} {parts : List Part} (hentry : entry < Width.bits32.limit)
  (hparts : ∀ p ∈ parts, p.Fits .bits32)
  (htable : parts.length * Width.bits64.entrySize ≤ maxTableSize)
  (hdata : ∀ p ∈ parts, p.data ≠ [] →
    Width.bits64.headerSize + Width.bits64.entrySize * parts.length ≤ p.offset)
include hentry hparts htable hdata

/-- What fits into an image for 32-bit addresses and leaves room for the larger table can be read
back from an image for either width. -/
theorem wellFormed_builderFor (w : Width) : (builderFor w entry parts).WellFormed := by
  have hlimit : Width.bits32.limit ≤ w.limit := by cases w <;> decide
  have hsize : w.entrySize ≤ Width.bits64.entrySize := by cases w <;> decide
  have hheader : w.headerSize ≤ Width.bits64.headerSize := by cases w <;> decide
  have hstride : (builderFor w entry parts).stride = w.entrySize := by cases w <;> rfl
  constructor
  case entry => exact Nat.lt_of_lt_of_le hentry hlimit
  case parts =>
    intro p hp
    obtain ⟨ho, hf, hm, ha⟩ := hparts p hp
    constructor
    all_goals
      apply Nat.lt_of_lt_of_le _ hlimit
      assumption
  case entrySize => cases w <;> exact Nat.le_refl _
  case table =>
    rw [hstride]
    exact Nat.le_trans (Nat.mul_le_mul_left _ hsize) htable
  case apart =>
    intro p hp hne
    have hend : (builderFor w entry parts).tableEnd = w.headerSize + w.entrySize * parts.length :=
      by rw [Builder.tableEnd, hstride]; rfl
    have hle : w.entrySize * parts.length ≤ Width.bits64.entrySize * parts.length :=
      Nat.mul_le_mul_right _ hsize
    have hfar := hdata p hp hne
    rw [hend]
    omega

end BothWidths

/-- Images built from the same parts hold the same bytes for every segment of a table of them. -/
theorem sameFor_of_shows {b' : Builder} (hbuilt : b.WellFormed) (hbuilt' : b'.WellFormed)
    (hparts : b'.parts = b.parts) (hgrants : env'.grants = env.grants)
    (hcontent : env.content = b.build) (hcontent' : env'.content = b'.build) {table : Table}
    (hshows : table.Shows b.parts) {s : Segment} (hs : s ∈ table.segments) :
    Arena.SameFor env env' s := by
  obtain ⟨p, hp, hoffset, hsize⟩ := hshows.exists_part hs
  have hp' : p ∈ b'.parts := hparts ▸ hp
  have hfits : ∀ c : Builder, p ∈ c.parts → p.offset + p.data.length ≤ c.build.length := by
    intro c hc
    rw [c.length_build]
    exact Nat.le_trans (c.le_dataEnd hc) (Nat.le_max_right _ _)
  constructor
  case grants => exact hgrants
  case bytes =>
    rw [hcontent, hcontent', hoffset, hsize]
    exact hbuilt.apart.take_drop_build hbuilt'.apart hparts hp
  case file_end =>
    intro _
    rw [hcontent, hoffset, hsize]
    exact hfits b hp
  case file_end' =>
    intro _
    rw [hcontent', hoffset, hsize]
    exact hfits b' hp'

theorem content_holding (m : Machine) (fate : Nat → Fate) (path : String)
    (content : List UInt8) :
    ((holding m fate path content).surroundings path).content = content := by
  show (List.lookup path ((path, content) :: _)).getD [] = content
  rw [List.lookup_cons_self, Option.getD_some]

/-- A machine on which nothing is made to fail, with an arena. -/
structure Ready (m : Machine) (a : Arena) : Prop where
  opening : m.volume.failOpen = none
  file : m.volume.traits.Faultless
  buffers : ∀ n ≤ maxTableSize, m.grantsScratch n = true
  arena : m.memory.arena = some a
  failure : m.memory.failure = none
  bounded : a.Bounded

/-- The load of a built image on a machine on which nothing is made to fail. -/
theorem Ready.image_exact {m : Machine} (h : Ready m a) {fate : Nat → Fate}
    (hfate : ∀ n cause, fate n ≠ .fail cause) (path : String) (hbuilt : b.WellFormed)
    (listing : Bool) :
    Ensures handler (Load.image path listing) (fun result r' =>
      ∃ table a', table.Shows b.parts ∧ r'.arena? = some a' ∧
        Arena.Loading ((holding m fate path b.build).surroundings path) a b.width b.entry
          (Plan.ofTable table) result a') (holding m fate path b.build) :=
  Rig.image_exact (r := holding m fate path b.build) ⟨hfate, h.opening, h.file, h.buffers⟩ h.arena
    h.failure h.bounded List.lookup_cons_self hbuilt listing

/-- **The same parts built for either width** load alike: with the same error, or as the same image
except for its width; and the arena is left the same. -/
theorem image_widths {m : Machine} (h : Ready m a) {fate fate' : Nat → Fate}
    (hfate : ∀ n cause, fate n ≠ .fail cause) (hfate' : ∀ n cause, fate' n ≠ .fail cause)
    (path : String) (listing listing' : Bool) {entry : Nat} {parts : List Part}
    (hentry : entry < Width.bits32.limit) (hparts : ∀ p ∈ parts, p.Fits .bits32)
    (htable : parts.length * Width.bits64.entrySize ≤ maxTableSize)
    (hdata : ∀ p ∈ parts, p.data ≠ [] →
      Width.bits64.headerSize + Width.bits64.entrySize * parts.length ≤ p.offset) :
    let run := (holding m fate path (builderFor .bits32 entry parts).build).run
      (Load.image path listing)
    let run' := (holding m fate' path (builderFor .bits64 entry parts).build).run
      (Load.image path listing')
    ∃ result a', run.outcome = .done result ∧
      run'.outcome = .done (result.map fun loaded => { loaded with width := .bits64 }) ∧
      (∀ loaded, result = .ok loaded → loaded.width = .bits32) ∧
      run.state.arena? = some a' ∧ run'.state.arena? = some a' := by
  intro run run'
  have hbuilt := wellFormed_builderFor hentry hparts htable hdata
  obtain ⟨result, hrun, table, a₁, hshows, harena, hload⟩ :=
    h.image_exact hfate path (hbuilt .bits32) listing
  obtain ⟨result', hrun', table', a₂, hshows', harena', hload'⟩ :=
    h.image_exact hfate' path (hbuilt .bits64) listing'
  rw [hshows.ofTable_eq hshows'] at hload'
  have hsame : ∀ p, Plan.ofTable table = .ok p → ∀ s ∈ p.segments, Arena.SameFor
      ((holding m fate path (builderFor .bits32 entry parts).build).surroundings path)
      ((holding m fate' path (builderFor .bits64 entry parts).build).surroundings path) s := by
    intro p hplan s hs
    have hspec := Plan.ofTable_spec table
    rw [hplan] at hspec
    rw [hspec.2.1] at hs
    have hcontent := content_holding m fate path (builderFor .bits32 entry parts).build
    have hcontent' := content_holding m fate' path (builderFor .bits64 entry parts).build
    refine sameFor_of_shows (hbuilt .bits32) (hbuilt .bits64) rfl ?_ hcontent hcontent' hshows hs
    rfl
  obtain ⟨rfl, rfl⟩ := hload.agree hload' hsame
  refine ⟨result, a₂, hrun, hrun', ?_, harena, harena'⟩
  rintro loaded rfl
  cases hload
  rfl

/-- One segment behind an entry that is not placed. -/
def widthParts : List Part :=
  [{ kind := 4, offset := 0, data := [], memorySize := 0, address := 0 },
    { offset := 0xB0, data := [7, 8], memorySize := 5, address := 0x1002 }]

/-- The file of the 32-bit image delivers at most seven bytes at once, that of the 64-bit image as
many as are asked for. -/
theorem image_widths_sample :
    let run := (holding sampleRig.machine (fun _ => .shorten 7) "kernel"
      (builderFor .bits32 0x1002 widthParts).build).run (Load.image "kernel" false)
    let run' := (holding sampleRig.machine (fun _ => .pass) "kernel"
      (builderFor .bits64 0x1002 widthParts).build).run (Load.image "kernel" true)
    run.outcome = .done (.ok ⟨0x1002, .bits32, 1, 0x1002, 0x1007⟩) ∧
      run'.outcome = .done (.ok ⟨0x1002, .bits64, 1, 0x1002, 0x1007⟩) ∧
      ∃ a', run.state.arena? = some a' ∧ run'.state.arena? = some a' := by
  intro run run'
  have hready : Ready sampleRig.machine (.fresh 0x1000 0x2000) := by
    constructor
    case opening => rfl
    case file => exact ⟨rfl, rfl, rfl⟩
    case buffers =>
      intro n hn
      exact decide_eq_true (Nat.lt_of_le_of_lt hn (by decide))
    case arena => rfl
    case failure => rfl
    case bounded => exact ⟨by decide, fun q hq => by cases hq⟩
  have hshort : ∀ (n : Nat) (cause : IoError), Fate.shorten 7 ≠ .fail cause :=
    fun _ _ hno => by cases hno
  have hpass : ∀ (n : Nat) (cause : IoError), Fate.pass ≠ .fail cause :=
    fun _ _ hno => by cases hno
  have hentry : 0x1002 < Width.bits32.limit := by decide
  have hparts : ∀ p ∈ widthParts, p.Fits .bits32 := by decide
  have htable : widthParts.length * Width.bits64.entrySize ≤ maxTableSize := by decide
  have hdata : ∀ p ∈ widthParts, p.data ≠ [] →
      Width.bits64.headerSize + Width.bits64.entrySize * widthParts.length ≤ p.offset := by decide
  have hrun : run.outcome = .done (.ok ⟨0x1002, .bits32, 1, 0x1002, 0x1007⟩) := by decide +kernel
  obtain ⟨result, a', houtcome, houtcome', -, harena, harena'⟩ :=
    image_widths hready hshort hpass "kernel" false true hentry hparts htable hdata
  have hresult := houtcome.symm.trans hrun
  cases hresult
  exact ⟨hrun, houtcome', a', harena, harena'⟩

end Rig

end ElfBoot.Host
