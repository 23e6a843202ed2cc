import ElfBoot.Proofs.Host.Loading
import ElfBoot.Proofs.Host.Presented

/-!
# How far placing gets

Where nothing is made to fail, placing segments in an arena ends in one way only: the first segment
that meets an objection stops it, all segments before it are placed, and its own pages are reserved
unless there was no room for them.

* `Arena.Stops` — a segment that cannot be placed, with the error and the arena it leaves.
* `Arena.Placing` — how placing segments one after another ends.
* `Arena.Placing.agree` — it ends alike with files that have the same bytes for every segment.
* `Rig.Serves.placeSegment_exact`, `Rig.Serves.placeAll_exact` — placing on a rig ends in this way.
-/

set_option autoImplicit false

namespace ElfBoot.Host

open Load (Ensures)

variable {env env' : Surroundings} {a : Arena} {s : Segment}

namespace Arena

/-- A segment meets an objection: there is no room for its pages, which leaves the arena as it was,
or its bytes cannot be had once its pages are reserved. -/
inductive Stops (env : Surroundings) (a : Arena) (s : Segment) : LoadError → Arena → Prop where
  | room (h : ¬ a.Admits s) : Stops env a s (.allocation (.reserve s.pageBase s.pageCount)) a
  | bytes {e : LoadError} (h : a.Admits s) (he : Objection.Decides (placing env a s).tail e) :
    Stops env a s e (a.claim s)

/-- Placing segments one after another ends with a result and leaves an arena. -/
inductive Placing (env : Surroundings) :
    Arena → List Segment → Except LoadError Unit → Arena → Prop where
  | nil (a : Arena) : Placing env a [] (.ok ()) a
  | cons {a a' : Arena} {s : Segment} {rest : List Segment} {result : Except LoadError Unit}
    (h : Objection.NoneHolds (placing env a s))
    (hrest : Placing env (a.place env.content s) rest result a') :
    Placing env a (s :: rest) result a'
  | stop {a a' : Arena} {s : Segment} {e : LoadError} (rest : List Segment)
    (h : Stops env a s e a') : Placing env a (s :: rest) (.error e) a'

/-- Two surroundings in which a segment meets the same: the same buffers are to be had, and both
files have all its bytes, which are the same. -/
structure SameFor (env env' : Surroundings) (s : Segment) : Prop where
  grants : env'.grants = env.grants
  bytes : (env'.content.drop s.fileOffset).take s.fileSize =
    (env.content.drop s.fileOffset).take s.fileSize
  file_end : 0 < s.fileSize → s.fileOffset + s.fileSize ≤ env.content.length
  file_end' : 0 < s.fileSize → s.fileOffset + s.fileSize ≤ env'.content.length

namespace SameFor

/-- What is left of the objections to a segment whose bytes are in the file. -/
theorem tail_iff {content : List UInt8}
    (h : 0 < s.fileSize → s.fileOffset + s.fileSize ≤ content.length) :
    ¬ (0 < s.fileSize ∧ content.length < s.fileOffset + s.fileSize) := by
  rintro ⟨hpos, hlt⟩
  have hle := h hpos
  omega

theorem place_eq (h : SameFor env env' s) (a : Arena) :
    a.place env'.content s = a.place env.content s := by
  unfold place
  rw [h.bytes]

theorem noneHolds_iff (h : SameFor env env' s) :
    Objection.NoneHolds (placing env' a s) ↔ Objection.NoneHolds (placing env a s) := by
  have hlong := tail_iff h.file_end
  have hlong' := tail_iff h.file_end'
  unfold placing
  simp only [Objection.noneHolds_cons, h.grants, hlong, hlong']

theorem decides_iff (h : SameFor env env' s) {e : LoadError} :
    Objection.Decides (placing env' a s).tail e ↔ Objection.Decides (placing env a s).tail e := by
  have hlong := tail_iff h.file_end
  have hlong' := tail_iff h.file_end'
  unfold placing
  simp only [List.tail_cons, Objection.decides_cons_iff, h.grants, hlong, hlong', false_and,
    false_or, not_false_eq_true, true_and]

end SameFor

theorem Stops.not_noneHolds {e : LoadError} {a' : Arena} (h : Stops env a s e a') :
    ¬ Objection.NoneHolds (placing env a s) := by
  intro hnone
  obtain ⟨hroom, hbytes⟩ := Objection.noneHolds_cons.1 hnone
  cases h with
  | room hno => exact hroom hno
  | bytes _ he => exact he.not_noneHolds hbytes

/-- Two segments that are stopped by what they have in common are stopped alike. -/
theorem Stops.agree {e e' : LoadError} {a₁ a₂ : Arena} (h : Stops env a s e a₁)
    (h' : Stops env' a s e' a₂) (hsame : SameFor env env' s) : e' = e ∧ a₂ = a₁ := by
  cases h with
  | room hno =>
    cases h' with
    | room => exact ⟨rfl, rfl⟩
    | bytes hroom => exact absurd hroom hno
  | bytes hroom he =>
    cases h' with
    | room hno => exact absurd hroom hno
    | bytes _ he' => exact ⟨(hsame.decides_iff.1 he').unique he, rfl⟩

/-- **Placing the same bytes in the same arena** ends the same way. -/
theorem Placing.agree {segments : List Segment} {x y : Except LoadError Unit} {a₁ a₂ : Arena}
    (h : Placing env a segments x a₁) (h' : Placing env' a segments y a₂)
    (hsame : ∀ s ∈ segments, SameFor env env' s) : y = x ∧ a₂ = a₁ := by
  induction h with
  | nil a =>
    cases h'
    exact ⟨rfl, rfl⟩
  | cons hnone _ ih =>
    obtain ⟨hfirst, hrest⟩ := List.forall_mem_cons.1 hsame
    cases h' with
    | cons _ hplaced =>
      rw [hfirst.place_eq] at hplaced
      exact ih hplaced hrest
    | stop _ hstop => exact absurd (hfirst.noneHolds_iff.2 hnone) hstop.not_noneHolds
  | stop rest hstop =>
    obtain ⟨hfirst, -⟩ := List.forall_mem_cons.1 hsame
    cases h' with
    | cons hnone _ => exact absurd (hfirst.noneHolds_iff.1 hnone) hstop.not_noneHolds
    | stop _ hstop' =>
      obtain ⟨rfl, rfl⟩ := hstop.agree hstop' hfirst
      exact ⟨rfl, rfl⟩

end Arena

/-! ## Placing on a rig -/

namespace Rig

variable {position : Nat} {r : Rig}

/-- **Placing a segment** where nothing is made to fail places it, or the first objection to it
stops it. -/
theorem Serves.placeSegment_exact (h : r.Serves env a position) (hcalm : env.calm)
    (hb : a.Bounded) (hs : s.Sound) :
    Ensures handler (Load.placeSegment s) (fun result r' =>
      match result with
      | .ok _ => Objection.NoneHolds (placing env a s) ∧
          a.Admits s ∧ ∃ p, r'.Serves env (a.place env.content s) p
      | .error e => ∃ a', Arena.Stops env a s e a' ∧ r'.arena? = some a') r := by
  have hoffset : s.fileOffset < wordLimit := Nat.lt_of_le_of_lt (Nat.le_add_right _ _) hs.file_end
  rw [Load.placeSegment_eq (Segment.pageCount?_eq hs.memory_end), Load.ensures_note_bind]
  refine (presents hcalm a).seek_bind h hoffset fun r₁ h₁ => ?_
  refine (h₁.reservePages hb).bind ?_ ?_
  · rintro _ r₂ ⟨hnone, hadmits, h₂⟩
    have hb₂ : (a.claim s).Bounded := hb.claim hadmits
    refine (h₂.copyFromFile hb₂ (Arena.owns_claim_file hs)).bind ?_ ?_
    · rintro _ r₃ ⟨hbytes, p, h₃⟩
      have hb₃ : ((a.claim s).copy env.content s).Bounded := ⟨hb₂.window, hb₂.ranges⟩
      refine (h₃.clearRest hb₃ hs Arena.owns_claim_rest).mono ?_
      intro result r₄ hresult
      cases result with
      | ok u =>
        have hroom := Objection.noneHolds_singleton.1 hnone
        exact ⟨Objection.noneHolds_cons.2 ⟨hroom, hbytes⟩, hadmits, p, hresult.2⟩
      | error e => exact hresult.1.elim
    · rintro e r₃ ⟨harena, hdecides⟩
      exact ⟨_, .bytes hadmits (hdecides hcalm), harena⟩
  · rintro e r₂ ⟨harena, hdecides⟩
    rcases Objection.decides_cons_iff.1 (hdecides hcalm) with ⟨hno, rfl⟩ | ⟨-, hnil⟩
    · exact ⟨_, .room hno, harena⟩
    · exact absurd Objection.noneHolds_nil hnil.not_noneHolds

/-- **Placing segments one after another** where nothing is made to fail. -/
theorem Serves.placeAll_exact {segments : List Segment} (h : r.Serves env a position)
    (hcalm : env.calm) (hb : a.Bounded) (hs : ∀ s ∈ segments, s.Sound) :
    Ensures handler (Load.placeAll segments) (fun result r' =>
      ∃ a', Arena.Placing env a segments result a' ∧ r'.arena? = some a' ∧
        (result = .ok () → ∃ p, r'.Serves env a' p)) r := by
  induction segments generalizing a r position with
  | nil => exact Load.ensures_pure.2 ⟨a, .nil a, h.arena, fun _ => ⟨position, h⟩⟩
  | cons s rest ih =>
    obtain ⟨hsound, hrest⟩ := List.forall_mem_cons.1 hs
    unfold Load.placeAll
    refine (h.placeSegment_exact hcalm hb hsound).bind ?_ ?_
    · rintro _ r₁ ⟨hnone, hadmits, p, h₁⟩
      rw [Load.ensures_note_bind]
      refine (ih h₁ (hb.place hadmits) hrest).mono ?_
      rintro result r₂ ⟨a', hplacing, harena, hserves⟩
      exact ⟨a', .cons hnone hplacing, harena, hserves⟩
    · rintro e r₁ ⟨a', hstops, harena⟩
      refine ⟨a', .stop rest hstops, harena, ?_⟩
      intro hok
      cases hok

end Rig

end ElfBoot.Host
