import ElfBoot.Proofs.Load.Protocol

/-!
# The statuses of refused images

Every error of a load has a status that the firmware is told.  Two of the errors take theirs from
the firmware; all others stand for a failure, and so do all the errors that an image is refused
with.

* `LoadError.status_ne_success` — the statuses of the errors.
* `Objection.Failures`, `ImageTalk.status_ne_success` — lists of objections, and a whole load.
-/

set_option autoImplicit false

namespace ElfBoot

theorem Status.deviceError_ne_success : deviceError ≠ success := by decide

theorem Status.outOfResources_ne_success : outOfResources ≠ success := by decide

/-- Only a status that an error took from the firmware can be one of success. -/
theorem LoadError.status_ne_success {e : LoadError}
    (hopen : ∀ s, e = .io (.openFailed s) → s ≠ .success)
    (hread : ∀ s, e = .io (.readFailed s) → s ≠ .success) : e.status ≠ .success := by
  cases e with
  | io cause =>
    cases cause with
    | openFailed s => exact hopen s rfl
    | readFailed s => exact hread s rfl
    | _ =>
      simp only [status]
      decide
  | _ =>
    simp only [status]
    decide

namespace Objection

/-- All errors of a list of objections stand for a failure. -/
def Failures (os : List Objection) : Prop := ∀ o ∈ os, o.error.status ≠ .success

variable {os : List Objection} {e : LoadError}

theorem Decides.status_ne_success (h : Decides os e) (hos : Failures os) :
    e.status ≠ .success := by
  obtain ⟨before, o, after, rfl, -, -, rfl⟩ := h
  exact hos o (List.mem_append_right before List.mem_cons_self)

theorem failures_identity (bs : List UInt8) : Failures (Image.identityObjections bs) := by
  intro o ho
  apply LoadError.status_ne_success
  all_goals
    simp only [Image.identityObjections, List.mem_cons, List.not_mem_nil, or_false] at ho
    rcases ho with rfl | rfl | rfl | rfl <;> simp

theorem failures_header (w : Width) (header : List UInt8) : Failures (headerRefusals w header) := by
  intro o ho
  apply LoadError.status_ne_success
  all_goals
    simp only [headerRefusals, List.mem_cons, List.not_mem_nil, or_false] at ho
    rcases ho with rfl | rfl | rfl <;> simp

theorem failures_plan (segments : List Segment) : Failures (Plan.objections segments) := by
  intro o ho
  apply LoadError.status_ne_success
  all_goals
    simp only [Plan.objections, Segment.objections, List.mem_append, List.mem_flatMap,
      List.mem_cons, List.not_mem_nil, or_false] at ho
    rcases ho with ⟨s, -, rfl | rfl⟩ | rfl <;> simp

end Objection

theorem Unless.status_ne_success {os : List Objection}
    {go : List Event → Option LoadError → Prop} {es : List Event} {e : LoadError}
    (h : Unless os go es (some e)) (hos : Objection.Failures os)
    (hgo : ∀ es, go es (some e) → e.status ≠ .success) : e.status ≠ .success := by
  rcases h with ⟨-, h⟩ | ⟨-, e', hdecides, heq⟩
  · exact hgo es h
  · cases heq
    exact hdecides.status_ne_success hos

/-- **A refused image** is refused with a failure. -/
theorem ImageTalk.status_ne_success {path : String} {es : List Event} {e : LoadError}
    (h : ImageTalk path es (some e)) : e.status ≠ .success := by
  obtain ⟨ident, -, rest, -, -, hident⟩ := h
  unfold IdentityTalk at hident
  refine hident.status_ne_success (Objection.failures_identity ident) ?_
  rintro es ⟨header, -, rest, -, -, hheader⟩
  unfold HeaderTalk at hheader
  refine hheader.status_ne_success (Objection.failures_header _ header) ?_
  rintro es ⟨table, -, rest, -, -, htable⟩
  refine Unless.status_ne_success htable (Objection.failures_plan _) ?_
  rintro es ⟨placing, -, -, hno⟩
  cases hno

end ElfBoot
