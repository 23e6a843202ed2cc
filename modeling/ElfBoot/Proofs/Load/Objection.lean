import ElfBoot.Proofs.Program.Ensures

/-!
# Objections

A list of objections says in which order a load looks for faults and which error each of them has.
The first objection that holds decides; without one the load goes on.

* `Objection`, `Objection.NoneHolds`, `Objection.Decides` — one objection, that a list has none
  that holds, and the error that a list settles on.
* `Load.Judged`, `Load.Ensures.judged_bind` — a load that ends by a list of objections; the lists
  of two that follow each other are appended.
-/

set_option autoImplicit false

namespace ElfBoot

/-- A condition that stops a load, with the error it stops it with. -/
structure Objection where
  holds : Prop
  error : LoadError

namespace Objection

/-- No objection of the list holds. -/
def NoneHolds (os : List Objection) : Prop := ∀ o ∈ os, ¬ o.holds

/-- Some objection holds, and the first one that does has the error `e`. -/
def Decides (os : List Objection) (e : LoadError) : Prop :=
  ∃ before o after, os = before ++ o :: after ∧ NoneHolds before ∧ o.holds ∧ o.error = e

variable {o : Objection} {os rest : List Objection} {e : LoadError}

theorem noneHolds_nil : NoneHolds [] := fun _ h => by cases h

theorem noneHolds_cons : NoneHolds (o :: os) ↔ ¬ o.holds ∧ NoneHolds os := List.forall_mem_cons

theorem noneHolds_singleton : NoneHolds [o] ↔ ¬ o.holds := List.forall_mem_singleton

theorem noneHolds_append : NoneHolds (os ++ rest) ↔ NoneHolds os ∧ NoneHolds rest :=
  List.forall_mem_append

theorem decides_head (h : o.holds) : Decides (o :: os) o.error :=
  ⟨[], o, os, rfl, noneHolds_nil, h, rfl⟩

theorem Decides.append_right (h : Decides os e) (rest : List Objection) :
    Decides (os ++ rest) e := by
  obtain ⟨before, o, after, rfl, hb, ho, he⟩ := h
  exact ⟨before, o, after ++ rest, by rw [List.append_assoc, List.cons_append], hb, ho, he⟩

theorem Decides.append_left (h : Decides rest e) (hos : NoneHolds os) :
    Decides (os ++ rest) e := by
  obtain ⟨before, o, after, rfl, hb, ho, he⟩ := h
  exact ⟨os ++ before, o, after, by rw [List.append_assoc], noneHolds_append.2 ⟨hos, hb⟩, ho, he⟩

theorem Decides.cons (h : Decides os e) (ho : ¬ o.holds) : Decides (o :: os) e :=
  h.append_left (noneHolds_singleton.2 ho)

theorem Decides.not_noneHolds (h : Decides os e) : ¬ NoneHolds os := by
  obtain ⟨before, o, after, rfl, -, ho, -⟩ := h
  intro hn
  exact hn o (List.mem_append_right before List.mem_cons_self) ho

theorem decides_cons_iff :
    Decides (o :: os) e ↔ (o.holds ∧ o.error = e) ∨ (¬ o.holds ∧ Decides os e) := by
  constructor
  · rintro ⟨before, o', after, heq, hb, ho, he⟩
    cases before with
    | nil =>
      cases heq
      exact Or.inl ⟨ho, he⟩
    | cons b before =>
      cases heq
      obtain ⟨hfirst, hbefore⟩ := noneHolds_cons.1 hb
      exact Or.inr ⟨hfirst, before, o', after, rfl, hbefore, ho, he⟩
  · rintro (⟨ho, rfl⟩ | ⟨ho, hd⟩)
    · exact decides_head ho
    · exact hd.cons ho

/-- At most one error is decided on. -/
theorem Decides.unique {e' : LoadError} (h : Decides os e) (h' : Decides os e') : e = e' := by
  induction os with
  | nil =>
    obtain ⟨before, o, after, heq, -⟩ := h
    simp at heq
  | cons o os ih =>
    rcases decides_cons_iff.1 h with ⟨ho, rfl⟩ | ⟨ho, hd⟩
    · rcases decides_cons_iff.1 h' with ⟨-, rfl⟩ | ⟨hno, -⟩
      · rfl
      · exact absurd ho hno
    · rcases decides_cons_iff.1 h' with ⟨hyes, -⟩ | ⟨-, hd'⟩
      · exact absurd hyes ho
      · exact ih hd hd'

end Objection

/-! ## Judged loads -/

namespace Load

variable {σ α β : Type} {calm : Prop} {os os' : List Objection} {bad : σ → Prop}
  {good : α → σ → Prop}

/-- A load goes well only without an objection; as long as nothing else fails, it stops with the
error of the first one. -/
def Judged (calm : Prop) (os : List Objection) (bad : σ → Prop) (good : α → σ → Prop) :
    Except LoadError α → σ → Prop
  | .ok a, s => Objection.NoneHolds os ∧ good a s
  | .error e, s => bad s ∧ (calm → Objection.Decides os e)

/-- An objection that was found not to hold goes in front of the others. -/
theorem Judged.cons {o : Objection} {result : Except LoadError α} {s : σ}
    (h : Judged calm os bad good result s) (ho : ¬ o.holds) :
    Judged calm (o :: os) bad good result s := by
  cases result with
  | ok a => exact ⟨Objection.noneHolds_cons.2 ⟨ho, h.1⟩, h.2⟩
  | error e => exact ⟨h.1, fun hcalm => (h.2 hcalm).cons ho⟩

theorem Ensures.judged_imp {h : Handler σ} {p : Load α} {s : σ} {good' : α → σ → Prop}
    (bad' : σ → Prop) (hp : Ensures h p (Judged calm os bad good) s)
    (hbad : ∀ s', bad s' → bad' s') (hgood : ∀ a s', good a s' → good' a s') :
    Ensures h p (Judged calm os bad' good') s := by
  refine hp.mono fun result s' hr => ?_
  cases result with
  | ok a => exact ⟨hr.1, hgood a s' hr.2⟩
  | error e => exact ⟨hbad s' hr.1, hr.2⟩

/-- What is known after an error may be forgotten in part. -/
theorem Ensures.judged_weaken {h : Handler σ} {p : Load α} {s : σ} (bad' : σ → Prop)
    (hp : Ensures h p (Judged calm os bad good) s) (hbad : ∀ s', bad s' → bad' s') :
    Ensures h p (Judged calm os bad' good) s :=
  hp.judged_imp bad' hbad fun _ _ hgood => hgood

theorem Ensures.judged_cons {h : Handler σ} {p : Load α} {o : Objection} {s : σ}
    (hp : Ensures h p (Judged calm os bad good) s) (ho : ¬ o.holds) :
    Ensures h p (Judged calm (o :: os) bad good) s :=
  hp.mono fun _ _ hr => hr.cons ho

theorem Ensures.judged_bind {h : Handler σ} {p : Load β} {f : β → Load α} {s : σ}
    {between : β → σ → Prop} (hp : Ensures h p (Judged calm os bad between) s)
    (hf : ∀ b s', Objection.NoneHolds os → between b s' →
      Ensures h (f b) (Judged calm os' bad good) s') :
    Ensures h (p >>= f) (Judged calm (os ++ os') bad good) s := by
  refine hp.bind ?_ ?_
  · rintro b s' ⟨hnone, hb⟩
    refine (hf b s' hnone hb).mono fun result s'' hr => ?_
    cases result with
    | ok a => exact ⟨Objection.noneHolds_append.2 ⟨hnone, hr.1⟩, hr.2⟩
    | error e => exact ⟨hr.1, fun hcalm => (hr.2 hcalm).append_left hnone⟩
  · rintro e s' ⟨hbad, hdecides⟩
    exact ⟨hbad, fun hcalm => (hdecides hcalm).append_right os'⟩

end Load

end ElfBoot
