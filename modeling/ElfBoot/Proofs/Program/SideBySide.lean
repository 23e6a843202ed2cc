import ElfBoot.Proofs.Program.Ensures

/-!
# Two runs side by side

What two loads have in common, each against collaborators of its own.

* `Load.ending` — how a run ends, the state it leaves and its events.  Notices are left out, since
  nothing a load does depends on them.
* `Comparison`, `Comparison.Paired` — two collaborators with what two stopped runs must have in
  common, and two loads that end alike on them.
* `Comparison.Paired.bind` — sequences end alike if their parts do; the lemmas beside it are about
  one step on either side.
-/

set_option autoImplicit false

namespace ElfBoot

variable {σ τ α β γ δ : Type}

/-! ## How a run ends -/

/-- How the run of a program ends, the state it leaves and its events. -/
def Program.ending (h : Handler σ) (p : Program α) (s : σ) : Outcome α × σ × List Event :=
  ((p.run h s).outcome, (p.run h s).state, (p.run h s).events)

/-- An ending with events in front of its own. -/
def withEvents (es : List Event) (x : Outcome α × σ × List Event) : Outcome α × σ × List Event :=
  (x.1, x.2.1, es ++ x.2.2)

theorem Program.ending_call (h : Handler σ) (c : Call) (rest : c.Answer → Program α) (s : σ) :
    (Program.call c rest).ending h s =
      match h.reply c s with
      | none => (.fault, s, [])
      | some reply => withEvents [⟨c, reply.answer⟩] ((rest reply.answer).ending h reply.state) := by
  unfold ending
  cases hr : h.reply c s with
  | none => simp only [run, hr]
  | some reply =>
    simp only [run, hr]
    rfl

theorem Program.ending_bind (h : Handler σ) (p : Program α) (f : α → Program β) (s : σ) :
    (p.bind f).ending h s =
      match p.ending h s with
      | (.done a, s', es) => withEvents es ((f a).ending h s')
      | (.fault, s', es) => (.fault, s', es) := by
  induction p generalizing s with
  | done value => rfl
  | fault => rfl
  | note notice rest ih => exact ih s
  | call c rest ih =>
    rw [bind, ending_call, ending_call]
    cases h.reply c s with
    | none => rfl
    | some reply =>
      dsimp only
      rw [ih]
      rcases (rest reply.answer).ending h reply.state with ⟨_ | _, s', es⟩ <;> rfl

namespace Load

/-- How the run of a load ends, the state it leaves and its events. -/
def ending (h : Handler σ) (p : Load α) (s : σ) : Outcome (Except LoadError α) × σ × List Event :=
  Program.ending h p.run s

section Equations

variable (h : Handler σ) (s : σ)

theorem ending_bind (p : Load α) (f : α → Load β) :
    ending h (p >>= f) s =
      match ending h p s with
      | (.done (.ok a), s', es) => withEvents es (ending h (f a) s')
      | (.done (.error e), s', es) => (.done (.error e), s', es)
      | (.fault, s', es) => (.fault, s', es) := by
  unfold ending
  rw [run_bind, Program.ending_bind]
  rcases Program.ending h p.run s with ⟨(e | _) | _, s', es⟩
  · show (_, _, es ++ []) = _
    rw [List.append_nil]
    rfl
  · rfl
  · rfl

/-- A sequence that ends well is a first part that does, followed by the rest. -/
theorem run_bind_ok {p : Load α} {f : α → Load β} {b : β}
    (hok : (Program.run h (p >>= f).run s).outcome = .done (.ok b)) :
    ∃ a s', (Program.run h p.run s).outcome = .done (.ok a) ∧
      (Program.run h p.run s).state = s' ∧
      (Program.run h (f a).run s').outcome = .done (.ok b) ∧
      (Program.run h (p >>= f).run s).state = (Program.run h (f a).run s').state ∧
      (Program.run h (p >>= f).run s).events =
        (Program.run h p.run s).events ++ (Program.run h (f a).run s').events := by
  have hsplit := ending_bind h s p f
  unfold ending Program.ending at hsplit
  rw [hok] at hsplit
  rcases hp : (Program.run h p.run s).outcome with (e | a) | _
  · rw [hp] at hsplit
    cases hsplit
  · rw [hp] at hsplit
    simp only [withEvents, Prod.mk.injEq] at hsplit
    obtain ⟨houtcome, hstate, hevents⟩ := hsplit
    exact ⟨a, _, rfl, rfl, houtcome.symm, hstate, hevents⟩
  · rw [hp] at hsplit
    cases hsplit

theorem ending_note_bind (n : Notice) (f : Unit → Load α) :
    ending h (note n >>= f) s = ending h (f ()) s := rfl

theorem ending_notes_bind (ns : List Notice) (f : Unit → Load α) :
    ending h (notes ns >>= f) s = ending h (f ()) s := by
  induction ns with
  | nil => rfl
  | cons n ns ih => rw [notes, bind_assoc, ending_note_bind, ih]

theorem ending_ask (c : Call) :
    ending h (ask c) s =
      match h.reply c s with
      | none => (.fault, s, [])
      | some reply => (.done (.ok reply.answer), reply.state, [⟨c, reply.answer⟩]) :=
  Program.ending_call h c _ s

/-- What is reported about an error makes no difference to how a run ends. -/
theorem ending_reporting (describe : LoadError → Notice) (p : Load α) :
    ending h (reporting describe p) s = ending h p s := by
  have hrun : (reporting describe p).run = p.run.bind fun r => (settle describe r).run := rfl
  unfold ending
  rw [hrun, Program.ending_bind]
  rcases Program.ending h p.run s with ⟨(_ | _) | _, s', es⟩
  · show (_, _, es ++ []) = _
    rw [List.append_nil]
    rfl
  · show (_, _, es ++ []) = _
    rw [List.append_nil]
    rfl
  · rfl

end Equations

end Load

/-! ## Two loads that end alike -/

/-- Two collaborators, and what two loads on them must have in common. -/
structure Comparison (σ τ : Type) where
  left : Handler σ
  right : Handler τ
  /-- Which errors correspond to each other. -/
  errors : LoadError → LoadError → Prop
  /-- What holds of the states after two errors. -/
  failed : σ → τ → Prop
  /-- What holds of the states after two faults. -/
  broken : σ → τ → Prop
  /-- Which events count; of these, both runs have the same. -/
  counts : Event → Bool

namespace Comparison

/-- Two endings of the same kind: two values of which `good` holds together with the states, two
errors, or two faults. -/
def SameKind (C : Comparison σ τ) (good : α → σ → β → τ → Prop) :
    Outcome (Except LoadError α) → σ → Outcome (Except LoadError β) → τ → Prop
  | .done (.ok a), s, .done (.ok b), t => good a s b t
  | .done (.error e), s, .done (.error e'), t => C.errors e e' ∧ C.failed s t
  | .fault, s, .fault, t => C.broken s t
  | _, _, _, _ => False

/-- Two loads, each on the collaborators of its side, end alike. -/
structure Paired (C : Comparison σ τ) (p : Load α) (p' : Load β) (good : α → σ → β → τ → Prop)
    (s : σ) (t : τ) : Prop where
  events : (p.ending C.left s).2.2.filter C.counts = (p'.ending C.right t).2.2.filter C.counts
  kind : C.SameKind good (p.ending C.left s).1 (p.ending C.left s).2.1
    (p'.ending C.right t).1 (p'.ending C.right t).2.1

variable {C : Comparison σ τ} {s : σ} {t : τ} {good : α → σ → β → τ → Prop}

theorem paired_pure {a : α} {b : β} (h : good a s b t) : C.Paired (pure a) (pure b) good s t :=
  ⟨rfl, h⟩

theorem paired_throw {e e' : LoadError} (he : C.errors e e') (h : C.failed s t) :
    C.Paired (throw e) (throw e') good s t := ⟨rfl, he, h⟩

/-- What follows an error is not run. -/
theorem paired_throw_bind {e e' : LoadError} {f : γ → Load α} {f' : δ → Load β}
    (he : C.errors e e') (h : C.failed s t) :
    C.Paired (throw e >>= f) (throw e' >>= f') good s t := ⟨rfl, he, h⟩

theorem Paired.mono {p : Load α} {p' : Load β} {good' : α → σ → β → τ → Prop}
    (hp : C.Paired p p' good s t) (h : ∀ a s' b t', good a s' b t' → good' a s' b t') :
    C.Paired p p' good' s t := by
  refine ⟨hp.events, ?_⟩
  have hkind := hp.kind
  unfold SameKind at hkind ⊢
  split at hkind
  · exact h _ _ _ _ hkind
  · exact hkind
  · exact hkind
  · exact hkind.elim

/-- **Sequencing**: if the first parts end alike and what follows two values ends alike, so do
the sequences. -/
theorem Paired.bind {p : Load γ} {p' : Load δ} {f : γ → Load α} {f' : δ → Load β}
    {mid : γ → σ → δ → τ → Prop} (hp : C.Paired p p' mid s t)
    (hf : ∀ a s' b t', mid a s' b t' → C.Paired (f a) (f' b) good s' t') :
    C.Paired (p >>= f) (p' >>= f') good s t := by
  obtain ⟨hevents, hkind⟩ := hp
  have hl := Load.ending_bind C.left s p f
  have hr := Load.ending_bind C.right t p' f'
  rcases hleft : p.ending C.left s with ⟨(e | a) | _, s', es⟩ <;>
    rcases hright : p'.ending C.right t with ⟨(e' | b) | _, t', es'⟩ <;>
    rw [hleft, hright] at hevents hkind <;> rw [hleft] at hl <;> rw [hright] at hr
  case done.ok.done.ok =>
    obtain ⟨hrest, hgood⟩ := hf a s' b t' hkind
    refine ⟨?_, ?_⟩
    · rw [hl, hr]
      show (es ++ _).filter _ = (es' ++ _).filter _
      rw [List.filter_append, List.filter_append, hrest]
      exact congrArg (· ++ _) hevents
    · rw [hl, hr]
      exact hgood
  case done.error.done.error => exact ⟨by rw [hl, hr]; exact hevents, by rw [hl, hr]; exact hkind⟩
  case fault.fault => exact ⟨by rw [hl, hr]; exact hevents, by rw [hl, hr]; exact hkind⟩
  all_goals exact hkind.elim

theorem paired_note_bind {n n' : Notice} {f : Unit → Load α} {f' : Unit → Load β}
    (h : C.Paired (f ()) (f' ()) good s t) :
    C.Paired (Load.note n >>= f) (Load.note n' >>= f') good s t := ⟨h.events, h.kind⟩

/-- What is reported on either side makes no difference. -/
theorem paired_notes_bind {ns ns' : List Notice} {f : Unit → Load α} {f' : Unit → Load β}
    (h : C.Paired (f ()) (f' ()) good s t) :
    C.Paired (Load.notes ns >>= f) (Load.notes ns' >>= f') good s t := by
  obtain ⟨hevents, hkind⟩ := h
  constructor
  · rw [Load.ending_notes_bind, Load.ending_notes_bind]
    exact hevents
  · rw [Load.ending_notes_bind, Load.ending_notes_bind]
    exact hkind

theorem Paired.reporting {describe describe' : LoadError → Notice} {p : Load α} {p' : Load β}
    (h : C.Paired p p' good s t) :
    C.Paired (Load.reporting describe p) (Load.reporting describe' p') good s t := by
  obtain ⟨hevents, hkind⟩ := h
  constructor
  · rw [Load.ending_reporting, Load.ending_reporting]
    exact hevents
  · rw [Load.ending_reporting, Load.ending_reporting]
    exact hkind

theorem paired_expect_bind {a : γ} {b : δ} {f : γ → Load α} {f' : δ → Load β}
    (h : C.Paired (f a) (f' b) good s t) :
    C.Paired (Load.expect (some a) >>= f) (Load.expect (some b) >>= f') good s t := h

/-- Two checks that come to the same. -/
theorem paired_check {x : Except LoadError γ} {good : γ → σ → γ → τ → Prop}
    (hok : ∀ a, x = .ok a → good a s a t)
    (herr : ∀ e, x = .error e → C.errors e e ∧ C.failed s t) :
    C.Paired (Load.check x) (Load.check x) good s t := by
  cases x with
  | ok a => exact ⟨rfl, hok a rfl⟩
  | error e => exact ⟨rfl, herr e rfl⟩

/-- Two answers without a value: both loads go on, or they stop with errors that correspond. -/
def SameAnswer {ε : Type} (C : Comparison σ τ) (error : ε → LoadError) (next : σ → τ → Prop) :
    Except ε Unit → σ → Except ε Unit → τ → Prop
  | .ok _, s, .ok _, t => next s t
  | .error e, s, .error e', t => C.errors (error e) (error e') ∧ C.failed s t
  | _, _, _, _ => False

theorem SameAnswer.settle {next : σ → τ → Prop} {x y : Except LoadError Unit}
    (h : C.SameAnswer id next x s y t) (describe describe' : LoadError → Notice) :
    C.Paired (Load.settle describe x) (Load.settle describe' y) (fun _ s _ t => next s t) s t := by
  cases x <;> cases y
  · exact paired_note_bind (paired_throw h.1 h.2)
  · exact h.elim
  · exact h.elim
  · exact paired_pure h

theorem SameAnswer.settleIo {next : σ → τ → Prop} {x y : Except IoError Unit}
    (h : C.SameAnswer .io next x s y t) (describe describe' : IoError → Notice) :
    C.Paired (Load.settleIo describe x) (Load.settleIo describe' y) (fun _ s _ t => next s t)
      s t := by
  cases x <;> cases y
  · exact paired_note_bind (paired_throw h.1 h.2)
  · exact h.elim
  · exact h.elim
  · exact paired_pure h

theorem sameAnswer_of_eq {ε : Type} {error : ε → LoadError} {next : σ → τ → Prop}
    {x y : Except ε Unit} (hxy : y = x) (herrors : ∀ e, C.errors (error e) (error e))
    (hnext : next s t) (hfailed : C.failed s t) : C.SameAnswer error next x s y t := by
  subst hxy
  cases y with
  | ok u => exact hnext
  | error e => exact ⟨herrors e, hfailed⟩

/-- Loads that end alike without a fault end with two values or with two errors. -/
theorem Paired.done {p : Load α} {p' : Load β} (hp : C.Paired p p' good s t)
    (hbroken : ∀ s t, ¬ C.broken s t) :
    (∃ a b, (p.ending C.left s).1 = .done (.ok a) ∧ (p'.ending C.right t).1 = .done (.ok b) ∧
      good a (p.ending C.left s).2.1 b (p'.ending C.right t).2.1) ∨
    ∃ e e', (p.ending C.left s).1 = .done (.error e) ∧
      (p'.ending C.right t).1 = .done (.error e') ∧ C.errors e e' ∧
      C.failed (p.ending C.left s).2.1 (p'.ending C.right t).2.1 := by
  have hkind := hp.kind
  unfold SameKind at hkind
  split at hkind
  · rename_i a b hl hr
    exact Or.inl ⟨a, b, hl, hr, hkind⟩
  · rename_i e e' hl hr
    exact Or.inr ⟨e, e', hl, hr, hkind⟩
  · exact absurd hkind (hbroken _ _)
  · exact hkind.elim

/-- Where only equal errors correspond, loads that end alike with equal values end the same. -/
theorem Paired.same {p p' : Load α} (herrors : ∀ e e', C.errors e e' → e' = e)
    (hbroken : ∀ s t, C.broken s t → C.failed s t)
    (hp : C.Paired p p' (fun a s b t => b = a ∧ C.failed s t) s t) :
    (p'.ending C.right t).1 = (p.ending C.left s).1 ∧
      C.failed (p.ending C.left s).2.1 (p'.ending C.right t).2.1 := by
  have hkind := hp.kind
  unfold SameKind at hkind
  split at hkind
  · rename_i hl hr
    rw [hl, hr, hkind.1]
    exact ⟨rfl, hkind.2⟩
  · rename_i hl hr
    rw [hl, hr, herrors _ _ hkind.1]
    exact ⟨rfl, hkind.2⟩
  · rename_i hl hr
    rw [hl, hr]
    exact ⟨rfl, hbroken _ _ hkind⟩
  · exact hkind.elim

/-- Two loads of which each is known by itself, if no events count. -/
theorem paired_of_ensures {p : Load α} {p' : Load β} {Q : Except LoadError α → σ → Prop}
    {Q' : Except LoadError β → τ → Prop} (hp : Load.Ensures C.left p Q s)
    (hp' : Load.Ensures C.right p' Q' t) (hcounts : ∀ ev, C.counts ev = false)
    (hboth : ∀ x s' y t', Q x s' → Q' y t' →
      C.SameKind good (.done x) s' (.done y) t') : C.Paired p p' good s t := by
  obtain ⟨x, hx, hQ⟩ := hp
  obtain ⟨y, hy, hQ'⟩ := hp'
  have hnone : ∀ es : List Event, es.filter C.counts = [] :=
    fun es => List.filter_eq_nil_iff.2 fun ev _ => by simp [hcounts]
  constructor
  · rw [hnone, hnone]
  · have hl : (p.ending C.left s).1 = .done x := hx
    have hr : (p'.ending C.right t).1 = .done y := hy
    rw [hl, hr]
    exact hboth x _ y _ hQ hQ'

/-! ## One call on either side -/

theorem paired_ask {c c' : Call} {reply : Reply σ c} {reply' : Reply τ c'}
    (hl : C.left.reply c s = some reply) (hr : C.right.reply c' t = some reply')
    {good : c.Answer → σ → c'.Answer → τ → Prop}
    (hcounts : [Event.mk c reply.answer].filter C.counts =
      [Event.mk c' reply'.answer].filter C.counts)
    (h : good reply.answer reply.state reply'.answer reply'.state) :
    C.Paired (Load.ask c) (Load.ask c') good s t := by
  have hleft := Load.ending_ask C.left s c
  have hright := Load.ending_ask C.right t c'
  rw [hl] at hleft
  rw [hr] at hright
  constructor
  · rw [hleft, hright]
    exact hcounts
  · rw [hleft, hright]
    exact h

theorem paired_ask_of_none {c c' : Call} (hl : C.left.reply c s = none)
    (hr : C.right.reply c' t = none) {good : c.Answer → σ → c'.Answer → τ → Prop}
    (h : C.broken s t) : C.Paired (Load.ask c) (Load.ask c') good s t := by
  have hleft := Load.ending_ask C.left s c
  have hright := Load.ending_ask C.right t c'
  rw [hl] at hleft
  rw [hr] at hright
  constructor
  · rw [hleft, hright]
  · rw [hleft, hright]
    exact h

end Comparison

end ElfBoot
