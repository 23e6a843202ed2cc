import ElfBoot.Load.ReadExact

/-!
# What a program yields

What is true of a program whatever answers it gets.  `Load.Yields p Q` says that no branch of `p`
ends in a fault and that `Q` holds of every value that `p` can end with; its errors are left open.

* `Program.Yields` — for programs; `Load.Yields` for programs that may stop with an error.
* `Load.Faultless`, `Load.Yields.faultless` — a run against collaborators that answer every call does
  not end in a fault.
* `Load.Yields.of_outcome` — a run that ends well ends with such a value.
* `Load.Yields.bind`, `Load.Yields.bind_congr` — a sequence; what follows a program may be replaced
  by what is the same after every value the program can end with.
* `Load.yields_check` and the lemmas beside it — one for each way to make a step.
-/

set_option autoImplicit false

namespace ElfBoot

variable {α β : Type}

namespace Program

/-- Whatever the answers are, the program does not end in a fault, and `Q` holds of the value it
ends with. -/
def Yields (Q : α → Prop) : Program α → Prop
  | .done value => Q value
  | .fault => False
  | .note _ rest => rest.Yields Q
  | .call _ rest => ∀ answer, (rest answer).Yields Q

variable {P : α → Prop} {Q : β → Prop} {p : Program α}

theorem Yields.mono {P' : α → Prop} (hp : p.Yields P) (h : ∀ a, P a → P' a) : p.Yields P' := by
  induction p with
  | done value => exact h value hp
  | fault => exact hp
  | note notice rest ih => exact ih hp
  | call c rest ih => exact fun answer => ih answer (hp answer)

theorem Yields.bind {f : α → Program β} (hp : p.Yields P) (hf : ∀ a, P a → (f a).Yields Q) :
    (p.bind f).Yields Q := by
  induction p with
  | done value => exact hf value hp
  | fault => exact hp.elim
  | note notice rest ih => exact ih hp
  | call c rest ih => exact fun answer => ih answer (hp answer)

theorem Yields.bind_congr {f g : α → Program β} (hp : p.Yields P) (h : ∀ a, P a → f a = g a) :
    p.bind f = p.bind g := by
  induction p with
  | done value => exact h value hp
  | fault => rfl
  | note notice rest ih => simp only [Program.bind, ih hp]
  | call c rest ih =>
    simp only [Program.bind, Program.call.injEq, heq_eq_eq, true_and]
    funext answer
    exact ih answer (hp answer)

theorem Yields.outcome_ne_fault {σ : Type} {h : Handler σ} (hreply : ∀ c s, h.reply c s ≠ none)
    (hp : p.Yields P) (s : σ) : (p.run h s).outcome ≠ .fault := by
  induction p generalizing s with
  | done value =>
    intro hno
    cases hno
  | fault => exact hp.elim
  | note notice rest ih => exact ih hp s
  | call c rest ih =>
    cases hr : h.reply c s with
    | none => exact absurd hr (hreply c s)
    | some reply =>
      simp only [Program.run, hr]
      exact ih reply.answer (hp reply.answer) reply.state

theorem Yields.of_outcome {σ : Type} {h : Handler σ} {s : σ} {a : α} (hp : p.Yields P)
    (ho : (p.run h s).outcome = .done a) : P a := by
  induction p generalizing s with
  | done value =>
    obtain rfl := Outcome.done.inj ho
    exact hp
  | fault => exact hp.elim
  | note notice rest ih => exact ih hp ho
  | call c rest ih =>
    cases hr : h.reply c s with
    | none =>
      simp only [Program.run, hr] at ho
      cases ho
    | some reply =>
      simp only [Program.run, hr] at ho
      exact ih reply.answer (hp reply.answer) ho

end Program

namespace Load

/-- `Program.Yields` for the value of a program that may stop with an error. -/
def Yields (p : Load α) (Q : α → Prop) : Prop :=
  p.run.Yields fun
    | .ok a => Q a
    | .error _ => True

/-- With collaborators of any kind that answer every call, a run does not end in a fault. -/
def Faultless (p : Load α) : Prop :=
  ∀ (σ : Type) (h : Handler σ) (s : σ), (∀ c s', h.reply c s' ≠ none) →
    (Program.run h p.run s).outcome ≠ .fault

variable {P : β → Prop} {Q : α → Prop} {p : Load β} {f : β → Load α}

theorem Yields.faultless (hp : Yields p P) : Faultless p :=
  fun _ _ s hreply => Program.Yields.outcome_ne_fault hreply hp s

/-- A run that ends well ends with a value that the program yields. -/
theorem Yields.of_outcome {σ : Type} {h : Handler σ} {s : σ} {b : β} (hp : Yields p P)
    (ho : (Program.run h p.run s).outcome = .done (.ok b)) : P b := by
  have hrun : Program.Yields _ p.run := hp
  exact hrun.of_outcome ho

/-- **Sequencing**: go on from whatever the first part yields. -/
theorem Yields.bind (hp : Yields p P) (hf : ∀ b, P b → Yields (f b) Q) : Yields (p >>= f) Q := by
  refine Program.Yields.bind hp fun result hr => ?_
  cases result with
  | ok b => exact hf b hr
  | error e => exact trivial

theorem Yields.bind_congr {g : β → Load α} (hp : Yields p P) (h : ∀ b, P b → f b = g b) :
    p >>= f = p >>= g := by
  refine Program.Yields.bind_congr hp fun result hr => ?_
  cases result with
  | ok b => exact h b hr
  | error e => rfl

/-! ## One step -/

theorem yields_pure {a : α} (h : Q a) : Yields (pure a) Q := h

theorem yields_throw (e : LoadError) : Yields (throw e) Q := trivial

theorem yields_check {x : Except LoadError α} (h : ∀ a, x = .ok a → Q a) :
    Yields (check x) Q := by
  cases x with
  | ok a => exact h a rfl
  | error e => exact trivial

theorem yields_expect {a : α} (h : Q a) : Yields (expect (some a)) Q := h

theorem yields_note_bind {n : Notice} {f : Unit → Load α} (h : Yields (f ()) Q) :
    Yields (note n >>= f) Q := h

theorem yields_notes_bind {ns : List Notice} {f : Unit → Load α} (h : Yields (f ()) Q) :
    Yields (notes ns >>= f) Q := by
  induction ns with
  | nil => exact h
  | cons n ns ih =>
    rw [notes, bind_assoc]
    exact yields_note_bind ih

theorem yields_ask_bind {c : Call} {f : c.Answer → Load α} (h : ∀ answer, Yields (f answer) Q) :
    Yields (ask c >>= f) Q := h

theorem yields_settle {describe : LoadError → Notice} {x : Except LoadError α} :
    Yields (settle describe x) fun _ => True := by
  cases x with
  | ok a => exact trivial
  | error e => exact trivial

theorem yields_settle_bind {describe : LoadError → Notice} {x : Except LoadError β}
    (h : ∀ b, Yields (f b) Q) : Yields (settle describe x >>= f) Q :=
  yields_settle.bind fun b _ => h b

theorem yields_settleIo_bind {describe : IoError → Notice} {x : Except IoError β}
    (h : ∀ b, Yields (f b) Q) : Yields (settleIo describe x >>= f) Q := by
  cases x with
  | ok b => exact h b
  | error e => exact trivial

theorem yields_scratch_bind {n : Nat} {f : Unit → Load α} (h : Yields (f ()) Q) :
    Yields (scratch n >>= f) Q := by
  rw [scratch, bind_assoc]
  refine yields_ask_bind fun granted => ?_
  cases granted with
  | true => exact h
  | false => exact trivial

theorem Yields.reporting (describe : LoadError → Notice) (hp : Yields p P) :
    Yields (reporting describe p) P := by
  refine Program.Yields.bind hp fun result hr => ?_
  cases result with
  | ok b => exact hr
  | error e => exact trivial

end Load

end ElfBoot
