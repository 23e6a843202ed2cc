import ElfBoot.Program

/-!
# What a run ensures

A run that ends well ends with a value and leaves a state.  `Ensures h p Q s` says that the run of
`p` from `s` meets no fault and that `Q` holds of its value and of the state it leaves.

* `Program.Ensures` — for programs; `Load.Ensures` for programs that may stop with an error, where
  `Q` also judges the error.
* `Load.ensures_bind` — a sequence ensures what its second part ensures after its first; an error
  of the first part is the error of both.
* `Load.ensures_ask_bind` and the lemmas beside it — one for each way to make a step.  Notices
  leave no mark on value and state, so a step that reports ensures what the same step in silence
  does.
-/

set_option autoImplicit false

namespace ElfBoot

variable {σ α β : Type}

namespace Program

/-- The run of `p` from `s` ends without a fault, with a value and a state of which `Q` holds. -/
def Ensures (h : Handler σ) (p : Program α) (Q : α → σ → Prop) (s : σ) : Prop :=
  ∃ value, (p.run h s).outcome = .done value ∧ Q value (p.run h s).state

section Steps

variable {h : Handler σ} {s : σ}

theorem ensures_done {value : α} {Q : α → σ → Prop} :
    (done value).Ensures h Q s ↔ Q value s := by
  constructor
  · rintro ⟨_, heq, hq⟩
    cases heq
    exact hq
  · intro hq
    exact ⟨value, rfl, hq⟩

theorem ensures_note {notice : Notice} {p : Program α} {Q : α → σ → Prop} :
    (note notice p).Ensures h Q s ↔ p.Ensures h Q s := Iff.rfl

theorem ensures_call {c : Call} {rest : c.Answer → Program α} {Q : α → σ → Prop} :
    (call c rest).Ensures h Q s ↔
      ∃ reply, h.reply c s = some reply ∧ (rest reply.answer).Ensures h Q reply.state := by
  constructor
  · rintro ⟨value, heq, hq⟩
    cases hr : h.reply c s with
    | none => simp [run, hr] at heq
    | some reply =>
      simp only [run, hr] at heq hq
      exact ⟨reply, rfl, value, heq, hq⟩
  · rintro ⟨reply, hr, value, heq, hq⟩
    refine ⟨value, ?_, ?_⟩
    · simp only [run, hr]; exact heq
    · simp only [run, hr]; exact hq

theorem Ensures.mono {p : Program α} {P Q : α → σ → Prop} (hp : p.Ensures h P s)
    (hpq : ∀ a s', P a s' → Q a s') : p.Ensures h Q s := by
  obtain ⟨value, heq, hP⟩ := hp
  exact ⟨value, heq, hpq _ _ hP⟩

theorem ensures_bind {f : α → Program β} {Q : β → σ → Prop} {p : Program α} :
    (p.bind f).Ensures h Q s ↔ p.Ensures h (fun a s' => (f a).Ensures h Q s') s := by
  induction p generalizing s with
  | done value => rw [ensures_done]; rfl
  | fault =>
    constructor
    · rintro ⟨_, heq, _⟩; cases heq
    · rintro ⟨_, heq, _⟩; cases heq
  | note notice rest ih => rw [bind, ensures_note, ensures_note, ih]
  | call c rest ih => simp only [bind, ensures_call, ih]

end Steps

end Program

namespace Load

/-- `Program.Ensures` for a program that may stop with an error. -/
def Ensures (h : Handler σ) (p : Load α) (Q : Except LoadError α → σ → Prop) (s : σ) : Prop :=
  Program.Ensures h p.run Q s

variable {h : Handler σ} {s : σ} {Q : Except LoadError α → σ → Prop}

theorem ensures_pure {a : α} : Ensures h (pure a) Q s ↔ Q (.ok a) s := Program.ensures_done

theorem ensures_throw {e : LoadError} : Ensures h (throw e) Q s ↔ Q (.error e) s :=
  Program.ensures_done

theorem ensures_check {x : Except LoadError α} : Ensures h (check x) Q s ↔ Q x s :=
  Program.ensures_done

/-- A sequence goes on with the second part after a value, and stops after an error. -/
theorem run_bind (p : Load β) (f : β → Load α) :
    (p >>= f).run = p.run.bind fun
      | .ok a => (f a).run
      | .error e => .done (.error e) := by
  show Program.bind _ _ = Program.bind _ _
  congr 1
  funext r
  cases r <;> rfl

theorem ensures_bind {p : Load β} {f : β → Load α} :
    Ensures h (p >>= f) Q s ↔
      Ensures h p (fun r s' =>
        match r with
        | .ok a => Ensures h (f a) Q s'
        | .error e => Q (.error e) s') s := by
  rw [Ensures, run_bind, Program.ensures_bind, Ensures]
  constructor
  · intro hp
    refine hp.mono fun r s' hr => ?_
    cases r with
    | ok a => exact hr
    | error e =>
      have hdone : (Program.done (.error e)).Ensures h Q s' := hr
      rwa [Program.ensures_done] at hdone
  · intro hp
    refine hp.mono fun r s' hr => ?_
    cases r with
    | ok a => exact hr
    | error e => exact Program.ensures_done.2 hr

theorem Ensures.mono {p : Load α} {P : Except LoadError α → σ → Prop} (hp : Ensures h p P s)
    (hpq : ∀ r s', P r s' → Q r s') : Ensures h p Q s := Program.Ensures.mono hp hpq

/-- **Sequencing**: go on from what the first part ensures, by how it ended. -/
theorem Ensures.bind {p : Load β} {f : β → Load α} {P : Except LoadError β → σ → Prop}
    (hp : Ensures h p P s) (hok : ∀ a s', P (.ok a) s' → Ensures h (f a) Q s')
    (herr : ∀ e s', P (.error e) s' → Q (.error e) s') : Ensures h (p >>= f) Q s := by
  refine ensures_bind.2 (hp.mono fun r s' hr => ?_)
  cases r with
  | ok a => exact hok a s' hr
  | error e => exact herr e s' hr

/-- What a run ensures is true of how it ended. -/
theorem Ensures.of_outcome {p : Load α} {result : Except LoadError α} (hp : Ensures h p Q s)
    (ho : (Program.run h p.run s).outcome = .done result) :
    Q result (Program.run h p.run s).state := by
  obtain ⟨value, hv, hq⟩ := hp
  rw [ho] at hv
  cases hv
  exact hq

theorem ensures_note_bind {n : Notice} {f : Unit → Load α} :
    Ensures h (note n >>= f) Q s ↔ Ensures h (f ()) Q s := by
  rw [ensures_bind]
  exact Program.ensures_note.trans (Program.ensures_done (h := h))

theorem ensures_notes_bind {ns : List Notice} {f : Unit → Load α} :
    Ensures h (notes ns >>= f) Q s ↔ Ensures h (f ()) Q s := by
  induction ns with
  | nil => rw [ensures_bind]; exact Program.ensures_done
  | cons n ns ih => rw [notes, bind_assoc, ensures_note_bind, ih]

theorem ensures_check_bind {x : Except LoadError β} {f : β → Load α} :
    Ensures h (check x >>= f) Q s ↔
      match x with
      | .ok a => Ensures h (f a) Q s
      | .error e => Q (.error e) s := by
  rw [ensures_bind, ensures_check]

theorem ensures_expect_bind {a : β} {f : β → Load α} :
    Ensures h (expect (some a) >>= f) Q s ↔ Ensures h (f a) Q s := by
  rw [ensures_bind]; exact Program.ensures_done

theorem ensures_throw_bind {e : LoadError} {f : β → Load α} :
    Ensures h (throw e >>= f) Q s ↔ Q (.error e) s := by
  rw [ensures_bind, ensures_throw]

theorem ensures_ask_bind {c : Call} {f : c.Answer → Load α} :
    Ensures h (ask c >>= f) Q s ↔
      ∃ reply, h.reply c s = some reply ∧ Ensures h (f reply.answer) Q reply.state := by
  have hrun : (ask c >>= f).run = .call c fun answer => (f answer).run := rfl
  rw [Ensures, hrun, Program.ensures_call]
  rfl

/-- A settled answer counts for what it is; what is reported about an error leaves no mark. -/
theorem ensures_settle {describe : LoadError → Notice} {x : Except LoadError α} :
    Ensures h (settle describe x) Q s ↔ Q x s := by
  cases x with
  | ok a => exact ensures_pure
  | error e => rw [settle, ensures_note_bind, ensures_throw]

theorem ensures_settle_bind {describe : LoadError → Notice} {x : Except LoadError β}
    {f : β → Load α} :
    Ensures h (settle describe x >>= f) Q s ↔
      match x with
      | .ok a => Ensures h (f a) Q s
      | .error e => Q (.error e) s := by
  rw [ensures_bind, ensures_settle]

theorem ensures_settleIo_bind {describe : IoError → Notice} {x : Except IoError β}
    {f : β → Load α} :
    Ensures h (settleIo describe x >>= f) Q s ↔
      match x with
      | .ok a => Ensures h (f a) Q s
      | .error e => Q (.error (.io e)) s := by
  cases x with
  | ok a => rw [settleIo, pure_bind]
  | error e => rw [settleIo, bind_assoc, ensures_note_bind, ensures_throw_bind]

theorem ensures_reporting {describe : LoadError → Notice} {p : Load α} :
    Ensures h (reporting describe p) Q s ↔ Ensures h p Q s := by
  refine Program.ensures_bind.trans ?_
  constructor
  · intro hp
    exact hp.mono fun r s' hr => ensures_settle.1 hr
  · intro hp
    exact hp.mono fun r s' hr => ensures_settle.2 hr

end Load

end ElfBoot
