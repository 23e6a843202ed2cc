import ElfBoot.Load.ReadExact

/-!
# Conversations with collaborators

A program that is never disappointed has a conversation with its collaborators that ends of itself.
With collaborators of any kind it gets as far as the first call that fails, and stops there.

* `Event.failure?` — the error that an event is to a load, given the events before it.
* `Fills` — reads that together deliver a number of bytes.
* `Handler.after`, `Program.exists_reply` — the collaborators at each moment of a run.
* `Ends` — how a run relates to an undisturbed conversation: it completes it, or breaks off.
* `Conforms` — the run against any collaborators breaks off some conversation of a given kind.
* `conforms_ask_bind` and the lemmas beside it — one for each way to make a step.
-/

set_option autoImplicit false

namespace ElfBoot

/-! ## Events that fail -/

/-- How many bytes an event delivers. -/
def Event.size : Event → Nat
  | ⟨.read _, .ok c⟩ => c.val.length
  | _ => 0

def Event.isRead : Event → Bool
  | ⟨.read _, _⟩ => true
  | _ => false

/-- How many bytes the reads at the end of a history delivered. -/
def delivered (before : List Event) : Nat :=
  (before.reverse.takeWhile Event.isRead).foldr (fun ev n => n + ev.size) 0

theorem delivered_append_of_not_isRead {before : List Event} {ev : Event}
    (h : ev.isRead = false) : delivered (before ++ [ev]) = 0 := by
  unfold delivered
  rw [List.reverse_append, List.reverse_singleton, List.singleton_append,
    List.takeWhile_cons_of_neg (by rw [h]; exact Bool.false_ne_true)]
  rfl

theorem delivered_append_of_isRead {before : List Event} {ev : Event} (h : ev.isRead = true) :
    delivered (before ++ [ev]) = delivered before + ev.size := by
  unfold delivered
  rw [List.reverse_append, List.reverse_singleton, List.singleton_append,
    List.takeWhile_cons_of_pos h, List.foldr_cons]

/-- The error of an answer. -/
def errorOf? {ε α : Type} : Except ε α → Option ε
  | .ok _ => none
  | .error e => some e

/-- Why an event ends a load, if it does: the error of its answer, the refusal of a buffer, or a
read that delivers nothing, which is reported with all that was asked for since the last call that
was no read, and all that was delivered since then. -/
def Event.failure? (before : List Event) : Event → Option LoadError
  | ⟨.openImage _, answer⟩ => errorOf? answer
  | ⟨.seek _, answer⟩ => (errorOf? answer).map .io
  | ⟨.read _, .error e⟩ => some (.io e)
  | ⟨.read n, .ok c⟩ =>
    if c.val = [] then some (.io (.shortRead (delivered before + n) (delivered before))) else none
  | ⟨.close, answer⟩ => (errorOf? answer).map .io
  | ⟨.reserve _ _, answer⟩ => errorOf? answer
  | ⟨.write _ _, answer⟩ => errorOf? answer
  | ⟨.zero _ _, answer⟩ => errorOf? answer
  | ⟨.scratch n, granted⟩ => if granted then none else some (.allocation (.buffer n))

/-- No event of a conversation fails, given the events before it. -/
def Smooth (before talk : List Event) : Prop :=
  ∀ pre ev post, talk = pre ++ ev :: post → ev.failure? (before ++ pre) = none

theorem smooth_nil {before : List Event} : Smooth before [] := by
  intro pre ev post h
  have hlen := congrArg List.length h
  simp at hlen

theorem Smooth.cons {before talk : List Event} {ev : Event} (hev : ev.failure? before = none)
    (h : Smooth (before ++ [ev]) talk) : Smooth before (ev :: talk) := by
  intro pre ev' post heq
  cases pre with
  | nil =>
    cases heq
    rw [List.append_nil]
    exact hev
  | cons first pre =>
    cases heq
    have hlater := h pre ev' post rfl
    rw [List.append_assoc] at hlater
    exact hlater

/-- Reads that deliver `n` bytes: each asks for what is still missing and delivers some of it. -/
inductive Fills : Nat → List UInt8 → List Event → Prop
  | done : Fills 0 [] []
  | more {n : Nat} {b : UInt8} {bs rest : List UInt8} {reads : List Event}
      (h : bs.length + 1 ≤ n) (hrest : Fills (n - (bs.length + 1)) rest reads) :
      Fills n (b :: bs ++ rest) (⟨.read n, .ok ⟨b :: bs, h⟩⟩ :: reads)

theorem Fills.length_eq {n : Nat} {bs : List UInt8} {reads : List Event} (h : Fills n bs reads) :
    bs.length = n := by
  induction h with
  | done => rfl
  | more h _ ih =>
    rw [List.length_append, List.length_cons, ih]
    omega

/-! ## The moments of a run -/

/-- The collaborators after some calls, unless one of these breaks them. -/
def Handler.after {σ : Type} (h : Handler σ) : List Call → σ → Option σ
  | [], s => some s
  | c :: cs, s => (h.reply c s).bind fun reply => h.after cs reply.state

/-- Every event of a run is the reply of the collaborators as they are at that moment. -/
theorem Program.exists_reply {σ α : Type} (h : Handler σ) (p : Program α) {s : σ}
    {pre post : List Event} {ev : Event} (heq : (p.run h s).events = pre ++ ev :: post) :
    ∃ m reply, h.after (pre.map Event.call) s = some m ∧ h.reply ev.call m = some reply ∧
      reply.answer = ev.answer := by
  have hnil : [] ≠ pre ++ ev :: post := by simp
  induction p generalizing s pre with
  | done value => exact absurd heq hnil
  | fault => exact absurd heq hnil
  | note notice rest ih => exact ih heq hnil
  | call c rest ih =>
    cases hreply : h.reply c s with
    | none =>
      simp only [Program.run, hreply] at heq
      exact absurd heq hnil
    | some reply =>
      simp only [Program.run, hreply] at heq
      cases pre with
      | nil =>
        obtain ⟨rfl, -⟩ := List.cons.inj heq
        exact ⟨s, reply, rfl, hreply, rfl⟩
      | cons first pre =>
        obtain ⟨rfl, htail⟩ := List.cons.inj heq
        obtain ⟨m, later, hafter, hlater, hanswer⟩ := ih reply.answer htail (by simp)
        refine ⟨m, later, ?_, hlater, hanswer⟩
        rw [List.map_cons, Handler.after, hreply]
        exact hafter

/-! ## Runs and conversations -/

section Conforms

variable {σ α β : Type}

/-- How a run relates to a conversation that follows a history and would end with `result`. -/
inductive Ends (h : Handler σ) (before talk : List Event) (result : Except LoadError α)
    (run : Run σ (Except LoadError α)) : Prop
  /-- It is the whole conversation. -/
  | complete (hevents : run.events = talk) (houtcome : run.outcome = .done result)
  /-- It ends early, with the error of the last call. -/
  | failed (pre post : List Event) {c : Call} {answer answer' : c.Answer} {e : LoadError}
      (htalk : talk = pre ++ ⟨c, answer⟩ :: post) (hevents : run.events = pre ++ [⟨c, answer'⟩])
      (hfailure : Event.failure? (before ++ pre) ⟨c, answer'⟩ = some e)
      (houtcome : run.outcome = .done (.error e))
  /-- A collaborator breaks down at the next call. -/
  | broken (pre post : List Event) {ev : Event} (htalk : talk = pre ++ ev :: post)
      (hevents : run.events = pre) (hreply : h.reply ev.call run.state = none)
      (houtcome : run.outcome = .fault)

/-- An event in front of a run and of the conversation it relates to. -/
theorem Ends.cons {h : Handler σ} {before talk : List Event} {result : Except LoadError α}
    {run run' : Run σ (Except LoadError α)} {ev : Event}
    (hends : Ends h (before ++ [ev]) talk result run) (hevents : run'.events = ev :: run.events)
    (houtcome : run'.outcome = run.outcome) (hstate : run'.state = run.state) :
    Ends h before (ev :: talk) result run' := by
  cases hends with
  | complete he ho => exact .complete (by rw [hevents, he]) (houtcome.trans ho)
  | failed pre post ht he hf ho =>
    refine .failed (ev :: pre) post (by rw [ht]; rfl) (by rw [hevents, he]; rfl) ?_
      (houtcome.trans ho)
    rw [List.append_assoc] at hf
    exact hf
  | broken pre post ht he hr ho =>
    refine .broken (ev :: pre) post (by rw [ht]; rfl) (by rw [hevents, he]) ?_
      (houtcome.trans ho)
    rw [hstate]
    exact hr

/-- Where an event stands in a list that ends with `x`. -/
theorem append_singleton_cases {p pre post : List Event} {x ev : Event}
    (h : p ++ [x] = pre ++ ev :: post) :
    (pre = p ∧ ev = x ∧ post = []) ∨ ∃ rest, p = pre ++ ev :: rest := by
  rcases List.eq_nil_or_concat post with rfl | ⟨rest, last, rfl⟩
  · obtain ⟨hp, hx⟩ := List.append_inj' h rfl
    cases hx
    exact Or.inl ⟨hp.symm, rfl, rfl⟩
  · rw [List.concat_eq_append, ← List.cons_append, ← List.append_assoc] at h
    exact Or.inr ⟨rest, (List.append_inj' h rfl).1⟩

/-- The calls of a run are those of its conversation. -/
theorem Ends.exists_talk {h : Handler σ} {before talk pre post : List Event}
    {result : Except LoadError α} {run : Run σ (Except LoadError α)} {ev : Event}
    (hends : Ends h before talk result run) (heq : run.events = pre ++ ev :: post) :
    ∃ ev' post', talk = pre ++ ev' :: post' ∧ ev'.call = ev.call := by
  cases hends with
  | complete he _ =>
    rw [he] at heq
    exact ⟨ev, post, heq, rfl⟩
  | failed p q ht he _ _ =>
    rw [he] at heq
    rcases append_singleton_cases heq with ⟨rfl, rfl, -⟩ | ⟨rest, rfl⟩
    · exact ⟨_, q, ht, rfl⟩
    · exact ⟨ev, _, by rw [ht, List.append_assoc, List.cons_append], rfl⟩
  | broken p q ht he _ _ =>
    rw [he] at heq
    subst heq
    exact ⟨ev, _, by rw [ht, List.append_assoc, List.cons_append], rfl⟩

/-- **The first event that fails** is the last one of a run, and its error that of the run. -/
theorem Ends.stops {h : Handler σ} {before talk pre post : List Event}
    {result : Except LoadError α} {run : Run σ (Except LoadError α)} {ev : Event} {e : LoadError}
    (hends : Ends h before talk result run) (hsmooth : Smooth before talk)
    (heq : run.events = pre ++ ev :: post) (hfail : ev.failure? (before ++ pre) = some e) :
    post = [] ∧ run.outcome = .done (.error e) := by
  have hclash : ∀ rest, talk ≠ pre ++ ev :: rest := by
    intro rest ht
    rw [hsmooth pre ev rest ht] at hfail
    cases hfail
  cases hends with
  | complete he _ => exact absurd (he.symm.trans heq) (hclash post)
  | failed p q ht he hf ho =>
    rw [he] at heq
    rcases append_singleton_cases heq with ⟨rfl, rfl, rfl⟩ | ⟨rest, rfl⟩
    · rw [hf] at hfail
      cases hfail
      exact ⟨rfl, ho⟩
    · rw [List.append_assoc, List.cons_append] at ht
      exact absurd ht (hclash _)
  | broken p q ht he _ _ =>
    rw [he] at heq
    subst heq
    rw [List.append_assoc, List.cons_append] at ht
    exact absurd ht (hclash _)

/-- A run that ends well is the whole conversation. -/
theorem Ends.of_ok {h : Handler σ} {before talk : List Event} {result : Except LoadError α}
    {run : Run σ (Except LoadError α)} {a : α} (hends : Ends h before talk result run)
    (hok : run.outcome = .done (.ok a)) : run.events = talk ∧ result = .ok a := by
  cases hends with
  | complete he ho =>
    rw [ho] at hok
    exact ⟨he, Outcome.done.inj hok⟩
  | failed _ _ _ _ _ ho =>
    rw [ho] at hok
    cases hok
  | broken _ _ _ _ _ ho =>
    rw [ho] at hok
    cases hok

/-- A run that ends with an error has it from its last call or, after the whole conversation, from
itself. -/
theorem Ends.of_error {h : Handler σ} {before talk : List Event} {result : Except LoadError α}
    {run : Run σ (Except LoadError α)} {e : LoadError} (hends : Ends h before talk result run)
    (herror : run.outcome = .done (.error e)) :
    result = .error e ∨
      ∃ pre ev, run.events = pre ++ [ev] ∧ ev.failure? (before ++ pre) = some e := by
  cases hends with
  | complete _ ho =>
    rw [ho] at herror
    exact Or.inl (Outcome.done.inj herror)
  | failed pre _ _ he hf ho =>
    rw [ho] at herror
    cases herror
    exact Or.inr ⟨pre, _, he, hf⟩
  | broken _ _ _ _ _ ho =>
    rw [ho] at herror
    cases herror

/-- Kinds of conversations, each with the result of the program. -/
abbrev Talk (α : Type) := List Event → Except LoadError α → Prop

/-- After a history, the run of a program against any collaborators completes or breaks off a
conversation of the given kind. -/
def Conforms (before : List Event) (p : Load α) (T : Talk α) : Prop :=
  ∀ (σ : Type) (h : Handler σ) (s : σ), ∃ talk result, T talk result ∧ Smooth before talk ∧
    Ends h before talk result (Program.run h p.run s)

/-- The program ends with an error without another call. -/
def Halts (p : Load α) (e : LoadError) : Prop :=
  ∀ (σ : Type) (h : Handler σ) (s : σ), (Program.run h p.run s).events = [] ∧
    (Program.run h p.run s).outcome = .done (.error e)

/-! ## One step -/

variable {before : List Event} {T : Talk α}

theorem Conforms.imp {p : Load α} {U : Talk α} (hp : Conforms before p T)
    (h : ∀ talk result, T talk result → U talk result) : Conforms before p U := by
  intro σ hd s
  obtain ⟨talk, result, ht, hs, he⟩ := hp σ hd s
  exact ⟨talk, result, h talk result ht, hs, he⟩

theorem conforms_check {x : Except LoadError α} (h : T [] x) :
    Conforms before (Load.check x) T := by
  intro σ hd s
  exact ⟨[], x, h, smooth_nil, .complete rfl rfl⟩

theorem conforms_note_bind {n : Notice} {f : Unit → Load α} (h : Conforms before (f ()) T) :
    Conforms before (Load.note n >>= f) T := by
  intro σ hd s
  obtain ⟨talk, result, ht, hs, he⟩ := h σ hd s
  refine ⟨talk, result, ht, hs, ?_⟩
  cases he with
  | complete hev ho => exact .complete hev ho
  | failed pre post htalk hev hf ho => exact .failed pre post htalk hev hf ho
  | broken pre post htalk hev hr ho => exact .broken pre post htalk hev hr ho

theorem conforms_notes_bind {ns : List Notice} {f : Unit → Load α}
    (h : Conforms before (f ()) T) : Conforms before (Load.notes ns >>= f) T := by
  induction ns with
  | nil => exact h
  | cons n ns ih =>
    unfold Load.notes
    rw [bind_assoc]
    exact conforms_note_bind ih

/-- **A call**: whatever answer is no failure is followed by a conversation of its kind, and a
failure by nothing. -/
theorem conforms_ask_bind {c : Call} {f : c.Answer → Load α} {U : c.Answer → Talk α}
    (hex : ∃ answer, Event.failure? before ⟨c, answer⟩ = none)
    (hok : ∀ answer, Event.failure? before ⟨c, answer⟩ = none →
      Conforms (before ++ [⟨c, answer⟩]) (f answer) (U answer))
    (herr : ∀ answer e, Event.failure? before ⟨c, answer⟩ = some e → Halts (f answer) e) :
    Conforms before (Load.ask c >>= f) (fun talk result => ∃ answer rest,
      talk = ⟨c, answer⟩ :: rest ∧ U answer rest result) := by
  intro σ h s
  have hrun : (Load.ask c >>= f).run = .call c fun answer => (f answer).run := rfl
  rw [hrun]
  obtain ⟨answer, hnone⟩ := hex
  cases hr : h.reply c s with
  | none =>
    obtain ⟨talk, result, ht, hs, -⟩ := hok answer hnone σ h s
    refine ⟨⟨c, answer⟩ :: talk, result, ⟨answer, talk, rfl, ht⟩, hs.cons hnone, ?_⟩
    refine .broken [] talk rfl ?_ ?_ ?_
    · simp only [Program.run, hr]
    · simp only [Program.run, hr]
    · simp only [Program.run, hr]
  | some reply =>
    cases hfail : Event.failure? before ⟨c, reply.answer⟩ with
    | none =>
      obtain ⟨talk, result, ht, hs, he⟩ := hok reply.answer hfail σ h reply.state
      refine ⟨⟨c, reply.answer⟩ :: talk, result, ⟨reply.answer, talk, rfl, ht⟩,
        hs.cons hfail, he.cons ?_ ?_ ?_⟩
      · simp only [Program.run, hr]
      · simp only [Program.run, hr]
      · simp only [Program.run, hr]
    | some e =>
      obtain ⟨talk, result, ht, hs, -⟩ := hok answer hnone σ h s
      obtain ⟨hevents, houtcome⟩ := herr reply.answer e hfail σ h reply.state
      have hone : (Program.run h (.call c fun answer => (f answer).run) s).events =
          [] ++ [⟨c, reply.answer⟩] := by
        simp only [Program.run, hr, hevents]
        rfl
      have hend : (Program.run h (.call c fun answer => (f answer).run) s).outcome =
          .done (.error e) := by
        simp only [Program.run, hr]
        exact houtcome
      have hfail : Event.failure? (before ++ []) ⟨c, reply.answer⟩ = some e := by
        rw [List.append_nil]
        exact hfail
      exact ⟨⟨c, answer⟩ :: talk, result, ⟨answer, talk, rfl, ht⟩, hs.cons hnone,
        .failed [] talk rfl hone hfail hend⟩

/-- A call that can succeed in one way only. -/
theorem conforms_ask_bind_of_unique {c : Call} {f : c.Answer → Load α} (answer : c.Answer)
    (hunique : ∀ other, Event.failure? before ⟨c, other⟩ = none ↔ other = answer)
    (herr : ∀ other e, Event.failure? before ⟨c, other⟩ = some e → Halts (f other) e)
    (hok : Conforms (before ++ [⟨c, answer⟩]) (f answer) T) :
    Conforms before (Load.ask c >>= f) (fun talk result => ∃ rest,
      talk = ⟨c, answer⟩ :: rest ∧ T rest result) := by
  have hall : ∀ other, Event.failure? before ⟨c, other⟩ = none →
      Conforms (before ++ [⟨c, other⟩]) (f other) fun rest result =>
        other = answer ∧ T rest result := by
    intro other hother
    have heq := (hunique other).1 hother
    subst heq
    exact hok.imp fun talk result ht => ⟨rfl, ht⟩
  refine (conforms_ask_bind ⟨answer, (hunique answer).2 rfl⟩ hall herr).imp ?_
  rintro talk result ⟨other, rest, rfl, rfl, ht⟩
  exact ⟨rest, rfl, ht⟩

theorem errorOf?_eq_none_iff {ε : Type} {x : Except ε Unit} : errorOf? x = none ↔ x = .ok () := by
  cases x with
  | ok u => exact ⟨fun _ => rfl, fun _ => rfl⟩
  | error e =>
    constructor
    · intro h
      cases h
    · intro h
      cases h

theorem errorOf?_eq_some {ε : Type} {x : Except ε α} {e : ε} (h : errorOf? x = some e) :
    x = .error e := by
  cases x with
  | ok a => cases h
  | error e' =>
    cases h
    rfl

/-- A call whose answer is a success or an error of the load. -/
theorem conforms_settle_bind {c : Call} (answer : c.Answer)
    (view : c.Answer → Except LoadError Unit) {describe : LoadError → Notice} {f : Unit → Load α}
    (hview : ∀ other, Event.failure? before ⟨c, other⟩ = errorOf? (view other))
    (hanswer : ∀ other, view other = .ok () ↔ other = answer)
    (h : Conforms (before ++ [⟨c, answer⟩]) (f ()) T) :
    Conforms before (Load.ask c >>= fun other => Load.settle describe (view other) >>= f)
      (fun talk result => ∃ rest, talk = ⟨c, answer⟩ :: rest ∧ T rest result) := by
  refine conforms_ask_bind_of_unique answer (fun other => ?_) (fun other e he => ?_) ?_
  · rw [hview, errorOf?_eq_none_iff, hanswer]
  · rw [hview] at he
    rw [errorOf?_eq_some he]
    exact fun _ _ _ => ⟨rfl, rfl⟩
  · rw [(hanswer answer).2 rfl]
    exact h

/-- A call whose answer is a success or an error of the file. -/
theorem conforms_settleIo_bind {c : Call} (answer : c.Answer)
    (view : c.Answer → Except IoError Unit) {describe : IoError → Notice} {f : Unit → Load α}
    (hview : ∀ other, Event.failure? before ⟨c, other⟩ = (errorOf? (view other)).map .io)
    (hanswer : ∀ other, view other = .ok () ↔ other = answer)
    (h : Conforms (before ++ [⟨c, answer⟩]) (f ()) T) :
    Conforms before (Load.ask c >>= fun other => Load.settleIo describe (view other) >>= f)
      (fun talk result => ∃ rest, talk = ⟨c, answer⟩ :: rest ∧ T rest result) := by
  refine conforms_ask_bind_of_unique answer (fun other => ?_) (fun other e he => ?_) ?_
  · rw [hview, Option.map_eq_none_iff, errorOf?_eq_none_iff, hanswer]
  · rw [hview] at he
    obtain ⟨cause, hcause, rfl⟩ := Option.map_eq_some_iff.1 he
    rw [errorOf?_eq_some hcause]
    exact fun _ _ _ => ⟨rfl, rfl⟩
  · rw [(hanswer answer).2 rfl]
    exact h

theorem conforms_seek_bind {offset : Nat} {describe : IoError → Notice} {f : Unit → Load α}
    (h : Conforms (before ++ [⟨.seek offset, .ok ()⟩]) (f ()) T) :
    Conforms before
      (Load.ask (.seek offset) >>= fun answer => Load.settleIo describe answer >>= f)
      (fun talk result => ∃ rest, talk = ⟨.seek offset, .ok ()⟩ :: rest ∧ T rest result) :=
  conforms_settleIo_bind (c := .seek offset) (.ok ()) id (fun _ => rfl) (fun _ => Iff.rfl) h

theorem conforms_scratch_bind {n : Nat} {f : Unit → Load α}
    (h : Conforms (before ++ [⟨.scratch n, true⟩]) (f ()) T) :
    Conforms before (Load.scratch n >>= f)
      (fun talk result => ∃ rest, talk = ⟨.scratch n, true⟩ :: rest ∧ T rest result) := by
  unfold Load.scratch
  rw [bind_assoc]
  refine conforms_ask_bind_of_unique (c := .scratch n) true (fun other => ?_)
    (fun other e he => ?_) h
  · cases other with
    | true => exact ⟨fun _ => rfl, fun _ => rfl⟩
    | false =>
      constructor
      · intro hno
        cases hno
      · intro hno
        cases hno
  · cases other with
    | true => cases he
    | false =>
      cases he
      exact fun _ _ _ => ⟨rfl, rfl⟩

/-! ## Reading -/

theorem failure?_read_nil {n : Nat} (h : ([] : List UInt8).length ≤ n) :
    Event.failure? before ⟨.read n, .ok ⟨[], h⟩⟩ =
      some (.io (.shortRead (delivered before + n) (delivered before))) := rfl

theorem failure?_read_cons {n : Nat} {b : UInt8} {bs : List UInt8} (h : (b :: bs).length ≤ n) :
    Event.failure? before ⟨.read n, .ok ⟨b :: bs, h⟩⟩ = none := rfl

/-- The conversations that go on from a read with reads of what is still missing. -/
def afterRead (missing : Nat) (U : List UInt8 → Talk α) : Except IoError (Chunk missing) → Talk α
  | .ok ⟨b :: bs, _⟩ => fun talk result => ∃ rest reads tail,
      Fills (missing - (bs.length + 1)) rest reads ∧ talk = reads ++ tail ∧
        U (b :: bs ++ rest) tail result
  | _ => fun _ _ => False

/-- **Reading on**: the reads deliver what is missing, or the first one that delivers nothing ends
the conversation. -/
theorem conforms_fillMore {expected missing : Nat} (acc : List UInt8)
    {k : List UInt8 × Except LoadError Unit → Load α} {U : List UInt8 → Talk α}
    (hexpected : expected = delivered before + missing)
    (hok : ∀ bs reads, Fills missing bs reads →
      Conforms (before ++ reads) (k (acc.reverse ++ bs, .ok ())) (U bs))
    (herr : ∀ acc' e, Halts (k (acc', .error e)) e) :
    Conforms before (ExceptT.mk ((Load.fillMore expected missing acc).bind fun p => (k p).run))
      (fun talk result => ∃ bs reads rest, Fills missing bs reads ∧ talk = reads ++ rest ∧
        U bs rest result) := by
  induction missing using Nat.strongRecOn generalizing before acc U with
  | ind missing ih =>
  rw [Load.fillMore]
  by_cases hzero : missing = 0
  · subst hzero
    rw [dif_pos rfl]
    have hend := hok [] [] .done
    rw [List.append_nil, List.append_nil] at hend
    exact hend.imp fun talk result ht => ⟨[], [], talk, .done, rfl, ht⟩
  rw [dif_neg hzero]
  refine (conforms_ask_bind (c := .read missing) (U := afterRead missing U) ?_ ?_ ?_).imp ?_
  · exact ⟨.ok ⟨[0], Nat.pos_of_ne_zero hzero⟩, failure?_read_cons _⟩
  · intro answer hnone
    rcases answer with e | ⟨_ | ⟨b, bs⟩, hbs⟩
    · cases hnone
    · rw [failure?_read_nil] at hnone
      cases hnone
    · have hle : bs.length + 1 ≤ missing := hbs
      refine ih (missing - (bs.length + 1)) (by omega) (bs.reverse ++ b :: acc) ?_ ?_
      · rw [delivered_append_of_isRead rfl]
        show expected = delivered before + (bs.length + 1) + (missing - (bs.length + 1))
        omega
      · intro rest reads hfills
        have hmore := hok (b :: bs ++ rest) _ (.more hle hfills)
        rw [List.append_cons] at hmore
        simpa using hmore
  · intro answer e he
    rcases answer with cause | ⟨_ | ⟨b, bs⟩, hbs⟩
    · cases he
      exact herr _ _
    · rw [failure?_read_nil] at he
      cases he
      have hdelivered : expected - missing = delivered before := by omega
      rw [← hexpected, ← hdelivered]
      exact herr _ _
    · rw [failure?_read_cons] at he
      cases he
  · rintro talk result ⟨answer, rest, rfl, hafter⟩
    rcases answer with e | ⟨_ | ⟨b, bs⟩, hbs⟩
    · exact hafter.elim
    · exact hafter.elim
    · obtain ⟨more, reads, tail, hfills, rfl, ht⟩ := hafter
      exact ⟨_, _, tail, .more hbs hfills, rfl, ht⟩

/-- Reading exactly `n` bytes after a call that is no read. -/
theorem conforms_readExact_bind {n : Nat} {f : List UInt8 → Load α} {U : List UInt8 → Talk α}
    (hbefore : delivered before = 0)
    (hok : ∀ bs reads, Fills n bs reads → Conforms (before ++ reads) (f bs) (U bs)) :
    Conforms before (Load.readExact n >>= f)
      (fun talk result => ∃ bs reads rest, Fills n bs reads ∧ talk = reads ++ rest ∧
        U bs rest result) := by
  have hform : Load.readExact n >>= f = ExceptT.mk ((Load.fillMore n n []).bind fun p =>
      (Load.check (p.2.map fun _ => p.1) >>= f).run) := by
    show Program.bind (Program.bind _ _) _ = Program.bind _ _
    rw [Program.bind_assoc]
    rfl
  rw [hform]
  refine conforms_fillMore [] (k := fun p => Load.check (p.2.map fun _ => p.1) >>= f)
    (by rw [hbefore, Nat.zero_add]) ?_ ?_
  · intro bs reads hfills
    exact hok bs reads hfills
  · intro acc e _ _ _
    exact ⟨rfl, rfl⟩

/-- The same, with an error reported. -/
theorem conforms_read_bind {n : Nat} (describe : LoadError → Notice) {f : List UInt8 → Load α}
    {U : List UInt8 → Talk α} (hbefore : delivered before = 0)
    (hok : ∀ bs reads, Fills n bs reads → Conforms (before ++ reads) (f bs) (U bs)) :
    Conforms before (Load.reporting describe (Load.readExact n) >>= f)
      (fun talk result => ∃ bs reads rest, Fills n bs reads ∧ talk = reads ++ rest ∧
        U bs rest result) := by
  have hform : Load.reporting describe (Load.readExact n) >>= f =
      ExceptT.mk ((Load.fillMore n n []).bind fun p =>
        (Load.settle describe (p.2.map fun _ => p.1) >>= f).run) := by
    show Program.bind (Program.bind (Program.bind _ _) _) _ = Program.bind _ _
    rw [Program.bind_assoc, Program.bind_assoc]
    rfl
  rw [hform]
  refine conforms_fillMore [] (k := fun p => Load.settle describe (p.2.map fun _ => p.1) >>= f)
    (by rw [hbefore, Nat.zero_add]) ?_ ?_
  · intro bs reads hfills
    exact hok bs reads hfills
  · intro acc e _ _ _
    exact ⟨rfl, rfl⟩

end Conforms

end ElfBoot
